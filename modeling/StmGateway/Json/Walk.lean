import StmGateway.Json.Count
import StmGateway.Json.Items
import StmGateway.Json.Layout

/-!
# Lookups in a JSON text

A path of member names and indices leads in the tokens of a text to the value
that it leads to in the text itself.
-/
namespace StmGateway.Json.Walk

open StmGateway.Lib StmGateway.Json.Jsmn StmGateway.Json.Grammar StmGateway.Json.Switch
open StmGateway.Json.Tree StmGateway.Json.DealCmd StmGateway.Json.Lookup StmGateway.Json.Items
open StmGateway.Json.Parse StmGateway.Json.Layout

/-- The elements of an array, in order. -/
def elementsOf : Elements → List Value
  | .one _ v _ => [v]
  | .cons _ v _ rest => v :: elementsOf rest

/-- The member or the element of a value. -/
def valueAt : Value → Access → Option Value
  | .object ms, .key name => ms.first name
  | .array es, .index i => if 0 ≤ i then (elementsOf es)[i.toNat]? else none
  | _, _ => none

/-- The value at the end of a path. -/
def valueOf (v : Value) : List Access → Option Value
  | [] => some v
  | a :: path => (valueAt v a).bind fun w => valueOf w path

def kindOf : Value → TokType
  | .string _ => .string
  | .primitive _ => .primitive
  | .emptyArray _ => .array
  | .array _ => .array
  | .emptyObject _ => .object
  | .object _ => .object

/-- What `JSMN_GetArraySize` is to return. -/
def arraySize : Value → Int
  | .emptyArray _ => 0
  | .array es => (elementsOf es).length
  | _ => -1

/-- What a fetch is to return, and to leave in the buffer. -/
def fetchedOf (v : Value) (buf : Nat → UInt8) : Int × (Nat → UInt8) :=
  match v.raw with
  | some text => ((text.take 63).length, fetched text buf)
  | none => (-1, fetched [] buf)

/-- Whether an item stands at a member name and not at the value. -/
def byKey (b : Bool) : List Access → Bool
  | [] => b
  | .key _ :: path => byKey true path
  | .index _ :: path => byKey false path

/-- The fetch for an item at a member name, or at a value. -/
def fetch (js : Nat → UInt8) (len : Nat) (p : Parser) (b : Bool) (item : Item) (buf : Nat → UInt8) :
    Option (Int × (Nat → UInt8)) :=
  if b then jsmnGetValueStringBuffered js len p item buf jsonAgeSize
  else jsmnGetStringBuffered js len p item buf jsonAgeSize

/-- The value has its tokens from `k` on, and no others are below its first one. -/
structure Rooted (js : Nat → UInt8) (len : Nat) (p : Parser) (v : Value) (k : Nat) : Prop where
  shows : Shows js len p.tokens v k
  room : k + v.size ≤ p.toknext
  apart : ∀ j, k + v.size ≤ j → j < p.toknext →
    (p.tokens j).parent < k ∨ (k + v.size : Nat) ≤ (p.tokens j).parent

/-- The item of token `k` is one of the value. -/
inductive Denotes (js : Nat → UInt8) (len : Nat) (p : Parser) : Bool → Nat → Value → Prop
  | value {v : Value} {k : Nat} : Rooted js len p v k → Denotes js len p false k v
  | member {v : Value} {k : Nat} : (p.tokens k).type = .string → (p.tokens k).size = 1 →
      (p.tokens (k + 1)).parent = k → Rooted js len p v (k + 1) → Denotes js len p true k v

/-- The token of the value that an item is one of. -/
def target (b : Bool) (k : Nat) : Nat := if b then k + 1 else k

variable {js : Nat → UInt8} {len numTokens : Nat} {p : Parser} {v : Value} {b : Bool} {k : Nat}

theorem shows_type (h : Shows js len p.tokens v k) : (p.tokens k).type = kindOf v := by
  cases v with
  | string text => exact h.1
  | primitive prim => exact h.1
  | emptyArray space => exact h
  | array es => exact h.1
  | emptyObject space => exact h
  | object ms => exact h.1

theorem Rooted.lt (h : Rooted js len p v k) : k < p.toknext := by
  have hsize := value_size_pos v
  have hroom := h.room
  omega

theorem Denotes.lt (h : Denotes js len p b k v) : k < p.toknext := by
  cases h with
  | value h => exact h.lt
  | member _ _ _ h => exact Nat.lt_of_succ_lt h.lt

theorem Denotes.rooted (h : Denotes js len p b k v) : Rooted js len p v (target b k) := by
  cases h with
  | value h => exact h
  | member _ _ _ h => exact h

section Children

variable (hsound : Sound len numTokens p)
include hsound

/-- A value with one token has no children. -/
theorem childless (h : Rooted js len p v k) (hsize : v.size = 1) : children p k = [] := by
  rw [children_eq hsound h.lt, List.filter_eq_nil_iff]
  intro j hj
  have hin := List.mem_range'_1.mp hj
  rw [decide_eq_true_iff]
  rcases h.apart j (by omega) (by omega) with hlow | hup <;> omega

/-- The container an item is one of. -/
theorem containerAt_eq (h : Denotes js len p b k v) {type : TokType}
    (htype : type = .object ∨ type = .array) :
    containerAt p type k = if kindOf v = type then some (target b k) else none := by
  have hstring : TokType.string ≠ type := by
    rcases htype with rfl | rfl <;> decide
  cases h with
  | value h =>
    rw [containerAt, shows_type h.shows]
    by_cases hkind : kindOf v = type
    · rw [if_pos hkind, if_pos hkind]
      rfl
    · rw [if_neg hkind, if_neg hkind, if_neg]
      rintro ⟨hname, hsize, _⟩
      rw [shows_type h.shows] at hname
      have hone : v.size = 1 := by
        cases v with
        | string text => rfl
        | _ => cases hname
      rw [hsound.sizes k h.lt, childless hsound h hone] at hsize
      exact absurd hsize (by decide)
  | member hname hsize hparent h =>
    rw [containerAt, hname, if_neg hstring, if_pos ⟨hname, hsize, h.lt⟩, shows_type h.shows]
    by_cases hkind : kindOf v = type
    · rw [if_pos ⟨hkind, hparent⟩, if_pos hkind]
      rfl
    · rw [if_neg fun h => hkind h.1, if_neg hkind]

end Children

section Elements

/-- The first tokens of the elements. -/
def starts : Elements → Nat → List Nat
  | .one _ _ _, m => [m]
  | .cons _ v _ rest, m => m :: starts rest (m + v.size)

theorem starts_length : ∀ (es : Elements) (m : Nat), (starts es m).length = (elementsOf es).length
  | .one _ _ _, _ => rfl
  | .cons _ v _ rest, m => congrArg (· + 1) (starts_length rest (m + v.size))

/-- A part of a container: its tokens, and those behind it up to `stop` are not below it. -/
structure Part (js : Nat → UInt8) (len : Nat) (tokens : Nat → Tok) (v : Value) (k stop : Nat) :
    Prop where
  shows : Shows js len tokens v k
  room : k + v.size ≤ stop
  apart : ∀ j, k + v.size ≤ j → j < stop →
    (tokens j).parent < k ∨ (k + v.size : Nat) ≤ (tokens j).parent

/-- A part of what is a value of the text is one. -/
theorem Part.rooted {m stop : Nat} {c : Nat} (h : Part js len p.tokens v m stop) (hlo : c < m)
    (hroom : stop ≤ p.toknext)
    (hapart : ∀ j, stop ≤ j → j < p.toknext →
      (p.tokens j).parent < c ∨ (stop : Int) ≤ (p.tokens j).parent) : Rooted js len p v m := by
  have hin := h.room
  refine ⟨h.shows, by omega, fun j hj hlt => ?_⟩
  by_cases hbefore : j < stop
  · exact h.apart j hj hbefore
  · rcases hapart j (by omega) hlt with hlow | hup <;> omega

variable {tokens : Nat → Tok} {n : Nat}

/-- Of the tokens of an element the first one is a child of the array. -/
theorem filter_value {m : Nat} (hn : n < m) (hparent : (tokens m).parent = n)
    (hshows : Shows js len tokens v m) :
    (List.range' m v.size).filter (fun j => (tokens j).parent = n) = [m] := by
  have hsize := value_size_pos v
  rw [show v.size = (v.size - 1) + 1 by omega, List.range'_succ,
    List.filter_cons_of_pos (by simpa using hparent), List.cons_inj_right, List.filter_eq_nil_iff]
  intro j hj
  have hin := List.mem_range'_1.mp hj
  have hlow := shows_inside v m hshows j (by omega) (by omega)
  rw [decide_eq_true_iff]
  omega

theorem filter_elements : ∀ (es : Elements) (m : Nat), n < m → ShowsElements js len tokens n es m →
    (List.range' m es.size).filter (fun j => (tokens j).parent = n) = starts es m
  | .one _ _ _, _, hn, h => filter_value hn h.1 h.2
  | .cons _ v _ rest, m, hn, h => by
    rw [Elements.size, ← List.range'_append_1, List.filter_append, filter_value hn h.1 h.2.1,
      filter_elements rest (m + v.size) (by omega) h.2.2]
    rfl

/-- An index that is in order finds a part, one that is not finds nothing. -/
inductive Finds (js : Nat → UInt8) (len : Nat) (tokens : Nat → Tok) (lo stop : Nat) :
    Option Nat → Option Value → Prop
  | nothing : Finds js len tokens lo stop none none
  | part {m : Nat} {v : Value} : lo ≤ m → Part js len tokens v m stop →
      Finds js len tokens lo stop (some m) (some v)

theorem Finds.mono {lo lo' stop : Nat} {found : Option Nat} {value : Option Value}
    (h : Finds js len tokens lo' stop found value) (hle : lo ≤ lo') :
    Finds js len tokens lo stop found value := by
  cases h with
  | nothing => exact .nothing
  | part hlo hpart => exact .part (hle.trans hlo) hpart

theorem element_at : ∀ (es : Elements) (m i : Nat), n < m → ShowsElements js len tokens n es m →
    Finds js len tokens m (m + es.size) (starts es m)[i]? (elementsOf es)[i]?
  | .one _ v _, m, 0, _, h => .part le_rfl ⟨h.2, le_rfl, fun j hlo hhi => by
      simp only [Elements.size] at hhi
      omega⟩
  | .one _ _ _, _, _ + 1, _, _ => .nothing
  | .cons _ v _ rest, m, 0, hn, h => by
    refine .part le_rfl ⟨h.2.1, by simp only [Elements.size]; omega, fun j hlo hhi => ?_⟩
    simp only [Elements.size] at hhi
    rcases showsElements_inside rest n _ h.2.2 j hlo (by omega) with hown | hlow <;> omega
  | .cons _ v _ rest, m, i + 1, hn, h => by
    have hrest := element_at rest (m + v.size) i (by omega) h.2.2
    rw [Nat.add_assoc] at hrest
    exact hrest.mono (Nat.le_add_right _ _)

end Elements

section Members

variable {tokens : Nat → Tok} {n : Nat}

/-- The token of the first member name that is the one asked for. -/
def keyAt (name : List UInt8) : Members → Nat → Option Nat
  | .one key _ _, m => if raw key.name = name then some m else none
  | .cons key v _ rest, m =>
    if raw key.name = name then some m else keyAt name rest (m + 1 + v.size)

theorem named_key {key : Key} {m : Nat} (h : ShowsKey js len p.tokens n key m) (name : List UInt8) :
    named js len p n name m = decide (raw key.name = name) := by
  simp only [named, h.type, h.parent, Carries.frameSlice h.name, Option.some.injEq, true_and]

/-- The tokens of a value are no member names of the object it is in. -/
theorem find_value {m : Nat} (hn : n < m) (hparent : (p.tokens (m + 1)).parent = m)
    (hshows : Shows js len p.tokens v (m + 1)) (name : List UInt8) :
    (List.range' (m + 1) v.size).find? (named js len p n name) = none := by
  rw [List.find?_eq_none]
  intro j hj
  have hin := List.mem_range'_1.mp hj
  simp only [named, decide_eq_true_iff]
  rintro ⟨_, hown, _⟩
  obtain rfl | hlt := Nat.eq_or_lt_of_le hin.1
  · omega
  · have hlow := shows_inside v (m + 1) hshows j hlt hin.2
    omega

theorem find_members (name : List UInt8) : ∀ (ms : Members) (m : Nat), n < m →
    ShowsMembers js len p.tokens n ms m →
    (List.range' m ms.size).find? (named js len p n name) = keyAt name ms m
  | .one key v _, m, hn, h => by
    rw [Members.size, Nat.add_comm, List.range'_succ, List.find?_cons, named_key h.1, keyAt,
      find_value hn h.1.value h.2]
    by_cases heq : raw key.name = name
    · rw [decide_eq_true heq, if_pos heq]
    · rw [decide_eq_false heq, if_neg heq]
  | .cons key v _ rest, m, hn, h => by
    rw [Members.size, show 1 + v.size + rest.size = v.size + rest.size + 1 by omega,
      List.range'_succ, List.find?_cons, named_key h.1, keyAt, ← List.range'_append_1,
      List.find?_append, find_value hn h.1.value h.2.1,
      find_members name rest (m + 1 + v.size) (by omega) h.2.2]
    by_cases heq : raw key.name = name
    · rw [decide_eq_true heq, if_pos heq]
    · rw [decide_eq_false heq, if_neg heq]
      rfl

/-- The name is found where the object has it, with its value behind it. -/
inductive FindsKey (js : Nat → UInt8) (len : Nat) (tokens : Nat → Tok) (n lo stop : Nat) :
    Option Nat → Option Value → Prop
  | nothing : FindsKey js len tokens n lo stop none none
  | part {m : Nat} {key : Key} {v : Value} : lo ≤ m → ShowsKey js len tokens n key m →
      Part js len tokens v (m + 1) stop → FindsKey js len tokens n lo stop (some m) (some v)

theorem FindsKey.mono {lo lo' stop : Nat} {found : Option Nat} {value : Option Value}
    (h : FindsKey js len tokens n lo' stop found value) (hle : lo ≤ lo') :
    FindsKey js len tokens n lo stop found value := by
  cases h with
  | nothing => exact .nothing
  | part hlo hkey hpart => exact .part (hle.trans hlo) hkey hpart

theorem member_at (name : List UInt8) : ∀ (ms : Members) (m : Nat), n < m →
    ShowsMembers js len tokens n ms m →
    FindsKey js len tokens n m (m + ms.size) (keyAt name ms m) (ms.first name)
  | .one key v _, m, hn, h => by
    rw [keyAt, Members.first, Members.size]
    by_cases heq : raw key.name = name
    · rw [if_pos heq, if_pos heq]
      exact .part le_rfl h.1 ⟨h.2, by omega, fun j hlo hhi => by omega⟩
    · rw [if_neg heq, if_neg heq]
      exact .nothing
  | .cons key v _ rest, m, hn, h => by
    rw [keyAt, Members.first, Members.size]
    by_cases heq : raw key.name = name
    · rw [if_pos heq, if_pos heq]
      refine .part le_rfl h.1 ⟨h.2.1, by omega, fun j hlo hhi => ?_⟩
      rcases showsMembers_inside rest n _ h.2.2 j hlo (by omega) with hown | hlow <;> omega
    · rw [if_neg heq, if_neg heq]
      have hrest := member_at name rest (m + 1 + v.size) (by omega) h.2.2
      rw [show m + 1 + v.size + rest.size = m + (1 + v.size + rest.size) by omega] at hrest
      exact hrest.mono (by omega)

end Members

section Steps

variable (hsound : Sound len numTokens p)
include hsound

theorem children_elements {es : Elements} {c : Nat} (h : Rooted js len p (.array es) c) :
    children p c = starts es (c + 1) := by
  have hroom := h.room
  simp only [Value.size] at hroom
  have hsplit : p.toknext - (c + 1) = es.size + (p.toknext - (c + 1 + es.size)) := by omega
  have hrest : (List.range' (c + 1 + es.size) (p.toknext - (c + 1 + es.size))).filter
      (fun j => (p.tokens j).parent = c) = [] := by
    rw [List.filter_eq_nil_iff]
    intro j hj
    have hin := List.mem_range'_1.mp hj
    rw [decide_eq_true_iff]
    rcases h.apart j (by simp only [Value.size]; omega) (by omega) with hlow | hup
    · omega
    · simp only [Value.size] at hup
      omega
  rw [children_eq hsound h.lt, hsplit, ← List.range'_append_1, List.filter_append,
    filter_elements es (c + 1) (Nat.lt_succ_self c) h.shows.2, hrest, List.append_nil]

theorem find_object {ms : Members} {c : Nat} (h : Rooted js len p (.object ms) c)
    (name : List UInt8) :
    (children p c).find? (named js len p c name) = keyAt name ms (c + 1) := by
  have hroom := h.room
  simp only [Value.size] at hroom
  have hsplit : p.toknext - (c + 1) = ms.size + (p.toknext - (c + 1 + ms.size)) := by omega
  have hrest : (List.range' (c + 1 + ms.size) (p.toknext - (c + 1 + ms.size))).find?
      (named js len p c name) = none := by
    rw [List.find?_eq_none]
    intro j hj
    have hin := List.mem_range'_1.mp hj
    simp only [named, decide_eq_true_iff]
    rintro ⟨_, hown, _⟩
    rcases h.apart j (by simp only [Value.size]; omega) (by omega) with hlow | hup
    · omega
    · simp only [Value.size] at hup
      omega
  rw [find_children hsound h.lt, hsplit, ← List.range'_append_1, List.find?_append,
    find_members name ms (c + 1) (Nat.lt_succ_self c) h.shows.2, hrest, Option.or_none]

/-- One lookup: to the member or the element, or nowhere where the value has none. -/
inductive Leads (js : Nat → UInt8) (len : Nat) (p : Parser) (b : Bool) :
    Option Nat → Option Value → Prop
  | nowhere : Leads js len p b none none
  | there {j : Nat} {w : Value} : Denotes js len p b j w → Leads js len p b (some j) (some w)

theorem key_leads (h : Denotes js len p b k v) (name : List UInt8) :
    Leads js len p true (child js len p k (.key name)) (valueAt v (.key name)) := by
  have hrooted := h.rooted
  rw [child, containerAt_eq hsound h (.inl rfl)]
  cases v with
  | emptyObject space =>
    rw [kindOf, if_pos rfl, Option.bind_some, childless hsound hrooted rfl]
    exact .nowhere
  | object ms =>
    rw [kindOf, if_pos rfl, Option.bind_some, find_object hsound hrooted]
    have hroom := hrooted.room
    have hapart := hrooted.apart
    simp only [Value.size] at hroom hapart
    have hfinds := member_at name ms (target b k + 1) (Nat.lt_succ_self _) hrooted.shows.2
    rw [show target b k + 1 + ms.size = target b k + (1 + ms.size) by omega] at hfinds
    change Leads js len p true _ (ms.first name)
    generalize keyAt name ms (target b k + 1) = found at hfinds ⊢
    generalize ms.first name = value at hfinds ⊢
    cases hfinds with
    | nothing => exact .nowhere
    | part hlo hkey hpart =>
      exact .there (.member hkey.type hkey.size hkey.value (hpart.rooted (by omega) hroom hapart))
  | _ => exact .nowhere

theorem index_leads (h : Denotes js len p b k v) (i : Int) :
    Leads js len p false (child js len p k (.index i)) (valueAt v (.index i)) := by
  have hrooted := h.rooted
  rw [child, containerAt_eq hsound h (.inr rfl)]
  by_cases hneg : 0 ≤ i
  · rw [if_pos hneg]
    cases v with
    | emptyArray space =>
      rw [kindOf, if_pos rfl, Option.bind_some, childless hsound hrooted rfl]
      exact .nowhere
    | array es =>
      rw [kindOf, if_pos rfl, Option.bind_some, children_elements hsound hrooted, valueAt, if_pos hneg]
      have hroom := hrooted.room
      have hapart := hrooted.apart
      simp only [Value.size] at hroom hapart
      have hfinds := element_at es (target b k + 1) i.toNat (Nat.lt_succ_self _) hrooted.shows.2
      rw [show target b k + 1 + es.size = target b k + (1 + es.size) by omega] at hfinds
      generalize (starts es (target b k + 1))[i.toNat]? = found at hfinds ⊢
      generalize (elementsOf es)[i.toNat]? = value at hfinds ⊢
      cases hfinds with
      | nothing => exact .nowhere
      | part hlo hpart => exact .there (.value (hpart.rooted (by omega) hroom hapart))
    | _ => exact .nowhere
  · rw [if_neg hneg]
    cases v with
    | array es =>
      rw [valueAt, if_neg hneg]
      exact .nowhere
    | _ => exact .nowhere

/-- The path leads in the tokens to where it leads in the text. -/
theorem descend_leads : ∀ (path : List Access) {b : Bool} {k : Nat} {v : Value},
    Denotes js len p b k v →
    Leads js len p (byKey b path) (descend js len p k path) (valueOf v path) := by
  intro path
  induction path with
  | nil =>
    intro b k v h
    exact .there h
  | cons a path ih =>
    intro b k v h
    have hstep : Leads js len p (byKey b [a]) (child js len p k a) (valueAt v a) := by
      cases a with
      | key name => exact key_leads hsound h name
      | index i => exact index_leads hsound h i
    have hpath : byKey b (a :: path) = byKey (byKey b [a]) path := by
      cases a <;> rfl
    rw [descend, valueOf, hpath]
    generalize child js len p k a = found at hstep ⊢
    generalize valueAt v a = value at hstep ⊢
    cases hstep with
    | nowhere => exact .nowhere
    | there h => exact ih h

theorem arraySize_eq (h : Denotes js len p b k v) :
    jsmnGetArraySize p (itemAt p.toknext k) = some (arraySize v) := by
  have hrooted := h.rooted
  rw [jsmnGetArraySize_eq hsound h.lt, containerAt_eq hsound h (.inr rfl)]
  cases v with
  | emptyArray space =>
    rw [kindOf, if_pos rfl, Option.map_some, childless hsound hrooted rfl]
    rfl
  | array es =>
    rw [kindOf, if_pos rfl, Option.map_some, children_elements hsound hrooted, starts_length]
    rfl
  | _ => rfl

end Steps

/-- The fetch at the token of a value. -/
theorem value_fetched {item : Item} (htok : p.tok item.t = some (p.tokens k))
    (h : Shows js len p.tokens v k) (buf : Nat → UInt8) :
    jsmnGetStringBuffered js len p item buf jsonAgeSize = some (fetchedOf v buf) := by
  have hkind := shows_type h
  have hcontainer : kindOf v ≠ .string → kindOf v ≠ .primitive →
      jsmnGetStringBuffered js len p item buf jsonAgeSize = some (-1, fetched [] buf) := by
    intro hstring hprimitive
    rw [← hkind] at hstring hprimitive
    exact jsmnGetStringBuffered_container htok ⟨hstring, hprimitive⟩ buf
  cases v with
  | string text =>
    exact jsmnGetStringBuffered_leaf htok (.inl hkind) (Carries.frameSlice h.2) buf
  | primitive prim =>
    exact jsmnGetStringBuffered_leaf htok (.inr hkind) (Carries.frameSlice h.2) buf
  | _ => exact hcontainer (by intro hk; cases hk) (by intro hk; cases hk)

theorem fetch_eq (h : Denotes js len p b k v) (buf : Nat → UInt8) :
    fetch js len p b (itemAt p.toknext k) buf = some (fetchedOf v buf) := by
  have hlt := h.lt
  cases h with
  | value h => exact value_fetched (tok_itemAt hlt _) h.shows buf
  | member htype hsize hparent h =>
    change jsmnGetValueStringBuffered js len p _ buf jsonAgeSize = _
    have hkey : IsKey p k := ⟨htype, hsize, h.lt⟩
    simp only [jsmnGetValueStringBuffered, tok_itemAt hlt, Option.bind_eq_bind, Option.bind_some,
      not_isKey, itemAt_succ]
    rw [if_neg (by decide), if_neg (not_not.mpr hkey)]
    exact value_fetched (tok_itemAt h.lt _) h.shows buf

/-- A text: one value, with white space around it. -/
def text (before : Space) (v : Value) (after : Space) : List UInt8 :=
  before.text ++ v.bytes ++ after.text

section Texts

variable {before after : Space} (tk : Nat → Tok) (hread : ReadsAt js 0 (text before v after))
  (hlen : (text before v after).length = len)
include hread hlen

theorem text_parsed (hroom : v.size ≤ numTokens) :
    ∃ p, Returns (fun fuel => jsmnParse js len numTokens fuel (jsmnInit tk)) (v.size, p) ∧
      Denotes js len p false 0 v := by
  rw [text, readsAt_append, readsAt_append] at hread
  obtain ⟨⟨hbefore, hvalue⟩, hafter⟩ := hread
  rw [text, List.length_append, List.length_append] at hlen
  rw [List.length_append, Nat.zero_add] at hafter
  rw [Nat.zero_add] at hvalue
  have hend : before.text.length + v.bytes.length = len ∨
      before.text.length + v.bytes.length < len ∧
        endsPrimitive (js (before.text.length + v.bytes.length)) = true := by
    obtain ⟨blanks, blank⟩ := after
    cases blanks with
    | nil => exact .inl hlen
    | cons b blanks =>
      rw [List.length_cons] at hlen
      rw [(readsAt_cons.mp hafter).1]
      exact .inr ⟨by omega, ends_blank (blank b List.mem_cons_self)⟩
  have hfirst := @space_steps js len numTokens (jsmnInit tk) _ before.blank hbefore
    (by simp only [jsmnInit]; omega)
  obtain ⟨p, hsteps, hplaced, hshows⟩ := @root_decodes js len numTokens
    { jsmnInit tk with pos := before.text.length } v hvalue hend
    (by simpa only [jsmnInit, Nat.zero_add] using hroom) (by simp [jsmnInit]) (by simp [jsmnInit])
  have hpos := hplaced.pos
  have hnext := hplaced.next
  have hcount := hplaced.count
  simp only [jsmnInit, Nat.zero_add] at hpos hnext hcount hshows hfirst
  have hlast := @space_steps js len numTokens p _ after.blank (by rw [hpos]; exact hafter) (by omega)
  refine ⟨{ p with pos := p.pos + after.text.length }, ?_, .value ⟨hshows, ?_, fun j hlo hhi => ?_⟩⟩
  · have hend := @parseLoop_end js len { p with pos := p.pos + after.text.length } numTokens
      (by simp only; omega) (fun j hj => by
        rcases Nat.eq_zero_or_pos j with rfl | hj0
        · exact hplaced.closed
        · exact (hplaced.inside j (by simp only [jsmnInit]; omega) hj).1)
    have hparse := parseLoop_steps ((hfirst.trans hsteps).trans hlast) hend
    rw [← hcount]
    exact hparse
  · simp only [Nat.zero_add, hnext, le_refl]
  · simp only [hnext] at hhi
    omega

/-- Every path of lookups ends where the text has it, and nowhere where it has none.
The size of the item is that of the value there, and the fetch its text, cut to 63
bytes. -/
theorem text_walk (hroom : v.size ≤ numTokens) :
    ∃ p, Returns (fun fuel => jsmnParse js len numTokens fuel (jsmnInit tk)) (v.size, p) ∧
      ∀ path,
        (valueOf v path = none → walk js len p (jsmnItemInit 0 0 v.size) path = some none) ∧
        ∀ w, valueOf v path = some w → ∃ item,
          walk js len p (jsmnItemInit 0 0 v.size) path = some (some item) ∧
          jsmnGetArraySize p item = some (arraySize w) ∧
          ∀ buf, fetch js len p (byKey false path) item buf = some (fetchedOf w buf) := by
  obtain ⟨p, hparse, hroot⟩ := text_parsed tk hread hlen hroom
  obtain ⟨hsound, hnext⟩ := parsed_sound hparse (Nat.cast_nonneg _)
  have hitem : jsmnItemInit 0 0 (v.size : Int) = itemAt p.toknext 0 := by
    simp only [jsmnItemInit, itemAt, Item.mk.injEq]
    omega
  refine ⟨p, hparse, fun path => ?_⟩
  have hleads := descend_leads hsound path hroot
  rw [hitem, walk_eq hsound path hroot.lt]
  generalize descend js len p 0 path = found at hleads ⊢
  generalize valueOf v path = value at hleads ⊢
  cases hleads with
  | nowhere => exact ⟨fun _ => rfl, fun w hw => absurd hw (by intro h; cases h)⟩
  | there h =>
    refine ⟨fun hnone => absurd hnone (by intro h; cases h), fun w hw => ?_⟩
    cases hw
    exact ⟨_, rfl, arraySize_eq hsound h, fetch_eq h⟩

/-- A text needs as many tokens as it has values and names: without an array that
is the count, and an array that is smaller ends the parse. -/
theorem text_capacity :
    (∃ m, Returns (fun fuel => Count.jsmnParseNull js len fuel (jsmnInit tk)) (v.size, m)) ∧
      ∀ numTokens, ∃ p, Returns (fun fuel => jsmnParse js len numTokens fuel (jsmnInit tk))
        (if v.size ≤ numTokens then (v.size : Int) else jsmnErrorNomem, p) := by
  obtain ⟨c, m, hnull, hall⟩ := Count.null_fits js len tk
  have hpart : jsmnErrorPart = -3 := rfl
  have hinval : jsmnErrorInval = -2 := rfl
  have hnomem : jsmnErrorNomem = -1 := rfl
  have hc : c = v.size := by
    obtain ⟨r, q, hrun, hfits⟩ := hall v.size
    obtain ⟨p, hparse, _⟩ := text_parsed tk hread hlen (le_refl v.size)
    cases hrun.unique hparse
    unfold Count.Fits at hfits
    split_ifs at hfits <;> omega
  refine ⟨⟨m, hc ▸ hnull⟩, fun numTokens => ?_⟩
  by_cases hroom : v.size ≤ numTokens
  · obtain ⟨p, hparse, _⟩ := text_parsed tk hread hlen hroom
    rw [if_pos hroom]
    exact ⟨p, hparse⟩
  · obtain ⟨r, q, hrun, hfits⟩ := hall numTokens
    obtain ⟨p, hparse, _⟩ := text_parsed tk hread hlen (le_refl v.size)
    rw [if_neg hroom]
    refine ⟨q, ?_⟩
    by_cases hr : r = jsmnErrorNomem
    · rw [← hr]
      exact hrun
    · cases (Count.parse_larger (by omega) hrun hr).unique hparse
      rw [Count.Fits, if_neg (by omega), if_neg (by omega)] at hfits
      omega

end Texts

theorem sample_text : text ⟨[], nofun⟩ (.object sample) ⟨[], nofun⟩ = sampleFrame := by decide

theorem sample_reads : ReadsAt (fun i => sampleFrame.getD i 0) 0
    (text ⟨[], nofun⟩ (.object sample) ⟨[], nofun⟩) := by
  rw [sample_text]
  exact readsAt_getD sampleFrame

/-- The member `age` of the member `l`. -/
theorem text_walk_sample :
    ∃ p item, walk (fun i => sampleFrame.getD i 0) sampleFrame.length p
        (jsmnItemInit 0 0 (Value.object sample).size) [.key [0x6c], .key [0x61, 0x67, 0x65]] =
          some (some item) ∧
      ∀ buf, fetch (fun i => sampleFrame.getD i 0) sampleFrame.length p true item buf =
        some (1, fetched [0x6e] buf) := by
  obtain ⟨p, _, hwalk⟩ := text_walk (fun _ => ⟨.undefined, 0, 0, 0, 0⟩) sample_reads
    (by rw [sample_text]) (le_refl (Value.object sample).size)
  obtain ⟨item, hitem, _, hfetch⟩ := (hwalk [.key [0x6c], .key [0x61, 0x67, 0x65]]).2 _ rfl
  exact ⟨p, item, hitem, hfetch⟩

/-- With ten tokens for the eleven of the text. -/
theorem text_capacity_sample :
    ∃ p, Returns (fun fuel => jsmnParse (fun i => sampleFrame.getD i 0) sampleFrame.length 10 fuel
      (jsmnInit fun _ => ⟨.undefined, 0, 0, 0, 0⟩)) (jsmnErrorNomem, p) :=
  (text_capacity (fun _ => ⟨.undefined, 0, 0, 0, 0⟩) sample_reads (by rw [sample_text])).2 10

end StmGateway.Json.Walk
