import StmGateway.Json.Safety

/-!
# Items of any text

The array functions of `jsmn_util.c` beside `JSMN_GetObjectItem`, and what the
lookups of an item find: the member names and the children of its container, in
the order of the tokens.
-/
namespace StmGateway.Json.Items

open StmGateway.Lib StmGateway.Json.Jsmn StmGateway.Json.Switch StmGateway.Json.Tree
open StmGateway.Json.DealCmd StmGateway.Json.Lookup StmGateway.Json.Safety

section Model

variable (js : Nat → UInt8) (len : Nat) (p : Parser)

/-- `JSMN_GetArraySize`. -/
def jsmnGetArraySize (array : Item) : Option Int := do
  let token ← p.tok array.t
  if token.type = .array then return token.size
  if token.type ≠ .string ∨ token.size ≠ 1 ∨ array.leftNum ≤ 0 then return -1
  let t ← p.tok (array.t + 1)
  if t.type ≠ .array ∨ t.parent ≠ array.index then return -1
  return t.size

/-- The loop of `JSMN_GetArrayItem` over what is left from the `i`-th token on. -/
def nthChild (arrayTok : Item) : Nat → Nat → Int → Option (Option Item)
  | 0, _, _ => some none
  | left + 1, i, index => do
    let t ← p.tok (arrayTok.t + i)
    if t.parent = arrayTok.index then
      if 0 < index then nthChild arrayTok left (i + 1) (index - 1)
      else return some ⟨arrayTok.t + i, arrayTok.index + i, arrayTok.leftNum - i⟩
    else nthChild arrayTok left (i + 1) index

/-- `JSMN_GetArrayItem`: the item, `none` where it returns -1. -/
def jsmnGetArrayItem (array : Item) (index : Int) : Option (Option Item) := do
  if index < 0 then return none
  if (← jsmnGetArraySize p array) ≤ index then return none
  let token ← p.tok array.t
  let arrayTok := if token.type = .array then array
    else ⟨array.t + 1, array.index + 1, array.leftNum - 1⟩
  nthChild p arrayTok arrayTok.leftNum.toNat 1 index

/-- A step to a member or to an element. -/
inductive Access where
  | key (name : List UInt8)
  | index (i : Int)

def step (item : Item) : Access → Option (Option Item)
  | .key name => jsmnGetObjectItem js len p item name
  | .index i => jsmnGetArrayItem p item i

/-- One lookup after the other, up to the first that returns -1. -/
def walk (item : Item) : List Access → Option (Option Item)
  | [] => some (some item)
  | a :: path => do
    match ← step js len p item a with
    | none => return none
    | some item => walk item path

end Model

variable {js : Nat → UInt8} {len numTokens : Nat} {p : Parser}

/-- The token `k` is a member name with a value behind it. -/
def IsKey (p : Parser) (k : Nat) : Prop :=
  (p.tokens k).type = .string ∧ (p.tokens k).size = 1 ∧ k + 1 < p.toknext

instance (p : Parser) (k : Nat) : Decidable (IsKey p k) :=
  inferInstanceAs (Decidable (_ ∧ _))

/-- The container of the type that the token `k` is, or that is its value. -/
def containerAt (p : Parser) (type : TokType) (k : Nat) : Option Nat :=
  if (p.tokens k).type = type then some k
  else if IsKey p k then
    if (p.tokens (k + 1)).type = type ∧ (p.tokens (k + 1)).parent = k then some (k + 1) else none
  else none

theorem containerAt_lt {type : TokType} {k c : Nat} (hk : k < p.toknext)
    (hc : containerAt p type k = some c) : c < p.toknext ∧ (p.tokens c).type = type := by
  unfold containerAt at hc
  split_ifs at hc with htype hkey hvalue
  · cases hc
    exact ⟨hk, htype⟩
  · cases hc
    exact ⟨hkey.2.2, hvalue.1⟩

/-- The token has the name of a member of the token `c`. -/
def named (js : Nat → UInt8) (len : Nat) (p : Parser) (c : Nat) (name : List UInt8) (j : Nat) : Bool :=
  (p.tokens j).type = .string ∧ (p.tokens j).parent = c ∧
    frameSlice js len (p.tokens j).start (p.tokens j).stop = some name

theorem tok_itemAt {k : Nat} (hk : k < p.toknext) (n : Nat) :
    p.tok (itemAt n k).t = some (p.tokens k) := by
  rw [itemAt, tok_eq (by simp only; omega) (by simp only; omega), Int.toNat_natCast]

theorem tok_behind {k : Nat} (hk : k + 1 < p.toknext) (n : Nat) :
    p.tok ((itemAt n k).t + 1) = some (p.tokens (k + 1)) := by
  rw [itemAt, tok_eq (by simp only; omega) (by simp only; omega)]
  rfl

theorem itemAt_index (n k : Nat) : (itemAt n k).index = k := rfl

/-- The item behind another one. -/
theorem itemAt_succ (n k : Nat) :
    (⟨(itemAt n k).t + 1, (itemAt n k).index + 1, (itemAt n k).leftNum - 1⟩ : Item) =
      itemAt n (k + 1) := by
  simp only [itemAt, Item.mk.injEq]
  omega

/-- The item `i` tokens behind another one. -/
theorem itemAt_add (n c i : Nat) :
    (⟨(itemAt n c).t + i, (itemAt n c).index + i, (itemAt n c).leftNum - i⟩ : Item) =
      itemAt n (c + i) := by
  simp only [itemAt, Item.mk.injEq]
  omega

/-- The check of the source for a name without a value. -/
theorem not_isKey {k : Nat} : (p.tokens k).type ≠ .string ∨ (p.tokens k).size ≠ 1 ∨
    (itemAt p.toknext k).leftNum ≤ 0 ↔ ¬IsKey p k := by
  simp only [IsKey, itemAt, not_and_or, not_lt]
  exact or_congr_right (or_congr_right (by omega))

/-- And for a value that is not the container. -/
theorem not_value {type : TokType} {k : Nat} : (p.tokens (k + 1)).type ≠ type ∨
    (p.tokens (k + 1)).parent ≠ (itemAt p.toknext k).index ↔
    ¬((p.tokens (k + 1)).type = type ∧ (p.tokens (k + 1)).parent = k) := by
  rw [itemAt_index, not_and_or]

theorem objectOf_eq {k : Nat} (hk : k < p.toknext) :
    objectOf p (itemAt p.toknext k) =
      some ((containerAt p .object k).map (itemAt p.toknext)) := by
  simp only [objectOf, tok_itemAt hk, Option.bind_eq_bind, Option.bind_some, containerAt, not_isKey]
  by_cases hobject : (p.tokens k).type = .object
  · rw [if_pos hobject, if_pos hobject]
    rfl
  · rw [if_neg hobject, if_neg hobject]
    by_cases hkey : IsKey p k
    · rw [if_neg (not_not.mpr hkey), if_pos hkey, tok_behind hkey.2.2, Option.bind_some]
      simp only [not_value, itemAt_succ]
      by_cases hvalue : (p.tokens (k + 1)).type = .object ∧ (p.tokens (k + 1)).parent = k
      · rw [if_pos hvalue, if_neg (not_not.mpr hvalue)]
        rfl
      · rw [if_neg hvalue, if_pos hvalue]
        rfl
    · rw [if_pos hkey, if_neg hkey]
      rfl

section Scans

/-- The tokens of a container's children stand behind it. -/
theorem children_eq (h : Sound len numTokens p) {c : Nat} (hc : c < p.toknext) :
    children p c =
      (List.range' (c + 1) (p.toknext - (c + 1))).filter fun j => (p.tokens j).parent = c := by
  have hsplit : List.range p.toknext =
      List.range' 0 (c + 1) ++ List.range' (c + 1) (p.toknext - (c + 1)) := by
    rw [List.range_eq_range', show p.toknext = c + 1 + (p.toknext - (c + 1)) by omega,
      ← List.range'_append_1, Nat.zero_add, Nat.add_sub_cancel_left]
  have hnone : (List.range' 0 (c + 1)).filter (fun j => (p.tokens j).parent = c) = [] := by
    rw [List.filter_eq_nil_iff]
    intro j hj
    have hlt := (List.mem_range'_1.mp hj).2
    have hup := (h.parent j (by omega)).2
    rw [decide_eq_true_iff]
    omega
  rw [children, hsplit, List.filter_append, hnone, List.nil_append]

theorem findKey_eq (h : Sound len numTokens p) {c : Nat} (name : List UInt8) : ∀ (left i : Nat),
    c + i + left ≤ p.toknext →
    findKey js len p (itemAt p.toknext c) name left i =
      some (((List.range' (c + i) left).find? (named js len p c name)).map (itemAt p.toknext)) := by
  intro left
  induction left with
  | zero => 
    intro i _
    rfl
  | succ left ih =>
    intro i hleft
    have htok : p.tok ((itemAt p.toknext c).t + i) = some (p.tokens (c + i)) := by
      rw [itemAt, tok_eq (by simp only; omega) (by simp only; omega)]
      rfl
    have hrest := ih (i + 1) (by omega)
    rw [← Nat.add_assoc] at hrest
    rw [findKey, htok, Option.bind_eq_bind, Option.bind_some, List.range'_succ, hrest, itemAt_add,
      itemAt_index]
    by_cases hkey : (p.tokens (c + i)).type = .string ∧ (p.tokens (c + i)).parent = c
    · obtain ⟨text, htext⟩ := leaf_slice js h (show c + i < p.toknext by omega) (.inl hkey.1)
      have hnamed : named js len p c name (c + i) = decide (text = name) := by
        simp only [named, htext, Option.some.injEq, hkey, true_and]
      rw [if_pos hkey, jsonTokenStreq_eq htext, Option.bind_eq_bind, Option.bind_some,
        List.find?_cons, hnamed]
      by_cases heq : text = name
      · rw [if_pos (decide_eq_true heq), decide_eq_true heq]
        rfl
      · rw [if_neg (by simpa using heq), decide_eq_false heq]
    · have hnamed : named js len p c name (c + i) = false := by
        rw [named, decide_eq_false_iff_not]
        exact fun hall => hkey ⟨hall.1, hall.2.1⟩
      rw [if_neg hkey, List.find?_cons, hnamed]

/-- The loop of `JSMN_GetArrayItem` counts the tokens that have the parent. -/
theorem nthChild_eq {c : Nat} : ∀ (left i index : Nat), c + i + left ≤ p.toknext →
    nthChild p (itemAt p.toknext c) left i index =
      some ((((List.range' (c + i) left).filter fun j => (p.tokens j).parent = c)[index]?).map
        (itemAt p.toknext)) := by
  intro left
  induction left with
  | zero =>
    intro i index _
    rfl
  | succ left ih =>
    intro i index hleft
    have htok : p.tok ((itemAt p.toknext c).t + i) = some (p.tokens (c + i)) := by
      rw [itemAt, tok_eq (by simp only; omega) (by simp only; omega)]
      rfl
    rw [nthChild, htok, Option.bind_eq_bind, Option.bind_some, List.range'_succ, itemAt_add,
      itemAt_index]
    by_cases hchild : (p.tokens (c + i)).parent = c
    · rw [if_pos hchild, List.filter_cons_of_pos (by simpa using hchild)]
      cases index with
      | zero => rfl
      | succ index =>
        rw [if_pos (by omega), show ((index + 1 : Nat) : Int) - 1 = index by omega, List.getElem?_cons_succ]
        exact ih (i + 1) index (by omega)
    · rw [if_neg hchild, List.filter_cons_of_neg (by simpa using hchild)]
      exact ih (i + 1) index (by omega)

end Scans

section Lookups

variable (h : Sound len numTokens p)

/-- How many tokens stand behind one. -/
theorem leftNum_eq {c : Nat} (hc : c < p.toknext) :
    (itemAt p.toknext c).leftNum = (p.toknext - (c + 1) : Nat) := by
  simp only [itemAt]
  omega

include h

theorem find_children {c : Nat} (hc : c < p.toknext) (name : List UInt8) :
    (children p c).find? (named js len p c name) =
      (List.range' (c + 1) (p.toknext - (c + 1))).find? (named js len p c name) := by
  rw [children_eq h hc, List.find?_filter]
  congr 1
  funext j
  rw [named, Bool.eq_iff_iff]
  simp only [decide_eq_true_iff]
  exact ⟨And.right, fun hall => ⟨hall.2.1, hall⟩⟩

theorem jsmnGetObjectItem_eq {k : Nat} (hk : k < p.toknext) (name : List UInt8) :
    jsmnGetObjectItem js len p (itemAt p.toknext k) name =
      some (((containerAt p .object k).bind fun c =>
        (children p c).find? (named js len p c name)).map (itemAt p.toknext)) := by
  rw [jsmnGetObjectItem, objectOf_eq hk, Option.bind_eq_bind, Option.bind_some]
  cases hc : containerAt p .object k with
  | none => rfl
  | some c =>
    obtain ⟨hlt, _⟩ := containerAt_lt hk hc
    simp only [Option.map_some, Option.bind_some, leftNum_eq hlt, find_children h hlt]
    split
    · next hzero =>
      rw [show p.toknext - (c + 1) = 0 by omega]
      rfl
    · exact findKey_eq h name _ 1 (by omega)

theorem jsmnGetArraySize_eq {k : Nat} (hk : k < p.toknext) :
    jsmnGetArraySize p (itemAt p.toknext k) =
      some (((containerAt p .array k).map fun c => ((children p c).length : Int)).getD (-1)) := by
  simp only [jsmnGetArraySize, tok_itemAt hk, Option.bind_eq_bind, Option.bind_some, containerAt,
    not_isKey]
  by_cases harray : (p.tokens k).type = .array
  · rw [if_pos harray, if_pos harray, h.sizes k hk]
    rfl
  · rw [if_neg harray, if_neg harray]
    by_cases hkey : IsKey p k
    · rw [if_neg (not_not.mpr hkey), if_pos hkey, tok_behind hkey.2.2, Option.bind_some]
      simp only [not_value]
      by_cases hvalue : (p.tokens (k + 1)).type = .array ∧ (p.tokens (k + 1)).parent = k
      · rw [if_pos hvalue, if_neg (not_not.mpr hvalue), h.sizes (k + 1) hkey.2.2]
        rfl
      · rw [if_neg hvalue, if_pos hvalue]
        rfl
    · rw [if_pos hkey, if_neg hkey]
      rfl

theorem jsmnGetArrayItem_eq {k : Nat} (hk : k < p.toknext) (index : Int) :
    jsmnGetArrayItem p (itemAt p.toknext k) index =
      some ((if 0 ≤ index then (containerAt p .array k).bind fun c => (children p c)[index.toNat]?
        else none).map (itemAt p.toknext)) := by
  have hkind : containerAt p .array k = some k ∧ (p.tokens k).type = .array ∨
      (p.tokens k).type ≠ .array ∧ ∀ c, containerAt p .array k = some c → c = k + 1 := by
    unfold containerAt
    by_cases harray : (p.tokens k).type = .array
    · exact .inl ⟨if_pos harray, harray⟩
    · refine .inr ⟨harray, fun c hc => ?_⟩
      rw [if_neg harray] at hc
      split_ifs at hc
      cases hc
      rfl
  simp only [jsmnGetArrayItem, jsmnGetArraySize_eq h hk, tok_itemAt hk, Option.bind_eq_bind,
    Option.bind_some, itemAt_succ]
  by_cases hneg : index < 0
  · rw [if_pos hneg, if_neg (show ¬0 ≤ index by omega)]
    rfl
  · rw [if_neg hneg, if_pos (show 0 ≤ index by omega)]
    obtain ⟨i, rfl⟩ := Int.eq_ofNat_of_zero_le (not_lt.mp hneg)
    cases hc : containerAt p .array k with
    | none =>
      rw [Option.map_none, Option.getD_none, if_pos (show (-1 : Int) ≤ i by omega)]
      rfl
    | some c =>
      have hitem : (if (p.tokens k).type = .array then itemAt p.toknext k
          else itemAt p.toknext (k + 1)) = itemAt p.toknext c := by
        rcases hkind with ⟨hself, harray⟩ | ⟨hother, hnext⟩
        · cases hc.symm.trans hself
          exact if_pos harray
        · cases hnext c hc
          exact if_neg hother
      obtain ⟨hlt, _⟩ := containerAt_lt hk hc
      rw [hitem, leftNum_eq hlt, Int.toNat_natCast, nthChild_eq _ 1 i (by omega), ← children_eq h hlt]
      simp only [Option.map_some, Option.getD_some, Option.bind_some, Int.toNat_natCast, Nat.cast_le]
      split
      · next hout =>
        rw [List.getElem?_eq_none hout]
        rfl
      · rfl

end Lookups

/-- A step in the tree of the tokens. -/
def child (js : Nat → UInt8) (len : Nat) (p : Parser) (k : Nat) : Access → Option Nat
  | .key name =>
    (containerAt p .object k).bind fun c => (children p c).find? (named js len p c name)
  | .index i =>
    if 0 ≤ i then (containerAt p .array k).bind fun c => (children p c)[i.toNat]? else none

/-- The token at the end of a path. -/
def descend (js : Nat → UInt8) (len : Nat) (p : Parser) (k : Nat) : List Access → Option Nat
  | [] => some k
  | a :: path => (child js len p k a).bind fun j => descend js len p j path

theorem child_lt {k j : Nat} {a : Access} (ha : child js len p k a = some j) : j < p.toknext := by
  have hmem : ∃ c, j ∈ children p c := by
    cases a with
    | key name =>
      obtain ⟨c, _, hj⟩ := Option.bind_eq_some_iff.mp ha
      exact ⟨c, List.mem_of_find?_eq_some hj⟩
    | index i =>
      rw [child] at ha
      split at ha
      · obtain ⟨c, _, hj⟩ := Option.bind_eq_some_iff.mp ha
        exact ⟨c, List.mem_of_getElem? hj⟩
      · cases ha
  obtain ⟨c, hj⟩ := hmem
  exact List.mem_range.mp (List.mem_of_mem_filter hj)

theorem step_eq (h : Sound len numTokens p) {k : Nat} (hk : k < p.toknext) (a : Access) :
    step js len p (itemAt p.toknext k) a =
      some ((child js len p k a).map (itemAt p.toknext)) := by
  cases a with
  | key name => exact jsmnGetObjectItem_eq h hk name
  | index i => exact jsmnGetArrayItem_eq h hk i

/-- The lookups of a path lead down the tree, or nowhere. -/
theorem walk_eq (h : Sound len numTokens p) : ∀ (path : List Access) {k : Nat}, k < p.toknext →
    walk js len p (itemAt p.toknext k) path =
      some ((descend js len p k path).map (itemAt p.toknext)) := by
  intro path
  induction path with
  | nil =>
    intro k _
    rfl
  | cons a path ih =>
    intro k hk
    rw [walk, step_eq h hk, Option.bind_eq_bind, Option.bind_some, descend]
    cases ha : child js len p k a with
    | none => rfl
    | some j => exact ih (child_lt ha)

theorem descend_lt : ∀ (path : List Access) {k j : Nat}, k < p.toknext →
    descend js len p k path = some j → j < p.toknext := by
  intro path
  induction path with
  | nil =>
    intro k j hk hj
    cases hj
    exact hk
  | cons a path ih =>
    intro k j _ hj
    obtain ⟨i, ha, hj⟩ := Option.bind_eq_some_iff.mp hj
    exact ih (child_lt ha) hj

/-- What the parser returns is the number of its tokens, and they are in order. -/
theorem parsed_sound {tk : Nat → Tok} {r : Int}
    (hparse : Returns (fun fuel => jsmnParse js len numTokens fuel (jsmnInit tk)) (r, p))
    (hr : 0 ≤ r) : Sound len numTokens p ∧ r = p.toknext := by
  obtain ⟨r', p', hrun, hsound⟩ := parseLoop_total js (2 * len + numTokens + 2)
    (init_sound len numTokens tk) (by simp only [jsmnInit]; omega)
  have hreturns : Returns (fun fuel => jsmnParse js len numTokens fuel (jsmnInit tk)) (r', p') :=
    (jsmnParse_settles _).returns hrun
  cases hparse.unique hreturns
  exact hsound hr

/-- Whatever text was parsed: from the root item every path of lookups ends, and
it ends where the tree of the tokens has the path. There `JSMN_GetArraySize` is
the number of children, or -1 where the token is no array and has none as its value. -/
theorem parsed_walk {tk : Nat → Tok} {r : Int}
    (hparse : Returns (fun fuel => jsmnParse js len numTokens fuel (jsmnInit tk)) (r, p))
    (hr : 0 < r) (path : List Access) :
    walk js len p (jsmnItemInit 0 0 r) path =
        some ((descend js len p 0 path).map (itemAt p.toknext)) ∧
      ∀ k, descend js len p 0 path = some k → k < p.toknext ∧
        jsmnGetArraySize p (itemAt p.toknext k) =
          some (((containerAt p .array k).map fun c => ((children p c).length : Int)).getD (-1)) := by
  obtain ⟨hsound, rfl⟩ := parsed_sound hparse hr.le
  have hroot : jsmnItemInit 0 0 (p.toknext : Int) = itemAt p.toknext 0 := by
    simp only [jsmnItemInit, itemAt, Item.mk.injEq]
    omega
  rw [hroot]
  refine ⟨walk_eq hsound path (by omega), fun k hk => ?_⟩
  have hlt := descend_lt path (by omega) hk
  exact ⟨hlt, jsmnGetArraySize_eq hsound hlt⟩

/-- A colon where none belongs. -/
theorem parsed_walk_stray :
    ∃ p, walk (fun i => (ascii "[[1]:[2]]").getD i 0) 9 p (jsmnItemInit 0 0 5) [.index 0, .index 0] =
      some ((descend (fun i => (ascii "[[1]:[2]]").getD i 0) 9 p 0 [.index 0, .index 0]).map
        (itemAt p.toknext)) := by
  have hparse := (@jsmnParse_settles (fun i => (ascii "[[1]:[2]]").getD i 0) 9 9
    (jsmnInit fun _ => ⟨.undefined, 0, 0, 0, 0⟩)).returns (n := 20) (show _ = some (5, _) from rfl)
  exact ⟨_, (parsed_walk hparse (by decide) _).1⟩

end StmGateway.Json.Items
