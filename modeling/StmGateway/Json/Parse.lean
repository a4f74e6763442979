import StmGateway.Json.Switch

/-!
# The tokens of a JSON text

By induction on the text: what the parser leaves in its tokens for a value, for
the elements of an array and for the members of an object, whatever encloses
them. Tokens that were there before change only in the size of the one above.
-/
namespace StmGateway.Json.Parse

open StmGateway.Lib StmGateway.Json.Jsmn StmGateway.Json.Grammar StmGateway.Json.Switch
open StmGateway.Json.Escape

/-- The frame has the text from `i` on. -/
def Spans (js : Nat → UInt8) (len i : Nat) (text : List UInt8) : Prop :=
  ReadsAt js i text ∧ i + text.length ≤ len

/-- The token has the text between its ends. -/
def Carries (js : Nat → UInt8) (len : Nat) (tok : Tok) (text : List UInt8) : Prop :=
  ∃ i : Nat, tok.start = i ∧ tok.stop = (i + text.length : Nat) ∧ Spans js len i text

/-- The token of a value; where it is a string or a primitive, with its text. -/
def Stands (js : Nat → UInt8) (len : Nat) (v : Value) (tok : Tok) : Prop :=
  ∀ text, v.raw = some text →
    (tok.type = .string ∨ tok.type = .primitive) ∧ Carries js len tok text

/-- `size` tokens for `length` bytes: the first stands under `toksuper`, which
counts it, and the others under the first. -/
structure Placed (size length : Nat) (p p' : Parser) : Prop where
  pos : p'.pos = p.pos + length
  next : p'.toknext = p.toknext + size
  count : p'.count = p.count + size
  super : p'.toksuper = p.toksuper
  others : ∀ j < p.toknext, p'.tokens j =
    if (j : Int) = p.toksuper then { p.tokens j with size := (p.tokens j).size + 1 }
    else p.tokens j
  closed : (p'.tokens p.toknext).stop ≠ -1
  parent : (p'.tokens p.toknext).parent = p.toksuper
  inside : Inside p'.tokens p.toknext (p.toknext + 1) p'.toknext

/-- `size` tokens under the open token `n`. -/
structure Filled (n size : Nat) (p p' : Parser) : Prop where
  next : p'.toknext = p.toknext + size
  count : p'.count = p.count + size
  others : ∀ j < p.toknext, j ≠ n → p'.tokens j = p.tokens j
  self : ∃ size, p'.tokens n = { p.tokens n with size := size }
  inside : Inside p'.tokens n p.toknext p'.toknext

variable {p p' p'' : Parser} {n size size' length : Nat}

theorem Filled.trans (h : Filled n size p p') (h' : Filled n size' p' p'') (hn : n < p.toknext) :
    Filled n (size + size') p p'' := by
  have hnext := h.next
  have hnext' := h'.next
  refine ⟨by omega, by rw [h'.count, h.count, Nat.add_assoc], fun j hj hne => ?_, ?_, ?_⟩
  · rw [h'.others j (by omega) hne, h.others j hj hne]
  · obtain ⟨_, hself⟩ := h.self
    obtain ⟨s, hself'⟩ := h'.self
    exact ⟨s, by rw [hself', hself]⟩
  · apply Inside.append (h.inside.congr fun j hlo hhi => ?_) h'.inside
    exact h'.others j hhi (by omega)

/-- What is placed under an open token fills it. -/
theorem Placed.filled (h : Placed size length p p') (hsuper : p.toksuper = n)
    (hn : n < p.toknext) : Filled n size p p' := by
  have hnext := h.next
  refine ⟨h.next, h.count, fun j hj hne => ?_, ?_, ?_⟩
  · rw [h.others j hj, if_neg (by omega)]
  · rw [h.others n hn, if_pos hsuper.symm]
    exact ⟨_, rfl⟩
  · intro j hlo hhi
    by_cases heq : j = p.toknext
    · subst heq
      exact ⟨h.closed, by rw [h.parent]; omega, by rw [h.parent]; omega⟩
    · exact h.inside.mono (by omega) j (by omega) hhi

variable {js : Nat → UInt8} {len numTokens : Nat}

/-- From any place with room for it, and with something behind it that ends a
primitive, the parser passes over the value. -/
def Parses (js : Nat → UInt8) (len numTokens : Nat) (v : Value) : Prop :=
  ∀ p : Parser, ReadsAt js p.pos v.bytes → p.pos + v.bytes.length < len →
    endsPrimitive (js (p.pos + v.bytes.length)) = true → p.toknext + v.size ≤ numTokens →
    -1 ≤ p.toksuper → p.toksuper < p.toknext →
    ∃ p', Steps js len numTokens p p' ∧ Placed v.size v.bytes.length p p' ∧
      Stands js len v (p'.tokens p.toknext)

theorem ends_blank {b : UInt8} (h : Blank b) : endsPrimitive b = true := by
  rcases h with rfl | rfl | rfl | rfl <;> rfl

/-- What is behind a value ends a primitive, also where it is white space. -/
theorem ends_space {space : Space} {i : Nat} (hread : ReadsAt js i space.text)
    (hend : endsPrimitive (js (i + space.text.length)) = true) : endsPrimitive (js i) = true := by
  obtain ⟨text, blank⟩ := space
  cases text with
  | nil => exact hend
  | cons b text =>
    rw [(readsAt_cons.mp hread).1]
    exact ends_blank (blank b List.mem_cons_self)

/-- An element of an array with the white space around it. -/
theorem element_steps {v : Value} (hv : Parses js len numTokens v) {before after : Space}
    (hsuper : p.toksuper = n) (hn : n < p.toknext)
    (hread : ReadsAt js p.pos (before.text ++ v.bytes ++ after.text))
    (hlen : p.pos + (before.text ++ v.bytes ++ after.text).length < len)
    (hend : endsPrimitive (js (p.pos + (before.text ++ v.bytes ++ after.text).length)) = true)
    (hroom : p.toknext + v.size ≤ numTokens) :
    ∃ p', Steps js len numTokens p p' ∧
      p'.pos = p.pos + (before.text ++ v.bytes ++ after.text).length ∧ p'.toksuper = n ∧
      Filled n v.size p p' := by
  rw [readsAt_append, readsAt_append] at hread
  obtain ⟨⟨hbefore, hvalue⟩, hafter⟩ := hread
  simp only [List.length_append] at hlen hend hafter ⊢
  have hfirst := @space_steps js len numTokens p _ before.blank hbefore (by omega)
  obtain ⟨p₂, hsteps, hplaced, _⟩ := hv { p with pos := p.pos + before.text.length } hvalue
    (by simp only; omega)
    (ends_space (by rwa [← Nat.add_assoc] at hafter)
      (by simpa only [Nat.add_assoc] using hend))
    hroom (by simp only; omega) (by simp only; omega)
  have hpos := hplaced.pos
  simp only at hpos
  have hlast := @space_steps js len numTokens p₂ _ after.blank
    (by rw [hpos, Nat.add_assoc]; exact hafter) (by omega)
  have hfilled := hplaced.filled hsuper hn
  refine ⟨_, (hfirst.trans hsteps).trans hlast, ?_, hplaced.super.trans hsuper, ?_⟩
  · simp only
    omega
  · exact ⟨hfilled.next, hfilled.count, hfilled.others, hfilled.self, hfilled.inside⟩

/-- The tokens of a member of the object `n`, from `m` on. -/
structure MemberAt (js : Nat → UInt8) (len : Nat) (tokens : Nat → Tok) (n : Nat) (key : Key) (v : Value)
    (m : Nat) : Prop where
  type : (tokens m).type = .string
  name : Carries js len (tokens m) (raw key.name)
  size : (tokens m).size = 1
  parent : (tokens m).parent = n
  value : Stands js len v (tokens (m + 1))
  inside : Inside tokens m (m + 1) (m + 1 + v.size)

theorem value_size_pos (v : Value) : 0 < v.size := by
  cases v <;> simp only [Value.size] <;> omega

theorem MemberAt.congr {tokens tokens' : Nat → Tok} {key : Key} {v : Value} {m : Nat}
    (h : MemberAt js len tokens n key v m)
    (heq : ∀ j, m ≤ j → j < m + 1 + v.size → tokens' j = tokens j) :
    MemberAt js len tokens' n key v m := by
  have hpos := value_size_pos v
  have hkey := heq m le_rfl (by omega)
  have hval := heq (m + 1) (by omega) (by omega)
  refine ⟨?_, ?_, ?_, ?_, ?_, ?_⟩
  · rw [hkey]; exact h.type
  · rw [hkey]; exact h.name
  · rw [hkey]; exact h.size
  · rw [hkey]; exact h.parent
  · rw [hval]; exact h.value
  · exact h.inside.congr fun j hlo hhi => heq j (by omega) hhi

/-- The token of a text between `i` and its end, under the token above. -/
def leaf (type : TokType) (i : Nat) (text : List UInt8) (parent : Int) : Tok :=
  ⟨type, i, (i + text.length : Nat), 0, parent⟩

/-- A string adds its token. -/
theorem quoted_steps {text : List UInt8} (hscans : Scans text) (hnul : 0 ∉ text)
    (hread : ReadsAt js p.pos (0x22 :: text ++ [0x22])) (hlen : p.pos + text.length + 2 ≤ len)
    (hroom : p.toknext < numTokens) (hsuper : -1 ≤ p.toksuper) (hlt : p.toksuper < p.toknext) :
    ∃ p', Steps js len numTokens p p' ∧ p'.pos = p.pos + text.length + 2 ∧
      p'.toksuper = p.toksuper ∧ Extends p p' (leaf .string (p.pos + 1) text p.toksuper) ∧
      Spans js len (p.pos + 1) text := by
  have htext : ReadsAt js (p.pos + 1) text := by
    rw [List.cons_append, readsAt_cons, readsAt_append] at hread
    exact hread.2.1
  exact ⟨_, (advance_string hscans hnul hread hlen hroom hsuper hlt).steps, rfl, rfl,
    added_extends hlt .string _ _ _, htext, by omega⟩

theorem string_steps {text : List Piece} (hread : ReadsAt js p.pos (quote text))
    (hlen : p.pos + (quote text).length ≤ len) (hroom : p.toknext < numTokens)
    (hsuper : -1 ≤ p.toksuper) (hlt : p.toksuper < p.toknext) :
    ∃ p' i, Steps js len numTokens p p' ∧ p'.pos = p.pos + (quote text).length ∧
      p'.toksuper = p.toksuper ∧ Extends p p' (leaf .string i (raw text) p.toksuper) ∧
      Spans js len i (raw text) := by
  have hquote : (quote text).length = (raw text).length + 2 := by simp [quote]
  rw [hquote] at hlen ⊢
  obtain ⟨p', hsteps⟩ := quoted_steps (raw_scans text) (raw_no_nul text) hread hlen hroom hsuper hlt
  exact ⟨p', p.pos + 1, hsteps⟩

/-- So does a primitive. -/
theorem primitive_steps {prim : Primitive} (hread : ReadsAt js p.pos prim.text)
    (hlen : p.pos + prim.text.length < len)
    (hend : endsPrimitive (js (p.pos + prim.text.length)) = true) (hroom : p.toknext < numTokens)
    (hsuper : -1 ≤ p.toksuper) (hlt : p.toksuper < p.toknext) :
    ∃ p', Steps js len numTokens p p' ∧ p'.pos = p.pos + prim.text.length ∧
      p'.toksuper = p.toksuper ∧ Extends p p' (leaf .primitive p.pos prim.text p.toksuper) := by
  have hnul : js (p.pos + prim.text.length) ≠ 0 := by
    intro h
    rw [h] at hend
    exact absurd hend (by decide)
  exact ⟨_, (advance_primitive prim.nonempty prim.word hread hend hnul hlen hroom hsuper hlt).steps,
    rfl, rfl, added_extends hlt .primitive _ _ _⟩

/-- The name of a member and its colon: the token of the name becomes the parent
of what follows. -/
theorem key_steps {key : Key} (hread : ReadsAt js p.pos key.bytes)
    (hlen : p.pos + key.bytes.length ≤ len) (hroom : p.toknext < numTokens)
    (hsuper : -1 ≤ p.toksuper) (hlt : p.toksuper < p.toknext) :
    ∃ p' i, Steps js len numTokens p p' ∧ p'.pos = p.pos + key.bytes.length ∧
      p'.toksuper = p.toknext ∧ Extends p p' (leaf .string i (raw key.name) p.toksuper) ∧
      Spans js len i (raw key.name) := by
  rw [Key.bytes, readsAt_append, readsAt_append, readsAt_append, readsAt_cons] at hread
  obtain ⟨⟨⟨hbefore, hname⟩, hmiddle⟩, hcolon, hafter⟩ := hread
  simp only [Key.bytes, List.length_append, List.length_cons] at hlen hcolon hafter hmiddle ⊢
  have hstart := @space_steps js len numTokens p _ key.before.blank hbefore (by omega)
  obtain ⟨p₂, i, hstring, hpos₂, _, hext, hraw⟩ := @string_steps { p with
      pos := p.pos + key.before.text.length } js len numTokens key.name hname
    (by simp only; omega) hroom hsuper hlt
  simp only at hpos₂
  have hblank := @space_steps js len numTokens p₂ _ key.middle.blank
    (by rw [hpos₂, Nat.add_assoc]; exact hmiddle) (by omega)
  have hcolon := @advance_colon js len numTokens { p₂ with
      pos := p₂.pos + key.middle.text.length } (by simp only; omega)
    (by simp only [hpos₂]; rw [← hcolon]; congr 1; omega)
  have hlast := @space_steps js len numTokens { p₂ with
      toksuper := (p₂.toknext : Int) - 1
      pos := p₂.pos + key.middle.text.length + 1 } _ key.after.blank
    (by simp only [hpos₂]; refine cast (congrArg (ReadsAt js · _) ?_) hafter; omega)
    (by simp only; omega)
  have hnext := hext.next
  refine ⟨_, i, (((hstart.trans hstring).trans hblank).trans hcolon.steps).trans hlast, ?_, ?_,
    ⟨hext.next, hext.count, hext.token, hext.others⟩, hraw⟩
  · simp only
    omega
  · simp only at hnext ⊢
    omega

/-- The token of a name and the tokens of its value, as part of the object `n`. -/
theorem member_filled {i : Nat} {name : List UInt8}
    (hext : Extends p p' (leaf .string i name p.toksuper)) (hsuper' : p'.toksuper = p.toknext)
    (hplaced : Placed size length p' p'') (hsuper : p.toksuper = n) (hn : n < p.toknext) :
    Filled n (1 + size) p p'' ∧ p''.tokens p.toknext = { leaf .string i name n with size := 1 } ∧
      Inside p''.tokens p.toknext (p.toknext + 1) p''.toknext := by
  have hnext := hext.next
  have hnext' := hplaced.next
  have hmember := hplaced.filled hsuper' (by omega)
  have hname : p''.tokens p.toknext = { leaf .string i name n with size := 1 } := by
    rw [hplaced.others p.toknext (by omega), if_pos hsuper'.symm, hext.token, hsuper]
    rfl
  have hinside : Inside p''.tokens p.toknext (p.toknext + 1) p''.toknext := by
    rw [← hnext]
    exact hmember.inside
  refine ⟨⟨by omega, ?_, fun j hj hne => ?_, ?_, fun j hlo hhi => ?_⟩, hname, hinside⟩
  · rw [hplaced.count, hext.count]
    omega
  · rw [hmember.others j (by omega) (by omega), hext.others j hj, if_neg (by omega)]
  · rw [hmember.others n (by omega) (by omega), hext.others n hn, if_pos hsuper.symm]
    exact ⟨_, rfl⟩
  · by_cases heq : j = p.toknext
    · subst heq
      rw [hname]
      simp only [leaf]
      omega
    · exact hinside.mono (by omega) j (by omega) hhi

/-- A member of an object with the white space around it. -/
theorem member_steps {key : Key} {v : Value} (hv : Parses js len numTokens v) {after : Space}
    (hsuper : p.toksuper = n) (hn : n < p.toknext)
    (hread : ReadsAt js p.pos (key.bytes ++ v.bytes ++ after.text))
    (hlen : p.pos + (key.bytes ++ v.bytes ++ after.text).length < len)
    (hend : endsPrimitive (js (p.pos + (key.bytes ++ v.bytes ++ after.text).length)) = true)
    (hroom : p.toknext + (1 + v.size) ≤ numTokens) :
    ∃ p', Steps js len numTokens p p' ∧
      p'.pos = p.pos + (key.bytes ++ v.bytes ++ after.text).length ∧ p'.toksuper = p.toknext ∧
      Filled n (1 + v.size) p p' ∧ MemberAt js len p'.tokens n key v p.toknext := by
  rw [readsAt_append, readsAt_append] at hread
  obtain ⟨⟨hkey, hvalue⟩, hafter⟩ := hread
  simp only [List.length_append] at hlen hend hafter ⊢
  obtain ⟨p₁, i, hfirst, hpos₁, hsuper₁, hext, hraw⟩ :=
    @key_steps p js len numTokens key hkey (by omega) (by omega) (by omega) (by omega)
  have hnext₁ := hext.next
  obtain ⟨p₂, hsteps, hplaced, hstands⟩ := hv p₁ (by rw [hpos₁]; exact hvalue) (by omega)
    (ends_space (by rw [hpos₁, Nat.add_assoc]; exact hafter)
      (by rw [hpos₁]; simpa only [Nat.add_assoc] using hend))
    (by omega) (by omega) (by omega)
  have hpos := hplaced.pos
  have hnext := hplaced.next
  have hlast := @space_steps js len numTokens p₂ _ after.blank
    (by rw [hpos, hpos₁, Nat.add_assoc]; exact hafter) (by omega)
  obtain ⟨hfilled, hname, hinside⟩ := member_filled hext hsuper₁ hplaced hsuper hn
  refine ⟨_, (hfirst.trans hsteps).trans hlast, ?_, hplaced.super.trans hsuper₁,
    ⟨hfilled.next, hfilled.count, hfilled.others, hfilled.self, hfilled.inside⟩, ?_⟩
  · simp only
    omega
  · refine ⟨?_, ?_, ?_, ?_, ?_, ?_⟩
    · simp only [hname, leaf]
    · exact ⟨i, by simp only [hname, leaf], by simp only [hname, leaf], hraw⟩
    · simp only [hname]
    · simp only [hname, leaf]
    · simp only
      rw [← hnext₁]
      exact hstands
    · rw [show p.toknext + 1 + v.size = p₂.toknext by omega]
      exact hinside

/-- A container: what fills it between its brackets, and then it is closed. -/
theorem bracket_steps {type : TokType} {o c : UInt8} {text : List UInt8}
    (hbrackets : (o = 0x7b ∧ c = 0x7d ∧ type = .object) ∨ (o = 0x5b ∧ c = 0x5d ∧ type = .array))
    (Q : (Nat → Tok) → Prop)
    (hQ : ∀ tokens tokens', (∀ j, p.toknext < j → tokens' j = tokens j) → Q tokens → Q tokens')
    (hbody : ∀ p₁ : Parser, p₁.pos = p.pos + 1 → p₁.toksuper = p.toknext →
      p₁.toknext = p.toknext + 1 → (p₁.tokens p.toknext).type = type →
      ∃ p₂, Steps js len numTokens p₁ p₂ ∧ p₂.pos = p.pos + 1 + text.length ∧
        Filled p.toknext size p₁ p₂ ∧ Q p₂.tokens)
    (hread : ReadsAt js p.pos (o :: text ++ [c])) (hlen : p.pos + (o :: text ++ [c]).length ≤ len)
    (hroom : p.toknext < numTokens) (hsuper : -1 ≤ p.toksuper) (hlt : p.toksuper < p.toknext) :
    ∃ p', Steps js len numTokens p p' ∧ Placed (1 + size) (o :: text ++ [c]).length p p' ∧
      (p'.tokens p.toknext).type = type ∧ Q p'.tokens := by
  rw [List.cons_append, readsAt_cons, readsAt_append, readsAt_cons] at hread
  obtain ⟨hopen, _, hclose, _⟩ := hread
  simp only [List.length_append, List.length_cons, List.length_nil, List.cons_append] at hlen ⊢
  have hopens : (js p.pos = 0x7b ∧ type = .object) ∨ (js p.pos = 0x5b ∧ type = .array) := by
    rw [hopen]
    exact hbrackets.imp (fun h => ⟨h.1, h.2.2⟩) (fun h => ⟨h.1, h.2.2⟩)
  obtain ⟨p₁, hfirst, hext, hpos₁, hsuper₁⟩ :=
    @advance_open js len numTokens p type (by omega) hopens hroom hsuper hlt
  have hnext₁ := hext.next
  obtain ⟨p₂, hsteps, hpos₂, hfilled, hq⟩ := hbody p₁ hpos₁ hsuper₁ hnext₁ (by rw [hext.token])
  have hnext := hfilled.next
  obtain ⟨_, hself⟩ := hfilled.self
  rw [hext.token] at hself
  have hinside : Inside p₂.tokens p.toknext (p.toknext + 1) p₂.toknext := by
    rw [← hnext₁]
    exact hfilled.inside
  have hcloses : (js p₂.pos = 0x7d ∧ type = .object) ∨ (js p₂.pos = 0x5d ∧ type = .array) := by
    rw [hpos₂, hclose]
    exact hbrackets.imp And.right And.right
  have hopened : (p₂.tokens p.toknext).start ≠ -1 ∧ (p₂.tokens p.toknext).stop = -1 := by
    rw [hself]
    exact ⟨fun h => absurd (show (p.pos : Int) = -1 from h) (by omega), rfl⟩
  have hlast := @advance_close js len numTokens p₂ type p.toknext (by omega) hcloses (by omega)
    hopened (by rw [hself]) hinside
  refine ⟨_, (hfirst.steps.trans hsteps).trans hlast.steps, ?_, ?_, ?_⟩
  · refine ⟨?_, ?_, ?_, ?_, fun j hj => ?_, ?_, ?_, ?_⟩
    · simp only
      omega
    · simp only
      omega
    · simp only [hfilled.count, hext.count]
      omega
    · simp only [hself]
    · simp only [Function.update_of_ne (show j ≠ p.toknext by omega)]
      rw [hfilled.others j (by omega) (by omega), hext.others j hj]
    · simp only [Function.update_self]
      omega
    · simp only [Function.update_self, hself]
    · apply hinside.congr
      intro j hlo _
      exact Function.update_of_ne (by omega) _ _
  · simp only [Function.update_self, hself]
  · exact hQ _ _ (fun j hj => Function.update_of_ne (by omega) _ _) hq

/-- The members of the object `n` have their tokens from `m` on. -/
def Laid (js : Nat → UInt8) (len : Nat) (tokens : Nat → Tok) (n : Nat) : Members → Nat → Prop
  | .one key v _, m => MemberAt js len tokens n key v m
  | .cons key v _ rest, m =>
    MemberAt js len tokens n key v m ∧ Laid js len tokens n rest (m + 1 + v.size)

theorem laid_congr {tokens tokens' : Nat → Tok} :
    ∀ (ms : Members) (m : Nat), (∀ j, m ≤ j → tokens' j = tokens j) → Laid js len tokens n ms m →
      Laid js len tokens' n ms m
  | .one _ _ _, _, heq, h => MemberAt.congr h fun j hlo _ => heq j hlo
  | .cons _ _ _ rest, _, heq, h =>
    ⟨MemberAt.congr h.1 fun j hlo _ => heq j hlo,
      laid_congr rest _ (fun j hlo => heq j (by omega)) h.2⟩

/-- The parser passes over the elements of the open array `n`. -/
def FillsArray (js : Nat → UInt8) (len numTokens : Nat) (es : Elements) : Prop :=
  ∀ (p : Parser) (n : Nat), p.toksuper = n → n < p.toknext → (p.tokens n).type = .array →
    ReadsAt js p.pos es.bytes → p.pos + es.bytes.length < len →
    js (p.pos + es.bytes.length) = 0x5d → p.toknext + es.size ≤ numTokens →
    ∃ p', Steps js len numTokens p p' ∧ p'.pos = p.pos + es.bytes.length ∧ Filled n es.size p p'

/-- And over the members of the open object `n`. -/
def FillsObject (js : Nat → UInt8) (len numTokens : Nat) (ms : Members) : Prop :=
  ∀ (p : Parser) (n : Nat), p.toksuper = n → n < p.toknext →
    ReadsAt js p.pos ms.bytes → p.pos + ms.bytes.length < len →
    js (p.pos + ms.bytes.length) = 0x7d → p.toknext + ms.size ≤ numTokens →
    ∃ p', Steps js len numTokens p p' ∧ p'.pos = p.pos + ms.bytes.length ∧
      Filled n ms.size p p' ∧ Laid js len p'.tokens n ms p.toknext

/-- Strings and primitives. -/
theorem leaf_placed {type : TokType} {i : Nat} {text : List UInt8}
    (hext : Extends p p' (leaf type i text p.toksuper)) (hpos : p'.pos = p.pos + length)
    (hsuper : p'.toksuper = p.toksuper) : Placed 1 length p p' := by
  have hnext := hext.next
  refine ⟨hpos, hext.next, hext.count, hsuper, hext.others, ?_, ?_, fun j hlo hhi => ?_⟩
  · rw [hext.token]
    simp only [leaf]
    omega
  · rw [hext.token, leaf]
  · omega

theorem parses_string (text : List Piece) : Parses js len numTokens (.string text) := by
  intro p hread hlen _ hroom hsuper hlt
  obtain ⟨p', i, hsteps, hpos, hsuper', hext, hraw⟩ :=
    @string_steps p js len numTokens text hread (Nat.le_of_lt hlen) hroom hsuper hlt
  refine ⟨p', hsteps, leaf_placed hext hpos hsuper', fun t ht => ?_⟩
  cases ht
  rw [hext.token]
  exact ⟨.inl rfl, i, rfl, rfl, hraw⟩

theorem parses_primitive (prim : Primitive) : Parses js len numTokens (.primitive prim) := by
  intro p hread hlen hend hroom hsuper hlt
  obtain ⟨p', hsteps, hpos, hsuper', hext⟩ :=
    @primitive_steps p js len numTokens prim hread hlen hend hroom hsuper hlt
  refine ⟨p', hsteps, leaf_placed hext hpos hsuper', fun t ht => ?_⟩
  cases ht
  rw [hext.token]
  exact ⟨.inr rfl, p.pos, rfl, rfl, hread, Nat.le_of_lt hlen⟩

/-- An object with members, given what fills it. -/
theorem object_steps {ms : Members} (hms : FillsObject js len numTokens ms)
    (hread : ReadsAt js p.pos (Value.object ms).bytes)
    (hlen : p.pos + (Value.object ms).bytes.length ≤ len)
    (hroom : p.toknext + (Value.object ms).size ≤ numTokens) (hsuper : -1 ≤ p.toksuper)
    (hlt : p.toksuper < p.toknext) :
    ∃ p', Steps js len numTokens p p' ∧
      Placed (Value.object ms).size (Value.object ms).bytes.length p p' ∧
      (p'.tokens p.toknext).type = .object ∧ Laid js len p'.tokens p.toknext ms (p.toknext + 1) := by
  simp only [Value.bytes, Value.size] at hread hlen hroom ⊢
  have hparts := hread
  rw [List.cons_append, readsAt_cons, readsAt_append, readsAt_cons] at hparts
  obtain ⟨_, hmembers, hclose, _⟩ := hparts
  simp only [List.length_append, List.length_cons, List.length_nil, List.cons_append] at hlen
  apply bracket_steps (.inl ⟨rfl, rfl, rfl⟩) (fun tokens => Laid js len tokens p.toknext ms (p.toknext + 1))
    (fun tokens tokens' heq => laid_congr ms _ fun j hlo => heq j (by omega)) ?_ hread
    (by simp; omega) (by omega) hsuper hlt
  intro p₁ hpos hsup hnext _
  obtain ⟨p₂, hsteps, hpos₂, hfilled, hlaid⟩ := hms p₁ p.toknext hsup (by omega)
    (by rw [hpos]; exact hmembers) (by omega) (by rw [hpos]; exact hclose) (by omega)
  refine ⟨p₂, hsteps, by omega, hfilled, ?_⟩
  rw [← hnext]
  exact hlaid

/-- An empty container. -/
theorem empty_steps {type : TokType} {o c : UInt8} {space : Space}
    (hbrackets : (o = 0x7b ∧ c = 0x7d ∧ type = .object) ∨ (o = 0x5b ∧ c = 0x5d ∧ type = .array))
    (hread : ReadsAt js p.pos (o :: space.text ++ [c]))
    (hlen : p.pos + (o :: space.text ++ [c]).length ≤ len) (hroom : p.toknext < numTokens)
    (hsuper : -1 ≤ p.toksuper) (hlt : p.toksuper < p.toknext) :
    ∃ p', Steps js len numTokens p p' ∧ Placed 1 (o :: space.text ++ [c]).length p p' := by
  have hparts := hread
  rw [List.cons_append, readsAt_cons, readsAt_append] at hparts
  obtain ⟨_, hspace, _⟩ := hparts
  have hin : p.pos + 1 + space.text.length ≤ len := by
    simp only [List.cons_append, List.length_cons, List.length_append, List.length_nil] at hlen
    omega
  obtain ⟨p', hsteps, hplaced, _⟩ := @bracket_steps p 0 js len numTokens type o c space.text
    hbrackets (fun _ => True) (fun _ _ _ => id) (fun p₁ hpos _ _ _ => by
      refine ⟨_, space_steps space.blank (by rw [hpos]; exact hspace) (by rw [hpos]; exact hin),
        by simp only [hpos], ⟨rfl, rfl, fun _ _ _ => rfl, ⟨(p₁.tokens p.toknext).size, rfl⟩,
          fun _ hlo hhi => absurd hhi (Nat.not_lt.mpr hlo)⟩, trivial⟩)
    hread hlen hroom hsuper hlt
  exact ⟨p', hsteps, hplaced⟩

/-- An array with elements, given that they fill it. -/
theorem parses_array {es : Elements} (hes : FillsArray js len numTokens es) :
    Parses js len numTokens (.array es) := by
  intro p hread hlen _ hroom hsuper hlt
  simp only [Value.bytes, Value.size] at hread hlen hroom ⊢
  have hparts := hread
  rw [List.cons_append, readsAt_cons, readsAt_append, readsAt_cons] at hparts
  obtain ⟨_, helements, hclose, _⟩ := hparts
  have hin := hlen
  simp only [List.cons_append, List.length_cons, List.length_append, List.length_nil] at hin
  obtain ⟨p', hsteps, hplaced, _⟩ := @bracket_steps p es.size js len numTokens .array 0x5b 0x5d
    es.bytes (.inr ⟨rfl, rfl, rfl⟩) (fun _ => True) (fun _ _ _ => id) (fun p₁ hpos hsup hnext htype => by
      obtain ⟨p₂, hsteps, hpos₂, hfilled⟩ := hes p₁ p.toknext hsup (by omega) htype
        (by rw [hpos]; exact helements) (by omega) (by rw [hpos]; exact hclose) (by omega)
      exact ⟨p₂, hsteps, by rw [hpos₂, hpos], hfilled, trivial⟩)
    hread (Nat.le_of_lt hlen) (by omega) hsuper hlt
  exact ⟨p', hsteps, hplaced, nofun⟩

/-- After the elements before it, the next one is again one of the array `n`. -/
theorem fillsArray_cons {v : Value} (hv : Parses js len numTokens v) {rest : Elements}
    (hrest : FillsArray js len numTokens rest) (before after : Space) :
    FillsArray js len numTokens (.cons before v after rest) := by
  intro p n hsuper hn htype hread hlen hend hroom
  simp only [Elements.bytes, Elements.size] at hread hlen hend hroom ⊢
  rw [readsAt_append, readsAt_cons] at hread
  obtain ⟨helement, hcomma, htail⟩ := hread
  rw [List.length_append, List.length_cons] at hlen hend ⊢
  obtain ⟨p₁, hfirst, hpos₁, hsuper₁, hfilled₁⟩ := @element_steps p n js len numTokens v hv before after
    hsuper hn helement (by omega) (by rw [hcomma]; rfl) (by omega)
  have hnext₁ := hfilled₁.next
  obtain ⟨_, hself⟩ := hfilled₁.self
  have hsame : comma p₁ = some p₁ := by
    rw [comma, if_pos (by omega), tok_eq (by omega) (by omega), hsuper₁, Int.toNat_natCast,
      Option.bind_eq_bind, Option.bind_some, hself, htype]
    rfl
  have hstep := @advance_comma js len numTokens p₁ p₁ (by omega) (by rw [hpos₁]; exact hcomma) hsame
  obtain ⟨p₃, hsteps, hpos₃, hfilled₃⟩ := hrest { p₁ with pos := p₁.pos + 1 } n hsuper₁
    (by simp only; omega) (by simp only [hself, htype]) (by simp only [hpos₁]; exact htail)
    (by simp only; omega)
    (by simp only [hpos₁]; rw [← hend]; congr 1; omega) (by simp only; omega)
  simp only at hpos₃
  refine ⟨p₃, (hfirst.trans hstep.steps).trans hsteps, by omega, ?_⟩
  exact hfilled₁.trans ⟨hfilled₃.next, hfilled₃.count, hfilled₃.others, hfilled₃.self,
    hfilled₃.inside⟩ hn

theorem fillsArray_one {v : Value} (hv : Parses js len numTokens v) (before after : Space) :
    FillsArray js len numTokens (.one before v after) := by
  intro p n hsuper hn _ hread hlen hend hroom
  simp only [Elements.bytes, Elements.size] at hread hlen hend hroom ⊢
  obtain ⟨p₁, hsteps, hpos₁, _, hfilled⟩ := @element_steps p n js len numTokens v hv before after
    hsuper hn hread hlen (by rw [hend]; rfl) hroom
  exact ⟨p₁, hsteps, hpos₁, hfilled⟩

/-- After a member the comma goes back from the token of its key to the object. -/
theorem fillsObject_cons {key : Key} {v : Value} (hv : Parses js len numTokens v) {rest : Members}
    (hrest : FillsObject js len numTokens rest) (after : Space) :
    FillsObject js len numTokens (.cons key v after rest) := by
  intro p n hsuper hn hread hlen hend hroom
  simp only [Members.bytes, Members.size] at hread hlen hend hroom ⊢
  rw [readsAt_append, readsAt_cons] at hread
  obtain ⟨hmember, hcomma, htail⟩ := hread
  rw [List.length_append, List.length_cons] at hlen hend ⊢
  obtain ⟨p₁, hfirst, hpos₁, hsuper₁, hfilled₁, hat⟩ := @member_steps p n js len numTokens key v hv
    after hsuper hn hmember (by omega) (by rw [hcomma]; rfl) (by omega)
  have hnext₁ := hfilled₁.next
  have hback : comma p₁ = some { p₁ with toksuper := n } := by
    rw [comma, if_pos (by omega), tok_eq (by omega) (by omega), hsuper₁, Int.toNat_natCast,
      Option.bind_eq_bind, Option.bind_some, hat.type, hat.parent]
    rfl
  have hstep := @advance_comma js len numTokens p₁ _ (by omega) (by rw [hpos₁]; exact hcomma) hback
  obtain ⟨p₃, hsteps, hpos₃, hfilled₃, hlaid⟩ := hrest
    { p₁ with toksuper := n, pos := p₁.pos + 1 } n rfl (by simp only; omega)
    (by simp only [hpos₁]; exact htail) (by simp only; omega)
    (by simp only [hpos₁]; rw [← hend]; congr 1; omega) (by simp only; omega)
  simp only at hpos₃ hlaid
  have hothers : ∀ j, p.toknext ≤ j → j < p.toknext + 1 + v.size → p₃.tokens j = p₁.tokens j :=
    fun j hlo hhi => hfilled₃.others j (by simp only; omega) (by omega)
  refine ⟨p₃, (hfirst.trans hstep.steps).trans hsteps, by omega, ?_, hat.congr hothers, ?_⟩
  · exact hfilled₁.trans ⟨hfilled₃.next, hfilled₃.count, hfilled₃.others, hfilled₃.self,
      hfilled₃.inside⟩ hn
  · rw [show p.toknext + 1 + v.size = p₁.toknext by omega]
    exact hlaid

theorem fillsObject_one {key : Key} {v : Value} (hv : Parses js len numTokens v) (after : Space) :
    FillsObject js len numTokens (.one key v after) := by
  intro p n hsuper hn hread hlen hend hroom
  simp only [Members.bytes, Members.size] at hread hlen hend hroom ⊢
  obtain ⟨p₁, hsteps, hpos₁, _, hfilled, hat⟩ := @member_steps p n js len numTokens key v hv after
    hsuper hn hread hlen (by rw [hend]; rfl) hroom
  exact ⟨p₁, hsteps, hpos₁, hfilled, hat⟩

mutual

/-- The parser passes over every value. -/
theorem value_parses (js : Nat → UInt8) (len numTokens : Nat) :
    ∀ v : Value, Parses js len numTokens v
  | .string text => parses_string text
  | .primitive prim => parses_primitive prim
  | .emptyArray _ => fun _ hread hlen _ hroom hsuper hlt => by
    obtain ⟨p', hsteps, hplaced⟩ := empty_steps (.inr ⟨rfl, rfl, rfl⟩) hread (Nat.le_of_lt hlen)
      hroom hsuper hlt
    exact ⟨p', hsteps, hplaced, nofun⟩
  | .array es => parses_array (elements_fill js len numTokens es)
  | .emptyObject _ => fun _ hread hlen _ hroom hsuper hlt => by
    obtain ⟨p', hsteps, hplaced⟩ := empty_steps (.inl ⟨rfl, rfl, rfl⟩) hread (Nat.le_of_lt hlen)
      hroom hsuper hlt
    exact ⟨p', hsteps, hplaced, nofun⟩
  | .object ms => fun _ hread hlen _ hroom hsuper hlt => by
    obtain ⟨p', hsteps, hplaced, _⟩ := object_steps (members_fill js len numTokens ms) hread
      (Nat.le_of_lt hlen) hroom hsuper hlt
    exact ⟨p', hsteps, hplaced, nofun⟩

theorem elements_fill (js : Nat → UInt8) (len numTokens : Nat) :
    ∀ es : Elements, FillsArray js len numTokens es
  | .one before v after => fillsArray_one (value_parses js len numTokens v) before after
  | .cons before v after rest =>
    fillsArray_cons (value_parses js len numTokens v) (elements_fill js len numTokens rest) before after

theorem members_fill (js : Nat → UInt8) (len numTokens : Nat) :
    ∀ ms : Members, FillsObject js len numTokens ms
  | .one _ v after => fillsObject_one (value_parses js len numTokens v) after
  | .cons _ v after rest =>
    fillsObject_cons (value_parses js len numTokens v) (members_fill js len numTokens rest) after

end

end StmGateway.Json.Parse
