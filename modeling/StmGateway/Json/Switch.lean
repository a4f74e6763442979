import Mathlib.Logic.Relation
import StmGateway.Json.Escape

/-!
# What one character does to the parser

One lemma for each branch of the `switch` of `jsmn_parse`, on the characters
that a JSON text has there. `Steps` is the loop without its fuel.
-/
namespace StmGateway.Json.Switch

open StmGateway.Lib StmGateway.Json.Jsmn StmGateway.Json.Grammar StmGateway.Json.Escape

variable {js : Nat → UInt8} {len numTokens : Nat} {p p' : Parser}

/-- One pass of the loop of `jsmn_parse`. -/
def Advances (js : Nat → UInt8) (len numTokens : Nat) (p p' : Parser) : Prop :=
  p.pos < len ∧ js p.pos ≠ 0 ∧
    ∃ q, Returns (fun fuel => parseChar js len numTokens fuel p) (.ok q) ∧
      p' = { q with pos := q.pos + 1 }

def Steps (js : Nat → UInt8) (len numTokens : Nat) : Parser → Parser → Prop :=
  Relation.ReflTransGen (Advances js len numTokens)

theorem Advances.steps (h : Advances js len numTokens p p') : Steps js len numTokens p p' :=
  .single h

/-- The loop returns what it returns from any later state. -/
theorem parseLoop_steps {r : Int × Parser} (h : Steps js len numTokens p p')
    (hr : Returns (fun fuel => parseLoop js len numTokens fuel p') r) :
    Returns (fun fuel => parseLoop js len numTokens fuel p) r := by
  induction h using Relation.ReflTransGen.head_induction_on with
  | refl => exact hr
  | head hstep _ ih =>
    obtain ⟨hpos, hnul, q, hchar, rfl⟩ := hstep
    obtain ⟨m, hm⟩ := hchar
    obtain ⟨n, hn⟩ := ih
    refine ⟨max m n + 1, fun fuel hle => ?_⟩
    obtain ⟨k, rfl⟩ : ∃ k, fuel = k + 1 := ⟨fuel - 1, by omega⟩
    have hstep : parseChar js len numTokens k _ = some (.ok q) := hm k (by omega)
    change parseLoop js len numTokens (k + 1) _ = some r
    rw [parseLoop, if_pos ⟨hpos, hnul⟩, hstep]
    exact hn k (by omega)

/-- One more token counted by the token `super`. -/
def bump (super : Int) (tokens : Nat → Tok) : Nat → Tok := fun j =>
  if (j : Int) = super then { tokens j with size := (tokens j).size + 1 } else tokens j

theorem tok_eq {i : Int} (h : 0 ≤ i) (hlt : i < p.toknext) : p.tok i = some (p.tokens i.toNat) :=
  if_pos ⟨h, hlt⟩

theorem setTok_eq {i : Int} (h : 0 ≤ i) (hlt : i < p.toknext) (tok : Tok) :
    p.setTok i tok = some { p with tokens := Function.update p.tokens i.toNat tok } :=
  if_pos ⟨h, hlt⟩

theorem incSuper_eq (hsuper : -1 ≤ p.toksuper) (hlt : p.toksuper < p.toknext) :
    p.incSuper = some { p with tokens := bump p.toksuper p.tokens } := by
  unfold Parser.incSuper
  split
  · next hne =>
    rw [tok_eq (by omega) hlt, Option.bind_eq_bind, Option.bind_some, setTok_eq (by omega) hlt]
    congr 2
    funext j
    unfold bump
    by_cases hj : (j : Int) = p.toksuper
    · rw [if_pos hj, show p.toksuper.toNat = j by omega, Function.update_self]
    · rw [if_neg hj, Function.update_of_ne (by omega)]
  · next heq =>
    have hsame : bump p.toksuper p.tokens = p.tokens := by
      funext j
      rw [bump, if_neg (by omega)]
    rw [hsame]

theorem jsmnAllocToken_eq (h : p.toknext < numTokens) :
    jsmnAllocToken p numTokens = some (p.toknext,
      { p with
        tokens := Function.update p.tokens p.toknext ⟨(p.tokens p.toknext).type, -1, -1, 0, -1⟩
        toknext := p.toknext + 1 }) := by
  rw [jsmnAllocToken, if_neg (by omega)]

/-- The parser after a string or a primitive. -/
def added (p : Parser) (type : TokType) (start stop : Int) (pos : Nat) : Parser :=
  { pos := pos
    toknext := p.toknext + 1
    toksuper := p.toksuper
    tokens := bump p.toksuper
      (Function.update p.tokens p.toknext ⟨type, start, stop, 0, p.toksuper⟩)
    count := p.count + 1 }

theorem addToken_eq (h : p.toknext < numTokens) (type : TokType) (start stop : Int) :
    addToken p numTokens type start stop = some (.ok { p with
      tokens := Function.update p.tokens p.toknext ⟨type, start, stop, 0, p.toksuper⟩
      toknext := p.toknext + 1 }) := by
  rw [addToken, jsmnAllocToken_eq h]
  simp only
  rw [tok_eq (by omega) (by simp only; omega), Option.bind_eq_bind, Option.bind_some,
    setTok_eq (by omega) (by simp only; omega)]
  simp [jsmnFillToken]

theorem counted_token (hsuper : -1 ≤ p.toksuper) (hlt : p.toksuper < p.toknext) (type : TokType)
    (start stop : Int) (pos : Nat) :
    counted (.ok { p with
      pos := pos
      toknext := p.toknext + 1
      tokens := Function.update p.tokens p.toknext ⟨type, start, stop, 0, p.toksuper⟩ }) =
      some (.ok (added p type start stop pos)) := by
  rw [counted, incSuper_eq (by exact hsuper) (by simp only; omega)]
  rfl

/-- White space. -/
theorem advance_blank (hlen : p.pos < len) (h : Blank (js p.pos)) :
    Advances js len numTokens p { p with pos := p.pos + 1 } := by
  refine ⟨hlen, ?_, p, ?_, rfl⟩
  · intro h0
    simp [Blank, h0] at h
  · apply (Returns.pure _).congr
    intro fuel
    obtain h | h | h | h := h <;> simp [parseChar, h]

theorem space_steps {space : List UInt8} (hblank : ∀ b ∈ space, Blank b)
    (hread : ReadsAt js p.pos space) (hlen : p.pos + space.length ≤ len) :
    Steps js len numTokens p { p with pos := p.pos + space.length } := by
  induction space generalizing p with
  | nil => exact .refl
  | cons b space ih =>
    rw [readsAt_cons] at hread
    simp only [List.forall_mem_cons] at hblank
    rw [List.length_cons] at hlen
    have hfirst : Advances js len numTokens p { p with pos := p.pos + 1 } :=
      advance_blank (by omega) (hread.1 ▸ hblank.1)
    have hrest := @ih { p with pos := p.pos + 1 } hblank.2 hread.2 (by simp only; omega)
    rw [List.length_cons, show p.pos + (space.length + 1) = p.pos + 1 + space.length by omega]
    exact .head hfirst hrest

/-- A colon makes the token before it the parent of what follows. -/
theorem advance_colon (hlen : p.pos < len) (h : js p.pos = 0x3a) :
    Advances js len numTokens p
      { p with toksuper := (p.toknext : Int) - 1, pos := p.pos + 1 } := by
  refine ⟨hlen, by rw [h]; decide, { p with toksuper := (p.toknext : Int) - 1 }, ?_, rfl⟩
  apply (Returns.pure _).congr
  intro fuel
  simp [parseChar, h]

theorem advance_comma {q : Parser} (hlen : p.pos < len) (h : js p.pos = 0x2c)
    (hq : comma p = some q) : Advances js len numTokens p { q with pos := q.pos + 1 } := by
  refine ⟨hlen, by rw [h]; decide, q, ?_, rfl⟩
  apply (Returns.pure _).congr
  intro fuel
  simp [parseChar, h, hq]

/-- A string, up to the quote where the loop ends. -/
theorem advance_quoted {stop : Nat} (hopen : js p.pos = 0x22) (hlen : p.pos < len)
    (hloop : Returns (fun fuel => stringLoop js len fuel (p.pos + 1)) (.ok stop))
    (hroom : p.toknext < numTokens) (hsuper : -1 ≤ p.toksuper) (hlt : p.toksuper < p.toknext) :
    Advances js len numTokens p (added p .string (p.pos + 1) stop (stop + 1)) := by
  refine ⟨hlen, by rw [hopen]; decide, added p .string (p.pos + 1) stop stop, ?_, rfl⟩
  obtain ⟨bound, hbound⟩ := hloop
  refine ⟨bound, fun fuel hle => ?_⟩
  have hloop : stringLoop js len fuel (p.pos + 1) = some (.ok stop) := hbound fuel hle
  simp only [parseChar, hopen, jsmnParseString, hloop, addToken_eq hroom, Option.bind_eq_bind,
    Option.bind_some, Option.pure_def]
  exact counted_token hsuper hlt _ _ _ _

/-- A string. -/
theorem advance_string {text : List UInt8} (hscans : Scans text) (hnul : 0 ∉ text)
    (hread : ReadsAt js p.pos (0x22 :: text ++ [0x22]))
    (hlen : p.pos + text.length + 2 ≤ len) (hroom : p.toknext < numTokens)
    (hsuper : -1 ≤ p.toksuper) (hlt : p.toksuper < p.toknext) :
    Advances js len numTokens p (added p .string (p.pos + 1) (p.pos + 1 + text.length : Nat)
      (p.pos + text.length + 2)) := by
  rw [List.cons_append, readsAt_cons, readsAt_append] at hread
  obtain ⟨hopen, htext, hclose⟩ := hread
  have hend : js (p.pos + 1 + text.length) = 0x22 := (readsAt_cons.mp hclose).1
  rw [show p.pos + text.length + 2 = p.pos + 1 + text.length + 1 by omega]
  exact advance_quoted hopen (by omega) (stringLoop_scans hscans hnul htext hend (by omega)) hroom
    hsuper hlt

/-- A word ends at white space, a comma or a bracket, and nowhere before. -/
theorem word_plain {b : UInt8} (h : Word b) :
    endsPrimitive b = false ∧ ¬ (b < 32 ∨ 127 ≤ b) ∧ b ≠ 0 ∧
      b ∉ [0x7b, 0x5b, 0x7d, 0x5d, 0x22, 0x09, 0x0d, 0x0a, 0x20, 0x3a, 0x2c] := by
  simp only [Word, endsPrimitive, UInt8.le_iff_toNat_le, UInt8.lt_iff_toNat_lt, List.mem_cons,
    List.not_mem_nil, or_false, ← UInt8.toNat_inj, Bool.or_eq_false_iff, decide_eq_false_iff_not,
    ne_eq, UInt8.reduceToNat] at h ⊢
  omega

theorem primitiveLoop_word {text : List UInt8} (hword : ∀ b ∈ text, Word b) {pos : Nat}
    (hread : ReadsAt js pos text) (hend : endsPrimitive (js (pos + text.length)) = true)
    (hnul : js (pos + text.length) ≠ 0) (hlen : pos + text.length < len) :
    Returns (fun fuel => primitiveLoop js len fuel pos) (.ok (pos + text.length)) := by
  induction text generalizing pos with
  | nil =>
    simp only [List.length_nil, Nat.add_zero] at hend hnul hlen ⊢
    apply (Returns.pure _).step
    intro fuel
    rw [primitiveLoop, if_pos ⟨hlen, hnul⟩, if_pos hend]
  | cons b text ih =>
    rw [readsAt_cons] at hread
    simp only [List.forall_mem_cons] at hword
    rw [List.length_cons, show pos + (text.length + 1) = pos + 1 + text.length by omega]
      at hend hnul hlen ⊢
    obtain ⟨hends, hrange, hne, _⟩ := word_plain hword.1
    apply (ih hword.2 hread.2 hend hnul hlen).step
    intro fuel
    rw [primitiveLoop, hread.1, if_pos ⟨by omega, hne⟩, hends, if_neg (by decide), if_neg hrange]

/-- A primitive, up to the character that ends it. -/
theorem advance_primitive {text : List UInt8} (hne : text ≠ []) (hword : ∀ b ∈ text, Word b)
    (hread : ReadsAt js p.pos text) (hend : endsPrimitive (js (p.pos + text.length)) = true)
    (hnul : js (p.pos + text.length) ≠ 0) (hlen : p.pos + text.length < len)
    (hroom : p.toknext < numTokens) (hsuper : -1 ≤ p.toksuper) (hlt : p.toksuper < p.toknext) :
    Advances js len numTokens p
      (added p .primitive p.pos (p.pos + text.length : Nat) (p.pos + text.length)) := by
  obtain ⟨b, rest, rfl⟩ := List.exists_cons_of_ne_nil hne
  have hfirst : js p.pos = b := (readsAt_cons.mp hread).1
  obtain ⟨_, _, hb, hother⟩ := word_plain (hword b List.mem_cons_self)
  simp only [List.mem_cons, List.not_mem_nil, or_false, not_or] at hother
  refine ⟨by omega, by rw [hfirst]; exact hb, added p .primitive p.pos
    (p.pos + (b :: rest).length : Nat) (p.pos + (b :: rest).length - 1), ?_, ?_⟩
  · obtain ⟨bound, hbound⟩ := primitiveLoop_word hword hread hend hnul hlen
    refine ⟨bound, fun fuel hle => ?_⟩
    have hloop : primitiveLoop js len fuel p.pos = some (.ok (p.pos + (b :: rest).length)) :=
      hbound fuel hle
    simp only [parseChar, hfirst, hother, or_self, ↓reduceIte, jsmnParsePrimitive, hloop,
      addToken_eq hroom, Option.bind_eq_bind, Option.bind_some, Option.pure_def]
    exact counted_token hsuper hlt _ _ _ _
  · simp only [added, List.length_cons]
    congr 1

/-- A parser with one more token, counted by the token above it. -/
structure Extends (p p' : Parser) (tok : Tok) : Prop where
  next : p'.toknext = p.toknext + 1
  count : p'.count = p.count + 1
  token : p'.tokens p.toknext = tok
  others : ∀ j < p.toknext, p'.tokens j =
    if (j : Int) = p.toksuper then { p.tokens j with size := (p.tokens j).size + 1 }
    else p.tokens j

theorem added_extends (hlt : p.toksuper < p.toknext) (type : TokType) (start stop : Int)
    (pos : Nat) :
    Extends p (added p type start stop pos) ⟨type, start, stop, 0, p.toksuper⟩ := by
  refine ⟨rfl, rfl, ?_, fun j hj => ?_⟩
  · simp only [added, bump, Function.update_self]
    rw [if_neg (by omega)]
  · simp only [added, bump, Function.update_of_ne (show j ≠ p.toknext by omega)]

/-- The parser after an opening bracket. -/
theorem openBracket_eq (type : TokType) (hroom : p.toknext < numTokens) (hsuper : -1 ≤ p.toksuper)
    (hlt : p.toksuper < p.toknext) :
    ∃ q, openBracket numTokens p type = some (.ok q) ∧
      Extends p q ⟨type, p.pos, -1, 0, p.toksuper⟩ ∧ q.pos = p.pos ∧ q.toksuper = p.toknext := by
  rw [openBracket, jsmnAllocToken_eq (by exact hroom)]
  simp only
  rw [incSuper_eq (by exact hsuper) (by simp only; omega), Option.bind_eq_bind, Option.bind_some,
    tok_eq (by omega) (by simp only; omega), Option.bind_eq_bind, Option.bind_some,
    setTok_eq (by omega) (by simp only; omega)]
  refine ⟨_, rfl, ⟨rfl, rfl, ?_, fun j hj => ?_⟩, rfl, ?_⟩
  · simp only [Int.toNat_natCast, Function.update_self, bump]
    rw [if_neg (by omega)]
    simp only [Tok.mk.injEq, true_and]
    split <;> omega
  · simp only [Int.toNat_natCast, Function.update_of_ne (show j ≠ p.toknext by omega), bump]
  · simp

/-- An opening bracket. -/
theorem advance_open {type : TokType} (hlen : p.pos < len)
    (h : (js p.pos = 0x7b ∧ type = .object) ∨ (js p.pos = 0x5b ∧ type = .array))
    (hroom : p.toknext < numTokens) (hsuper : -1 ≤ p.toksuper) (hlt : p.toksuper < p.toknext) :
    ∃ p', Advances js len numTokens p p' ∧ Extends p p' ⟨type, p.pos, -1, 0, p.toksuper⟩ ∧
      p'.pos = p.pos + 1 ∧ p'.toksuper = p.toknext := by
  obtain ⟨q, hq, hext, hpos, hqsuper⟩ := openBracket_eq type hroom hsuper hlt
  refine ⟨{ q with pos := q.pos + 1 }, ⟨hlen, ?_, q, ?_, rfl⟩,
    ⟨hext.next, hext.count, hext.token, hext.others⟩, by rw [hpos], hqsuper⟩
  · rcases h with h | h <;> (rw [h.1]; decide)
  · apply (Returns.pure _).congr
    intro fuel
    rcases h with ⟨h, rfl⟩ | ⟨h, rfl⟩ <;> simp [parseChar, h, hq]

/-- Closed tokens from `lo` to `hi`, all below the token `n`. -/
def Inside (tokens : Nat → Tok) (n lo hi : Nat) : Prop :=
  ∀ j, lo ≤ j → j < hi →
    (tokens j).stop ≠ -1 ∧ (n : Int) ≤ (tokens j).parent ∧ (tokens j).parent < j

theorem Inside.congr {tokens tokens' : Nat → Tok} {n lo hi : Nat} (h : Inside tokens n lo hi)
    (heq : ∀ j, lo ≤ j → j < hi → tokens' j = tokens j) : Inside tokens' n lo hi := by
  intro j hlo hhi
  rw [heq j hlo hhi]
  exact h j hlo hhi

theorem Inside.mono {tokens : Nat → Tok} {n n' lo hi : Nat} (h : Inside tokens n' lo hi)
    (hle : n ≤ n') : Inside tokens n lo hi := by
  intro j hlo hhi
  obtain ⟨hclosed, hlow, hup⟩ := h j hlo hhi
  exact ⟨hclosed, by omega, hup⟩

theorem Inside.append {tokens : Nat → Tok} {n lo mid hi : Nat} (h : Inside tokens n lo mid)
    (h' : Inside tokens n mid hi) : Inside tokens n lo hi := by
  intro j hlo hhi
  by_cases hmid : j < mid
  · exact h j hlo hmid
  · exact h' j (by omega) hhi

/-- The search for the open token passes over what is inside it. -/
theorem closeLoop_inside {type : TokType} {n : Nat}
    (hopen : (p.tokens n).start ≠ -1 ∧ (p.tokens n).stop = -1) (htype : (p.tokens n).type = type)
    (hinside : Inside p.tokens n (n + 1) p.toknext) (i : Nat) (hn : n ≤ i) (hi : i < p.toknext) :
    Returns (fun fuel => closeLoop p type fuel i) (.ok (some (n : Int))) := by
  induction i using Nat.strong_induction_on with
  | _ i ih =>
    have htok : p.tok i = some (p.tokens i) := tok_eq (by omega) (by omega)
    by_cases heq : i = n
    · subst heq
      apply (Returns.pure _).step
      intro fuel
      rw [closeLoop, htok, Option.bind_eq_bind, Option.bind_some, if_pos hopen,
        if_neg (not_not.mpr htype)]
      rfl
    · obtain ⟨hclosed, hlow, hup⟩ := hinside i (by omega) hi
      apply (ih (p.tokens i).parent.toNat (by omega) (by omega) (by omega)).step
      intro fuel
      rw [closeLoop, htok, Option.bind_eq_bind, Option.bind_some, if_neg fun h => hclosed h.2,
        if_neg (by omega), Int.toNat_of_nonneg (by omega)]

/-- A closing bracket closes the token that is open. -/
theorem advance_close {type : TokType} {n : Nat} (hlen : p.pos < len)
    (h : (js p.pos = 0x7d ∧ type = .object) ∨ (js p.pos = 0x5d ∧ type = .array))
    (hn : n < p.toknext) (hopen : (p.tokens n).start ≠ -1 ∧ (p.tokens n).stop = -1)
    (htype : (p.tokens n).type = type) (hinside : Inside p.tokens n (n + 1) p.toknext) :
    Advances js len numTokens p { p with
      tokens := Function.update p.tokens n { p.tokens n with stop := (p.pos : Int) + 1 }
      toksuper := (p.tokens n).parent
      pos := p.pos + 1 } := by
  obtain ⟨bound, hbound⟩ := closeLoop_inside hopen htype hinside (p.toknext - 1) (by omega) (by omega)
  refine ⟨hlen, ?_, { p with
    tokens := Function.update p.tokens n { p.tokens n with stop := (p.pos : Int) + 1 }
    toksuper := (p.tokens n).parent }, ⟨bound, fun fuel hle => ?_⟩, rfl⟩
  · rcases h with h | h <;> (rw [h.1]; decide)
  · have hloop : closeLoop p type fuel ((p.toknext : Int) - 1) = some (.ok (some (n : Int))) := by
      rw [show (p.toknext : Int) - 1 = (p.toknext - 1 : Nat) by omega]
      exact hbound fuel hle
    have hclose : closeBracket fuel p type = some (.ok { p with
        tokens := Function.update p.tokens n { p.tokens n with stop := (p.pos : Int) + 1 }
        toksuper := (p.tokens n).parent }) := by
      rw [closeBracket, if_neg (by omega), hloop, Option.bind_eq_bind, Option.bind_some]
      simp only
      rw [tok_eq (by omega) (by omega), Option.bind_eq_bind, Option.bind_some,
        setTok_eq (by omega) (by omega)]
      rfl
    rcases h with ⟨h, rfl⟩ | ⟨h, rfl⟩ <;> simp [parseChar, h, hclose]

end StmGateway.Json.Switch
