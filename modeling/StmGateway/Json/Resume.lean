import StmGateway.Json.Kept

/-!
# Parses in several calls

`jsmn_parse` goes on where it stopped: after JSMN_ERROR_NOMEM it may be called
with more tokens, after JSMN_ERROR_PART with more text. A step of the loop is
the same step with more of both, but for a primitive that the text ended with.
-/
namespace StmGateway.Json.Resume

open StmGateway.Lib StmGateway.Json.Jsmn StmGateway.Json.Switch StmGateway.Json.Tree
open StmGateway.Json.Safety StmGateway.Json.Kept

variable {js : Nat → UInt8} {len len' numTokens numTokens' fuel : Nat} {p p' q : Parser}

/-- The text may go on behind its first `len` bytes: the parser stopped before, a
primitive would end there, or the last token is none. -/
def Uncut (js : Nat → UInt8) (len : Nat) (p : Parser) : Prop :=
  p.pos < len ∨ js len = 0 ∨ endsPrimitive (js len) = true ∨
    ∀ i < p.toknext, (p.tokens i).type = .primitive → (p.tokens i).stop ≠ len

section Loops

theorem primitiveLoop_longer (hle : len ≤ len') {stop : Nat} :
    ∀ (fuel : Nat) {pos : Nat}, pos ≤ len → primitiveLoop js len fuel pos = some (.ok stop) →
      stop ≠ len ∨ js len = 0 ∨ endsPrimitive (js len) = true →
      primitiveLoop js len' fuel pos = some (.ok stop) := by
  intro fuel
  induction fuel with
  | zero =>
    intro pos _ h
    cases h
  | succ fuel ih =>
    intro pos hpos h hend
    rw [primitiveLoop] at h ⊢
    split at h
    · next hin =>
      rw [if_pos ⟨by omega, hin.2⟩]
      split at h
      · next hends => rwa [if_pos hends]
      · next hends =>
        rw [if_neg hends]
        split at h
        · cases h
        · next hplain =>
          rw [if_neg hplain]
          exact ih (by omega) h hend
    · next hout =>
      cases h
      by_cases hnul : js stop = 0
      · rw [if_neg fun h => h.2 hnul]
      · have hlast : stop = len := by
          by_contra hne
          exact not_and.mp hout (by omega) hnul
        subst hlast
        have hends := (hend.resolve_left (not_not.mpr rfl)).resolve_left hnul
        by_cases hmore : stop < len'
        · rw [if_pos ⟨hmore, hnul⟩, if_pos hends]
        · rw [if_neg fun h => hmore h.1]

theorem hexLoop_longer (hle : len ≤ len') {stop : Nat} (hstop : stop < len) :
    ∀ (n : Nat) {pos : Nat}, hexLoop js len n pos = .ok stop →
      hexLoop js len' n pos = .ok stop := by
  intro n
  induction n with
  | zero =>
    intro pos h
    exact h
  | succ n ih =>
    intro pos h
    rw [hexLoop] at h ⊢
    split at h
    · next hin =>
      rw [if_pos ⟨by omega, hin.2⟩]
      split at h
      · next hhex =>
        rw [if_pos hhex]
        exact ih h
      · cases h
    · next hout =>
      cases h
      rw [if_neg fun h => hout ⟨hstop, h.2⟩]

/-- The closing quote is found again. -/
theorem stringLoop_longer (hle : len ≤ len') {stop : Nat} :
    ∀ (fuel : Nat) {pos : Nat}, stringLoop js len fuel pos = some (.ok stop) →
      stringLoop js len' fuel pos = some (.ok stop) := by
  intro fuel
  induction fuel with
  | zero =>
    intro pos h
    cases h
  | succ fuel ih =>
    intro pos h
    rw [stringLoop] at h ⊢
    split at h
    · next hin =>
      rw [if_pos ⟨by omega, hin.2⟩]
      split at h
      · next hquote => rwa [if_pos hquote]
      · next hquote =>
        rw [if_neg hquote]
        split at h
        · next hslash =>
          rw [if_pos ⟨hslash.1, by omega⟩]
          split at h
          · next hknown =>
            rw [if_pos hknown]
            exact ih h
          · next hknown =>
            rw [if_neg hknown]
            split at h
            · next hu =>
              rw [if_pos hu]
              cases hhex : hexLoop js len 4 (pos + 2) with
              | error e =>
                rw [hhex] at h
                cases h
              | ok pos' =>
                rw [hhex] at h
                obtain ⟨hbefore, hlt, _⟩ := Escape.stringLoop_ok fuel h
                rw [hexLoop_longer hle (by omega) 4 hhex]
                exact ih h
            · cases h
        · next hslash =>
          obtain ⟨hbefore, hlt, _⟩ := Escape.stringLoop_ok fuel h
          rw [if_neg fun h => hslash ⟨h.1, by omega⟩]
          exact ih h
    · cases h

end Loops

section Step

variable (hle : len ≤ len') (hnum : numTokens ≤ numTokens')
include hnum

theorem jsmnAllocToken_more {r : Nat × Parser} (h : jsmnAllocToken p numTokens = some r) :
    jsmnAllocToken p numTokens' = some r := by
  rw [jsmnAllocToken] at h ⊢
  split at h
  · cases h
  · next hroom => rwa [if_neg (by omega)]

theorem openBracket_more {type : TokType} (h : openBracket numTokens p type = some (.ok q)) :
    openBracket numTokens' p type = some (.ok q) := by
  rw [openBracket] at h ⊢
  cases hcell : jsmnAllocToken { p with count := p.count + 1 } numTokens with
  | none =>
    rw [hcell] at h
    cases h
  | some r =>
    rw [hcell] at h
    rwa [jsmnAllocToken_more hnum hcell]

omit hnum in
/-- The branch of a primitive. -/
theorem primitive_inv (h : Sound len numTokens p)
    (hprimitive : (do counted (← jsmnParsePrimitive js len numTokens fuel p)) = some (.ok q)) :
    ∃ stop : Nat, primitiveLoop js len fuel p.pos = some (.ok stop) ∧
      p.toknext < numTokens ∧ q = added p .primitive p.pos stop (stop - 1) := by
  cases hloop : primitiveLoop js len fuel p.pos with
  | none =>
    rw [jsmnParsePrimitive, hloop] at hprimitive
    cases hprimitive
  | some r =>
    simp only [jsmnParsePrimitive, hloop, Option.bind_eq_bind, Option.bind_some] at hprimitive
    cases r with
    | error e => cases hprimitive
    | ok stop =>
      obtain ⟨hroom, hq⟩ := counted_inv h hprimitive
      exact ⟨stop, rfl, hroom, hq⟩

include hle

theorem string_more (h : Sound len numTokens p)
    (hstring : (do counted (← jsmnParseString js len numTokens fuel p)) = some (.ok q)) :
    (do counted (← jsmnParseString js len' numTokens' fuel p)) = some (.ok q) := by
  obtain ⟨stop, hloop, hroom, rfl⟩ := string_inv h hstring
  simp only [jsmnParseString, stringLoop_longer hle fuel hloop,
    addToken_eq (show p.toknext < numTokens' by omega), Option.bind_eq_bind, Option.bind_some,
    Option.pure_def]
  exact counted_token h.low h.super _ _ _ _

theorem primitive_more (h : Sound len numTokens p) (hpos : p.pos < len)
    (hprimitive : (do counted (← jsmnParsePrimitive js len numTokens fuel p)) = some (.ok q))
    (huncut : len = len' ∨ Uncut js len { q with pos := q.pos + 1 }) :
    (do counted (← jsmnParsePrimitive js len' numTokens' fuel p)) = some (.ok q) := by
  obtain ⟨stop, hloop, hroom, rfl⟩ := primitive_inv h hprimitive
  have hloop' : primitiveLoop js len' fuel p.pos = some (.ok stop) := by
    rcases huncut with rfl | hbefore | hnul | hends | hnone
    · exact hloop
    · refine primitiveLoop_longer hle fuel (le_of_lt hpos) hloop (.inl ?_)
      simp only [added] at hbefore
      omega
    · exact primitiveLoop_longer hle fuel (le_of_lt hpos) hloop (.inr (.inl hnul))
    · exact primitiveLoop_longer hle fuel (le_of_lt hpos) hloop (.inr (.inr hends))
    · have hext := added_extends h.super .primitive p.pos stop (stop - 1)
      have hnew := hnone p.toknext (by simp only [hext.next]; omega) (by simp only [hext.token])
      simp only [hext.token] at hnew
      exact primitiveLoop_longer hle fuel (le_of_lt hpos) hloop (.inl fun heq => hnew (by rw [heq]))
  simp only [jsmnParsePrimitive, hloop',
    addToken_eq (show p.toknext < numTokens' by omega), Option.bind_eq_bind, Option.bind_some,
    Option.pure_def]
  exact counted_token h.low h.super _ _ _ _

/-- What a character does, it does with more text and more tokens. -/
theorem parseChar_more (h : Sound len numTokens p) (hpos : p.pos < len)
    (hchar : parseChar js len numTokens fuel p = some (.ok q))
    (huncut : len = len' ∨ Uncut js len { q with pos := q.pos + 1 }) :
    parseChar js len' numTokens' fuel p = some (.ok q) := by
  simp only [parseChar] at hchar ⊢
  split_ifs at hchar ⊢
  · exact openBracket_more hnum hchar
  · exact openBracket_more hnum hchar
  · exact hchar
  · exact hchar
  · exact string_more hle hnum h hchar
  · exact hchar
  · exact hchar
  · exact hchar
  · exact primitive_more hle hnum h hpos hchar huncut

theorem advances_more (h : Sound len numTokens p) (hadv : Advances js len numTokens p p')
    (huncut : len = len' ∨ Uncut js len p') : Advances js len' numTokens' p p' := by
  obtain ⟨hpos, hnul, q, ⟨bound, hbound⟩, rfl⟩ := hadv
  have hchar := parseChar_more hle hnum h hpos (hbound bound le_rfl) huncut
  exact ⟨by omega, hnul, q, parseChar_settles.returns hchar, rfl⟩

/-- All steps but the last end before the text does. -/
theorem steps_more (h : Sound len numTokens p) (hsteps : Steps js len numTokens p p')
    (huncut : len = len' ∨ Uncut js len p') : Steps js len' numTokens' p p' := by
  induction hsteps with
  | refl => exact .refl
  | tail hsteps hlast ih =>
    exact .tail (ih (.inr (.inl hlast.1))) (advances_more hle hnum (steps_sound hsteps h) hlast huncut)

end Step

/-- A call ends where the steps of the loop have led. -/
theorem parseLoop_inv : ∀ (fuel : Nat) {p q : Parser} {r : Int},
    parseLoop js len numTokens fuel p = some (r, q) → Steps js len numTokens p q := by
  intro fuel
  induction fuel with
  | zero =>
    intro p q r h
    cases h
  | succ fuel ih =>
    intro p q r h
    rw [parseLoop] at h
    split at h
    · next hin =>
      cases hchar : parseChar js len numTokens fuel p with
      | none =>
        rw [hchar] at h
        cases h
      | some c =>
        rw [hchar, Option.bind_eq_bind, Option.bind_some] at h
        cases c with
        | error e =>
          cases h
          exact .refl
        | ok p' =>
          exact .head ⟨hin.1, hin.2, p', parseChar_settles.returns hchar, rfl⟩ (ih h)
    · split at h
      · cases h
        exact .refl
      · cases h
        exact .refl

/-- Calls of `jsmn_parse` on one parser, the first after `jsmn_init`: each may be
given more of the text and a larger array than the one before. -/
inductive Session (js : Nat → UInt8) (tk : Nat → Tok) : Nat → Nat → Int → Parser → Prop
  | first {len numTokens : Nat} {r : Int} {q : Parser} :
      Returns (fun fuel => jsmnParse js len numTokens fuel (jsmnInit tk)) (r, q) →
      Session js tk len numTokens r q
  | again {len len' numTokens numTokens' : Nat} {r r' : Int} {p q : Parser} :
      Session js tk len numTokens r p → len ≤ len' → numTokens ≤ numTokens' →
      len = len' ∨ Uncut js len p →
      Returns (fun fuel => jsmnParse js len' numTokens' fuel p) (r', q) →
      Session js tk len' numTokens' r' q

/-- However a text was handed over, the last call of a session returns what one
call on all of it returns, with the same tokens. -/
theorem session_once {tk : Nat → Tok} {r : Int} (h : Session js tk len numTokens r q) :
    Returns (fun fuel => jsmnParse js len numTokens fuel (jsmnInit tk)) (r, q) := by
  induction h with
  | first hcall => exact hcall
  | @again len len' numTokens numTokens' r r' p q _ hle hnum huncut hcall ih =>
    obtain ⟨bound, hbound⟩ := ih
    have hsteps := parseLoop_inv bound (hbound bound le_rfl)
    have hinit := init_sound len numTokens tk
    have hcount : { p with count := p.toknext } = p :=
      congrArg (fun n => { p with count := n }) (steps_sound hsteps hinit).count.symm
    refine parseLoop_steps (steps_more hle hnum hinit hsteps huncut) ?_
    simp only [jsmnParse, hcount] at hcall
    exact hcall

/-- One token and four bytes, then the rest of both. -/
theorem session_once_array :
    ∃ q, Returns (fun fuel => jsmnParse (fun i => (ascii "[12,3]").getD i 0) 6 3 fuel
      (jsmnInit fun _ => ⟨.undefined, 0, 0, 0, 0⟩)) (3, q) := by
  have hfirst := (@jsmnParse_settles (fun i => (ascii "[12,3]").getD i 0) 4 1
    (jsmnInit fun _ => ⟨.undefined, 0, 0, 0, 0⟩)).returns (n := 9)
    (show _ = some (jsmnErrorNomem, _) from rfl)
  exact ⟨_, session_once (.again (.first hfirst) (by decide) (by decide) (.inr (.inl (by decide)))
    ((jsmnParse_settles _).returns (n := 9) (show _ = some (3, _) from rfl)))⟩

end StmGateway.Json.Resume
