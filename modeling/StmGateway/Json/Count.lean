import StmGateway.Json.Resume

/-!
# How many tokens a text needs

`jsmn_parse` without a token array counts the tokens of a text. What it returns
says what a call with an array of any size returns.
-/
namespace StmGateway.Json.Count

open StmGateway.Lib StmGateway.Json.Jsmn StmGateway.Json.Grammar StmGateway.Json.Switch
open StmGateway.Json.Tree StmGateway.Json.Safety StmGateway.Json.Resume

section Model

variable (js : Nat → UInt8) (len : Nat)

/-- The `switch` of `jsmn_parse` where `tokens` is NULL. -/
def countChar (fuel : Nat) (p : Parser) : Option (Except Int Parser) :=
  let c := js p.pos
  if c = 0x7b ∨ c = 0x5b then some (.ok { p with count := p.count + 1 })
  else if c = 0x7d ∨ c = 0x5d then some (.ok p)
  else if c = 0x22 then do
    match ← stringLoop js len fuel (p.pos + 1) with
    | .error r => return .error r
    | .ok pos => return .ok { p with pos := pos, count := p.count + 1 }
  else if c = 0x09 ∨ c = 0x0d ∨ c = 0x0a ∨ c = 0x20 then some (.ok p)
  else if c = 0x3a then some (.ok { p with toksuper := (p.toknext : Int) - 1 })
  else if c = 0x2c then some (.ok p)
  else do
    match ← primitiveLoop js len fuel p.pos with
    | .error r => return .error r
    | .ok pos => return .ok { p with pos := pos - 1, count := p.count + 1 }

/-- The loop of `jsmn_parse` where `tokens` is NULL. -/
def countLoop : Nat → Parser → Option (Int × Parser)
  | 0, _ => none
  | fuel + 1, p =>
    if p.pos < len ∧ js p.pos ≠ 0 then do
      match ← countChar js len fuel p with
      | .error r => return (r, p)
      | .ok p => countLoop fuel { p with pos := p.pos + 1 }
    else
      some (p.count, p)

/-- `jsmn_parse` where `tokens` is NULL. -/
def jsmnParseNull (fuel : Nat) (p : Parser) : Option (Int × Parser) :=
  countLoop js len fuel { p with count := p.toknext }

end Model

/-- What a call with an array returns, where the call without one returned `c`. -/
def Fits (c : Int) (numTokens : Nat) (r : Int) : Prop :=
  if c < 0 then r = c ∨ r = jsmnErrorNomem ∨ r = jsmnErrorInval
  else if c ≤ numTokens then r = c ∨ r = jsmnErrorInval ∨ r = jsmnErrorPart
  else r = jsmnErrorNomem ∨ r = jsmnErrorInval

/-- The two calls are at the same character, with as many tokens counted. -/
structure Tracks (p n : Parser) : Prop where
  pos : n.pos = p.pos
  count : n.count = p.count

variable {js : Nat → UInt8} {len numTokens numTokens' fuel : Nat} {p q n : Parser}

/-- What a character does in the call with an array, and in the other. -/
inductive Agrees (numTokens : Nat) (p : Parser) :
    Except Int Parser → Option (Except Int Parser) → Prop
  | goes {q m : Parser} : Tracks q m → Agrees numTokens p (.ok q) (some (.ok m))
  | refused {e : Int} : e < 0 → Agrees numTokens p (.error e) (some (.error e))
  | full {m : Parser} : p.toknext = numTokens → m.count = p.count + 1 →
      Agrees numTokens p (.error jsmnErrorNomem) (some (.ok m))
  | bracket {m : Parser} : Agrees numTokens p (.error jsmnErrorInval) (some (.ok m))

theorem closeLoop_error {type : TokType} {e : Int} : ∀ (fuel : Nat) (i : Int),
    closeLoop p type fuel i = some (.error e) → e = jsmnErrorInval := by
  intro fuel
  induction fuel with
  | zero =>
    intro i h
    cases h
  | succ fuel ih =>
    intro i h
    rw [closeLoop] at h
    obtain ⟨token, _, h⟩ := Option.bind_eq_some_iff.mp h
    split at h
    · split at h
      · cases h
        rfl
      · cases h
    · split at h
      · split at h
        · cases h
          rfl
        · cases h
      · exact ih _ h

theorem setTok_inv {i : Int} {tok : Tok} (h : p.setTok i tok = some q) :
    q = { p with tokens := Function.update p.tokens i.toNat tok } := by
  rw [Parser.setTok] at h
  split at h
  · cases h
    rfl
  · cases h

theorem stringLoop_error {e : Int} {pos : Nat} (hpos : pos ≤ len)
    (h : stringLoop js len fuel pos = some (.error e)) : e < 0 := by
  obtain ⟨bound, hbound⟩ := (stringLoop_settles pos).returns h
  have hmore := hbound (max bound (len + 1)) (Nat.le_max_left _ _)
  rcases @stringLoop_total js len (max bound (len + 1)) pos hpos (by omega) with
    ⟨stop, hstop, _⟩ | ⟨e', he', hneg⟩
  · cases hmore.symm.trans hstop
  · cases hmore.symm.trans he'
    exact hneg

theorem primitiveLoop_error {e : Int} {pos : Nat} (hpos : pos ≤ len)
    (h : primitiveLoop js len fuel pos = some (.error e)) : e < 0 := by
  obtain ⟨bound, hbound⟩ := (primitiveLoop_settles pos).returns h
  have hmore := hbound (max bound (len + 1)) (Nat.le_max_left _ _)
  rcases @primitiveLoop_total js len (max bound (len + 1)) pos hpos (by omega) with
    ⟨stop, hstop, _⟩ | ⟨e', he', hneg⟩
  · cases hmore.symm.trans hstop
  · cases hmore.symm.trans he'
    exact hneg

section Characters

variable (h : Sound len numTokens p) (htracks : Tracks p n) {r : Except Int Parser}
include htracks

theorem closeBracket_agrees {type : TokType} (hr : closeBracket fuel p type = some r) :
    Agrees numTokens p r (some (.ok n)) := by
  rw [closeBracket] at hr
  split at hr
  · cases hr
    exact .bracket
  · obtain ⟨found, hfound, hr⟩ := Option.bind_eq_some_iff.mp hr
    cases found with
    | error e =>
      cases hr
      cases closeLoop_error fuel _ hfound
      exact .bracket
    | ok found =>
      cases found with
      | none =>
        cases hr
        exact .goes htracks
      | some i =>
        obtain ⟨token, _, hr⟩ := Option.bind_eq_some_iff.mp hr
        obtain ⟨q, hq, hr⟩ := Option.bind_eq_some_iff.mp hr
        cases setTok_inv hq
        cases hr
        exact .goes ⟨htracks.pos, htracks.count⟩

theorem comma_tracks (hq : comma p = some q) : Tracks q n := by
  rw [comma] at hq
  split at hq
  · obtain ⟨super, _, hq⟩ := Option.bind_eq_some_iff.mp hq
    split at hq
    · cases hq
      exact ⟨htracks.pos, htracks.count⟩
    · cases hq
      exact htracks
  · cases hq
    exact htracks

include h

theorem openBracket_agrees {type : TokType} (hr : openBracket numTokens p type = some r) :
    Agrees numTokens p r (some (.ok { n with count := n.count + 1 })) := by
  have hroom := h.room
  by_cases hnext : p.toknext < numTokens
  · obtain ⟨q, hq, hext, hpos, _⟩ := openBracket_eq type hnext h.low h.super
    cases hr.symm.trans hq
    refine .goes ⟨htracks.pos.trans hpos.symm, ?_⟩
    simp only [hext.count, htracks.count]
  · rw [openBracket, jsmnAllocToken, if_pos (by simp only; omega)] at hr
    cases hr
    exact .full (by omega) (by simp only [htracks.count])

/-- A token with its text: counted in both, or there is none left. -/
theorem token_agrees {type : TokType} {start stop : Int} {pos : Nat}
    (hr : (do
      let r ← (do match ← addToken p numTokens type start stop with
        | .error r => return Except.error r
        | .ok p => return .ok { p with pos := pos })
      counted r) = some r) :
    Agrees numTokens p r (some (.ok { n with pos := pos, count := n.count + 1 })) := by
  have hroom := h.room
  by_cases hnext : p.toknext < numTokens
  · rw [addToken_eq hnext, Option.bind_eq_bind, Option.bind_some] at hr
    simp only [Option.pure_def, Option.bind_some] at hr
    rw [counted_token h.low h.super] at hr
    cases hr
    exact .goes ⟨rfl, by simp only [added, htracks.count]⟩
  · rw [addToken_full hnext] at hr
    cases hr
    exact .full (by omega) (by simp only [htracks.count])

theorem string_agrees (hpos : p.pos < len)
    (hr : (do counted (← jsmnParseString js len numTokens fuel p)) = some r) :
    Agrees numTokens p r (do
      match ← stringLoop js len fuel (n.pos + 1) with
      | .error r => return .error r
      | .ok pos => return .ok { n with pos := pos, count := n.count + 1 }) := by
  rw [htracks.pos]
  cases hloop : stringLoop js len fuel (p.pos + 1) with
  | none =>
    rw [jsmnParseString, hloop] at hr
    cases hr
  | some found =>
    simp only [jsmnParseString, hloop, Option.bind_eq_bind, Option.bind_some] at hr ⊢
    cases found with
    | error e =>
      cases hr
      exact .refused (stringLoop_error (by omega) hloop)
    | ok stop => exact token_agrees h htracks hr

theorem primitive_agrees (hpos : p.pos < len)
    (hr : (do counted (← jsmnParsePrimitive js len numTokens fuel p)) = some r) :
    Agrees numTokens p r (do
      match ← primitiveLoop js len fuel n.pos with
      | .error r => return .error r
      | .ok pos => return .ok { n with pos := pos - 1, count := n.count + 1 }) := by
  rw [htracks.pos]
  cases hloop : primitiveLoop js len fuel p.pos with
  | none =>
    rw [jsmnParsePrimitive, hloop] at hr
    cases hr
  | some found =>
    simp only [jsmnParsePrimitive, hloop, Option.bind_eq_bind, Option.bind_some] at hr ⊢
    cases found with
    | error e =>
      cases hr
      exact .refused (primitiveLoop_error (by omega) hloop)
    | ok stop => exact token_agrees h htracks hr

theorem parseChar_agrees (hpos : p.pos < len)
    (hr : parseChar js len numTokens fuel p = some r) :
    Agrees numTokens p r (countChar js len fuel n) := by
  simp only [parseChar, ← htracks.pos] at hr
  simp only [countChar]
  split_ifs at hr with hobject harray hcloseObject hcloseArray hquote hblank hcolon hcomma
  · rw [if_pos (.inl hobject)]
    exact openBracket_agrees h htracks hr
  · rw [if_pos (.inr harray)]
    exact openBracket_agrees h htracks hr
  · rw [if_neg (not_or.mpr ⟨hobject, harray⟩), if_pos (.inl hcloseObject)]
    exact closeBracket_agrees htracks hr
  · rw [if_neg (not_or.mpr ⟨hobject, harray⟩), if_pos (.inr hcloseArray)]
    exact closeBracket_agrees htracks hr
  all_goals rw [if_neg (not_or.mpr ⟨hobject, harray⟩),
    if_neg (not_or.mpr ⟨hcloseObject, hcloseArray⟩)]
  · rw [if_pos hquote]
    exact string_agrees h htracks hpos hr
  · rw [if_neg hquote, if_pos hblank]
    cases hr
    exact .goes htracks
  · rw [if_neg hquote, if_neg hblank, if_pos hcolon]
    cases hr
    exact .goes ⟨rfl, htracks.count⟩
  · rw [if_neg hquote, if_neg hblank, if_neg hcolon, if_pos hcomma]
    obtain ⟨q, hq, hr⟩ := Option.bind_eq_some_iff.mp hr
    cases hr
    exact .goes (comma_tracks htracks hq)
  · rw [if_neg hquote, if_neg hblank, if_neg hcolon, if_neg hcomma]
    exact primitive_agrees h htracks hpos hr

end Characters

theorem countChar_settles : Settles fun fuel => countChar js len fuel n := by
  simp only [countChar]
  split_ifs
  · exact settles_const _
  · exact settles_const _
  · exact (stringLoop_settles _).bind fun _ => settles_const _
  · exact settles_const _
  · exact settles_const _
  · exact settles_const _
  · exact (primitiveLoop_settles _).bind fun _ => settles_const _

theorem countLoop_settles (n : Parser) : Settles fun fuel => countLoop js len fuel n := by
  refine settles_loop (fun _ => rfl) (fun fuel ih n r hr => ?_) n
  rw [countLoop] at hr ⊢
  split_ifs at hr ⊢
  · obtain ⟨x, hx, hr⟩ := Option.bind_eq_some_iff.mp hr
    have hsame : countChar js len (fuel + 1) n = some x := countChar_settles fuel x hx
    rw [hsame, Option.bind_eq_bind, Option.bind_some]
    cases x with
    | error e => exact hr
    | ok q => exact ih _ r hr
  · exact hr

/-- A character is passed, and counted or not. -/
theorem countChar_total (hpos : n.pos < len) (hnul : js n.pos ≠ 0) (hfuel : len < fuel) :
    Yields (fun q => n.pos ≤ q.pos ∧ n.count ≤ q.count) (countChar js len fuel n) := by
  simp only [countChar]
  split_ifs with hopen hclose hquote hblank hcolon hcomma
  · exact .ok ⟨le_rfl, Nat.le_succ _⟩
  · exact .ok ⟨le_rfl, le_rfl⟩
  · rcases @stringLoop_total js len fuel (n.pos + 1) (by omega) (by omega) with
      ⟨stop, hr, hstop⟩ | ⟨e, hr, he⟩
    · rw [hr]
      exact .ok ⟨by simp only; omega, Nat.le_succ _⟩
    · rw [hr]
      exact .error he
  · exact .ok ⟨le_rfl, le_rfl⟩
  · exact .ok ⟨le_rfl, le_rfl⟩
  · exact .ok ⟨le_rfl, le_rfl⟩
  · have hends : endsPrimitive (js n.pos) = false := by
      simp only [not_or] at hblank hclose
      simp [endsPrimitive, hcolon, hblank, hcomma, hclose]
    rcases primitiveLoop_start fuel hpos hnul hends (by omega) with ⟨stop, hr, hstop⟩ | ⟨e, hr, he⟩
    · rw [hr]
      exact .ok ⟨by simp only; omega, Nat.le_succ _⟩
    · rw [hr]
      exact .error he

/-- The call returns, and what was counted stays counted. -/
theorem countLoop_total : ∀ (fuel : Nat) {n : Parser}, len - n.pos + len + 1 < fuel →
    ∃ c m, countLoop js len fuel n = some (c, m) ∧ (c < 0 ∨ (n.count : Int) ≤ c) := by
  intro fuel
  induction fuel with
  | zero =>
    intro n hfuel
    omega
  | succ fuel ih =>
    intro n hfuel
    rw [countLoop]
    split
    · next hin =>
      rcases countChar_total hin.1 hin.2 (show len < fuel by omega) with
        ⟨q, hq, hpos, hcount⟩ | ⟨e, he, hneg⟩
      · rw [hq, Option.bind_eq_bind, Option.bind_some]
        obtain ⟨c, m, hrest, hc⟩ := @ih { q with pos := q.pos + 1 } (by simp only; omega)
        exact ⟨c, m, hrest, hc.imp_right fun hle => by simp only at hle; omega⟩
      · rw [he, Option.bind_eq_bind, Option.bind_some]
        exact ⟨e, n, rfl, .inl hneg⟩
    · exact ⟨n.count, n, rfl, .inr le_rfl⟩

/-- What follows a character that is passed. -/
theorem rest_counts (fuel : Nat) {m : Parser}
    (h : Yields (fun q => n.pos ≤ q.pos ∧ n.count ≤ q.count) (some (.ok m)))
    (hpos : n.pos < len) (hfuel : len - n.pos + len < fuel) :
    ∃ c k, countLoop js len fuel { m with pos := m.pos + 1 } = some (c, k) ∧
      (c < 0 ∨ (m.count : Int) ≤ c) := by
  rcases h with ⟨q, hq, hle, _⟩ | ⟨e, he, _⟩
  · cases hq
    exact countLoop_total fuel (by simp only; omega)
  · cases he

theorem fits_inval (c : Int) (numTokens : Nat) : Fits c numTokens jsmnErrorInval := by
  unfold Fits
  split_ifs
  · exact .inr (.inr rfl)
  · exact .inr (.inl rfl)
  · exact .inr rfl

/-- All tokens are used, and one more was counted. -/
theorem fits_nomem {c : Int} (hc : c < 0 ∨ (numTokens : Int) < c) :
    Fits c numTokens jsmnErrorNomem := by
  unfold Fits
  split_ifs
  · exact .inr (.inl rfl)
  · omega
  · exact .inl rfl

theorem fits_refused {e : Int} (he : e < 0) : Fits e numTokens e := by
  rw [Fits, if_pos he]
  exact .inl rfl

/-- At the end of the text all its tokens are there; some may be open. -/
theorem fits_end {c r : Int} (h0 : 0 ≤ c) (hc : c ≤ numTokens) (hr : r = c ∨ r = jsmnErrorPart) :
    Fits c numTokens r := by
  rw [Fits, if_neg (by omega), if_pos hc]
  exact hr.imp_right .inr

/-- Character by character the two calls agree, or the one with the array ends. -/
theorem loops_fit : ∀ (fuel : Nat) {p n : Parser}, Sound len numTokens p → Tracks p n →
    len - p.pos + (len + numTokens) + 1 < fuel →
    ∃ r q c m, parseLoop js len numTokens fuel p = some (r, q) ∧
      countLoop js len fuel n = some (c, m) ∧ Fits c numTokens r := by
  intro fuel
  induction fuel with
  | zero =>
    intro p n _ _ hfuel
    omega
  | succ fuel ih =>
    intro p n h htracks hfuel
    have hpos := htracks.pos
    have hroom := h.room
    rw [parseLoop, countLoop, hpos]
    split
    · next hin =>
      have htotal : Yields (fun q => n.pos ≤ q.pos ∧ n.count ≤ q.count) (countChar js len fuel n) :=
        countChar_total (by rw [hpos]; exact hin.1) (by rw [hpos]; exact hin.2) (by omega)
      generalize hs : countChar js len fuel n = s at htotal
      rcases parseChar_total h hin.1 hin.2 (show len + numTokens < fuel by omega) with
        ⟨q, hq, hchange⟩ | ⟨e, hq, he⟩
      · obtain ⟨hsound, hle⟩ := hchange.sound h hin.1
        have hagrees := parseChar_agrees h htracks hin.1 hq
        rw [hs] at hagrees
        cases hagrees with
        | @goes _ m ht =>
          rw [hq]
          exact @ih { q with pos := q.pos + 1 } { m with pos := m.pos + 1 } hsound
            ⟨by simp only [ht.pos], ht.count⟩ (by simp only; omega)
      · have hagrees := parseChar_agrees h htracks hin.1 hq
        rw [hs] at hagrees
        rw [hq]
        cases hagrees with
        | refused he => exact ⟨e, p, e, n, rfl, rfl, fits_refused he⟩
        | @full m hfull hcount =>
          obtain ⟨c, k, hloop, hc⟩ := @rest_counts js len n fuel m htotal (by omega) (by omega)
          exact ⟨_, p, c, k, rfl, hloop, fits_nomem (by rw [hcount, h.count] at hc; omega)⟩
        | @bracket m =>
          obtain ⟨c, k, hloop, _⟩ := @rest_counts js len n fuel m htotal (by omega) (by omega)
          exact ⟨_, p, c, k, rfl, hloop, fits_inval c numTokens⟩
    · have hcount : n.count = p.toknext := htracks.count.trans h.count
      split
      · exact ⟨_, p, n.count, n, rfl, rfl, fits_end (by omega) (by omega) (.inr rfl)⟩
      · refine ⟨_, p, n.count, n, rfl, rfl, fits_end (by omega) (by omega) (.inl ?_)⟩
        rw [htracks.count]

section Errors

variable {e : Int} (h : Sound len numTokens p)
include h

theorem openBracket_error {type : TokType} (hopen : openBracket numTokens p type = some (.error e)) :
    e = jsmnErrorNomem := by
  by_cases hroom : p.toknext < numTokens
  · obtain ⟨q, hq, _⟩ := openBracket_eq type hroom h.low h.super
    cases hopen.symm.trans hq
  · rw [openBracket, jsmnAllocToken, if_pos (by simp only; omega)] at hopen
    cases hopen
    rfl

theorem token_error {type : TokType} {start stop : Int} {pos : Nat}
    (hadd : (do
      let r ← (do match ← addToken p numTokens type start stop with
        | .error r => return Except.error r
        | .ok p => return .ok { p with pos := pos })
      counted r) = some (.error e)) : e = jsmnErrorNomem := by
  by_cases hroom : p.toknext < numTokens
  · rw [addToken_eq hroom, Option.bind_eq_bind, Option.bind_some] at hadd
    simp only [Option.pure_def, Option.bind_some] at hadd
    rw [counted_token h.low h.super] at hadd
    cases hadd
  · rw [addToken_full hroom] at hadd
    cases hadd
    rfl

variable (numTokens') (he : e ≠ jsmnErrorNomem)
include he

theorem string_error
    (hstring : (do counted (← jsmnParseString js len numTokens fuel p)) = some (.error e)) :
    (do counted (← jsmnParseString js len numTokens' fuel p)) = some (.error e) := by
  cases hloop : stringLoop js len fuel (p.pos + 1) with
  | none =>
    rw [jsmnParseString, hloop] at hstring
    cases hstring
  | some found =>
    simp only [jsmnParseString, hloop, Option.bind_eq_bind, Option.bind_some] at hstring ⊢
    cases found with
    | error e' => exact hstring
    | ok stop => exact absurd (token_error h hstring) he

theorem primitive_error
    (hprimitive : (do counted (← jsmnParsePrimitive js len numTokens fuel p)) = some (.error e)) :
    (do counted (← jsmnParsePrimitive js len numTokens' fuel p)) = some (.error e) := by
  cases hloop : primitiveLoop js len fuel p.pos with
  | none =>
    rw [jsmnParsePrimitive, hloop] at hprimitive
    cases hprimitive
  | some found =>
    simp only [jsmnParsePrimitive, hloop, Option.bind_eq_bind, Option.bind_some] at hprimitive ⊢
    cases found with
    | error e' => exact hprimitive
    | ok stop => exact absurd (token_error h hprimitive) he

/-- An error that is not about the tokens is the same with any number of them. -/
theorem parseChar_error (hchar : parseChar js len numTokens fuel p = some (.error e)) :
    parseChar js len numTokens' fuel p = some (.error e) := by
  simp only [parseChar] at hchar ⊢
  split_ifs at hchar ⊢
  · exact absurd (openBracket_error h hchar) he
  · exact absurd (openBracket_error h hchar) he
  · exact hchar
  · exact hchar
  · exact string_error numTokens' h he hchar
  · exact hchar
  · exact hchar
  · exact hchar
  · exact primitive_error numTokens' h he hchar

end Errors

/-- An answer other than JSMN_ERROR_NOMEM does not depend on the size of the array. -/
theorem parseLoop_more (hnum : numTokens ≤ numTokens') : ∀ (fuel : Nat) {p q : Parser} {r : Int},
    Sound len numTokens p → parseLoop js len numTokens fuel p = some (r, q) → r ≠ jsmnErrorNomem →
    parseLoop js len numTokens' fuel p = some (r, q) := by
  intro fuel
  induction fuel with
  | zero =>
    intro p q r _ hrun _
    cases hrun
  | succ fuel ih =>
    intro p q r h hrun hr
    rw [parseLoop] at hrun ⊢
    split at hrun
    · next hin =>
      rw [if_pos hin]
      obtain ⟨x, hx, hrun⟩ := Option.bind_eq_some_iff.mp hrun
      cases x with
      | error e =>
        cases hrun
        rw [parseChar_error numTokens' h hr hx]
        rfl
      | ok p' =>
        rw [parseChar_more le_rfl hnum h hin.1 hx (.inl rfl)]
        rcases parseChar_next h hin.1 hin.2 hx with ⟨_, heq, hsound⟩ | ⟨_, _, heq⟩
        · cases heq
          exact ih hsound hrun hr
        · cases heq
    · next hout => rwa [if_neg hout]

/-- Both calls return, and what they return fits. -/
theorem null_fits (js : Nat → UInt8) (len : Nat) (tk : Nat → Tok) :
    ∃ c m, Returns (fun fuel => jsmnParseNull js len fuel (jsmnInit tk)) (c, m) ∧
      ∀ numTokens, ∃ r q,
        Returns (fun fuel => jsmnParse js len numTokens fuel (jsmnInit tk)) (r, q) ∧
        Fits c numTokens r := by
  obtain ⟨c, m, hcount, _⟩ := @countLoop_total js len (2 * len + 2)
    { jsmnInit tk with count := (jsmnInit tk).toknext } (by simp only [jsmnInit]; omega)
  have hnull : Returns (fun fuel => jsmnParseNull js len fuel (jsmnInit tk)) (c, m) :=
    (countLoop_settles _).returns hcount
  refine ⟨c, m, hnull, fun numTokens => ?_⟩
  obtain ⟨r, q, c', m', hparse, hloop, hfits⟩ :=
    @loops_fit js len numTokens (2 * len + numTokens + 2) _ _ (init_sound len numTokens tk)
      ⟨rfl, rfl⟩ (by simp only [jsmnInit]; omega)
  have hsame : (c', m') = (c, m) := ((countLoop_settles _).returns hloop).unique hnull
  cases hsame
  exact ⟨r, q, (parseLoop_settles _).returns hparse, hfits⟩

theorem parse_larger {tk : Nat → Tok} {r : Int} (hnum : numTokens ≤ numTokens')
    (hrun : Returns (fun fuel => jsmnParse js len numTokens fuel (jsmnInit tk)) (r, q))
    (hr : r ≠ jsmnErrorNomem) :
    Returns (fun fuel => jsmnParse js len numTokens' fuel (jsmnInit tk)) (r, q) := by
  obtain ⟨bound, hbound⟩ := hrun
  exact (parseLoop_settles _).returns
    (parseLoop_more hnum bound (init_sound len numTokens tk) (hbound bound le_rfl) hr)

/-- For every text the call without an array returns, and what it returns says for
every size of an array what the call with it returns: where that is not
JSMN_ERROR_NOMEM, it is the same with any larger array. -/
theorem count_fits (js : Nat → UInt8) (len : Nat) (tk : Nat → Tok) :
    ∃ c m, Returns (fun fuel => jsmnParseNull js len fuel (jsmnInit tk)) (c, m) ∧
      ∀ numTokens, ∃ r q,
        Returns (fun fuel => jsmnParse js len numTokens fuel (jsmnInit tk)) (r, q) ∧
        Fits c numTokens r ∧
        (r ≠ jsmnErrorNomem → ∀ numTokens', numTokens ≤ numTokens' →
          Returns (fun fuel => jsmnParse js len numTokens' fuel (jsmnInit tk)) (r, q)) := by
  obtain ⟨c, m, hnull, hall⟩ := null_fits js len tk
  refine ⟨c, m, hnull, fun numTokens => ?_⟩
  obtain ⟨r, q, hrun, hfits⟩ := hall numTokens
  exact ⟨r, q, hrun, hfits, fun hr numTokens' hnum => parse_larger hnum hrun hr⟩

end StmGateway.Json.Count
