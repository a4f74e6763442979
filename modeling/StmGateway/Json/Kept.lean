import StmGateway.Json.Safety

/-!
# What stays of a token

A token keeps its type, its start and its parent to the end of the parse, and
its end once it is closed. Only its size still grows.
-/
namespace StmGateway.Json.Kept

open StmGateway.Lib StmGateway.Json.Jsmn StmGateway.Json.Switch StmGateway.Json.Tree
open StmGateway.Json.Safety StmGateway.Json.Escape

structure KeepsTok (tok tok' : Tok) : Prop where
  type : tok'.type = tok.type
  start : tok'.start = tok.start
  parent : tok'.parent = tok.parent
  stop : tok.stop ≠ -1 → tok'.stop = tok.stop

structure Keeps (p q : Parser) : Prop where
  next : p.toknext ≤ q.toknext
  tok : ∀ i < p.toknext, KeepsTok (p.tokens i) (q.tokens i)

variable {js : Nat → UInt8} {len numTokens fuel : Nat} {p q : Parser}

theorem KeepsTok.refl (tok : Tok) : KeepsTok tok tok := ⟨rfl, rfl, rfl, fun _ => rfl⟩

theorem KeepsTok.trans {tok tok' tok'' : Tok} (h : KeepsTok tok tok') (h' : KeepsTok tok' tok'') :
    KeepsTok tok tok'' := by
  refine ⟨h'.type.trans h.type, h'.start.trans h.start, h'.parent.trans h.parent, fun hstop => ?_⟩
  have hsame := h.stop hstop
  rw [h'.stop (by rwa [hsame]), hsame]

theorem Keeps.of_tokens (hnext : q.toknext = p.toknext) (htokens : q.tokens = p.tokens) :
    Keeps p q :=
  ⟨hnext.ge, fun i _ => by rw [htokens]; exact .refl _⟩

theorem Keeps.trans {r : Parser} (h : Keeps p q) (h' : Keeps q r) : Keeps p r :=
  ⟨h.next.trans h'.next, fun i hi => (h.tok i hi).trans (h'.tok i (hi.trans_le h.next))⟩

/-- A new token keeps the others. -/
theorem keeps_extends {tok : Tok} (hext : Extends p q tok) : Keeps p q := by
  refine ⟨hext.next.ge.trans' (Nat.le_succ _), fun i hi => ?_⟩
  rw [hext.others i hi]
  split
  · exact ⟨rfl, rfl, rfl, fun _ => rfl⟩
  · exact .refl _

theorem tok_inv {i : Int} {tok : Tok} (h : p.tok i = some tok) :
    (0 ≤ i ∧ i < p.toknext) ∧ tok = p.tokens i.toNat := by
  rw [Parser.tok] at h
  split at h
  · next hin =>
    cases h
    exact ⟨hin, rfl⟩
  · cases h

/-- The token that a bracket closes is open. -/
theorem closeLoop_open {type : TokType} : ∀ (fuel : Nat) (i j : Int),
    closeLoop p type fuel i = some (.ok (some j)) → ∃ tok, p.tok j = some tok ∧ tok.stop = -1 := by
  intro fuel
  induction fuel with
  | zero =>
    intro i j h
    cases h
  | succ fuel ih =>
    intro i j h
    rw [closeLoop] at h
    obtain ⟨token, htoken, h⟩ := Option.bind_eq_some_iff.mp h
    split at h
    · next hopen =>
      split at h
      · cases h
      · cases h
        exact ⟨token, htoken, hopen.2⟩
    · split at h
      · split at h
        · cases h
        · cases h
      · exact ih _ j h

theorem closeBracket_keeps {type : TokType} (h : closeBracket fuel p type = some (.ok q)) :
    Keeps p q := by
  rw [closeBracket] at h
  split at h
  · cases h
  · obtain ⟨found, hfound, h⟩ := Option.bind_eq_some_iff.mp h
    cases found with
    | error e => cases h
    | ok found =>
      cases found with
      | none =>
        cases h
        exact .of_tokens rfl rfl
      | some i =>
        obtain ⟨tok, htok, hopen⟩ := closeLoop_open fuel _ i hfound
        obtain ⟨token, htoken, h⟩ := Option.bind_eq_some_iff.mp h
        obtain ⟨⟨h0, hlt⟩, rfl⟩ := tok_inv htoken
        cases htok.symm.trans htoken
        rw [setTok_eq h0 hlt, Option.bind_eq_bind, Option.bind_some] at h
        cases h
        refine ⟨le_rfl, fun j _ => ?_⟩
        by_cases hj : j = i.toNat
        · subst hj
          simp only [Function.update_self]
          exact ⟨rfl, rfl, rfl, fun hstop => absurd hopen hstop⟩
        · simp only [Function.update_of_ne hj]
          exact .refl _

theorem openBracket_keeps (h : Sound len numTokens p) {type : TokType}
    (hopen : openBracket numTokens p type = some (.ok q)) : Keeps p q := by
  by_cases hroom : p.toknext < numTokens
  · obtain ⟨q', hq', hext, _, _⟩ := openBracket_eq type hroom h.low h.super
    cases hopen.symm.trans hq'
    exact keeps_extends hext
  · rw [openBracket, jsmnAllocToken, if_pos (by simp only; omega)] at hopen
    cases hopen

/-- A token with its text, counted. -/
theorem counted_inv (h : Sound len numTokens p) {type : TokType} {start stop : Int} {pos : Nat}
    (hadd : (do
      let r ← (do match ← addToken p numTokens type start stop with
        | .error r => return Except.error r
        | .ok p => return .ok { p with pos := pos })
      counted r) = some (.ok q)) :
    p.toknext < numTokens ∧ q = added p type start stop pos := by
  by_cases hroom : p.toknext < numTokens
  · rw [addToken_eq hroom, Option.bind_eq_bind, Option.bind_some] at hadd
    simp only [Option.pure_def, Option.bind_some] at hadd
    rw [counted_token h.low h.super] at hadd
    cases hadd
    exact ⟨hroom, rfl⟩
  · rw [addToken_full hroom] at hadd
    cases hadd

/-- The branch of the quote. -/
theorem string_inv (h : Sound len numTokens p)
    (hstring : (do counted (← jsmnParseString js len numTokens fuel p)) = some (.ok q)) :
    ∃ stop : Nat, stringLoop js len fuel (p.pos + 1) = some (.ok stop) ∧
      p.toknext < numTokens ∧ q = added p .string (p.pos + 1) stop stop := by
  cases hloop : stringLoop js len fuel (p.pos + 1) with
  | none =>
    rw [jsmnParseString, hloop] at hstring
    cases hstring
  | some r =>
    simp only [jsmnParseString, hloop, Option.bind_eq_bind, Option.bind_some] at hstring
    cases r with
    | error e => cases hstring
    | ok stop =>
      obtain ⟨hroom, hq⟩ := counted_inv h hstring
      exact ⟨stop, rfl, hroom, hq⟩

theorem primitive_keeps (h : Sound len numTokens p)
    (hprimitive : (do counted (← jsmnParsePrimitive js len numTokens fuel p)) = some (.ok q)) :
    Keeps p q := by
  cases hloop : primitiveLoop js len fuel p.pos with
  | none =>
    rw [jsmnParsePrimitive, hloop] at hprimitive
    cases hprimitive
  | some r =>
    simp only [jsmnParsePrimitive, hloop, Option.bind_eq_bind, Option.bind_some] at hprimitive
    cases r with
    | error e => cases hprimitive
    | ok stop =>
      obtain ⟨_, rfl⟩ := counted_inv h hprimitive
      exact keeps_extends (added_extends h.super _ _ _ _)

theorem comma_keeps (h : comma p = some q) : Keeps p q := by
  rw [comma] at h
  split at h
  · obtain ⟨super, _, h⟩ := Option.bind_eq_some_iff.mp h
    split at h
    · cases h
      exact .of_tokens rfl rfl
    · cases h
      exact .of_tokens rfl rfl
  · cases h
    exact .of_tokens rfl rfl

theorem parseChar_keeps (h : Sound len numTokens p)
    (hchar : parseChar js len numTokens fuel p = some (.ok q)) : Keeps p q := by
  simp only [parseChar] at hchar
  split_ifs at hchar with hobject harray hcloseObject hcloseArray hquote hblank hcolon hcomma
  · exact openBracket_keeps h hchar
  · exact openBracket_keeps h hchar
  · exact closeBracket_keeps hchar
  · exact closeBracket_keeps hchar
  · obtain ⟨stop, _, _, rfl⟩ := string_inv h hchar
    exact keeps_extends (added_extends h.super _ _ _ _)
  · cases hchar
    exact .of_tokens rfl rfl
  · cases hchar
    exact .of_tokens rfl rfl
  · obtain ⟨q', hq', hchar⟩ := Option.bind_eq_some_iff.mp hchar
    cases hchar
    exact comma_keeps hq'
  · exact primitive_keeps h hchar

/-- What is left of the parse, where it returns a number. -/
theorem parseLoop_keeps : ∀ (fuel : Nat) {p q : Parser} {r : Int}, Sound len numTokens p →
    parseLoop js len numTokens fuel p = some (r, q) → 0 ≤ r → Keeps p q := by
  intro fuel
  induction fuel with
  | zero =>
    intro p q r _ h
    cases h
  | succ fuel ih =>
    intro p q r hsound h hr
    rw [parseLoop] at h
    split at h
    · next hin =>
      obtain ⟨x, hchar, hrest⟩ := Option.bind_eq_some_iff.mp h
      rcases parseChar_next hsound hin.1 hin.2 hchar with ⟨p', rfl, hnext⟩ | ⟨e, he, rfl⟩
      · have hkeeps := ih hnext hrest hr
        exact (parseChar_keeps hsound hchar).trans ⟨hkeeps.next, hkeeps.tok⟩
      · cases hrest
        exact absurd hr (by omega)
    · split at h
      · cases h
        exact absurd hr (by decide)
      · cases h
        exact .of_tokens rfl rfl

/-- From a quote on, the parse has scanned a text and kept its token. -/
theorem parseLoop_string (hsound : Sound len numTokens p) (hlen : p.pos < len)
    (hquote : js p.pos = 0x22) {r : Int} (h : parseLoop js len numTokens fuel p = some (r, q))
    (hr : 0 ≤ r) :
    ∃ stop : Nat, p.pos + 1 ≤ stop ∧ stop < len ∧ js stop = 0x22 ∧
      Scans (slice js (p.pos + 1) (stop - (p.pos + 1))) ∧
      Keeps (added p .string (p.pos + 1) stop stop) q := by
  cases fuel with
  | zero => cases h
  | succ fuel =>
    rw [parseLoop, if_pos ⟨hlen, by rw [hquote]; decide⟩] at h
    obtain ⟨x, hchar, hrest⟩ := Option.bind_eq_some_iff.mp h
    rcases parseChar_next hsound hlen (by rw [hquote]; decide) hchar with
      ⟨p', rfl, hnext⟩ | ⟨e, he, rfl⟩
    · have hstring : (do counted (← jsmnParseString js len numTokens fuel p)) = some (.ok p') := by
        rw [parseChar, hquote] at hchar
        exact hchar
      obtain ⟨stop, hloop, _, rfl⟩ := string_inv hsound hstring
      obtain ⟨hle, hlt, hend, hscans⟩ := stringLoop_ok fuel hloop
      have hkeeps := parseLoop_keeps fuel hnext hrest hr
      exact ⟨stop, hle, hlt, hend, hscans, hkeeps.next, hkeeps.tok⟩
    · cases hrest
      exact absurd hr (by omega)

end StmGateway.Json.Kept
