import StmGateway.Json.Lookup
import StmGateway.Json.Tree

/-!
# No frame leads the command function astray

Every loop ends, and every access finds the parser as `Tree.Sound` says it is.
-/
namespace StmGateway.Json.Safety

open StmGateway.Lib StmGateway.Json.Jsmn StmGateway.Json.Switch StmGateway.Json.Tree
open StmGateway.Json.DealCmd

variable {js : Nat → UInt8} {len numTokens : Nat} {p : Parser}

/-- The call returns: with a result of the kind, or with an error, which is negative. -/
def Yields {α : Type} (P : α → Prop) (r : Option (Except Int α)) : Prop :=
  (∃ a, r = some (.ok a) ∧ P a) ∨ ∃ e, r = some (.error e) ∧ e < 0

theorem Yields.ok {α : Type} {P : α → Prop} {a : α} (h : P a) : Yields P (some (.ok a)) :=
  .inl ⟨a, rfl, h⟩

theorem Yields.error {α : Type} {P : α → Prop} {e : Int} (h : e < 0) :
    Yields P (some (.error e)) := .inr ⟨e, rfl, h⟩

theorem Yields.mono {α : Type} {P Q : α → Prop} {r : Option (Except Int α)} (h : Yields P r)
    (hPQ : ∀ a, P a → Q a) : Yields Q r := by
  rcases h with ⟨a, ha, hP⟩ | herror
  · exact .inl ⟨a, ha, hPQ a hP⟩
  · exact .inr herror

section Loops

theorem primitiveLoop_total (fuel : Nat) {pos : Nat} (hpos : pos ≤ len) (hfuel : len - pos < fuel) :
    Yields (fun e => pos ≤ e ∧ e ≤ len) (primitiveLoop js len fuel pos) := by
  induction fuel generalizing pos with
  | zero => omega
  | succ fuel ih =>
    rw [primitiveLoop]
    split
    · split
      · exact .ok ⟨le_rfl, hpos⟩
      · split
        · exact .error (by decide)
        · exact (@ih (pos + 1) (by omega) (by omega)).mono fun e he => by omega
    · exact .ok ⟨le_rfl, hpos⟩

/-- A primitive has a first character. -/
theorem primitiveLoop_start (fuel : Nat) {pos : Nat} (hpos : pos < len) (hnul : js pos ≠ 0)
    (hends : endsPrimitive (js pos) = false) (hfuel : len - pos < fuel) :
    Yields (fun e => pos + 1 ≤ e ∧ e ≤ len) (primitiveLoop js len fuel pos) := by
  cases fuel with
  | zero => omega
  | succ fuel =>
    rw [primitiveLoop, if_pos ⟨hpos, hnul⟩, hends, if_neg (by decide)]
    split
    · exact .error (by decide)
    · exact primitiveLoop_total fuel (by omega) (by omega)

theorem hexLoop_total (n : Nat) {pos : Nat} (hpos : pos ≤ len) :
    Yields (fun e => pos ≤ e ∧ e ≤ len) (some (hexLoop js len n pos)) := by
  induction n generalizing pos with
  | zero => exact .ok ⟨le_rfl, hpos⟩
  | succ n ih =>
    rw [hexLoop]
    split
    · split
      · exact (@ih (pos + 1) (by omega)).mono fun e he => by omega
      · exact .error (by decide)
    · exact .ok ⟨le_rfl, hpos⟩

theorem stringLoop_total (fuel : Nat) {pos : Nat} (hpos : pos ≤ len) (hfuel : len - pos < fuel) :
    Yields (fun e => pos ≤ e ∧ e < len) (stringLoop js len fuel pos) := by
  induction fuel generalizing pos with
  | zero => omega
  | succ fuel ih =>
    have later : ∀ pos' > pos, pos' ≤ len →
        Yields (fun e => pos ≤ e ∧ e < len) (stringLoop js len fuel pos') := fun pos' hlt hle =>
      (@ih pos' hle (by omega)).mono fun e he => by omega
    rw [stringLoop]
    split
    · next hin =>
      split
      · exact .ok ⟨le_rfl, hin.1⟩
      · split
        · next hescape =>
          split
          · exact later (pos + 2) (by omega) (by omega)
          · split
            · rcases @hexLoop_total js len 4 (pos + 2) (by omega) with
                ⟨pos', hhex, hpos'⟩ | ⟨e, hhex, he⟩
              · rw [Option.some.inj hhex]
                exact later pos' (by omega) (by omega)
              · rw [Option.some.inj hhex]
                exact .error he
            · exact .error (by decide)
        · exact later (pos + 1) (by omega) (by omega)
    · exact .error (by decide)

/-- The way up the parents ends, at a token that is there. -/
theorem closeLoop_total (h : Sound len numTokens p) (type : TokType) (fuel : Nat) {i : Nat}
    (hi : i < p.toknext) (hfuel : i < fuel) :
    Yields (fun found : Option Int => ∀ j : Int, found = some j → ∃ k : Nat, j = k ∧ k < p.toknext)
      (closeLoop p type fuel i) := by
  induction fuel generalizing i with
  | zero => omega
  | succ fuel ih =>
    obtain ⟨hlow, hup⟩ := h.parent i hi
    rw [closeLoop, tok_eq (by omega) (by omega), Option.bind_eq_bind, Option.bind_some,
      Int.toNat_natCast]
    split
    · split
      · exact .error (by decide)
      · exact .ok fun j hj => by cases hj; exact ⟨i, rfl, hi⟩
    · split
      · split
        · exact .error (by decide)
        · exact .ok fun j hj => by cases hj
      · rw [show (p.tokens i).parent = ((p.tokens i).parent.toNat : Int) by omega]
        exact ih (by omega) (by omega)

end Loops

section Fuel

theorem scanNul_settles (i : Nat) : Settles fun fuel => scanNul js fuel i := by
  refine settles_loop (fun _ => rfl) (fun fuel ih i r hr => ?_) i
  rw [scanNul] at hr ⊢
  split_ifs at hr ⊢
  · exact hr
  · exact ih _ r hr

theorem primitiveLoop_settles (pos : Nat) :
    Settles fun fuel => primitiveLoop js len fuel pos := by
  refine settles_loop (fun _ => rfl) (fun fuel ih pos r hr => ?_) pos
  rw [primitiveLoop] at hr ⊢
  split_ifs at hr ⊢
  · exact hr
  · exact hr
  · exact ih _ r hr
  · exact hr

theorem stringLoop_settles (pos : Nat) : Settles fun fuel => stringLoop js len fuel pos := by
  refine settles_loop (fun _ => rfl) (fun fuel ih pos r hr => ?_) pos
  rw [stringLoop] at hr ⊢
  split_ifs at hr ⊢
  · exact hr
  · exact ih _ r hr
  · split at hr
    · exact hr
    · exact ih _ r hr
  · exact hr
  · exact ih _ r hr
  · exact hr

theorem closeLoop_settles (type : TokType) (i : Int) :
    Settles fun fuel => closeLoop p type fuel i := by
  refine settles_loop (fun _ => rfl) (fun fuel ih i r hr => ?_) i
  rw [closeLoop] at hr ⊢
  obtain ⟨token, htoken, hr⟩ := Option.bind_eq_some_iff.mp hr
  rw [htoken, Option.bind_eq_bind, Option.bind_some]
  split_ifs at hr ⊢
  · exact hr
  · exact hr
  · exact hr
  · exact hr
  · exact ih _ r hr

theorem jsmnParsePrimitive_settles : Settles fun fuel => jsmnParsePrimitive js len numTokens fuel p :=
  (primitiveLoop_settles p.pos).bind fun _ => settles_const _

theorem jsmnParseString_settles : Settles fun fuel => jsmnParseString js len numTokens fuel p :=
  (stringLoop_settles (p.pos + 1)).bind fun _ => settles_const _

theorem closeBracket_settles (type : TokType) : Settles fun fuel => closeBracket fuel p type := by
  simp only [closeBracket]
  split
  · exact settles_const _
  · exact (closeLoop_settles type _).bind fun _ => settles_const _

theorem parseChar_settles : Settles fun fuel => parseChar js len numTokens fuel p := by
  simp only [parseChar]
  split_ifs
  · exact settles_const _
  · exact settles_const _
  · exact closeBracket_settles _
  · exact closeBracket_settles _
  · exact jsmnParseString_settles.bind fun _ => settles_const _
  · exact settles_const _
  · exact settles_const _
  · exact settles_const _
  · exact jsmnParsePrimitive_settles.bind fun _ => settles_const _

theorem parseLoop_settles (p : Parser) : Settles fun fuel => parseLoop js len numTokens fuel p := by
  refine settles_loop (fun _ => rfl) (fun fuel ih p r hr => ?_) p
  rw [parseLoop] at hr ⊢
  split_ifs at hr ⊢
  · obtain ⟨x, hx, hr⟩ := Option.bind_eq_some_iff.mp hr
    have hsame : parseChar js len numTokens (fuel + 1) p = some x := parseChar_settles fuel x hx
    rw [hsame, Option.bind_eq_bind, Option.bind_some]
    cases x with
    | error e => exact hr
    | ok q => exact ih _ r hr
  · exact hr
  · exact hr

end Fuel

section Characters

theorem addToken_full (h : ¬p.toknext < numTokens) (type : TokType) (start stop : Int) :
    addToken p numTokens type start stop = some (.error jsmnErrorNomem) := by
  rw [addToken, jsmnAllocToken, if_pos (by omega)]

theorem openBracket_total (h : Sound len numTokens p) {type : TokType}
    (htype : type ≠ .string ∧ type ≠ .primitive) :
    Yields (Change len numTokens p) (openBracket numTokens p type) := by
  by_cases hroom : p.toknext < numTokens
  · obtain ⟨q, hq, hext, hpos, hsuper⟩ := openBracket_eq type hroom h.low h.super
    rw [hq]
    refine .ok (.add hroom hext rfl rfl (.inr hsuper) ⟨?_, ?_, .inl ⟨rfl, htype⟩⟩ (by omega))
    · simp only
      omega
    · simp only
      omega
  · rw [openBracket, jsmnAllocToken, if_pos (by simp only; omega)]
    exact .error (by decide)

theorem closeBracket_total (h : Sound len numTokens p) (type : TokType) {fuel : Nat}
    (hfuel : numTokens < fuel) : Yields (Change len numTokens p) (closeBracket fuel p type) := by
  have hroom := h.room
  rw [closeBracket]
  split
  · exact .error (by decide)
  · rw [show (p.toknext : Int) - 1 = (p.toknext - 1 : Nat) by omega]
    rcases closeLoop_total h type fuel (show p.toknext - 1 < p.toknext by omega) (by omega) with
      ⟨found, hr, hfound⟩ | ⟨e, hr, he⟩
    · rw [hr, Option.bind_eq_bind, Option.bind_some]
      cases found with
      | none => exact .ok .stay
      | some j =>
        obtain ⟨i, rfl, hi⟩ := hfound j rfl
        simp only
        rw [tok_eq (by omega) (by omega), Option.bind_eq_bind, Option.bind_some,
          setTok_eq (by omega) (by omega), Option.bind_eq_bind, Option.bind_some, Int.toNat_natCast]
        exact .ok (.close hi)
    · rw [hr, Option.bind_eq_bind, Option.bind_some]
      exact .error he

/-- A token behind which the parser stands at `pos`. -/
theorem token_total (h : Sound len numTokens p) (type : TokType) {start stop : Int} {pos : Nat}
    (hstart : 0 ≤ start) (hstop : start ≤ stop) (hend : stop ≤ len) (hpos : start ≤ pos + 1)
    (hback : p.pos ≤ pos) :
    Yields (Change len numTokens p) (do
      let r ← (do match ← addToken p numTokens type start stop with
        | .error r => return Except.error r
        | .ok p => return .ok { p with pos := pos })
      counted r) := by
  by_cases hroom : p.toknext < numTokens
  · rw [addToken_eq hroom, Option.bind_eq_bind, Option.bind_some]
    simp only [Option.pure_def, Option.bind_some]
    rw [counted_token h.low h.super]
    exact .ok (.add hroom (added_extends h.super type start stop pos) rfl rfl (.inl rfl)
      ⟨hstart, by simpa [added] using hpos, .inr ⟨hstop, hend⟩⟩ hback)
  · rw [addToken_full hroom]
    exact .error (by decide)

theorem string_total (h : Sound len numTokens p) (hpos : p.pos < len) {fuel : Nat}
    (hfuel : len < fuel) :
    Yields (Change len numTokens p)
      (do counted (← jsmnParseString js len numTokens fuel p)) := by
  rcases @stringLoop_total js len fuel (p.pos + 1) (by omega) (by omega) with
    ⟨stop, hr, hstop⟩ | ⟨e, hr, he⟩
  · simp only [jsmnParseString, hr, Option.bind_eq_bind, Option.bind_some]
    exact token_total h .string (by omega) (by omega) (by omega) (by omega) (by omega)
  · simp only [jsmnParseString, hr, Option.bind_eq_bind, Option.bind_some]
    exact .error he

theorem primitive_total (h : Sound len numTokens p) (hpos : p.pos < len) (hnul : js p.pos ≠ 0)
    (hends : endsPrimitive (js p.pos) = false) {fuel : Nat} (hfuel : len < fuel) :
    Yields (Change len numTokens p)
      (do counted (← jsmnParsePrimitive js len numTokens fuel p)) := by
  rcases primitiveLoop_start fuel hpos hnul hends (by omega) with
    ⟨stop, hr, hstop⟩ | ⟨e, hr, he⟩
  · simp only [jsmnParsePrimitive, hr, Option.bind_eq_bind, Option.bind_some]
    exact token_total h .primitive (by omega) (by omega) (by omega) (by omega) (by omega)
  · simp only [jsmnParsePrimitive, hr, Option.bind_eq_bind, Option.bind_some]
    exact .error he

theorem comma_total (h : Sound len numTokens p) :
    ∃ q, comma p = some q ∧ Change len numTokens p q := by
  have hlow := h.low
  rw [comma]
  split
  · rw [tok_eq (by omega) h.super, Option.bind_eq_bind, Option.bind_some]
    split
    · exact ⟨_, rfl, .up (by omega)⟩
    · exact ⟨_, rfl, .stay⟩
  · exact ⟨_, rfl, .stay⟩

theorem parseChar_total (h : Sound len numTokens p) (hpos : p.pos < len) (hnul : js p.pos ≠ 0)
    {fuel : Nat} (hfuel : len + numTokens < fuel) :
    Yields (Change len numTokens p) (parseChar js len numTokens fuel p) := by
  simp only [parseChar]
  split_ifs with hobject harray hcloseObject hcloseArray hquote hblank hcolon hcomma
  · exact openBracket_total h ⟨by decide, by decide⟩
  · exact openBracket_total h ⟨by decide, by decide⟩
  · exact closeBracket_total h _ (by omega)
  · exact closeBracket_total h _ (by omega)
  · exact string_total h hpos (by omega)
  · exact .ok .stay
  · exact .ok .last
  · obtain ⟨q, hq, hchange⟩ := comma_total h
    rw [hq]
    exact .ok hchange
  · refine primitive_total h hpos hnul ?_ (by omega)
    simp only [not_or] at hblank
    simp [endsPrimitive, hcolon, hblank, hcomma, hcloseArray, hcloseObject]

/-- The parser returns; where it returns a number, that is the number of tokens. -/
theorem parseLoop_total (js : Nat → UInt8) (fuel : Nat) (h : Sound len numTokens p)
    (hfuel : len - p.pos + (len + numTokens) + 1 < fuel) :
    ∃ r q, parseLoop js len numTokens fuel p = some (r, q) ∧
      (0 ≤ r → Sound len numTokens q ∧ r = q.toknext) := by
  induction fuel generalizing p with
  | zero => omega
  | succ fuel ih =>
    rw [parseLoop]
    split
    · next hin =>
      rcases parseChar_total h hin.1 hin.2 (show len + numTokens < fuel by omega) with
        ⟨q, hq, hchange⟩ | ⟨e, hq, he⟩
      · obtain ⟨hsound, hle⟩ := hchange.sound h hin.1
        rw [hq, Option.bind_eq_bind, Option.bind_some]
        exact ih hsound (by simp only; omega)
      · rw [hq, Option.bind_eq_bind, Option.bind_some]
        exact ⟨e, p, rfl, fun h0 => by omega⟩
    · split
      · exact ⟨_, _, rfl, fun h0 => absurd h0 (by decide)⟩
      · exact ⟨_, _, rfl, fun _ => ⟨h, by rw [h.count]⟩⟩

end Characters

section Lookups

/-- The token is a member name of the object at token 0. -/
structure Names (js : Nat → UInt8) (len : Nat) (p : Parser) (name : List UInt8) (k : Nat) :
    Prop where
  type : (p.tokens k).type = .string
  parent : (p.tokens k).parent = 0
  text : frameSlice js len (p.tokens k).start (p.tokens k).stop = some name

/-- The first such token from `lo` on. -/
structure FirstName (js : Nat → UInt8) (len : Nat) (p : Parser) (name : List UInt8) (lo k : Nat) :
    Prop where
  le : lo ≤ k
  names : Names js len p name k
  before : ∀ j, lo ≤ j → j < k → ¬Names js len p name j

variable (js) (h : Sound len numTokens p)
include h

/-- Strings and primitives are closed: their text is in the frame. -/
theorem leaf_slice {i : Nat} (hi : i < p.toknext)
    (htype : (p.tokens i).type = .string ∨ (p.tokens i).type = .primitive) :
    ∃ text, frameSlice js len (p.tokens i).start (p.tokens i).stop = some text := by
  obtain ⟨hstart, _, hstop⟩ := h.bounds i hi
  rcases hstop with ⟨_, hstring, hprimitive⟩ | ⟨hle, hin⟩
  · exact absurd htype (not_or.mpr ⟨hstring, hprimitive⟩)
  · exact ⟨_, if_pos ⟨hstart, hle, hin⟩⟩

/-- What a lookup among the tokens from `lo` to `hi` finds. -/
def Found (js : Nat → UInt8) (len : Nat) (p : Parser) (name : List UInt8) (lo hi : Nat)
    (leftNum : Int) : Option Item → Prop
  | none => ∀ j, lo ≤ j → j < hi → ¬Names js len p name j
  | some item => ∃ k : Nat, k < hi ∧ FirstName js len p name lo k ∧ item = ⟨k, k, leftNum - k⟩

omit h in
theorem Found.earlier {name : List UInt8} {lo hi : Nat} {leftNum : Int} {found : Option Item}
    (h : Found js len p name (lo + 1) hi leftNum found) (hother : ¬Names js len p name lo) :
    Found js len p name lo hi leftNum found := by
  cases found with
  | none =>
    intro j hlo hhi
    obtain rfl | hne := eq_or_ne j lo
    · exact hother
    · exact h j (by omega) hhi
  | some item =>
    obtain ⟨k, hlt, hfirst, hk⟩ := h
    refine ⟨k, hlt, ⟨by have := hfirst.le; omega, hfirst.names, fun j hlo hj => ?_⟩, hk⟩
    obtain rfl | hne := eq_or_ne j lo
    · exact hother
    · exact hfirst.before j (by omega) hj

/-- The lookup in the token 0 ends, at the first member name that is the one asked for. -/
theorem findKey_total (ob : Item) (hob : ob.t = 0 ∧ ob.index = 0) (name : List UInt8) (left : Nat)
    {i : Nat} (hleft : i + left ≤ p.toknext) :
    ∃ found, findKey js len p ob name left i = some found ∧
      Found js len p name i (i + left) ob.leftNum found := by
  induction left generalizing i with
  | zero => exact ⟨none, rfl, fun j hlo hhi => by omega⟩
  | succ left ih =>
    obtain ⟨found, hfound, hitem⟩ := @ih (i + 1) (by omega)
    rw [show i + 1 + left = i + (left + 1) by omega] at hitem
    rw [findKey, hob.1, zero_add, tok_eq (by omega) (by omega), Option.bind_eq_bind,
      Option.bind_some, Int.toNat_natCast, hob.2, zero_add]
    split
    · next hkey =>
      obtain ⟨text, htext⟩ := leaf_slice js h (by omega) (.inl hkey.1)
      rw [Lookup.jsonTokenStreq_eq htext, Option.bind_eq_bind, Option.bind_some]
      split
      · next heq =>
        rw [of_decide_eq_true heq] at htext
        exact ⟨_, rfl, i, by omega, ⟨le_rfl, ⟨hkey.1, hkey.2, htext⟩, fun j hlo hj => by omega⟩, rfl⟩
      · next hne =>
        refine ⟨found, hfound, hitem.earlier js fun hnames => hne ?_⟩
        exact decide_eq_true (Option.some.inj (htext.symm.trans hnames.text))
    · next hkey =>
      exact ⟨found, hfound, hitem.earlier js fun hnames => hkey ⟨hnames.type, hnames.parent⟩⟩

theorem jsmnGetObjectItem_total (hpos : 0 < p.toknext) (hroot : (p.tokens 0).type = .object)
    (name : List UInt8) :
    ∃ found, jsmnGetObjectItem js len p (jsmnItemInit 0 0 p.toknext) name = some found ∧
      Found js len p name 1 p.toknext ((p.toknext : Int) - 1) found := by
  have hobject : objectOf p (jsmnItemInit 0 0 p.toknext) =
      some (some (jsmnItemInit 0 0 p.toknext)) := by
    rw [objectOf, jsmnItemInit, tok_eq le_rfl (by omega), Option.bind_eq_bind, Option.bind_some,
      Int.toNat_zero, if_pos hroot]
    rfl
  rw [jsmnGetObjectItem, hobject, Option.bind_eq_bind, Option.bind_some]
  simp only [jsmnItemInit, sub_zero]
  split
  · exact ⟨none, rfl, fun j hlo hhi => by omega⟩
  · obtain ⟨found, hfound, hitem⟩ := findKey_total js h ⟨0, 0, (p.toknext : Int) - 1⟩ ⟨rfl, rfl⟩ name
      (p.toknext - 1) (show 1 + (p.toknext - 1) ≤ p.toknext by omega)
    rw [show 1 + (p.toknext - 1) = p.toknext by omega] at hitem
    rw [show ((p.toknext : Int) - 1).toNat = p.toknext - 1 by omega]
    exact ⟨found, hfound, hitem⟩

/-- A fetch of a token clears the buffer, and takes the text of a string or a primitive. -/
theorem jsmnGetStringBuffered_total {i : Nat} (hi : i < p.toknext) (item : Item) (hitem : item.t = i)
    (buf : Nat → UInt8) :
    ∃ r text, jsmnGetStringBuffered js len p item buf jsonAgeSize =
      some (r, Lookup.fetched text buf) := by
  have htok : p.tok item.t = some (p.tokens i) := by
    rw [hitem, tok_eq (by omega) (by omega), Int.toNat_natCast]
  by_cases htype : (p.tokens i).type = .string ∨ (p.tokens i).type = .primitive
  · obtain ⟨text, htext⟩ := leaf_slice js h hi htype
    exact ⟨_, text, Lookup.jsmnGetStringBuffered_leaf htok htype htext buf⟩
  · exact ⟨_, [], Lookup.jsmnGetStringBuffered_container htok (not_or.mp htype) buf⟩

/-- A line is printed, whatever is in the buffer. -/
theorem valueLine_total {k : Nat} (hk : k < p.toknext) (label : String) (jsonAge : Nat → UInt8) :
    ∃ line, valueLine js len p (Lookup.itemAt p.toknext k) label jsonAge = some line := by
  have htok : p.tok (Lookup.itemAt p.toknext k).t = some (p.tokens k) :=
    tok_eq (by simp [Lookup.itemAt]) (by simp [Lookup.itemAt, hk])
  simp only [valueLine, jsmnGetValueStringBuffered, htok, Option.bind_eq_bind, Option.bind_some]
  rw [if_neg (by decide)]
  split
  · exact ⟨_, rfl⟩
  · next hfetch =>
    simp only [not_or, not_le] at hfetch
    have hroom : k + 1 < p.toknext := by
      have hleft := hfetch.2.2
      simp only [Lookup.itemAt] at hleft
      omega
    obtain ⟨r, text, hget⟩ := jsmnGetStringBuffered_total js h hroom
      ⟨(k : Int) + 1, (k : Int) + 1, (p.toknext : Int) - 1 - k - 1⟩ rfl jsonAge
    exact ⟨_, by rw [Lookup.itemAt, hget]; rfl⟩

/-- The lookups and the lines end on any tokens of the parser. -/
theorem dealItems_total (hpos : 0 < p.toknext) (hroot : (p.tokens 0).type = .object)
    (jsonAge : Nat → UInt8) :
    ∃ r, dealItems js len p (jsmnItemInit 0 0 p.toknext) jsonAge = some r := by
  obtain ⟨age, hage, hitemAge⟩ := jsmnGetObjectItem_total js h hpos hroot (ascii "age")
  obtain ⟨email, hemail, hitemEmail⟩ := jsmnGetObjectItem_total js h hpos hroot (ascii "email")
  obtain ⟨name, hname, hitemName⟩ := jsmnGetObjectItem_total js h hpos hroot (ascii "name")
  rw [dealItems, hage, Option.bind_eq_bind, Option.bind_some]
  cases age with
  | none => exact ⟨_, rfl⟩
  | some age =>
    simp only [hemail, Option.bind_eq_bind, Option.bind_some]
    cases email with
    | none => exact ⟨_, rfl⟩
    | some email =>
      simp only [hname, Option.bind_some]
      cases name with
      | none => exact ⟨_, rfl⟩
      | some name =>
        obtain ⟨a, ha, _, rfl⟩ := hitemAge
        obtain ⟨e, he, _, rfl⟩ := hitemEmail
        obtain ⟨n, hn, _, rfl⟩ := hitemName
        obtain ⟨line, hline⟩ := valueLine_total js h ha "age:" jsonAge
        obtain ⟨line', hline'⟩ := valueLine_total js h he "email:" line.2
        obtain ⟨line'', hline''⟩ := valueLine_total js h hn "name:" line'.2
        unfold Lookup.itemAt at hline hline' hline''
        simp only [hline, hline', hline'', Option.bind_some]
        exact ⟨_, rfl⟩

end Lookups

/-- A character goes on to a state in order, or ends the parse with an error. -/
theorem parseChar_next (h : Sound len numTokens p) (hpos : p.pos < len) (hnul : js p.pos ≠ 0)
    {fuel : Nat} {r : Except Int Parser} (hchar : parseChar js len numTokens fuel p = some r) :
    (∃ q, r = .ok q ∧ Sound len numTokens { q with pos := q.pos + 1 }) ∨ ∃ e < 0, r = .error e := by
  obtain ⟨bound, hbound⟩ := parseChar_settles.returns hchar
  have hmore := hbound (max bound (len + numTokens + 1)) (Nat.le_max_left _ _)
  have hfuel : len + numTokens < max bound (len + numTokens + 1) := by omega
  rcases parseChar_total h hpos hnul hfuel with ⟨q, hq, hchange⟩ | ⟨e, he, hneg⟩
  · cases hmore.symm.trans hq
    exact .inl ⟨q, rfl, (hchange.sound h hpos).1⟩
  · cases hmore.symm.trans he
    exact .inr ⟨e, hneg, rfl⟩

/-- Every parser state on the way through a text has its tokens in order. -/
theorem steps_sound {p p' : Parser} (hsteps : Steps js len numTokens p p')
    (h : Sound len numTokens p) : Sound len numTokens p' := by
  induction hsteps with
  | refl => exact h
  | tail _ hlast ih =>
    obtain ⟨hpos, hnul, q, hq, rfl⟩ := hlast
    obtain ⟨bound, hbound⟩ := hq
    rcases parseChar_next ih hpos hnul (hbound bound le_rfl) with ⟨q', heq, hsound⟩ | ⟨e, _, heq⟩
    · cases heq
      exact hsound
    · cases heq

theorem jsmnParse_settles (p : Parser) : Settles fun fuel => jsmnParse js len numTokens fuel p :=
  parseLoop_settles _

theorem jsonDealCmd_settles (tk : Nat → Tok) (jsonAge : Nat → UInt8) :
    Settles (jsonDealCmd js tk jsonAge) := by
  refine (scanNul_settles 0).bind fun len => ?_
  by_cases hmessage : 12 ≤ len ∧ strncmpEq (slice js 0 len) (ascii "U2E SENT ERR") 12 = true
  · simp only [if_pos hmessage]
    exact settles_const _
  · simp only [if_neg hmessage]
    exact (jsmnParse_settles _).bind fun _ => settles_const _

/-- The frame's length is where its first NUL is. -/
structure FrameAt (js : Nat → UInt8) (len : Nat) : Prop where
  nul : js len = 0
  before : ∀ i < len, js i ≠ 0

theorem FrameAt.scanned (hframe : FrameAt js len) {fuel : Nat} (hfuel : len < fuel) :
    scanNul js fuel 0 = some len :=
  scanNul_start hframe.nul hframe.before hfuel

/-- Every frame is handled: the function returns, so no access left what is
allocated and no slice or copy what it may use, and on the way the parser
allocates 256 tokens at most. -/
theorem jsonDealCmd_safe (hframe : FrameAt js len) (tk : Nat → Tok) (jsonAge : Nat → UInt8) :
    (∃ r, Returns (jsonDealCmd js tk jsonAge) r) ∧
      ∀ p, Steps js len 256 { jsmnInit tk with count := (jsmnInit tk).toknext } p →
        p.toknext ≤ 256 := by
  have hinit := init_sound len 256 tk
  refine ⟨?_, fun p hsteps => (steps_sound hsteps hinit).room⟩
  have hscan : scanNul js (2 * len + 300) 0 = some len := hframe.scanned (by omega)
  obtain ⟨r, q, hparse, hsound⟩ := parseLoop_total js (2 * len + 300) hinit
    (by simp only [jsmnInit]; omega)
  suffices ∃ r, jsonDealCmd js tk jsonAge (2 * len + 300) = some r by
    obtain ⟨r, hr⟩ := this
    exact ⟨r, (jsonDealCmd_settles tk jsonAge).returns hr⟩
  have hrun : jsmnParse js len 256 (2 * len + 300) (jsmnInit tk) = some (r, q) := hparse
  simp only [jsonDealCmd, hscan, Option.bind_eq_bind, Option.bind_some]
  split
  · exact ⟨_, rfl⟩
  · simp only [hrun, Option.bind_some]
    split
    · exact ⟨_, rfl⟩
    · split
      · exact ⟨_, rfl⟩
      · obtain ⟨hq, rfl⟩ := hsound (by omega)
        have htok : q.tok 0 = some (q.tokens 0) := tok_eq le_rfl (by omega)
        simp only [htok, Option.bind_some]
        split
        · exact ⟨_, rfl⟩
        · next hroot => exact dealItems_total js hq (by omega) (not_not.mp hroot) jsonAge

/-- A frame of stray punctuation, on a stack of zeros. -/
theorem jsonDealCmd_safe_stray :
    (∃ r, Returns (jsonDealCmd (fun i => (ascii "\x7b:,]\"age\":\x7d").getD i 0)
      (fun _ => ⟨.undefined, 0, 0, 0, 0⟩) fun _ => 0) r) ∧
      ∀ p, Steps (fun i => (ascii "\x7b:,]\"age\":\x7d").getD i 0) 11 256
        { jsmnInit (fun _ => ⟨.undefined, 0, 0, 0, 0⟩) with
          count := (jsmnInit fun _ => ⟨.undefined, 0, 0, 0, 0⟩).toknext } p → p.toknext ≤ 256 :=
  jsonDealCmd_safe ⟨by decide, by decide⟩ _ _

end StmGateway.Json.Safety
