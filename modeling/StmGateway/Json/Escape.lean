import StmGateway.Json.Grammar
import StmGateway.Json.Jsmn

/-!
# The text between the quotes

What `jsmn_parse_string` passes over, and what such a text means once its escapes
are undone. The tokenizer takes every byte but a quote and a backslash as it is.
An escape is longer than what it stands for.
-/
namespace StmGateway.Json.Escape

open StmGateway.Lib StmGateway.Json.Jsmn StmGateway.Json.Grammar

variable {js : Nat → UInt8} {len : Nat}

/-- A text without a quote of its own. -/
inductive Scans : List UInt8 → Prop
  | nil : Scans []
  | plain {b : UInt8} {text : List UInt8} : b ≠ 0x22 → b ≠ 0x5c → Scans text → Scans (b :: text)
  | escape {b : UInt8} {text : List UInt8} : isEscape b = true → Scans text →
      Scans (0x5c :: b :: text)
  | unicode {a b c d : UInt8} {text : List UInt8} : (∀ x ∈ [a, b, c, d], isHex x = true) →
      Scans text → Scans (0x5c :: 0x75 :: a :: b :: c :: d :: text)

theorem hexDigit_isHex {b : UInt8} (h : HexDigit b) : isHex b = true := by
  simpa [isHex, HexDigit, or_assoc] using h

theorem isHex_ne_zero {b : UInt8} (h : isHex b = true) : b ≠ 0 := by
  intro hb
  subst hb
  exact absurd h (by decide)

theorem known_isEscape {b : UInt8} (h : b ∈ ascii "\"\\/bfnrt") : isEscape b = true := by
  have hlist : ascii "\"\\/bfnrt" = [0x22, 0x5c, 0x2f, 0x62, 0x66, 0x6e, 0x72, 0x74] := rfl
  rw [hlist] at h
  simp only [List.mem_cons, List.not_mem_nil, or_false] at h
  rcases h with rfl | rfl | rfl | rfl | rfl | rfl | rfl | rfl <;> rfl

/-- A JSON string is such a text. -/
theorem raw_scans (text : List Piece) : Scans (raw text) := by
  induction text with
  | nil => exact .nil
  | cons piece text ih =>
    rw [raw, List.flatMap_cons]
    cases piece with
    | plain b low quote backslash => exact .plain quote backslash ih
    | escape b known => exact .escape (known_isEscape known) ih
    | unicode a b c d ha hb hc hd =>
      refine .unicode ?_ ih
      simp only [List.forall_mem_cons]
      exact ⟨hexDigit_isHex ha, hexDigit_isHex hb, hexDigit_isHex hc, hexDigit_isHex hd,
        List.forall_mem_nil _⟩

/-- So is any text without quotes and backslashes. -/
theorem scans_of_plain {text : List UInt8} (hquote : 0x22 ∉ text) (hslash : 0x5c ∉ text) :
    Scans text := by
  induction text with
  | nil => exact .nil
  | cons b text ih =>
    rw [List.mem_cons, not_or] at hquote hslash
    exact .plain (Ne.symm hquote.1) (Ne.symm hslash.1) (ih hquote.2 hslash.2)

/-! ## What the loop passes over -/

theorem hexLoop_digits {digits : List UInt8} (hdigits : ∀ b ∈ digits, isHex b = true) {pos : Nat}
    (hread : ReadsAt js pos digits) (hlen : pos + digits.length ≤ len) :
    hexLoop js len digits.length pos = .ok (pos + digits.length) := by
  induction digits generalizing pos with
  | nil => rfl
  | cons b digits ih =>
    rw [readsAt_cons] at hread
    simp only [List.forall_mem_cons] at hdigits
    rw [List.length_cons] at hlen
    rw [List.length_cons, hexLoop, hread.1, if_pos ⟨by omega, isHex_ne_zero hdigits.1⟩,
      if_pos hdigits.1, ih hdigits.2 hread.2 (by omega)]
    congr 1
    omega

/-- The loop passes over such a text. -/
theorem stringLoop_scans {text : List UInt8} (hscans : Scans text) (hnul : 0 ∉ text) {pos : Nat}
    (hread : ReadsAt js pos text) (hend : js (pos + text.length) = 0x22)
    (hlen : pos + text.length < len) :
    Returns (fun fuel => stringLoop js len fuel pos) (.ok (pos + text.length)) := by
  induction hscans generalizing pos with
  | nil =>
    rw [List.length_nil, Nat.add_zero] at hend hlen ⊢
    apply (Returns.pure _).step
    intro fuel
    rw [stringLoop, hend, if_pos ⟨hlen, by decide⟩, if_pos rfl]
  | @plain b text hquote hslash _ ih =>
    rw [readsAt_cons] at hread
    rw [List.mem_cons, not_or] at hnul
    rw [List.length_cons, show pos + (text.length + 1) = pos + 1 + text.length by omega]
      at hend hlen ⊢
    apply (ih hnul.2 hread.2 hend hlen).step
    intro fuel
    rw [stringLoop, hread.1, if_pos ⟨by omega, Ne.symm hnul.1⟩, if_neg hquote,
      if_neg fun h => hslash h.1]
  | @escape b text hknown _ ih =>
    rw [readsAt_cons, readsAt_cons] at hread
    simp only [List.mem_cons, not_or] at hnul
    rw [List.length_cons, List.length_cons,
      show pos + (text.length + 1 + 1) = pos + 2 + text.length by omega] at hend hlen ⊢
    apply (ih hnul.2.2 hread.2.2 hend hlen).step
    intro fuel
    rw [stringLoop, hread.1, if_pos ⟨by omega, by decide⟩, if_neg (by decide),
      if_pos ⟨rfl, by omega⟩, hread.2.1, if_pos hknown]
  | @unicode a b c d text hhex _ ih =>
    obtain ⟨hslash, hrest⟩ := readsAt_cons.mp hread
    obtain ⟨hu, hdigits⟩ := readsAt_cons.mp hrest
    have hparts : ReadsAt js (pos + 2) ([a, b, c, d] ++ text) := hdigits
    rw [readsAt_append] at hparts
    simp only [List.mem_cons, not_or] at hnul
    simp only [List.length_cons] at hend hlen ⊢
    rw [show pos + (text.length + 1 + 1 + 1 + 1 + 1 + 1) = pos + 6 + text.length by omega]
      at hend hlen ⊢
    have hloop : hexLoop js len 4 (pos + 2) = .ok (pos + 6) :=
      hexLoop_digits hhex hparts.1 (by simp only [List.length_cons, List.length_nil]; omega)
    apply (ih hnul.2.2.2.2.2.2 hparts.2 hend hlen).step
    intro fuel
    rw [stringLoop, hslash, if_pos ⟨by omega, by decide⟩, if_neg (by decide),
      if_pos ⟨rfl, by omega⟩, hu, if_neg (by decide), if_pos rfl, hloop]
    rfl

theorem slice_front {pos stop : Nat} (h : pos < stop) :
    slice js pos (stop - pos) = js pos :: slice js (pos + 1) (stop - (pos + 1)) := by
  rw [show stop - pos = stop - (pos + 1) + 1 by omega, slice_succ]

/-- The digits were all there, or the text ended. -/
theorem hexLoop_ok : ∀ (n pos pos' : Nat), hexLoop js len n pos = .ok pos' →
    (pos' = pos + n ∧ ∀ b ∈ slice js pos n, isHex b = true) ∨ ¬(pos' < len ∧ js pos' ≠ 0) := by
  intro n
  induction n with
  | zero =>
    intro pos pos' h
    cases h
    exact Or.inl ⟨rfl, List.forall_mem_nil _⟩
  | succ n ih =>
    intro pos pos' h
    rw [hexLoop] at h
    split at h
    · split at h
      · next hhex =>
        rcases ih (pos + 1) pos' h with ⟨hpos, hall⟩ | hend
        · refine Or.inl ⟨by omega, ?_⟩
          rw [slice_succ, List.forall_mem_cons]
          exact ⟨hhex, hall⟩
        · exact Or.inr hend
      · cases h
    · next hend =>
      cases h
      exact Or.inr hend

/-- Where the loop finds the closing quote, it has passed over such a text. -/
theorem stringLoop_ok : ∀ (fuel : Nat) {pos stop : Nat},
    stringLoop js len fuel pos = some (.ok stop) →
      pos ≤ stop ∧ stop < len ∧ js stop = 0x22 ∧ Scans (slice js pos (stop - pos)) := by
  intro fuel
  induction fuel with
  | zero =>
    intro pos stop h
    cases h
  | succ fuel ih =>
    intro pos stop h
    rw [stringLoop] at h
    split at h
    · next hin =>
      split at h
      · next hquote =>
        cases h
        refine ⟨le_rfl, hin.1, hquote, ?_⟩
        rw [Nat.sub_self]
        exact .nil
      · next hquote =>
        split at h
        · next hslash =>
          split at h
          · next hknown =>
            obtain ⟨hle, hlt, hstop, hscans⟩ := ih h
            refine ⟨by omega, hlt, hstop, ?_⟩
            rw [slice_front (by omega), slice_front (by omega), hslash.1]
            exact .escape hknown hscans
          · split at h
            · next hu =>
              split at h
              · cases h
              · next pos' hhex =>
                obtain ⟨hle, hlt, hstop, hscans⟩ := ih h
                rcases hexLoop_ok 4 (pos + 2) pos' hhex with ⟨rfl, hall⟩ | hend
                · refine ⟨by omega, hlt, hstop, ?_⟩
                  rw [slice_front (by omega), slice_front (by omega), slice_front (by omega),
                    slice_front (by omega), slice_front (by omega), slice_front (by omega),
                    hslash.1, hu]
                  exact .unicode hall hscans
                · cases fuel with
                  | zero => cases h
                  | succ fuel =>
                    rw [stringLoop, if_neg hend] at h
                    cases h
            · cases h
        · next hslash =>
          obtain ⟨hle, hlt, hstop, hscans⟩ := ih h
          refine ⟨by omega, hlt, hstop, ?_⟩
          rw [slice_front (by omega)]
          refine .plain hquote (fun hb => hslash ⟨hb, ?_⟩) hscans
          omega
    · cases h

/-! ## What the text means -/

/-- A character: a byte as it stands, or a code unit. -/
inductive Symbol where
  | byte (b : UInt8)
  | unit (u : Nat)

def hexDigit (c : UInt8) : Nat :=
  if c ≤ 57 then c.toNat - 48 else if c ≤ 70 then c.toNat - 55 else c.toNat - 87

def codeUnit (a b c d : UInt8) : Nat :=
  ((hexDigit a * 16 + hexDigit b) * 16 + hexDigit c) * 16 + hexDigit d

/-- What the escapes of one letter stand for. -/
def shortEscape (c : UInt8) : Option UInt8 :=
  if c = 0x22 ∨ c = 0x5c ∨ c = 0x2f then some c
  else if c = 0x62 then some 0x08
  else if c = 0x66 then some 0x0c
  else if c = 0x6e then some 0x0a
  else if c = 0x72 then some 0x0d
  else if c = 0x74 then some 0x09
  else none

def symbols : List UInt8 → Option (List Symbol)
  | [] => some []
  | b :: text =>
    if b ≠ 0x5c then (symbols text).map (.byte b :: ·)
    else
      match text with
      | [] => none
      | c :: text =>
        if c ≠ 0x75 then (shortEscape c).bind fun b => (symbols text).map (.byte b :: ·)
        else
          match text with
          | x :: y :: z :: w :: text =>
            if [x, y, z, w].all isHex then (symbols text).map (.unit (codeUnit x y z w) :: ·)
            else none
          | _ => none

/-- The first half of a surrogate pair. -/
def isHigh (u : Nat) : Bool := 0xd800 ≤ u && u < 0xdc00

/-- The second one. -/
def isLow (u : Nat) : Bool := 0xdc00 ≤ u && u < 0xe000

/-- The bytes of the characters; half a surrogate pair is none. -/
def utf8 : List Symbol → Option (List UInt8)
  | [] => some []
  | .byte b :: symbols => (utf8 symbols).map (b :: ·)
  | .unit u :: symbols =>
    if isLow u then none
    else if isHigh u then
      match symbols with
      | .unit v :: symbols =>
        if isLow v then
          (utf8 symbols).map
            (String.utf8EncodeChar (Char.ofNat (0x10000 + (u - 0xd800) * 0x400 + (v - 0xdc00))) ++ ·)
        else none
      | _ => none
    else (utf8 symbols).map (String.utf8EncodeChar (Char.ofNat u) ++ ·)

/-- The text with its escapes undone. -/
def unescape (text : List UInt8) : Option (List UInt8) := (symbols text).bind utf8

example : unescape (ascii "a\\n\\ud83d\\ude00") =
    some [0x61, 0x0a, 0xf0, 0x9f, 0x98, 0x80] := by decide +kernel

theorem symbols_plain {b : UInt8} (hslash : b ≠ 0x5c) (text : List UInt8) :
    symbols (b :: text) = (symbols text).map (.byte b :: ·) := by
  rw [symbols.eq_def]
  exact if_pos hslash

theorem isEscape_short {b : UInt8} (h : isEscape b = true) :
    b ≠ 0x75 ∧ ∃ c, shortEscape b = some c := by
  simp only [isEscape, Bool.or_eq_true, decide_eq_true_iff] at h
  rcases h with ((((((rfl | rfl) | rfl) | rfl) | rfl) | rfl) | rfl) | rfl
  all_goals exact ⟨by decide, _, rfl⟩

theorem symbols_escape {b c : UInt8} (hu : b ≠ 0x75) (hc : shortEscape b = some c)
    (text : List UInt8) : symbols (0x5c :: b :: text) = (symbols text).map (.byte c :: ·) := by
  rw [symbols.eq_def]
  simp only [ne_eq, not_true_eq_false, ↓reduceIte, hu, not_false_eq_true, hc, Option.bind_some]

theorem symbols_unicode {x y z w : UInt8} (hhex : ∀ b ∈ [x, y, z, w], isHex b = true)
    (text : List UInt8) : symbols (0x5c :: 0x75 :: x :: y :: z :: w :: text) =
      (symbols text).map (.unit (codeUnit x y z w) :: ·) := by
  rw [symbols.eq_def]
  simp only [ne_eq, not_true_eq_false, ↓reduceIte, List.all_eq_true.mpr hhex]

/-- A text without backslashes means itself. -/
theorem unescape_plain {text : List UInt8} (hslash : 0x5c ∉ text) : unescape text = some text := by
  have hsymbols : symbols text = some (text.map .byte) := by
    induction text with
    | nil => rfl
    | cons b text ih =>
      rw [List.mem_cons, not_or] at hslash
      rw [symbols_plain (Ne.symm hslash.1), ih hslash.2]
      rfl
  have hutf8 : utf8 (text.map .byte) = some text := by
    clear hsymbols
    induction text with
    | nil => rfl
    | cons b text ih =>
      rw [List.mem_cons, not_or] at hslash
      rw [List.map_cons, utf8, ih hslash.2]
      rfl
  rw [unescape, hsymbols, Option.bind_some, hutf8]

/-! ## What an escape takes away -/

/-- How many bytes a character has at most. -/
def Symbol.width : Symbol → Nat
  | .byte _ => 1
  | .unit _ => 4

def width (symbols : List Symbol) : Nat := (symbols.map Symbol.width).sum

theorem width_cons (s : Symbol) (symbols : List Symbol) :
    width (s :: symbols) = s.width + width symbols := by
  rw [width, List.map_cons, List.sum_cons, width]

/-- The bytes are those of the characters in turn. -/
inductive Encodes : List Symbol → List UInt8 → Prop
  | nil : Encodes [] []
  | byte (b : UInt8) {symbols : List Symbol} {text : List UInt8} : Encodes symbols text →
      Encodes (.byte b :: symbols) (b :: text)
  | unit (u : Nat) (c : Char) {symbols : List Symbol} {text : List UInt8} : Encodes symbols text →
      Encodes (.unit u :: symbols) (String.utf8EncodeChar c ++ text)
  | pair (u v : Nat) (c : Char) {symbols : List Symbol} {text : List UInt8} :
      Encodes symbols text → Encodes (.unit u :: .unit v :: symbols) (String.utf8EncodeChar c ++ text)

theorem utf8_encodes {symbols : List Symbol} {text : List UInt8} (h : utf8 symbols = some text) :
    Encodes symbols text := by
  induction symbols using utf8.induct generalizing text with
  | case1 =>
    cases h
    exact .nil
  | case2 b symbols ih =>
    obtain ⟨rest, hrest, rfl⟩ := Option.map_eq_some_iff.mp h
    exact .byte b (ih hrest)
  | case3 u symbols hlow =>
    rw [utf8.eq_def] at h
    simp only [hlow, ↓reduceIte] at h
    cases h
  | case4 u hlow hhigh v symbols hpair ih =>
    simp only [utf8, hlow, hhigh, hpair, ↓reduceIte] at h
    obtain ⟨rest, hrest, rfl⟩ := Option.map_eq_some_iff.mp h
    exact .pair u v _ (ih hrest)
  | case5 u hlow hhigh v symbols hpair =>
    simp only [utf8, hlow, hhigh, hpair, ↓reduceIte] at h
    cases h
  | case6 u symbols hlow hhigh hnext =>
    rw [utf8.eq_def] at h
    simp only [hlow, hhigh, Bool.false_eq_true, ↓reduceIte] at h
    cases h
  | case7 u symbols hlow hhigh ih =>
    rw [utf8.eq_def] at h
    simp only [hlow, hhigh, Bool.false_eq_true, ↓reduceIte] at h
    obtain ⟨rest, hrest, rfl⟩ := Option.map_eq_some_iff.mp h
    exact .unit u _ (ih hrest)

theorem Encodes.length_le {symbols : List Symbol} {text : List UInt8} (h : Encodes symbols text) :
    text.length ≤ width symbols := by
  have hchar : ∀ c, (String.utf8EncodeChar c).length ≤ 4 := fun c => by
    rw [String.length_utf8EncodeChar]
    exact c.utf8Size_le_four
  induction h with
  | nil => exact le_rfl
  | byte b _ ih =>
    rw [width_cons, List.length_cons, Symbol.width]
    omega
  | unit u c _ ih =>
    have hfirst := hchar c
    rw [width_cons, List.length_append, Symbol.width]
    omega
  | pair u v c _ ih =>
    have hfirst := hchar c
    rw [width_cons, width_cons, List.length_append, Symbol.width, Symbol.width]
    omega

theorem getLast?_of_tail {α : Type*} {x y : α} {xs : List α} (h : xs.getLast? = some y) :
    (x :: xs).getLast? = some y := by
  rw [List.getLast?_cons, h, Option.getD_some]

/-- A byte at the end stays there. -/
theorem Encodes.last {symbols : List Symbol} {text : List UInt8} (h : Encodes symbols text)
    {b : UInt8} (hlast : symbols.getLast? = some (.byte b)) : text.getLast? = some b := by
  induction h with
  | nil => cases hlast
  | @byte c symbols text hrest ih =>
    cases symbols with
    | nil =>
      cases hlast
      cases hrest
      rfl
    | cons s symbols =>
      rw [List.getLast?_cons_cons] at hlast
      exact getLast?_of_tail (ih hlast)
  | @unit u c symbols text _ ih =>
    cases symbols with
    | nil => cases hlast
    | cons s symbols =>
      rw [List.getLast?_cons_cons] at hlast
      rw [List.getLast?_append, ih hlast, Option.some_or]
  | @pair u v c symbols text _ ih =>
    rw [List.getLast?_cons_cons] at hlast
    cases symbols with
    | nil => cases hlast
    | cons s symbols =>
      rw [List.getLast?_cons_cons] at hlast
      rw [List.getLast?_append, ih hlast, Option.some_or]

/-- The characters of a text are no wider than the text, and as wide only where
nothing is escaped. -/
theorem symbols_width {text : List UInt8} (hscans : Scans text) {syms : List Symbol}
    (h : symbols text = some syms) :
    width syms ≤ text.length ∧ (width syms = text.length → 0x5c ∉ text) := by
  induction hscans generalizing syms with
  | nil =>
    cases h
    exact ⟨le_rfl, fun _ => List.not_mem_nil⟩
  | @plain b text _ hslash _ ih =>
    rw [symbols_plain hslash] at h
    obtain ⟨rest, hrest, rfl⟩ := Option.map_eq_some_iff.mp h
    obtain ⟨hle, heq⟩ := ih hrest
    rw [width_cons, List.length_cons, Symbol.width]
    refine ⟨by omega, fun hwidth => ?_⟩
    rw [List.mem_cons, not_or]
    exact ⟨Ne.symm hslash, heq (by omega)⟩
  | @escape b text hknown _ ih =>
    obtain ⟨hu, c, hc⟩ := isEscape_short hknown
    rw [symbols_escape hu hc] at h
    obtain ⟨rest, hrest, rfl⟩ := Option.map_eq_some_iff.mp h
    have hle := (ih hrest).1
    rw [width_cons, List.length_cons, List.length_cons, Symbol.width]
    exact ⟨by omega, fun hwidth => by omega⟩
  | @unicode a b c d text hhex _ ih =>
    rw [symbols_unicode hhex] at h
    obtain ⟨rest, hrest, rfl⟩ := Option.map_eq_some_iff.mp h
    have hle := (ih hrest).1
    rw [width_cons, Symbol.width]
    simp only [List.length_cons]
    exact ⟨by omega, fun hwidth => by omega⟩

/-- Undoing the escapes makes a text shorter, if there are any. -/
theorem unescape_length {text plain : List UInt8} (hscans : Scans text)
    (h : unescape text = some plain) :
    plain.length ≤ text.length ∧ (plain.length = text.length → 0x5c ∉ text) := by
  obtain ⟨syms, hsyms, hutf8⟩ := Option.bind_eq_some_iff.mp h
  have hle := (utf8_encodes hutf8).length_le
  obtain ⟨hwidth, heq⟩ := symbols_width hscans hsyms
  exact ⟨by omega, fun hlength => heq (by omega)⟩

/-- A comma at the end stands for itself. -/
theorem symbols_comma {text : List UInt8} (hscans : Scans text) {syms : List Symbol}
    (h : symbols text = some syms) (hlast : text.getLast? = some 0x2c) :
    syms.getLast? = some (.byte 0x2c) := by
  induction hscans generalizing syms with
  | nil => cases hlast
  | @plain b text _ hslash _ ih =>
    rw [symbols_plain hslash] at h
    obtain ⟨rest, hrest, rfl⟩ := Option.map_eq_some_iff.mp h
    cases text with
    | nil =>
      cases hlast
      cases hrest
      rfl
    | cons c text =>
      rw [List.getLast?_cons_cons] at hlast
      exact getLast?_of_tail (ih hrest hlast)
  | @escape b text hknown _ ih =>
    obtain ⟨hu, c, hc⟩ := isEscape_short hknown
    rw [symbols_escape hu hc] at h
    obtain ⟨rest, hrest, rfl⟩ := Option.map_eq_some_iff.mp h
    rw [List.getLast?_cons_cons] at hlast
    cases text with
    | nil =>
      cases hlast
      exact absurd hknown (by decide)
    | cons x text =>
      rw [List.getLast?_cons_cons] at hlast
      exact getLast?_of_tail (ih hrest hlast)
  | @unicode a b c d text hhex _ ih =>
    rw [symbols_unicode hhex] at h
    obtain ⟨rest, hrest, rfl⟩ := Option.map_eq_some_iff.mp h
    simp only [List.getLast?_cons_cons] at hlast
    cases text with
    | nil =>
      cases hlast
      exact absurd (hhex 0x2c (by simp)) (by decide)
    | cons x text =>
      rw [List.getLast?_cons_cons] at hlast
      exact getLast?_of_tail (ih hrest hlast)

theorem unescape_comma {text plain : List UInt8} (hscans : Scans text)
    (h : unescape text = some plain) (hlast : text.getLast? = some 0x2c) :
    plain.getLast? = some 0x2c := by
  obtain ⟨syms, hsyms, hutf8⟩ := Option.bind_eq_some_iff.mp h
  exact (utf8_encodes hutf8).last (symbols_comma hscans hsyms hlast)

/-- A quote in such a text has a backslash before it. -/
theorem Scans.before_quote {text : List UInt8} (hscans : Scans text) {i : Nat}
    (h : text[i]? = some 0x22) : ∃ j, i = j + 1 ∧ text[j]? = some 0x5c := by
  induction hscans generalizing i with
  | nil => cases h
  | @plain b text hquote _ _ ih =>
    cases i with
    | zero =>
      cases h
      exact absurd rfl hquote
    | succ i =>
      obtain ⟨j, rfl, hj⟩ := ih h
      exact ⟨j + 1, rfl, hj⟩
  | @escape b text _ _ ih =>
    match i with
    | 0 => cases h
    | 1 => exact ⟨0, rfl, rfl⟩
    | i + 2 =>
      obtain ⟨j, rfl, hj⟩ := ih h
      exact ⟨j + 2, rfl, hj⟩
  | @unicode a b c d text hhex _ ih =>
    by_cases hi : i < 6
    · have hfirst : [0x5c, 0x75, a, b, c, d][i]? = some 0x22 := by
        rw [← h]
        exact (@List.getElem?_append_left _ [0x5c, 0x75, a, b, c, d] text i hi).symm
      have hdigit := List.mem_of_getElem? hfirst
      rw [List.mem_cons, List.mem_cons] at hdigit
      have hmem := (hdigit.resolve_left (by decide)).resolve_left (by decide)
      exact absurd (hhex 0x22 hmem) (by decide)
    · obtain ⟨k, rfl⟩ : ∃ k, i = k + 6 := ⟨i - 6, by omega⟩
      obtain ⟨j, rfl, hj⟩ := ih h
      exact ⟨j + 6, rfl, hj⟩

theorem Scans.no_quote {text : List UInt8} (hscans : Scans text) (hslash : 0x5c ∉ text) :
    0x22 ∉ text := by
  intro hmem
  obtain ⟨i, hi⟩ := List.mem_iff_getElem?.mp hmem
  obtain ⟨j, _, hj⟩ := hscans.before_quote hi
  exact hslash (List.mem_of_getElem? hj)

/-- Neither a quote nor a backslash. -/
def Plain (text : List UInt8) : Prop := 0x22 ∉ text ∧ 0x5c ∉ text

instance (text : List UInt8) : Decidable (Plain text) := inferInstanceAs (Decidable (_ ∧ _))

/-- What is behind the field: a comma and another quote, or no quote any more. -/
def Follows (rest : List UInt8) : Prop :=
  (∃ later, rest = 0x2c :: 0x22 :: later) ∨ 0x22 ∉ rest

/-- A scan that goes on behind the quote of the field ends at the next quote, and
the field ends in a backslash. -/
theorem Scans.ends_in_comma {field extra behind later : List UInt8}
    (hscans : Scans (field ++ 0x22 :: extra))
    (hsplit : extra ++ 0x22 :: behind = 0x2c :: 0x22 :: later) :
    extra = [0x2c] ∧ field.getLast? = some 0x5c := by
  have hextra : extra = [0x2c] := by
    cases extra with
    | nil =>
      rw [List.nil_append, List.cons.injEq] at hsplit
      exact absurd hsplit.1 (by decide)
    | cons c extra =>
      rw [List.cons_append, List.cons.injEq] at hsplit
      obtain ⟨rfl, hsplit⟩ := hsplit
      cases extra with
      | nil => rfl
      | cons q extra =>
        rw [List.cons_append, List.cons.injEq] at hsplit
        obtain ⟨rfl, _⟩ := hsplit
        have hquote : (field ++ 0x22 :: 0x2c :: 0x22 :: extra)[field.length + 2]? = some 0x22 := by
          rw [List.getElem?_append_right (by omega), Nat.add_sub_cancel_left]
          rfl
        obtain ⟨j, hj, hslash⟩ := hscans.before_quote hquote
        obtain rfl : j = field.length + 1 := by omega
        rw [List.getElem?_append_right (by omega), Nat.add_sub_cancel_left] at hslash
        cases hslash
  refine ⟨hextra, ?_⟩
  have hquote : (field ++ 0x22 :: extra)[field.length]? = some 0x22 := by
    rw [List.getElem?_append_right le_rfl, Nat.sub_self]
    rfl
  obtain ⟨j, hj, hslash⟩ := hscans.before_quote hquote
  rw [List.getElem?_append_left (by omega)] at hslash
  rw [List.getLast?_eq_getElem?, hj, Nat.add_sub_cancel]
  exact hslash

/-- A field in quotes comes back as it is only where it is plain: what the scan
makes of it instead is shorter, or ends in a comma where the field ends in a
backslash. -/
theorem Scans.plain_of_unescape {text field rest behind : List UInt8} (hscans : Scans text)
    (h : unescape text = some field) (hrest : Follows rest)
    (hsplit : text ++ 0x22 :: behind = field ++ 0x22 :: rest) : Plain field := by
  obtain ⟨hle, heq⟩ := unescape_length hscans h
  obtain ⟨extra, htext, hextra⟩ : ∃ extra, text = field ++ extra ∧
      extra ++ 0x22 :: behind = 0x22 :: rest := by
    rcases List.append_eq_append_iff.mp hsplit with ⟨x, hfield, hx⟩ | ⟨x, htext, hx⟩
    · have hnil : x = [] := by
        have hlength := congrArg List.length hfield
        rw [List.length_append] at hlength
        exact List.eq_nil_of_length_eq_zero (by omega)
      rw [hnil, List.append_nil] at hfield
      rw [hnil, List.nil_append] at hx
      exact ⟨[], by rw [List.append_nil, hfield], hx⟩
    · exact ⟨x, htext, hx.symm⟩
  cases extra with
  | nil =>
    rw [List.append_nil] at htext
    have hslash := heq (by rw [htext])
    rw [← htext]
    exact ⟨hscans.no_quote hslash, hslash⟩
  | cons quote extra =>
    exfalso
    rw [List.cons_append, List.cons.injEq] at hextra
    obtain ⟨rfl, hextra⟩ := hextra
    rcases hrest with ⟨later, rfl⟩ | hnone
    · subst htext
      obtain ⟨rfl, hslash⟩ := hscans.ends_in_comma hextra
      have hcomma := unescape_comma hscans h (by
        rw [List.getLast?_append]
        rfl)
      rw [hslash] at hcomma
      exact absurd hcomma (by decide)
    · rw [← hextra] at hnone
      exact hnone (List.mem_append_right _ List.mem_cons_self)

end StmGateway.Json.Escape
