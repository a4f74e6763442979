import StmGateway.Lib.CString

/-!
# JSON texts

Syntax trees with everything that is written, so that a tree is one text: white
space, escapes, member order. A primitive is any word of letters, digits, signs
and points, which the numbers, `true`, `false` and `null` are.
-/
namespace StmGateway.Json.Grammar

open StmGateway.Lib

def Blank (b : UInt8) : Prop := b = 0x20 ∨ b = 0x09 ∨ b = 0x0a ∨ b = 0x0d

structure Space where
  text : List UInt8
  blank : ∀ b ∈ text, Blank b

def HexDigit (b : UInt8) : Prop :=
  (0x30 ≤ b ∧ b ≤ 0x39) ∨ (0x41 ≤ b ∧ b ≤ 0x46) ∨ (0x61 ≤ b ∧ b ≤ 0x66)

/-- A character of a string, as it is written. -/
inductive Piece where
  | plain (b : UInt8) (low : 0x20 ≤ b) (quote : b ≠ 0x22) (backslash : b ≠ 0x5c)
  | escape (b : UInt8) (known : b ∈ ascii "\"\\/bfnrt")
  | unicode (a b c d : UInt8) (ha : HexDigit a) (hb : HexDigit b) (hc : HexDigit c)
    (hd : HexDigit d)

def Piece.bytes : Piece → List UInt8
  | .plain b _ _ _ => [b]
  | .escape b _ => [0x5c, b]
  | .unicode a b c d _ _ _ _ => [0x5c, 0x75, a, b, c, d]

/-- What stands between the quotes of a string. -/
def raw (text : List Piece) : List UInt8 := text.flatMap Piece.bytes

def Word (b : UInt8) : Prop :=
  (0x30 ≤ b ∧ b ≤ 0x39) ∨ (0x41 ≤ b ∧ b ≤ 0x5a) ∨ (0x61 ≤ b ∧ b ≤ 0x7a) ∨
    b = 0x2b ∨ b = 0x2d ∨ b = 0x2e

structure Primitive where
  text : List UInt8
  nonempty : text ≠ []
  word : ∀ b ∈ text, Word b

/-- The name of a member and its colon, with the white space around them. -/
structure Key where
  before : Space
  name : List Piece
  middle : Space
  after : Space

mutual

inductive Value where
  | string (text : List Piece)
  | primitive (p : Primitive)
  | emptyArray (space : Space)
  | array (elements : Elements)
  | emptyObject (space : Space)
  | object (members : Members)

inductive Elements where
  | one (before : Space) (v : Value) (after : Space)
  | cons (before : Space) (v : Value) (after : Space) (rest : Elements)

inductive Members where
  | one (key : Key) (v : Value) (after : Space)
  | cons (key : Key) (v : Value) (after : Space) (rest : Members)

end

def quote (text : List Piece) : List UInt8 := 0x22 :: raw text ++ [0x22]

def Key.bytes (k : Key) : List UInt8 :=
  k.before.text ++ quote k.name ++ k.middle.text ++ 0x3a :: k.after.text

mutual

def Value.bytes : Value → List UInt8
  | .string text => quote text
  | .primitive p => p.text
  | .emptyArray space => 0x5b :: space.text ++ [0x5d]
  | .array elements => 0x5b :: elements.bytes ++ [0x5d]
  | .emptyObject space => 0x7b :: space.text ++ [0x7d]
  | .object members => 0x7b :: members.bytes ++ [0x7d]

def Elements.bytes : Elements → List UInt8
  | .one before v after => before.text ++ v.bytes ++ after.text
  | .cons before v after rest => before.text ++ v.bytes ++ after.text ++ 0x2c :: rest.bytes

def Members.bytes : Members → List UInt8
  | .one key v after => key.bytes ++ v.bytes ++ after.text
  | .cons key v after rest => key.bytes ++ v.bytes ++ after.text ++ 0x2c :: rest.bytes

end

mutual

/-- How many tokens a text has: one for each container, string and primitive. -/
def Value.size : Value → Nat
  | .string _ | .primitive _ | .emptyArray _ | .emptyObject _ => 1
  | .array elements => 1 + elements.size
  | .object members => 1 + members.size

def Elements.size : Elements → Nat
  | .one _ v _ => v.size
  | .cons _ v _ rest => v.size + rest.size

def Members.size : Members → Nat
  | .one _ v _ => 1 + v.size
  | .cons _ v _ rest => 1 + v.size + rest.size

end

/-- The raw text of a string or a primitive. -/
def Value.raw : Value → Option (List UInt8)
  | .string text => some (Grammar.raw text)
  | .primitive p => some p.text
  | _ => none

/-- The value of the first member with a name, as it is written. -/
def Members.first (name : List UInt8) : Members → Option Value
  | .one key v _ => if Grammar.raw key.name = name then some v else none
  | .cons key v _ rest => if Grammar.raw key.name = name then some v else rest.first name

theorem blank_ne_zero {b : UInt8} (h : Blank b) : b ≠ 0 := by
  rcases h with rfl | rfl | rfl | rfl <;> decide

theorem hexDigit_ne_zero {b : UInt8} (h : HexDigit b) : b ≠ 0 := by
  rintro rfl
  revert h
  simp [HexDigit]

theorem piece_no_nul (piece : Piece) : 0 ∉ piece.bytes := by
  cases piece with
  | plain b low _ _ =>
    simp only [Piece.bytes, List.mem_singleton]
    rintro rfl
    exact absurd low (by decide)
  | escape b known =>
    simp only [Piece.bytes, List.mem_cons, List.not_mem_nil, or_false, not_or]
    refine ⟨by decide, ?_⟩
    rintro rfl
    exact absurd known (by decide)
  | unicode a b c d ha hb hc hd =>
    simp only [Piece.bytes, List.mem_cons, List.not_mem_nil, or_false, not_or]
    exact ⟨by decide, by decide, (hexDigit_ne_zero ha).symm, (hexDigit_ne_zero hb).symm,
      (hexDigit_ne_zero hc).symm, (hexDigit_ne_zero hd).symm⟩

theorem raw_no_nul (text : List Piece) : 0 ∉ raw text := by
  intro h
  obtain ⟨piece, _, hmem⟩ := List.mem_flatMap.mp h
  exact piece_no_nul piece hmem

theorem quote_no_nul (text : List Piece) : 0 ∉ quote text := by
  simp only [quote, List.cons_append, List.mem_cons, List.mem_append, List.not_mem_nil, or_false,
    not_or]
  exact ⟨by decide, raw_no_nul text, by decide⟩

theorem Space.no_nul (space : Space) : 0 ∉ space.text := fun h =>
  blank_ne_zero (space.blank 0 h) rfl

theorem Primitive.no_nul (p : Primitive) : 0 ∉ p.text := by
  intro h
  have hword := p.word 0 h
  revert hword
  simp [Word]

theorem Key.no_nul (key : Key) : 0 ∉ key.bytes := by
  simp only [Key.bytes, List.mem_append, List.mem_cons, not_or]
  exact ⟨⟨⟨key.before.no_nul, quote_no_nul _⟩, key.middle.no_nul⟩, by decide, key.after.no_nul⟩

theorem bracket_no_nul {o c : UInt8} {text : List UInt8} (ho : 0 ≠ o) (hc : 0 ≠ c)
    (htext : 0 ∉ text) : 0 ∉ o :: text ++ [c] := by
  simp only [List.cons_append, List.mem_cons, List.mem_append, List.not_mem_nil, or_false, not_or]
  exact ⟨ho, htext, hc⟩

mutual

/-- A text is free of NULs. -/
theorem Value.no_nul : ∀ v : Value, 0 ∉ v.bytes
  | .string text => quote_no_nul text
  | .primitive p => p.no_nul
  | .emptyArray space => bracket_no_nul (by decide) (by decide) space.no_nul
  | .array elements => bracket_no_nul (by decide) (by decide) (Elements.no_nul elements)
  | .emptyObject space => bracket_no_nul (by decide) (by decide) space.no_nul
  | .object members => bracket_no_nul (by decide) (by decide) (Members.no_nul members)

theorem Elements.no_nul : ∀ es : Elements, 0 ∉ es.bytes
  | .one before v after => by
    simp only [Elements.bytes, List.mem_append, not_or]
    exact ⟨⟨before.no_nul, Value.no_nul v⟩, after.no_nul⟩
  | .cons before v after rest => by
    simp only [Elements.bytes, List.mem_append, List.mem_cons, not_or]
    exact ⟨⟨⟨before.no_nul, Value.no_nul v⟩, after.no_nul⟩, by decide, Elements.no_nul rest⟩

theorem Members.no_nul : ∀ ms : Members, 0 ∉ ms.bytes
  | .one key v after => by
    simp only [Members.bytes, List.mem_append, not_or]
    exact ⟨⟨key.no_nul, Value.no_nul v⟩, after.no_nul⟩
  | .cons key v after rest => by
    simp only [Members.bytes, List.mem_append, List.mem_cons, not_or]
    exact ⟨⟨⟨key.no_nul, Value.no_nul v⟩, after.no_nul⟩, by decide, Members.no_nul rest⟩

end

end StmGateway.Json.Grammar
