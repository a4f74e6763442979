import StmGateway.Lib.CString
import StmGateway.Lib.Fuel

/-!
# The tokenizer jsmn

`jsmn.c` as it is built here: with parent links, not strict, and with a token
array. `stop` is the source's `end`. An access to a token that is not allocated
has no result. A character code below 32 or from 127 on is the same set whether
`char` is signed or not.
-/
namespace StmGateway.Json.Jsmn

open StmGateway.Lib

inductive TokType where
  | undefined
  | object
  | array
  | string
  | primitive
  deriving DecidableEq

structure Tok where
  type : TokType
  start : Int
  stop : Int
  size : Nat
  parent : Int

def jsmnErrorNomem : Int := -1

def jsmnErrorInval : Int := -2

def jsmnErrorPart : Int := -3

/-- `jsmn_parser`, the token array and the variable `count` of `jsmn_parse`. -/
structure Parser where
  pos : Nat
  toknext : Nat
  toksuper : Int
  tokens : Nat → Tok
  count : Nat

/-- `jsmn_init`, on an array with anything in it. -/
def jsmnInit (tokens : Nat → Tok) : Parser := ⟨0, 0, -1, tokens, 0⟩

/-- Token `i`, for a read. -/
def Parser.tok (p : Parser) (i : Int) : Option Tok :=
  if 0 ≤ i ∧ i < p.toknext then some (p.tokens i.toNat) else none

/-- Token `i`, for a write. -/
def Parser.setTok (p : Parser) (i : Int) (tok : Tok) : Option Parser :=
  if 0 ≤ i ∧ i < p.toknext then
    some { p with tokens := Function.update p.tokens i.toNat tok }
  else
    none

/-- `jsmn_alloc_token`: the index of the token, `none` for NULL. -/
def jsmnAllocToken (p : Parser) (numTokens : Nat) : Option (Nat × Parser) :=
  if numTokens ≤ p.toknext then none
  else
    let tok := { p.tokens p.toknext with start := -1, stop := -1, size := 0, parent := -1 }
    some (p.toknext, { p with
      tokens := Function.update p.tokens p.toknext tok
      toknext := p.toknext + 1 })

/-- `jsmn_fill_token`. -/
def jsmnFillToken (tok : Tok) (type : TokType) (start stop : Int) : Tok :=
  { tok with type := type, start := start, stop := stop, size := 0 }

/-- `tokens[parser->toksuper].size++`, unless `toksuper` is -1. -/
def Parser.incSuper (p : Parser) : Option Parser :=
  if p.toksuper ≠ -1 then do
    let tok ← p.tok p.toksuper
    p.setTok p.toksuper { tok with size := tok.size + 1 }
  else
    some p

/-- A closed token, filled and with its parent. -/
def addToken (p : Parser) (numTokens : Nat) (type : TokType) (start stop : Int) :
    Option (Except Int Parser) :=
  match jsmnAllocToken p numTokens with
  | none => some (.error jsmnErrorNomem)
  | some (i, p) => do
    let tok ← p.tok i
    let p ← p.setTok i { jsmnFillToken tok type start stop with parent := p.toksuper }
    return .ok p

variable (js : Nat → UInt8) (len numTokens : Nat)

/-- `:`, the white space, `,`, `]` and `}`. -/
def endsPrimitive (c : UInt8) : Bool :=
  c = 0x3a || c = 0x09 || c = 0x0d || c = 0x0a || c = 0x20 || c = 0x2c || c = 0x5d || c = 0x7d

/-- The loop of `jsmn_parse_primitive`: where the primitive ends. -/
def primitiveLoop : Nat → Nat → Option (Except Int Nat)
  | 0, _ => none
  | fuel + 1, pos =>
    if pos < len ∧ js pos ≠ 0 then
      if endsPrimitive (js pos) then some (.ok pos)
      else if js pos < 32 ∨ 127 ≤ js pos then some (.error jsmnErrorInval)
      else primitiveLoop fuel (pos + 1)
    else
      some (.ok pos)

/-- `jsmn_parse_primitive`. -/
def jsmnParsePrimitive (fuel : Nat) (p : Parser) : Option (Except Int Parser) := do
  match ← primitiveLoop js len fuel p.pos with
  | .error r => return .error r
  | .ok pos =>
    match ← addToken p numTokens .primitive p.pos pos with
    | .error r => return .error r
    | .ok p => return .ok { p with pos := pos - 1 }

def isHex (c : UInt8) : Bool :=
  (48 ≤ c && c ≤ 57) || (65 ≤ c && c ≤ 70) || (97 ≤ c && c ≤ 102)

/-- The loop over the digits of `\u`. -/
def hexLoop : Nat → Nat → Except Int Nat
  | 0, pos => .ok pos
  | n + 1, pos =>
    if pos < len ∧ js pos ≠ 0 then
      if isHex (js pos) then hexLoop n (pos + 1) else .error jsmnErrorInval
    else
      .ok pos

/-- The symbols that may follow a backslash, but for `u`. -/
def isEscape (c : UInt8) : Bool :=
  c = 0x22 || c = 0x2f || c = 0x5c || c = 0x62 || c = 0x66 || c = 0x72 || c = 0x6e || c = 0x74

/-- The loop of `jsmn_parse_string`: where the closing quote is. -/
def stringLoop : Nat → Nat → Option (Except Int Nat)
  | 0, _ => none
  | fuel + 1, pos =>
    if pos < len ∧ js pos ≠ 0 then
      if js pos = 0x22 then some (.ok pos)
      else if js pos = 0x5c ∧ pos + 1 < len then
        if isEscape (js (pos + 1)) then stringLoop fuel (pos + 2)
        else if js (pos + 1) = 0x75 then
          match hexLoop js len 4 (pos + 2) with
          | .error r => some (.error r)
          | .ok pos => stringLoop fuel pos
        else some (.error jsmnErrorInval)
      else stringLoop fuel (pos + 1)
    else
      some (.error jsmnErrorPart)

/-- `jsmn_parse_string`. -/
def jsmnParseString (fuel : Nat) (p : Parser) : Option (Except Int Parser) := do
  match ← stringLoop js len fuel (p.pos + 1) with
  | .error r => return .error r
  | .ok pos =>
    match ← addToken p numTokens .string (p.pos + 1) pos with
    | .error r => return .error r
    | .ok p => return .ok { p with pos := pos }

/-- The search for the token that a bracket closes, from the last one up through
its parents; `none` where it ends at a closed token without a parent. -/
def closeLoop (p : Parser) (type : TokType) : Nat → Int → Option (Except Int (Option Int))
  | 0, _ => none
  | fuel + 1, i => do
    let token ← p.tok i
    if token.start ≠ -1 ∧ token.stop = -1 then
      if token.type ≠ type then return .error jsmnErrorInval else return .ok (some i)
    else if token.parent = -1 then
      if token.type ≠ type ∨ p.toksuper = -1 then return .error jsmnErrorInval else return .ok none
    else closeLoop p type fuel token.parent

/-- An opening bracket. -/
def openBracket (p : Parser) (type : TokType) : Option (Except Int Parser) :=
  match jsmnAllocToken { p with count := p.count + 1 } numTokens with
  | none => some (.error jsmnErrorNomem)
  | some (i, p) => do
    let p ← p.incSuper
    let tok ← p.tok i
    let parent := if p.toksuper ≠ -1 then p.toksuper else tok.parent
    let p ← p.setTok i { tok with type := type, start := p.pos, parent := parent }
    return .ok { p with toksuper := (p.toknext : Int) - 1 }

/-- A closing bracket. -/
def closeBracket (fuel : Nat) (p : Parser) (type : TokType) : Option (Except Int Parser) :=
  if p.toknext < 1 then some (.error jsmnErrorInval)
  else do
    match ← closeLoop p type fuel ((p.toknext : Int) - 1) with
    | .error r => return .error r
    | .ok none => return .ok p
    | .ok (some i) =>
      let token ← p.tok i
      let p ← p.setTok i { token with stop := (p.pos : Int) + 1 }
      return .ok { p with toksuper := token.parent }

/-- What follows a string or a primitive. -/
def counted : Except Int Parser → Option (Except Int Parser)
  | .error r => some (.error r)
  | .ok p => do
    let p ← { p with count := p.count + 1 }.incSuper
    return .ok p

/-- A comma. -/
def comma (p : Parser) : Option Parser :=
  if p.toksuper ≠ -1 then do
    let super ← p.tok p.toksuper
    if super.type ≠ .array ∧ super.type ≠ .object then
      return { p with toksuper := super.parent }
    else return p
  else
    some p

/-- The `switch` of `jsmn_parse`. -/
def parseChar (fuel : Nat) (p : Parser) : Option (Except Int Parser) :=
  let c := js p.pos
  if c = 0x7b then openBracket numTokens p .object
  else if c = 0x5b then openBracket numTokens p .array
  else if c = 0x7d then closeBracket fuel p .object
  else if c = 0x5d then closeBracket fuel p .array
  else if c = 0x22 then do counted (← jsmnParseString js len numTokens fuel p)
  else if c = 0x09 ∨ c = 0x0d ∨ c = 0x0a ∨ c = 0x20 then some (.ok p)
  else if c = 0x3a then some (.ok { p with toksuper := (p.toknext : Int) - 1 })
  else if c = 0x2c then do return .ok (← comma p)
  else do counted (← jsmnParsePrimitive js len numTokens fuel p)

/-- The loop of `jsmn_parse`. -/
def parseLoop : Nat → Parser → Option (Int × Parser)
  | 0, _ => none
  | fuel + 1, p =>
    if p.pos < len ∧ js p.pos ≠ 0 then do
      match ← parseChar js len numTokens fuel p with
      | .error r => return (r, p)
      | .ok p => parseLoop fuel { p with pos := p.pos + 1 }
    else if (List.range p.toknext).any fun i => (p.tokens i).start ≠ -1 ∧ (p.tokens i).stop = -1 then
      some (jsmnErrorPart, p)
    else
      some (p.count, p)

/-- `jsmn_parse`. -/
def jsmnParse (fuel : Nat) (p : Parser) : Option (Int × Parser) :=
  parseLoop js len numTokens fuel { p with count := p.toknext }

end StmGateway.Json.Jsmn
