import StmGateway.Json.Jsmn
import StmGateway.Lib.CText

/-!
# `json_deal_cmd`

The lookups of `jsmn_util.c` and the command function of `usart_net.c`. A pointer
to a token is its index in `tk`. An access to a token that was not allocated, a
slice of the frame that is out of order or reaches behind it, and a copy that
does not fit `json_age` have no result.
-/
namespace StmGateway.Json.DealCmd

open StmGateway.Lib StmGateway.Json.Jsmn

/-- `jsmn_item_t`. -/
structure Item where
  t : Int
  index : Int
  leftNum : Int

/-- `JSMN_ItemInit`. -/
def jsmnItemInit (t index tokensLen : Int) : Item := ⟨t, index, tokensLen - index - 1⟩

/-- The bytes of the frame between two ends. -/
def frameSlice (js : Nat → UInt8) (len : Nat) (start stop : Int) : Option (List UInt8) :=
  if 0 ≤ start ∧ start ≤ stop ∧ stop ≤ len then
    some (slice js start.toNat (stop - start).toNat)
  else
    none

variable (js : Nat → UInt8) (len : Nat) (p : Parser)

/-- `json_token_streq`. -/
def jsonTokenStreq (t : Tok) (s : List UInt8) : Option Bool := do
  let text ← frameSlice js len t.start t.stop
  return strncmpEq text s text.length && s.length == text.length

/-- The loop of `JSMN_GetObjectItem` over what is left from the `i`-th token on. -/
def findKey (ob : Item) (string : List UInt8) : Nat → Nat → Option (Option Item)
  | 0, _ => some none
  | left + 1, i => do
    let t ← p.tok (ob.t + i)
    if t.type = .string ∧ t.parent = ob.index then
      if ← jsonTokenStreq js len t string then
        return some ⟨ob.t + i, ob.index + i, ob.leftNum - i⟩
      else findKey ob string left (i + 1)
    else findKey ob string left (i + 1)

/-- The object an item is, or has as its value; `none` where the source returns -1. -/
def objectOf (object : Item) : Option (Option Item) := do
  let ot ← p.tok object.t
  if ot.type = .object then return some object
  if ot.type ≠ .string ∨ ot.size ≠ 1 ∨ object.leftNum ≤ 0 then return none
  let t ← p.tok (object.t + 1)
  if t.type ≠ .object ∨ t.parent ≠ object.index then return none
  return some ⟨object.t + 1, object.index + 1, object.leftNum - 1⟩

/-- `JSMN_GetObjectItem`: the item, `none` where it returns -1. -/
def jsmnGetObjectItem (object : Item) (string : List UInt8) : Option (Option Item) := do
  match ← objectOf p object with
  | none => return none
  | some ob =>
    if ob.leftNum ≤ 0 then return none
    findKey js len p ob string ob.leftNum.toNat 1

/-- The size of `json_age`. -/
def jsonAgeSize : Nat := 64

/-- `memcpy` to `json_age`. -/
def copyText (buf : Nat → UInt8) (text : List UInt8) : Option (Nat → UInt8) :=
  if text.length ≤ jsonAgeSize then some fun j => text.getD j (buf j) else none

/-- `JSMN_GetStringBuffered`: what it returns, and the buffer. -/
def jsmnGetStringBuffered (item : Item) (buf : Nat → UInt8) (bufsz : Nat) :
    Option (Int × (Nat → UInt8)) := do
  let buf ← copyText buf (List.replicate bufsz 0)
  if bufsz = 0 then return (-1, buf)
  let t ← p.tok item.t
  if t.type ≠ .string ∧ t.type ≠ .primitive then return (-1, buf)
  let text ← frameSlice js len t.start t.stop
  let n := if bufsz ≤ text.length then bufsz - 1 else text.length
  let buf ← copyText buf (text.take n)
  return (n, buf)

/-- `JSMN_GetValueStringBuffered`. -/
def jsmnGetValueStringBuffered (item : Item) (buf : Nat → UInt8) (bufsz : Nat) :
    Option (Int × (Nat → UInt8)) := do
  if bufsz = 0 then return (-1, buf)
  let t ← p.tok item.t
  if t.type ≠ .string ∨ t.size ≠ 1 ∨ item.leftNum ≤ 0 then return (-1, buf)
  jsmnGetStringBuffered js len p ⟨item.t + 1, item.index + 1, item.leftNum - 1⟩ buf bufsz

/-- What the function does besides returning: text on the console, and the
message to the server about the lost connection. -/
inductive Output where
  | print (text : List UInt8)
  | txDisconnect
  deriving DecidableEq

/-- `%d`. -/
def signedDecimal (n : Int) : List UInt8 :=
  if n < 0 then 0x2d :: decimal n.natAbs else decimal n.natAbs

/-- One of the three lines, and the buffer it leaves. What is behind a buffer
without a terminator is not printed here. -/
def valueLine (item : Item) (label : String) (jsonAge : Nat → UInt8) :
    Option (Output × (Nat → UInt8)) := do
  let (_, jsonAge) ← jsmnGetValueStringBuffered js len p item jsonAge jsonAgeSize
  return (.print (ascii label ++ cString jsonAge jsonAgeSize 0 ++ ascii "\n"), jsonAge)

/-- The three lookups and what is printed of their results. -/
def dealItems (itemArray : Item) (jsonAge : Nat → UInt8) : Option (Int × List Output) := do
  match ← jsmnGetObjectItem js len p itemArray (ascii "age") with
  | none => return (-1, [.print (ascii "JSMN_GetObjectItem age failed\n")])
  | some age =>
    match ← jsmnGetObjectItem js len p itemArray (ascii "email") with
    | none => return (-1, [.print (ascii "JSMN_GetObjectItem email failed\n")])
    | some email =>
      match ← jsmnGetObjectItem js len p itemArray (ascii "name") with
      | none => return (-1, [.print (ascii "JSMN_GetObjectItem name failed\n")])
      | some name =>
        let (ageLine, jsonAge) ← valueLine js len p age "age:" jsonAge
        let (emailLine, jsonAge) ← valueLine js len p email "email:" jsonAge
        let (nameLine, _) ← valueLine js len p name "name:" jsonAge
        return (1, [ageLine, emailLine, nameLine])

/-- `json_deal_cmd` on the frame at `js`, with what is on the stack for `tk` and
`json_age`. -/
def jsonDealCmd (tk : Nat → Tok) (jsonAge : Nat → UInt8) (fuel : Nat) :
    Option (Int × List Output) := do
  let len ← scanNul js fuel 0
  if 12 ≤ len ∧ strncmpEq (slice js 0 len) (ascii "U2E SENT ERR") 12 then
    return (-2, [.print "与服务器断连，等待重连中...\n".toUTF8.data.toList, .txDisconnect])
  let (ret, p) ← jsmnParse js len 256 fuel (jsmnInit tk)
  if ret < 0 then
    return (-1, [.print (ascii "Failed to parse JSON:" ++ signedDecimal ret ++ ascii "\n")])
  if ret < 1 then return (-1, [.print (ascii "Object expected\n")])
  let root ← p.tok 0
  if root.type ≠ .object then return (-1, [.print (ascii "Object expected\n")])
  dealItems js len p (jsmnItemInit 0 0 ret) jsonAge

end StmGateway.Json.DealCmd
