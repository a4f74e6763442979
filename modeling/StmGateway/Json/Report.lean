import StmGateway.Json.DealCmd
import StmGateway.Json.Tree

/-!
# Status reports

`usart_net_json_tx` writes the fields between the quotes of its template as they
are. The text is parsed with `jsmn_parse` and looked up with
`JSMN_GetObjectItem` and `JSMN_GetValueString`, which terminates each value it
returns in the text itself.
-/
namespace StmGateway.Json.Report

open StmGateway.Lib StmGateway.Json.Jsmn StmGateway.Json.Tree StmGateway.Json.DealCmd
open StmGateway.Json.Escape

/-- A string of the program. -/
structure CStr where
  bytes : List UInt8
  nul : 0 ∉ bytes

/-- `tx_json_t`. -/
structure TxJson where
  deviceId : CStr
  portStatus : CStr
  errorCode : CStr
  timestamp : CStr

inductive Member where
  | deviceId
  | portStatus
  | errorCode
  | timestamp
  deriving DecidableEq

def Member.name : Member → List UInt8
  | .deviceId => ascii "device_id"
  | .portStatus => ascii "port_status"
  | .errorCode => ascii "error_code"
  | .timestamp => ascii "timestamp"

def TxJson.field (json : TxJson) : Member → CStr
  | .deviceId => json.deviceId
  | .portStatus => json.portStatus
  | .errorCode => json.errorCode
  | .timestamp => json.timestamp

/-- The text of `usart_net_json_tx`. -/
def usartNetJsonTx (json : TxJson) : List UInt8 :=
  ascii "\x7b\"device_id\": \"" ++ json.deviceId.bytes ++ ascii "\"," ++
    (ascii "\"port_status\": \"" ++ json.portStatus.bytes ++ ascii "\",") ++
    (ascii "\"error_code\": \"" ++ json.errorCode.bytes ++ ascii "\",") ++
    (ascii "\"timestamp\": \"" ++ json.timestamp.bytes ++ ascii "\"\x7d\n")

section Lookup

variable (len : Nat) (p : Parser)

/-- `JSMN_GetString`: where the text starts, `none` for NULL, and the frame with
a terminator at the end of the token. -/
def jsmnGetString (js : Nat → UInt8) (item : Item) : Option (Option Nat × (Nat → UInt8)) := do
  let t ← p.tok item.t
  if t.type ≠ .string ∧ t.type ≠ .primitive then return (none, js)
  if 0 ≤ t.start ∧ 0 ≤ t.stop ∧ t.stop ≤ len then
    some (some t.start.toNat, Function.update js t.stop.toNat 0)
  else
    none

/-- `JSMN_GetValueString`. -/
def jsmnGetValueString (js : Nat → UInt8) (item : Item) :
    Option (Option Nat × (Nat → UInt8)) := do
  let t ← p.tok item.t
  if t.type ≠ .string ∨ t.size ≠ 1 ∨ item.leftNum ≤ 0 then return (none, js)
  jsmnGetString len p js ⟨item.t + 1, item.index + 1, item.leftNum - 1⟩

/-- The value of a member of the object at token 0, and the frame it leaves. -/
def lookUp (ret : Int) (name : List UInt8) (js : Nat → UInt8) :
    Option (Option (List UInt8) × (Nat → UInt8)) := do
  match ← jsmnGetObjectItem js len p (jsmnItemInit 0 0 ret) name with
  | none => return (none, js)
  | some item =>
    let (start, js) ← jsmnGetValueString len p js item
    return (start.map fun i => cString js (len + 1 - i) i, js)

/-- Lookups one after the other in the same frame. -/
def lookUpAll (ret : Int) : List Member → (Nat → UInt8) → Option (List (Option (List UInt8)))
  | [], _ => some []
  | m :: asked, js => do
    let (text, js) ← lookUp len p ret m.name js
    let texts ← lookUpAll ret asked js
    return text :: texts

end Lookup

def memberList : List Member := [.deviceId, .portStatus, .errorCode, .timestamp]

/-- One object, with exactly the four members. -/
structure OneObject (js : Nat → UInt8) (len : Nat) (p : Parser) : Prop where
  root : (p.tokens 0).type = .object
  alone : ∀ i < p.toknext, 0 < i → 0 ≤ (p.tokens i).parent
  strings : ∀ k ∈ children p 0, (p.tokens k).type = .string ∧ (p.tokens k).size = 1
  names : (children p 0).map (fun k => frameSlice js len (p.tokens k).start (p.tokens k).stop) =
    memberList.map fun m => some m.name

/-- The frame is one object with the four members, and lookups in any order give
the fields, once escapes are undone. -/
def Decodes (js : Nat → UInt8) (len : Nat) (tk : Nat → Tok) (json : TxJson) : Prop :=
  ∃ ret p, Returns (fun fuel => jsmnParse js len 256 fuel (jsmnInit tk)) (ret, p) ∧ 0 ≤ ret ∧
    OneObject js len p ∧ ∀ asked : List Member, ∃ texts,
      lookUpAll len p ret asked js = some texts ∧
      texts.map (fun text => text.bind unescape) = asked.map fun m => some (json.field m).bytes

/-! ## The text -/

/-- The name and the value of a member. -/
abbrev Entry := List UInt8 × List UInt8

/-- A member as it is written. -/
def memberText (m : Entry) : List UInt8 :=
  (0x22 :: m.1 ++ [0x22]) ++ [0x3a, 0x20] ++ (0x22 :: m.2 ++ [0x22])

/-- Members with a comma behind each. -/
def lines (ms : List Entry) : List UInt8 :=
  ms.flatMap fun m => memberText m ++ [0x2c]

theorem lines_cons (m : Entry) (ms : List Entry) :
    lines (m :: ms) = memberText m ++ 0x2c :: lines ms := by
  rw [lines, List.flatMap_cons, List.append_assoc, lines]
  rfl

/-- What is behind a member: the others, each behind a comma, and the end. -/
def behind : List Entry → List UInt8
  | [] => [0x7d, 0x0a]
  | m :: after => 0x2c :: (memberText m ++ behind after)

def TxJson.members (json : TxJson) : List Entry :=
  memberList.map fun m => (m.name, (json.field m).bytes)

theorem usartNetJsonTx_eq (json : TxJson) :
    usartNetJsonTx json = 0x7b :: (memberText (Member.deviceId.name, json.deviceId.bytes) ++
      behind json.members.tail) := by
  have hopen : ascii "\x7b\"device_id\": \"" =
      0x7b :: ((0x22 :: ascii "device_id" ++ [0x22]) ++ [0x3a, 0x20] ++ [0x22]) := by decide
  have hport : ascii "\"port_status\": \"" =
      (0x22 :: ascii "port_status" ++ [0x22]) ++ [0x3a, 0x20] ++ [0x22] := by decide
  have herror : ascii "\"error_code\": \"" =
      (0x22 :: ascii "error_code" ++ [0x22]) ++ [0x3a, 0x20] ++ [0x22] := by decide
  have htime : ascii "\"timestamp\": \"" =
      (0x22 :: ascii "timestamp" ++ [0x22]) ++ [0x3a, 0x20] ++ [0x22] := by decide
  have hcomma : ascii "\"," = [0x22, 0x2c] := by decide
  have hend : ascii "\"\x7d\n" = [0x22, 0x7d, 0x0a] := by decide
  rw [usartNetJsonTx, hopen, hport, herror, htime, hcomma, hend]
  simp only [TxJson.members, memberList, List.map_cons, List.map_nil, List.tail_cons, behind,
    memberText, Member.name, TxJson.field, List.append_assoc, List.cons_append, List.nil_append]

/-- A member with a name that needs no escapes, and nothing that ends a string of the
program. -/
structure Named (m : Entry) : Prop where
  name : Plain m.1
  nul : 0 ∉ m.1
  valueNul : 0 ∉ m.2

theorem name_plain (m : Member) : Plain m.name ∧ 0 ∉ m.name := by
  cases m <;> decide

theorem members_named (json : TxJson) : ∀ m ∈ json.members, Named m := by
  intro m hm
  obtain ⟨member, _, rfl⟩ := List.mem_map.mp hm
  exact ⟨(name_plain member).1, (name_plain member).2, (json.field member).nul⟩

/-- The text from the first member on, around a member. -/
theorem text_split {m : Entry} {after : List Entry} :
    ∀ (before : List Entry) {first : Entry} {rest : List Entry},
      first :: rest = before ++ m :: after →
      memberText first ++ behind rest = lines before ++ (memberText m ++ behind after) := by
  intro before
  induction before with
  | nil =>
    intro first rest h
    cases h
    rfl
  | cons b before ih =>
    intro first rest h
    rw [List.cons_append, List.cons.injEq] at h
    obtain ⟨rfl, hrest⟩ := h
    cases rest with
    | nil => simp at hrest
    | cons r rest =>
      rw [behind, ih hrest, lines_cons, List.append_assoc, List.cons_append]

section Split

variable {json : TxJson} {before after : List Entry} {m : Entry}

theorem mem_members (json : TxJson) (m : Member) : (m.name, (json.field m).bytes) ∈ json.members :=
  List.mem_map.mpr ⟨m, by cases m <;> decide, rfl⟩

theorem members_length (json : TxJson) : json.members.length = 4 := rfl

theorem members_names (json : TxJson) : (json.members.map Prod.fst).Nodup := by
  have hnames : json.members.map Prod.fst = memberList.map Member.name := by
    rw [TxJson.members, List.map_map]
    rfl
  rw [hnames]
  decide

theorem usartNetJsonTx_no_nul (json : TxJson) : 0 ∉ usartNetJsonTx json := by
  simp only [usartNetJsonTx, List.mem_append, not_or]
  refine ⟨⟨⟨⟨⟨?_, json.deviceId.nul⟩, ?_⟩, ⟨?_, json.portStatus.nul⟩, ?_⟩,
    ⟨?_, json.errorCode.nul⟩, ?_⟩, ⟨?_, json.timestamp.nul⟩, ?_⟩
  all_goals decide

theorem members_count (hsplit : json.members = before ++ m :: after) :
    before.length + after.length + 1 = 4 := by
  have hlength := members_length json
  rw [hsplit, List.length_append, List.length_cons] at hlength
  omega

/-- The report around one of its members. -/
theorem usartNetJsonTx_split (hsplit : json.members = before ++ m :: after) :
    usartNetJsonTx json = 0x7b :: (lines before ++ (memberText m ++ behind after)) := by
  rw [usartNetJsonTx_eq, ← text_split before (show _ :: json.members.tail = _ from hsplit)]
  rfl

/-- Names before a member are others. -/
theorem names_before (hsplit : json.members = before ++ m :: after) :
    ∀ b ∈ before, b.1 ≠ m.1 := by
  have hnodup := members_names json
  rw [hsplit, List.map_append, List.map_cons, List.nodup_append] at hnodup
  intro b hb
  exact hnodup.2.2 b.1 (List.mem_map_of_mem hb) m.1 List.mem_cons_self

end Split

end StmGateway.Json.Report
