import StmGateway.Json.DealCmd
import StmGateway.Json.Parse

/-!
# Commands in well-formed frames

The lookup goes through the tokens of the whole text. It stops at the first key
of the outer object with the name: every other token has another parent.
-/
namespace StmGateway.Json.Lookup

open StmGateway.Lib StmGateway.Json.Jsmn StmGateway.Json.Grammar StmGateway.Json.Switch
open StmGateway.Json.Parse StmGateway.Json.DealCmd

variable {js : Nat → UInt8} {len : Nat} {p : Parser} {text : List UInt8}

theorem Carries.frameSlice {tok : Tok} (h : Carries js len tok text) :
    frameSlice js len tok.start tok.stop = some text := by
  obtain ⟨i, hstart, hstop, hread, hin⟩ := h
  rw [DealCmd.frameSlice, hstart, hstop, if_pos ⟨by omega, by omega, by omega⟩,
    show ((i + text.length : Nat) - (i : Int)).toNat = text.length by omega, Int.toNat_natCast,
    slice_of_readsAt hread]

/-- A key is compared as a whole. -/
theorem jsonTokenStreq_eq {tok : Tok} (h : DealCmd.frameSlice js len tok.start tok.stop = some text)
    (s : List UInt8) : jsonTokenStreq js len tok s = some (decide (text = s)) := by
  rw [jsonTokenStreq, h, Option.bind_eq_bind, Option.bind_some, Option.pure_def]
  congr 1
  rw [Bool.eq_iff_iff, Bool.and_eq_true, beq_iff_eq, decide_eq_true_iff]
  exact strncmpEq_iff

/-- The tokens under another one are passed over. -/
theorem findKey_skip {ob : Item} {string : List UInt8} (hob : ob.t = 0 ∧ ob.index = 0)
    {i stop : Nat} (hin : Inside p.tokens i (i + 1) stop) (hi : 0 < i) (hstop : stop ≤ p.toknext) :
    ∀ k m left, i < m → m + k = stop →
      findKey js len p ob string (k + left) m = findKey js len p ob string left stop := by
  intro k
  induction k with
  | zero =>
    intro m left _ hm
    rw [Nat.zero_add, ← hm, Nat.add_zero]
  | succ k ih =>
    intro m left him hm
    obtain ⟨_, hlow, _⟩ := hin m (by omega) (by omega)
    rw [show k + 1 + left = k + left + 1 by omega, findKey, hob.1, zero_add,
      tok_eq (by omega) (by omega), Option.bind_eq_bind, Option.bind_some, Int.toNat_natCast,
      if_neg fun h => by have hparent := h.2; omega]
    exact ih (m + 1) left (by omega) (by omega)

/-- At a member the lookup ends, or goes on behind its value. -/
theorem findKey_member {ob : Item} (name : List UInt8) (hob : ob.t = 0 ∧ ob.index = 0) {key : Key}
    {v : Value} {m : Nat} (hm : 0 < m) (hat : MemberAt js len p.tokens 0 key v m)
    (hroom : m + 1 + v.size ≤ p.toknext) (left : Nat) :
    findKey js len p ob name (1 + v.size + left) m =
      if raw key.name = name then some (some ⟨m, m, ob.leftNum - m⟩)
      else findKey js len p ob name left (m + 1 + v.size) := by
  rw [show 1 + v.size + left = v.size + left + 1 by omega, findKey, hob.1, zero_add,
    tok_eq (by omega) (by omega), Option.bind_eq_bind, Option.bind_some, Int.toNat_natCast,
    hob.2, if_pos ⟨hat.type, hat.parent⟩, jsonTokenStreq_eq (Carries.frameSlice hat.name),
    Option.bind_eq_bind, Option.bind_some, zero_add]
  simp only [decide_eq_true_iff]
  split
  · rfl
  · exact findKey_skip hob hat.inside hm hroom v.size (m + 1) left (by omega) (by omega)

/-- Where a key of the object is, and that its value stands behind it. -/
structure Finds (js : Nat → UInt8) (len : Nat) (p : Parser) (v : Value) (stop k : Nat) : Prop where
  before : k + 1 < stop
  type : (p.tokens k).type = .string
  size : (p.tokens k).size = 1
  value : Stands js len v (p.tokens (k + 1))

theorem MemberAt.finds {key : Key} {v : Value} {m n stop : Nat}
    (h : MemberAt js len p.tokens n key v m) (hstop : m + 1 + v.size ≤ stop) :
    Finds js len p v stop m := by
  have hpos := value_size_pos v
  exact ⟨by omega, h.type, h.size, h.value⟩

/-- The lookup finds the first member with the name. -/
theorem findKey_laid {ob : Item} {name : List UInt8} (hob : ob.t = 0 ∧ ob.index = 0) {v : Value} :
    ∀ (ms : Members) (m : Nat), 0 < m → Laid js len p.tokens 0 ms m → m + ms.size ≤ p.toknext →
      ms.first name = some v →
      ∃ k : Nat, findKey js len p ob name ms.size m = some (some ⟨k, k, ob.leftNum - k⟩) ∧
        Finds js len p v (m + ms.size) k
  | .one key w after, m, hm, hlaid, hroom, hfirst => by
    simp only [Members.size] at hroom ⊢
    have hstep := findKey_member name hob hm hlaid (by omega) 0
    simp only [Members.first] at hfirst
    split at hfirst
    · next heq =>
      cases hfirst
      rw [if_pos heq] at hstep
      exact ⟨m, hstep, MemberAt.finds hlaid (by omega)⟩
    · cases hfirst
  | .cons key w after rest, m, hm, hlaid, hroom, hfirst => by
    simp only [Members.size] at hroom ⊢
    have hstep := findKey_member name hob hm hlaid.1 (by omega) rest.size
    simp only [Members.first] at hfirst
    split at hfirst
    · next heq =>
      cases hfirst
      rw [if_pos heq] at hstep
      exact ⟨m, hstep, MemberAt.finds hlaid.1 (by omega)⟩
    · next hne =>
      rw [if_neg hne] at hstep
      obtain ⟨k, hfind, hfinds⟩ :=
        findKey_laid hob rest (m + 1 + w.size) (by omega) hlaid.2 (by omega) hfirst
      refine ⟨k, hstep.trans hfind, ?_⟩
      rw [show m + (1 + w.size + rest.size) = m + 1 + w.size + rest.size by omega]
      exact hfinds

/-- `json_age` after a text was fetched. -/
def fetched (text : List UInt8) (buf : Nat → UInt8) : Nat → UInt8 :=
  fun j => (text.take 63).getD j (if j < 64 then 0 else buf j)

theorem copyText_zeros (buf : Nat → UInt8) :
    copyText buf (List.replicate jsonAgeSize 0) = some fun j => if j < 64 then 0 else buf j := by
  rw [copyText, if_pos (by simp)]
  congr 1
  funext j
  unfold jsonAgeSize
  rw [List.getD_eq_getElem?_getD, List.getElem?_replicate]
  split <;> rfl

/-- The text of the token is cut to the buffer. -/
theorem jsmnGetStringBuffered_leaf {item : Item} {tok : Tok} (htok : p.tok item.t = some tok)
    (htype : tok.type = .string ∨ tok.type = .primitive)
    (htext : frameSlice js len tok.start tok.stop = some text) (buf : Nat → UInt8) :
    jsmnGetStringBuffered js len p item buf jsonAgeSize =
      some (((text.take 63).length : Int), fetched text buf) := by
  have hcut : (if jsonAgeSize ≤ text.length then jsonAgeSize - 1 else text.length) =
      (text.take 63).length := by
    rw [List.length_take]
    unfold jsonAgeSize
    split <;> omega
  have hfits : (text.take 63).length ≤ jsonAgeSize := by
    rw [List.length_take]
    unfold jsonAgeSize
    omega
  have htake : text.take (text.take 63).length = text.take 63 := by simp
  unfold jsmnGetStringBuffered
  rw [copyText_zeros, Option.bind_eq_bind, Option.bind_some]
  simp only [htok, htext, hcut, htake, copyText, if_pos hfits, Option.bind_eq_bind, Option.bind_some,
    Option.pure_def]
  rw [if_neg (by decide), if_neg fun h => htype.elim h.1 h.2]
  rfl

/-- The token of a container leaves it empty. -/
theorem jsmnGetStringBuffered_container {item : Item} {tok : Tok} (htok : p.tok item.t = some tok)
    (htype : tok.type ≠ .string ∧ tok.type ≠ .primitive) (buf : Nat → UInt8) :
    jsmnGetStringBuffered js len p item buf jsonAgeSize = some (-1, fetched [] buf) := by
  unfold jsmnGetStringBuffered
  rw [copyText_zeros, Option.bind_eq_bind, Option.bind_some]
  simp only [htok, Option.bind_eq_bind, Option.bind_some, Option.pure_def]
  rw [if_neg (by decide), if_pos htype]
  rfl

/-- What is printed of it. -/
theorem cString_fetched (hnul : 0 ∉ text) (buf : Nat → UInt8) :
    cString (fetched text buf) jsonAgeSize 0 = text.take 63 := by
  have hlen : (text.take 63).length ≤ 63 := by
    rw [List.length_take]
    omega
  apply cString_eq
  · exact fun h => hnul (List.mem_of_mem_take h)
  · unfold jsonAgeSize
    omega
  · intro j hj
    rw [zero_add, fetched, List.getD_eq_getElem?_getD, List.getElem?_eq_getElem hj]
    rfl
  · rw [zero_add, fetched, List.getD_eq_getElem?_getD, List.getElem?_eq_none le_rfl]
    exact if_pos (by omega)

/-- The item of the token `k` in a text of `count` tokens. -/
def itemAt (count k : Nat) : Item := ⟨k, k, (count : Int) - 1 - k⟩

/-- The line of a key with one value. -/
theorem valueLine_eq {count k : Nat} {text : List UInt8} {buf : Nat → UInt8} {r : Int}
    (hnext : p.toknext = count) (hk : k + 1 < count) (htype : (p.tokens k).type = .string)
    (hsize : (p.tokens k).size = 1) (hnul : 0 ∉ text) (label : String)
    (hget : jsmnGetStringBuffered js len p ⟨(k : Int) + 1, (k : Int) + 1, (count : Int) - 1 - k - 1⟩
      buf jsonAgeSize = some (r, fetched text buf)) :
    valueLine js len p (itemAt count k) label buf =
      some (.print (ascii label ++ text.take 63 ++ ascii "\n"), fetched text buf) := by
  have htok : p.tok (k : Int) = some (p.tokens k) := tok_eq (by omega) (by omega)
  have hvalue : jsmnGetValueStringBuffered js len p (itemAt count k) buf jsonAgeSize =
      some (r, fetched text buf) := by
    unfold jsmnGetValueStringBuffered
    rw [if_neg (by decide)]
    simp only [itemAt, htok, Option.bind_eq_bind, Option.bind_some, htype, hsize, ne_eq,
      not_true_eq_false, false_or]
    rw [if_neg (by omega)]
    exact hget
  rw [valueLine, hvalue, Option.bind_eq_bind, Option.bind_some]
  simp only [cString_fetched hnul, Option.pure_def]

/-- Behind a text whose tokens are all closed the parser returns their number. -/
theorem parseLoop_end {numTokens : Nat} (hpos : p.pos = len)
    (hclosed : ∀ j < p.toknext, (p.tokens j).stop ≠ -1) :
    Returns (fun fuel => parseLoop js len numTokens fuel p) (p.count, p) := by
  refine ⟨1, fun fuel hle => ?_⟩
  obtain ⟨k, rfl⟩ : ∃ k, fuel = k + 1 := ⟨fuel - 1, by omega⟩
  change parseLoop js len numTokens (k + 1) p = _
  have hnone : ((List.range p.toknext).any fun i =>
      decide ((p.tokens i).start ≠ -1 ∧ (p.tokens i).stop = -1)) = false := by
    rw [List.any_eq_false]
    intro i hi
    rw [decide_eq_true_iff]
    exact fun h => hclosed i (List.mem_range.mp hi) h.2
  rw [parseLoop, if_neg fun h => by have hlt := h.1; omega, hnone]
  rfl

/-- The frame of an object, with white space around it. -/
def frame (before : Space) (ms : Members) (after : Space) : List UInt8 :=
  before.text ++ (Value.object ms).bytes ++ after.text

theorem frame_no_nul (before after : Space) (ms : Members) : 0 ∉ frame before ms after := by
  simp only [frame, List.mem_append, not_or]
  exact ⟨⟨before.no_nul, Value.no_nul _⟩, after.no_nul⟩

theorem jsmnParse_frame (tk : Nat → Tok) {before after : Space} {ms : Members}
    (hread : ReadsAt js 0 (frame before ms after)) (hlen : (frame before ms after).length = len)
    (hroom : (Value.object ms).size ≤ 256) :
    ∃ p, Returns (fun fuel => jsmnParse js len 256 fuel (jsmnInit tk))
        ((Value.object ms).size, p) ∧
      p.toknext = (Value.object ms).size ∧ (p.tokens 0).type = .object ∧
      Laid js len p.tokens 0 ms 1 := by
  rw [frame, readsAt_append, readsAt_append] at hread
  obtain ⟨⟨hbefore, hobject⟩, hafter⟩ := hread
  rw [frame, List.length_append, List.length_append] at hlen
  rw [List.length_append] at hafter
  have hfirst := @space_steps js len 256 (jsmnInit tk) _ before.blank hbefore
    (by simp only [jsmnInit]; omega)
  obtain ⟨p, hsteps, hplaced, htype, hlaid⟩ := @object_steps
    { jsmnInit tk with pos := 0 + before.text.length } js len 256 ms (members_fill js len 256 ms)
    hobject (by simp only; omega) (by simp only [jsmnInit]; omega) (by simp [jsmnInit])
    (by simp [jsmnInit])
  have hpos := hplaced.pos
  have hnext := hplaced.next
  have hcount := hplaced.count
  simp only [jsmnInit, Nat.zero_add] at hpos hnext hcount htype hlaid
  have hlast := @space_steps js len 256 p _ after.blank
    (by rw [hpos]; rwa [Nat.zero_add] at hafter) (by omega)
  refine ⟨{ p with pos := p.pos + after.text.length }, ?_, hnext, htype, hlaid⟩
  have hend := @parseLoop_end js len { p with pos := p.pos + after.text.length } 256
    (by simp only; omega) (fun j hj => by
      rcases Nat.eq_zero_or_pos j with rfl | hj0
      · exact hplaced.closed
      · exact (hplaced.inside j (by simp only [jsmnInit]; omega) hj).1)
  have hparse := parseLoop_steps ((hfirst.trans hsteps).trans hlast) hend
  rw [← hcount]
  exact hparse

theorem members_size_pos (ms : Members) : 0 < ms.size := by
  cases ms <;> simp only [Members.size] <;> omega

/-- A key of the outer object, its item and its line. -/
theorem key_line {ms : Members} {name : String} {text : List UInt8}
    (hnext : p.toknext = (Value.object ms).size) (htype : (p.tokens 0).type = .object)
    (hlaid : Laid js len p.tokens 0 ms 1)
    (hfirst : (ms.first (ascii name)).bind Value.raw = some text) (hnul : 0 ∉ text) :
    ∃ item, jsmnGetObjectItem js len p (jsmnItemInit 0 0 (Value.object ms).size) (ascii name) =
        some (some item) ∧
      ∀ label buf, valueLine js len p item label buf =
        some (.print (ascii label ++ text.take 63 ++ ascii "\n"), fetched text buf) := by
  obtain ⟨v, hv, hraw⟩ := Option.bind_eq_some_iff.mp hfirst
  have hsize : (Value.object ms).size = 1 + ms.size := by simp only [Value.size]
  have hpos := members_size_pos ms
  obtain ⟨k, hfind, hk⟩ := @findKey_laid js len p (jsmnItemInit 0 0 (Value.object ms).size)
    (ascii name) ⟨rfl, rfl⟩ v ms 1 Nat.one_pos hlaid (by omega) hv
  refine ⟨itemAt (Value.object ms).size k, ?_, fun label buf => ?_⟩
  · have hroot : p.tok 0 = some (p.tokens 0) := tok_eq (by omega) (by omega)
    unfold jsmnGetObjectItem objectOf
    simp only [jsmnItemInit, hroot, htype, Option.bind_eq_bind, Option.bind_some, ↓reduceIte,
      Option.pure_def]
    rw [if_neg (by omega)]
    rw [show ((Value.object ms).size - 0 - 1 : Int).toNat = ms.size by omega]
    simp only [jsmnItemInit] at hfind
    rw [hfind, itemAt, sub_zero]
  · obtain ⟨hleaf, hcarries⟩ := hk.value text hraw
    have hvalue : p.tok ((k : Int) + 1) = some (p.tokens (k + 1)) :=
      tok_eq (i := (k : Int) + 1) (by omega) (by have := hk.before; omega)
    exact valueLine_eq hnext (by have := hk.before; omega) hk.type hk.size hnul label
      (jsmnGetStringBuffered_leaf hvalue hleaf (Carries.frameSlice hcarries) buf)

theorem value_raw_no_nul {v : Value} (h : v.raw = some text) : 0 ∉ text := by
  cases v with
  | string pieces =>
    cases h
    exact raw_no_nul pieces
  | primitive prim =>
    cases h
    exact prim.no_nul
  | _ => cases h

/-- No text of an object is the message about the lost connection. -/
theorem frame_not_sent_err (before after : Space) (ms : Members) (n : Nat) :
    strncmpEq (frame before ms after) (ascii "U2E SENT ERR") (n + 1) = false := by
  obtain ⟨b, rest, heq, hb⟩ : ∃ b rest, frame before ms after = b :: rest ∧ b ≠ 0x55 := by
    rw [frame, List.append_assoc]
    obtain ⟨text, blank⟩ := before
    cases text with
    | nil => exact ⟨0x7b, _, rfl, by decide⟩
    | cons b text =>
      refine ⟨b, _, rfl, ?_⟩
      rcases blank b List.mem_cons_self with rfl | rfl | rfl | rfl <;> decide
  have hmessage : ascii "U2E SENT ERR" = 0x55 :: ascii "2E SENT ERR" := rfl
  rw [heq, hmessage, strncmpEq, beq_false_of_ne hb, Bool.false_and]

/-- A well-formed frame prints the first values of its three keys. -/
theorem jsonDealCmd_lines (tk : Nat → Tok) (jsonAge : Nat → UInt8) {before after : Space}
    {ms : Members} {age email name : List UInt8} (hread : ReadsAt js 0 (frame before ms after))
    (hend : js (frame before ms after).length = 0) (hsize : (Value.object ms).size ≤ 256)
    (hage : (ms.first (ascii "age")).bind Value.raw = some age)
    (hemail : (ms.first (ascii "email")).bind Value.raw = some email)
    (hname : (ms.first (ascii "name")).bind Value.raw = some name) :
    Returns (jsonDealCmd js tk jsonAge)
      (1, [.print (ascii "age:" ++ age.take 63 ++ ascii "\n"),
        .print (ascii "email:" ++ email.take 63 ++ ascii "\n"),
        .print (ascii "name:" ++ name.take 63 ++ ascii "\n")]) := by
  have hnul : ∀ {key : List UInt8} {text : List UInt8},
      (ms.first key).bind Value.raw = some text → 0 ∉ text := fun h => by
    obtain ⟨v, _, hraw⟩ := Option.bind_eq_some_iff.mp h
    exact value_raw_no_nul hraw
  obtain ⟨p, ⟨bound, hparse⟩, hnext, htype, hlaid⟩ := jsmnParse_frame tk hread rfl hsize
  obtain ⟨itemAge, hfindAge, hlineAge⟩ := key_line hnext htype hlaid hage (hnul hage)
  obtain ⟨itemEmail, hfindEmail, hlineEmail⟩ := key_line hnext htype hlaid hemail (hnul hemail)
  obtain ⟨itemName, hfindName, hlineName⟩ := key_line hnext htype hlaid hname (hnul hname)
  refine ⟨max ((frame before ms after).length + 1) bound, fun fuel hle => ?_⟩
  have hscan : scanNul js fuel 0 = some (frame before ms after).length := by
    refine scanNul_start hend (fun j hj hzero => ?_) (by omega)
    have hget := hread j hj
    rw [zero_add, hzero] at hget
    exact frame_no_nul before after ms (List.mem_of_getElem? hget)
  have hrun : jsmnParse js (frame before ms after).length 256 fuel (jsmnInit tk) =
      some (((Value.object ms).size : Int), p) := hparse fuel (by omega)
  have hpos := value_size_pos (Value.object ms)
  have hroot : p.tok 0 = some (p.tokens 0) := tok_eq le_rfl (by omega)
  unfold jsonDealCmd
  rw [hscan, Option.bind_eq_bind, Option.bind_some, slice_of_readsAt hread, frame_not_sent_err,
    if_neg fun h => Bool.false_ne_true h.2, hrun]
  simp only [Option.bind_eq_bind, Option.bind_some]
  rw [if_neg (by omega), if_neg (by omega), hroot, Option.bind_some, if_neg (not_not.mpr htype),
    dealItems, hfindAge, Option.bind_eq_bind, Option.bind_some]
  simp only [hfindEmail, hfindName, hlineAge, hlineEmail, hlineName, Option.bind_eq_bind,
    Option.bind_some, Option.pure_def]

/-- Members in another order, a nested key of the same name and a value equal to one. -/
def sample : Members :=
  let none : Space := ⟨[], nofun⟩
  let key (b : UInt8) (h : 0x20 ≤ b ∧ b ≠ 0x22 ∧ b ≠ 0x5c) : Piece := .plain b h.1 h.2.1 h.2.2
  let a := key 0x61 (by decide)
  let g := key 0x67 (by decide)
  let e := key 0x65 (by decide)
  let m := key 0x6d (by decide)
  let i := key 0x69 (by decide)
  let l := key 0x6c (by decide)
  let n := key 0x6e (by decide)
  .cons ⟨none, [n, a, m, e], none, none⟩ (.string [a, g, e]) none
    (.cons ⟨none, [l], none, none⟩
      (.object (.one ⟨none, [a, g, e], none, none⟩ (.string [n]) none)) none
      (.cons ⟨⟨[0x20], by simp [Blank]⟩, [a, g, e], none, none⟩
        (.primitive ⟨[0x34, 0x32], by decide, by simp [Word]⟩) none
        (.one ⟨none, [e, m, a, i, l], none, none⟩ (.string []) none)))

def sampleFrame : List UInt8 :=
  ascii "\x7b\"name\":\"age\",\"l\":\x7b\"age\":\"n\"\x7d, \"age\":42,\"email\":\"\"\x7d"

theorem jsonDealCmd_lines_sample :
    Returns (jsonDealCmd (fun i => sampleFrame.getD i 0) (fun _ => ⟨.undefined, 0, 0, 0, 0⟩)
        fun _ => 0xff)
      (1, [.print (ascii "age:42\n"), .print (ascii "email:\n"), .print (ascii "name:age\n")]) := by
  have hframe : frame ⟨[], nofun⟩ sample ⟨[], nofun⟩ = sampleFrame := by decide
  have hread : ReadsAt (fun i => sampleFrame.getD i 0) 0 (frame ⟨[], nofun⟩ sample ⟨[], nofun⟩) := by
    rw [hframe]
    exact readsAt_getD sampleFrame
  exact @jsonDealCmd_lines _ _ _ _ _ _ [0x34, 0x32] [] [0x61, 0x67, 0x65] hread
    (by rw [hframe]; decide) (by decide) (by decide) (by decide) (by decide)

end StmGateway.Json.Lookup
