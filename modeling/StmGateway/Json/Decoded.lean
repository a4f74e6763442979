import StmGateway.At.Render
import StmGateway.Json.Members
import StmGateway.Uart.Machine

/-!
# What a status report decodes to

The parser reaches each value whose fields before are plain. There it either
takes the field, or something that does not mean the field.
-/
namespace StmGateway.Json.Decoded

open StmGateway.Lib StmGateway.Json.Jsmn StmGateway.Json.Switch StmGateway.Json.Tree
open StmGateway.Json.DealCmd StmGateway.Json.Safety StmGateway.Json.Escape StmGateway.Json.Kept
open StmGateway.Json.Report StmGateway.Json.Members
open StmGateway.Json.Parse (leaf Placed bracket_steps)
open StmGateway.At.Render (rtSprintf rtSprintf_stores)
open StmGateway.Uart.Machine (atkIde01UartTxBufSize rtStrlen)

/-! ## Up to a value -/

section Reached

variable {js : Nat → UInt8} {len : Nat} {before after : List Entry}
  {m : Entry}

/-- The parser at the quote that opens the value of a member. -/
structure AtValue (js : Nat → UInt8) (len : Nat) (before : List Entry)
    (m : Entry) (p : Parser) : Prop where
  quote : js p.pos = 0x22
  next : p.toknext = 2 + 2 * before.length
  root : (p.tokens 0).type = .object
  laid : Laid js len p before 1
  name : Names js len p m.1 (1 + 2 * before.length)

/-- The parser as `jsmn_parse` starts. -/
def begun (tk : Nat → Tok) : Parser := { jsmnInit tk with count := (jsmnInit tk).toknext }

/-- Members without escapes bring the parser to the value of the next one. -/
theorem value_reached (tk : Nat → Tok) (hbefore : ∀ b ∈ before, Named b ∧ Plain b.2)
    (hm : Named m) (hroom : 2 + 2 * before.length ≤ 256)
    (hread : ReadsAt js 0 (0x7b :: (lines before ++ (memberText m ++ behind after))))
    (hlen : (0x7b :: (lines before ++ (memberText m ++ behind after))).length = len) :
    ∃ p, Steps js len 256 (begun tk) p ∧ AtValue js len before m p ∧
      ReadsAt js (p.pos + 1) (m.2 ++ 0x22 :: behind after) ∧
      p.pos + 1 + (m.2 ++ 0x22 :: behind after).length = len := by
  have hmember : memberText m ++ behind after =
      (0x22 :: m.1 ++ [0x22]) ++ [0x3a, 0x20] ++ 0x22 :: (m.2 ++ 0x22 :: behind after) := by
    simp only [memberText, List.append_assoc, List.cons_append, List.nil_append]
  rw [hmember] at hread hlen
  rw [readsAt_cons, readsAt_append, readsAt_append, readsAt_cons] at hread
  obtain ⟨hopen, hlines, hname, hquote, hvalue⟩ := hread
  have hfront : ((0x22 :: m.1 ++ [0x22]) ++ [0x3a, 0x20]).length = m.1.length + 4 := by
    simp only [List.length_append, List.length_cons, List.length_nil]
  rw [hfront] at hquote hvalue
  rw [List.length_cons, List.length_append, List.length_append, hfront, List.length_cons] at hlen
  obtain ⟨p₀, hstep₀, hext₀, hpos₀, hsuper₀⟩ := @advance_open js len 256 (begun tk) .object
    (by simp only [begun, jsmnInit]; omega) (.inl ⟨hopen, rfl⟩) (by simp [begun, jsmnInit]) le_rfl
    (show (-1 : Int) < 0 by decide)
  have hnext₀ := hext₀.next
  simp only [begun, jsmnInit, Nat.zero_add] at hpos₀ hnext₀ hsuper₀
  obtain ⟨p₁, hsteps₁, hpos₁, hsuper₁, hfilled₁, hlaid₁, _⟩ := @lines_steps js len 256 p₀ before
    hbefore (by rw [hpos₀]; exact hlines) (by omega) (by omega) hsuper₀ (by omega)
  have hnext₁ := hfilled₁.next
  rw [hnext₀] at hlaid₁
  rw [hpos₀] at hpos₁
  rw [Nat.zero_add, ← hpos₁] at hname hquote hvalue
  obtain ⟨p₂, hsteps₂, hpos₂, _, hext₂, hspans₂⟩ := @name_steps js len 256 p₁ m.1 hm.name hm.nul
    hname (by omega) (by omega) (by omega) (by omega)
  have hkeeps := keeps_extends hext₂
  rw [← Nat.add_assoc, ← hpos₂] at hquote hvalue
  have hk : p₁.toknext = 1 + 2 * before.length := by omega
  have htok : p₂.tokens (1 + 2 * before.length) = leaf .string (p₁.pos + 1) m.1 0 := by
    rw [← hk, hext₂.token, hsuper₁]
  refine ⟨p₂, (hstep₀.steps.trans hsteps₁).trans hsteps₂,
    ⟨hquote, by rw [hext₂.next]; omega, ?_, hlaid₁.keeps hkeeps (by omega), ?_, ?_, ?_⟩, hvalue,
    by omega⟩
  · obtain ⟨_, hself⟩ := hfilled₁.self
    rw [(hkeeps.tok 0 (by omega)).type, hself]
    exact congrArg Tok.type hext₀.token
  · rw [htok, leaf]
  · rw [htok, leaf]
  · rw [htok]
    exact Lookup.Carries.frameSlice ⟨_, rfl, rfl, hspans₂⟩

/-- From there a parse that returns a number has taken some text for the value. -/
theorem value_scanned {tk : Nat → Tok} {p q : Parser} {ret : Int}
    (hsteps : Steps js len 256 (begun tk) p) (hat : AtValue js len before m p)
    (hlen : p.pos < len)
    (hparse : Returns (fun fuel => jsmnParse js len 256 fuel (jsmnInit tk)) (ret, q))
    (hret : 0 ≤ ret) :
    ∃ stop : Nat, p.pos + 1 ≤ stop ∧ stop < len ∧ js stop = 0x22 ∧
      Scans (slice js (p.pos + 1) (stop - (p.pos + 1))) ∧ Sound len 256 q ∧ ret = q.toknext ∧
      Keeps (added p .string (p.pos + 1) stop stop) q := by
  have hsound : Sound len 256 p := steps_sound hsteps (init_sound len 256 tk)
  obtain ⟨r, q', hloop, hend⟩ :=
    parseLoop_total js (len - p.pos + (len + 256) + 2) hsound (Nat.lt_succ_self _)
  have hreturns := parseLoop_steps hsteps ((parseLoop_settles p).returns hloop)
  cases hparse.unique hreturns
  obtain ⟨stop, hle, hlt, hquote, hscans, hkeeps⟩ :=
    parseLoop_string hsound hlen hat.quote hloop hret
  obtain ⟨hq, hr⟩ := hend hret
  exact ⟨stop, hle, hlt, hquote, hscans, hq, hr, hkeeps⟩

/-- What the parser had up to the value is still there after the parse, and the
value's token is the text taken for it. -/
theorem value_kept (hsound : Sound len 256 p) (hat : AtValue js len before m p) {q : Parser}
    {stop : Nat} (hle : p.pos + 1 ≤ stop) (hlt : stop < len)
    (hkeeps : Keeps (added p .string (p.pos + 1) stop stop) q) :
    Laid js len q before 1 ∧ Names js len q m.1 (1 + 2 * before.length) ∧
      (q.tokens (1 + 2 * before.length + 1)).type = .string ∧
      frameSlice js len (q.tokens (1 + 2 * before.length + 1)).start
        (q.tokens (1 + 2 * before.length + 1)).stop =
        some (slice js (p.pos + 1) (stop - (p.pos + 1))) := by
  have hext := added_extends hsound.super .string ((p.pos : Int) + 1) stop stop
  have hkept := (keeps_extends hext).trans hkeeps
  have hnext := hat.next
  have hnext' := hext.next
  have htok := hkeeps.tok p.toknext (by omega)
  rw [hext.token, hnext, show 2 + 2 * before.length = 1 + 2 * before.length + 1 by omega] at htok
  refine ⟨hat.laid.keeps hkept (by omega), Names.keeps hat.name hkept (by omega), htok.type, ?_⟩
  have hstart : (q.tokens (1 + 2 * before.length + 1)).start = (p.pos : Int) + 1 := htok.start
  have hstop : (q.tokens (1 + 2 * before.length + 1)).stop = (stop : Int) :=
    htok.stop (by simp only; omega)
  rw [hstart, hstop, frameSlice, if_pos ⟨by omega, by omega, by omega⟩]
  congr 2
  omega

theorem follows_behind (after : List Entry) : Follows (behind after) := by
  cases after with
  | nil => exact .inr (by decide)
  | cons m after => exact .inl ⟨_, rfl⟩

/-- The text taken for the value, and what is behind its closing quote. -/
theorem scanned_split {pos stop : Nat} {field rest : List UInt8} (hle : pos ≤ stop)
    (hlt : stop < len) (hquote : js stop = 0x22) (hread : ReadsAt js pos (field ++ 0x22 :: rest))
    (hlen : pos + (field ++ 0x22 :: rest).length = len) :
    slice js pos (stop - pos) ++ 0x22 :: slice js (stop + 1) (len - (stop + 1)) =
      field ++ 0x22 :: rest := by
  have htail : slice js stop (len - stop) = 0x22 :: slice js (stop + 1) (len - (stop + 1)) := by
    rw [show len - stop = len - (stop + 1) + 1 by omega, slice_succ, hquote]
  have hlength : (field ++ 0x22 :: rest).length = stop - pos + (len - stop) := by omega
  rw [← htail, ← slice_of_readsAt hread, hlength, slice_append,
    show pos + (stop - pos) = stop by omega]

end Reached

/-! ## The fields that survive -/

section Survive

variable {js : Nat → UInt8} {len : Nat} {tk : Nat → Tok} {json : TxJson}

/-- The frame with the report in it. -/
structure Sent (js : Nat → UInt8) (len : Nat) (json : TxJson) : Prop where
  read : ReadsAt js 0 (usartNetJsonTx json)
  length : (usartNetJsonTx json).length = len
  nul : js len = 0

theorem Sent.frame (h : Sent js len json) : FrameAt js len := by
  refine ⟨h.nul, fun i hi hzero => ?_⟩
  have hget := h.read i (by rw [h.length]; exact hi)
  rw [Nat.zero_add, hzero] at hget
  exact usartNetJsonTx_no_nul json (List.mem_of_getElem? hget)

/-- The first field that is not plain does not come back. -/
theorem field_plain (hsent : Sent js len json) (hdecodes : Decodes js len tk json)
    {before after : List Entry} {m : Entry}
    (hsplit : json.members = before ++ m :: after) (hbefore : ∀ b ∈ before, Plain b.2) :
    Plain m.2 := by
  have htext := usartNetJsonTx_split hsplit
  have hread := hsent.read
  have hlen := hsent.length
  rw [htext] at hread hlen
  have hnamed := members_named json
  rw [hsplit] at hnamed
  have hcount := members_count hsplit
  obtain ⟨p, hsteps, hat, hvalue, hend⟩ := @value_reached js len before after m tk
    (fun b hb => ⟨hnamed b (List.mem_append_left _ hb), hbefore b hb⟩)
    (hnamed m (by simp)) (by omega) hread hlen
  obtain ⟨ret, q, hparse, hret, hobject, hasked⟩ := hdecodes
  rw [List.length_append, List.length_cons] at hend
  obtain ⟨stop, hle, hlt, hquote, hscans, hsound, hcountq, hkeeps⟩ :=
    value_scanned hsteps hat (by omega) hparse hret
  have hinit : Sound len 256 (begun tk) := init_sound len 256 tk
  obtain ⟨hlaid, hname, htype, htaken⟩ :=
    value_kept (steps_sound hsteps hinit) hat hle hlt hkeeps
  have hroom : 1 + 2 * before.length + 1 < q.toknext := by
    have hnext := hat.next
    have hadded : (added p .string (p.pos + 1) stop stop).toknext = p.toknext + 1 := rfl
    have hkept := hkeeps.next
    omega
  have hmem : m ∈ json.members := by
    rw [hsplit]
    exact List.mem_append_right _ List.mem_cons_self
  obtain ⟨member, _, rfl⟩ := List.mem_map.mp hmem
  have hlook := lookUp_value hsound hobject.root hroom
    (firstName_of_laid hlaid hname (names_before hsplit)) htype htaken
    (Values.frameSlice_no_nul hsent.frame htaken)
  obtain ⟨texts, hall, htexts⟩ := hasked [member]
  rw [hcountq, lookUpAll, hlook, Option.bind_eq_bind, Option.bind_some] at hall
  have hundone : unescape (slice js (p.pos + 1) (stop - (p.pos + 1))) =
      some (json.field member).bytes := by
    by_cases hsize : (q.tokens (1 + 2 * before.length)).size = 1
    · rw [if_pos hsize] at hall
      have hone : [some (slice js (p.pos + 1) (stop - (p.pos + 1)))] = texts := Option.some.inj hall
      rw [← hone] at htexts
      exact (List.cons.inj htexts).1
    · rw [if_neg hsize] at hall
      have hone : [none] = texts := Option.some.inj hall
      rw [← hone] at htexts
      cases htexts
  exact hscans.plain_of_unescape hundone (follows_behind after)
    (scanned_split hle hlt hquote hvalue (by rw [List.length_append, List.length_cons]; exact hend))

theorem forall_of_first {α : Type*} {P : α → Prop} {l : List α}
    (h : ∀ before m after, l = before ++ m :: after → (∀ b ∈ before, P b) → P m) :
    ∀ m ∈ l, P m := by
  suffices hprefix : ∀ before after, l = before ++ after → ∀ b ∈ before, P b from
    hprefix l [] (List.append_nil l).symm
  intro before
  induction before using List.reverseRecOn with
  | nil =>
    intro after _
    exact List.forall_mem_nil _
  | append_singleton before m ih =>
    intro after hsplit
    rw [List.append_assoc, List.singleton_append] at hsplit
    have hbefore := ih (m :: after) hsplit
    intro b hb
    rcases List.mem_append.mp hb with hin | hlast
    · exact hbefore b hin
    · obtain rfl := List.mem_singleton.mp hlast
      exact h before b after hsplit hbefore

theorem fields_plain (hsent : Sent js len json) (hdecodes : Decodes js len tk json) (m : Member) :
    Plain (json.field m).bytes := by
  have hall : ∀ m ∈ json.members, Plain m.2 :=
    forall_of_first fun before m after hsplit hbefore =>
      field_plain hsent hdecodes hsplit hbefore
  exact hall _ (mem_members json m)

end Survive

/-! ## Plain fields -/

section Plain

variable {js : Nat → UInt8} {len : Nat} {tk : Nat → Tok} {json : TxJson} {p : Parser}

/-- All members have their tokens. -/
structure Complete (js : Nat → UInt8) (len : Nat) (json : TxJson) (p : Parser) : Prop where
  laid : Laid js len p json.members 1
  quoted : ∀ i < 4, Quoted js p (1 + 2 * i)

theorem Complete.congr {q : Parser} (h : Complete js len json p)
    (hsame : ∀ j, 0 < j → q.tokens j = p.tokens j) : Complete js len json q := by
  refine ⟨fun i m hi => ?_, fun i hi => ?_⟩
  · exact (h.laid i m hi).congr (hsame _ (by omega)) (hsame _ (by omega))
  · exact (h.quoted i hi).congr (hsame _ (by omega)) (hsame _ (by omega))

/-- What the parser makes of a report of plain fields. -/
structure Parsed (js : Nat → UInt8) (len : Nat) (json : TxJson) (p : Parser) : Prop where
  next : p.toknext = 9
  sound : Sound len 256 p
  root : (p.tokens 0).type = .object
  top : (p.tokens 0).parent = -1
  complete : Complete js len json p

/-- The object, up to the line feed behind it. -/
theorem report_steps (tk : Nat → Tok) (hsent : Sent js len json)
    (hplain : ∀ m, Plain (json.field m).bytes) :
    ∃ p, Steps js len 256 (begun tk) p ∧ Placed 9 (len - 1) (begun tk) p ∧
      (p.tokens 0).type = .object ∧ Complete js len json p ∧ p.pos + 1 = len ∧ js p.pos = 0x0a := by
  have hgood : ∀ m ∈ json.members, Named m ∧ Plain m.2 := by
    intro m hm
    refine ⟨members_named json m hm, ?_⟩
    obtain ⟨member, _, rfl⟩ := List.mem_map.mp hm
    exact hplain member
  obtain ⟨before, m, hsplit, hcount⟩ : ∃ before m, json.members = before ++ [m] ∧
      before.length = 3 := ⟨json.members.take 3, _, rfl, rfl⟩
  rw [hsplit] at hgood
  obtain ⟨hm, hvalue⟩ := hgood m (by simp)
  have hread := hsent.read
  have hlen := hsent.length
  have htext : usartNetJsonTx json =
      (0x7b :: (lines before ++ memberText m) ++ [0x7d]) ++ [0x0a] := by
    rw [usartNetJsonTx_split hsplit, behind]
    simp only [List.append_assoc, List.cons_append, List.nil_append]
  rw [htext, readsAt_append] at hread
  rw [htext, List.length_append, List.length_singleton] at hlen
  have hbody := hread.1
  rw [List.cons_append, readsAt_cons, readsAt_append] at hbody
  have hinner := hbody.2.1
  obtain ⟨p, hsteps, hplaced, htype, hcomplete⟩ := @bracket_steps (begun tk) 8 js len 256 .object
    0x7b 0x7d (lines before ++ memberText m) (.inl ⟨rfl, rfl, rfl⟩)
    (fun tokens => ∀ q : Parser, q.tokens = tokens → Complete js len json q)
    (fun tokens tokens' hsame h q hq => (h { q with tokens := tokens } rfl).congr fun j hj => by
      rw [hq]
      exact hsame j hj)
    (fun p₁ hpos hsuper hnext _ => by
      have hpos : p₁.pos = 1 := hpos
      have hnext : p₁.toknext = 1 := hnext
      simp only [List.length_append, List.length_cons, List.length_nil] at hlen
      obtain ⟨p₂, hsteps₂, hpos₂, hfilled₂, hlaid₂, hquoted₂⟩ := @members_steps js len 256 p₁ m
        before (fun b hb => hgood b (List.mem_append_left _ hb)) hm hvalue
        (by rw [hpos]; exact hinner) (by rw [List.length_append]; omega) (by omega) hsuper
        (by omega)
      rw [hcount] at hfilled₂ hquoted₂
      rw [hnext] at hlaid₂ hquoted₂
      refine ⟨p₂, hsteps₂, by rw [hpos₂, hpos]; rfl, hfilled₂, fun q hq => ?_⟩
      have hcomplete : Complete js len json p₂ := ⟨by rw [hsplit]; exact hlaid₂, hquoted₂⟩
      exact hcomplete.congr fun j _ => by rw [hq])
    hread.1 (by simp only [begun, jsmnInit]; omega) (by simp [begun, jsmnInit]) le_rfl
    (show (-1 : Int) < 0 by decide)
  have hpos := hplaced.pos
  have hfeed : js p.pos = 0x0a := by
    rw [hpos]
    exact (readsAt_cons.mp hread.2).1
  simp only [begun, jsmnInit, Nat.zero_add] at hpos
  have hlength : ((0x7b : UInt8) :: (lines before ++ memberText m) ++ [0x7d]).length = len - 1 := by
    omega
  rw [hlength] at hplaced
  exact ⟨p, hsteps, hplaced, htype, hcomplete _ rfl, by omega, hfeed⟩

theorem jsmnParse_report (hsent : Sent js len json)
    (hplain : ∀ m, Plain (json.field m).bytes) :
    ∃ p, Returns (fun fuel => jsmnParse js len 256 fuel (jsmnInit tk)) (9, p) ∧
      Parsed js len json p := by
  obtain ⟨p, hsteps, hplaced, htype, hcomplete, hin, hfeed⟩ := report_steps tk hsent hplain
  have hnext : p.toknext = 9 := hplaced.next
  have hnine : p.count = 9 := hplaced.count
  have hlast := @advance_blank js len 256 p (by omega) (.inr (.inr (.inl hfeed)))
  have hall := hsteps.trans hlast.steps
  have hend := @Lookup.parseLoop_end js len { p with pos := p.pos + 1 } 256 (by simp only; omega)
    (fun j hj => by
      rcases Nat.eq_zero_or_pos j with rfl | hj0
      · exact hplaced.closed
      · exact (hplaced.inside j hj0 hj).1)
  have hret : (9 : Int) = p.count := by rw [hnine]; rfl
  refine ⟨{ p with pos := p.pos + 1 }, ?_, hnext, steps_sound hall (init_sound len 256 tk), htype,
    hplaced.parent, hcomplete.congr fun _ _ => rfl⟩
  rw [hret]
  exact parseLoop_steps hall hend

/-- The keys are the tokens 1, 3, 5 and 7. -/
theorem Parsed.object (h : Parsed js len json p) : OneObject js len p := by
  have hat : ∀ i (m : Member), memberList[i]? = some m →
      MemberAt js len p (m.name, (json.field m).bytes) (1 + 2 * i) := fun i m hi =>
    h.complete.laid i _ (by rw [TxJson.members, List.getElem?_map, hi]; rfl)
  have h0 := hat 0 .deviceId rfl
  have h1 := hat 1 .portStatus rfl
  have h2 := hat 2 .errorCode rfl
  have h3 := hat 3 .timestamp rfl
  have hchildren : children p 0 = [1, 3, 5, 7] := by
    rw [children, h.next, show List.range 9 = [0, 1, 2, 3, 4, 5, 6, 7, 8] from rfl]
    simp [h.top, h0.name.parent, h0.parent, h1.name.parent, h1.parent,
      h2.name.parent, h2.parent, h3.name.parent, h3.parent]
  refine ⟨h.root, fun i hi hpos => ?_, ?_, ?_⟩
  · have hnext := h.next
    obtain ⟨j, hj⟩ : ∃ j, i = 1 + 2 * j ∨ i = 1 + 2 * j + 1 := ⟨(i - 1) / 2, by omega⟩
    have hlt : j < memberList.length := show j < 4 by omega
    have hmember := hat j _ (List.getElem?_eq_getElem hlt)
    rcases hj with rfl | rfl
    · rw [hmember.name.parent]
    · rw [hmember.parent]
      exact Int.natCast_nonneg _
  · rw [hchildren]
    simp only [List.forall_mem_cons]
    exact ⟨⟨h0.name.type, (h.complete.quoted 0 (by decide)).size⟩,
      ⟨h1.name.type, (h.complete.quoted 1 (by decide)).size⟩,
      ⟨h2.name.type, (h.complete.quoted 2 (by decide)).size⟩,
      ⟨h3.name.type, (h.complete.quoted 3 (by decide)).size⟩, List.forall_mem_nil _⟩
  · rw [hchildren]
    exact congrArg₂ List.cons h0.name.text (congrArg₂ List.cons h1.name.text
      (congrArg₂ List.cons h2.name.text (congrArg₂ List.cons h3.name.text rfl)))

/-- The text, but for terminators where values end. -/
def Terminated (js js' : Nat → UInt8) : Prop := ∀ i, js' i = js i ∨ js i = 0x22

theorem frameSlice_terminated {js' : Nat → UInt8} (h : Terminated js js') {start stop : Int}
    {text : List UInt8} (htext : frameSlice js len start stop = some text) (hquote : 0x22 ∉ text) :
    frameSlice js' len start stop = some text := by
  obtain ⟨i, hstart, hstop, hin, hread⟩ := frameSlice_inv htext
  have hread' : ReadsAt js' i text := by
    intro j hj
    rw [hread j hj, (h (i + j)).resolve_right fun heq => hquote (heq ▸ hread.mem hj)]
  exact @Lookup.Carries.frameSlice js' len text ⟨.string, start, stop, 0, 0⟩
    ⟨i, hstart, hstop, hread', hin⟩

/-- A lookup returns the field, and terminates it. -/
theorem lookUp_member (h : Parsed js len json p) (hplain : ∀ m, Plain (json.field m).bytes)
    {js' : Nat → UInt8} (hterm : Terminated js js') (m : Member) :
    ∃ js'', lookUp len p p.toknext m.name js' = some (some (json.field m).bytes, js'') ∧
      Terminated js js'' := by
  obtain ⟨before, after, hsplit⟩ := List.append_of_mem (mem_members json m)
  have hcount := members_count hsplit
  have hlaid : Laid js' len p json.members 1 := by
    intro i b hi
    have hb := h.complete.laid i b hi
    have hgood := List.mem_of_getElem? hi
    have hnamed := members_named json b hgood
    obtain ⟨member, _, rfl⟩ := List.mem_map.mp hgood
    exact ⟨⟨hb.name.type, hb.name.parent,
        frameSlice_terminated hterm hb.name.text hnamed.name.1⟩, hb.type, hb.parent,
      frameSlice_terminated hterm hb.value (hplain member).1⟩
  have hat := hlaid before.length _ (by
    rw [hsplit, List.getElem?_append_right le_rfl, Nat.sub_self]
    rfl)
  have hbefore : Laid js' len p before 1 := by
    intro i b hi
    refine hlaid i b ?_
    rw [hsplit, List.getElem?_append_left (List.getElem?_eq_some_iff.mp hi).1]
    exact hi
  have hnext := h.next
  have hlook := lookUp_value h.sound h.root (by omega)
    (firstName_of_laid hbefore hat.name (names_before hsplit)) hat.type hat.value (json.field m).nul
  have hquoted := h.complete.quoted before.length (by omega)
  rw [if_pos hquoted.size] at hlook
  refine ⟨_, hlook, fun i => ?_⟩
  by_cases hi : i = (p.tokens (1 + 2 * before.length + 1)).stop.toNat
  · exact .inr (by rw [hi]; exact hquoted.quote)
  · rw [Function.update_of_ne hi]
    exact hterm i

theorem lookUpAll_members (h : Parsed js len json p) (hplain : ∀ m, Plain (json.field m).bytes) :
    ∀ (asked : List Member) {js' : Nat → UInt8}, Terminated js js' →
      lookUpAll len p p.toknext asked js' =
        some (asked.map fun m => some (json.field m).bytes) := by
  intro asked
  induction asked with
  | nil =>
    intro js' _
    rfl
  | cons m asked ih =>
    intro js' hterm
    obtain ⟨js'', hlook, hterm'⟩ := lookUp_member h hplain hterm m
    simp only [lookUpAll, hlook, Option.bind_eq_bind, Option.bind_some, ih hterm', Option.pure_def,
      List.map_cons]

theorem decodes_of_plain (hsent : Sent js len json) (hplain : ∀ m, Plain (json.field m).bytes) :
    Decodes js len tk json := by
  obtain ⟨p, hparse, hp⟩ := @jsmnParse_report js len tk json hsent hplain
  refine ⟨9, p, hparse, by decide, hp.object, fun asked => ?_⟩
  have hall := lookUpAll_members hp hplain asked fun i => .inl rfl
  rw [hp.next] at hall
  refine ⟨_, hall, ?_⟩
  rw [List.map_map]
  exact List.map_congr_left fun m _ => unescape_plain (hplain m).2

end Plain

/-- A report that fits is in the transmit buffer, with its terminator. -/
theorem report_sent (json : TxJson) (buf : Nat → UInt8)
    (hfits : (usartNetJsonTx json).length < atkIde01UartTxBufSize) :
    ∃ js len, rtSprintf atkIde01UartTxBufSize (usartNetJsonTx json) 0 buf = some js ∧
      rtStrlen js = some len ∧ Sent js len json := by
  obtain ⟨js, hrun, hread, hnul, _⟩ :=
    rtSprintf_stores atkIde01UartTxBufSize (usartNetJsonTx json) 0 buf (by omega)
  rw [Nat.zero_add] at hnul
  have hsent : Sent js (usartNetJsonTx json).length json := ⟨hread, rfl, hnul⟩
  have hlen : rtStrlen js = some (usartNetJsonTx json).length := hsent.frame.scanned hfits
  exact ⟨js, _, hrun, hlen, hsent⟩

/-- A report in the transmit buffer decodes to its fields exactly when none of
them has a quote or a backslash in it. -/
theorem report_decodes_iff (json : TxJson) (buf : Nat → UInt8) (tk : Nat → Tok)
    (hfits : (usartNetJsonTx json).length < atkIde01UartTxBufSize) :
    ∃ js len, rtSprintf atkIde01UartTxBufSize (usartNetJsonTx json) 0 buf = some js ∧
      rtStrlen js = some len ∧
      (Decodes js len tk json ↔ ∀ m, Plain (json.field m).bytes) := by
  obtain ⟨js, len, hrun, hlen, hsent⟩ := report_sent json buf hfits
  exact ⟨js, len, hrun, hlen, fun hdecodes => fields_plain hsent hdecodes, decodes_of_plain hsent⟩

/-- The report of the running device. -/
def txHeart : TxJson where
  deviceId := ⟨ascii "STM32F407ZGT6", by decide⟩
  portStatus := ⟨ascii "NORMAL", by decide⟩
  errorCode := ⟨ascii "NULL", by decide⟩
  timestamp := ⟨ascii "NOW", by decide⟩

theorem report_decodes_heart :
    ∃ js len, rtSprintf atkIde01UartTxBufSize (usartNetJsonTx txHeart) 0 (fun _ => 0) = some js ∧
      rtStrlen js = some len ∧ (Decodes js len (fun _ => ⟨.undefined, 0, 0, 0, 0⟩) txHeart ↔
        ∀ m, Plain (txHeart.field m).bytes) :=
  report_decodes_iff txHeart _ _ (by decide)

/-- A status with a quote in it: the text is no longer one object of four members. -/
def quotedStatus : TxJson := { txHeart with portStatus := ⟨ascii "NET\"DOWN", by decide⟩ }

theorem quoted_status_lost :
    ∃ js len,
      rtSprintf atkIde01UartTxBufSize (usartNetJsonTx quotedStatus) 0 (fun _ => 0) = some js ∧
      rtStrlen js = some len ∧
      ¬ Decodes js len (fun _ => ⟨.undefined, 0, 0, 0, 0⟩) quotedStatus := by
  obtain ⟨js, len, hrun, hlen, hsent⟩ := report_sent quotedStatus (fun _ => 0) (by decide)
  refine ⟨js, len, hrun, hlen, fun hdecodes => ?_⟩
  have hplain := fields_plain hsent hdecodes .portStatus
  exact absurd hplain (by decide)

end StmGateway.Json.Decoded
