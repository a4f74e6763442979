import StmGateway.At.Link
import StmGateway.At.Render
import StmGateway.At.Untouched

/-!
# `usart_net_init`

The configuration of the module at start-up. The function makes its calls one
after the other whatever they return, adds up the statuses, and saves the
configuration with `AT+UPDATE` before it looks at the sum. The module answers
each command with a text, in one burst, or not at all. A store that misses an
array has no result.
-/
namespace StmGateway.Net.Init

open StmGateway.Lib StmGateway.At.Parameter StmGateway.At.Setters StmGateway.At.Getters
open StmGateway.At.Link StmGateway.At.Render StmGateway.At.Ring StmGateway.At.Untouched
open StmGateway.Uart.RxBuffer (RxFrame rxAppend rxIdle atkIde01UartRxRestart atkIde01UartRxGetFrame
  Holds append_holds getFrame_terminates getFrame_holds Terminated fill_of_le zero holds_zero)

/-- An answer: a text that fits the receive frame. -/
structure Reply where
  text : List UInt8
  nul : 0 ∉ text
  length_le : text.length ≤ 2047

/-- The line while a command waits: the answer, then nothing more until the
timeout. -/
def lineEvents : Option Reply → List Event
  | none => List.replicate atkIde01AtTimeout .poll
  | some r => r.text.map .byte ++ .idle :: List.replicate atkIde01AtTimeout .poll

/-- The receive frame, the commands sent so far and the arrays `mac[18]` and
`ip[16]` of `usart_net_init`. -/
structure Session where
  frame : RxFrame
  sent : List (List UInt8)
  mac : Nat → UInt8
  ip : Nat → UInt8

/-- The text in `mac`; a scan that leaves the array is `none`. -/
def Session.macText (s : Session) : Option (List UInt8) := do
  let n ← scanNul s.mac 18 0
  return slice s.mac 0 n

/-- What a getter stores, index by index from 0 on, in an array of `size` bytes. -/
def storeIn (size : Nat) (a : Nat → UInt8) : Option Stored → Option (Nat → UInt8)
  | none => some a
  | some stored => if stored size = none then some fun j => (stored j).getD (a j) else none

/-- `ATK_IDE01_EOK` and the error codes, as numbers. -/
def code : Status → UInt8
  | .eok => 0
  | .error => 1
  | .etimeout => 2
  | .einval => 3

/-- The status a function makes of the one of its last command. -/
def okOrError (ret : Status) : Status := if ret ≠ .eok then .error else .eok

/-- A call of `usart_net_init`. -/
inductive Call where
  | init
  | searchMac
  | enterAtMode
  | set (setter : Setter)
  | getStaticip
  | update

/-- The calls in their order up to `atk_ide01_update`. -/
def configCalls : List Call :=
  [.init, .searchMac, .enterAtMode, .set (.echo .on), .set (.moduname (ascii "ATK-IDE01")),
    .set (.uart .b115200 .stop1 .data8 .none), .set (.uartpacklen 50), .set (.uartpacktime 50),
    .set (.ethmod .tcpClient), .set (.dhcp .off), .set (.dns (ascii "114.114.114.114")),
    .set (.remoteip (ascii "192.168.10.201")), .set (.remoteport (ascii "8080")),
    .set (.staticip (ascii "192.168.10.58")), .getStaticip]

section Model

variable (answers : Nat → Option Reply) (stack : Nat → Stack) (fuel : Nat)

/-- `atk_ide01_send_at_cmd`: the module answers by the number of the command. -/
def sendAtCmd (cmd : List UInt8) (s : Session) : Option (Status × Session) := do
  let (ret, f) ← atkIde01SendAtCmd (some okAck) atkIde01AtTimeout s.frame
    (lineEvents (answers s.sent.length))
  return (ret, { s with frame := f, sent := s.sent ++ [cmd] })

/-- The frame a getter reads, which it fetches on success only. -/
def fetchFrame (ret : Status) (f : RxFrame) : Option RxFrame :=
  if ret = .eok then (atkIde01UartRxGetFrame f).map Prod.snd else some f

/-- A getter that sends `cmd` and stores in `a`. -/
def runGetter (cmd : List UInt8) (getter : Send → Stack → Nat → Option (Status × Option Stored))
    (size : Nat) (a : Nat → UInt8) (s : Session) :
    Option (Status × (Nat → UInt8) × Session) := do
  let locals := stack s.sent.length
  let (ret, s) ← sendAtCmd answers cmd s
  let f ← fetchFrame ret s.frame
  let (ret, out) ← getter (fun _ => some (ret, f.buf)) locals fuel
  let a ← storeIn size a out
  return (ret, a, { s with frame := f })

def runSetter (setter : Setter) (s : Session) : Option (Status × Session) :=
  match setter.cmd with
  | .error ret => some (ret, s)
  | .ok cmd => do
    let (ret, s) ← sendAtCmd answers cmd.text s
    return (okOrError ret, s)

def searchMac (send : Send) (locals : Stack) (fuel : Nat) : Option (Status × Option Stored) :=
  atkIde01SearchMac send locals fuel true

def getStaticip (send : Send) (locals : Stack) (fuel : Nat) : Option (Status × Option Stored) :=
  atkIde01GetStaticip send locals fuel true

/-- `atk_ide01_init`, which searches into a `mac[18]` of its own. -/
def atkIde01Init (s : Session) : Option (Status × Session) := do
  let (ret, _, s) ← runGetter answers stack fuel (ascii "AT+SEARCH?") searchMac 18 (fun _ => 0) s
  return (okOrError ret, s)

def runSearchMac (s : Session) : Option (Status × Session) := do
  let (ret, mac, s) ← runGetter answers stack fuel (ascii "AT+SEARCH?") searchMac 18 s.mac s
  return (ret, { s with mac := mac })

def atkIde01EnterAtMode (s : Session) : Option (Status × Session) := do
  let (ret, s) ← sendAtCmd answers (ascii "AT+SEARCH?") s
  if ret ≠ .eok then
    return (.error, s)
  else
    let text ← s.macText
    let (ret, s) ← sendAtCmd answers (intoCmd text).text s
    return (okOrError ret, s)

def runGetStaticip (s : Session) : Option (Status × Session) := do
  let (ret, ip, s) ← runGetter answers stack fuel (ascii "AT+STATICIP?") getStaticip 16 s.ip s
  return (ret, { s with ip := ip })

def atkIde01Update (s : Session) : Option (Status × Session) := do
  let (ret, s) ← sendAtCmd answers (ascii "AT+UPDATE") s
  return (okOrError ret, s)

def Call.run : Call → Session → Option (Status × Session)
  | .init => atkIde01Init answers stack fuel
  | .searchMac => runSearchMac answers stack fuel
  | .enterAtMode => atkIde01EnterAtMode answers
  | .set setter => runSetter answers setter
  | .getStaticip => runGetStaticip answers stack fuel
  | .update => atkIde01Update answers

/-- The calls one after the other, whatever they return. -/
def runCalls : List Call → Session → Option (List Status × Session)
  | [], s => some ([], s)
  | call :: calls, s => do
    let (ret, s) ← call.run answers stack fuel s
    let (rets, s) ← runCalls calls s
    return (ret :: rets, s)

/-- `ret`, an `rt_uint8_t`. -/
def retSum (rets : List Status) : UInt8 := rets.foldl (fun ret st => ret + code st) 0

/-- What a run of `usart_net_init` did: the statuses of its calls, the commands
it sent, and whether it reported a failure. -/
structure Outcome where
  rets : List Status
  sent : List (List UInt8)
  failed : Bool

def usartNetInit (frame : RxFrame) (mac ip : Nat → UInt8) : Option Outcome := do
  let (rets, s) ← runCalls answers stack fuel (configCalls ++ [.update]) ⟨frame, [], mac, ip⟩
  return ⟨rets, s.sent, retSum rets ≠ 0⟩

end Model

/-! ## One command -/

/-- The answer says "OK". -/
def SaysOk (r : Option Reply) : Prop := ∃ t, r = some t ∧ okAck <:+: t.text

section Command

variable {ack : Option (List UInt8)} {f : RxFrame} {since : List UInt8}

/-- A line with nothing on it. -/
theorem pollLoop_silent (hf : f.finsh = false) : ∀ n,
    pollLoop ack n f (List.replicate n .poll) = some (.etimeout, f) := by
  intro n
  induction n with
  | zero => rfl
  | succ n ih =>
    rw [List.replicate_succ, pollLoop, poll_unfinished hf]
    exact ih

/-- Bytes go to the frame. -/
theorem pollLoop_bytes (rest : List Event) (n : Nat) : ∀ (text : List UInt8) (f : RxFrame)
    (since : List UInt8), Holds f since →
    ∃ f', pollLoop ack (n + 1) f (text.map .byte ++ rest) = pollLoop ack (n + 1) f' rest ∧
      Holds f' (since ++ text) ∧ f'.finsh = f.finsh := by
  intro text
  induction text with
  | nil =>
    intro f since hf
    exact ⟨f, rfl, by rwa [List.append_nil], rfl⟩
  | cons b text ih =>
    intro f since hf
    obtain ⟨f₁, happend, hf₁, hfinsh₁⟩ := append_holds hf b
    obtain ⟨f', hloop, hf', hfinsh'⟩ := ih f₁ (since ++ [b]) hf₁
    refine ⟨f', ?_, by simpa using hf', hfinsh'.trans hfinsh₁⟩
    rw [List.map_cons, List.cons_append, pollLoop, happend]
    exact hloop

/-- A frame with the answer in it. -/
structure HasReply (f : RxFrame) (t : Reply) : Prop where
  holds : Holds f t.text
  finsh : f.finsh = true

/-- The call succeeds on an answer that says "OK", which is then in the frame,
and else runs into the timeout. -/
theorem sendAtCmd_cases (hf : Holds f since) (r : Option Reply) :
    (∃ f' t, atkIde01SendAtCmd (some okAck) atkIde01AtTimeout f (lineEvents r) = some (.eok, f') ∧
        r = some t ∧ okAck <:+: t.text ∧ HasReply f' t) ∨
      (∃ f' since', atkIde01SendAtCmd (some okAck) atkIde01AtTimeout f (lineEvents r) =
        some (.etimeout, f') ∧ ¬ SaysOk r ∧ Holds f' since') := by
  have hempty := restart_holds hf.last
  obtain ⟨n, hn⟩ : ∃ n, atkIde01AtTimeout = n + 1 := ⟨4999, rfl⟩
  have hloop : ∀ events, atkIde01SendAtCmd (some okAck) atkIde01AtTimeout f events =
      pollLoop (some okAck) (n + 1) (atkIde01UartRxRestart f) events := by
    intro events
    rw [atkIde01SendAtCmd, hn, if_neg (Nat.succ_ne_zero n)]
  cases r with
  | none =>
    refine Or.inr ⟨_, [], (hloop _).trans ?_, ?_, hempty⟩
    · rw [lineEvents, hn]
      exact pollLoop_silent rfl _
    · intro hok
      obtain ⟨t, ht, _⟩ := hok
      cases ht
  | some t =>
    obtain ⟨f₁, hbytes, hf₁, hfinsh₁⟩ := @pollLoop_bytes (some okAck)
      (.idle :: List.replicate (n + 1) .poll) n t.text _ [] hempty
    rw [List.nil_append] at hf₁
    obtain ⟨f₂, hf₂, hfinsh₂, hterm, hpoll⟩ := poll_finished (idle_holds hf₁) rfl okAck
    have htext : f₂.text = t.text := hf₂.text_eq hterm t.nul t.length_le
    have hrun : atkIde01SendAtCmd (some okAck) atkIde01AtTimeout f (lineEvents (some t)) =
        (poll (some okAck) (rxIdle f₁)).bind fun r =>
          if r.1 then some (.eok, r.2)
          else pollLoop (some okAck) n r.2 (List.replicate n .poll) := by
      rw [hloop, lineEvents, hn, hbytes, pollLoop, List.replicate_succ, pollLoop]
      rfl
    rw [hpoll, htext] at hrun
    by_cases hok : okAck <:+: t.text
    · rw [if_pos ((strstr_isSome _ _).mpr hok)] at hrun
      exact Or.inl ⟨f₂, t, hrun, rfl, hok, hf₂, hfinsh₂⟩
    · rw [if_neg (mt (strstr_isSome _ _).mp hok)] at hrun
      refine Or.inr ⟨_, [], hrun.trans (pollLoop_silent rfl n), ?_, restart_holds hf₂.last⟩
      intro hsays
      obtain ⟨t', ht, hok'⟩ := hsays
      cases ht
      exact hok hok'

end Command

/-! ## One call -/

/-- The answer in a buffer. -/
def Reply.buf (t : Reply) : Nat → UInt8 := fun j => t.text.getD j 0

/-- A parameter that a getter asks for, and how many bytes of it there is room for. -/
structure Want where
  num : UInt8
  room : Nat

/-- `atk_ide01_get_parameter` finds the parameter, with a length there is room for. -/
def Fits (t : Reply) (locals : Stack) (w : Want) : Prop :=
  ∃ i l, Returns (atkIde01GetParameter t.buf w.num (some 0) (some 0) (locals w.num).1
    (locals w.num).2) (.eok, some i, some l) ∧ l.toNat ≤ w.room

/-- The answer makes the command succeed. -/
def Accepted (locals : Stack) (want : Option Want) (r : Option Reply) : Prop :=
  ∃ t, r = some t ∧ okAck <:+: t.text ∧ ∀ w, want = some w → Fits t locals w

/-- For each command of a call, what the call wants of its answer. -/
def Call.needs : Call → List (Option Want)
  | .init | .searchMac => [some ⟨2, 18⟩]
  | .getStaticip => [some ⟨1, 15⟩]
  | .enterAtMode => [none, none]
  | .set _ | .update => [none]

/-- The answers from number `n` on are accepted. -/
def AllAccepted (answers : Nat → Option Reply) (stack : Nat → Stack) :
    Nat → List (Option Want) → Prop
  | _, [] => True
  | n, want :: wants =>
    Accepted (stack n) want (answers n) ∧ AllAccepted answers stack (n + 1) wants

section Accepts

variable {answers : Nat → Option Reply} {stack : Nat → Stack}

theorem allAccepted_append (wants' : List (Option Want)) :
    ∀ (wants : List (Option Want)) (n : Nat), AllAccepted answers stack n (wants ++ wants') ↔
      AllAccepted answers stack n wants ∧ AllAccepted answers stack (n + wants.length) wants' := by
  intro wants
  induction wants with
  | nil => intro n; simp [AllAccepted]
  | cons want wants ih =>
    intro n
    rw [List.cons_append, AllAccepted, AllAccepted, ih, and_assoc, List.length_cons,
      show n + 1 + wants.length = n + (wants.length + 1) by omega]

theorem AllAccepted.get {wants : List (Option Want)} {n i : Nat} {want : Option Want}
    (h : AllAccepted answers stack n wants) (hi : wants[i]? = some want) :
    Accepted (stack (n + i)) want (answers (n + i)) := by
  induction wants generalizing n i with
  | nil => cases hi
  | cons first wants ih =>
    cases i with
    | zero =>
      cases hi
      exact h.1
    | succ i =>
      rw [show n + (i + 1) = n + 1 + i by omega]
      exact ih h.2 hi

theorem accepted_none {locals : Stack} {r : Option Reply} : Accepted locals none r ↔ SaysOk r := by
  constructor
  · intro h
    obtain ⟨t, ht, hok, _⟩ := h
    exact ⟨t, ht, hok⟩
  · intro h
    obtain ⟨t, ht, hok⟩ := h
    exact ⟨t, ht, hok, fun w hw => by cases hw⟩

end Accepts

/-- What a terminated frame says of its answer. -/
theorem answer_of_frame {f : RxFrame} {t : Reply} (h : Holds f t.text) (hterm : Terminated f) :
    Answer f.buf t.text.length ∧ slice f.buf 0 t.text.length = t.text := by
  have hlen : f.len = t.text.length := by rw [h.len_eq, fill_of_le t.length_le]
  have hget : ∀ j < t.text.length, t.text[j]? = some (f.buf j) := by
    intro j hj
    have hcontents := h.contents j (by omega)
    rwa [hlen, Nat.sub_self, Nat.zero_add] at hcontents
  refine ⟨⟨fun j hj hnul => ?_, by rw [← hlen]; exact hterm⟩, ?_⟩
  · exact t.nul (List.mem_of_getElem? (by rw [hget j hj, hnul]))
  · apply slice_of_readsAt
    intro j hj
    rw [Nat.zero_add]
    exact hget j hj

/-- The frame is looked up as the answer is. -/
theorem getParameter_buf {f : RxFrame} {t : Reply} (hanswer : Answer f.buf t.text.length)
    (htext : slice f.buf 0 t.text.length = t.text) (num : UInt8) (index length : Option UInt16)
    (stackIndex stackLen : UInt16) (fuel : Nat) :
    atkIde01GetParameter t.buf num index length stackIndex stackLen fuel =
      atkIde01GetParameter f.buf num index length stackIndex stackLen fuel := by
  apply getParameter_congr hanswer
  intro j hj
  rcases Nat.lt_or_eq_of_le hj with hlt | rfl
  · have hread := readsAt_slice f.buf 0 t.text.length
    rw [htext] at hread
    have hget := hread j hlt
    rw [Nat.zero_add] at hget
    simp [Reply.buf, hget]
  · rw [hanswer.ends]
    simp [Reply.buf]

/-- What is found in the answer is copied from the frame. -/
theorem fits_iff {f : RxFrame} {t : Reply} (hanswer : Answer f.buf t.text.length)
    (htext : slice f.buf 0 t.text.length = t.text) {locals : Stack} {w : Want} :
    Fits t locals w ↔
      ∃ text, Returns (copyParameter f.buf w.num locals) (.eok, text) ∧ text.length ≤ w.room := by
  have hsame := getParameter_buf hanswer htext w.num (some 0) (some 0) (locals w.num).1
    (locals w.num).2
  constructor
  · intro h
    obtain ⟨i, l, hfound, hle⟩ := h
    refine ⟨_, copyParameter_of_get (hfound.congr fun fuel => (hsame fuel).symm), ?_⟩
    rwa [slice_length]
  · intro h
    obtain ⟨text, ⟨bound, hcopy⟩, hle⟩ := h
    obtain ⟨⟨st, i, l⟩, hget, hrest⟩ := Option.bind_eq_some_iff.mp (hcopy bound le_rfl)
    have hreturns := (getParameter_settles _ _ _ _ _ _).returns hget
    cases i with
    | none => cases hrest
    | some i =>
      cases l with
      | none => cases hrest
      | some l =>
        cases hrest
        refine ⟨i, l, hreturns.congr hsame, ?_⟩
        rwa [slice_length] at hle

/-- A getter that stores one parameter in an array of `size` bytes. -/
structure StoresOne (getter : Send → Stack → Nat → Option (Status × Option Stored)) (size : Nat)
    (w : Want) (stored : List UInt8 → Stored) : Prop where
  run_eq : ∀ (ret : Status) (buf : Nat → UInt8) (locals : Stack) (fuel : Nat),
    getter (fun _ => some (ret, buf)) locals fuel =
      if ret = .eok then (copyParameter buf w.num locals fuel).map fun r =>
        if r.1 = .eok then (.eok, some (stored r.2)) else (.error, none)
      else some (.error, none)
  room : ∀ text, stored text size = none ↔ text.length ≤ w.room

theorem queryOne_stores (cmd : Cmd) {size : Nat} {w : Want} {stored : List UInt8 → Stored}
    (hroom : ∀ text, stored text size = none ↔ text.length ≤ w.room) :
    StoresOne (fun send locals fuel => queryOne send cmd w.num locals fuel fun text =>
      some (.eok, some (stored text))) size w stored := by
  refine ⟨fun ret buf locals fuel => ?_, hroom⟩
  by_cases hret : ret = .eok
  · simp only [queryOne, query, hret, Option.bind_eq_bind, Option.bind_some, ne_eq,
      not_true_eq_false, ↓reduceIte]
    cases copyParameter buf w.num locals fuel with
    | none => rfl
    | some r =>
      by_cases hst : r.1 = .eok
      · simp [hst]
      · simp [hst]
  · simp [queryOne, query, hret]

theorem searchMac_stores :
    StoresOne searchMac 18 ⟨2, 18⟩ fun text j => if j = 17 then some 0 else text[j]? := by
  refine @queryOne_stores (queryCmd 11 "AT+SEARCH?") 18 ⟨2, 18⟩
    (fun text j => if j = 17 then some 0 else text[j]?) fun text => ?_
  rw [if_neg (by decide), List.getElem?_eq_none_iff]

theorem getStaticip_stores : StoresOne getStaticip 16 ⟨1, 15⟩ storedText := by
  refine @queryOne_stores (queryCmd 13 "AT+STATICIP?") 16 ⟨1, 15⟩ storedText fun text => ?_
  rw [storedText, List.getElem?_eq_none_iff, List.length_append, List.length_singleton,
    Nat.succ_le_succ_iff]

section Calls

variable {answers : Nat → Option Reply} {stack : Nat → Stack} {fuel : Nat} {s s' : Session}
  {since : List UInt8}

/-- What a call says of the answers to its commands: its status is
`ATK_IDE01_EOK` if all were accepted, and then all were sent. -/
structure Tells (answers : Nat → Option Reply) (stack : Nat → Stack) (needs : List (Option Want))
    (s s' : Session) (st : Status) : Prop where
  status : st = .eok ↔ AllAccepted answers stack s.sent.length needs
  count : st = .eok → s'.sent.length = s.sent.length + needs.length
  frame : ∃ since, Holds s'.frame since

theorem sendAtCmd_spec (hf : Holds s.frame since) (cmd : List UInt8) :
    ∃ st f', sendAtCmd answers cmd s =
        some (st, { s with frame := f', sent := s.sent ++ [cmd] }) ∧
      ((st = .eok ∧ ∃ t, answers s.sent.length = some t ∧ okAck <:+: t.text ∧ HasReply f' t) ∨
        (st = .etimeout ∧ ¬ SaysOk (answers s.sent.length) ∧ ∃ since', Holds f' since')) := by
  rcases sendAtCmd_cases hf (answers s.sent.length) with ⟨f', t, hsend, ht⟩ | ⟨f', since', hsend, hno⟩
  · exact ⟨.eok, f', by rw [sendAtCmd, hsend]; rfl, Or.inl ⟨rfl, t, ht⟩⟩
  · exact ⟨.etimeout, f', by rw [sendAtCmd, hsend]; rfl, Or.inr ⟨rfl, hno.1, since', hno.2⟩⟩

theorem sendAtCmd_tells (hf : Holds s.frame since) (cmd : List UInt8) :
    ∃ st s', sendAtCmd answers cmd s = some (st, s') ∧ s'.sent = s.sent ++ [cmd] ∧
      s'.mac = s.mac ∧ Tells answers stack [none] s s' st := by
  obtain ⟨st, f', hsend, hcases⟩ := @sendAtCmd_spec answers s since hf cmd
  refine ⟨st, _, hsend, rfl, rfl, ?_, fun _ => List.length_append, ?_⟩
  · rw [AllAccepted, AllAccepted, and_true, accepted_none]
    rcases hcases with ⟨hst, t, ht, hok, _⟩ | ⟨hst, hno, _⟩
    · exact iff_of_true hst ⟨t, ht, hok⟩
    · exact iff_of_false (by rw [hst]; decide) hno
  · rcases hcases with ⟨_, t, _, _, hreply⟩ | ⟨_, _, hholds⟩
    · exact ⟨t.text, hreply.holds⟩
    · exact hholds

theorem okOrError_eq (st : Status) : okOrError st = .eok ↔ st = .eok := by
  cases st <;> decide

theorem Tells.okOrError {needs : List (Option Want)} {st : Status}
    (h : Tells answers stack needs s s' st) : Tells answers stack needs s s' (okOrError st) :=
  ⟨(okOrError_eq st).trans h.status, fun hst => h.count ((okOrError_eq st).mp hst), h.frame⟩

section Getter

variable {getter : Send → Stack → Nat → Option (Status × Option Stored)} {cmd : List UInt8}
  {size : Nat} {w : Want} {stored : List UInt8 → Stored} {a a' : Nat → UInt8}

theorem fetchFrame_eok {f : RxFrame} {t : Reply} (h : HasReply f t) :
    ∃ f', fetchFrame .eok f = some f' ∧ Holds f' t.text ∧
      Answer f'.buf t.text.length ∧ slice f'.buf 0 t.text.length = t.text := by
  obtain ⟨f', hget, hholds, _, hterm⟩ := getFrame_terminates h.holds h.finsh
  obtain ⟨hanswer, htext⟩ := answer_of_frame hholds hterm
  exact ⟨f', by rw [fetchFrame, if_pos rfl, hget]; rfl, hholds, hanswer, htext⟩

/-- The array after a text was stored. -/
def put (stored : List UInt8 → Stored) (a : Nat → UInt8) (text : List UInt8) : Nat → UInt8 :=
  fun j => (stored text j).getD (a j)

/-- A getter fails on an answer without "OK"; on another it stores what it copies
from the frame. -/
theorem runGetter_cases (hgetter : StoresOne getter size w stored) (hf : Holds s.frame since)
    (cmd : List UInt8) (a : Nat → UInt8) :
    ∃ f, (∃ since', Holds f since') ∧
      ((¬ SaysOk (answers s.sent.length) ∧ ∀ fuel,
          runGetter answers stack fuel cmd getter size a s =
            some (.error, a, { s with frame := f, sent := s.sent ++ [cmd] })) ∨
        ∃ t, answers s.sent.length = some t ∧ okAck <:+: t.text ∧ Answer f.buf t.text.length ∧
          slice f.buf 0 t.text.length = t.text ∧ ∀ fuel,
            runGetter answers stack fuel cmd getter size a s =
              (copyParameter f.buf w.num (stack s.sent.length) fuel).bind fun r =>
                if r.1 = .eok then
                  if r.2.length ≤ w.room then
                    some (.eok, put stored a r.2, { s with frame := f, sent := s.sent ++ [cmd] })
                  else none
                else some (.error, a, { s with frame := f, sent := s.sent ++ [cmd] })) := by
  obtain ⟨ret, f, hsend, hcases⟩ := @sendAtCmd_spec answers s since hf cmd
  rcases hcases with ⟨rfl, t, ht, hok, hreply⟩ | ⟨rfl, hno, hholds⟩
  · obtain ⟨f', hfetch, hholds, hanswer, htext⟩ := fetchFrame_eok hreply
    refine ⟨f', ⟨_, hholds⟩, Or.inr ⟨t, ht, hok, hanswer, htext, fun fuel => ?_⟩⟩
    simp only [runGetter, hsend, hfetch, hgetter.run_eq, Option.bind_eq_bind, Option.bind_some,
      ↓reduceIte, Option.pure_def]
    cases copyParameter f'.buf w.num (stack s.sent.length) fuel with
    | none => rfl
    | some r =>
      by_cases hst : r.1 = .eok
      · by_cases hroom : r.2.length ≤ w.room
        · simp only [Option.map_some, Option.bind_some, hst, ↓reduceIte, storeIn,
            (hgetter.room r.2).mpr hroom, hroom]
          rfl
        · have hmiss : stored r.2 size ≠ none := fun hnone => hroom ((hgetter.room r.2).mp hnone)
          simp only [Option.map_some, Option.bind_some, hst, ↓reduceIte, storeIn, hmiss, hroom,
            Option.bind_none]
      · simp only [Option.map_some, Option.bind_some, hst, ↓reduceIte, storeIn]
  · refine ⟨f, hholds, Or.inl ⟨hno, fun fuel => ?_⟩⟩
    simp only [runGetter, hsend, fetchFrame, hgetter.run_eq, reduceCtorEq, ↓reduceIte,
      Option.bind_eq_bind, Option.bind_some, storeIn, Option.pure_def]

theorem runGetter_tells (hgetter : StoresOne getter size w stored) (hf : Holds s.frame since)
    {st : Status} (h : runGetter answers stack fuel cmd getter size a s = some (st, a', s')) :
    Tells answers stack [some w] s s' st := by
  obtain ⟨f, hholds, hcases⟩ :=
    @runGetter_cases answers stack s since getter size w stored hgetter hf cmd a
  rcases hcases with ⟨hno, hrun⟩ | ⟨t, ht, hok, hanswer, htext, hrun⟩
  · cases (hrun fuel).symm.trans h
    refine ⟨iff_of_false (by decide) fun hall => ?_, fun _ => List.length_append, hholds⟩
    obtain ⟨t, ht, hok, _⟩ := hall.1
    exact hno ⟨t, ht, hok⟩
  · obtain ⟨⟨ret, text⟩, hcopy, hrest⟩ := Option.bind_eq_some_iff.mp ((hrun fuel).symm.trans h)
    have hreturns := (copyParameter_settles _ _ _).returns hcopy
    have haccepted : AllAccepted answers stack s.sent.length [some w] ↔
        Fits t (stack s.sent.length) w := by
      rw [AllAccepted, AllAccepted, and_true]
      constructor
      · intro hall
        obtain ⟨t', ht', _, hfits⟩ := hall
        cases ht.symm.trans ht'
        exact hfits w rfl
      · intro hfits
        refine ⟨t, ht, hok, fun w' hw => ?_⟩
        cases hw
        exact hfits
    by_cases hst : ret = .eok
    · by_cases hroom : text.length ≤ w.room
      · simp only [hst, hroom, ↓reduceIte, Option.some.injEq, Prod.mk.injEq] at hrest
        obtain ⟨rfl, _, rfl⟩ := hrest
        rw [hst] at hreturns
        exact ⟨iff_of_true rfl (haccepted.mpr ((fits_iff hanswer htext).mpr ⟨text, hreturns, hroom⟩)),
          fun _ => List.length_append, hholds⟩
      · simp only [hst, hroom, ↓reduceIte, reduceCtorEq] at hrest
    · simp only [hst, ↓reduceIte, Option.some.injEq, Prod.mk.injEq] at hrest
      obtain ⟨rfl, _, rfl⟩ := hrest
      refine ⟨iff_of_false (by decide) fun hall => ?_, fun _ => List.length_append, hholds⟩
      obtain ⟨text', hfound, _⟩ := (fits_iff hanswer htext).mp (haccepted.mp hall)
      cases hfound.unique hreturns
      exact hst rfl

/-- The answer is looked through to an end, and a parameter found there is room for. -/
def Bounded (t : Reply) (locals : Stack) (w : Want) : Prop :=
  ∃ st i l, Returns (atkIde01GetParameter t.buf w.num (some 0) (some 0) (locals w.num).1
    (locals w.num).2) (st, some i, some l) ∧ (st = .eok → l.toNat ≤ w.room)

theorem Fits.bounded {t : Reply} {locals : Stack} (h : Fits t locals w) : Bounded t locals w := by
  obtain ⟨i, l, hfound, hle⟩ := h
  exact ⟨.eok, i, l, hfound, fun _ => hle⟩

/-- A getter returns, and has stored something if it succeeds. -/
theorem runGetter_returns (hgetter : StoresOne getter size w stored) (hf : Holds s.frame since)
    (hbounded : ∀ t, answers s.sent.length = some t → okAck <:+: t.text →
      Bounded t (stack s.sent.length) w) (cmd : List UInt8) (a : Nat → UInt8) :
    ∃ st a' f, Returns (fun fuel => runGetter answers stack fuel cmd getter size a s)
        (st, a', { s with frame := f, sent := s.sent ++ [cmd] }) ∧
      (a' = a ∧ st ≠ .eok ∨ ∃ text, a' = put stored a text) := by
  obtain ⟨f, _, hcases⟩ :=
    @runGetter_cases answers stack s since getter size w stored hgetter hf cmd a
  rcases hcases with ⟨_, hrun⟩ | ⟨t, ht, hok, hanswer, htext, hrun⟩
  · exact ⟨.error, a, f, (Returns.pure _).congr hrun, .inl ⟨rfl, by decide⟩⟩
  · obtain ⟨st, i, l, hfound, hroom⟩ := hbounded t ht hok
    have hcopy := copyParameter_of_get (hfound.congr fun fuel =>
      (getParameter_buf hanswer htext w.num (some 0) (some 0) _ _ fuel).symm)
    by_cases hst : st = .eok
    · refine ⟨.eok, put stored a (slice f.buf i.toNat l.toNat), f,
        (hcopy.bind (fun r _ => _) ?_).congr hrun, .inr ⟨_, rfl⟩⟩
      simp only [hst, ↓reduceIte, slice_length, hroom hst]
      exact Returns.pure _
    · refine ⟨.error, a, f, (hcopy.bind (fun r _ => _) ?_).congr hrun, .inl ⟨rfl, by decide⟩⟩
      simp only [hst, ↓reduceIte]
      exact Returns.pure _

end Getter

/-- The setter takes its argument. -/
def Call.Formats : Call → Prop
  | .set setter => ∃ cmd, setter.cmd = .ok cmd
  | _ => True

theorem configCalls_formats : ∀ call ∈ configCalls, call.Formats := by
  simp only [configCalls, List.forall_mem_cons, Call.Formats, true_and]
  exact ⟨⟨_, rfl⟩, ⟨_, rfl⟩, ⟨_, rfl⟩, ⟨_, rfl⟩, ⟨_, rfl⟩, ⟨_, rfl⟩, ⟨_, rfl⟩, ⟨_, rfl⟩, ⟨_, rfl⟩,
    ⟨_, rfl⟩, ⟨_, rfl⟩, List.forall_mem_nil _⟩

theorem runSetter_eq {setter : Setter} {cmd : Cmd} (h : setter.cmd = .ok cmd) :
    runSetter answers setter s =
      (sendAtCmd answers cmd.text s).bind fun r => some (okOrError r.1, r.2) := by
  rw [runSetter, h]
  rfl

theorem atkIde01Update_eq :
    atkIde01Update answers s =
      (sendAtCmd answers (ascii "AT+UPDATE") s).bind fun r => some (okOrError r.1, r.2) :=
  rfl

/-- A call of one command. -/
theorem sendOne_tells (hf : Holds s.frame since) {cmd : List UInt8} {st : Status}
    (h : ((sendAtCmd answers cmd s).bind fun r => some (okOrError r.1, r.2)) = some (st, s')) :
    Tells answers stack [none] s s' st := by
  obtain ⟨st', s₁, hsend, _, _, htells⟩ := @sendAtCmd_tells answers stack s since hf cmd
  rw [hsend] at h
  cases h
  exact htells.okOrError

theorem sendOne_returns (hf : Holds s.frame since) (cmd : List UInt8) :
    ∃ st s', ((sendAtCmd answers cmd s).bind fun r => some (okOrError r.1, r.2)) = some (st, s') ∧
      s'.mac = s.mac := by
  obtain ⟨st, s', hsend, _, hsame, _⟩ :=
    @sendAtCmd_tells answers (fun _ _ => (0, 0)) s since hf cmd
  exact ⟨okOrError st, s', by rw [hsend]; rfl, hsame⟩

theorem enterAtMode_tells (hf : Holds s.frame since) {st : Status}
    (h : atkIde01EnterAtMode answers s = some (st, s')) :
    Tells answers stack [none, none] s s' st := by
  obtain ⟨st₁, s₁, hsend₁, _, _, htells₁⟩ :=
    @sendAtCmd_tells answers stack s since hf (ascii "AT+SEARCH?")
  have hfirst : st₁ = .eok ↔ Accepted (stack s.sent.length) none (answers s.sent.length) := by
    rw [htells₁.status, AllAccepted, AllAccepted, and_true]
  simp only [atkIde01EnterAtMode, hsend₁, Option.bind_eq_bind, Option.bind_some] at h
  by_cases hst : st₁ = .eok
  · obtain ⟨since₁, hf₁⟩ := htells₁.frame
    have hcount := htells₁.count hst
    simp only [hst, ne_eq, not_true_eq_false, ↓reduceIte] at h
    obtain ⟨text, _, hrest⟩ := Option.bind_eq_some_iff.mp h
    obtain ⟨st₂, s₂, hsend₂, _, _, htells₂⟩ :=
      @sendAtCmd_tells answers stack s₁ since₁ hf₁ (intoCmd text).text
    rw [hsend₂] at hrest
    cases hrest
    apply Tells.okOrError
    refine ⟨?_, fun heok => ?_, htells₂.frame⟩
    · rw [htells₂.status, hcount, AllAccepted]
      exact ⟨fun h => ⟨hfirst.mp hst, h⟩, fun h => h.2⟩
    · rw [htells₂.count heok, hcount]
      rfl
  · simp only [hst, ne_eq, not_false_eq_true, ↓reduceIte] at h
    cases h
    refine ⟨iff_of_false (by decide) fun hall => ?_, fun heok => absurd heok (by decide),
      htells₁.frame⟩
    exact hst (hfirst.mpr hall.1)

theorem scanNul_isSome {buf : Nat → UInt8} {n : Nat} (hn : buf n = 0) :
    ∀ room i, i ≤ n → n < i + room → (scanNul buf room i).isSome := by
  intro room
  induction room with
  | zero => intro i hi hroom; omega
  | succ room ih =>
    intro i hi hroom
    unfold scanNul
    split
    · rfl
    · next hne =>
      have hlt : i ≠ n := fun heq => hne (heq ▸ hn)
      exact ih (i + 1) (by omega) (by omega)

theorem macText_isSome (h : s.mac 17 = 0) : ∃ text, s.macText = some text := by
  obtain ⟨n, hn⟩ := Option.isSome_iff_exists.mp
    (scanNul_isSome h 18 0 (Nat.zero_le _) (by decide))
  exact ⟨slice s.mac 0 n, by rw [Session.macText, hn]; rfl⟩

/-- A terminated `mac` makes a command. -/
theorem enterAtMode_returns (hf : Holds s.frame since) (hmac : s.mac 17 = 0) :
    ∃ st s', atkIde01EnterAtMode answers s = some (st, s') ∧ s'.mac = s.mac := by
  obtain ⟨st₁, s₁, hsend₁, _, hmac₁, htells₁⟩ :=
    @sendAtCmd_tells answers (fun _ _ => (0, 0)) s since hf (ascii "AT+SEARCH?")
  simp only [atkIde01EnterAtMode, hsend₁, Option.bind_eq_bind, Option.bind_some]
  by_cases hst : st₁ = .eok
  · obtain ⟨since₁, hf₁⟩ := htells₁.frame
    obtain ⟨text, htext⟩ := macText_isSome (s := s₁) (by rw [hmac₁]; exact hmac)
    obtain ⟨st₂, s₂, hsend₂, _, hmac₂, _⟩ :=
      @sendAtCmd_tells answers (fun _ _ => (0, 0)) s₁ since₁ hf₁ (intoCmd text).text
    refine ⟨okOrError st₂, s₂, ?_, hmac₂.trans hmac₁⟩
    simp only [hst, ne_eq, not_true_eq_false, ↓reduceIte, htext, Option.bind_some, hsend₂]
    rfl
  · refine ⟨.error, s₁, ?_, hmac₁⟩
    simp only [hst, ne_eq, not_false_eq_true, ↓reduceIte]
    rfl

/-- The status of a call tells whether its answers were accepted. -/
theorem call_tells {call : Call} (hformats : call.Formats) (hf : Holds s.frame since) {st : Status}
    (h : call.run answers stack fuel s = some (st, s')) :
    Tells answers stack call.needs s s' st := by
  cases call with
  | init =>
    obtain ⟨⟨ret, a, s₁⟩, hget, hrest⟩ := Option.bind_eq_some_iff.mp h
    cases hrest
    exact (runGetter_tells searchMac_stores hf hget).okOrError
  | searchMac =>
    obtain ⟨⟨ret, mac, s₁⟩, hget, hrest⟩ := Option.bind_eq_some_iff.mp h
    cases hrest
    have htells := runGetter_tells searchMac_stores hf hget
    exact ⟨htells.status, htells.count, htells.frame⟩
  | enterAtMode => exact enterAtMode_tells hf h
  | set setter =>
    obtain ⟨cmd, hcmd⟩ := hformats
    rw [Call.run, runSetter_eq hcmd] at h
    exact sendOne_tells hf h
  | getStaticip =>
    obtain ⟨⟨ret, ip, s₁⟩, hget, hrest⟩ := Option.bind_eq_some_iff.mp h
    cases hrest
    have htells := runGetter_tells getStaticip_stores hf hget
    exact ⟨htells.status, htells.count, htells.frame⟩
  | update =>
    rw [Call.run, atkIde01Update_eq] at h
    exact sendOne_tells hf h

/-- A call returns on answers there is room for, and a search leaves a terminated
`mac`. -/
theorem call_returns {call : Call} (hformats : call.Formats) (hf : Holds s.frame since)
    (hmac : call = .enterAtMode → s.mac 17 = 0)
    (hbounded : ∀ w, some w ∈ call.needs → ∀ t, answers s.sent.length = some t →
      okAck <:+: t.text → Bounded t (stack s.sent.length) w) :
    ∃ st s', Returns (fun fuel => call.run answers stack fuel s) (st, s') ∧
      (s.mac 17 = 0 → s'.mac 17 = 0) ∧ (call = .searchMac → st = .eok → s'.mac 17 = 0) := by
  cases call with
  | init =>
    obtain ⟨st, a, f, hrun, _⟩ := runGetter_returns searchMac_stores hf
      (hbounded ⟨2, 18⟩ (by simp [Call.needs])) (ascii "AT+SEARCH?") fun _ => 0
    refine ⟨okOrError st, { s with frame := f, sent := s.sent ++ [ascii "AT+SEARCH?"] },
      (hrun.bind (fun r _ => some (okOrError r.1, r.2.2)) (Returns.pure _)).congr fun fuel => rfl,
      fun h => h, fun h => by cases h⟩
  | searchMac =>
    obtain ⟨st, mac, f, hrun, hstored⟩ := runGetter_returns searchMac_stores hf
      (hbounded ⟨2, 18⟩ (by simp [Call.needs])) (ascii "AT+SEARCH?") s.mac
    refine ⟨st, _, (hrun.bind (fun r _ => some (r.1, { r.2.2 with mac := r.2.1 }))
      (Returns.pure _)).congr fun fuel => rfl, fun h => ?_, fun _ hst => ?_⟩
    · rcases hstored with ⟨rfl, _⟩ | ⟨text, rfl⟩
      · exact h
      · rfl
    · rcases hstored with ⟨_, hne⟩ | ⟨text, rfl⟩
      · exact absurd hst hne
      · rfl
  | enterAtMode =>
    obtain ⟨st, s', hrun, hsame⟩ := @enterAtMode_returns answers s since hf (hmac rfl)
    exact ⟨st, s', (Returns.pure _).congr fun fuel => hrun, fun h => by rwa [hsame],
      fun h => by cases h⟩
  | set setter =>
    obtain ⟨cmd, hcmd⟩ := hformats
    obtain ⟨st, s', hsend, hsame⟩ := @sendOne_returns answers s since hf cmd.text
    refine ⟨st, s', (Returns.pure _).congr fun fuel => ?_, fun h => by rwa [hsame],
      fun h => by cases h⟩
    rw [Call.run, runSetter_eq hcmd, hsend]
  | getStaticip =>
    obtain ⟨st, ip, f, hrun, _⟩ := runGetter_returns getStaticip_stores hf
      (hbounded ⟨1, 15⟩ (by simp [Call.needs])) (ascii "AT+STATICIP?") s.ip
    refine ⟨st, ⟨f, s.sent ++ [ascii "AT+STATICIP?"], s.mac, ip⟩,
      (hrun.bind (fun r _ => some (r.1, { r.2.2 with ip := r.2.1 })) (Returns.pure _)).congr
        fun fuel => rfl, fun h => h, fun h => by cases h⟩
  | update =>
    obtain ⟨st, s', hsend, hsame⟩ := @sendOne_returns answers s since hf (ascii "AT+UPDATE")
    refine ⟨st, s', (Returns.pure _).congr fun fuel => ?_, fun h => by rwa [hsame],
      fun h => by cases h⟩
    rw [Call.run, atkIde01Update_eq, hsend]

/-! ## The whole run -/

/-- Every status is `ATK_IDE01_EOK` exactly when every answer was accepted. -/
structure RunTells (answers : Nat → Option Reply) (stack : Nat → Stack) (calls : List Call)
    (s s' : Session) (rets : List Status) : Prop where
  statuses : (∀ st ∈ rets, st = .eok) ↔
    AllAccepted answers stack s.sent.length (calls.flatMap Call.needs)
  length : rets.length = calls.length
  frame : ∃ since, Holds s'.frame since

theorem runCalls_tells {calls : List Call} (hformats : ∀ call ∈ calls, call.Formats)
    (hf : Holds s.frame since) {rets : List Status}
    (h : runCalls answers stack fuel calls s = some (rets, s')) :
    RunTells answers stack calls s s' rets := by
  induction calls generalizing s since rets with
  | nil =>
    cases h
    exact ⟨iff_of_true (List.forall_mem_nil _) trivial, rfl, since, hf⟩
  | cons call calls ih =>
    obtain ⟨⟨st, s₁⟩, hcall, hrest⟩ := Option.bind_eq_some_iff.mp h
    obtain ⟨⟨rets', s₂⟩, hcalls, hlast⟩ := Option.bind_eq_some_iff.mp hrest
    cases hlast
    obtain ⟨hformat, hformats'⟩ := List.forall_mem_cons.mp hformats
    have htells := call_tells hformat hf hcall
    obtain ⟨since₁, hf₁⟩ := htells.frame
    have hrun := ih hformats' hf₁ hcalls
    refine ⟨?_, congrArg (· + 1) hrun.length, hrun.frame⟩
    rw [List.forall_mem_cons, List.flatMap_cons, allAccepted_append, ← htells.status]
    constructor
    · intro hall
      refine ⟨hall.1, ?_⟩
      rw [← htells.count hall.1]
      exact hrun.statuses.mp hall.2
    · intro hall
      refine ⟨hall.1, hrun.statuses.mpr ?_⟩
      rw [htells.count hall.1]
      exact hall.2

theorem runCalls_cons {call : Call} {calls : List Call} {st : Status} {s₁ s₂ : Session}
    {rets : List Status} (hcall : Returns (fun fuel => call.run answers stack fuel s) (st, s₁))
    (hcalls : Returns (fun fuel => runCalls answers stack fuel calls s₁) (rets, s₂)) :
    Returns (fun fuel => runCalls answers stack fuel (call :: calls) s) (st :: rets, s₂) := by
  have hrest := hcalls.bind (fun r _ => some (st :: r.1, r.2)) (Returns.pure _)
  exact (Returns.bind (fun r fuel => (runCalls answers stack fuel calls r.2).bind
    fun r' => some (r.1 :: r'.1, r'.2)) hcall hrest).congr fun fuel => rfl

theorem call_tells_of_returns {call : Call} (hformats : call.Formats) (hf : Holds s.frame since)
    {st : Status} (h : Returns (fun fuel => call.run answers stack fuel s) (st, s')) :
    Tells answers stack call.needs s s' st := by
  obtain ⟨bound, hbound⟩ := h
  exact call_tells hformats hf (hbound bound le_rfl)

/-- The calls return when every parameter that is found is one there is room for. -/
theorem runCalls_returns {calls : List Call} (hformats : ∀ call ∈ calls, call.Formats)
    (hf : Holds s.frame since) (hmac : s.mac 17 = 0)
    (hbounded : ∀ n w, some w ∈ calls.flatMap Call.needs → ∀ t, answers n = some t →
      okAck <:+: t.text → Bounded t (stack n) w) :
    ∃ r, Returns (fun fuel => runCalls answers stack fuel calls s) r := by
  induction calls generalizing s since with
  | nil => exact ⟨_, Returns.pure ([], s)⟩
  | cons call calls ih =>
    obtain ⟨hformat, hformats'⟩ := List.forall_mem_cons.mp hformats
    rw [List.flatMap_cons] at hbounded
    obtain ⟨st, s₁, hcall, hmac₁, _⟩ := @call_returns answers stack s since call hformat hf
      (fun _ => hmac) fun w hw => hbounded _ w (List.mem_append_left _ hw)
    obtain ⟨since₁, hf₁⟩ := (call_tells_of_returns hformat hf hcall).frame
    obtain ⟨⟨rets, s₂⟩, hcalls⟩ := ih hformats' hf₁ (hmac₁ hmac) fun n w hw =>
      hbounded n w (List.mem_append_right _ hw)
    exact ⟨_, runCalls_cons hcall hcalls⟩

/-- A call whose answers are accepted succeeds. -/
theorem call_accepted {call : Call} (hformats : call.Formats) (hf : Holds s.frame since)
    (hmac : call = .enterAtMode → s.mac 17 = 0)
    (hall : AllAccepted answers stack s.sent.length call.needs) :
    ∃ s', Returns (fun fuel => call.run answers stack fuel s) (.eok, s') ∧
      (s.mac 17 = 0 ∨ call = .searchMac → s'.mac 17 = 0) ∧ (∃ since', Holds s'.frame since') ∧
      s'.sent.length = s.sent.length + call.needs.length := by
  have hbounded : ∀ w, some w ∈ call.needs → ∀ t, answers s.sent.length = some t →
      okAck <:+: t.text → Bounded t (stack s.sent.length) w := by
    intro w hw t ht _
    have hneeds : call.needs = [some w] := by
      cases call <;> simp_all [Call.needs]
    rw [hneeds] at hall
    obtain ⟨t', ht', _, hfits⟩ := hall.1
    cases ht.symm.trans ht'
    exact (hfits w rfl).bounded
  obtain ⟨st, s', hcall, hkeeps, hstores⟩ := call_returns hformats hf hmac hbounded
  have htells := call_tells_of_returns hformats hf hcall
  obtain rfl := htells.status.mpr hall
  exact ⟨s', hcall, fun h => h.elim hkeeps fun hsearch => hstores hsearch rfl, htells.frame,
    htells.count rfl⟩

theorem runCalls_accepted {calls : List Call} (hformats : ∀ call ∈ calls, call.Formats)
    (hf : Holds s.frame since) (hmac : s.mac 17 = 0)
    (hall : AllAccepted answers stack s.sent.length (calls.flatMap Call.needs)) :
    ∃ r, Returns (fun fuel => runCalls answers stack fuel calls s) r := by
  induction calls generalizing s since with
  | nil => exact ⟨_, Returns.pure ([], s)⟩
  | cons call calls ih =>
    obtain ⟨hformat, hformats'⟩ := List.forall_mem_cons.mp hformats
    rw [List.flatMap_cons, allAccepted_append] at hall
    obtain ⟨s₁, hcall, hmac₁, ⟨since₁, hf₁⟩, hcount⟩ :=
      call_accepted hformat hf (fun _ => hmac) hall.1
    rw [← hcount] at hall
    obtain ⟨⟨rets, s₂⟩, hcalls⟩ := ih hformats' hf₁ (hmac₁ (.inl hmac)) hall.2
    exact ⟨_, runCalls_cons hcall hcalls⟩

/-- The search comes before `mac` is used. -/
theorem configCalls_accepted (hf : Holds s.frame since)
    (hall : AllAccepted answers stack s.sent.length (configCalls.flatMap Call.needs)) :
    ∃ r, Returns (fun fuel => runCalls answers stack fuel configCalls s) r := by
  have hformats := configCalls_formats
  rw [configCalls] at hformats hall ⊢
  obtain ⟨hinit, hformats'⟩ := List.forall_mem_cons.mp hformats
  obtain ⟨hsearch, hformats''⟩ := List.forall_mem_cons.mp hformats'
  rw [List.flatMap_cons, allAccepted_append, List.flatMap_cons, allAccepted_append] at hall
  obtain ⟨s₁, hrun₁, _, ⟨since₁, hf₁⟩, hcount₁⟩ :=
    call_accepted hinit hf (fun h => by cases h) hall.1
  rw [← hcount₁] at hall
  obtain ⟨s₂, hrun₂, hmac₂, ⟨since₂, hf₂⟩, hcount₂⟩ :=
    call_accepted hsearch hf₁ (fun h => by cases h) hall.2.1
  rw [← hcount₂] at hall
  obtain ⟨⟨rets, s₃⟩, hrest⟩ := runCalls_accepted hformats'' hf₂ (hmac₂ (.inr rfl)) hall.2.2
  exact ⟨_, runCalls_cons hrun₁ (runCalls_cons hrun₂ hrest)⟩

theorem runCalls_append (calls' : List Call) : ∀ (calls : List Call) (s : Session),
    runCalls answers stack fuel (calls ++ calls') s =
      (runCalls answers stack fuel calls s).bind fun r =>
        (runCalls answers stack fuel calls' r.2).map fun r' => (r.1 ++ r'.1, r'.2) := by
  intro calls
  induction calls with
  | nil =>
    intro s
    simp [runCalls]
  | cons call calls ih =>
    intro s
    rw [List.cons_append, runCalls, runCalls]
    cases call.run answers stack fuel s with
    | none => rfl
    | some r =>
      simp only [Option.bind_eq_bind, Option.bind_some, ih r.2]
      cases runCalls answers stack fuel calls r.2 with
      | none => rfl
      | some r' =>
        simp only [Option.bind_some, Option.pure_def]
        cases runCalls answers stack fuel calls' r'.2 with
        | none => rfl
        | some r'' => rfl

end Calls

theorem code_le (st : Status) : (code st).toNat ≤ 3 := by
  cases st <;> decide

theorem code_eq_zero (st : Status) : (code st).toNat = 0 ↔ st = .eok := by
  cases st <;> decide

theorem foldl_code_toNat : ∀ (rets : List Status) (ret : UInt8), ret.toNat + 3 * rets.length < 256 →
    (rets.foldl (fun ret st => ret + code st) ret).toNat =
      ret.toNat + (rets.map fun st => (code st).toNat).sum := by
  intro rets
  induction rets with
  | nil => intro ret _; rfl
  | cons st rets ih =>
    intro ret hlt
    have hle := code_le st
    rw [List.length_cons] at hlt
    have hadd : (ret + code st).toNat = ret.toNat + (code st).toNat := by
      rw [UInt8.toNat_add]
      exact Nat.mod_eq_of_lt (by omega)
    rw [List.foldl_cons, ih _ (by omega), hadd, List.map_cons, List.sum_cons, Nat.add_assoc]

/-- The sum of so few statuses does not wrap. -/
theorem retSum_ne_zero_iff {rets : List Status} (hlen : 3 * rets.length < 256) :
    retSum rets ≠ 0 ↔ ∃ st ∈ rets, st ≠ .eok := by
  have hsum : (retSum rets).toNat = (rets.map fun st => (code st).toNat).sum := by
    rw [retSum, foldl_code_toNat rets 0 (by simpa using hlen)]
    exact Nat.zero_add _
  have hzero : retSum rets = 0 ↔ ∀ st ∈ rets, st = .eok := by
    rw [← UInt8.toNat_inj, hsum, UInt8.toNat_zero, List.sum_eq_zero_iff_forall_eq_nat,
      List.forall_mem_map]
    exact forall₂_congr fun st _ => code_eq_zero st
  rw [ne_eq, hzero]
  push Not
  rfl

section Outcome

variable {answers : Nat → Option Reply} {stack : Nat → Stack} {frame : RxFrame} {since : List UInt8}
  {mac ip : Nat → UInt8}

/-- The save at the end returns. -/
theorem runCalls_update {s : Session} (hf : Holds s.frame since) :
    ∃ st s', (∀ fuel, runCalls answers stack fuel [.update] s = some ([st], s')) ∧
      s'.sent = s.sent ++ [ascii "AT+UPDATE"] := by
  obtain ⟨st, s', hsend, hsent, _⟩ :=
    @sendAtCmd_tells answers stack s since hf (ascii "AT+UPDATE")
  refine ⟨okOrError st, s', fun fuel => ?_, hsent⟩
  simp only [runCalls, Call.run, atkIde01Update, hsend, Option.bind_eq_bind, Option.bind_some,
    Option.pure_def]

/-- What every run of `usart_net_init` does: the configuration is saved, whatever
the calls before returned, and a failure of any call is reported. -/
theorem usartNetInit_outcome (hf : Holds frame since) {fuel : Nat} {o : Outcome}
    (h : usartNetInit answers stack fuel frame mac ip = some o) :
    ascii "AT+UPDATE" ∈ o.sent ∧
      (o.failed = true ↔ ∃ st ∈ o.rets, st ≠ .eok) ∧
      ((∀ st ∈ o.rets.dropLast, st = .eok) ↔
        AllAccepted answers stack 0 (configCalls.flatMap Call.needs)) := by
  obtain ⟨⟨rets, s⟩, hrun, hout⟩ := Option.bind_eq_some_iff.mp h
  cases hout
  rw [runCalls_append] at hrun
  obtain ⟨⟨rets₀, s₀⟩, hconfig, hlast⟩ := Option.bind_eq_some_iff.mp hrun
  have htells := runCalls_tells configCalls_formats hf hconfig
  obtain ⟨since₀, hf₀⟩ := htells.frame
  obtain ⟨st, s₁, hupdate, hsent⟩ := @runCalls_update answers stack since₀ s₀ hf₀
  rw [hupdate] at hlast
  cases hlast
  refine ⟨?_, ?_, ?_⟩
  · rw [hsent]
    exact List.mem_append_right _ List.mem_cons_self
  · have hlen : 3 * (rets₀ ++ [st]).length < 256 := by
      rw [List.length_append, htells.length, List.length_singleton]
      decide
    rw [← retSum_ne_zero_iff hlen, decide_eq_true_iff]
  · rw [List.dropLast_concat]
    exact htells.statuses

/-- A run returns when the calls before the save do. -/
theorem usartNetInit_returns (hf : Holds frame since) {r : List Status × Session}
    (h : Returns (fun fuel => runCalls answers stack fuel configCalls ⟨frame, [], mac, ip⟩) r) :
    ∃ o, Returns (fun fuel => usartNetInit answers stack fuel frame mac ip) o := by
  obtain ⟨bound, hbound⟩ := id h
  obtain ⟨since', hf'⟩ := (runCalls_tells configCalls_formats hf (hbound bound le_rfl)).frame
  obtain ⟨st, s', hupdate, _⟩ := @runCalls_update answers stack since' r.2 hf'
  have hrun : Returns
      (fun fuel => runCalls answers stack fuel (configCalls ++ [.update]) ⟨frame, [], mac, ip⟩)
      (r.1 ++ [st], s') := by
    refine (h.bind (fun r fuel => (runCalls answers stack fuel [.update] r.2).map
      fun r' => (r.1 ++ r'.1, r'.2)) ?_).congr fun fuel => runCalls_append _ _ _
    exact (Returns.pure _).congr fun fuel => by rw [hupdate]; rfl
  exact ⟨_, (hrun.bind (fun r _ => some (⟨r.1, r.2.sent, retSum r.1 ≠ 0⟩ : Outcome))
    (Returns.pure _)).congr fun fuel => rfl⟩

/-- The configuration is saved only when every call before succeeded. -/
def Outcome.SavedWhole (o : Outcome) : Prop :=
  ascii "AT+UPDATE" ∈ o.sent → ∀ st ∈ o.rets.dropLast, st = .eok

/-- A failure is reported exactly when a call failed. -/
def Outcome.Reported (o : Outcome) : Prop :=
  o.failed = true ↔ ∃ st ∈ o.rets, st ≠ .eok

/-- A run ends, with a whole configuration saved, exactly when the commands before
`AT+UPDATE` were all accepted, and a run that ends reports its failures. -/
theorem saved_and_reported_iff (hf : Holds frame since) :
    ((∃ o, Returns (fun fuel => usartNetInit answers stack fuel frame mac ip) o ∧
        o.SavedWhole ∧ o.Reported) ↔
      AllAccepted answers stack 0 (configCalls.flatMap Call.needs)) ∧
    ∀ o, Returns (fun fuel => usartNetInit answers stack fuel frame mac ip) o → o.Reported := by
  have hreported : ∀ o, Returns (fun fuel => usartNetInit answers stack fuel frame mac ip) o →
      o.Reported := by
    intro o ho
    obtain ⟨fuel, hfuel⟩ := ho
    exact (usartNetInit_outcome hf (hfuel fuel le_rfl)).2.1
  refine ⟨⟨fun hmeets => ?_, fun hall => ?_⟩, hreported⟩
  · obtain ⟨o, ⟨fuel, hfuel⟩, hsaved, _⟩ := hmeets
    obtain ⟨hsent, _, hwhole⟩ := usartNetInit_outcome hf (hfuel fuel le_rfl)
    exact hwhole.mp (hsaved hsent)
  · obtain ⟨r, hr⟩ := @configCalls_accepted answers stack ⟨frame, [], mac, ip⟩ since hf hall
    obtain ⟨o, ho⟩ := usartNetInit_returns hf hr
    obtain ⟨fuel, hfuel⟩ := id ho
    exact ⟨o, ho, fun _ => (usartNetInit_outcome hf (hfuel fuel le_rfl)).2.2.mpr hall,
      hreported o ho⟩

end Outcome

section Instances

/-- The answer to `AT+SEARCH?`. -/
def searchReply : Reply :=
  ⟨ascii "+SEARCH=\"ATK-IDE01\",\"FF-FF-FF-FF-FF-FF\"\r\nOK\r\n", by decide, by decide⟩

def staticipReply : Reply :=
  ⟨ascii "+STATICIP=\"192.168.10.58\"\r\nOK\r\n", by decide, by decide⟩

def okReply : Reply := ⟨ascii "OK\r\n", by decide, by decide⟩

def errorReply : Reply := ⟨ascii "ERROR\r\n", by decide, by decide⟩

/-- What the module answers to the commands of `usart_net_init`. -/
def goodAnswers (n : Nat) : Option Reply :=
  some (if n < 3 then searchReply else if n = 15 then staticipReply else okReply)

theorem searchReply_fits : Fits searchReply (fun _ => (0, 0)) ⟨2, 18⟩ :=
  ⟨21, 17, (getParameter_settles _ _ _ _ _ _).returns (n := 200) rfl, by decide⟩

theorem staticipReply_fits : Fits staticipReply (fun _ => (0, 0)) ⟨1, 15⟩ :=
  ⟨11, 13, (getParameter_settles _ _ _ _ _ _).returns (n := 200) rfl, by decide⟩

theorem goodAnswers_accepted :
    AllAccepted goodAnswers (fun _ _ => (0, 0)) 0 (configCalls.flatMap Call.needs) := by
  have hsearch : Accepted (fun _ => (0, 0)) (some ⟨2, 18⟩) (some searchReply) :=
    ⟨searchReply, rfl, by decide, fun w hw => by cases hw; exact searchReply_fits⟩
  have hstaticip : Accepted (fun _ => (0, 0)) (some ⟨1, 15⟩) (some staticipReply) :=
    ⟨staticipReply, rfl, by decide, fun w hw => by cases hw; exact staticipReply_fits⟩
  have hsearched : Accepted (fun _ => (0, 0)) none (some searchReply) :=
    accepted_none.mpr ⟨searchReply, rfl, by decide⟩
  have hok : Accepted (fun _ => (0, 0)) none (some okReply) :=
    accepted_none.mpr ⟨okReply, rfl, by decide⟩
  exact ⟨hsearch, hsearch, hsearched, hok, hok, hok, hok, hok, hok, hok, hok, hok, hok, hok, hok,
    hstaticip, trivial⟩

theorem saved_and_reported_ok :
    ∃ o, Returns (fun fuel => usartNetInit goodAnswers (fun _ _ => (0, 0)) fuel zero
      (fun _ => 0x55) fun _ => 0x55) o ∧ o.SavedWhole ∧ o.Reported :=
  (@saved_and_reported_iff goodAnswers (fun _ _ => (0, 0)) zero [] (fun _ => 0x55) (fun _ => 0x55)
    holds_zero).1.mpr goodAnswers_accepted

/-- The module refuses the DNS server and accepts everything else. -/
def refusedDns (n : Nat) : Option Reply := if n = 11 then some errorReply else goodAnswers n

/-- No parameter in these answers is too long, whichever is asked for. -/
theorem refusedDns_bounded {n : Nat} {t : Reply} (ht : refusedDns n = some t)
    (hok : okAck <:+: t.text) {w : Want} (hw : w = ⟨2, 18⟩ ∨ w = ⟨1, 15⟩) :
    Bounded t (fun _ => (0, 0)) w := by
  have hcases : t = errorReply ∨ t = searchReply ∨ t = staticipReply ∨ t = okReply := by
    rw [refusedDns, goodAnswers] at ht
    split_ifs at ht <;> cases ht <;> simp
  rcases hcases with rfl | rfl | rfl | rfl
  · exact absurd hok (by decide)
  · rcases hw with rfl | rfl
    · exact searchReply_fits.bounded
    · exact ⟨.eok, 9, 9, (getParameter_settles _ _ _ _ _ _).returns (n := 200) rfl, by decide⟩
  · rcases hw with rfl | rfl
    · exact ⟨.eok, 0, 0, (getParameter_settles _ _ _ _ _ _).returns (n := 200) rfl, by decide⟩
    · exact staticipReply_fits.bounded
  · rcases hw with rfl | rfl
    · exact ⟨.einval, 0, 0, (getParameter_settles _ _ _ _ _ _).returns (n := 200) rfl, by decide⟩
    · exact ⟨.einval, 0, 0, (getParameter_settles _ _ _ _ _ _).returns (n := 200) rfl, by decide⟩

theorem saved_mixed :
    ∃ o, Returns (fun fuel => usartNetInit refusedDns (fun _ _ => (0, 0)) fuel zero
      (fun _ => 0) fun _ => 0) o ∧ ¬ (o.SavedWhole ∧ o.Reported) := by
  have hwants : ∀ w, some w ∈ configCalls.flatMap Call.needs → w = ⟨2, 18⟩ ∨ w = ⟨1, 15⟩ := by
    intro w hw
    simpa [configCalls, Call.needs] using hw
  obtain ⟨r, hr⟩ := @runCalls_returns refusedDns (fun _ _ => (0, 0))
    ⟨zero, [], fun _ => 0, fun _ => 0⟩ [] configCalls configCalls_formats holds_zero rfl
    fun n w hw t ht hok => refusedDns_bounded ht hok (hwants w hw)
  obtain ⟨o, ho⟩ := usartNetInit_returns holds_zero hr
  refine ⟨o, ho, fun hboth => ?_⟩
  obtain ⟨fuel, hfuel⟩ := id ho
  obtain ⟨hsent, _, hwhole⟩ := usartNetInit_outcome holds_zero (hfuel fuel le_rfl)
  have hall := hwhole.mp (hboth.1 hsent)
  obtain ⟨t, ht, hok, _⟩ := hall.get (show (configCalls.flatMap Call.needs)[11]? = some none from rfl)
  cases ht
  exact absurd hok (by decide)

end Instances

end StmGateway.Net.Init
