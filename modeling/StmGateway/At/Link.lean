import StmGateway.At.Setters
import StmGateway.Uart.RxBuffer

/-!
# `atk_ide01_send_at_cmd`

The call restarts the receive frame, sends the command line and then looks once
a tick whether a finished frame contains the expected answer. What the module
sends, and when, is a schedule of bytes, idle lines and polls, where nothing comes
while a poll is carried out. An interrupt may come between any two statements of
the call, though; `statement` is the call one statement at a time.
-/
namespace StmGateway.At.Link

open StmGateway.Lib StmGateway.At.Parameter
open StmGateway.Uart.RxBuffer (RxFrame rxAppend rxIdle restartLen restartFinsh atkIde01UartRxRestart
  atkIde01UartRxGetFrame Holds append_holds getFrame_holds getFrame_terminates Terminated
  atkIde01UartRxBufSize)

/-- `ATK_IDE01_AT_TIMEOUT`. -/
def atkIde01AtTimeout : Nat := 5000

/-- The answer every command waits for. -/
def okAck : List UInt8 := ascii "OK"

inductive Event where
  | byte (b : UInt8)
  | idle
  | poll

/-- One pass of the loop, with no interrupt inside: whether the answer is there. A
finished frame without it is dropped. `ack` is `none` for NULL. -/
def poll (ack : Option (List UInt8)) (f : RxFrame) : Option (Bool × RxFrame) := do
  let (got, f) ← atkIde01UartRxGetFrame f
  if got then
    match ack with
    | some ack =>
      if (strstr f.text ack).isSome then return (true, f)
      else return (false, atkIde01UartRxRestart f)
    | none => return (true, f)
  else
    return (false, f)

/-- The loop over what happens on the line. A schedule that ends before the call
does gives no result. -/
def pollLoop (ack : Option (List UInt8)) : Nat → RxFrame → List Event → Option (Status × RxFrame)
  | 0, f, _ => some (.etimeout, f)
  | _ + 1, _, [] => none
  | timeout + 1, f, .byte b :: events => do
    let f ← rxAppend f b
    pollLoop ack (timeout + 1) f events
  | timeout + 1, f, .idle :: events => pollLoop ack (timeout + 1) (rxIdle f) events
  | timeout + 1, f, .poll :: events => do
    let (found, f) ← poll ack f
    if found then return (.eok, f) else pollLoop ack timeout f events

/-- `atk_ide01_send_at_cmd` with the frame it finds, up to its return. -/
def atkIde01SendAtCmd (ack : Option (List UInt8)) (timeout : Nat) (f : RxFrame)
    (events : List Event) : Option (Status × RxFrame) :=
  let f := atkIde01UartRxRestart f
  if timeout = 0 then some (.eok, f) else pollLoop ack timeout f events

/-- The statement a call is at, inside `atk_ide01_uart_rx_restart`, for the first
time or behind a frame without the answer, and `atk_ide01_uart_rx_get_frame`. -/
inductive Pc where
  | firstLen
  | firstFinsh
  | printf
  | checkFinsh
  | terminate
  | search
  | restartLen
  | restartFinsh
  | delay
  deriving DecidableEq

/-- A call of `atk_ide01_send_at_cmd` between two of its statements. -/
structure Call where
  pc : Pc
  timeout : Nat

/-- The next statement: where the call is then, or what it returns, and the frame. -/
def statement (ack : Option (List UInt8)) (c : Call) (f : RxFrame) :
    Option (Except Status Call × RxFrame) :=
  match c.pc with
  | .firstLen => some (.ok { c with pc := .firstFinsh }, restartLen f)
  | .firstFinsh => some (.ok { c with pc := .printf }, restartFinsh f)
  | .printf => some (if c.timeout = 0 then .error .eok else .ok { c with pc := .checkFinsh }, f)
  | .checkFinsh => some (.ok { c with pc := if f.finsh then .terminate else .delay }, f)
  | .terminate => do
    let f ← f.store f.len 0
    return (if ack.isSome then .ok { c with pc := .search } else .error .eok, f)
  | .search =>
    some (if (strstr f.text (ack.getD [])).isSome then .error .eok
      else .ok { c with pc := .restartLen }, f)
  | .restartLen => some (.ok { c with pc := .restartFinsh }, restartLen f)
  | .restartFinsh => some (.ok { c with pc := .delay }, restartFinsh f)
  | .delay =>
    some (if c.timeout - 1 = 0 then .error .etimeout else .ok ⟨.checkFinsh, c.timeout - 1⟩, f)

section Statements

variable {ack : List UInt8} {timeout : Nat} {f : RxFrame}

theorem statement_printf (ht : timeout ≠ 0) :
    statement (some ack) ⟨.printf, timeout⟩ f = some (.ok ⟨.checkFinsh, timeout⟩, f) := by
  simp [statement, ht]

theorem statement_finished (hf : f.finsh = true) :
    statement (some ack) ⟨.checkFinsh, timeout⟩ f = some (.ok ⟨.terminate, timeout⟩, f) := by
  simp [statement, hf]

theorem statement_unfinished (hf : f.finsh = false) :
    statement (some ack) ⟨.checkFinsh, timeout⟩ f = some (.ok ⟨.delay, timeout⟩, f) := by
  simp [statement, hf]

theorem statement_terminate {f' : RxFrame} (hf : f.store f.len 0 = some f') :
    statement (some ack) ⟨.terminate, timeout⟩ f = some (.ok ⟨.search, timeout⟩, f') := by
  simp [statement, hf]

theorem statement_found (hf : (strstr f.text ack).isSome = true) :
    statement (some ack) ⟨.search, timeout⟩ f = some (.error .eok, f) := by
  simp [statement, hf]

theorem statement_missed (hf : (strstr f.text ack).isSome = false) :
    statement (some ack) ⟨.search, timeout⟩ f = some (.ok ⟨.restartLen, timeout⟩, f) := by
  simp [statement, hf]

theorem statement_delay (ht : timeout - 1 ≠ 0) :
    statement (some ack) ⟨.delay, timeout⟩ f = some (.ok ⟨.checkFinsh, timeout - 1⟩, f) := by
  simp [statement, ht]

theorem statement_timeout (ht : timeout - 1 = 0) :
    statement (some ack) ⟨.delay, timeout⟩ f = some (.error .etimeout, f) := by
  simp [statement, ht]

end Statements

theorem restartLen_holds {f : RxFrame} (hlast : f.buf 2047 = 0) : Holds (restartLen f) [] :=
  ⟨rfl, hlast, nofun⟩

theorem restartFinsh_holds {f : RxFrame} {since : List UInt8} (h : Holds f since) :
    Holds (restartFinsh f) since :=
  ⟨h.len_eq, h.last, h.contents⟩

theorem restart_holds {f : RxFrame} (hlast : f.buf 2047 = 0) :
    Holds (atkIde01UartRxRestart f) [] :=
  restartFinsh_holds (restartLen_holds hlast)

theorem idle_holds {f : RxFrame} {since : List UInt8} (h : Holds f since) :
    Holds (rxIdle f) since :=
  ⟨h.len_eq, h.last, h.contents⟩

/-- A poll that finds no finished frame changes nothing. -/
theorem poll_unfinished {f : RxFrame} (hf : f.finsh = false) (ack : Option (List UInt8)) :
    poll ack f = some (false, f) := by
  simp [poll, atkIde01UartRxGetFrame, hf]

/-- A poll that finds a finished frame looks for the answer in its text, which
is made of bytes that came in since the restart. -/
theorem poll_finished {f : RxFrame} {since : List UInt8} (h : Holds f since) (hf : f.finsh = true)
    (ack : List UInt8) :
    ∃ f', Holds f' since ∧ f'.finsh = true ∧ Terminated f' ∧
      poll (some ack) f =
        if (strstr f'.text ack).isSome then some (true, f')
        else some (false, atkIde01UartRxRestart f') := by
  obtain ⟨f', hget, hholds, hfinsh, hterm⟩ := getFrame_terminates h hf
  refine ⟨f', hholds, hfinsh, hterm, ?_⟩
  simp only [poll, hget, Option.bind_eq_bind, Option.bind_some, ↓reduceIte, Option.pure_def]

theorem cString_isPrefix_slice {buf : Nat → UInt8} {n : Nat} (hn : buf n = 0) :
    ∀ room i, i ≤ n → n < i + room → cString buf room i <+: slice buf i (n - i) := by
  intro room
  induction room with
  | zero => intro i hi hroom; omega
  | succ room ih =>
    intro i hi hroom
    unfold cString
    split
    · exact List.nil_prefix
    · next hne =>
      have hlt : i < n := by
        by_contra hge
        obtain rfl : i = n := by omega
        exact hne hn
      rw [show n - i = n - (i + 1) + 1 by omega, slice_succ, List.cons_prefix_cons]
      exact ⟨rfl, ih (i + 1) (by omega) (by omega)⟩

/-- The text of a terminated frame came in since the restart. -/
theorem text_occurs {f : RxFrame} {since : List UInt8} (h : Holds f since) (hterm : Terminated f) :
    f.text <:+: since := by
  obtain ⟨_, hle⟩ := h.len_le
  have hprefix : f.text <+: slice f.buf 0 f.len := by
    have := @cString_isPrefix_slice f.buf f.len hterm atkIde01UartRxBufSize 0 (Nat.zero_le _)
      (by unfold atkIde01UartRxBufSize; omega)
    rwa [Nat.sub_zero] at this
  have hbytes : slice f.buf 0 f.len = f.bytes := by
    simp [slice, RxFrame.bytes, List.range_eq_range']
  rw [hbytes, h.bytes_eq] at hprefix
  exact hprefix.isInfix.trans (List.drop_suffix _ _).isInfix

end StmGateway.At.Link
