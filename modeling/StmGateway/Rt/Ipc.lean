import StmGateway.Lib.Ring
import StmGateway.Rt.Delay

/-!
# Mailboxes

`rt_mb_init`, `rt_mb_send_wait`, `rt_mb_send`, `rt_mb_recv` and `rt_mb_control` of
`rt-thread/src/ipc.c`, over the kernel with its clock. A call runs up to its
`rt_schedule` with interrupts disabled; a thread that waits goes on from there when
it is ready and runs again. Between two such stretches any thread may run, an
interrupt may send, and time may pass.
-/
namespace StmGateway.Rt.Ipc

open StmGateway.Lib
open StmGateway.Rt.Object
open StmGateway.Rt.Thread
open StmGateway.Rt.Schedule (Ready Suspended)
open StmGateway.Rt.ReadyQueue (bind_ok)
open StmGateway.Rt.Clock

def rtEfull : Int := 3

def rtMbEntryMax : UInt16 := 0xffff

def rtIpcFlagFifo : UInt8 := 0x00
def rtIpcFlagPrio : UInt8 := 0x01

structure Mailbox (τ : Type) where
  msgPool : Nat → UInt32
  size : UInt16
  entry : UInt16
  inOffset : UInt16
  outOffset : UInt16
  flag : UInt8
  suspendThread : List τ
  suspendSenderThread : List τ

/-- The two lists of a mailbox. -/
inductive Waiters where
  | receivers
  | senders
  deriving DecidableEq

def Mailbox.waiting {τ : Type} (mb : Mailbox τ) : Waiters → List τ
  | .receivers => mb.suspendThread
  | .senders => mb.suspendSenderThread

def Mailbox.setWaiting {τ : Type} (mb : Mailbox τ) (list : List τ) : Waiters → Mailbox τ
  | .receivers => { mb with suspendThread := list }
  | .senders => { mb with suspendSenderThread := list }

/-- What a thread that waits in a call goes on with: the locals of the call. -/
inductive Call where
  | idle
  | sending (value : UInt32) (timeout : Int32) (tickDelta : UInt32)
  | receiving (timeout : Int32) (tickDelta : UInt32)

structure System (τ : Type) where
  clock : Clocked τ
  mb : Mailbox τ
  call : τ → Call

/-- How a stretch of a call ends. `failed` is a return of `thread->error`. -/
inductive Outcome where
  | waitsToSend
  | waitsToReceive
  | sent (value : UInt32)
  | full
  | received (value : UInt32)
  | empty
  | failed (error : Int)
  | none
  deriving DecidableEq

/-- What the caller gets, once the call returns. -/
def Outcome.status : Outcome → Option Int
  | .sent _ | .received _ => some rtEok
  | .full => some (-rtEfull)
  | .empty => some (-rtEtimeout)
  | .failed error => some error
  | .waitsToSend | .waitsToReceive | .none => Option.none

variable {τ : Type}

/-- The object itself is left out. -/
def rtMbInit (msgPool : Nat → UInt32) (size : UInt32) (flag : UInt8) : Mailbox τ where
  msgPool
  size := size.toUInt16
  entry := 0
  inOffset := 0
  outOffset := 0
  flag
  suspendThread := []
  suspendSenderThread := []

/-- `rt_list_insert_before` at the position the flag asks for. -/
def suspendAt (k : Kernel τ) (flag : UInt8) (t : τ) (list : List τ) : List τ :=
  if flag = rtIpcFlagFifo then list ++ [t]
  else if flag = rtIpcFlagPrio then
    (list.takeWhile fun s => ¬(k.tcb t).currentPriority < (k.tcb s).currentPriority) ++ [t] ++
      (list.dropWhile fun s => ¬(k.tcb t).currentPriority < (k.tcb s).currentPriority)
  else list

/-- What is left of the waiting time. -/
def remaining (timeout : Int32) (tickDelta : UInt32) (tick : UInt32) : Int32 :=
  if timeout > 0 then
    let timeout := timeout - (tick - tickDelta).toInt32
    if timeout < 0 then 0 else timeout
  else timeout

namespace System

/-- A thread is on one list at most: one that is no longer suspended, because it was
resumed or closed, has left the mailbox's. -/
def withClock (s : System τ) (clock : Clocked τ) : System τ :=
  { s with
    clock
    mb := { s.mb with
      suspendThread := s.mb.suspendThread.filter fun t => Suspended clock.kernel t
      suspendSenderThread := s.mb.suspendSenderThread.filter fun t => Suspended clock.kernel t } }

variable [DecidableEq τ]

def setError (s : System τ) (t : τ) (error : Int) : System τ :=
  let kernel := s.clock.kernel.setTcb t { s.clock.kernel.tcb t with error }
  { s with clock := { s.clock with kernel } }

def setCall (s : System τ) (t : τ) (call : Call) : System τ :=
  { s with call := Function.update s.call t call }

/-- `rt_timer_control` and `rt_timer_start` of the thread timer. -/
def startTimer (s : System τ) (t : τ) (timeout : Int32) : Except String (System τ) := do
  let (_, kernel) ← rtTimerSetTime s.clock.kernel t timeout.toInt.toNat
  let (_, clock) ← Clocked.rtTimerStart { s.clock with kernel } t
  return { s with clock }

def rtIpcListSuspend (s : System τ) (list : Waiters) (t : τ) (flag : UInt8) :
    Except String (System τ) := do
  let (_, clock) ← s.clock.rtThreadSuspend t
  let s := s.withClock clock
  return { s with mb :=
    s.mb.setWaiting (suspendAt s.clock.kernel flag t (s.mb.waiting list)) list }

/-- Where the list is not empty. -/
def rtIpcListResume (s : System τ) (list : Waiters) : Except String (System τ) :=
  match s.mb.waiting list with
  | [] => return s
  | t :: _ => do
    let (_, clock) ← s.clock.rtThreadResume t
    return s.withClock clock

/-- Each thread of the list is suspended, so the loop takes one off at a time. -/
def resumeEach (s : System τ) : List τ → Except String (System τ)
  | [] => return s
  | t :: rest => do
    let s := s.setError t (-rtError)
    let (_, clock) ← s.clock.rtThreadResume t
    resumeEach (s.withClock clock) rest

def rtIpcListResumeAll (s : System τ) (list : Waiters) : Except String (System τ) :=
  s.resumeEach (s.mb.waiting list)

/-- What both loops do before their `rt_schedule`. -/
def suspendCurrent (s : System τ) (list : Waiters) (t : τ) (timeout : Int32) :
    Except String (System τ) := do
  let s ← s.rtIpcListSuspend list t s.mb.flag
  if timeout > 0 then s.startTimer t timeout else return s

/-- From the end of the loop on: the mail goes into the pool. -/
def put (s : System τ) (value : UInt32) : Except String (System τ × Outcome) := do
  let inOffset := s.mb.inOffset + 1
  let mb : Mailbox τ := { s.mb with
    msgPool := Function.update s.mb.msgPool s.mb.inOffset.toNat value
    inOffset := if inOffset ≥ s.mb.size then 0 else inOffset }
  if mb.entry < rtMbEntryMax then
    let s := { s with mb := { mb with entry := mb.entry + 1 } }
    let s ← s.rtIpcListResume .receivers
    return (s, .sent value)
  else
    return ({ s with mb }, .full)

/-- The loop of `rt_mb_send_wait`, up to its `rt_schedule`. -/
def sendLoop (s : System τ) (t : τ) (value : UInt32) (timeout : Int32) :
    Except String (System τ × Outcome) := do
  if s.mb.entry = s.mb.size then
    let s := s.setError t rtEok
    if timeout = 0 then
      return (s.setCall t .idle, .full)
    let s ← s.suspendCurrent .senders t timeout
    return (s.setCall t (.sending value timeout s.clock.tick), .waitsToSend)
  else
    (s.setCall t .idle).put value

def rtMbSendWait (s : System τ) (t : τ) (value : UInt32) (timeout : Int32) :
    Except String (System τ × Outcome) :=
  if s.mb.entry = s.mb.size ∧ timeout = 0 then return (s, .full)
  else s.sendLoop t value timeout

/-- From the end of the loop on: the mail comes out of the pool. -/
def take (s : System τ) : Except String (System τ × Outcome) := do
  let value := s.mb.msgPool s.mb.outOffset.toNat
  let outOffset := s.mb.outOffset + 1
  let s := { s with mb := { s.mb with
    outOffset := if outOffset ≥ s.mb.size then 0 else outOffset
    entry := if s.mb.entry > 0 then s.mb.entry - 1 else s.mb.entry } }
  let s ← s.rtIpcListResume .senders
  return (s, .received value)

/-- The loop of `rt_mb_recv`, up to its `rt_schedule`. -/
def recvLoop (s : System τ) (t : τ) (timeout : Int32) : Except String (System τ × Outcome) := do
  if s.mb.entry = 0 then
    let s := s.setError t rtEok
    if timeout = 0 then
      return ((s.setError t (-rtEtimeout)).setCall t .idle, .empty)
    let s ← s.suspendCurrent .receivers t timeout
    return (s.setCall t (.receiving timeout s.clock.tick), .waitsToReceive)
  else
    (s.setCall t .idle).take

/-- `rt_mb_send` in an interrupt, where no thread is current. -/
def rtMbSend (s : System τ) (value : UInt32) : Except String (System τ × Outcome) :=
  if s.mb.entry = s.mb.size then return (s, .full) else s.put value

def rtMbRecv (s : System τ) (t : τ) (timeout : Int32) : Except String (System τ × Outcome) :=
  if s.mb.entry = 0 ∧ timeout = 0 then return (s, .empty)
  else s.recvLoop t timeout

/-- A thread that waited goes on after its `rt_schedule`. -/
def proceed (s : System τ) (t : τ) : Except String (System τ × Outcome) :=
  let error := (s.clock.kernel.tcb t).error
  match s.call t with
  | .idle => return (s, .none)
  | .sending value timeout tickDelta =>
    if error ≠ rtEok then return (s.setCall t .idle, .failed error)
    else s.sendLoop t value (remaining timeout tickDelta s.clock.tick)
  | .receiving timeout tickDelta =>
    if error ≠ rtEok then return (s.setCall t .idle, .failed error)
    else s.recvLoop t (remaining timeout tickDelta s.clock.tick)

/-- `rt_mb_control` with `RT_IPC_CMD_RESET`. -/
def reset (s : System τ) : Except String (System τ) := do
  let s ← s.rtIpcListResumeAll .receivers
  let s ← s.rtIpcListResumeAll .senders
  return { s with mb := { s.mb with entry := 0, inOffset := 0, outOffset := 0 } }

/-- A thread that is closed does not go on with its call. -/
def leaveCall (s : System τ) : Clock.Event τ → System τ
  | .control t .close => s.setCall t .idle
  | _ => s

/-- A call of another part of the kernel, or a tick. -/
def runKernel (s : System τ) (e : Clock.Event τ) : Except String (System τ) := do
  let clock ← e.run s.clock
  return (s.withClock clock).leaveCall e

end System

inductive Event (τ : Type) where
  | send (t : τ) (value : UInt32) (timeout : Int32)
  | recv (t : τ) (timeout : Int32)
  | proceed (t : τ)
  | post (value : UInt32)
  | reset
  | kernel (e : Clock.Event τ)

variable [DecidableEq τ]

/-- Only a thread that is ready runs. A thread in a call goes on with it, and so
neither begins another nor goes to sleep. -/
def Event.run (s : System τ) : Event τ → Except String (System τ × Outcome)
  | .send t value timeout =>
    match s.call t with
    | .idle => if Ready s.clock.kernel t then s.rtMbSendWait t value timeout else return (s, .none)
    | _ => return (s, .none)
  | .recv t timeout =>
    match s.call t with
    | .idle => if Ready s.clock.kernel t then s.rtMbRecv t timeout else return (s, .none)
    | _ => return (s, .none)
  | .proceed t => if Ready s.clock.kernel t then s.proceed t else return (s, .none)
  | .post value => s.rtMbSend value
  | .reset => do return (← s.reset, .none)
  | .kernel (.sleep t tick) =>
    match s.call t with
    | .idle => do return (← s.runKernel (.sleep t tick), .none)
    | _ => return (s, .none)
  | .kernel e => do return (← s.runKernel e, .none)

/-- No other thread suspends or closes one that is in a call. -/
def Undisturbed (s : System τ) (l : Event τ × Outcome) : Prop :=
  match l.1 with
  | .kernel (.suspend t) | .kernel (.control t .close) => s.call t = .idle
  | _ => True

/-- The event returns, with the outcome. -/
def Step (s : System τ) (l : Event τ × Outcome) (s' : System τ) : Prop :=
  l.1.run s = .ok (s', l.2)

section Cases

variable {s s' : System τ} {t : τ} {value : UInt32} {timeout : Int32} {o : Outcome}

/-- A stretch of a call to send: refused, suspended, or through. -/
theorem sendLoop_cases (h : s.sendLoop t value timeout = .ok (s', o)) :
    (s.mb.entry = s.mb.size ∧ s' = (s.setError t rtEok).setCall t .idle ∧ o = .full) ∨
    (s.mb.entry = s.mb.size ∧ timeout ≠ 0 ∧
      ∃ s₁, (s.setError t rtEok).suspendCurrent .senders t timeout = .ok s₁ ∧
        s' = s₁.setCall t (.sending value timeout s₁.clock.tick) ∧ o = .waitsToSend) ∨
    (s.mb.entry ≠ s.mb.size ∧ (s.setCall t .idle).put value = .ok (s', o)) := by
  rw [System.sendLoop] at h
  split at h
  next hfull =>
    by_cases htimeout : timeout = 0
    · simp only [if_pos htimeout] at h
      cases h
      exact .inl ⟨hfull, rfl, rfl⟩
    · simp only [if_neg htimeout] at h
      obtain ⟨s₁, hs₁, h⟩ := bind_ok h
      cases h
      exact .inr (.inl ⟨hfull, htimeout, s₁, hs₁, rfl, rfl⟩)
  next hroom => exact .inr (.inr ⟨hroom, h⟩)

theorem recvLoop_cases (h : s.recvLoop t timeout = .ok (s', o)) :
    (s.mb.entry = 0 ∧
      s' = ((s.setError t rtEok).setError t (-rtEtimeout)).setCall t .idle ∧ o = .empty) ∨
    (s.mb.entry = 0 ∧ timeout ≠ 0 ∧
      ∃ s₁, (s.setError t rtEok).suspendCurrent .receivers t timeout = .ok s₁ ∧
        s' = s₁.setCall t (.receiving timeout s₁.clock.tick) ∧ o = .waitsToReceive) ∨
    (s.mb.entry ≠ 0 ∧ (s.setCall t .idle).take = .ok (s', o)) := by
  rw [System.recvLoop] at h
  split at h
  next hempty =>
    by_cases htimeout : timeout = 0
    · simp only [if_pos htimeout] at h
      cases h
      exact .inl ⟨hempty, rfl, rfl⟩
    · simp only [if_neg htimeout] at h
      obtain ⟨s₁, hs₁, h⟩ := bind_ok h
      cases h
      exact .inr (.inl ⟨hempty, htimeout, s₁, hs₁, rfl, rfl⟩)
  next hsome => exact .inr (.inr ⟨hsome, h⟩)

/-- A call begins in a thread that is ready and in no other. -/
theorem step_send (h : Step s (.send t value timeout, o) s') :
    (s' = s ∧ (o = .none ∨ s.call t = .idle ∧ s.mb.entry = s.mb.size ∧ o = .full)) ∨
    (s.call t = .idle ∧ Ready s.clock.kernel t ∧
      s.sendLoop t value timeout = .ok (s', o)) := by
  rw [Step, Event.run] at h
  split at h
  next hidle =>
    split at h
    next hready =>
      rw [System.rtMbSendWait] at h
      split at h
      next hfull =>
        cases h
        exact .inl ⟨rfl, .inr ⟨hidle, hfull.1, rfl⟩⟩
      next => exact .inr ⟨hidle, hready, h⟩
    next =>
      cases h
      exact .inl ⟨rfl, .inl rfl⟩
  next =>
    cases h
    exact .inl ⟨rfl, .inl rfl⟩

theorem step_recv (h : Step s (.recv t timeout, o) s') :
    (s' = s ∧ (o = .none ∨ s.call t = .idle ∧ s.mb.entry = 0 ∧ o = .empty)) ∨
    (s.call t = .idle ∧ Ready s.clock.kernel t ∧ s.recvLoop t timeout = .ok (s', o)) := by
  rw [Step, Event.run] at h
  split at h
  next hidle =>
    split at h
    next hready =>
      rw [System.rtMbRecv] at h
      split at h
      next hempty =>
        cases h
        exact .inl ⟨rfl, .inr ⟨hidle, hempty.1, rfl⟩⟩
      next => exact .inr ⟨hidle, hready, h⟩
    next =>
      cases h
      exact .inl ⟨rfl, .inl rfl⟩
  next =>
    cases h
    exact .inl ⟨rfl, .inl rfl⟩

/-- A call goes on with its error, or around its loop. -/
theorem step_proceed (h : Step s (.proceed t, o) s') :
    (s' = s ∧ o = .none) ∨
    (Ready s.clock.kernel t ∧
      ((s' = s.setCall t .idle ∧ o = .failed (s.clock.kernel.tcb t).error ∧
          (s.clock.kernel.tcb t).error ≠ rtEok) ∨
        (∃ value timeout tickDelta, s.call t = .sending value timeout tickDelta ∧
          s.sendLoop t value (remaining timeout tickDelta s.clock.tick) = .ok (s', o)) ∨
        ∃ timeout tickDelta, s.call t = .receiving timeout tickDelta ∧
          s.recvLoop t (remaining timeout tickDelta s.clock.tick) = .ok (s', o))) := by
  rw [Step, Event.run] at h
  split at h
  next hready =>
    rw [System.proceed] at h
    split at h
    next =>
      cases h
      exact .inl ⟨rfl, rfl⟩
    next value timeout tickDelta hcall =>
      refine .inr ⟨hready, ?_⟩
      split at h
      next herror =>
        cases h
        exact .inl ⟨rfl, rfl, herror⟩
      next => exact .inr (.inl ⟨value, timeout, tickDelta, hcall, h⟩)
    next timeout tickDelta hcall =>
      refine .inr ⟨hready, ?_⟩
      split at h
      next herror =>
        cases h
        exact .inl ⟨rfl, rfl, herror⟩
      next => exact .inr (.inr ⟨timeout, tickDelta, hcall, h⟩)
  next =>
    cases h
    exact .inl ⟨rfl, rfl⟩

theorem step_post (h : Step s (.post value, o) s') :
    (s' = s ∧ s.mb.entry = s.mb.size ∧ o = .full) ∨
    (s.mb.entry ≠ s.mb.size ∧ s.put value = .ok (s', o)) := by
  rw [Step, Event.run, System.rtMbSend] at h
  split at h
  next hfull =>
    cases h
    exact .inl ⟨rfl, hfull, rfl⟩
  next hroom => exact .inr ⟨hroom, h⟩

theorem runKernel_ok {e : Clock.Event τ} (h : s.runKernel e = .ok s') :
    ∃ clock, Clock.Step s.clock e clock ∧ s' = (s.withClock clock).leaveCall e := by
  obtain ⟨clock, hclock, h⟩ := bind_ok h
  cases h
  exact ⟨clock, hclock, rfl⟩

/-- A thread in a call is not the one that goes to sleep. -/
theorem step_kernel {e : Clock.Event τ} (h : Step s (.kernel e, o) s') :
    o = .none ∧ ((∃ t tick, e = .sleep t tick ∧ s' = s) ∨
      (∀ t tick, e = .sleep t tick → s.call t = .idle) ∧
      ∃ clock, Clock.Step s.clock e clock ∧ s' = (s.withClock clock).leaveCall e) := by
  rw [Step] at h
  cases e with
  | sleep t tick =>
    rw [Event.run] at h
    split at h
    next hidle =>
      obtain ⟨s₁, hs₁, h⟩ := bind_ok h
      cases h
      refine ⟨rfl, .inr ⟨fun t' tick' heq => ?_, runKernel_ok hs₁⟩⟩
      cases heq
      exact hidle
    next =>
      cases h
      exact ⟨rfl, .inl ⟨t, tick, rfl, rfl⟩⟩
  | init | control | changePriority | suspend | resume | elapse =>
    obtain ⟨s₁, hs₁, h⟩ := bind_ok h
    cases h
    refine ⟨rfl, .inr ⟨fun t tick heq => ?_, runKernel_ok hs₁⟩⟩
    cases heq

theorem step_reset (h : Step s (.reset, o) s') :
    o = .none ∧ ∃ s₁ s₂, s.rtIpcListResumeAll .receivers = .ok s₁ ∧
      s₁.rtIpcListResumeAll .senders = .ok s₂ ∧
      s' = { s₂ with mb := { s₂.mb with entry := 0, inOffset := 0, outOffset := 0 } } := by
  obtain ⟨s₃, hreset, h⟩ := bind_ok h
  cases h
  obtain ⟨s₁, hs₁, hreset⟩ := bind_ok hreset
  obtain ⟨s₂, hs₂, hreset⟩ := bind_ok hreset
  cases hreset
  exact ⟨rfl, s₁, s₂, hs₁, hs₂, rfl⟩

end Cases

end StmGateway.Rt.Ipc
