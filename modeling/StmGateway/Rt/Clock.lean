import StmGateway.Lib.Countdown
import StmGateway.Rt.Schedule

/-!
# The kernel with its clock

The timer list of `rt-thread/src/timer.c` and the tick of `clock.c`, on top of the
kernel of `Rt.Thread`, whose calls know only whether a timer runs. Each call here
does the same to that kernel. The timers are those of the threads: one-shot, in
the one list of `RT_TIMER_SKIP_LIST_LEVEL` 1.
-/
namespace StmGateway.Rt.Clock

open StmGateway.Lib
open StmGateway.Rt.Object
open StmGateway.Rt.Thread
open StmGateway.Rt.Schedule

/-- `timerList` is `rt_timer_list`, `tick` is `rt_tick`. -/
structure Clocked (τ : Type) where
  kernel : Kernel τ
  tick : UInt32
  timeoutTick : τ → UInt32
  timerList : List τ

abbrev Returned (τ : Type) := Int × Clocked τ

variable {τ : Type}

/-- The walk over the list: past every timer that is due no later. -/
def insertTimer (timeoutTick : τ → UInt32) (t : τ) : List τ → List τ
  | [] => [t]
  | p :: rest =>
    if timeoutTick p - timeoutTick t = 0 then p :: insertTimer timeoutTick t rest
    else if (timeoutTick p - timeoutTick t).toNat < rtTickMax / 2 then t :: p :: rest
    else p :: insertTimer timeoutTick t rest

namespace Clocked

variable [DecidableEq τ]

/-- `_rt_timer_remove`. -/
def removeTimer (c : Clocked τ) (t : τ) : Clocked τ :=
  { c with timerList := c.timerList.filter (· ≠ t) }

def rtTimerStart (c : Clocked τ) (t : τ) : Except String (Returned τ) := do
  let (status, kernel) ← Thread.rtTimerStart c.kernel t
  let timeoutTick := Function.update c.timeoutTick t
    (c.tick + UInt32.ofNat (c.kernel.tcb t).timerTick)
  return (status, { c with
    kernel
    timeoutTick
    timerList := insertTimer timeoutTick t (c.removeTimer t).timerList })

def rtTimerStop (c : Clocked τ) (t : τ) : Except String (Returned τ) := do
  let (status, kernel) ← Thread.rtTimerStop c.kernel t
  if status = -rtError then
    return (status, { c with kernel })
  return (status, { c.removeTimer t with kernel })

def rtTimerDetach (c : Clocked τ) (t : τ) : Except String (Returned τ) := do
  let (status, kernel) ← Thread.rtTimerDetach c.kernel t
  return (status, { c.removeTimer t with kernel })

def rtThreadInit (c : Clocked τ) (t : τ) (name : String) (priority : UInt8) (tick : Nat) :
    Except String (Returned τ) := do
  let (status, kernel) ← Thread.rtThreadInit c.kernel t name priority tick
  return (status, { c with kernel, timeoutTick := Function.update c.timeoutTick t 0 })

def rtThreadResume (c : Clocked τ) (t : τ) : Except String (Returned τ) := do
  rtAssert (rtObjectGetType (c.kernel.object (.thread t)) = ObjectClass.thread.code)
    "rt_object_get_type((rt_object_t)thread) == RT_Object_Class_Thread"
  if (c.kernel.tcb t).stat &&& threadStatMask ≠ threadSuspend then
    return (-rtError, c)
  let (_, c) ← rtTimerStop { c with kernel := c.kernel.unlink t } t
  return (rtEok, { c with kernel := rtScheduleInsertThread c.kernel t })

def rtThreadSuspend (c : Clocked τ) (t : τ) : Except String (Returned τ) := do
  rtAssert (rtObjectGetType (c.kernel.object (.thread t)) = ObjectClass.thread.code)
    "rt_object_get_type((rt_object_t)thread) == RT_Object_Class_Thread"
  if (c.kernel.tcb t).stat &&& threadStatMask ≠ threadReady then
    return (-rtError, c)
  let k := rtScheduleRemoveThread c.kernel t
  let k := k.setTcb t { k.tcb t with
    stat := threadSuspend ||| ((k.tcb t).stat &&& ~~~threadStatMask) }
  let (_, c) ← rtTimerStop { c with kernel := k } t
  return (rtEok, c)

/-- Up to its `rt_schedule`. -/
def rtThreadSleep (c : Clocked τ) (t : τ) (tick : Nat) : Except String (Returned τ) := do
  rtAssert (rtObjectGetType (c.kernel.object (.thread t)) = ObjectClass.thread.code)
    "rt_object_get_type((rt_object_t)thread) == RT_Object_Class_Thread"
  let (_, c) ← rtThreadSuspend c t
  let (_, kernel) ← rtTimerSetTime c.kernel t tick
  let (_, c) ← rtTimerStart { c with kernel } t
  return (rtEok, c)

def rtThreadStartup (c : Clocked τ) (t : τ) : Except String (Returned τ) := do
  rtAssert ((c.kernel.tcb t).stat &&& threadStatMask = threadInit)
    "(thread->stat & RT_THREAD_STAT_MASK) == RT_THREAD_INIT"
  rtAssert (rtObjectGetType (c.kernel.object (.thread t)) = ObjectClass.thread.code)
    "rt_object_get_type((rt_object_t)thread) == RT_Object_Class_Thread"
  let (_, c) ← rtThreadResume { c with kernel := c.kernel.setTcb t { c.kernel.tcb t with
    currentPriority := (c.kernel.tcb t).initPriority
    numberMask := 1 <<< (c.kernel.tcb t).initPriority.toUInt32
    stat := threadSuspend } } t
  return (rtEok, c)

def closeThread (c : Clocked τ) (t : τ) : Except String (Returned τ) :=
  rtTimerDetach { c with kernel :=
    if (c.kernel.tcb t).stat &&& threadStatMask ≠ threadInit then rtScheduleRemoveThread c.kernel t
    else c.kernel } t

def rtThreadDetach (c : Clocked τ) (t : τ) : Except String (Returned τ) := do
  rtAssert (rtObjectGetType (c.kernel.object (.thread t)) = ObjectClass.thread.code)
    "rt_object_get_type((rt_object_t)thread) == RT_Object_Class_Thread"
  rtAssert (rtObjectIsSystemobject (c.kernel.object (.thread t)))
    "rt_object_is_systemobject((rt_object_t)thread)"
  if (c.kernel.tcb t).stat &&& threadStatMask = threadClose then
    return (rtEok, c)
  let (_, c) ← closeThread c t
  let k := c.kernel.setTcb t { c.kernel.tcb t with stat := threadClose }
  if rtObjectIsSystemobject (k.object (.thread t)) then
    return (rtEok, { c with kernel :=
      { k with container := rtObjectDetach k.container (.thread t) } })
  return (rtEok, { c with kernel := { k with defunct := t :: k.defunct } })

def rtThreadDelete (c : Clocked τ) (t : τ) : Except String (Returned τ) := do
  rtAssert (rtObjectGetType (c.kernel.object (.thread t)) = ObjectClass.thread.code)
    "rt_object_get_type((rt_object_t)thread) == RT_Object_Class_Thread"
  rtAssert (rtObjectIsSystemobject (c.kernel.object (.thread t)) = false)
    "rt_object_is_systemobject((rt_object_t)thread) == RT_FALSE"
  if (c.kernel.tcb t).stat &&& threadStatMask = threadClose then
    return (rtEok, c)
  let (_, c) ← closeThread c t
  let k := c.kernel.setTcb t { c.kernel.tcb t with stat := threadClose }
  return (rtEok, { c with kernel := { k with defunct := t :: k.defunct } })

def rtThreadControl (c : Clocked τ) (t : τ) (cmd : ThreadCtrl) : Except String (Returned τ) := do
  rtAssert (rtObjectGetType (c.kernel.object (.thread t)) = ObjectClass.thread.code)
    "rt_object_get_type((rt_object_t)thread) == RT_Object_Class_Thread"
  match cmd with
  | .startup => rtThreadStartup c t
  | .close =>
    if rtObjectIsSystemobject (c.kernel.object (.thread t)) then rtThreadDetach c t
    else rtThreadDelete c t

/-- The loop of `rt_timer_check` over the timers that are left. The timeout
function of a thread timer starts no timer and stops none. -/
def expire (c : Clocked τ) : List τ → Except String (Clocked τ)
  | [] => return { c with timerList := [] }
  | t :: rest => do
    if (c.tick - c.timeoutTick t).toNat < rtTickMax / 2 then
      let kernel ← Thread.rtTimerCheck c.kernel t
      expire { c with kernel, timerList := rest } rest
    else
      return { c with timerList := t :: rest }

def rtTimerCheck (c : Clocked τ) : Except String (Clocked τ) := c.expire c.timerList

end Clocked

section Events

variable [DecidableEq τ]

/-- What `rt_tick_increase` does to the running thread. -/
def timeSlice (k : Kernel τ) (t : τ) : Kernel τ :=
  let remaining := ((k.tcb t).remainingTick + rtTickMax) % (rtTickMax + 1)
  if remaining = 0 then
    let k := k.setTcb t { k.tcb t with remainingTick := (k.tcb t).initTick }
    if (k.tcb t).stat &&& threadStatMask = threadReady ∧
        (k.priorityTable (k.tcb t).currentPriority).length ≠ 1 then
      requeue k t
    else
      k
  else
    k.setTcb t { k.tcb t with remainingTick := remaining }

/-- With `t` running. -/
def Clocked.rtTickIncrease (c : Clocked τ) (t : τ) : Except String (Clocked τ) :=
  rtTimerCheck { c with tick := c.tick + 1, kernel := timeSlice c.kernel t }

/-- Time passes while the thread that is named runs; every other event is a call. -/
inductive Event (τ : Type) where
  | init (t : τ) (name : String) (priority : UInt8) (tick : Nat)
  | control (t : τ) (cmd : ThreadCtrl)
  | changePriority (t : τ) (priority : Fin 32)
  | suspend (t : τ)
  | resume (t : τ)
  | sleep (t : τ) (tick : Nat)
  | elapse (current : τ)

/-- Only a thread that is ready runs, so only such a thread sleeps. -/
def Event.run (c : Clocked τ) : Event τ → Except String (Clocked τ)
  | .init t name priority tick => do
    let (_, c) ← c.rtThreadInit t name priority tick
    return c
  | .control t cmd => do
    let (_, c) ← c.rtThreadControl t cmd
    return c
  | .changePriority t priority => do
    let (_, kernel) ← rtThreadChangePriority c.kernel t (UInt8.ofNat priority)
    return { c with kernel }
  | .suspend t => do
    let (_, c) ← c.rtThreadSuspend t
    return c
  | .resume t => do
    let (_, c) ← c.rtThreadResume t
    return c
  | .sleep t tick => do
    if Ready c.kernel t then
      let (_, c) ← c.rtThreadSleep t tick
      return c
    else
      return c
  | .elapse current => c.rtTickIncrease current

/-- The event returns. -/
def Step (c : Clocked τ) (e : Event τ) (c' : Clocked τ) : Prop := e.run c = .ok c'

end Events

section Forget

/-- The clock left out. -/
def forget (r : Returned τ) : Return τ := (r.1, r.2.kernel)

theorem forget_bind {x : Except String (Returned τ)} {f : Returned τ → Except String (Returned τ)}
    {y : Except String (Return τ)} {g : Return τ → Except String (Return τ)}
    (hx : forget <$> x = y) (hf : ∀ r, forget <$> f r = g (forget r)) :
    forget <$> (x >>= f) = y >>= g := by
  subst hx
  cases x with
  | error text => rfl
  | ok r => exact hf r

theorem forget_assert {cond : Prop} [Decidable cond] {text : String}
    {f : Unit → Except String (Returned τ)} {g : Unit → Except String (Return τ)}
    (hf : forget <$> f () = g ()) :
    forget <$> (rtAssert cond text >>= f) = rtAssert cond text >>= g := by
  rw [rtAssert]
  split
  · exact hf
  · rfl

variable [DecidableEq τ] (c : Clocked τ) (t : τ)

theorem forget_timerStart : forget <$> c.rtTimerStart t = rtTimerStart c.kernel t := by
  rw [Clocked.rtTimerStart]
  cases rtTimerStart c.kernel t <;> rfl

theorem forget_timerStop : forget <$> c.rtTimerStop t = rtTimerStop c.kernel t := by
  rw [Clocked.rtTimerStop]
  cases rtTimerStop c.kernel t with
  | error text => rfl
  | ok r =>
    show forget <$> (if r.1 = -rtError then _ else _ : Except String (Returned τ)) = Except.ok r
    split <;> rfl

theorem forget_timerDetach : forget <$> c.rtTimerDetach t = rtTimerDetach c.kernel t := by
  rw [Clocked.rtTimerDetach]
  cases rtTimerDetach c.kernel t <;> rfl

theorem forget_threadInit (name : String) (priority : UInt8) (tick : Nat) :
    forget <$> c.rtThreadInit t name priority tick = rtThreadInit c.kernel t name priority tick := by
  rw [Clocked.rtThreadInit]
  cases rtThreadInit c.kernel t name priority tick <;> rfl

theorem forget_threadResume : forget <$> c.rtThreadResume t = rtThreadResume c.kernel t := by
  refine forget_assert ?_
  split
  · rfl
  · exact forget_bind (forget_timerStop _ t) fun _ => rfl

theorem forget_threadSuspend : forget <$> c.rtThreadSuspend t = rtThreadSuspend c.kernel t := by
  refine forget_assert ?_
  split
  · rfl
  · exact forget_bind (forget_timerStop _ t) fun _ => rfl

theorem forget_threadSleep (tick : Nat) :
    forget <$> c.rtThreadSleep t tick = rtThreadSleep c.kernel t tick := by
  refine forget_assert (forget_bind (forget_threadSuspend c t) fun r => ?_)
  show forget <$> (rtTimerSetTime r.2.kernel t tick >>= _) = rtTimerSetTime r.2.kernel t tick >>= _
  cases rtTimerSetTime r.2.kernel t tick with
  | error text => rfl
  | ok r' =>
    show forget <$> (Clocked.rtTimerStart { r.2 with kernel := r'.2 } t >>= _) =
      rtTimerStart r'.2 t >>= _
    exact forget_bind (forget_timerStart _ t) fun _ => rfl

theorem forget_threadStartup : forget <$> c.rtThreadStartup t = rtThreadStartup c.kernel t :=
  forget_assert (forget_assert (forget_bind (forget_threadResume _ t) fun _ => rfl))

theorem forget_closeThread : forget <$> c.closeThread t = closeThread c.kernel t :=
  forget_timerDetach _ t

theorem forget_threadDetach : forget <$> c.rtThreadDetach t = rtThreadDetach c.kernel t := by
  refine forget_assert (forget_assert ?_)
  split
  · rfl
  · refine forget_bind (forget_closeThread c t) fun r => ?_
    show forget <$> (if _ then _ else _) = if _ then _ else _
    split <;> rfl

theorem forget_threadDelete : forget <$> c.rtThreadDelete t = rtThreadDelete c.kernel t := by
  refine forget_assert (forget_assert ?_)
  split
  · rfl
  · exact forget_bind (forget_closeThread c t) fun _ => rfl

theorem forget_threadControl (cmd : ThreadCtrl) :
    forget <$> c.rtThreadControl t cmd = rtThreadControl c.kernel t cmd := by
  refine forget_assert ?_
  cases cmd with
  | startup => exact forget_threadStartup c t
  | close =>
    show forget <$> (if _ then _ else _) = if _ then _ else _
    split
    · exact forget_threadDetach c t
    · exact forget_threadDelete c t

end Forget

end StmGateway.Rt.Clock
