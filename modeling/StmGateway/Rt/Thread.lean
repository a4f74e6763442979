import StmGateway.Rt.Object

/-!
# Threads of the kernel

`rt_thread_init`, `rt_thread_control` and what they call in `rt-thread/src`
(`thread.c`, `timer.c`, `scheduler.c`), with the calls by which a thread goes to
sleep and is woken. A thread control block is an object that contains a second
one, its timer. The clock and the cleanup callback, which no thread here sets,
are left out: an activated timer may expire at any moment.
-/
namespace StmGateway.Rt.Thread

open StmGateway.Rt.Object

def rtThreadPriorityMax : UInt8 := 32
def rtTickMax : Nat := 0xffffffff

def threadInit : UInt8 := 0x00
def threadReady : UInt8 := 0x01
def threadSuspend : UInt8 := 0x02
def threadClose : UInt8 := 0x04
def threadStatMask : UInt8 := 0x0f

def timerFlagOneShot : UInt8 := 0x0
def timerFlagActivated : UInt8 := 0x1

def rtEok : Int := 0
def rtError : Int := 1
def rtEtimeout : Int := 2

/-- A thread control block and the timer inside it. -/
inductive Addr (τ : Type) where
  | thread (t : τ)
  | timer (t : τ)
  deriving DecidableEq

/-- `timerTick` is `thread_timer.init_tick`. -/
structure Tcb where
  stat : UInt8
  initPriority : UInt8
  currentPriority : UInt8
  numberMask : UInt32
  initTick : Nat
  remainingTick : Nat
  error : Int
  timerTick : Nat

structure Kernel (τ : Type) where
  container : Container (Addr τ)
  tcb : τ → Tcb
  priorityTable : UInt8 → List τ
  readyPriorityGroup : UInt32
  defunct : List τ

variable {τ : Type} [DecidableEq τ]

namespace Kernel

def object (k : Kernel τ) (a : Addr τ) : RtObject := k.container.object a

def setTcb (k : Kernel τ) (t : τ) (tcb : Tcb) : Kernel τ :=
  { k with tcb := Function.update k.tcb t tcb }

def setFlag (k : Kernel τ) (a : Addr τ) (flag : UInt8) : Kernel τ :=
  { k with container := { k.container with
      object := Function.update k.container.object a { k.container.object a with flag } } }

/-- `rt_list_remove(&thread->tlist)`. -/
def unlink (k : Kernel τ) (t : τ) : Kernel τ :=
  { k with
    priorityTable := fun p => (k.priorityTable p).filter (· ≠ t)
    defunct := k.defunct.filter (· ≠ t) }

end Kernel

/-- What a call that returns gives back. -/
abbrev Return (τ : Type) := Int × Kernel τ

def rtTimerInit (k : Kernel τ) (t : τ) (name : String) (time : Nat) (flag : UInt8) :
    Except String (Kernel τ) := do
  let container ← rtObjectInit k.container (.timer t) .timer name
  let k := { k with container }
  return (k.setFlag (.timer t) (flag &&& ~~~timerFlagActivated)).setTcb t
    { k.tcb t with timerTick := time }

def rtTimerDetach (k : Kernel τ) (t : τ) : Except String (Return τ) := do
  rtAssert (rtObjectGetType (k.object (.timer t)) = ObjectClass.timer.code)
    "rt_object_get_type(&timer->parent) == RT_Object_Class_Timer"
  rtAssert (rtObjectIsSystemobject (k.object (.timer t)))
    "rt_object_is_systemobject(&timer->parent)"
  let k := k.setFlag (.timer t) ((k.object (.timer t)).flag &&& ~~~timerFlagActivated)
  return (rtEok, { k with container := rtObjectDetach k.container (.timer t) })

def rtTimerStart (k : Kernel τ) (t : τ) : Except String (Return τ) := do
  rtAssert (rtObjectGetType (k.object (.timer t)) = ObjectClass.timer.code)
    "rt_object_get_type(&timer->parent) == RT_Object_Class_Timer"
  rtAssert ((k.tcb t).timerTick < rtTickMax / 2) "timer->init_tick < RT_TICK_MAX / 2"
  return (rtEok, k.setFlag (.timer t)
    ((k.object (.timer t)).flag &&& ~~~timerFlagActivated ||| timerFlagActivated))

def rtTimerStop (k : Kernel τ) (t : τ) : Except String (Return τ) := do
  rtAssert (rtObjectGetType (k.object (.timer t)) = ObjectClass.timer.code)
    "rt_object_get_type(&timer->parent) == RT_Object_Class_Timer"
  if (k.object (.timer t)).flag &&& timerFlagActivated = 0 then
    return (-rtError, k)
  return (rtEok, k.setFlag (.timer t) ((k.object (.timer t)).flag &&& ~~~timerFlagActivated))

/-- `rt_timer_control` with `RT_TIMER_CTRL_SET_TIME`. -/
def rtTimerSetTime (k : Kernel τ) (t : τ) (tick : Nat) : Except String (Return τ) := do
  rtAssert (rtObjectGetType (k.object (.timer t)) = ObjectClass.timer.code)
    "rt_object_get_type(&timer->parent) == RT_Object_Class_Timer"
  return (rtEok, k.setTcb t { k.tcb t with timerTick := tick })

def rtScheduleInsertThread (k : Kernel τ) (t : τ) : Kernel τ :=
  let tcb := k.tcb t
  let k := k.setTcb t { tcb with stat := threadReady ||| (tcb.stat &&& ~~~threadStatMask) }
  { k with
    priorityTable := Function.update k.priorityTable tcb.currentPriority
      (k.priorityTable tcb.currentPriority ++ [t])
    readyPriorityGroup := k.readyPriorityGroup ||| tcb.numberMask }

def rtScheduleRemoveThread (k : Kernel τ) (t : τ) : Kernel τ :=
  let k := k.unlink t
  if k.priorityTable (k.tcb t).currentPriority = [] then
    { k with readyPriorityGroup := k.readyPriorityGroup &&& ~~~(k.tcb t).numberMask }
  else
    k

/-- The stack of the block and its entry function are left out: no call reads them. -/
def _rtThreadInit (k : Kernel τ) (t : τ) (name : String) (priority : UInt8) (tick : Nat) :
    Except String (Return τ) := do
  rtAssert (priority < rtThreadPriorityMax) "priority < RT_THREAD_PRIORITY_MAX"
  let k ← rtTimerInit (k.setTcb t { k.tcb t with
    initPriority := priority
    currentPriority := priority
    numberMask := 0
    initTick := tick
    remainingTick := tick
    error := rtEok
    stat := threadInit }) t name 0 timerFlagOneShot
  return (rtEok, k)

def rtThreadInit (k : Kernel τ) (t : τ) (name : String) (priority : UInt8) (tick : Nat) :
    Except String (Return τ) := do
  let container ← rtObjectInit k.container (.thread t) .thread name
  _rtThreadInit { k with container } t (container.object (.thread t)).name priority tick

def rtThreadResume (k : Kernel τ) (t : τ) : Except String (Return τ) := do
  rtAssert (rtObjectGetType (k.object (.thread t)) = ObjectClass.thread.code)
    "rt_object_get_type((rt_object_t)thread) == RT_Object_Class_Thread"
  if (k.tcb t).stat &&& threadStatMask ≠ threadSuspend then
    return (-rtError, k)
  let (_, k) ← rtTimerStop (k.unlink t) t
  return (rtEok, rtScheduleInsertThread k t)

def rtThreadSuspend (k : Kernel τ) (t : τ) : Except String (Return τ) := do
  rtAssert (rtObjectGetType (k.object (.thread t)) = ObjectClass.thread.code)
    "rt_object_get_type((rt_object_t)thread) == RT_Object_Class_Thread"
  if (k.tcb t).stat &&& threadStatMask ≠ threadReady then
    return (-rtError, k)
  let k := rtScheduleRemoveThread k t
  let k := k.setTcb t { k.tcb t with
    stat := threadSuspend ||| ((k.tcb t).stat &&& ~~~threadStatMask) }
  let (_, k) ← rtTimerStop k t
  return (rtEok, k)

/-- `rt_thread_sleep` of the current thread `t`, up to its `rt_schedule`. -/
def rtThreadSleep (k : Kernel τ) (t : τ) (tick : Nat) : Except String (Return τ) := do
  rtAssert (rtObjectGetType (k.object (.thread t)) = ObjectClass.thread.code)
    "rt_object_get_type((rt_object_t)thread) == RT_Object_Class_Thread"
  let (_, k) ← rtThreadSuspend k t
  let (_, k) ← rtTimerSetTime k t tick
  let (_, k) ← rtTimerStart k t
  return (rtEok, k)

/-- The timeout function of a thread timer. -/
def rtThreadTimeout (k : Kernel τ) (t : τ) : Except String (Kernel τ) := do
  rtAssert ((k.tcb t).stat &&& threadStatMask = threadSuspend)
    "(thread->stat & RT_THREAD_STAT_MASK) == RT_THREAD_SUSPEND"
  rtAssert (rtObjectGetType (k.object (.thread t)) = ObjectClass.thread.code)
    "rt_object_get_type((rt_object_t)thread) == RT_Object_Class_Thread"
  let k := k.setTcb t { k.tcb t with error := -rtEtimeout }
  return rtScheduleInsertThread (k.unlink t) t

/-- `rt_timer_check` where the timer of `t`, a one-shot timer, has run out. -/
def rtTimerCheck (k : Kernel τ) (t : τ) : Except String (Kernel τ) :=
  rtThreadTimeout
    (k.setFlag (.timer t) ((k.object (.timer t)).flag &&& ~~~timerFlagActivated)) t

def rtThreadStartup (k : Kernel τ) (t : τ) : Except String (Return τ) := do
  rtAssert ((k.tcb t).stat &&& threadStatMask = threadInit)
    "(thread->stat & RT_THREAD_STAT_MASK) == RT_THREAD_INIT"
  rtAssert (rtObjectGetType (k.object (.thread t)) = ObjectClass.thread.code)
    "rt_object_get_type((rt_object_t)thread) == RT_Object_Class_Thread"
  let k := k.setTcb t { k.tcb t with
    currentPriority := (k.tcb t).initPriority
    numberMask := 1 <<< (k.tcb t).initPriority.toUInt32
    stat := threadSuspend }
  let (_, k) ← rtThreadResume k t
  return (rtEok, k)

/-- The part `rt_thread_detach` and `rt_thread_delete` share: off the schedule,
the timer detached. -/
def closeThread (k : Kernel τ) (t : τ) : Except String (Return τ) :=
  rtTimerDetach
    (if (k.tcb t).stat &&& threadStatMask ≠ threadInit then rtScheduleRemoveThread k t else k) t

def rtThreadDetach (k : Kernel τ) (t : τ) : Except String (Return τ) := do
  rtAssert (rtObjectGetType (k.object (.thread t)) = ObjectClass.thread.code)
    "rt_object_get_type((rt_object_t)thread) == RT_Object_Class_Thread"
  rtAssert (rtObjectIsSystemobject (k.object (.thread t)))
    "rt_object_is_systemobject((rt_object_t)thread)"
  if (k.tcb t).stat &&& threadStatMask = threadClose then
    return (rtEok, k)
  let (_, k) ← closeThread k t
  let k := k.setTcb t { k.tcb t with stat := threadClose }
  if rtObjectIsSystemobject (k.object (.thread t)) then
    return (rtEok, { k with container := rtObjectDetach k.container (.thread t) })
  return (rtEok, { k with defunct := t :: k.defunct })

def rtThreadDelete (k : Kernel τ) (t : τ) : Except String (Return τ) := do
  rtAssert (rtObjectGetType (k.object (.thread t)) = ObjectClass.thread.code)
    "rt_object_get_type((rt_object_t)thread) == RT_Object_Class_Thread"
  rtAssert (rtObjectIsSystemobject (k.object (.thread t)) = false)
    "rt_object_is_systemobject((rt_object_t)thread) == RT_FALSE"
  if (k.tcb t).stat &&& threadStatMask = threadClose then
    return (rtEok, k)
  let (_, k) ← closeThread k t
  let k := k.setTcb t { k.tcb t with stat := threadClose }
  return (rtEok, { k with defunct := t :: k.defunct })

inductive ThreadCtrl where
  | startup
  | close
  deriving DecidableEq

/-- `rt_thread_control` for the two commands the application gives. -/
def rtThreadControl (k : Kernel τ) (t : τ) (cmd : ThreadCtrl) : Except String (Return τ) := do
  rtAssert (rtObjectGetType (k.object (.thread t)) = ObjectClass.thread.code)
    "rt_object_get_type((rt_object_t)thread) == RT_Object_Class_Thread"
  match cmd with
  | .startup => rtThreadStartup k t
  | .close =>
    if rtObjectIsSystemobject (k.object (.thread t)) then rtThreadDetach k t
    else rtThreadDelete k t

end StmGateway.Rt.Thread
