import StmGateway.Lib.Runs
import StmGateway.Rt.Thread

/-!
# The ready queue and the scheduler

`rt-thread/src/scheduler.c` and the calls of `thread.c` that move a thread within
the ready queue, over the kernel of `Rt.Thread`. The queue is kept twice: a list
for each priority, and one bit for each priority whose list is not empty.
-/
namespace StmGateway.Rt.Schedule

open StmGateway.Lib
open StmGateway.Rt.Object
open StmGateway.Rt.Thread

/-- One more than the index of the lowest bit that is set, and zero for zero. -/
def rtFfs (value : UInt32) : Nat :=
  ((List.range 32).find? fun i => value.toNat.testBit i).elim 0 (· + 1)

variable {τ : Type}

def Ready (k : Kernel τ) (t : τ) : Prop := (k.tcb t).stat &&& threadStatMask = threadReady

instance (k : Kernel τ) (t : τ) : Decidable (Ready k t) :=
  inferInstanceAs (Decidable (_ = _))

/-- What the state of a thread may be. -/
def threadStates : List UInt8 := [threadInit, threadReady, threadSuspend, threadClose]

def Suspended (k : Kernel τ) (t : τ) : Prop := (k.tcb t).stat &&& threadStatMask = threadSuspend

instance (k : Kernel τ) (t : τ) : Decidable (Suspended k t) :=
  inferInstanceAs (Decidable (_ = _))

section Calls

variable [DecidableEq τ]

/-- `rt_thread_control` with `RT_THREAD_CTRL_CHANGE_PRIORITY`. -/
def rtThreadChangePriority (k : Kernel τ) (t : τ) (priority : UInt8) :
    Except String (Return τ) := do
  rtAssert (rtObjectGetType (k.object (.thread t)) = ObjectClass.thread.code)
    "rt_object_get_type((rt_object_t)thread) == RT_Object_Class_Thread"
  if (k.tcb t).stat &&& threadStatMask = threadReady then
    let k := rtScheduleRemoveThread k t
    let k := k.setTcb t { k.tcb t with
      currentPriority := priority
      numberMask := 1 <<< priority.toUInt32 }
    return (rtEok, rtScheduleInsertThread k t)
  else
    return (rtEok, k.setTcb t { k.tcb t with
      currentPriority := priority
      numberMask := 1 <<< priority.toUInt32 })

/-- `rt_thread_exit` of the current thread `t`, up to its `rt_schedule`. -/
def rtThreadExit (k : Kernel τ) (t : τ) : Except String (Kernel τ) := do
  let k := rtScheduleRemoveThread k t
  let k := k.setTcb t { k.tcb t with stat := threadClose }
  let (_, k) ← rtTimerDetach k t
  if rtObjectIsSystemobject (k.object (.thread t)) then
    return { k with container := rtObjectDetach k.container (.thread t) }
  return { k with defunct := t :: k.defunct }

/-- The part of `rt_thread_yield` before its `rt_schedule`. The two links of a
thread in a list differ when another thread is in it too. -/
def requeue (k : Kernel τ) (t : τ) : Kernel τ :=
  let p := (k.tcb t).currentPriority
  let k := k.unlink t
  { k with priorityTable := Function.update k.priorityTable p (k.priorityTable p ++ [t]) }

/-- `currentThread` is `rt_current_thread`, `lockNest` is `rt_scheduler_lock_nest`. -/
structure Processor (τ : Type) where
  kernel : Kernel τ
  currentThread : Option τ
  currentPriority : UInt8
  lockNest : Int16

/-- With no bit set the table is read out of bounds. -/
def rtSchedule (s : Processor τ) : Option (Processor τ) :=
  if s.lockNest = 0 then
    match rtFfs s.kernel.readyPriorityGroup with
    | 0 => none
    | highest + 1 => do
      let toThread ← (s.kernel.priorityTable highest.toUInt8).head?
      if some toThread ≠ s.currentThread then
        some { s with currentPriority := highest.toUInt8, currentThread := some toThread }
      else
        some s
  else
    some s

def rtThreadYield (s : Processor τ) : Option (Processor τ) := do
  let t ← s.currentThread
  if (s.kernel.tcb t).stat &&& threadStatMask = threadReady ∧
      (s.kernel.priorityTable (s.kernel.tcb t).currentPriority).length ≠ 1 then
    rtSchedule { s with kernel := requeue s.kernel t }
  else
    some s

def rtEnterCritical (s : Processor τ) : Processor τ := { s with lockNest := s.lockNest + 1 }

def rtExitCritical (s : Processor τ) : Option (Processor τ) :=
  let s := { s with lockNest := s.lockNest - 1 }
  if s.lockNest ≤ 0 then
    let s := { s with lockNest := 0 }
    if s.currentThread.isSome then rtSchedule s else some s
  else
    some s

/-- A call that changes the state of a thread, by whichever thread or interrupt
makes it. The priority given to `changePriority` is one the table has. -/
inductive Call (τ : Type) where
  | init (t : τ) (name : String) (priority : UInt8) (tick : Nat)
  | control (t : τ) (cmd : ThreadCtrl)
  | changePriority (t : τ) (priority : Fin 32)
  | suspend (t : τ)
  | resume (t : τ)
  | sleep (t : τ) (tick : Nat)
  | timeout (t : τ)
  | detach (t : τ)
  | delete (t : τ)

def Call.run (k : Kernel τ) : Call τ → Except String (Kernel τ)
  | .init t name priority tick => do
    let (_, k) ← rtThreadInit k t name priority tick
    return k
  | .control t cmd => do
    let (_, k) ← rtThreadControl k t cmd
    return k
  | .changePriority t priority => do
    let (_, k) ← rtThreadChangePriority k t (UInt8.ofNat priority)
    return k
  | .suspend t => do
    let (_, k) ← rtThreadSuspend k t
    return k
  | .resume t => do
    let (_, k) ← rtThreadResume k t
    return k
  | .sleep t tick => do
    let (_, k) ← rtThreadSleep k t tick
    return k
  | .timeout t => rtTimerCheck k t
  | .detach t => do
    let (_, k) ← rtThreadDetach k t
    return k
  | .delete t => do
    let (_, k) ← rtThreadDelete k t
    return k

inductive Event (τ : Type) where
  | call (c : Call τ)
  | exit
  | yield
  | schedule
  | enterCritical
  | exitCritical

/-- A thread that exits is running, so it is ready. -/
def Event.run (s : Processor τ) : Event τ → Option (Processor τ)
  | .call c => do
    let kernel ← (c.run s.kernel).toOption
    some { s with kernel }
  | .exit => do
    let t ← s.currentThread
    if Ready s.kernel t then
      let kernel ← (rtThreadExit s.kernel t).toOption
      rtSchedule { s with kernel }
    else
      none
  | .yield => rtThreadYield s
  | .schedule => rtSchedule s
  | .enterCritical => some (rtEnterCritical s)
  | .exitCritical => rtExitCritical s

/-- The event returns. -/
def Step (s : Processor τ) (e : Event τ) (s' : Processor τ) : Prop := e.run s = some s'

theorem toOption_some {α : Type} {x : Except String α} {a : α} (h : x.toOption = some a) :
    x = .ok a := by
  cases x with
  | error text => cases h
  | ok b =>
    cases h
    rfl

theorem step_call {s s' : Processor τ} {c : Call τ} (h : Step s (.call c) s') :
    ∃ k, c.run s.kernel = .ok k ∧ s' = { s with kernel := k } := by
  obtain ⟨k, hk, h⟩ := Option.bind_eq_some_iff.mp h
  exact ⟨k, toOption_some hk, (Option.some.inj h).symm⟩

theorem step_exit {s s' : Processor τ} (h : Step s .exit s') :
    ∃ t k, s.currentThread = some t ∧ Ready s.kernel t ∧ rtThreadExit s.kernel t = .ok k ∧
      rtSchedule { s with kernel := k } = some s' := by
  obtain ⟨t, ht, h⟩ := Option.bind_eq_some_iff.mp h
  split at h
  next hready =>
    obtain ⟨k, hk, h⟩ := Option.bind_eq_some_iff.mp h
    exact ⟨t, k, ht, hready, toOption_some hk, h⟩
  next => cases h

end Calls

section Bits

/-- The bit of `priority` in a priority group. -/
def HasBit (group : UInt32) (priority : UInt8) : Prop := group.toNat.testBit priority.toNat = true

theorem hasBit_or (group mask : UInt32) (p : UInt8) :
    HasBit (group ||| mask) p ↔ HasBit group p ∨ HasBit mask p := by
  simp [HasBit]

theorem hasBit_clear (group mask : UInt32) {p : UInt8} (hp : p < 32) :
    HasBit (group &&& ~~~mask) p ↔ HasBit group p ∧ ¬HasBit mask p := by
  have hlt : p.toNat < 32 := hp
  simp only [HasBit, ← UInt32.toNat_toBitVec, BitVec.testBit_toNat, UInt32.toBitVec_and,
    UInt32.toBitVec_not, BitVec.getLsbD_and, BitVec.getLsbD_not]
  simp [hlt]

theorem hasBit_mask {p q : UInt8} (hp : p < 32) (hq : q < 32) :
    HasBit (1 <<< p.toUInt32) q ↔ p = q := by
  have hp' : p.toNat < 32 := hp
  have hq' : q.toNat < 32 := hq
  rw [HasBit, UInt32.toNat_shiftLeft]
  simp only [UInt32.toNat_one, UInt8.toNat_toUInt32, Nat.mod_eq_of_lt hp',
    Nat.testBit_mod_two_pow, hq', decide_true, Bool.true_and, Nat.one_shiftLeft,
    Nat.testBit_two_pow, decide_eq_true_eq]
  exact UInt8.toNat_inj

theorem hasBit_zero (p : UInt8) : ¬HasBit 0 p := by simp [HasBit]

theorem rtFfs_eq_zero {group : UInt32} (h : rtFfs group = 0) {p : UInt8} (hp : p < 32) :
    ¬HasBit group p := by
  intro hbit
  cases hfind : (List.range 32).find? fun i => group.toNat.testBit i with
  | none => exact List.find?_eq_none.mp hfind p.toNat (List.mem_range.mpr hp) hbit
  | some i => simp [rtFfs, hfind] at h

/-- The lowest bit that is set. -/
theorem rtFfs_eq_succ {group : UInt32} {i : Nat} (h : rtFfs group = i + 1) :
    i < 32 ∧ HasBit group i.toUInt8 ∧ ∀ p, HasBit group p → i.toUInt8 ≤ p := by
  cases hfind : (List.range 32).find? fun i => group.toNat.testBit i with
  | none => simp [rtFfs, hfind] at h
  | some j =>
    obtain rfl : j = i := by simpa [rtFfs, hfind] using h
    rw [List.find?_range_eq_some] at hfind
    obtain ⟨hbit, hlt, hleast⟩ := hfind
    have hlt' : j < 32 := List.mem_range.mp hlt
    have hnat : j.toUInt8.toNat = j := by simp; omega
    refine ⟨hlt', by rw [HasBit, hnat]; exact hbit, fun p hp => ?_⟩
    rw [UInt8.le_iff_toNat_le, hnat]
    by_contra hgt
    have hclear := hleast p.toNat (by omega)
    rw [show group.toNat.testBit p.toNat = true from hp] at hclear
    cases hclear

end Bits

/-- `rt_system_scheduler_init`, with every block of memory zero. -/
def rtSystemSchedulerInit : Processor τ where
  kernel :=
    { container := ⟨fun _ => ⟨"", 0, 0⟩, fun _ => []⟩
      tcb := fun _ => ⟨0, 0, 0, 0, 0, 0, 0, 0⟩
      priorityTable := fun _ => []
      readyPriorityGroup := 0
      defunct := [] }
  currentThread := none
  currentPriority := rtThreadPriorityMax - 1
  lockNest := 0

end StmGateway.Rt.Schedule
