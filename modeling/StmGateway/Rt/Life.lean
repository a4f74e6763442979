import StmGateway.Rt.Thread

/-!
# The life of a thread

What decides whether a kernel call fails an assertion is, for each thread, what
`view` shows of it. A thread that only the calls of `Rt.Thread` touch is in one of
six phases; each call moves the thread it is given from one phase to another and
shows every other thread unchanged.
-/
namespace StmGateway.Rt.Life

open StmGateway.Rt.Object
open StmGateway.Rt.Thread

/-- The types of the two objects of a control block, the timer's flag, the
thread's `stat`, and whether the two objects are on their lists. -/
structure View where
  thread : UInt8
  timer : UInt8
  flag : UInt8
  stat : UInt8
  listed : Prop
  timerListed : Prop

variable {τ : Type}

def view (k : Kernel τ) (t : τ) : View where
  thread := (k.object (.thread t)).type
  timer := (k.object (.timer t)).type
  flag := (k.object (.timer t)).flag
  stat := (k.tcb t).stat
  listed := .thread t ∈ k.container.information .thread
  timerListed := .timer t ∈ k.container.information .timer

/-- From `k` to `k'` only `t` changed, and shows `v` now. -/
structure Leaves (k : Kernel τ) (t : τ) (v : View) (k' : Kernel τ) : Prop where
  here : view k' t = v
  elsewhere : ∀ t' ≠ t, view k' t' = view k t'

theorem Leaves.refl (k : Kernel τ) (t : τ) : Leaves k t (view k t) k := ⟨rfl, fun _ _ => rfl⟩

theorem Leaves.shows {k k' : Kernel τ} {t : τ} {v w : View} (h : Leaves k t v k') (hv : v = w) :
    Leaves k t w k' := hv ▸ h

theorem Leaves.trans {k k₁ k₂ : Kernel τ} {t : τ} {v w : View} (h : Leaves k t v k₁)
    (h' : Leaves k₁ t w k₂) : Leaves k t w k₂ :=
  ⟨h'.here, fun t' hne => (h'.elsewhere t' hne).trans (h.elsewhere t' hne)⟩

section Primitives

variable [DecidableEq τ] (k : Kernel τ) (t : τ)

theorem leaves_setTcb (tcb : Tcb) :
    Leaves k t { view k t with stat := tcb.stat } (k.setTcb t tcb) :=
  ⟨by simp [view, Kernel.setTcb, Kernel.object],
    fun t' hne => by simp [view, Kernel.setTcb, Kernel.object, hne]⟩

/-- A change of the thread that leaves its `stat` alone does not show. -/
theorem leaves_setTcb_stat (tcb : Tcb) (h : tcb.stat = (k.tcb t).stat) :
    Leaves k t (view k t) (k.setTcb t tcb) :=
  (leaves_setTcb k t tcb).shows (by rw [h]; rfl)

theorem leaves_setFlag (flag : UInt8) :
    Leaves k t { view k t with flag } (k.setFlag (.timer t) flag) :=
  ⟨by simp [view, Kernel.setFlag, Kernel.object],
    fun t' hne => by simp [view, Kernel.setFlag, Kernel.object, hne]⟩

theorem leaves_unlink : Leaves k t (view k t) (k.unlink t) := ⟨rfl, fun _ _ => rfl⟩

theorem leaves_scheduleRemove : Leaves k t (view k t) (rtScheduleRemoveThread k t) := by
  rw [rtScheduleRemoveThread]
  split <;> exact ⟨rfl, fun _ _ => rfl⟩

theorem leaves_scheduleInsert :
    Leaves k t { view k t with stat := threadReady ||| ((view k t).stat &&& ~~~threadStatMask) }
      (rtScheduleInsertThread k t) :=
  ⟨by simp [view, rtScheduleInsertThread, Kernel.setTcb, Kernel.object],
    fun t' hne => by simp [view, rtScheduleInsertThread, Kernel.setTcb, Kernel.object, hne]⟩

theorem leaves_detachThread :
    Leaves k t { view k t with thread := 0, listed := False }
      { k with container := rtObjectDetach k.container (.thread t) } :=
  ⟨by simp [view, rtObjectDetach, Kernel.object],
    fun t' hne => by simp [view, rtObjectDetach, Kernel.object, hne]⟩

theorem leaves_detachTimer :
    Leaves k t { view k t with timer := 0, timerListed := False }
      { k with container := rtObjectDetach k.container (.timer t) } :=
  ⟨by simp [view, rtObjectDetach, Kernel.object],
    fun t' hne => by simp [view, rtObjectDetach, Kernel.object, hne]⟩

theorem initThread_unlisted (name : String) (h : .thread t ∉ k.container.information .thread) :
    ∃ c, rtObjectInit k.container (.thread t) .thread name = .ok c ∧
      Leaves k t { view k t with thread := 0x81, listed := True } { k with container := c } := by
  refine ⟨_, by rw [rtObjectInit, rtAssert_of h]; rfl, ?_, fun t' hne => ?_⟩
  · simp [view, Kernel.object, ObjectClass.code, classStatic]
    rfl
  · simp [view, Kernel.object, hne]

theorem initThread_listed (name : String) (h : .thread t ∈ k.container.information .thread) :
    rtObjectInit k.container (.thread t) .thread name = .error "obj != object" := by
  rw [rtObjectInit, rtAssert_fails (not_not.mpr h)]
  rfl

theorem initTimer_unlisted (name : String) (h : .timer t ∉ k.container.information .timer) :
    ∃ c, rtObjectInit k.container (.timer t) .timer name = .ok c ∧
      Leaves k t { view k t with timer := 0x8a, timerListed := True } { k with container := c } := by
  refine ⟨_, by rw [rtObjectInit, rtAssert_of h]; rfl, ?_, fun t' hne => ?_⟩
  · simp [view, Kernel.object, ObjectClass.code, classStatic]
    rfl
  · simp [view, Kernel.object, hne]

end Primitives

inductive Phase where
  | zeroed
  | inited
  | ready
  | sleeping
  | waiting
  | closed
  deriving DecidableEq

def registered (flag stat : UInt8) : View := ⟨0x81, 0x8a, flag, stat, True, True⟩

def unregistered (stat : UInt8) : View := ⟨0, 0, 0, stat, False, False⟩

/-- What a thread in the phase shows. -/
def Phase.view : Phase → View
  | .zeroed => unregistered threadInit
  | .inited => registered 0 threadInit
  | .ready => registered 0 threadReady
  | .sleeping => registered timerFlagActivated threadSuspend
  | .waiting => registered 0 threadSuspend
  | .closed => unregistered threadClose

/-- Whether the block is on the kernel's thread list. -/
def Phase.live : Phase → Bool
  | .zeroed => false
  | .closed => false
  | _ => true

/-- The call returns, and moves `t` alone. -/
def Moves (r : Except String (Return τ)) (k : Kernel τ) (t : τ) (v : View) : Prop :=
  ∃ status k', r = .ok (status, k') ∧ Leaves k t v k'

theorem Leaves.moves {k k₁ : Kernel τ} {t : τ} {v w : View} {r : Except String (Return τ)}
    (h : Leaves k t v k₁) (hr : view k₁ t = v → Moves r k₁ t w) : Moves r k t w := by
  obtain ⟨status, k', hr, hk'⟩ := hr h.here
  exact ⟨status, k', hr, h.trans hk'⟩

theorem Moves.bind {k : Kernel τ} {t : τ} {v w : View} {r : Except String (Return τ)}
    {f : Return τ → Except String (Return τ)} (h : Moves r k t v)
    (hf : ∀ status k₁, view k₁ t = v → Moves (f (status, k₁)) k₁ t w) :
    Moves (r >>= f) k t w := by
  obtain ⟨status, k₁, rfl, hk₁⟩ := h
  exact hk₁.moves (hf status k₁)

theorem Moves.pure {k k' : Kernel τ} {t : τ} {v : View} (status : Int) (h : Leaves k t v k') :
    Moves (Pure.pure (status, k')) k t v := ⟨status, k', rfl, h⟩

/-- An assertion that holds is passed. -/
theorem Moves.assert {k : Kernel τ} {t : τ} {v : View} {cond : Prop} [Decidable cond]
    {text : String} {f : Unit → Except String (Return τ)} (h : cond) (hf : Moves (f ()) k t v) :
    Moves (rtAssert cond text >>= f) k t v := by
  rw [rtAssert_of h]
  exact hf

theorem Moves.ite_pos {k : Kernel τ} {t : τ} {v : View} {cond : Prop} [Decidable cond]
    {r r' : Except String (Return τ)} (h : cond) (hr : Moves r k t v) :
    Moves (if cond then r else r') k t v := by
  rw [if_pos h]
  exact hr

section Calls

variable {k : Kernel τ} {t : τ} {flag stat : UInt8}

theorem isThread (h : view k t = registered flag stat) : (k.object (.thread t)).Is .thread :=
  congrArg View.thread h

theorem isTimer (h : view k t = registered flag stat) : (k.object (.timer t)).Is .timer :=
  congrArg View.timer h

theorem stat_eq {v : View} (h : view k t = v) : (k.tcb t).stat = v.stat := congrArg View.stat h

theorem flag_eq {v : View} (h : view k t = v) : (k.object (.timer t)).flag = v.flag :=
  congrArg View.flag h

/-- The flags a thread timer has: a one-shot timer, stopped or running. -/
def OneShot (flag : UInt8) : Prop := flag = timerFlagOneShot ∨ flag = timerFlagActivated

theorem OneShot.clear (h : OneShot flag) : flag &&& ~~~timerFlagActivated = 0 := by
  rcases h with rfl | rfl <;> decide

theorem OneShot.set (h : OneShot flag) :
    flag &&& ~~~timerFlagActivated ||| timerFlagActivated = timerFlagActivated := by
  rcases h with rfl | rfl <;> decide

theorem OneShot.stopped (h : OneShot flag) (hact : flag &&& timerFlagActivated = 0) : flag = 0 := by
  rcases h with rfl | rfl
  · rfl
  · exact absurd hact (by decide)

theorem Phase.view_of_live {p : Phase} (h : p.live = true) :
    ∃ flag stat, p.view = registered flag stat ∧ OneShot flag ∧
      stat &&& threadStatMask ≠ threadClose := by
  cases p with
  | zeroed => cases h
  | inited => exact ⟨_, _, rfl, .inl rfl, by decide⟩
  | ready => exact ⟨_, _, rfl, .inl rfl, by decide⟩
  | sleeping => exact ⟨_, _, rfl, .inr rfl, by decide⟩
  | waiting => exact ⟨_, _, rfl, .inl rfl, by decide⟩
  | closed => cases h

theorem Phase.view_of_not_live {p : Phase} (h : p.live = false) :
    ∃ stat, p.view = unregistered stat := by
  cases p with
  | zeroed => exact ⟨_, rfl⟩
  | closed => exact ⟨_, rfl⟩
  | inited | ready | sleeping | waiting => cases h

theorem listed_iff {p : Phase} (h : view k t = p.view) :
    Addr.thread t ∈ k.container.information .thread ↔ p.live = true := by
  have hlisted : (view k t).listed = p.view.listed := congrArg View.listed h
  rw [show (Addr.thread t ∈ k.container.information .thread) = (view k t).listed from rfl, hlisted]
  cases p <;> simp [Phase.view, Phase.live, registered, unregistered]

variable [DecidableEq τ]

theorem rtTimerDetach_moves (h : view k t = registered flag stat) (hflag : OneShot flag) :
    Moves (rtTimerDetach k t) k t
      { registered 0 stat with timer := 0, timerListed := False } := by
  refine Moves.assert (isTimer h).getType (Moves.assert (isTimer h).isSystemobject ?_)
  have hset := leaves_setFlag k t ((k.object (.timer t)).flag &&& ~~~timerFlagActivated)
  refine .pure _ ((hset.trans (leaves_detachTimer _ t)).shows ?_)
  rw [hset.here, h, flag_eq h, show (registered flag stat).flag = flag from rfl, hflag.clear]
  rfl

theorem rtTimerStop_moves (h : view k t = registered flag stat) (hflag : OneShot flag) :
    Moves (rtTimerStop k t) k t (registered 0 stat) := by
  refine Moves.assert (isTimer h).getType ?_
  have hk : (k.object (.timer t)).flag = flag := flag_eq h
  rw [hk]
  split
  next hact =>
    refine .pure _ ((Leaves.refl k t).shows ?_)
    rw [h, hflag.stopped hact]
  next =>
    refine .pure _ ((leaves_setFlag k t _).shows ?_)
    rw [h, hflag.clear]
    rfl

theorem rtTimerStart_moves (h : view k t = registered flag stat) (hflag : OneShot flag)
    (htick : (k.tcb t).timerTick < rtTickMax / 2) :
    Moves (rtTimerStart k t) k t (registered timerFlagActivated stat) := by
  refine Moves.assert (isTimer h).getType (Moves.assert htick ?_)
  have hk : (k.object (.timer t)).flag = flag := flag_eq h
  refine .pure _ ((leaves_setFlag k t _).shows ?_)
  rw [h, hk, hflag.set]
  rfl

theorem rtThreadResume_moves (h : view k t = registered flag threadSuspend)
    (hflag : OneShot flag) : Moves (rtThreadResume k t) k t Phase.ready.view := by
  have hstat : (k.tcb t).stat = threadSuspend := stat_eq h
  refine Moves.assert (isThread h).getType ?_
  rw [hstat, if_neg (by decide)]
  refine (leaves_unlink k t).moves fun hunlink =>
    (rtTimerStop_moves (hunlink.trans h) hflag).bind fun _ k₁ hk₁ => ?_
  refine .pure _ ((leaves_scheduleInsert k₁ t).shows ?_)
  rw [hk₁]
  rfl

theorem rtThreadSuspend_moves (h : view k t = Phase.ready.view) :
    Moves (rtThreadSuspend k t) k t Phase.waiting.view := by
  have hstat : (k.tcb t).stat = threadReady := stat_eq h
  refine Moves.assert (isThread h).getType ?_
  rw [hstat, if_neg (by decide)]
  refine (leaves_scheduleRemove k t).moves fun hremove => ?_
  have hstat' := (stat_eq hremove).trans (congrArg View.stat h)
  refine Leaves.moves (v := Phase.waiting.view) ((leaves_setTcb _ t _).shows ?_)
    fun hset => (rtTimerStop_moves hset (.inl rfl)).bind
      fun _ k₁ hk₁ => .pure _ ((Leaves.refl k₁ t).shows hk₁)
  rw [hremove, h, hstat']
  rfl

theorem rtThreadSleep_moves (h : view k t = Phase.ready.view) {tick : Nat}
    (htick : tick < rtTickMax / 2) : Moves (rtThreadSleep k t tick) k t Phase.sleeping.view := by
  refine Moves.assert (isThread h).getType ((rtThreadSuspend_moves h).bind fun _ k₁ hk₁ => ?_)
  have htime : rtTimerSetTime k₁ t tick =
      pure (rtEok, k₁.setTcb t { k₁.tcb t with timerTick := tick }) := by
    rw [rtTimerSetTime, rtAssert_of (isTimer hk₁).getType]
    rfl
  simp only [htime, pure_bind]
  refine (leaves_setTcb_stat k₁ t { k₁.tcb t with timerTick := tick } rfl).moves fun hset =>
    (rtTimerStart_moves (hset.trans hk₁) (.inl rfl) ?_).bind fun _ k₂ hk₂ =>
      .pure _ ((Leaves.refl k₂ t).shows hk₂)
  simpa [Kernel.setTcb] using htick

theorem rtTimerCheck_leaves (h : view k t = Phase.sleeping.view) :
    ∃ k', rtTimerCheck k t = .ok k' ∧ Leaves k t Phase.ready.view k' := by
  have hstop := leaves_setFlag k t ((k.object (.timer t)).flag &&& ~~~timerFlagActivated)
  set k₁ := k.setFlag (.timer t) ((k.object (.timer t)).flag &&& ~~~timerFlagActivated) with hk₁
  have hwaiting : view k₁ t = Phase.waiting.view := by
    rw [hstop.here, h, flag_eq h]
    rfl
  have hstat : (k₁.tcb t).stat = threadSuspend := stat_eq hwaiting
  have hset := leaves_setTcb_stat k₁ t { k₁.tcb t with error := -rtEtimeout } rfl
  have hunlink := hset.trans (leaves_unlink _ t)
  refine ⟨_, ?_, hstop.trans ((hunlink.trans (leaves_scheduleInsert _ t)).shows ?_)⟩
  · rw [rtTimerCheck, ← hk₁, rtThreadTimeout, hstat, rtAssert_of (by decide),
      rtAssert_of (isThread hwaiting).getType]
    rfl
  · rw [hunlink.here, hset.here, hwaiting]
    rfl

theorem rtThreadStartup_moves (h : view k t = Phase.inited.view) :
    Moves (rtThreadStartup k t) k t Phase.ready.view := by
  have hstat : (k.tcb t).stat = threadInit := stat_eq h
  refine Moves.assert (by rw [hstat]; decide) (Moves.assert (isThread h).getType ?_)
  refine Leaves.moves (v := Phase.waiting.view) ((leaves_setTcb _ t _).shows ?_)
    fun hset => (rtThreadResume_moves hset (.inl rfl)).bind
      fun _ k₁ hk₁ => .pure _ ((Leaves.refl k₁ t).shows hk₁)
  rw [h]
  rfl

theorem rtTimerInit_leaves (h : Addr.timer t ∉ k.container.information .timer) (name : String)
    (time : Nat) :
    ∃ k', rtTimerInit k t name time timerFlagOneShot = .ok k' ∧
      Leaves k t { view k t with timer := 0x8a, flag := 0, timerListed := True } k' := by
  obtain ⟨c, hc, htimer⟩ := initTimer_unlisted k t name h
  have hset := leaves_setFlag { k with container := c } t (timerFlagOneShot &&& ~~~timerFlagActivated)
  have htcb := leaves_setTcb_stat ({ k with container := c }.setFlag (.timer t)
    (timerFlagOneShot &&& ~~~timerFlagActivated)) t { k.tcb t with timerTick := time } rfl
  refine ⟨_, by rw [rtTimerInit, hc]; rfl, (htimer.trans (hset.trans htcb)).shows ?_⟩
  rw [hset.here, htimer.here]
  rfl

theorem _rtThreadInit_moves
    (h : view k t = { unregistered stat with thread := 0x81, listed := True }) (name : String)
    {priority : UInt8} (hpriority : priority < rtThreadPriorityMax) (tick : Nat) :
    Moves (_rtThreadInit k t name priority tick) k t Phase.inited.view := by
  refine Moves.assert hpriority ?_
  have hset := leaves_setTcb k t { k.tcb t with
    initPriority := priority
    currentPriority := priority
    numberMask := 0
    initTick := tick
    remainingTick := tick
    error := rtEok
    stat := threadInit }
  have hlisted := fun hmem => (congrArg View.timerListed (hset.here.trans (by rw [h]))).mp hmem
  obtain ⟨k₁, hk₁, htimer⟩ := rtTimerInit_leaves hlisted name 0
  rw [hk₁]
  refine hset.moves fun _ => .pure _ (htimer.shows ?_)
  rw [hset.here, h]
  rfl

theorem rtThreadInit_moves (h : view k t = unregistered stat) (name : String) {priority : UInt8}
    (hpriority : priority < rtThreadPriorityMax) (tick : Nat) :
    Moves (rtThreadInit k t name priority tick) k t Phase.inited.view := by
  have hlisted : Addr.thread t ∉ k.container.information .thread :=
    fun hmem => (congrArg View.listed h).mp hmem
  obtain ⟨c, hc, hthread⟩ := initThread_unlisted k t name hlisted
  rw [rtThreadInit, hc]
  exact hthread.moves fun hview =>
    _rtThreadInit_moves (hview.trans (by rw [h])) _ hpriority tick

/-- A block on the thread list is not initialised again. -/
theorem rtThreadInit_registered (h : view k t = registered flag stat) (name : String)
    (priority : UInt8) (tick : Nat) :
    rtThreadInit k t name priority tick = .error "obj != object" := by
  have hlisted : Addr.thread t ∈ k.container.information .thread :=
    (congrArg View.listed h).mpr trivial
  rw [rtThreadInit, initThread_listed k t name hlisted]
  rfl

theorem closeThread_moves (h : view k t = registered flag stat) (hflag : OneShot flag) :
    Moves (closeThread k t) k t { registered 0 stat with timer := 0, timerListed := False } := by
  rw [closeThread]
  split
  · exact (leaves_scheduleRemove k t).moves fun hremove => rtTimerDetach_moves (hremove.trans h) hflag
  · exact rtTimerDetach_moves h hflag

/-- A registered thread that is not closed already is closed, started or not. -/
theorem rtThreadDetach_moves (h : view k t = registered flag stat) (hflag : OneShot flag)
    (hstat : stat &&& threadStatMask ≠ threadClose) :
    Moves (rtThreadDetach k t) k t Phase.closed.view := by
  have hk : (k.tcb t).stat = stat := stat_eq h
  refine Moves.assert (isThread h).getType (Moves.assert (isThread h).isSystemobject ?_)
  rw [hk, if_neg hstat]
  refine (closeThread_moves h hflag).bind fun _ k₁ hk₁ => ?_
  refine (leaves_setTcb k₁ t { k₁.tcb t with stat := threadClose }).moves fun hset => ?_
  rw [hk₁] at hset
  have hthread : ((k₁.setTcb t { k₁.tcb t with stat := threadClose }).object (.thread t)).Is .thread :=
    congrArg View.thread hset
  refine Moves.ite_pos hthread.isSystemobject (.pure _ ((leaves_detachThread _ t).shows ?_))
  rw [hset]
  rfl

/-- A block that was detached, or never initialised, is no thread. -/
theorem rtThreadControl_unregistered (h : view k t = unregistered stat) (cmd : ThreadCtrl) :
    rtThreadControl k t cmd =
      .error "rt_object_get_type((rt_object_t)thread) == RT_Object_Class_Thread" := by
  have htype : (k.object (.thread t)).type = 0 := congrArg View.thread h
  unfold rtThreadControl
  rw [rtAssert_fails (getType_zero htype .thread)]
  rfl

theorem rtThreadControl_startup (h : view k t = Phase.inited.view) :
    Moves (rtThreadControl k t .startup) k t Phase.ready.view :=
  Moves.assert (isThread h).getType (rtThreadStartup_moves h)

theorem rtThreadControl_close (h : view k t = registered flag stat) (hflag : OneShot flag)
    (hstat : stat &&& threadStatMask ≠ threadClose) :
    Moves (rtThreadControl k t .close) k t Phase.closed.view := by
  refine Moves.assert (isThread h).getType ?_
  simp only [(isThread h).isSystemobject, if_true]
  exact rtThreadDetach_moves h hflag hstat

end Calls
end StmGateway.Rt.Life
