import StmGateway.Rt.Delay

/-!
# The error of a thread

A call of the kernel sets the error of the block it initialises and of no other, and
a tick that of the threads whose timers run out.
-/
namespace StmGateway.Rt.Errors

open StmGateway.Lib
open StmGateway.Rt.Object
open StmGateway.Rt.Thread
open StmGateway.Rt.Life
open StmGateway.Rt.Schedule (Suspended rtThreadChangePriority)
open StmGateway.Rt.ReadyQueue
open StmGateway.Rt.Turns (Edits edits_timerCheck)
open StmGateway.Rt.Clock
open StmGateway.Rt.Alarms

variable {τ : Type}

def SameErrors (k k' : Kernel τ) : Prop := ∀ t, (k'.tcb t).error = (k.tcb t).error

theorem SameErrors.trans {k k₁ k₂ : Kernel τ} (h : SameErrors k k₁) (h' : SameErrors k₁ k₂) :
    SameErrors k k₂ := fun t => (h' t).trans (h t)

theorem TimerOnly.errors {k k' : Kernel τ} (h : TimerOnly k k') : SameErrors k k' :=
  fun t => by rw [h.tcb t]

section Clock

variable {c c' : Clocked τ} {a : Alarm τ} {t : τ}

theorem suspended_iff (h : Follows c a) :
    Suspended c.kernel t ↔ a.phase t = .sleeping ∨ a.phase t = .waiting := by
  rw [Suspended, stat_eq (h.shows t)]
  cases a.phase t <;> decide

theorem ok_of_forget {x : Except String (Returned τ)} {y : Except String (Return τ)} {status : Int}
    (hforget : forget <$> x = y) (hx : x = .ok (status, c')) : y = .ok (status, c'.kernel) := by
  rw [← hforget, hx]
  rfl

end Clock

variable [DecidableEq τ]

section Errors

variable {k k' : Kernel τ} {t t' : τ} {status : Int}

theorem errors_setTcb (k : Kernel τ) (t : τ) (tcb : Tcb) (h : tcb.error = (k.tcb t).error) :
    SameErrors k (k.setTcb t tcb) := by
  intro t'
  show (Function.update k.tcb t tcb t').error = _
  by_cases ht : t' = t
  · subst ht
    rw [Function.update_self, h]
  · rw [Function.update_of_ne ht]

theorem errors_remove (k : Kernel τ) (t : τ) : SameErrors k (rtScheduleRemoveThread k t) := by
  intro t'
  rw [rtScheduleRemoveThread]
  split <;> rfl

theorem errors_insert (k : Kernel τ) (t : τ) : SameErrors k (rtScheduleInsertThread k t) :=
  errors_setTcb k t _ rfl

theorem errors_resume (h : rtThreadResume k t = .ok (status, k')) : SameErrors k k' := by
  obtain ⟨-, h⟩ := rtAssert_ok h
  split at h
  · cases h
    exact fun _ => rfl
  · obtain ⟨⟨_, k₁⟩, hk₁, h⟩ := bind_ok h
    cases h
    have htimer : SameErrors (k.unlink t) k₁ := TimerOnly.errors (rtTimerStop_ok hk₁)
    exact SameErrors.trans htimer (errors_insert k₁ t)

theorem errors_suspend (h : rtThreadSuspend k t = .ok (status, k')) : SameErrors k k' := by
  obtain ⟨-, h⟩ := rtAssert_ok h
  split at h
  · cases h
    exact fun _ => rfl
  · obtain ⟨⟨_, k₁⟩, hk₁, h⟩ := bind_ok h
    cases h
    have hset := errors_setTcb (rtScheduleRemoveThread k t) t
      { (rtScheduleRemoveThread k t).tcb t with
        stat := threadSuspend ||| (((rtScheduleRemoveThread k t).tcb t).stat &&& ~~~threadStatMask) }
      rfl
    exact (errors_remove k t).trans (hset.trans (TimerOnly.errors (rtTimerStop_ok hk₁)))

theorem errors_sleep {tick : Nat} (h : rtThreadSleep k t tick = .ok (status, k')) :
    SameErrors k k' := by
  obtain ⟨-, h⟩ := rtAssert_ok h
  obtain ⟨⟨_, k₁⟩, hk₁, h⟩ := bind_ok h
  obtain ⟨⟨_, k₂⟩, hk₂, h⟩ := bind_ok h
  obtain ⟨⟨_, k₃⟩, hk₃, h⟩ := bind_ok h
  cases h
  exact (errors_suspend hk₁).trans
    (TimerOnly.errors ((rtTimerSetTime_ok hk₂).trans (rtTimerStart_ok hk₃)))

theorem errors_changePriority {priority : UInt8}
    (h : rtThreadChangePriority k t priority = .ok (status, k')) : SameErrors k k' := by
  obtain ⟨-, h⟩ := rtAssert_ok h
  split at h
  · cases h
    have hset := errors_setTcb (rtScheduleRemoveThread k t) t
      { (rtScheduleRemoveThread k t).tcb t with
        currentPriority := priority
        numberMask := 1 <<< priority.toUInt32 } rfl
    exact (errors_remove k t).trans (hset.trans (errors_insert _ t))
  · cases h
    exact errors_setTcb k t _ rfl

theorem errors_timeSlice (k : Kernel τ) (t : τ) : SameErrors k (timeSlice k t) := by
  rw [timeSlice]
  split
  · dsimp only
    split
    · exact errors_setTcb k t _ rfl
    · exact errors_setTcb k t _ rfl
  · exact errors_setTcb k t _ rfl

/-- Changes about one thread leave the error of another. -/
theorem edits_error (h : Edits t k k') (hne : t' ≠ t) : (k'.tcb t').error = (k.tcb t').error := by
  induction h with
  | refl | container | defunct | group | unlink | enqueue => rfl
  | trans _ _ ih ih' => exact ih'.trans ih
  | timer h => exact TimerOnly.errors h t'
  | setTcb k tcb => exact congrArg Tcb.error (Function.update_of_ne hne ..)

end Errors

section Clock

variable {c c' : Clocked τ} {a a' : Alarm τ} {t : τ}

theorem expire_sublist {l : List τ} (h : c.expire l = .ok c') : c'.timerList.Sublist l := by
  induction l generalizing c with
  | nil =>
    cases h
    exact .refl _
  | cons t rest ih =>
    rw [Clocked.expire] at h
    split at h
    · obtain ⟨k, -, h⟩ := bind_ok h
      exact (ih h).cons t
    · cases h
      exact .refl _

/-- A tick touches the threads whose timers leave the list. -/
theorem expire_error {l : List τ} (hl : l.Nodup) (h : c.expire l = .ok c')
    (ht : t ∈ l → t ∈ c'.timerList) : (c'.kernel.tcb t).error = (c.kernel.tcb t).error := by
  induction l generalizing c with
  | nil =>
    cases h
    rfl
  | cons t' rest ih =>
    obtain ⟨ht', hrest⟩ := List.nodup_cons.mp hl
    rw [Clocked.expire] at h
    split at h
    · obtain ⟨k, hk, h⟩ := bind_ok h
      have hsub := expire_sublist h
      have hne : t ≠ t' := by
        rintro rfl
        exact ht' (hsub.subset (ht List.mem_cons_self))
      exact (ih hrest h fun hmem => ht (List.mem_cons_of_mem _ hmem)).trans
        (edits_error (edits_timerCheck hk) hne)
    · cases h
      rfl

theorem errors_suspendStep (h : Clock.Step c (.suspend t) c') : SameErrors c.kernel c'.kernel := by
  obtain ⟨⟨status, c₁⟩, hc₁, h⟩ := bind_ok h
  cases h
  exact errors_suspend (ok_of_forget (forget_threadSuspend c t) hc₁)

theorem errors_resumeStep (h : Clock.Step c (.resume t) c') : SameErrors c.kernel c'.kernel := by
  obtain ⟨⟨status, c₁⟩, hc₁, h⟩ := bind_ok h
  cases h
  exact errors_resume (ok_of_forget (forget_threadResume c t) hc₁)

theorem errors_sleepStep {tick : Nat} (h : Clock.Step c (.sleep t tick) c') :
    SameErrors c.kernel c'.kernel := by
  rw [Clock.Step, Clock.Event.run] at h
  split at h
  · obtain ⟨⟨status, c₁⟩, hc₁, h⟩ := bind_ok h
    cases h
    exact errors_sleep (ok_of_forget (forget_threadSleep c t tick) hc₁)
  · cases h
    exact fun _ => rfl

theorem elapse_expire {current : τ} (h : Clock.Step c (.elapse current) c') :
    { c with tick := c.tick + 1, kernel := timeSlice c.kernel current }.expire c.timerList =
      .ok c' := by
  rw [Clock.Step, Clock.Event.run, Clocked.rtTickIncrease] at h
  exact h

theorem after_elapse {k : Kernel τ} {tick : UInt32} (hl : c.timerList.Nodup)
    (h : { c with tick, kernel := k }.expire c.timerList = .ok c')
    (ht : t ∈ c.timerList → t ∈ c'.timerList) :
    (c'.kernel.tcb t).error = (k.tcb t).error :=
  expire_error hl h ht

/-- A tick leaves the error of a thread whose timer stays on the list. -/
theorem errors_elapseStep {current : τ} (hl : c.timerList.Nodup)
    (h : Clock.Step c (.elapse current) c') (ht : t ∈ c.timerList → t ∈ c'.timerList) :
    (c'.kernel.tcb t).error = (c.kernel.tcb t).error := by
  have hslice : ((timeSlice c.kernel current).tcb t).error = (c.kernel.tcb t).error :=
    errors_timeSlice c.kernel current t
  exact (after_elapse hl (elapse_expire h) ht).trans hslice

end Clock


end StmGateway.Rt.Errors
