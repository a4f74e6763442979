import Mathlib.Data.List.TakeWhile
import StmGateway.Rt.ReadyQueue

/-!
# Turns among threads of one priority

A call edits the ready queue for one thread, the one it is about. While no event
is about `t`, a ready thread keeps its place: the threads before it in the list of
its priority only become fewer, and `rt_schedule` runs a thread of a higher
priority, one of those, or `t`.
-/
namespace StmGateway.Rt.Turns

open StmGateway.Lib
open StmGateway.Rt.Object
open StmGateway.Rt.Thread
open StmGateway.Rt.Schedule
open StmGateway.Rt.ReadyQueue

variable {τ : Type}

/-- Where the filter keeps what stops the prefix. -/
theorem takeWhile_filter_sublist {l : List τ} {p q : τ → Bool} (h : ∀ x, p x = false → q x) :
    ((l.filter q).takeWhile p).Sublist (l.takeWhile p) := by
  induction l with
  | nil => exact .refl _
  | cons x rest ih =>
    cases hp : p x with
    | false => simp [h x hp, hp]
    | true =>
      rw [List.takeWhile_cons_of_pos hp, List.filter_cons]
      split
      · rw [List.takeWhile_cons_of_pos hp]
        exact ih.cons_cons x
      · exact ih.cons x

theorem takeWhile_append_of_stop {l rest : List τ} {p : τ → Bool} {x : τ} (hx : x ∈ l)
    (hp : p x = false) : (l ++ rest).takeWhile p = l.takeWhile p := by
  rw [List.takeWhile_append, if_neg]
  intro hlen
  have hall : l.takeWhile p = l := (List.takeWhile_sublist p).eq_of_length hlen
  rw [List.mem_takeWhile_imp (hall.symm ▸ hx : x ∈ l.takeWhile p)] at hp
  cases hp

variable [DecidableEq τ]

/-- From the one kernel to the other by changes that are about `t` alone. -/
inductive Edits (t : τ) : Kernel τ → Kernel τ → Prop
  | refl (k) : Edits t k k
  | trans {k k₁ k₂} : Edits t k k₁ → Edits t k₁ k₂ → Edits t k k₂
  | timer {k k'} : TimerOnly k k' → Edits t k k'
  | container (k c) : Edits t k { k with container := c }
  | defunct (k l) : Edits t k { k with defunct := l }
  | group (k g) : Edits t k { k with readyPriorityGroup := g }
  | setTcb (k tcb) : Edits t k (k.setTcb t tcb)
  | unlink (k) : Edits t k (k.unlink t)
  | enqueue (k p) :
    Edits t k { k with priorityTable := Function.update k.priorityTable p (k.priorityTable p ++ [t]) }

section Calls

variable {k k' : Kernel τ} {t : τ} {status : Int}

theorem edits_remove (k : Kernel τ) (t : τ) : Edits t k (rtScheduleRemoveThread k t) := by
  rw [rtScheduleRemoveThread]
  split
  · exact (Edits.unlink k).trans (.group _ _)
  · exact .unlink k

theorem edits_insert (k : Kernel τ) (t : τ) : Edits t k (rtScheduleInsertThread k t) :=
  (Edits.setTcb k _).trans ((Edits.enqueue _ _).trans (.group _ _))

theorem edits_requeue (k : Kernel τ) (t : τ) : Edits t k (requeue k t) :=
  (Edits.unlink k).trans (.enqueue _ _)

theorem edits_init {name : String} {priority : UInt8} {tick : Nat}
    (h : rtThreadInit k t name priority tick = .ok (status, k')) : Edits t k k' := by
  obtain ⟨c, -, h⟩ := bind_ok h
  obtain ⟨-, h⟩ := rtAssert_ok h
  obtain ⟨k₁, hk₁, h⟩ := bind_ok h
  cases h
  exact (Edits.container k c).trans ((Edits.setTcb _ _).trans (.timer (rtTimerInit_ok hk₁)))

theorem edits_resume (h : rtThreadResume k t = .ok (status, k')) : Edits t k k' := by
  obtain ⟨-, h⟩ := rtAssert_ok h
  split at h
  · cases h
    exact .refl k
  · obtain ⟨⟨_, k₁⟩, hk₁, h⟩ := bind_ok h
    cases h
    exact (Edits.unlink k).trans ((Edits.timer (rtTimerStop_ok hk₁)).trans (edits_insert _ t))

theorem edits_suspend (h : rtThreadSuspend k t = .ok (status, k')) : Edits t k k' := by
  obtain ⟨-, h⟩ := rtAssert_ok h
  split at h
  · cases h
    exact .refl k
  · obtain ⟨⟨_, k₁⟩, hk₁, h⟩ := bind_ok h
    cases h
    exact (edits_remove k t).trans ((Edits.setTcb _ _).trans (.timer (rtTimerStop_ok hk₁)))

theorem edits_sleep {tick : Nat} (h : rtThreadSleep k t tick = .ok (status, k')) :
    Edits t k k' := by
  obtain ⟨-, h⟩ := rtAssert_ok h
  obtain ⟨⟨_, k₁⟩, hk₁, h⟩ := bind_ok h
  obtain ⟨⟨_, k₂⟩, hk₂, h⟩ := bind_ok h
  obtain ⟨⟨_, k₃⟩, hk₃, h⟩ := bind_ok h
  cases h
  exact (edits_suspend hk₁).trans (.timer ((rtTimerSetTime_ok hk₂).trans (rtTimerStart_ok hk₃)))

theorem edits_timerCheck (h : rtTimerCheck k t = .ok k') : Edits t k k' := by
  obtain ⟨-, h⟩ := rtAssert_ok h
  obtain ⟨-, h⟩ := rtAssert_ok h
  cases h
  exact (Edits.timer (.setFlag k t _)).trans
    ((Edits.setTcb _ _).trans ((Edits.unlink _).trans (edits_insert _ t)))

theorem edits_startup (h : rtThreadStartup k t = .ok (status, k')) : Edits t k k' := by
  obtain ⟨-, h⟩ := rtAssert_ok h
  obtain ⟨-, h⟩ := rtAssert_ok h
  obtain ⟨⟨_, k₁⟩, hk₁, h⟩ := bind_ok h
  cases h
  exact (Edits.setTcb k _).trans (edits_resume hk₁)

theorem edits_closeThread (h : closeThread k t = .ok (status, k')) : Edits t k k' := by
  rw [closeThread] at h
  split at h
  · exact (edits_remove k t).trans (.timer (rtTimerDetach_ok h))
  · exact .timer (rtTimerDetach_ok h)

theorem edits_detach (h : rtThreadDetach k t = .ok (status, k')) : Edits t k k' := by
  obtain ⟨-, h⟩ := rtAssert_ok h
  obtain ⟨-, h⟩ := rtAssert_ok h
  split at h
  · cases h
    exact .refl k
  · obtain ⟨⟨_, k₁⟩, hk₁, h⟩ := bind_ok h
    have hclosed := (edits_closeThread hk₁).trans (.setTcb k₁ { k₁.tcb t with stat := threadClose })
    simp only at h
    split at h
    · cases h
      exact hclosed.trans (.container _ _)
    · cases h
      exact hclosed.trans (.defunct _ _)

theorem edits_delete (h : rtThreadDelete k t = .ok (status, k')) : Edits t k k' := by
  obtain ⟨-, h⟩ := rtAssert_ok h
  obtain ⟨-, h⟩ := rtAssert_ok h
  split at h
  · cases h
    exact .refl k
  · obtain ⟨⟨_, k₁⟩, hk₁, h⟩ := bind_ok h
    cases h
    exact (edits_closeThread hk₁).trans ((Edits.setTcb _ _).trans (.defunct _ _))

theorem edits_control {cmd : ThreadCtrl} (h : rtThreadControl k t cmd = .ok (status, k')) :
    Edits t k k' := by
  obtain ⟨-, h⟩ := rtAssert_ok h
  cases cmd with
  | startup => exact edits_startup h
  | close =>
    simp only at h
    split at h
    · exact edits_detach h
    · exact edits_delete h

theorem edits_changePriority {priority : UInt8}
    (h : rtThreadChangePriority k t priority = .ok (status, k')) : Edits t k k' := by
  obtain ⟨-, h⟩ := rtAssert_ok h
  split at h
  · cases h
    exact (edits_remove k t).trans ((Edits.setTcb _ _).trans (edits_insert _ t))
  · cases h
    exact .setTcb k _

theorem edits_exit (h : rtThreadExit k t = .ok k') : Edits t k k' := by
  obtain ⟨⟨_, k₁⟩, hk₁, h⟩ := bind_ok h
  have hclosed := ((edits_remove k t).trans (.setTcb _ _)).trans (.timer (rtTimerDetach_ok hk₁))
  simp only at h
  split at h
  · cases h
    exact hclosed.trans (.container _ _)
  · cases h
    exact hclosed.trans (.defunct _ _)

end Calls

/-- The thread a call is about. -/
def Call.thread : Call τ → τ
  | .init t _ _ _ | .control t _ | .changePriority t _ | .suspend t | .resume t | .sleep t _
  | .timeout t | .detach t | .delete t => t

theorem call_edits {k k' : Kernel τ} {c : Call τ} (h : c.run k = .ok k') :
    Edits (Call.thread c) k k' := by
  cases c with
  | timeout t => exact edits_timerCheck h
  | init | control | changePriority | suspend | resume | sleep | detach | delete =>
    obtain ⟨⟨_, k₁⟩, hk₁, h⟩ := bind_ok h
    cases h
    first
      | exact edits_init hk₁
      | exact edits_control hk₁
      | exact edits_changePriority hk₁
      | exact edits_suspend hk₁
      | exact edits_resume hk₁
      | exact edits_sleep hk₁
      | exact edits_detach hk₁
      | exact edits_delete hk₁

/-- The threads before `t` in the list of a priority. -/
def ahead (k : Kernel τ) (t : τ) (p : UInt8) : List τ := (k.priorityTable p).takeWhile (· ≠ t)

/-- What a change about another thread leaves of the place of `t`. -/
structure Keeps (t : τ) (k k' : Kernel τ) : Prop where
  stat : (k'.tcb t).stat = (k.tcb t).stat
  currentPriority : (k'.tcb t).currentPriority = (k.tcb t).currentPriority
  queued : ∀ p, t ∈ k.priorityTable p →
    t ∈ k'.priorityTable p ∧ (ahead k' t p).Sublist (ahead k t p)

section Keeps

variable {k k' : Kernel τ} {t t' : τ}

theorem Keeps.refl (t : τ) (k : Kernel τ) : Keeps t k k :=
  ⟨rfl, rfl, fun _ h => ⟨h, .refl _⟩⟩

theorem Keeps.trans {k₁ k₂ : Kernel τ} (h : Keeps t k k₁) (h' : Keeps t k₁ k₂) : Keeps t k k₂ where
  stat := h'.stat.trans h.stat
  currentPriority := h'.currentPriority.trans h.currentPriority
  queued := fun p hp =>
    have h₁ := h.queued p hp
    have h₂ := h'.queued p h₁.1
    ⟨h₂.1, h₂.2.trans h₁.2⟩

theorem Edits.keeps (h : Edits t' k k') (hne : t ≠ t') : Keeps t k k' := by
  induction h with
  | refl k => exact .refl t k
  | trans _ _ ih ih' => exact ih.trans ih'
  | timer h =>
    refine ⟨h.stat t, by rw [h.tcb t], fun p hp => ?_⟩
    rw [ahead, ahead, h.priorityTable]
    exact ⟨hp, .refl _⟩
  | container | defunct | group => exact ⟨rfl, rfl, fun _ h => ⟨h, .refl _⟩⟩
  | setTcb k tcb =>
    have hother : (k.setTcb t' tcb).tcb t = k.tcb t := by simp [Kernel.setTcb, hne]
    exact ⟨by rw [hother], by rw [hother], fun _ h => ⟨h, .refl _⟩⟩
  | unlink k =>
    refine ⟨rfl, rfl, fun p hp => ⟨List.mem_filter.mpr ⟨hp, by simpa using hne⟩, ?_⟩⟩
    refine takeWhile_filter_sublist fun x hx => ?_
    obtain rfl : x = t := by simpa using hx
    simpa using hne
  | enqueue k q =>
    refine ⟨rfl, rfl, fun p hp => ?_⟩
    simp only [ahead, Function.update_apply]
    split
    next hq =>
      subst hq
      rw [takeWhile_append_of_stop hp (by simp)]
      exact ⟨List.mem_append_left _ hp, .refl _⟩
    next => exact ⟨hp, .refl _⟩

end Keeps

/-- The thread an event edits the queue for. -/
def Event.thread (s : Processor τ) : Event τ → Option τ
  | .call c => some (Call.thread c)
  | .exit | .yield => s.currentThread
  | .schedule | .enterCritical | .exitCritical => none

section Runs

variable {s₀ s s' : Processor τ} {events : List (Event τ)} {t : τ}

theorem step_keeps {e : Event τ} (h : Step s e s') (hne : Event.thread s e ≠ some t) :
    Keeps t s.kernel s'.kernel := by
  cases e with
  | call c =>
    obtain ⟨k, hrun, rfl⟩ := step_call h
    exact (call_edits hrun).keeps fun heq => hne (congrArg some heq.symm)
  | exit =>
    obtain ⟨t', k, hcurrent, -, hexit, hsched⟩ := step_exit h
    rw [(rtSchedule_kernel hsched).1]
    exact (edits_exit hexit).keeps fun heq => hne (heq ▸ hcurrent)
  | yield =>
    rcases rtThreadYield_ready h with heq | ⟨t', hcurrent, -, heq⟩
    · exact heq ▸ .refl t s.kernel
    · exact heq ▸ (edits_requeue _ _).keeps fun heq => hne (heq ▸ hcurrent)
  | schedule => exact (rtSchedule_kernel h).1 ▸ .refl t s.kernel
  | enterCritical =>
    cases h
    exact .refl t s.kernel
  | exitCritical => exact rtExitCritical_kernel h ▸ .refl t s.kernel

theorem run_keeps (hrun : Runs (restrict (fun s e => Event.thread s e ≠ some t) Step) s₀ events s) :
    Keeps t s₀.kernel s.kernel :=
  hrun.invariant (fun _ s => Keeps t s₀.kernel s.kernel) (.refl t s₀.kernel) fun hkeeps h =>
    hkeeps.trans (step_keeps h.2 h.1)

/-- From any state the kernel can be in, `t` being ready: while no event is about
`t` it stays ready at its priority, nobody gets ahead of it there, and whenever
the scheduler runs, it runs a thread of a higher priority, one that was ahead of
`t` from the start, or `t` itself. -/
theorem run_turns {before : List (Event τ)} (hbefore : Runs Step rtSystemSchedulerInit before s₀)
    (hready : Ready s₀.kernel t)
    (hrun : Runs (restrict (fun s e => Event.thread s e ≠ some t) Step) s₀ events s) :
    let p := (s₀.kernel.tcb t).currentPriority
    Ready s.kernel t ∧ (s.kernel.tcb t).currentPriority = p ∧
    (ahead s.kernel t p).Sublist (ahead s₀.kernel t p) ∧
    (s.lockNest = 0 → ∃ s' first, rtSchedule s = some s' ∧ s'.currentThread = some first ∧
      ((s.kernel.tcb first).currentPriority < p ∨ first ∈ ahead s₀.kernel t p ∨ first = t)) := by
  intro p
  have hk₀ := run_consistent hbefore
  have hk : Consistent s.kernel none :=
    hrun.invariant (fun _ s => Consistent s.kernel none) hk₀ fun hk h => step_consistent hk h.2
  have hkeeps := run_keeps hrun
  have hmem : t ∈ s₀.kernel.priorityTable p := (hk₀.mem_iff t p).mpr ⟨hready, by simp, rfl⟩
  have hready' : Ready s.kernel t := by rwa [Ready, hkeeps.stat]
  have hsub := (hkeeps.queued p hmem).2
  refine ⟨hready', hkeeps.currentPriority, hsub, fun hlock => ?_⟩
  obtain ⟨s', first, hs', hcurrent, hfirst, hleast, hhead⟩ := rtSchedule_first hk hlock hready'
  refine ⟨s', first, hs', hcurrent, ?_⟩
  have hle := hleast t hready'
  rw [hkeeps.currentPriority] at hle
  by_cases heq : (s.kernel.tcb first).currentPriority = p
  · refine .inr ?_
    by_cases hsame : first = t
    · exact .inr hsame
    · refine .inl (hsub.subset ?_)
      rw [heq] at hhead
      obtain ⟨rest, hlist⟩ := List.head?_eq_some_iff.mp hhead
      simp [ahead, hlist, hsame]
  · exact .inl (UInt8.lt_of_le_of_ne hle heq)

end Runs

/-- A third thread, made and started at the priority of the shell. -/
def queueing : List (Event Nat) :=
  startup ++ [.call (.init 2 "led0" 20 10), .call (.control 2 .startup)]

def queued : Processor Nat :=
  (queueing.foldlM Event.run rtSystemSchedulerInit).getD rtSystemSchedulerInit

theorem queued_runs : Runs Step rtSystemSchedulerInit queueing queued := .of_foldlM rfl

/-- The shell is ahead of it until it yields. -/
theorem run_turns_startup : ∃ s : Processor Nat,
    Runs (restrict (fun s e => Event.thread s e ≠ some 2) Step) queued [.schedule, .yield] s ∧
    ahead queued.kernel 2 20 = [1] ∧ (ahead s.kernel 2 20).Sublist [1] ∧
    ∃ s' first, rtSchedule s = some s' ∧ s'.currentThread = some first ∧
      ((s.kernel.tcb first).currentPriority < 20 ∨ first ∈ [1] ∨ first = 2) := by
  have hrun : ∃ s, Runs (restrict (fun s e => Event.thread s e ≠ some 2) Step) queued
      [.schedule, .yield] s ∧ s.lockNest = 0 := ⟨_, .of_checked rfl, rfl⟩
  obtain ⟨s, hrun, hlock⟩ := hrun
  obtain ⟨_, _, hahead, hturn⟩ := run_turns queued_runs (by decide) hrun
  exact ⟨s, hrun, rfl, hahead, hturn hlock⟩

end StmGateway.Rt.Turns
