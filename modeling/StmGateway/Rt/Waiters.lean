import StmGateway.Rt.Errors
import StmGateway.Rt.Fifo

/-!
# The threads around a mailbox

What a stretch of a call and an event of the kernel leave of each thread: whether
it is ready, its error, the list it is on, and its call. A stretch is about the
thread that runs it and the one it wakes, and apart from those it changes nothing.
-/
namespace StmGateway.Rt.Waiters

open StmGateway.Lib
open StmGateway.Rt.Object (rtAssert_of)
open StmGateway.Rt.Thread
open StmGateway.Rt.Life
open StmGateway.Rt.Schedule (Ready Suspended)
open StmGateway.Rt.ReadyQueue (bind_ok rtAssert_ok not_ready_of_suspended)
open StmGateway.Rt.Turns (edits_init edits_control)
open StmGateway.Rt.Clock
open StmGateway.Rt.Alarms
open StmGateway.Rt.Delay (ready_iff next_other mem_queue move_other sleep_other)
open StmGateway.Rt.Ipc
open StmGateway.Rt.Errors

variable {τ : Type}

section Places

variable {s s' s₁ : System τ} {t t' : τ} {list : Waiters} {c' : Clocked τ}

theorem ne_of_idle (hcall : s.call t ≠ .idle) (h : s.call t' = .idle) : t ≠ t' := by
  rintro rfl
  exact hcall h

/-- The list a call may wait on. -/
def side : Call → Option Waiters
  | .idle => none
  | .sending _ _ _ => some .senders
  | .receiving _ _ => some .receivers

/-- A thread in a call is ready or on the list of its call; one that is on a list is
suspended with no error set. -/
structure Placed (s : System τ) (t : τ) : Prop where
  waits : ∀ list, side (s.call t) = some list →
    Ready s.clock.kernel t ∨ t ∈ s.mb.waiting list
  queued : ∀ list, t ∈ s.mb.waiting list → side (s.call t) = some list ∧
    Suspended s.clock.kernel t ∧ (s.clock.kernel.tcb t).error = rtEok

/-- A thread with `n` ticks left on its timer. -/
def Asleep (c : Clocked τ) (t : τ) (n : Nat) : Prop := t ∈ c.timerList ∧ left c t = n

/-- All that changed is about `t`. -/
structure Apart (t : τ) (s s' : System τ) : Prop where
  tick : s'.clock.tick = s.clock.tick
  asleep : ∀ t' ≠ t, ∀ n, Asleep s'.clock t' n ↔ Asleep s.clock t' n
  ready : ∀ t' ≠ t, Ready s'.clock.kernel t' ↔ Ready s.clock.kernel t'
  suspended : ∀ t' ≠ t, Suspended s'.clock.kernel t' ↔ Suspended s.clock.kernel t'
  error : ∀ t' ≠ t, (s'.clock.kernel.tcb t').error = (s.clock.kernel.tcb t').error
  waiting : ∀ t' ≠ t, ∀ list, t' ∈ s'.mb.waiting list ↔ t' ∈ s.mb.waiting list
  call : ∀ t' ≠ t, s'.call t' = s.call t'

theorem Apart.trans (h : Apart t s s₁) (h' : Apart t s₁ s') : Apart t s s' where
  tick := h'.tick.trans h.tick
  asleep := fun t' ht n => (h'.asleep t' ht n).trans (h.asleep t' ht n)
  ready := fun t' ht => (h'.ready t' ht).trans (h.ready t' ht)
  suspended := fun t' ht => (h'.suspended t' ht).trans (h.suspended t' ht)
  error := fun t' ht => (h'.error t' ht).trans (h.error t' ht)
  waiting := fun t' ht list => (h'.waiting t' ht list).trans (h.waiting t' ht list)
  call := fun t' ht => (h'.call t' ht).trans (h.call t' ht)

theorem Placed.apart (h : Placed s t') (hapart : Apart t s s') (ht : t' ≠ t) : Placed s' t' where
  waits := fun list hside => by
    rw [hapart.call t' ht] at hside
    rw [hapart.ready t' ht, hapart.waiting t' ht]
    exact h.waits list hside
  queued := fun list hmem => by
    rw [hapart.waiting t' ht] at hmem
    rw [hapart.call t' ht, hapart.suspended t' ht, hapart.error t' ht]
    exact h.queued list hmem

theorem Placed.not_mem (h : Placed s t) (hready : Ready s.clock.kernel t) :
    t ∉ s.mb.waiting list := fun hmem =>
  not_ready_of_suspended (h.queued list hmem).2.1 hready

theorem Placed.of_ready (hready : Ready s.clock.kernel t)
    (hmem : ∀ list, t ∉ s.mb.waiting list) : Placed s t :=
  ⟨fun _ _ => .inl hready, fun list h => absurd h (hmem list)⟩

theorem mem_withClock :
    t ∈ (s.withClock c').mb.waiting list ↔ t ∈ s.mb.waiting list ∧ Suspended c'.kernel t := by
  cases list <;> simp [System.withClock, Mailbox.waiting]

theorem mem_suspendAt {k : Kernel τ} {flag : UInt8} {l : List τ}
    (hflag : flag = rtIpcFlagFifo ∨ flag = rtIpcFlagPrio) :
    t' ∈ suspendAt k flag t l ↔ t' = t ∨ t' ∈ l := by
  rw [suspendAt]
  split
  · rw [List.mem_append, List.mem_singleton, or_comm]
  · rw [if_pos (hflag.resolve_left ‹_›)]
    rw [List.append_assoc, List.mem_append, List.mem_append, List.mem_singleton, or_left_comm,
      ← List.mem_append, List.takeWhile_append_dropWhile]

theorem waiting_setWaiting {mb : Mailbox τ} {l : List τ} {list' : Waiters} :
    (mb.setWaiting l list).waiting list' = if list' = list then l else mb.waiting list' := by
  cases list <;> cases list' <;> rfl

/-- After some of the threads have been woken. -/
structure Resumed (s s' : System τ) : Prop where
  follows : ∃ a, Follows s'.clock a
  placed : ∀ t, Placed s' t
  ready : ∀ t, Ready s.clock.kernel t → Ready s'.clock.kernel t
  waits : ∀ t, Ready s.clock.kernel t ∨ Suspended s.clock.kernel t →
    Ready s'.clock.kernel t ∨ Suspended s'.clock.kernel t
  waiting : ∀ list t, t ∈ s'.mb.waiting list → t ∈ s.mb.waiting list

theorem Resumed.trans (h : Resumed s s₁) (h' : Resumed s₁ s') : Resumed s s' where
  follows := h'.follows
  placed := h'.placed
  ready := fun t hready => h'.ready t (h.ready t hready)
  waits := fun t hwaits => h'.waits t (h.waits t hwaits)
  waiting := fun list t hmem => h.waiting list t (h'.waiting list t hmem)

end Places

section Moves

variable {s s' : System τ} {a a' : Alarm τ} {t t' : τ} {list : Waiters} {c' : Clocked τ}

theorem asleep_iff {c : Clocked τ} {n : Nat} (h : Follows c a) :
    Asleep c t n ↔ (t, n) ∈ a.queue := by
  rw [mem_queue h, Asleep, h.asleep]

/-- What the kernel knows of a thread is as before. -/
structure Unmoved (t : τ) (a a' : Alarm τ) : Prop where
  phase : a'.phase t = a.phase t
  queue : ∀ n, (t, n) ∈ a'.queue ↔ (t, n) ∈ a.queue

theorem Unmoved.refl : Unmoved t a a := ⟨rfl, fun _ => Iff.rfl⟩

theorem stat_same {c : Clocked τ} (h : Follows c a) (h' : Follows c' a')
    (hphase : a'.phase t = a.phase t) :
    (Ready c'.kernel t ↔ Ready c.kernel t) ∧ (Suspended c'.kernel t ↔ Suspended c.kernel t) := by
  rw [ready_iff h, ready_iff h', suspended_iff h, suspended_iff h', hphase]
  exact ⟨Iff.rfl, Iff.rfl⟩

/-- A thread in a call is ready or suspended. -/
theorem Placed.phase (hplaced : Placed s t) (h : Follows s.clock a) (hcall : s.call t ≠ .idle) :
    a.phase t = .ready ∨ a.phase t = .sleeping ∨ a.phase t = .waiting := by
  obtain ⟨list, hside⟩ : ∃ list, side (s.call t) = some list := by
    cases heq : s.call t with
    | idle => exact absurd heq hcall
    | sending => exact ⟨_, rfl⟩
    | receiving => exact ⟨_, rfl⟩
  rcases hplaced.waits list hside with hready | hmem
  · exact .inl ((ready_iff h).mp hready)
  · exact .inr ((suspended_iff h).mp (hplaced.queued list hmem).2.1)

/-- A call of the kernel about `t`: the others are as before. -/
theorem apart_withClock (hplaced : ∀ t' ≠ t, Placed s t') (h : Follows s.clock a)
    (h' : Follows c' a') (hother : ∀ t' ≠ t, Unmoved t' a a')
    (herror : SameErrors s.clock.kernel c'.kernel) (htick : c'.tick = s.clock.tick) :
    Apart t s (s.withClock c') where
  tick := htick
  asleep := fun t' ht n => by
    show Asleep c' t' n ↔ _
    rw [asleep_iff h, asleep_iff h', (hother t' ht).queue]
  ready := fun t' ht => (stat_same h h' (hother t' ht).phase).1
  suspended := fun t' ht => (stat_same h h' (hother t' ht).phase).2
  error := fun t' _ => herror t'
  waiting := fun t' ht list => by
    rw [mem_withClock, and_iff_left_iff_imp]
    intro hmem
    exact (stat_same h h' (hother t' ht).phase).2.mpr ((hplaced t' ht).queued list hmem).2.1
  call := fun _ _ => rfl

variable [DecidableEq τ]

theorem unmoved_move {p : Phase} {t' : τ} (ht : t' ≠ t) : Unmoved t' a (a.move t p) :=
  ⟨(move_other (n := 0) ht).1, fun _ => (move_other ht).2⟩

theorem unmoved_sleep {tick : Nat} {t' : τ} (ht : t' ≠ t) : Unmoved t' a (a.sleep t tick) :=
  ⟨(sleep_other (n := 0) ht).1, fun _ => (sleep_other ht).2⟩

theorem apart_setError (s : System τ) (t : τ) (error : Int) : Apart t s (s.setError t error) := by
  have htcb : ∀ t' ≠ t, (s.setError t error).clock.kernel.tcb t' = s.clock.kernel.tcb t' :=
    fun t' ht => Function.update_of_ne ht ..
  refine ⟨rfl, fun _ _ _ => Iff.rfl, fun t' ht => ?_, fun t' ht => ?_, fun t' ht => ?_,
    fun _ _ list => ?_, fun _ _ => rfl⟩
  · rw [Ready, Ready, htcb t' ht]
  · rw [Suspended, Suspended, htcb t' ht]
  · rw [htcb t' ht]
  · cases list <;> rfl

theorem apart_setCall (s : System τ) (t : τ) (call : Call) : Apart t s (s.setCall t call) where
  tick := rfl
  asleep := fun _ _ _ => Iff.rfl
  ready := fun _ _ => Iff.rfl
  suspended := fun _ _ => Iff.rfl
  error := fun _ _ => rfl
  waiting := fun _ _ list => by cases list <;> rfl
  call := fun t' ht => Function.update_of_ne ht ..

theorem follows_setError (h : Follows s.clock a) (t : τ) (error : Int) :
    Follows (s.setError t error).clock a := by
  refine h.kernel fun t' => ?_
  have hleaves := leaves_setTcb_stat s.clock.kernel t { s.clock.kernel.tcb t with error } rfl
  by_cases ht : t' = t
  · subst ht
    exact hleaves.here
  · exact hleaves.elsewhere t' ht

section Steps

variable {c : Clocked τ} {status : Int} {tick : Nat}

theorem tick_timerStop (h : c.rtTimerStop t = .ok (status, c')) : c'.tick = c.tick := by
  obtain ⟨⟨status', k⟩, -, h⟩ := bind_ok h
  dsimp only at h
  split at h <;> cases h <;> rfl

theorem tick_resume (h : c.rtThreadResume t = .ok (status, c')) : c'.tick = c.tick := by
  obtain ⟨-, h⟩ := rtAssert_ok h
  split at h
  · cases h
    rfl
  · obtain ⟨⟨_, c₁⟩, hc₁, h⟩ := bind_ok h
    cases h
    have htick := tick_timerStop hc₁
    exact htick

theorem tick_suspend (h : c.rtThreadSuspend t = .ok (status, c')) : c'.tick = c.tick := by
  obtain ⟨-, h⟩ := rtAssert_ok h
  split at h
  · cases h
    rfl
  · obtain ⟨⟨_, c₁⟩, hc₁, h⟩ := bind_ok h
    cases h
    have htick := tick_timerStop hc₁
    exact htick

theorem tick_sleep (h : c.rtThreadSleep t tick = .ok (status, c')) : c'.tick = c.tick := by
  obtain ⟨-, h⟩ := rtAssert_ok h
  obtain ⟨⟨_, c₁⟩, hc₁, h⟩ := bind_ok h
  obtain ⟨⟨_, k⟩, -, h⟩ := bind_ok h
  obtain ⟨⟨_, c₂⟩, hc₂, h⟩ := bind_ok h
  obtain ⟨⟨_, k'⟩, -, hc₂⟩ := bind_ok hc₂
  cases hc₂
  cases h
  have htick := tick_suspend hc₁
  exact htick

/-- A thread that waits is made ready, and no other. -/
theorem resume_moves (h : Follows c a) (hresume : c.rtThreadResume t = .ok (status, c'))
    (hwaits : Ready c.kernel t ∨ Suspended c.kernel t) :
    ∃ a', Follows c' a' ∧ Ready c'.kernel t ∧ (∀ t' ≠ t, Unmoved t' a a') ∧
      SameErrors c.kernel c'.kernel ∧ c'.tick = c.tick := by
  have hstep : Clock.Step c (.resume t) c' := by
    rw [Clock.Step, Clock.Event.run, hresume]
    rfl
  obtain ⟨a', hnext, h'⟩ := step_next h hstep
  refine ⟨a', h', ?_, ?_, errors_resumeStep hstep, tick_resume hresume⟩
  all_goals
    rw [ready_iff h, suspended_iff h] at hwaits
    rcases hwaits with hready | hsuspended
  · rw [Alarm.next, if_neg (by simp [hready]), if_pos (by rw [hready]; rfl)] at hnext
    cases hnext
    exact (ready_iff h').mpr hready
  · rw [Alarm.next, if_pos hsuspended] at hnext
    cases hnext
    exact (ready_iff h').mpr (Function.update_self ..)
  · rw [Alarm.next, if_neg (by simp [hready]), if_pos (by rw [hready]; rfl)] at hnext
    cases hnext
    exact fun _ _ => .refl
  · rw [Alarm.next, if_pos hsuspended] at hnext
    cases hnext
    exact fun _ ht => unmoved_move ht

/-- One that is ready is suspended, and no other. -/
theorem suspend_moves (h : Follows c a) (hsuspend : c.rtThreadSuspend t = .ok (status, c'))
    (hready : Ready c.kernel t) :
    ∃ a', Follows c' a' ∧ Suspended c'.kernel t ∧ (∀ t' ≠ t, Unmoved t' a a') ∧
      SameErrors c.kernel c'.kernel ∧ c'.tick = c.tick := by
  have hstep : Clock.Step c (.suspend t) c' := by
    rw [Clock.Step, Clock.Event.run, hsuspend]
    rfl
  obtain ⟨a', hnext, h'⟩ := step_next h hstep
  rw [Alarm.next, if_pos ((ready_iff h).mp hready)] at hnext
  cases hnext
  exact ⟨_, h', (suspended_iff h').mpr (.inr (Function.update_self ..)), fun _ => unmoved_move,
    errors_suspendStep hstep, tick_suspend hsuspend⟩

/-- The same with a timer. -/
theorem sleep_moves (h : Follows c a) (hsleep : c.rtThreadSleep t tick = .ok (status, c'))
    (hready : Ready c.kernel t) :
    ∃ a', Follows c' a' ∧ Suspended c'.kernel t ∧ Asleep c' t tick ∧
      (∀ t' ≠ t, Unmoved t' a a') ∧ SameErrors c.kernel c'.kernel ∧ c'.tick = c.tick := by
  have hstep : Clock.Step c (.sleep t tick) c' := by
    rw [Clock.Step, Clock.Event.run, if_pos hready, hsleep]
    rfl
  obtain ⟨a', hnext, h'⟩ := step_next h hstep
  rw [Alarm.next, if_pos ((ready_iff h).mp hready)] at hnext
  split_ifs at hnext
  cases hnext
  exact ⟨_, h', (suspended_iff h').mpr (.inl (Function.update_self ..)),
    (asleep_iff h').mpr (Countdown.mem_add.mpr (.inl rfl)), fun _ => unmoved_sleep,
    errors_sleepStep hstep, tick_sleep hsleep⟩

/-- `rt_thread_suspend` and then the timer is what `rt_thread_sleep` does. -/
theorem threadSleep_of_suspend {c₁ c₂ : Clocked τ} {status' status'' : Int} {k : Kernel τ}
    (hsuspend : c.rtThreadSuspend t = .ok (status, c₁))
    (htime : rtTimerSetTime c₁.kernel t tick = .ok (status', k))
    (hstart : Clocked.rtTimerStart { c₁ with kernel := k } t = .ok (status'', c₂)) :
    c.rtThreadSleep t tick = .ok (rtEok, c₂) := by
  obtain ⟨htype, -⟩ := rtAssert_ok hsuspend
  rw [Clocked.rtThreadSleep, rtAssert_of htype]
  show (c.rtThreadSuspend t >>= _) = _
  rw [hsuspend]
  show (rtTimerSetTime c₁.kernel t tick >>= _) = _
  rw [htime]
  show (Clocked.rtTimerStart { c₁ with kernel := k } t >>= _) = _
  rw [hstart]
  rfl

end Steps

end Moves

section Kernel

variable [DecidableEq τ] {s : System τ} {e : Clock.Event τ} {c' : Clocked τ} {a a' : Alarm τ} {t : τ}

/-- What an event of the kernel may do to the threads in a call: it may wake them and
change their priorities. -/
def Spares (s : System τ) : Clock.Event τ → Prop
  | .changePriority _ _ | .resume _ | .elapse _ => True
  | .init t _ _ _ | .control t _ | .suspend t | .sleep t _ => s.call t = .idle

theorem setCall_idle (hidle : s.call t = .idle) : s.setCall t .idle = s := by
  rw [System.setCall, Function.update_eq_self_iff.mpr hidle.symm]

/-- A thread in a call cannot be initialised or started, so the events left out are
those that suspend or close it. -/
theorem step_kernel_spares {o : Outcome} {s' : System τ} (hplaced : ∀ t, Placed s t)
    (h : Follows s.clock a) (hundisturbed : Undisturbed s (.kernel e, o))
    (hstep : Step s (.kernel e, o) s') :
    (∃ t tick, e = .sleep t tick ∧ s' = s) ∨
      Spares s e ∧ ∃ clock, Clock.Step s.clock e clock ∧ s' = s.withClock clock := by
  obtain ⟨-, hsleep | ⟨hawake, clock, hclock, rfl⟩⟩ := step_kernel hstep
  · exact .inl hsleep
  obtain ⟨a', hnext, -⟩ := step_next h hclock
  have hidle : ∀ t, (a.phase t ≠ .ready ∧ a.phase t ≠ .sleeping ∧ a.phase t ≠ .waiting) →
      s.call t = .idle := by
    intro t hphase
    by_contra hcall
    rcases (hplaced t).phase h hcall with hp | hp | hp
    · exact hphase.1 hp
    · exact hphase.2.1 hp
    · exact hphase.2.2 hp
  right
  cases e with
  | init t name priority tick =>
    rw [Alarm.next] at hnext
    split_ifs at hnext with hdead
    refine ⟨hidle t ?_, clock, hclock, rfl⟩
    cases hphase : a.phase t <;> simp_all [Phase.live]
  | control t cmd =>
    cases cmd with
    | startup =>
      rw [Alarm.next] at hnext
      split_ifs at hnext with hinited
      exact ⟨hidle t (by simp [hinited]), clock, hclock, rfl⟩
    | close => exact ⟨hundisturbed, clock, hclock, setCall_idle (s := s.withClock clock) hundisturbed⟩
  | suspend t => exact ⟨hundisturbed, clock, hclock, rfl⟩
  | sleep t tick => exact ⟨hawake t tick rfl, clock, hclock, rfl⟩
  | changePriority | resume | elapse => exact ⟨trivial, clock, hclock, rfl⟩

/-- A thread in a call is left alone by a call of the kernel, or made ready. -/
theorem spares_unmoved (hspares : Spares s e) (hcall : s.call t ≠ .idle)
    (hnext : a.next e = some a') (he : Delay.Event.isElapse e = false) :
    Unmoved t a a' ∨ a'.phase t = .ready := by
  by_cases hthread : Delay.Event.thread e = some t
  · cases e with
    | init | control | suspend | sleep =>
      cases hthread
      exact absurd rfl (ne_of_idle hcall hspares)
    | changePriority =>
      rw [Alarm.next] at hnext
      split_ifs at hnext
      cases hnext
      exact .inl .refl
    | resume t' =>
      cases hthread
      rw [Alarm.next] at hnext
      split_ifs at hnext <;> cases hnext
      · exact .inr (Function.update_self ..)
      · exact .inl .refl
    | elapse => cases hthread
  · exact .inl ⟨(next_other (n := 0) hnext hthread he).1,
      fun _ => (next_other hnext hthread he).2⟩

/-- And by a tick in its phase. -/
theorem spares_phase (hspares : Spares s e) (hcall : s.call t ≠ .idle)
    (hnext : a.next e = some a') : a'.phase t = a.phase t ∨ a'.phase t = .ready := by
  cases he : Delay.Event.isElapse e with
  | false => exact (spares_unmoved hspares hcall hnext he).imp_left Unmoved.phase
  | true =>
    rcases Delay.next_cases hnext with ⟨-, rfl⟩ | ⟨hfalse, -⟩
    · rw [Alarm.elapse]
      dsimp only
      split
      · exact .inr rfl
      · exact .inl rfl
    · rw [he] at hfalse
      cases hfalse

/-- One that is left in its phase keeps its error. -/
theorem spares_error (h : Follows s.clock a) (h' : Follows c' a') (hspares : Spares s e)
    (hcall : s.call t ≠ .idle) (hstep : Clock.Step s.clock e c')
    (hphase : a'.phase t = a.phase t) :
    (c'.kernel.tcb t).error = (s.clock.kernel.tcb t).error := by
  cases e with
  | init t' name priority tick =>
    obtain ⟨⟨status, c₁⟩, hc₁, hstep⟩ := bind_ok hstep
    cases hstep
    exact edits_error (edits_init (ok_of_forget (forget_threadInit s.clock t' name priority tick) hc₁))
      (ne_of_idle hcall hspares)
  | control t' cmd =>
    obtain ⟨⟨status, c₁⟩, hc₁, hstep⟩ := bind_ok hstep
    cases hstep
    exact edits_error (edits_control (ok_of_forget (forget_threadControl s.clock t' cmd) hc₁))
      (ne_of_idle hcall hspares)
  | changePriority t' priority =>
    obtain ⟨⟨status, k⟩, hk, hstep⟩ := bind_ok hstep
    cases hstep
    exact errors_changePriority hk t
  | suspend t' => exact errors_suspendStep hstep t
  | resume t' => exact errors_resumeStep hstep t
  | sleep t' tick => exact errors_sleepStep hstep t
  | elapse current =>
    exact errors_elapseStep h.nodup hstep fun hmem =>
      (h'.asleep t).mpr (hphase.trans ((h.asleep t).mp hmem))

end Kernel

section Calls

variable [DecidableEq τ] {s s' : System τ} {a a' : Alarm τ} {t t' : τ} {list : Waiters} {c' : Clocked τ}

/-- The first thread of the list, if there is one, is woken. -/
theorem listResume_spec (hplaced : ∀ t, Placed s t) (h : Follows s.clock a)
    (hrun : s.rtIpcListResume list = .ok s') :
    (s.mb.waiting list = [] ∧ s' = s) ∨
    ∃ t ∈ s.mb.waiting list, ∃ a', Follows s'.clock a' ∧ Apart t s s' ∧
      Ready s'.clock.kernel t ∧
      (s'.clock.kernel.tcb t).error = (s.clock.kernel.tcb t).error ∧
      ∀ list', t ∉ s'.mb.waiting list' := by
  rw [System.rtIpcListResume] at hrun
  split at hrun
  next hnil =>
    cases hrun
    exact .inl ⟨hnil, rfl⟩
  next t rest hlist =>
    obtain ⟨⟨status, c'⟩, hc', hrun⟩ := bind_ok hrun
    cases hrun
    have hmem : t ∈ s.mb.waiting list := hlist ▸ List.mem_cons_self
    obtain ⟨a', h', hready, hother, herror, htick⟩ :=
      resume_moves h hc' (.inr ((hplaced t).queued list hmem).2.1)
    exact .inr ⟨t, hmem, a', h', apart_withClock (fun t _ => hplaced t) h h' hother herror htick,
      hready, herror t, fun list' hmem' =>
        not_ready_of_suspended (mem_withClock.mp hmem').2 hready⟩

/-- The thread that runs is suspended and put on the list, and none is taken off. -/
theorem listSuspend_spec {flag : UInt8} (hplaced : ∀ t, Placed s t) (h : Follows s.clock a)
    (hflag : flag = rtIpcFlagFifo ∨ flag = rtIpcFlagPrio) (hready : Ready s.clock.kernel t)
    (hrun : s.rtIpcListSuspend list t flag = .ok s') :
    (∃ status, s.clock.rtThreadSuspend t = .ok (status, s'.clock)) ∧
      (∃ a', Follows s'.clock a') ∧ Suspended s'.clock.kernel t ∧
      SameErrors s.clock.kernel s'.clock.kernel ∧
      Apart t s s' ∧ ∀ list', t ∈ s'.mb.waiting list' ↔ list' = list := by
  obtain ⟨⟨status, c₁⟩, hc₁, hrun⟩ := bind_ok hrun
  cases hrun
  obtain ⟨a₁, h₁, hsuspended, hother, herror, htick⟩ := suspend_moves h hc₁ hready
  have hclock := apart_withClock (fun t _ => hplaced t) h h₁ hother herror htick
  have hmem : ∀ t' list', t' ∈ ((s.withClock c₁).mb.setWaiting (suspendAt c₁.kernel flag t
      ((s.withClock c₁).mb.waiting list)) list).waiting list' ↔
      (t' = t ∧ list' = list) ∨ t' ∈ (s.withClock c₁).mb.waiting list' := by
    intro t' list'
    rw [waiting_setWaiting]
    split
    next heq => rw [mem_suspendAt hflag, heq, and_iff_left rfl]
    next hne => simp [hne]
  refine ⟨⟨status, hc₁⟩, ⟨a₁, h₁⟩, hsuspended, herror, ?_, fun list' => ?_⟩
  · refine { hclock with waiting := fun t' ht list' => (hmem t' list').trans ?_ }
    rw [or_iff_right fun heq => ht heq.1]
    exact hclock.waiting t' ht list'
  · refine (hmem t list').trans ?_
    rw [and_iff_right rfl, or_iff_left]
    exact fun hin => (hplaced t).not_mem hready (mem_withClock.mp hin).1

/-- The thread that runs waits on the list, with a timer or without. -/
theorem suspendCurrent_spec {timeout : Int32} (hplaced : ∀ t, Placed s t)
    (h : Follows s.clock a) (hflag : s.mb.flag = rtIpcFlagFifo ∨ s.mb.flag = rtIpcFlagPrio)
    (hready : Ready s.clock.kernel t) (hrun : s.suspendCurrent list t timeout = .ok s') :
    (∃ a', Follows s'.clock a') ∧ Apart t s s' ∧ Suspended s'.clock.kernel t ∧
      (s'.clock.kernel.tcb t).error = (s.clock.kernel.tcb t).error ∧
      (∀ list', t ∈ s'.mb.waiting list' ↔ list' = list) ∧
      (timeout > 0 → Asleep s'.clock t timeout.toInt.toNat) := by
  obtain ⟨s₁, hsuspend, hrun⟩ := bind_ok hrun
  obtain ⟨⟨status, hc₁⟩, ⟨a₁, h₁⟩, hsuspended, herror, hapart, hmem⟩ :=
    listSuspend_spec hplaced h hflag hready hsuspend
  split at hrun
  next =>
    obtain ⟨⟨_, k⟩, hk, hrun⟩ := bind_ok hrun
    obtain ⟨⟨_, c₂⟩, hc₂, hrun⟩ := bind_ok hrun
    cases hrun
    obtain ⟨a₂, h₂, hsuspended₂, hasleep, hother, herror₂, htick⟩ :=
      sleep_moves h (threadSleep_of_suspend hc₁ hk hc₂) hready
    refine ⟨⟨a₂, h₂⟩, { hapart with
      tick := htick
      asleep := fun t' ht n => (asleep_iff h₂).trans
        (((hother t' ht).queue n).trans (asleep_iff h).symm)
      ready := fun t' ht => (stat_same h h₂ (hother t' ht).phase).1
      suspended := fun t' ht => (stat_same h h₂ (hother t' ht).phase).2
      error := fun t' _ => herror₂ t' }, hsuspended₂, herror₂ t, hmem, fun _ => hasleep⟩
  next hforever =>
    cases hrun
    exact ⟨⟨a₁, h₁⟩, hapart, hsuspended, herror t, hmem, fun hpos => absurd hpos hforever⟩

/-- One round of the loop of `rt_ipc_list_resume_all`. -/
theorem resumeEach_round {error status : Int} (hplaced : ∀ t, Placed s t)
    (h : Follows s.clock a) (hwaits : Ready s.clock.kernel t ∨ Suspended s.clock.kernel t)
    (hc' : (s.setError t error).clock.rtThreadResume t = .ok (status, c')) :
    Resumed s ((s.setError t error).withClock c') ∧
      Apart t s ((s.setError t error).withClock c') ∧ Ready c'.kernel t := by
  have hset := apart_setError s t error
  have h₀ := follows_setError h t error
  have hwaits₀ : Ready (s.setError t error).clock.kernel t ∨
      Suspended (s.setError t error).clock.kernel t := by
    rwa [ready_iff h₀, suspended_iff h₀, ← ready_iff h, ← suspended_iff h]
  obtain ⟨a', h', hready, hother, herror, htick⟩ := resume_moves h₀ hc' hwaits₀
  have hapart := hset.trans (apart_withClock
    (fun t' ht => (hplaced t').apart hset ht) h₀ h' hother herror htick)
  have hmem : ∀ list, t ∉ ((s.setError t error).withClock c').mb.waiting list :=
    fun list hmem => not_ready_of_suspended (mem_withClock.mp hmem).2 hready
  refine ⟨⟨⟨a', h'⟩, fun t' => ?_, fun t' hready' => ?_, fun t' hwaits' => ?_, fun list t' hin => ?_⟩,
    hapart, hready⟩
  · by_cases ht : t' = t
    · subst ht
      exact .of_ready hready hmem
    · exact (hplaced t').apart hapart ht
  · by_cases ht : t' = t
    · exact ht ▸ hready
    · exact (hapart.ready t' ht).mpr hready'
  · by_cases ht : t' = t
    · exact .inl (ht ▸ hready)
    · rwa [hapart.ready t' ht, hapart.suspended t' ht]
  · exact (mem_withClock.mp hin).1

theorem resumeEach_spec {l : List τ} (hplaced : ∀ t, Placed s t) (h : Follows s.clock a)
    (hl : ∀ t ∈ l, Ready s.clock.kernel t ∨ Suspended s.clock.kernel t)
    (hrun : s.resumeEach l = .ok s') :
    Resumed s s' ∧ ∀ t ∈ l, Ready s'.clock.kernel t := by
  induction l generalizing s a with
  | nil =>
    cases hrun
    exact ⟨⟨⟨a, h⟩, hplaced, fun _ h => h, fun _ h => h, fun _ _ h => h⟩,
      fun t ht => absurd ht List.not_mem_nil⟩
  | cons t rest ih =>
    obtain ⟨⟨status, c'⟩, hc', hrun⟩ := bind_ok hrun
    obtain ⟨hround, -, hready⟩ := resumeEach_round hplaced h (hl t List.mem_cons_self) hc'
    obtain ⟨a', h'⟩ := hround.follows
    obtain ⟨hrest, hall⟩ := ih hround.placed h'
      (fun t' ht' => hround.waits t' (hl t' (List.mem_cons_of_mem t ht'))) hrun
    refine ⟨hround.trans hrest, fun t' ht' => ?_⟩
    rcases List.mem_cons.mp ht' with rfl | ht'
    · exact hrest.ready _ hready
    · exact hall t' ht'

/-- `rt_ipc_list_resume_all` leaves its list empty. -/
theorem listResumeAll_spec (hplaced : ∀ t, Placed s t) (h : Follows s.clock a)
    (hrun : s.rtIpcListResumeAll list = .ok s') :
    Resumed s s' ∧ ∀ t, t ∉ s'.mb.waiting list := by
  obtain ⟨hresumed, hready⟩ := resumeEach_spec hplaced h
    (fun t ht => .inr ((hplaced t).queued list ht).2.1) hrun
  exact ⟨hresumed, fun t ht =>
    (hresumed.placed t).not_mem (hready t (hresumed.waiting list t ht)) ht⟩

end Calls

end StmGateway.Rt.Waiters
