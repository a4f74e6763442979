import StmGateway.Rt.Alarms

/-!
# How long a thread sleeps

A thread that sleeps for some ticks is ready again at the tick that makes up that
number, or at the next one if the number is zero, whatever the other threads do
and wherever the tick counter wraps.
-/
namespace StmGateway.Rt.Delay

open StmGateway.Lib
open StmGateway.Rt.Thread
open StmGateway.Rt.Life
open StmGateway.Rt.Schedule (Ready Suspended)
open StmGateway.Rt.Clock
open StmGateway.Rt.Alarms

variable {τ : Type}

/-- The thread an event is about. -/
def Event.thread : Event τ → Option τ
  | .init t _ _ _ | .control t _ | .changePriority t _ | .suspend t | .resume t | .sleep t _ =>
    some t
  | .elapse _ => none

def Event.isElapse : Event τ → Bool
  | .elapse _ => true
  | _ => false

/-- The ticks that pass in a run. -/
def ticks (events : List (Event τ)) : Nat := events.countP Event.isElapse

section Step

variable {c : Clocked τ} {a : Alarm τ} {t : τ} {n : Nat}

theorem mem_queue (h : Follows c a) : (t, n) ∈ a.queue ↔ a.phase t = .sleeping ∧ left c t = n := by
  rw [← h.queue, countdown, List.mem_map, ← h.asleep]
  constructor
  · rintro ⟨t', ht', heq⟩
    obtain ⟨rfl, rfl⟩ := Prod.mk.inj heq
    exact ⟨ht', rfl⟩
  · rintro ⟨ht, rfl⟩
    exact ⟨t, ht, rfl⟩

theorem ready_iff (h : Follows c a) : Ready c.kernel t ↔ a.phase t = .ready := by
  rw [Ready, stat_eq (h.shows t)]
  cases a.phase t <;> decide

variable [DecidableEq τ] {a' : Alarm τ}

theorem move_other {t' : τ} {p : Phase} (hne : t ≠ t') :
    (a.move t' p).phase t = a.phase t ∧ ((t, n) ∈ (a.move t' p).queue ↔ (t, n) ∈ a.queue) := by
  refine ⟨Function.update_of_ne hne .., ?_⟩
  rw [Alarm.move, Countdown.mem_drop]
  exact and_iff_left hne

theorem sleep_other {t' : τ} {tick : Nat} (hne : t ≠ t') :
    (a.sleep t' tick).phase t = a.phase t ∧
      ((t, n) ∈ (a.sleep t' tick).queue ↔ (t, n) ∈ a.queue) := by
  refine ⟨Function.update_of_ne hne .., ?_⟩
  rw [Alarm.sleep, Countdown.mem_add, Countdown.mem_drop]
  simp [hne]

/-- What an event does: something about its thread, or a tick. -/
theorem next_cases {e : Event τ} (hnext : a.next e = some a') :
    (Event.isElapse e = true ∧ a' = a.elapse) ∨
    (Event.isElapse e = false ∧ ∃ t', Event.thread e = some t' ∧
      (a' = a ∨ (∃ p, a' = a.move t' p) ∨ ∃ tick, a' = a.sleep t' tick)) := by
  cases e with
  | elapse current => exact .inl ⟨rfl, (Option.some.inj hnext).symm⟩
  | control t' cmd =>
    refine .inr ⟨rfl, t', rfl, .inr (.inl ?_)⟩
    cases cmd with
    | startup =>
      simp only [Alarm.next] at hnext
      split_ifs at hnext
      exact ⟨_, (Option.some.inj hnext).symm⟩
    | close =>
      simp only [Alarm.next] at hnext
      split_ifs at hnext
      exact ⟨_, (Option.some.inj hnext).symm⟩
  | init t' | changePriority t' | suspend t' | resume t' | sleep t' =>
    refine .inr ⟨rfl, t', rfl, ?_⟩
    simp only [Alarm.next] at hnext
    split_ifs at hnext <;> cases hnext <;> first
      | exact .inl rfl
      | exact .inr (.inl ⟨_, rfl⟩)
      | exact .inr (.inr ⟨_, rfl⟩)

/-- An event about another thread leaves `t` as it is. -/
theorem next_other {e : Event τ} (hnext : a.next e = some a') (hthread : Event.thread e ≠ some t)
    (helapse : Event.isElapse e = false) :
    a'.phase t = a.phase t ∧ ((t, n) ∈ a'.queue ↔ (t, n) ∈ a.queue) := by
  rcases next_cases hnext with ⟨he, -⟩ | ⟨-, t', ht', rfl | ⟨p, rfl⟩ | ⟨tick, rfl⟩⟩
  · rw [he] at helapse
    cases helapse
  · exact ⟨rfl, Iff.rfl⟩
  · exact move_other fun heq => hthread (heq ▸ ht')
  · exact sleep_other fun heq => hthread (heq ▸ ht')

/-- A tick wakes a thread with at most one tick left, and takes one from the others. -/
theorem elapse_sleeping {c c' : Clocked τ} (h : Follows c a) (h' : Follows c' a.elapse)
    (hphase : a.phase t = .sleeping) :
    (left c t ≤ 1 → a.elapse.phase t = .ready) ∧
      (1 < left c t → a.elapse.phase t = .sleeping ∧ left c' t = left c t - 1) := by
  have hmem : (t, left c t) ∈ a.queue := (mem_queue h).mpr ⟨hphase, rfl⟩
  constructor
  · intro hle
    exact if_pos (h.sorted.mem_due.mpr ⟨_, hle, hmem⟩)
  · intro hlt
    refine (mem_queue h').mp (h.sorted.mem_rest.mpr ?_)
    rw [Nat.sub_add_cancel hlt.le]
    exact ⟨hmem, by omega⟩

theorem elapse_ready (hphase : a.phase t = .ready) : a.elapse.phase t = .ready := by
  rw [Alarm.elapse]
  exact ite_eq_left_iff.mpr fun _ => hphase

end Step

section Runs

variable [DecidableEq τ] {c₀ c₁ c : Clocked τ} {a : Alarm τ} {t : τ} {tick : Nat}
  {before events : List (Event τ)}

/-- Asleep with the rest of its ticks, or ready when they have passed. -/
structure Sleeps (t : τ) (tick passed : Nat) (c : Clocked τ) (a : Alarm τ) : Prop where
  asleep : passed < max tick 1 → a.phase t = .sleeping ∧ left c t = tick - passed
  awake : max tick 1 ≤ passed → a.phase t = .ready

theorem step_sleeps {passed : Nat} {e : Event τ} {c' : Clocked τ} (h : Follows c a)
    (hsleeps : Sleeps t tick passed c a) (hthread : Event.thread e ≠ some t)
    (hstep : Clock.Step c e c') :
    ∃ a', Follows c' a' ∧ Sleeps t tick (passed + if Event.isElapse e then 1 else 0) c' a' := by
  obtain ⟨a', hnext, h'⟩ := step_next h hstep
  refine ⟨a', h', ?_⟩
  cases he : Event.isElapse e with
  | false =>
    have hother := fun n => next_other (n := n) hnext hthread he
    refine ⟨fun hlt => ?_, fun hle => ((hother 0).1).trans (hsleeps.awake hle)⟩
    obtain ⟨hphase, hleft⟩ := hsleeps.asleep hlt
    exact (mem_queue h').mp ((hother _).2.mpr ((mem_queue h).mpr ⟨hphase, hleft⟩))
  | true =>
    rcases next_cases hnext with ⟨-, rfl⟩ | ⟨hfalse, -⟩
    · simp only [if_true]
      by_cases hlt : passed < max tick 1
      · obtain ⟨hphase, hleft⟩ := hsleeps.asleep hlt
        obtain ⟨hready, hstill⟩ := elapse_sleeping h h' hphase
        rw [hleft] at hready hstill
        refine ⟨fun hlt' => ?_, fun hle => hready (by omega)⟩
        obtain ⟨hphase', hleft'⟩ := hstill (by omega)
        exact ⟨hphase', by omega⟩
      · have hready := elapse_ready (hsleeps.awake (by omega))
        exact ⟨fun hlt' => absurd hlt' (by omega), fun _ => hready⟩
    · rw [he] at hfalse
      cases hfalse

theorem sleep_sleeps (h : Follows c₀ a) (hready : Ready c₀.kernel t)
    (hstep : Clock.Step c₀ (.sleep t tick) c₁) :
    ∃ a', Follows c₁ a' ∧ Sleeps t tick 0 c₁ a' := by
  obtain ⟨a', hnext, h'⟩ := step_next h hstep
  refine ⟨a', h', ?_⟩
  rw [Alarm.next, if_pos ((ready_iff h).mp hready)] at hnext
  split_ifs at hnext
  cases hnext
  refine ⟨fun _ => (mem_queue h').mp ?_, fun hle => absurd hle (by omega)⟩
  exact Countdown.mem_add.mpr (.inl rfl)

/-- From a call to sleep on, while no other call is about `t`: it is suspended,
with the ticks that are left on its timer, until as many ticks have passed as it
asked for, and one at least; from that tick on it is ready. -/
theorem sleep_wakes (hbefore : Runs Clock.Step reset before c₀) (hready : Ready c₀.kernel t)
    (hsleep : Clock.Step c₀ (.sleep t tick) c₁)
    (hafter : Runs (restrict (fun _ e => Event.thread e ≠ some t) Clock.Step) c₁ events c) :
    (ticks events < max tick 1 → Suspended c.kernel t ∧ left c t = tick - ticks events) ∧
      (max tick 1 ≤ ticks events → Ready c.kernel t) := by
  obtain ⟨a₀, -, h₀⟩ := (run_refines before).2 c₀ hbefore
  obtain ⟨a, h, hsleeps⟩ := hafter.invariant
    (fun events c => ∃ a, Follows c a ∧ Sleeps t tick (ticks events) c a)
    (sleep_sleeps h₀ hready hsleep) fun hinv hstep => by
      obtain ⟨a, h, hsleeps⟩ := hinv
      rw [ticks, List.countP_append, List.countP_singleton]
      exact step_sleeps h hsleeps hstep.1 hstep.2
  refine ⟨fun hlt => ?_, fun hle => (ready_iff h).mpr (hsleeps.awake hle)⟩
  obtain ⟨hphase, hleft⟩ := hsleeps.asleep hlt
  refine ⟨?_, hleft⟩
  rw [Suspended, stat_eq (h.shows t), hphase]
  decide

end Runs

/-- Two ticks of sleep, over while the idle thread runs. -/
theorem sleep_wakes_two : ∃ c₀ c₁ c : Clocked Nat,
    Clock.Step c₀ (.sleep 0 2) c₁ ∧ left c₁ 0 = 2 ∧
      Runs Clock.Step c₁ [.elapse 1, .elapse 1] c ∧ Ready c.kernel 0 := by
  have hrun : ∃ c₀ c₁ c, Runs Clock.Step (reset (τ := Nat))
      [.init 0 "led0" 23 20, .control 0 .startup] c₀ ∧ Ready c₀.kernel 0 ∧
      Clock.Step c₀ (.sleep 0 2) c₁ ∧
      Runs (restrict (fun _ e => Event.thread e ≠ some 0) Clock.Step) c₁
        [.elapse 1, .elapse 1] c := by
    refine ⟨_, _, _, .cons rfl (.cons rfl .init), rfl, rfl,
      .cons ⟨?_, rfl⟩ (.cons ⟨?_, rfl⟩ .init)⟩
    · decide
    · decide
  obtain ⟨c₀, c₁, c, hbefore, hready, hsleep, hafter⟩ := hrun
  have hasleep := (sleep_wakes hbefore hready hsleep .init).1 (by decide)
  exact ⟨c₀, c₁, c, hsleep, hasleep.2, hafter.of_restrict,
    (sleep_wakes hbefore hready hsleep hafter).2 (by decide)⟩

end StmGateway.Rt.Delay
