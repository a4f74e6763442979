import StmGateway.Rt.Clock
import StmGateway.Rt.Life
import StmGateway.Rt.Turns

/-!
# What the clock is for

An abstract kernel knows of each thread only its phase, and of the threads that
sleep how many ticks each has left. The kernel with its clock does as this one
does: it fails an assertion exactly where the abstract kernel has no next state,
and its timer list, kept by wrapping tick numbers, is the queue of countdowns.
-/
namespace StmGateway.Rt.Alarms

open StmGateway.Lib
open StmGateway.Rt.Object
open StmGateway.Rt.Thread
open StmGateway.Rt.Life
open StmGateway.Rt.Schedule (Ready requeue rtThreadChangePriority rtSystemSchedulerInit)
open StmGateway.Rt.ReadyQueue (rtAssert_ok bind_ok)
open StmGateway.Rt.Clock

structure Alarm (τ : Type) where
  phase : τ → Phase
  queue : Countdown τ

variable {τ : Type}

section Abstract

variable [DecidableEq τ]

/-- Into a phase without a timer. -/
def Alarm.move (a : Alarm τ) (t : τ) (p : Phase) : Alarm τ where
  phase := Function.update a.phase t p
  queue := a.queue.drop t

def Alarm.sleep (a : Alarm τ) (t : τ) (tick : Nat) : Alarm τ where
  phase := Function.update a.phase t .sleeping
  queue := (a.queue.drop t).add t tick

def Alarm.elapse (a : Alarm τ) : Alarm τ where
  phase := fun t => if t ∈ a.queue.due then .ready else a.phase t
  queue := a.queue.rest

/-- `none` where the kernel asserts. -/
def Alarm.next (a : Alarm τ) : Event τ → Option (Alarm τ)
  | .init t _ priority _ =>
    if (a.phase t).live = false ∧ priority < rtThreadPriorityMax then some (a.move t .inited)
    else none
  | .control t .startup => if a.phase t = .inited then some (a.move t .ready) else none
  | .control t .close => if (a.phase t).live then some (a.move t .closed) else none
  | .changePriority t _ => if (a.phase t).live then some a else none
  | .suspend t =>
    if a.phase t = .ready then some (a.move t .waiting)
    else if (a.phase t).live then some a else none
  | .resume t =>
    if a.phase t = .sleeping ∨ a.phase t = .waiting then some (a.move t .ready)
    else if (a.phase t).live then some a else none
  | .sleep t tick =>
    if a.phase t = .ready then
      if tick < rtTickMax / 2 then some (a.sleep t tick) else none
    else some a
  | .elapse _ => some a.elapse

end Abstract

/-- The ticks until the timer of `t` is due. -/
def left (c : Clocked τ) (t : τ) : Nat := (c.timeoutTick t - c.tick).toNat

def countdown (c : Clocked τ) : Countdown τ := c.timerList.map fun t => (t, left c t)

structure Follows (c : Clocked τ) (a : Alarm τ) : Prop where
  shows : ∀ t, view c.kernel t = (a.phase t).view
  queue : countdown c = a.queue
  sorted : a.queue.Sorted
  short : ∀ t ∈ c.timerList, left c t < rtTickMax / 2
  nodup : c.timerList.Nodup
  asleep : ∀ t, t ∈ c.timerList ↔ a.phase t = .sleeping

section Lists

variable {t : τ}

/-- The wrapping comparison orders timers by the ticks they have left. -/
theorem insertTimer_countdown {timeoutTick : τ → UInt32} {tick : UInt32} {n : Nat} {l : List τ}
    (hn : (timeoutTick t - tick).toNat = n) (hlt : n < rtTickMax / 2)
    (hshort : ∀ p ∈ l, (timeoutTick p - tick).toNat < rtTickMax / 2) :
    (insertTimer timeoutTick t l).map (fun p => (p, (timeoutTick p - tick).toNat)) =
      Countdown.add (l.map fun p => (p, (timeoutTick p - tick).toNat)) t n := by
  induction l with
  | nil => simp [insertTimer, Countdown.add, hn]
  | cons p rest ih =>
    have hp := hshort p List.mem_cons_self
    have ih := ih fun p' hp' => hshort p' (List.mem_cons_of_mem _ hp')
    have hdiff : (timeoutTick p - timeoutTick t).toNat =
        (4294967296 - n + (timeoutTick p - tick).toNat) % 4294967296 := by
      rw [← hn]
      simp only [UInt32.toNat_sub]
      have := (timeoutTick p).toNat_lt
      have := (timeoutTick t).toNat_lt
      have := tick.toNat_lt
      omega
    have hzero : timeoutTick p - timeoutTick t = 0 ↔ (timeoutTick p - timeoutTick t).toNat = 0 := by
      rw [← UInt32.toNat_inj]
      rfl
    simp only [rtTickMax] at hlt hp
    rw [List.map_cons, Countdown.add]
    by_cases hle : (timeoutTick p - tick).toNat ≤ n
    · have hpast : insertTimer timeoutTick t (p :: rest) = p :: insertTimer timeoutTick t rest := by
        rw [insertTimer]
        split
        · rfl
        next hne => rw [if_neg (by rw [hzero] at hne; simp only [rtTickMax]; omega)]
      rw [if_pos hle, hpast, List.map_cons, ih]
    · have hbefore : insertTimer timeoutTick t (p :: rest) = t :: p :: rest := by
        rw [insertTimer, if_neg (by rw [hzero]; omega), if_pos (by simp only [rtTickMax]; omega)]
      rw [if_neg hle, hbefore]
      simp [hn]

theorem mem_insertTimer {timeoutTick : τ → UInt32} {l : List τ} {p : τ} :
    p ∈ insertTimer timeoutTick t l ↔ p = t ∨ p ∈ l := by
  induction l with
  | nil => simp [insertTimer]
  | cons p' rest ih =>
    rw [insertTimer]
    split
    · simp only [List.mem_cons, ih]
      tauto
    · split
      · simp
      · simp only [List.mem_cons, ih]
        tauto

theorem nodup_insertTimer {timeoutTick : τ → UInt32} {l : List τ} (hl : l.Nodup) (ht : t ∉ l) :
    (insertTimer timeoutTick t l).Nodup := by
  induction l with
  | nil => simp [insertTimer]
  | cons p rest ih =>
    obtain ⟨hp, hrest⟩ := List.nodup_cons.mp hl
    obtain ⟨hne, ht⟩ := not_or.mp (List.mem_cons.not.mp ht)
    have htail : (p :: insertTimer timeoutTick t rest).Nodup :=
      List.nodup_cons.mpr ⟨fun h => (mem_insertTimer.mp h).elim (fun h => hne h.symm) hp,
        ih hrest ht⟩
    rw [insertTimer]
    split
    · exact htail
    · split
      · exact List.nodup_cons.mpr ⟨List.mem_cons.not.mpr (not_or.mpr ⟨hne, ht⟩), hl⟩
      · exact htail

end Lists

section Moves

variable [DecidableEq τ] {c c' : Clocked τ} {a : Alarm τ} {t : τ} {p : Phase}

/-- The timer of `t` is off the list, and nothing else about the timers changed. -/
structure Kept (c : Clocked τ) (t : τ) (c' : Clocked τ) : Prop where
  tick : c'.tick = c.tick
  timeoutTick : ∀ t' ≠ t, c'.timeoutTick t' = c.timeoutTick t'
  timerList : c'.timerList = c.timerList.filter (· ≠ t)

theorem shows_update (h : ∀ t, view c.kernel t = (a.phase t).view)
    (hk : Leaves c.kernel t p.view c'.kernel) (t' : τ) :
    view c'.kernel t' = (Function.update a.phase t p t').view := by
  by_cases ht : t' = t
  · subst ht
    rw [Function.update_self]
    exact hk.here
  · rw [Function.update_of_ne ht, hk.elsewhere _ ht]
    exact h t'

theorem asleep_filter (h : ∀ t, t ∈ c.timerList ↔ a.phase t = .sleeping) (t t' : τ) :
    t' ∈ c.timerList.filter (· ≠ t) ↔ t' ≠ t ∧ a.phase t' = .sleeping := by
  rw [List.mem_filter, h]
  simp [and_comm]

theorem countdown_filter {timeoutTick : τ → UInt32}
    (h : ∀ t' ≠ t, timeoutTick t' = c.timeoutTick t') :
    (c.timerList.filter (· ≠ t)).map (fun t' => (t', (timeoutTick t' - c.tick).toNat)) =
      (countdown c).drop t := by
  rw [countdown, Countdown.drop, List.filter_map]
  refine List.map_congr_left fun t' ht' => ?_
  have hne : t' ≠ t := by simpa using (List.mem_filter.mp ht').2
  rw [h t' hne, left]

theorem Follows.move (h : Follows c a) (hkept : Kept c t c')
    (hk : Leaves c.kernel t p.view c'.kernel) (hp : p ≠ .sleeping) : Follows c' (a.move t p) where
  shows := shows_update h.shows hk
  queue := by
    rw [countdown, hkept.timerList, Alarm.move, ← h.queue, ← countdown_filter hkept.timeoutTick]
    simp only [left, hkept.tick]
  sorted := h.sorted.drop
  short := fun t' ht' => by
    rw [hkept.timerList, List.mem_filter] at ht'
    rw [left, hkept.timeoutTick t' (by simpa using ht'.2), hkept.tick]
    exact h.short t' ht'.1
  nodup := hkept.timerList ▸ h.nodup.filter _
  asleep := fun t' => by
    rw [hkept.timerList, asleep_filter h.asleep, Alarm.move]
    by_cases ht : t' = t
    · subst ht
      simp [hp]
    · simp [ht]

theorem Follows.sleep (h : Follows c a) {tick : Nat} (htick : tick < rtTickMax / 2)
    (hsame : c'.tick = c.tick)
    (htimeout : c'.timeoutTick = Function.update c.timeoutTick t (c.tick + UInt32.ofNat tick))
    (hlist : c'.timerList = insertTimer c'.timeoutTick t (c.timerList.filter (· ≠ t)))
    (hk : Leaves c.kernel t Phase.sleeping.view c'.kernel) : Follows c' (a.sleep t tick) := by
  have hother : ∀ t' ≠ t, c'.timeoutTick t' = c.timeoutTick t' := fun t' hne => by
    rw [htimeout, Function.update_of_ne hne]
  have hself : (c'.timeoutTick t - c.tick).toNat = tick := by
    rw [htimeout, Function.update_self, UInt32.add_comm, UInt32.add_sub_cancel,
      UInt32.toNat_ofNat_of_lt']
    simp only [rtTickMax] at htick
    exact lt_trans htick (by decide)
  have hshort : ∀ t' ∈ c.timerList.filter (· ≠ t),
      (c'.timeoutTick t' - c.tick).toNat < rtTickMax / 2 := by
    intro t' ht'
    rw [List.mem_filter] at ht'
    rw [hother t' (by simpa using ht'.2)]
    exact h.short t' ht'.1
  refine ⟨shows_update h.shows hk, ?_, h.sorted.drop.add, fun t' ht' => ?_, ?_, fun t' => ?_⟩
  · rw [countdown, hlist, Alarm.sleep, ← h.queue, ← countdown_filter hother,
      ← insertTimer_countdown hself htick hshort]
    simp only [left, hsame]
  · rw [hlist, mem_insertTimer] at ht'
    rw [left, hsame]
    rcases ht' with rfl | ht'
    · exact hself ▸ htick
    · exact hshort t' ht'
  · rw [hlist]
    exact nodup_insertTimer (h.nodup.filter _) (by simp)
  · rw [hlist, mem_insertTimer, asleep_filter h.asleep, Alarm.sleep]
    by_cases ht : t' = t
    · subst ht
      simp
    · simp [ht]

end Moves

section Elapse

variable {c : Clocked τ} {a : Alarm τ}

theorem due_countdown (c : Clocked τ) :
    (countdown c).due = c.timerList.takeWhile fun t => (c.timeoutTick t - c.tick).toNat ≤ 1 := by
  rw [Countdown.due, countdown, List.takeWhile_map, List.map_map]
  exact List.map_id _

variable [DecidableEq τ]

/-- A timer is due at the next tick when it has at most one left. -/
theorem due_iff {timeout tick : UInt32} (h : (timeout - tick).toNat < rtTickMax / 2) :
    (tick + 1 - timeout).toNat < rtTickMax / 2 ↔ (timeout - tick).toNat ≤ 1 := by
  have := timeout.toNat_lt
  have := tick.toNat_lt
  simp only [UInt32.toNat_sub, UInt32.toNat_add, UInt32.toNat_one, rtTickMax] at h ⊢
  omega

theorem left_succ {timeout tick : UInt32} (h : 1 ≤ (timeout - tick).toNat) :
    (timeout - (tick + 1)).toNat = (timeout - tick).toNat - 1 := by
  have := timeout.toNat_lt
  have := tick.toNat_lt
  simp only [UInt32.toNat_sub, UInt32.toNat_add, UInt32.toNat_one] at h ⊢
  omega

/-- The timers that are due are at the front, and each wakes its thread. -/
theorem expire_eq {tick : UInt32} (l : List τ) :
    ∀ c : Clocked τ, c.tick = tick + 1 → l.Nodup →
      (∀ t ∈ l, view c.kernel t = Phase.sleeping.view) →
      (∀ t ∈ l, (c.timeoutTick t - tick).toNat < rtTickMax / 2) →
      ∃ k', c.expire l = .ok { c with
          kernel := k'
          timerList := l.dropWhile fun t => (c.timeoutTick t - tick).toNat ≤ 1 } ∧
        ∀ t, view k' t = if t ∈ l.takeWhile fun t => (c.timeoutTick t - tick).toNat ≤ 1
          then Phase.ready.view else view c.kernel t := by
  induction l with
  | nil => exact fun c _ _ _ _ => ⟨c.kernel, rfl, fun t => rfl⟩
  | cons t rest ih =>
    intro c htick hnodup hsleeping hshort
    obtain ⟨ht, hrest⟩ := List.nodup_cons.mp hnodup
    have hdue := due_iff (hshort t List.mem_cons_self)
    rw [← htick] at hdue
    rw [Clocked.expire]
    by_cases hle : (c.timeoutTick t - tick).toNat ≤ 1
    · obtain ⟨k₁, hcheck, hk₁⟩ := rtTimerCheck_leaves (hsleeping t List.mem_cons_self)
      obtain ⟨k', hexpire, hk'⟩ := ih { c with kernel := k₁, timerList := rest } htick hrest
        (fun t' ht' => (hk₁.elsewhere t' fun heq => ht (heq ▸ ht')).trans
          (hsleeping t' (List.mem_cons_of_mem _ ht')))
        fun t' ht' => hshort t' (List.mem_cons_of_mem _ ht')
      refine ⟨k', ?_, fun t' => ?_⟩
      · rw [if_pos (hdue.mpr hle), hcheck, List.dropWhile_cons_of_pos (by simpa using hle)]
        exact hexpire
      · rw [hk' t', List.takeWhile_cons_of_pos (by simpa using hle)]
        by_cases heq : t' = t
        · subst heq
          simp [hk₁.here]
        · simp [heq, hk₁.elsewhere t' heq]
    · refine ⟨c.kernel, ?_, fun t' => ?_⟩
      · rw [if_neg (hdue.not.mpr hle), List.dropWhile_cons_of_neg (by simpa using hle)]
        rfl
      · rw [List.takeWhile_cons_of_neg (by simpa using hle)]
        rfl

theorem view_timeSlice (k : Kernel τ) (t t' : τ) : view (timeSlice k t) t' = view k t' := by
  have hset : ∀ remaining, view (k.setTcb t { k.tcb t with remainingTick := remaining }) t' =
      view k t' := by
    intro remaining
    have hleaves := leaves_setTcb_stat k t { k.tcb t with remainingTick := remaining } rfl
    by_cases h : t' = t
    · subst h
      exact hleaves.here
    · exact hleaves.elsewhere t' h
  rw [timeSlice]
  split
  · dsimp only
    split
    · exact hset _
    · exact hset _
  · exact hset _

theorem Follows.elapse (h : Follows c a) (t : τ) :
    ∃ c', c.rtTickIncrease t = .ok c' ∧ Follows c' a.elapse := by
  obtain ⟨k', hexpire, hk'⟩ := expire_eq c.timerList
    { c with tick := c.tick + 1, kernel := timeSlice c.kernel t } rfl h.nodup
    (fun t' ht' => by rw [view_timeSlice, h.shows, (h.asleep t').mp ht']) h.short
  set stays : τ → Bool := fun t => (c.timeoutTick t - c.tick).toNat ≤ 1 with hstays
  have hdue : a.queue.due = c.timerList.takeWhile stays := by rw [← h.queue, due_countdown]
  have hdrop : (countdown c).dropWhile (fun e => e.2 ≤ 1) =
      (c.timerList.dropWhile stays).map fun t => (t, left c t) := List.dropWhile_map ..
  have hlong : ∀ t' ∈ c.timerList.dropWhile stays, 1 < left c t' := by
    intro t' ht'
    have hmem : (t', left c t') ∈ (countdown c).dropWhile fun e => e.2 ≤ 1 :=
      hdrop ▸ List.mem_map_of_mem ht'
    rw [h.queue] at hmem
    exact h.sorted.one_lt_of_mem_dropWhile hmem
  refine ⟨_, hexpire, fun t' => ?_, ?_, h.sorted.rest, fun t' ht' => ?_, ?_, fun t' => ?_⟩
  · rw [hk' t', Alarm.elapse, hdue, view_timeSlice, h.shows, apply_ite Phase.view]
  · rw [Alarm.elapse, ← h.queue, Countdown.rest, hdrop, List.map_map]
    refine List.map_congr_left fun t' ht' => ?_
    exact congrArg (t', ·) (left_succ (hlong t' ht').le)
  · refine lt_of_le_of_lt ?_ (h.short t' (List.dropWhile_sublist _ |>.subset ht'))
    exact (left_succ (hlong t' ht').le).trans_le (Nat.sub_le _ _)
  · exact h.nodup.sublist (List.dropWhile_sublist _)
  · have hsplit : t' ∈ c.timerList ↔ t' ∈ c.timerList.takeWhile stays ∨
        t' ∈ c.timerList.dropWhile stays := by
      rw [← List.mem_append, List.takeWhile_append_dropWhile]
    have hdisjoint : t' ∈ c.timerList.dropWhile stays → t' ∉ c.timerList.takeWhile stays := by
      have hnodup := h.nodup
      rw [← List.takeWhile_append_dropWhile (p := stays) (l := c.timerList)] at hnodup
      exact fun hd ht => (List.nodup_append.mp hnodup).2.2 t' ht t' hd rfl
    rw [Alarm.elapse, hdue]
    by_cases ht : t' ∈ c.timerList.takeWhile stays
    · simp [ht]
      exact fun hd => hdisjoint hd ht
    · simp only [ht, if_false, ← h.asleep t', hsplit, false_or]

end Elapse

section Calls

variable {c c' : Clocked τ} {a : Alarm τ} {k : Kernel τ} {t : τ} {status : Int} {v : View}

/-- What the call does to the kernel is what the call without a clock does. -/
theorem Moves.lift {x : Except String (Returned τ)} {y : Except String (Return τ)}
    (hforget : forget <$> x = y) (h : Moves y c.kernel t v) :
    ∃ status c', x = .ok (status, c') ∧ Leaves c.kernel t v c'.kernel := by
  obtain ⟨status, k', rfl, hk'⟩ := h
  cases x with
  | error text => cases hforget
  | ok r =>
    obtain ⟨status', c'⟩ := r
    obtain ⟨rfl, rfl⟩ := Prod.mk.inj (Except.ok.inj hforget)
    exact ⟨status', c', rfl, hk'⟩

theorem error_lift {x : Except String (Returned τ)} {y : Except String (Return τ)} {text : String}
    (hforget : forget <$> x = y) (h : y = .error text) : x = .error text := by
  subst h
  cases x with
  | error text' => exact congrArg _ (Except.error.inj hforget)
  | ok r => cases hforget

variable [DecidableEq τ]

theorem Kept.of_not_mem (ht : t ∉ c.timerList) (htick : c'.tick = c.tick)
    (htimeout : ∀ t' ≠ t, c'.timeoutTick t' = c.timeoutTick t')
    (hlist : c'.timerList = c.timerList) : Kept c t c' :=
  ⟨htick, htimeout, by
    rw [hlist, List.filter_eq_self.mpr]
    exact fun t' ht' => by simpa using fun heq : t' = t => ht (heq ▸ ht')⟩

/-- A timer that does not run is not on the list. -/
theorem timerStop_kept
    (hact : t ∈ c.timerList → (k.object (.timer t)).flag &&& timerFlagActivated ≠ 0)
    (h : Clocked.rtTimerStop { c with kernel := k } t = .ok (status, c')) : Kept c t c' := by
  obtain ⟨⟨s, k'⟩, hk', h⟩ := bind_ok h
  obtain ⟨-, hk'⟩ := rtAssert_ok hk'
  split at hk'
  next hflag =>
    cases hk'
    cases h
    exact .of_not_mem (fun ht => hact ht hflag) rfl (fun _ _ => rfl) rfl
  next hflag =>
    cases hk'
    cases h
    exact ⟨rfl, fun _ _ => rfl, rfl⟩

theorem threadInit_kept {name : String} {priority : UInt8} {tick : Nat} (ht : t ∉ c.timerList)
    (h : c.rtThreadInit t name priority tick = .ok (status, c')) : Kept c t c' := by
  obtain ⟨⟨s, k⟩, -, h⟩ := bind_ok h
  cases h
  exact .of_not_mem ht rfl (fun t' hne => Function.update_of_ne hne ..) rfl

theorem threadResume_kept (hstat : (k.tcb t).stat &&& threadStatMask = threadSuspend)
    (hact : t ∈ c.timerList → (k.object (.timer t)).flag &&& timerFlagActivated ≠ 0)
    (h : Clocked.rtThreadResume { c with kernel := k } t = .ok (status, c')) : Kept c t c' := by
  obtain ⟨-, h⟩ := rtAssert_ok h
  rw [if_neg (not_not.mpr hstat)] at h
  obtain ⟨⟨s, c₁⟩, hc₁, h⟩ := bind_ok h
  cases h
  have hkept := timerStop_kept (k := k.unlink t) hact hc₁
  exact ⟨hkept.tick, hkept.timeoutTick, hkept.timerList⟩

theorem threadSuspend_kept (hstat : (c.kernel.tcb t).stat &&& threadStatMask = threadReady)
    (ht : t ∉ c.timerList) (h : c.rtThreadSuspend t = .ok (status, c')) : Kept c t c' := by
  obtain ⟨-, h⟩ := rtAssert_ok h
  rw [if_neg (not_not.mpr hstat)] at h
  obtain ⟨⟨s, c₁⟩, hc₁, h⟩ := bind_ok h
  cases h
  exact timerStop_kept (fun hmem => absurd hmem ht) hc₁

theorem threadStartup_kept (ht : t ∉ c.timerList)
    (h : c.rtThreadStartup t = .ok (status, c')) : Kept c t c' := by
  obtain ⟨-, h⟩ := rtAssert_ok h
  obtain ⟨-, h⟩ := rtAssert_ok h
  obtain ⟨⟨s, c₁⟩, hc₁, h⟩ := bind_ok h
  cases h
  refine threadResume_kept ?_ (fun hmem => absurd hmem ht) hc₁
  simp only [Kernel.setTcb, Function.update_self]
  decide

theorem timerDetach_kept (h : Clocked.rtTimerDetach { c with kernel := k } t = .ok (status, c')) :
    Kept c t c' := by
  obtain ⟨⟨s, k'⟩, -, h⟩ := bind_ok h
  cases h
  exact ⟨rfl, fun _ _ => rfl, rfl⟩

theorem threadDetach_kept (hstat : (c.kernel.tcb t).stat &&& threadStatMask ≠ threadClose)
    (h : c.rtThreadDetach t = .ok (status, c')) : Kept c t c' := by
  obtain ⟨-, h⟩ := rtAssert_ok h
  obtain ⟨-, h⟩ := rtAssert_ok h
  rw [if_neg hstat] at h
  obtain ⟨⟨s, c₁⟩, hc₁, h⟩ := bind_ok h
  have hkept := timerDetach_kept hc₁
  dsimp only at h
  split at h <;> cases h <;> exact ⟨hkept.tick, hkept.timeoutTick, hkept.timerList⟩

/-- The timer that `rt_thread_sleep` starts goes on the list it was stopped on. -/
theorem threadSleep_list {tick : Nat} (hstat : (c.kernel.tcb t).stat &&& threadStatMask = threadReady)
    (ht : t ∉ c.timerList) (h : c.rtThreadSleep t tick = .ok (status, c')) :
    c'.tick = c.tick ∧
      c'.timeoutTick = Function.update c.timeoutTick t (c.tick + UInt32.ofNat tick) ∧
      c'.timerList = insertTimer c'.timeoutTick t (c.timerList.filter (· ≠ t)) := by
  obtain ⟨-, h⟩ := rtAssert_ok h
  obtain ⟨⟨s₁, c₁⟩, hc₁, h⟩ := bind_ok h
  obtain ⟨⟨s₂, k₂⟩, hk₂, h⟩ := bind_ok h
  obtain ⟨⟨s₃, c₃⟩, hc₃, h⟩ := bind_ok h
  cases h
  have hkept := threadSuspend_kept hstat ht hc₁
  obtain ⟨-, hk₂⟩ := rtAssert_ok hk₂
  cases hk₂
  obtain ⟨⟨s₄, k₄⟩, -, hc₃⟩ := bind_ok hc₃
  cases hc₃
  have htimeout : Function.update c₁.timeoutTick t (c₁.tick + UInt32.ofNat tick) =
      Function.update c.timeoutTick t (c.tick + UInt32.ofNat tick) := by
    funext t'
    by_cases hne : t' = t
    · simp [hne, hkept.tick]
    · simp [hne, hkept.timeoutTick t' hne]
  refine ⟨hkept.tick, ?_, ?_⟩
  · simpa [Kernel.setTcb] using htimeout
  · simp [Clocked.removeTimer, hkept.timerList]

end Calls

section Simulation

/-- The call returns and the abstract kernel moves with it, or it fails an
assertion and the abstract kernel has no next state. -/
inductive Agrees : Except String (Clocked τ) → Option (Alarm τ) → Prop
  | returns {c : Clocked τ} {a : Alarm τ} : Follows c a → Agrees (.ok c) (some a)
  | asserts {text : String} : Agrees (.error text) none

variable {c c' : Clocked τ} {a a' : Alarm τ} {x : Except String (Returned τ)}
  {y : Except String (Return τ)}

/-- A call that leaves the kernel as it is. -/
theorem agrees_stay (h : Follows c a) (hx : ∃ status, x = .ok (status, c)) :
    Agrees (do let (_, c) ← x; return c) (some a) := by
  obtain ⟨status, rfl⟩ := hx
  exact .returns h

theorem agrees_error {text : String} (hforget : forget <$> x = y) (hy : y = .error text) :
    Agrees (do let (_, c) ← x; return c) none := by
  rw [error_lift hforget hy]
  exact .asserts

theorem Follows.kernel (h : Follows c a) {k : Kernel τ} (hk : ∀ t, view k t = view c.kernel t) :
    Follows { c with kernel := k } a :=
  { h with shows := fun t => (hk t).trans (h.shows t) }

theorem Follows.not_mem (h : Follows c a) {t : τ} (hp : a.phase t ≠ .sleeping) :
    t ∉ c.timerList := fun hmem => hp ((h.asleep t).mp hmem)

/-- A call on a block that is no thread. -/
theorem unregistered_agrees (h : Follows c a) {t : τ} (hlive : (a.phase t).live = false)
    (hforget : forget <$> x = y)
    (hy : rtObjectGetType (c.kernel.object (.thread t)) ≠ ObjectClass.thread.code →
      ∃ text, y = .error text) : Agrees (do let (_, c) ← x; return c) none := by
  obtain ⟨stat, hview⟩ := Phase.view_of_not_live hlive
  have htype : (c.kernel.object (.thread t)).type = 0 :=
    congrArg View.thread ((h.shows t).trans hview)
  obtain ⟨text, htext⟩ := hy (getType_zero htype .thread)
  exact agrees_error hforget htext

theorem assert_error {cond : Prop} [Decidable cond] {text : String} {α : Type}
    {f : Unit → Except String α} (h : ¬cond) :
    ∃ message, (rtAssert cond text >>= f) = .error message := by
  rw [rtAssert_fails h]
  exact ⟨_, rfl⟩

variable [DecidableEq τ]

theorem agrees_move {t : τ} {p : Phase} (h : Follows c a) (hforget : forget <$> x = y)
    (hy : Moves y c.kernel t p.view) (hp : p ≠ .sleeping)
    (hkept : ∀ status c', x = .ok (status, c') → Kept c t c') :
    Agrees (do let (_, c) ← x; return c) (some (a.move t p)) := by
  obtain ⟨status, c', rfl, hk⟩ := Moves.lift hforget hy
  exact .returns (h.move (hkept _ _ rfl) hk hp)

theorem rtThreadInit_priority {k : Kernel τ} {t : τ} {stat : UInt8}
    (h : view k t = unregistered stat) (name : String) {priority : UInt8}
    (hpriority : ¬priority < rtThreadPriorityMax) (tick : Nat) :
    rtThreadInit k t name priority tick = .error "priority < RT_THREAD_PRIORITY_MAX" := by
  have hlisted : Addr.thread t ∉ k.container.information .thread :=
    fun hmem => (congrArg View.listed h).mp hmem
  obtain ⟨c, hc, -⟩ := initThread_unlisted k t name hlisted
  rw [rtThreadInit, hc]
  show _rtThreadInit _ _ _ _ _ = _
  rw [_rtThreadInit, rtAssert_fails hpriority]
  rfl

theorem init_agrees (h : Follows c a) (t : τ) (name : String) (priority : UInt8) (tick : Nat) :
    Agrees (Clock.Event.run c (.init t name priority tick)) (a.next (.init t name priority tick)) := by
  have hforget := forget_threadInit c t name priority tick
  cases hlive : (a.phase t).live with
  | true =>
    obtain ⟨flag, stat, hview, -, -⟩ := Phase.view_of_live hlive
    rw [show a.next (.init t name priority tick) = none from if_neg (by simp [hlive])]
    exact agrees_error hforget (rtThreadInit_registered ((h.shows t).trans hview) name priority tick)
  | false =>
    obtain ⟨stat, hview⟩ := Phase.view_of_not_live hlive
    by_cases hpriority : priority < rtThreadPriorityMax
    · rw [show a.next (.init t name priority tick) = _ from if_pos ⟨hlive, hpriority⟩]
      refine agrees_move h hforget
        (rtThreadInit_moves ((h.shows t).trans hview) name hpriority tick) (by decide) ?_
      exact fun status c' => threadInit_kept (h.not_mem fun heq => by simp [heq, Phase.live] at hlive)
    · rw [show a.next (.init t name priority tick) = none from if_neg fun hand => hpriority hand.2]
      exact agrees_error hforget (rtThreadInit_priority ((h.shows t).trans hview) name hpriority tick)

theorem suspend_agrees (h : Follows c a) (t : τ) :
    Agrees (Clock.Event.run c (.suspend t)) (a.next (.suspend t)) := by
  have hforget := forget_threadSuspend c t
  rw [Alarm.next]
  split
  next hready =>
    have hview := (h.shows t).trans (congrArg Phase.view hready)
    refine agrees_move h hforget (rtThreadSuspend_moves hview) (by decide) fun status c' => ?_
    refine threadSuspend_kept ?_ (h.not_mem (by simp [hready]))
    rw [stat_eq hview]
    decide
  next hready =>
    split
    next hlive =>
      obtain ⟨flag, stat, hview, -, -⟩ := Phase.view_of_live hlive
      refine agrees_stay h ⟨-rtError, ?_⟩
      have hstat : (c.kernel.tcb t).stat &&& threadStatMask ≠ threadReady := by
        rw [stat_eq (h.shows t)]
        generalize hp : a.phase t = p at hready hlive
        cases p <;> first | decide | exact absurd rfl hready
      rw [Clocked.rtThreadSuspend, rtAssert_of (isThread ((h.shows t).trans hview)).getType]
      exact if_pos hstat
    next hlive =>
      exact unregistered_agrees h (Bool.not_eq_true _ ▸ hlive) hforget fun hne => assert_error hne

theorem resume_agrees (h : Follows c a) (t : τ) :
    Agrees (Clock.Event.run c (.resume t)) (a.next (.resume t)) := by
  have hforget := forget_threadResume c t
  rw [Alarm.next]
  split
  next hasleep =>
    obtain ⟨flag, hview, hflag⟩ : ∃ flag, view c.kernel t = registered flag threadSuspend ∧
        (t ∈ c.timerList → flag &&& timerFlagActivated ≠ 0) ∧ OneShot flag := by
      rw [h.shows t, h.asleep t]
      rcases hasleep with hphase | hphase <;> rw [hphase]
      · exact ⟨timerFlagActivated, rfl, fun _ => by decide, .inr rfl⟩
      · exact ⟨timerFlagOneShot, rfl, fun heq => absurd heq (by decide), .inl rfl⟩
    refine agrees_move h hforget (rtThreadResume_moves hview hflag.2) (by decide) fun status c' => ?_
    refine threadResume_kept (k := c.kernel) ?_ ?_
    · rw [stat_eq hview]
      exact show threadSuspend &&& threadStatMask = threadSuspend by decide
    · rw [flag_eq hview]
      exact hflag.1
  next hasleep =>
    split
    next hlive =>
      obtain ⟨flag, stat, hview, -, -⟩ := Phase.view_of_live hlive
      refine agrees_stay h ⟨-rtError, ?_⟩
      have hstat : (c.kernel.tcb t).stat &&& threadStatMask ≠ threadSuspend := by
        rw [stat_eq (h.shows t)]
        generalize hp : a.phase t = p at hasleep hlive
        cases p <;> first | decide | exact absurd (by simp) hasleep
      rw [Clocked.rtThreadResume, rtAssert_of (isThread ((h.shows t).trans hview)).getType]
      exact if_pos hstat
    next hlive =>
      exact unregistered_agrees h (Bool.not_eq_true _ ▸ hlive) hforget fun hne => assert_error hne

theorem rtThreadSleep_long {k : Kernel τ} {t : τ} (h : view k t = Phase.ready.view) {tick : Nat}
    (htick : ¬tick < rtTickMax / 2) :
    rtThreadSleep k t tick = .error "timer->init_tick < RT_TICK_MAX / 2" := by
  obtain ⟨status, k₁, hsuspend, hk₁⟩ := rtThreadSuspend_moves h
  have htime : rtTimerSetTime k₁ t tick =
      .ok (rtEok, k₁.setTcb t { k₁.tcb t with timerTick := tick }) := by
    rw [rtTimerSetTime, rtAssert_of (isTimer hk₁.here).getType]
    rfl
  have htimer : ((k₁.setTcb t { k₁.tcb t with timerTick := tick }).object (.timer t)).Is .timer :=
    congrArg View.timer hk₁.here
  have hstart : rtTimerStart (k₁.setTcb t { k₁.tcb t with timerTick := tick }) t =
      .error "timer->init_tick < RT_TICK_MAX / 2" := by
    rw [rtTimerStart, rtAssert_of htimer.getType, rtAssert_fails (by simpa [Kernel.setTcb] using htick)]
    rfl
  rw [rtThreadSleep, rtAssert_of (isThread h).getType, hsuspend]
  show (rtTimerSetTime k₁ t tick >>= _) = _
  rw [htime]
  show (rtTimerStart (k₁.setTcb t { k₁.tcb t with timerTick := tick }) t >>= _) = _
  rw [hstart]
  rfl

theorem sleep_agrees (h : Follows c a) (t : τ) (tick : Nat) :
    Agrees (Clock.Event.run c (.sleep t tick)) (a.next (.sleep t tick)) := by
  have hiff : Ready c.kernel t ↔ a.phase t = .ready := by
    rw [Ready, stat_eq (h.shows t)]
    cases a.phase t <;> decide
  rw [Alarm.next, Clock.Event.run]
  by_cases hready : a.phase t = .ready
  · rw [if_pos hready, if_pos (hiff.mpr hready)]
    have hview := (h.shows t).trans (congrArg Phase.view hready)
    split
    next htick =>
      obtain ⟨status, c', hc', hk⟩ := Moves.lift (forget_threadSleep c t tick)
        (rtThreadSleep_moves hview htick)
      have hstat : (c.kernel.tcb t).stat &&& threadStatMask = threadReady := hiff.mpr hready
      obtain ⟨hsame, htimeout, hlist⟩ := threadSleep_list hstat (h.not_mem (by simp [hready])) hc'
      rw [hc']
      exact .returns (h.sleep htick hsame htimeout hlist hk)
    next htick => exact agrees_error (forget_threadSleep c t tick) (rtThreadSleep_long hview htick)
  · rw [if_neg hready, if_neg (hiff.not.mpr hready)]
    exact .returns h

theorem rtThreadChangePriority_moves {k : Kernel τ} {t : τ} {p : Phase} (h : view k t = p.view)
    (hlive : p.live = true) (priority : UInt8) :
    Moves (rtThreadChangePriority k t priority) k t p.view := by
  obtain ⟨flag, stat, hview, -, -⟩ := Phase.view_of_live hlive
  refine Moves.assert (isThread (h.trans hview)).getType ?_
  have hstat := stat_eq h
  split
  next hready =>
    obtain rfl : p = .ready := by
      rw [hstat] at hready
      cases p <;> first | rfl | exact absurd hready (by decide)
    have hremove := leaves_scheduleRemove k t
    have hset := leaves_setTcb_stat (rtScheduleRemoveThread k t) t
      { (rtScheduleRemoveThread k t).tcb t with
        currentPriority := priority
        numberMask := 1 <<< priority.toUInt32 } rfl
    refine .pure _ ((hremove.trans (hset.trans (leaves_scheduleInsert _ t))).shows ?_)
    rw [hset.here, hremove.here, h]
    rfl
  next hready =>
    have hset := leaves_setTcb_stat k t { k.tcb t with
      currentPriority := priority
      numberMask := 1 <<< priority.toUInt32 } rfl
    exact .pure _ (hset.shows h)

theorem changePriority_agrees (h : Follows c a) (t : τ) (priority : Fin 32) :
    Agrees (Clock.Event.run c (.changePriority t priority)) (a.next (.changePriority t priority)) := by
  rw [Alarm.next, Clock.Event.run]
  split
  next hlive =>
    obtain ⟨status, k', hk', hleaves⟩ :=
      rtThreadChangePriority_moves (h.shows t) hlive (UInt8.ofNat priority)
    rw [hk']
    refine .returns (h.kernel fun t' => ?_)
    by_cases ht : t' = t
    · subst ht
      exact hleaves.here.trans (h.shows t').symm
    · exact hleaves.elsewhere t' ht
  next hlive =>
    obtain ⟨stat, hview⟩ := Phase.view_of_not_live (Bool.not_eq_true _ ▸ hlive)
    have htype : (c.kernel.object (.thread t)).type = 0 :=
      congrArg View.thread ((h.shows t).trans hview)
    rw [rtThreadChangePriority, rtAssert_fails (getType_zero htype .thread)]
    exact .asserts

theorem control_agrees (h : Follows c a) (t : τ) (cmd : ThreadCtrl) :
    Agrees (Clock.Event.run c (.control t cmd)) (a.next (.control t cmd)) := by
  have hforget := forget_threadControl c t cmd
  cases hlive : (a.phase t).live with
  | false =>
    obtain ⟨stat, hview⟩ := Phase.view_of_not_live hlive
    have hnext : a.next (.control t cmd) = none := by
      cases cmd with
      | startup => exact if_neg fun hp => by simp [hp, Phase.live] at hlive
      | close => exact if_neg (by simp [hlive])
    rw [hnext]
    exact agrees_error hforget (rtThreadControl_unregistered ((h.shows t).trans hview) cmd)
  | true =>
    obtain ⟨flag, stat, hview, hflag, hstat⟩ := Phase.view_of_live hlive
    have hview := (h.shows t).trans hview
    cases cmd with
    | close =>
      rw [show a.next (.control t .close) = _ from if_pos hlive]
      refine agrees_move h hforget (rtThreadControl_close hview hflag hstat) (by decide) ?_
      intro status c' hc'
      obtain ⟨-, hc'⟩ := rtAssert_ok hc'
      rw [if_pos (isThread hview).isSystemobject] at hc'
      exact threadDetach_kept (by rw [stat_eq hview]; exact hstat) hc'
    | startup =>
      rw [Alarm.next]
      split
      next hinited =>
        refine agrees_move h hforget (rtThreadControl_startup ?_) (by decide) fun status c' hc' => ?_
        · rw [h.shows t, hinited]
        · obtain ⟨-, hc'⟩ := rtAssert_ok hc'
          exact threadStartup_kept (h.not_mem (by simp [hinited])) hc'
      next hinited =>
        have hinit : ¬(c.kernel.tcb t).stat &&& threadStatMask = threadInit := by
          rw [stat_eq (h.shows t)]
          generalize hp : a.phase t = p at hinited hlive
          cases p <;> first | decide | exact absurd rfl hinited | cases hlive
        have herror : rtThreadControl c.kernel t .startup =
            .error "(thread->stat & RT_THREAD_STAT_MASK) == RT_THREAD_INIT" := by
          rw [rtThreadControl, rtAssert_of (isThread hview).getType]
          show rtThreadStartup c.kernel t = _
          rw [rtThreadStartup, rtAssert_fails hinit]
          rfl
        exact agrees_error hforget herror

theorem run_agrees (h : Follows c a) (e : Clock.Event τ) :
    Agrees (Clock.Event.run c e) (a.next e) := by
  cases e with
  | init t name priority tick => exact init_agrees h t name priority tick
  | control t cmd => exact control_agrees h t cmd
  | changePriority t priority => exact changePriority_agrees h t priority
  | suspend t => exact suspend_agrees h t
  | resume t => exact resume_agrees h t
  | sleep t tick => exact sleep_agrees h t tick
  | elapse t =>
    obtain ⟨c', hc', hfollows⟩ := h.elapse t
    rw [Clock.Event.run, hc']
    exact .returns hfollows

theorem step_next (h : Follows c a) {e : Clock.Event τ} (hstep : Clock.Step c e c') :
    ∃ a', a.next e = some a' ∧ Follows c' a' := by
  have hagrees := run_agrees h e
  rw [show Clock.Event.run c e = .ok c' from hstep] at hagrees
  generalize a.next e = o at hagrees
  cases hagrees with
  | returns hfollows => exact ⟨_, rfl, hfollows⟩

theorem next_step (h : Follows c a) {e : Clock.Event τ} (hnext : a.next e = some a') :
    ∃ c', Clock.Step c e c' := by
  have hagrees := run_agrees h e
  rw [hnext] at hagrees
  generalize hrun : Clock.Event.run c e = r at hagrees
  cases hagrees with
  | returns hfollows => exact ⟨_, hrun⟩

end Simulation

/-- The machine after reset: every block of memory zero, and no thread started. -/
def reset : Clocked τ where
  kernel := (rtSystemSchedulerInit (τ := τ)).kernel
  tick := 0
  timeoutTick := fun _ => 0
  timerList := []

def Alarm.reset : Alarm τ where
  phase := fun _ => .zeroed
  queue := []

theorem reset_follows : Follows (τ := τ) Alarms.reset Alarm.reset where
  shows := fun t => by
    simp [view, Alarms.reset, rtSystemSchedulerInit, Alarm.reset, Phase.view, unregistered,
      Kernel.object, threadInit]
  queue := rfl
  sorted := List.Pairwise.nil
  short := fun t ht => absurd ht List.not_mem_nil
  nodup := List.nodup_nil
  asleep := fun t => by simp [Alarms.reset, Alarm.reset]

section Runs

variable [DecidableEq τ]

/-- The kernel runs on a sequence of events, with no assertion failing, exactly
when the abstract kernel does, and then the two agree on every thread and on the
ticks that each sleeping thread has left. -/
theorem run_refines (events : List (Clock.Event τ)) :
    ((∃ c, Runs Clock.Step Alarms.reset events c) ↔
      (events.foldlM Alarm.next Alarm.reset).isSome) ∧
    ∀ c, Runs Clock.Step Alarms.reset events c →
      ∃ a, events.foldlM Alarm.next Alarm.reset = some a ∧ Follows c a :=
  ⟨Runs.exists_iff reset_follows (fun _ _ _ _ h hstep => step_next h hstep)
      fun _ _ _ _ h hnext => next_step h hnext,
    fun _ hrun => hrun.follow reset_follows fun _ _ _ _ h hstep => step_next h hstep⟩

end Runs

end StmGateway.Rt.Alarms
