import StmGateway.Rt.Wakeup

/-!
# A call waits no longer than it was asked to

A thread that is woken and finds that another has come first waits again, for what
is left of its time. Over all these stretches the call keeps the deadline it began
with: while its thread is suspended the timer has what is left of the time, and once
the time has passed the thread is not suspended again.
-/
namespace StmGateway.Rt.Deadline

open StmGateway.Lib
open StmGateway.Rt.Thread
open StmGateway.Rt.Life
open StmGateway.Rt.Schedule (Ready Suspended)
open StmGateway.Rt.ReadyQueue (bind_ok rtAssert_ok)
open StmGateway.Rt.Clock (Clocked)
open StmGateway.Rt.Alarms
open StmGateway.Rt.Delay (ready_iff)
open StmGateway.Rt.Ipc
open StmGateway.Rt.Fifo
open StmGateway.Rt.Waiters
open StmGateway.Rt.Wakeup

variable {τ : Type}

section Arithmetic

/-- What is left of the time, when not so much has passed that the difference wraps. -/
theorem remaining_toInt {timeout : Int32} {tickDelta tick : UInt32} (hpos : timeout > 0)
    (hticks : (tick - tickDelta).toNat < 2 ^ 31) :
    (remaining timeout tickDelta tick).toInt =
      max 0 (timeout.toInt - (tick - tickDelta).toNat) := by
  rw [remaining, if_pos hpos]
  generalize tick - tickDelta = delta at hticks
  have hdelta : delta.toInt32.toInt = delta.toNat := by
    rw [← Int32.toInt_toBitVec, UInt32.toBitVec_toInt32, BitVec.toInt_eq_toNat_of_lt]
    · rfl
    · rw [UInt32.toNat_toBitVec]
      omega
  have hpos : 0 < timeout.toInt := Int32.lt_iff_toInt_lt.mp hpos
  have hlt := timeout.toInt_lt
  have hsub : (timeout - delta.toInt32).toInt = timeout.toInt - delta.toNat := by
    rw [Int32.toInt_sub, hdelta, Int.bmod_eq_of_le] <;> omega
  dsimp only
  split
  next hneg =>
    have hneg : (timeout - delta.toInt32).toInt < 0 := Int32.lt_iff_toInt_lt.mp hneg
    rw [Int32.toInt_zero]
    omega
  next hneg =>
    have hneg : ¬(timeout - delta.toInt32).toInt < 0 := Int32.lt_iff_toInt_lt.not.mp hneg
    omega

end Arithmetic

section Ticks

variable [DecidableEq τ] {c c' : Clocked τ} {t : τ} {status : Int}

theorem tick_init {name : String} {priority : UInt8} {tick : Nat}
    (h : c.rtThreadInit t name priority tick = .ok (status, c')) : c'.tick = c.tick := by
  obtain ⟨⟨_, k⟩, -, h⟩ := bind_ok h
  cases h
  rfl

theorem tick_startup (h : c.rtThreadStartup t = .ok (status, c')) : c'.tick = c.tick := by
  obtain ⟨-, h⟩ := rtAssert_ok h
  obtain ⟨-, h⟩ := rtAssert_ok h
  obtain ⟨⟨_, c₁⟩, hc₁, h⟩ := bind_ok h
  cases h
  have htick := tick_resume hc₁
  exact htick

theorem tick_closeThread (h : c.closeThread t = .ok (status, c')) : c'.tick = c.tick := by
  obtain ⟨⟨_, k⟩, -, h⟩ := bind_ok h
  cases h
  rfl

theorem tick_detach (h : c.rtThreadDetach t = .ok (status, c')) : c'.tick = c.tick := by
  obtain ⟨-, h⟩ := rtAssert_ok h
  obtain ⟨-, h⟩ := rtAssert_ok h
  split at h
  · cases h
    rfl
  · obtain ⟨⟨_, c₁⟩, hc₁, h⟩ := bind_ok h
    have htick := tick_closeThread hc₁
    dsimp only at h
    split at h <;> cases h <;> exact htick

theorem tick_delete (h : c.rtThreadDelete t = .ok (status, c')) : c'.tick = c.tick := by
  obtain ⟨-, h⟩ := rtAssert_ok h
  obtain ⟨-, h⟩ := rtAssert_ok h
  split at h
  · cases h
    rfl
  · obtain ⟨⟨_, c₁⟩, hc₁, h⟩ := bind_ok h
    cases h
    have htick := tick_closeThread hc₁
    exact htick

theorem tick_control {cmd : ThreadCtrl} (h : c.rtThreadControl t cmd = .ok (status, c')) :
    c'.tick = c.tick := by
  obtain ⟨-, h⟩ := rtAssert_ok h
  cases cmd with
  | startup => exact tick_startup h
  | close =>
    dsimp only at h
    split at h
    · exact tick_detach h
    · exact tick_delete h

theorem tick_expire {l : List τ} (h : c.expire l = .ok c') : c'.tick = c.tick := by
  induction l generalizing c with
  | nil =>
    cases h
    rfl
  | cons t rest ih =>
    rw [Clocked.expire] at h
    split at h
    · obtain ⟨k, -, h⟩ := bind_ok h
      have htick := ih h
      exact htick
    · cases h
      rfl

/-- Only a tick moves the tick counter on. -/
theorem step_tick {e : Clock.Event τ} (h : Clock.Step c e c') :
    c'.tick = c.tick + if Delay.Event.isElapse e then 1 else 0 := by
  cases e with
  | elapse current =>
    have htick := tick_expire (Errors.elapse_expire h)
    exact htick
  | sleep t tick =>
    rw [Clock.Step, Clock.Event.run] at h
    split at h
    · obtain ⟨⟨_, c₁⟩, hc₁, h⟩ := bind_ok h
      cases h
      exact (tick_sleep hc₁).trans (UInt32.add_zero c.tick).symm
    · cases h
      exact (UInt32.add_zero c.tick).symm
  | changePriority =>
    obtain ⟨⟨_, k⟩, -, h⟩ := bind_ok h
    cases h
    exact (UInt32.add_zero c.tick).symm
  | init | control | suspend | resume =>
    obtain ⟨⟨_, c₁⟩, hc₁, h⟩ := bind_ok h
    cases h
    have htick : c'.tick = c.tick := by
      first
        | exact tick_init hc₁
        | exact tick_control hc₁
        | exact tick_suspend hc₁
        | exact tick_resume hc₁
    exact htick.trans (UInt32.add_zero c.tick).symm

end Ticks

section Spared

variable {s s' s₁ : System τ} {t t' : τ}

/-- A thread that nothing happens to, but that it may be woken. -/
structure Spared (t : τ) (s s' : System τ) : Prop where
  tick : s'.clock.tick = s.clock.tick
  call : s'.call t = s.call t
  ready : Ready s.clock.kernel t → Ready s'.clock.kernel t
  asleep : ∀ n, Asleep s.clock t n → Ready s'.clock.kernel t ∨ Asleep s'.clock t n

theorem Spared.refl : Spared t s s := ⟨rfl, rfl, fun h => h, fun _ h => .inr h⟩

theorem Spared.trans (h : Spared t s s₁) (h' : Spared t s₁ s') : Spared t s s' where
  tick := h'.tick.trans h.tick
  call := h'.call.trans h.call
  ready := fun hready => h'.ready (h.ready hready)
  asleep := fun n hasleep => by
    rcases h.asleep n hasleep with hready | hasleep
    · exact .inl (h'.ready hready)
    · exact h'.asleep n hasleep

theorem Spared.of_apart (h : Apart t' s s') (ht : t ≠ t') : Spared t s s' where
  tick := h.tick
  call := h.call t ht
  ready := (h.ready t ht).mpr
  asleep := fun n hasleep => .inr ((h.asleep t ht n).mpr hasleep)

theorem Spared.of_ready (h : Apart t s s') (hcall : s'.call t = s.call t)
    (hready : Ready s'.clock.kernel t) : Spared t s s' :=
  ⟨h.tick, hcall, fun _ => hready, fun _ _ => .inl hready⟩

variable [DecidableEq τ] {a : Alarm τ} {list : Waiters} {o : Outcome} {value : UInt32}
  {timeout : Int32}

theorem listResume_spared (hplaced : ∀ t, Placed s t) (h : Follows s.clock a)
    (hrun : s.rtIpcListResume list = .ok s') : Spared t s s' := by
  rcases listResume_spec hplaced h hrun with ⟨-, rfl⟩ | ⟨t', -, a', -, happart, hready, -⟩
  · exact .refl
  · by_cases ht : t = t'
    · subst ht
      exact .of_ready happart (congrFun (listResume_waits hrun).call t) hready
    · exact .of_apart happart ht

theorem resumeEach_spared {l : List τ} (hplaced : ∀ t, Placed s t) (h : Follows s.clock a)
    (hl : ∀ t ∈ l, Ready s.clock.kernel t ∨ Suspended s.clock.kernel t)
    (hrun : s.resumeEach l = .ok s') : Spared t s s' := by
  induction l generalizing s a with
  | nil =>
    cases hrun
    exact .refl
  | cons t' rest ih =>
    obtain ⟨⟨status, c'⟩, hc', hrun⟩ := bind_ok hrun
    obtain ⟨hround, happart, hready⟩ := resumeEach_round hplaced h (hl t' List.mem_cons_self) hc'
    obtain ⟨a', h'⟩ := hround.follows
    have hrest : Spared t ((s.setError t' (-rtError)).withClock c') s' := ih hround.placed h'
      (fun t'' ht'' => hround.waits t'' (hl t'' (List.mem_cons_of_mem t' ht''))) hrun
    refine Spared.trans ?_ hrest
    by_cases ht : t = t'
    · subst ht
      exact .of_ready happart rfl hready
    · exact .of_apart happart ht

theorem put_spared (hplaced : ∀ t, Placed s t) (h : Follows s.clock a) (hin : InPool s.mb)
    (hroom : s.mb.entry ≠ s.mb.size) (hput : s.put value = .ok (s', o)) : Spared t s s' := by
  obtain ⟨hresume, -⟩ := put_cases (UInt16.lt_of_le_of_ne hin.entry_le hroom) hput
  have hspared : Spared t { s with mb := putMail s.mb value } s' := listResume_spared
    (fun t => placed_pool (hplaced t) fun l => by cases l <;> rfl) h hresume
  exact ⟨hspared.tick, hspared.call, hspared.ready, hspared.asleep⟩

theorem take_spared (hplaced : ∀ t, Placed s t) (h : Follows s.clock a)
    (hsome : s.mb.entry ≠ 0) (htake : s.take = .ok (s', o)) : Spared t s s' := by
  obtain ⟨hresume, -⟩ := take_cases (UInt16.pos_iff_ne_zero.mpr hsome) htake
  have hspared : Spared t { s with mb := takeMail s.mb } s' := listResume_spared
    (fun t => placed_pool (hplaced t) fun l => by cases l <;> rfl) h hresume
  exact ⟨hspared.tick, hspared.call, hspared.ready, hspared.asleep⟩

/-- A stretch of a call of another thread. -/
theorem sendLoop_spared (h : Awake s) (hready : Ready s.clock.kernel t') (ht : t ≠ t')
    (hloop : s.sendLoop t' value timeout = .ok (s', o)) : Spared t s s' := by
  obtain ⟨a, hfollows⟩ := h.follows
  have herror := apart_setError s t' rtEok
  rcases sendLoop_cases hloop with ⟨-, rfl, -⟩ | ⟨-, -, s₁, hs₁, rfl, -⟩ | ⟨hroom, hput⟩
  · exact .of_apart (herror.trans (apart_setCall _ t' .idle)) ht
  · obtain ⟨-, happart, -⟩ := suspendCurrent_spec (placed_setError h.placed hready rtEok)
      (follows_setError hfollows t' rtEok) h.flag (ready_setError hready rtEok) hs₁
    exact .of_apart (herror.trans (happart.trans (apart_setCall s₁ t' _))) ht
  · exact (Spared.of_apart (apart_setCall s t' .idle) ht).trans
      (put_spared (s := s.setCall t' .idle) (placed_setCall h.placed hready) hfollows h.inPool hroom
        hput)

theorem recvLoop_spared (h : Awake s) (hready : Ready s.clock.kernel t') (ht : t ≠ t')
    (hloop : s.recvLoop t' timeout = .ok (s', o)) : Spared t s s' := by
  obtain ⟨a, hfollows⟩ := h.follows
  have herror := apart_setError s t' rtEok
  rcases recvLoop_cases hloop with ⟨-, rfl, -⟩ | ⟨-, -, s₁, hs₁, rfl, -⟩ | ⟨hsome, htake⟩
  · exact .of_apart (herror.trans ((apart_setError _ t' _).trans (apart_setCall _ t' .idle))) ht
  · obtain ⟨-, happart, -⟩ := suspendCurrent_spec (placed_setError h.placed hready rtEok)
      (follows_setError hfollows t' rtEok) h.flag (ready_setError hready rtEok) hs₁
    exact .of_apart (herror.trans (happart.trans (apart_setCall s₁ t' _))) ht
  · exact (Spared.of_apart (apart_setCall s t' .idle) ht).trans
      (take_spared (s := s.setCall t' .idle) (placed_setCall h.placed hready) hfollows hsome htake)

/-- What a thread that waits has of its time, and since when. -/
def waitingTime : Call → Option (Int32 × UInt32)
  | .idle => none
  | .sending _ timeout tickDelta | .receiving timeout tickDelta => some (timeout, tickDelta)

/-- A stretch of a call of the thread itself: it is over, or waits for the rest. -/
structure Waits (t : τ) (timeout : Int32) (s s' : System τ) : Prop where
  tick : s'.clock.tick = s.clock.tick
  call : s'.call t = .idle ∨ (timeout ≠ 0 ∧
    waitingTime (s'.call t) = some (timeout, s.clock.tick) ∧
    (timeout > 0 → Asleep s'.clock t timeout.toInt.toNat))

theorem suspended_waits {call : Call} (h : Awake s) (hready : Ready s.clock.kernel t)
    (htimeout : timeout ≠ 0) (hcall : waitingTime call = some (timeout, s₁.clock.tick))
    (hs₁ : (s.setError t rtEok).suspendCurrent list t timeout = .ok s₁) :
    Waits t timeout s (s₁.setCall t call) := by
  obtain ⟨a, hfollows⟩ := h.follows
  obtain ⟨-, happart, -, -, -, hasleep⟩ :=
    suspendCurrent_spec (placed_setError h.placed hready rtEok)
      (follows_setError hfollows t rtEok) h.flag (ready_setError hready rtEok) hs₁
  have htick : s₁.clock.tick = s.clock.tick := happart.tick
  refine ⟨htick, .inr ⟨htimeout, ?_, hasleep⟩⟩
  show waitingTime (Function.update s₁.call t call t) = _
  rw [Function.update_self, hcall, htick]

theorem sendLoop_waits (h : Awake s) (hready : Ready s.clock.kernel t)
    (hloop : s.sendLoop t value timeout = .ok (s', o)) : Waits t timeout s s' := by
  obtain ⟨a, hfollows⟩ := h.follows
  rcases sendLoop_cases hloop with ⟨-, rfl, -⟩ | ⟨-, htimeout, s₁, hs₁, rfl, -⟩ | ⟨hroom, hput⟩
  · exact ⟨rfl, .inl (Function.update_self ..)⟩
  · exact suspended_waits h hready htimeout rfl hs₁
  · have hspared : Spared t (s.setCall t .idle) s' :=
      put_spared (placed_setCall h.placed hready) hfollows h.inPool hroom hput
    exact ⟨hspared.tick, .inl (hspared.call.trans (Function.update_self ..))⟩

theorem recvLoop_waits (h : Awake s) (hready : Ready s.clock.kernel t)
    (hloop : s.recvLoop t timeout = .ok (s', o)) : Waits t timeout s s' := by
  obtain ⟨a, hfollows⟩ := h.follows
  rcases recvLoop_cases hloop with ⟨-, rfl, -⟩ | ⟨-, htimeout, s₁, hs₁, rfl, -⟩ | ⟨hsome, htake⟩
  · exact ⟨rfl, .inl (Function.update_self ..)⟩
  · exact suspended_waits h hready htimeout rfl hs₁
  · have hspared : Spared t (s.setCall t .idle) s' :=
      take_spared (placed_setCall h.placed hready) hfollows hsome htake
    exact ⟨hspared.tick, .inl (hspared.call.trans (Function.update_self ..))⟩

end Spared

section Runs

variable {s₀ s₁ s s' : System τ} {t : τ} {n passed : Nat} {start : UInt32}
  {l : Event τ × Outcome} {earlier labels : List (Event τ × Outcome)}

/-- The call has kept the deadline `n` ticks after its start, `passed` of which are over. -/
structure InTime (t : τ) (n : Nat) (start : UInt32) (passed : Nat) (s : System τ) : Prop where
  awake : Awake s
  tick : s.clock.tick = start + UInt32.ofNat passed
  waits : s.call t = .idle ∨ ∃ timeout k,
    waitingTime (s.call t) = some (timeout, start + UInt32.ofNat k) ∧ k ≤ passed ∧
    timeout.toInt = (n : Int) - k ∧ timeout > 0 ∧
    (Ready s.clock.kernel t ∨ passed < n ∧ Asleep s.clock t (n - passed))

theorem InTime.spared (h : InTime t n start passed s) (hawake : Awake s')
    (hspared : Spared t s s') : InTime t n start passed s' where
  awake := hawake
  tick := hspared.tick.trans h.tick
  waits := by
    rw [hspared.call]
    refine h.waits.imp_right ?_
    rintro ⟨timeout, k, htime, hle, htimeout, hpos, hready | ⟨hlt, hasleep⟩⟩
    · exact ⟨timeout, k, htime, hle, htimeout, hpos, .inl (hspared.ready hready)⟩
    · exact ⟨timeout, k, htime, hle, htimeout, hpos,
        (hspared.asleep _ hasleep).imp_right fun h => ⟨hlt, h⟩⟩

/-- The thread goes on, and waits for what is left of its time if it waits again. -/
theorem InTime.proceed (h : InTime t n start passed s) (hawake : Awake s')
    (hpassed : passed < 2 ^ 31) {timeout : Int32} {tickDelta : UInt32}
    (htime : waitingTime (s.call t) = some (timeout, tickDelta))
    (hwaits : Waits t (remaining timeout tickDelta s.clock.tick) s s') :
    InTime t n start passed s' := by
  refine ⟨hawake, hwaits.tick.trans h.tick, hwaits.call.imp_right ?_⟩
  rintro ⟨hne, htime', hasleep⟩
  rcases h.waits with hidle | ⟨timeout', k, htime'', hle, htimeout, hpos, -⟩
  · rw [hidle] at htime
    cases htime
  · obtain ⟨rfl, rfl⟩ : timeout = timeout' ∧ tickDelta = start + UInt32.ofNat k := by
      simpa using htime.symm.trans htime''
    have hdelta : (s.clock.tick - (start + UInt32.ofNat k)).toNat = passed - k := by
      rw [h.tick, UInt32.toNat_sub, UInt32.toNat_add, UInt32.toNat_add, UInt32.toNat_ofNat',
        UInt32.toNat_ofNat']
      have hstart := start.toNat_lt
      omega
    have hremaining := remaining_toInt hpos (by rw [hdelta]; omega)
    rw [hdelta] at hremaining
    have hne' : (remaining timeout (start + UInt32.ofNat k) s.clock.tick).toInt ≠ 0 := fun heq =>
      hne (Int32.toInt_inj.mp (heq.trans Int32.toInt_zero.symm))
    have hleft : (remaining timeout (start + UInt32.ofNat k) s.clock.tick).toInt =
        (n : Int) - passed := by omega
    have hpos' : remaining timeout (start + UInt32.ofNat k) s.clock.tick > 0 :=
      Int32.lt_iff_toInt_lt.mpr (by rw [Int32.toInt_zero]; omega)
    refine ⟨_, passed, h.tick ▸ htime', le_rfl, hleft, hpos', .inr ⟨by omega, ?_⟩⟩
    have hnat : (remaining timeout (start + UInt32.ofNat k) s.clock.tick).toInt.toNat =
        n - passed := by omega
    exact hnat ▸ hasleep hpos'

variable [DecidableEq τ] {e : Clock.Event τ} {clock : Clocked τ}

theorem kernel_spared (h : Awake s) (hspares : Spares s e) (hcall : s.call t ≠ .idle)
    (he : Delay.Event.isElapse e = false) (hstep : Clock.Step s.clock e clock) :
    Spared t s (s.withClock clock) := by
  obtain ⟨a, hfollows⟩ := h.follows
  obtain ⟨a', hnext, hfollows'⟩ := step_next hfollows hstep
  have htick : clock.tick = s.clock.tick := by
    rw [step_tick hstep, he]
    exact UInt32.add_zero _
  rcases spares_unmoved hspares hcall hnext he with hunmoved | hready
  · refine ⟨htick, rfl, (stat_same hfollows hfollows' hunmoved.phase).1.mpr, fun n hasleep => ?_⟩
    rw [asleep_iff hfollows, ← hunmoved.queue] at hasleep
    exact .inr ((asleep_iff hfollows').mpr hasleep)
  · have hready : Ready clock.kernel t := (ready_iff hfollows').mpr hready
    exact ⟨htick, rfl, fun _ => hready, fun _ _ => .inl hready⟩

/-- A tick wakes the thread at its deadline, and not before. -/
theorem InTime.elapse {current : τ} (h : InTime t n start passed s)
    (hawake : Awake (s.withClock clock)) (hstep : Clock.Step s.clock (.elapse current) clock) :
    InTime t n start (passed + 1) (s.withClock clock) := by
  obtain ⟨a, hfollows⟩ := h.awake.follows
  obtain ⟨a', hnext, hfollows'⟩ := step_next hfollows hstep
  cases hnext
  refine ⟨hawake, ?_, h.waits.imp_right ?_⟩
  · rw [show (s.withClock clock).clock.tick = s.clock.tick + 1 from step_tick hstep, h.tick,
      UInt32.ofNat_add, UInt32.add_assoc]
    rfl
  rintro ⟨timeout, k, htime, hle, htimeout, hpos, hready | ⟨hlt, hmem, hleft⟩⟩
  · refine ⟨timeout, k, htime, by omega, htimeout, hpos, .inl ((ready_iff hfollows').mpr ?_)⟩
    exact Delay.elapse_ready ((ready_iff hfollows).mp hready)
  · obtain ⟨hwake, hstay⟩ := Delay.elapse_sleeping hfollows hfollows' ((hfollows.asleep t).mp hmem)
    rw [hleft] at hwake hstay
    by_cases hlast : n - passed ≤ 1
    · exact ⟨timeout, k, htime, by omega, htimeout, hpos,
        .inl ((ready_iff hfollows').mpr (hwake hlast))⟩
    · obtain ⟨hphase, hleft'⟩ := hstay (by omega)
      refine ⟨timeout, k, htime, by omega, htimeout, hpos, .inr ⟨by omega, ?_, ?_⟩⟩
      · exact (hfollows'.asleep t).mpr hphase
      · exact hleft'.trans (by omega)

/-- The thread that begins a call. -/
def caller : Event τ → Option τ
  | .send t _ _ | .recv t _ => some t
  | .proceed _ | .post _ | .reset | .kernel _ => none

def isTick : Event τ × Outcome → Bool
  | (.kernel e, _) => Delay.Event.isElapse e
  | _ => false

def ticks (labels : List (Event τ × Outcome)) : Nat := labels.countP isTick

theorem step_inTime (h : InTime t n start passed s) (hcaller : caller l.1 ≠ some t)
    (hundisturbed : Undisturbed s l) (hpassed : passed < 2 ^ 31) (hstep : Step s l s') :
    InTime t n start (passed + if isTick l then 1 else 0) s' := by
  have hawake := step_awake h.awake hundisturbed hstep
  obtain ⟨a, hfollows⟩ := h.awake.follows
  obtain ⟨e, o⟩ := l
  cases e with
  | send t' value timeout =>
    have ht : t ≠ t' := fun heq => hcaller (congrArg some heq.symm)
    rcases step_send hstep with ⟨rfl, -⟩ | ⟨-, hready, hloop⟩
    · exact h
    · exact h.spared hawake (sendLoop_spared h.awake hready ht hloop)
  | recv t' timeout =>
    have ht : t ≠ t' := fun heq => hcaller (congrArg some heq.symm)
    rcases step_recv hstep with ⟨rfl, -⟩ | ⟨-, hready, hloop⟩
    · exact h
    · exact h.spared hawake (recvLoop_spared h.awake hready ht hloop)
  | proceed t' =>
    rcases step_proceed hstep with ⟨rfl, -⟩ |
      ⟨hready, ⟨rfl, -, -⟩ | ⟨value, timeout, tickDelta, hcall, hloop⟩ |
        ⟨timeout, tickDelta, hcall, hloop⟩⟩
    · exact h
    · by_cases ht : t = t'
      · subst ht
        exact ⟨hawake, h.tick, .inl (Function.update_self ..)⟩
      · exact h.spared hawake (.of_apart (apart_setCall s t' .idle) ht)
    · by_cases ht : t = t'
      · subst ht
        exact h.proceed hawake hpassed (congrArg waitingTime hcall)
          (sendLoop_waits h.awake hready hloop)
      · exact h.spared hawake (sendLoop_spared h.awake hready ht hloop)
    · by_cases ht : t = t'
      · subst ht
        exact h.proceed hawake hpassed (congrArg waitingTime hcall)
          (recvLoop_waits h.awake hready hloop)
      · exact h.spared hawake (recvLoop_spared h.awake hready ht hloop)
  | post value =>
    rcases step_post hstep with ⟨rfl, -⟩ | ⟨hroom, hput⟩
    · exact h
    · exact h.spared hawake (put_spared h.awake.placed hfollows h.awake.inPool hroom hput)
  | reset =>
    obtain ⟨-, s₁, s₂, hs₁, hs₂, rfl⟩ := step_reset hstep
    obtain ⟨hresumed, -⟩ := listResumeAll_spec h.awake.placed hfollows hs₁
    obtain ⟨a₁, hfollows₁⟩ := hresumed.follows
    have hspared₁ : Spared t s s₁ := resumeEach_spared h.awake.placed hfollows
      (fun t ht => .inr ((h.awake.placed t).queued _ ht).2.1) hs₁
    have hspared₂ : Spared t s₁ s₂ := resumeEach_spared hresumed.placed hfollows₁
      (fun t ht => .inr ((hresumed.placed t).queued _ ht).2.1) hs₂
    obtain ⟨htick, hcall, hready, hasleep⟩ := hspared₁.trans hspared₂
    exact h.spared hawake ⟨htick, hcall, hready, hasleep⟩
  | kernel e =>
    have hkernel := step_kernel_spares h.awake.placed hfollows hundisturbed hstep
    cases he : Delay.Event.isElapse e with
    | false =>
      rw [isTick, he]
      rcases hkernel with ⟨t', tick, -, rfl⟩ | ⟨hspares, clock, hclock, rfl⟩
      · exact h
      · by_cases hcall : s.call t = .idle
        · have htick := step_tick hclock
          rw [he] at htick
          exact ⟨hawake, htick.trans ((UInt32.add_zero _).trans h.tick), .inl hcall⟩
        · exact h.spared hawake (kernel_spared h.awake hspares hcall he hclock)
    | true =>
      rw [isTick, he]
      rcases hkernel with ⟨t', tick, rfl, -⟩ | ⟨-, clock, hclock, rfl⟩
      · cases he
      · cases e with
        | elapse current => exact h.elapse hawake hclock
        | init | control | changePriority | suspend | resume | sleep => cases he

/-- The stretch with which a call begins to wait. -/
inductive Begins (t : τ) (timeout : Int32) : Event τ × Outcome → Prop
  | send (value) : Begins t timeout (.send t value timeout, .waitsToSend)
  | recv : Begins t timeout (.recv t timeout, .waitsToReceive)

theorem begins_inTime {timeout : Int32} (hawake : Awake s) (hbegins : Begins t timeout l)
    (hpos : timeout > 0) (hstep : Step s l s') :
    InTime t timeout.toInt.toNat s.clock.tick 0 s' := by
  have hpos' : 0 < timeout.toInt := Int32.lt_iff_toInt_lt.mp hpos
  have hwaits : Waits t timeout s s' := by
    cases hbegins with
    | send value =>
      rcases step_send hstep with ⟨-, ho | ⟨-, -, ho⟩⟩ | ⟨-, hready, hloop⟩
      · cases ho
      · cases ho
      · exact sendLoop_waits hawake hready hloop
    | recv =>
      rcases step_recv hstep with ⟨-, ho | ⟨-, -, ho⟩⟩ | ⟨-, hready, hloop⟩
      · cases ho
      · cases ho
      · exact recvLoop_waits hawake hready hloop
  have hundisturbed : Undisturbed s l := by cases hbegins <;> trivial
  have hzero : s.clock.tick = s.clock.tick + UInt32.ofNat 0 := (UInt32.add_zero _).symm
  refine ⟨step_awake hawake hundisturbed hstep, hwaits.tick.trans hzero, hwaits.call.imp_right ?_⟩
  rintro ⟨-, htime, hasleep⟩
  exact ⟨timeout, 0, hzero ▸ htime, le_rfl, by omega, hpos, .inr ⟨by omega, hasleep hpos⟩⟩

/-- From the stretch with which a call with a timeout begins to wait, in every run
of fewer ticks than make the tick counter wrap half around, and in which no thread in
a call is suspended or closed by another: the call is over, or
its thread is ready, or it is suspended with exactly what is left of the timeout on
its timer. So it is suspended for as many ticks as it asked for at most, however
often it is woken in vain. -/
theorem call_deadline {before : List (Clock.Event τ)} {msgPool : Nat → UInt32} {size : UInt32}
    {flag : UInt8} {timeout : Int32} {s₂ : System τ}
    (hclock : Runs Clock.Step Alarms.reset before s₀.clock)
    (hflag : flag = rtIpcFlagFifo ∨ flag = rtIpcFlagPrio)
    (hmb : s₀.mb = rtMbInit msgPool size flag) (hidle : ∀ t, s₀.call t = .idle)
    (hearlier : Runs (restrict Undisturbed Step) s₀ earlier s₁) (hbegins : Begins t timeout l) (hpos : timeout > 0)
    (hstep : Step s₁ l s₂)
    (hafter : Runs (restrict (fun s l => caller l.1 ≠ some t ∧ Undisturbed s l) Step) s₂ labels s)
    (hticks : ticks labels < 2 ^ 31) :
    s.call t = .idle ∨ Ready s.clock.kernel t ∨
      (Suspended s.clock.kernel t ∧ ticks labels < timeout.toInt.toNat ∧
        left s.clock t = timeout.toInt.toNat - ticks labels) := by
  have hawake : Awake s₁ := hearlier.invariant (fun _ s => Awake s)
    (init_awake hclock hflag hmb hidle) fun h hstep => step_awake h hstep.1 hstep.2
  have hintime : ticks labels < 2 ^ 31 →
      InTime t timeout.toInt.toNat s₁.clock.tick (ticks labels) s :=
    hafter.invariant (fun labels s => ticks labels < 2 ^ 31 →
      InTime t timeout.toInt.toNat s₁.clock.tick (ticks labels) s)
      (fun _ => begins_inTime hawake hbegins hpos hstep) fun hinv hlast hlt => by
        rw [ticks, List.countP_append, List.countP_singleton] at hlt ⊢
        exact step_inTime (hinv ((Nat.le_add_right _ _).trans_lt hlt)) hlast.1.1 hlast.1.2
          ((Nat.le_add_right _ _).trans_lt hlt) hlast.2
  obtain ⟨hawake, -, hwaits⟩ := hintime hticks
  obtain ⟨a, hfollows⟩ := hawake.follows
  refine hwaits.imp_right ?_
  rintro ⟨-, -, -, -, -, -, hready | ⟨hlt, hmem, hleft⟩⟩
  · exact .inl hready
  · exact .inr ⟨(Errors.suspended_iff hfollows).mpr (.inl ((hfollows.asleep t).mp hmem)), hlt,
      hleft⟩

end Runs

/-- Woken in vain, the thread waits again, and after two ticks of five for three more. -/
theorem call_deadline_again : ∃ s₁ s₂ s : System Nat,
    Runs (restrict Undisturbed Step)
      ⟨Alarms.reset, rtMbInit (fun _ => 0) 4 rtIpcFlagFifo, fun _ => .idle⟩
      [(.kernel (.init 0 "ec20" 22 20), .none), (.kernel (.control 0 .startup), .none),
        (.kernel (.init 1 "net" 23 20), .none), (.kernel (.control 1 .startup), .none)] s₁ ∧
    Step s₁ (.recv 0 5, .waitsToReceive) s₂ ∧
    Runs (restrict (fun s l => caller l.1 ≠ some 0 ∧ Undisturbed s l) Step) s₂
      [(.post 7, .sent 7), (.recv 1 10, .received 7), (.proceed 0, .waitsToReceive),
        (.kernel (.elapse 1), .none), (.kernel (.elapse 1), .none)] s ∧
    s.call 0 = .receiving 5 0 ∧ Suspended s.clock.kernel 0 ∧ left s.clock 0 = 3 := by
  have hruns : ∃ s₁ s₂ s : System Nat,
      Runs (restrict Undisturbed Step)
        ⟨Alarms.reset, rtMbInit (fun _ => 0) 4 rtIpcFlagFifo, fun _ => .idle⟩
        [(.kernel (.init 0 "ec20" 22 20), .none), (.kernel (.control 0 .startup), .none),
          (.kernel (.init 1 "net" 23 20), .none), (.kernel (.control 1 .startup), .none)] s₁ ∧
      Step s₁ (.recv 0 5, .waitsToReceive) s₂ ∧
      Runs (restrict (fun s l => caller l.1 ≠ some 0 ∧ Undisturbed s l) Step) s₂
        [(.post 7, .sent 7), (.recv 1 10, .received 7), (.proceed 0, .waitsToReceive),
          (.kernel (.elapse 1), .none), (.kernel (.elapse 1), .none)] s ∧
      s.call 0 = .receiving 5 0 ∧ (s.clock.kernel.tcb 0).stat &&& threadStatMask = threadSuspend := by
    refine ⟨_, _, _, .cons ⟨trivial, rfl⟩ (.cons ⟨trivial, rfl⟩ (.cons ⟨trivial, rfl⟩
      (.cons ⟨trivial, rfl⟩ .init))), rfl, .cons ⟨⟨?_, trivial⟩, rfl⟩ (.cons ⟨⟨?_, trivial⟩, rfl⟩
      (.cons ⟨⟨?_, trivial⟩, rfl⟩ (.cons ⟨⟨?_, trivial⟩, rfl⟩ (.cons ⟨⟨?_, trivial⟩, rfl⟩
        .init)))), rfl, rfl⟩
    all_goals decide
  obtain ⟨s₁, s₂, s, hearlier, hstep, hafter, hcall, hsuspended⟩ := hruns
  refine ⟨s₁, s₂, s, hearlier, hstep, hafter, hcall, hsuspended, ?_⟩
  have hdeadline := call_deadline .init (.inl rfl) rfl (fun _ => rfl) hearlier .recv (by decide)
    hstep hafter (by decide)
  rw [hcall, Ready, hsuspended] at hdeadline
  rcases hdeadline with hidle | hready | ⟨-, -, hleft⟩
  · cases hidle
  · exact absurd hready (by decide)
  · exact hleft

end StmGateway.Rt.Deadline
