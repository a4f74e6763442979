import StmGateway.Lib.Wakeups
import StmGateway.Rt.Waiters

/-!
# No wake-up is lost

A mail is a unit for the receivers, and room for one a unit for the senders. While
a thread waits on a list, for each unit it could take there is a thread that was
woken for it and has not run since, whatever else runs between: so the mails a
receiver waits beside are all on their way, and so is the room a sender waits for.
-/
namespace StmGateway.Rt.Wakeup

open StmGateway.Lib
open StmGateway.Rt.Thread
open StmGateway.Rt.Schedule (Ready Suspended)
open StmGateway.Rt.ReadyQueue (not_ready_of_suspended)
open StmGateway.Rt.Clock (Clocked)
open StmGateway.Rt.Alarms
open StmGateway.Rt.Delay (ready_iff)
open StmGateway.Rt.Ipc
open StmGateway.Rt.Fifo
open StmGateway.Rt.Errors
open StmGateway.Rt.Waiters

variable {τ : Type}

/-- What the threads of a list wait for. -/
def units (mb : Mailbox τ) : Waiters → Nat
  | .receivers => mb.entry.toNat
  | .senders => mb.size.toNat - mb.entry.toNat

/-- The threads that have been woken from a list, or have not been on it yet. -/
def woken (s : System τ) (list : Waiters) : Set τ :=
  {t | side (s.call t) = some list ∧ Ready s.clock.kernel t ∧
    (s.clock.kernel.tcb t).error = rtEok}

def queued (s : System τ) (list : Waiters) : Set τ := {t | t ∈ s.mb.waiting list}

structure Awake (s : System τ) : Prop where
  follows : ∃ a, Follows s.clock a
  inPool : InPool s.mb
  flag : s.mb.flag = rtIpcFlagFifo ∨ s.mb.flag = rtIpcFlagPrio
  placed : ∀ t, Placed s t
  enough : ∀ list, Enough (units s.mb list) (queued s list) (woken s list)

section Enough

variable {s s' : System τ} {t : τ} {list : Waiters} {n n' : Nat}

theorem units_congr {mb mb' : Mailbox τ} (h : pool mb' = pool mb) :
    units mb' list = units mb list := by
  simp only [pool, Prod.mk.injEq] at h
  cases list <;> simp only [units, h]

theorem mem_woken (happart : Apart t s s') {t' : τ} (ht : t' ≠ t) :
    t' ∈ woken s' list ↔ t' ∈ woken s list := by
  simp only [woken, Set.mem_ofPred_eq, happart.call t' ht, happart.ready t' ht,
    happart.error t' ht]

theorem queued_subset (happart : Apart t s s') (hmem : t ∉ s'.mb.waiting list) :
    queued s' list ⊆ queued s list := by
  intro t' ht'
  have hne : t' ≠ t := fun heq => hmem (heq ▸ ht')
  exact (happart.waiting t' hne list).mp ht'

/-- A thread that has not been woken from the list changes nothing for those that have. -/
theorem enough_apart (happart : Apart t s s') (h : Enough n (queued s list) (woken s list))
    (hn : n' ≤ n) (ht : t ∉ woken s list) (hmem : t ∉ s'.mb.waiting list) :
    Enough n' (queued s' list) (woken s' list) :=
  h.mono hn (queued_subset happart hmem) fun _ ht' =>
    (mem_woken happart fun heq => ht (heq ▸ ht')).mpr ht'

/-- One that takes a unit was woken for one at most. -/
theorem enough_take (happart : Apart t s s') (h : Enough (n + 1) (queued s list) (woken s list))
    (hmem : t ∉ s'.mb.waiting list) : Enough n (queued s' list) (woken s' list) :=
  h.take (queued_subset happart hmem) fun _ ht' => (mem_woken happart ht'.2).mpr ht'.1

/-- One that waits is woken for a unit more. -/
theorem enough_wake (happart : Apart t s s') (h : Enough n (queued s list) (woken s list))
    (hplaced : Placed s t) (ht : t ∈ s.mb.waiting list) (hready : Ready s'.clock.kernel t)
    (herror : (s'.clock.kernel.tcb t).error = (s.clock.kernel.tcb t).error)
    (hcall : s'.call t = s.call t) : Enough (n + 1) (queued s' list) (woken s' list) := by
  obtain ⟨hside, hsuspended, heok⟩ := hplaced.queued list ht
  have hnew : t ∉ woken s list := fun hin => not_ready_of_suspended hsuspended hin.2.1
  refine h.wake ht hnew fun t' ht' => ?_
  rcases Set.mem_insert_iff.mp ht' with rfl | ht'
  · exact ⟨hcall ▸ hside, hready, herror.trans heok⟩
  · exact (mem_woken happart fun heq => hnew (heq ▸ ht')).mpr ht'

end Enough

section Stretches

variable {s s' : System τ} {t : τ} {other : Waiters} {o : Outcome} {value : UInt32}
  {timeout : Int32}

/-- A thread leaves its call or waits: for each list there is nothing to take, or
the thread was not woken for it and does not wait there. -/
theorem Awake.apart (h : Awake s) (happart : Apart t s s') (hfollows : ∃ a, Follows s'.clock a)
    (hpool : pool s'.mb = pool s.mb) (hplaced : Placed s' t)
    (hlist : ∀ list, units s.mb list = 0 ∨ t ∉ woken s list ∧ t ∉ s'.mb.waiting list) :
    Awake s' where
  follows := hfollows
  inPool := h.inPool.congr hpool
  flag := by
    have hflag : s'.mb.flag = s.mb.flag := congrArg (fun p => p.2.2.2.2.2) hpool
    exact hflag ▸ h.flag
  placed := fun t' => by
    by_cases heq : t' = t
    · exact heq ▸ hplaced
    · exact (h.placed t').apart happart heq
  enough := fun list => by
    rw [units_congr hpool]
    rcases hlist list with hnone | ⟨hwoken, hmem⟩
    · rw [hnone]
      exact .zero
    · exact enough_apart happart (h.enough list) le_rfl hwoken hmem

/-- With other mails in the pool. -/
theorem placed_pool {mb : Mailbox τ} (h : Placed s t)
    (hwaiting : ∀ l, mb.waiting l = s.mb.waiting l) : Placed { s with mb } t :=
  ⟨fun l hside => (hwaiting l).symm ▸ h.waits l hside,
    fun l hmem => h.queued l (hwaiting l ▸ hmem)⟩

theorem tcb_setError [DecidableEq τ] (s : System τ) (t : τ) (error : Int) :
    (s.setError t error).clock.kernel.tcb t = { s.clock.kernel.tcb t with error } :=
  Function.update_self ..

theorem ready_setError [DecidableEq τ] (hready : Ready s.clock.kernel t) (error : Int) :
    Ready (s.setError t error).clock.kernel t := by
  rw [Ready, tcb_setError]
  exact hready

variable [DecidableEq τ]

/-- There is a unit more for the other side, and a thread of its list is woken. -/
theorem awake_resume {a : Alarm τ} (hfollows : Follows s.clock a) (hplaced : ∀ t, Placed s t)
    (hin : InPool s.mb) (hflag : s.mb.flag = rtIpcFlagFifo ∨ s.mb.flag = rtIpcFlagPrio)
    {n : Nat} (hunits : units s.mb other = n + 1)
    (hother : Enough n (queued s other) (woken s other))
    (hlist : ∀ list ≠ other, Enough (units s.mb list) (queued s list) (woken s list))
    (hrun : s.rtIpcListResume other = .ok s') : Awake s' := by
  have hwaits := listResume_waits hrun
  rcases listResume_spec hplaced hfollows hrun with
    ⟨hnil, rfl⟩ | ⟨t, ht, a', h', happart, hready, herror, hmem⟩
  · refine ⟨⟨a, hfollows⟩, hin, hflag, hplaced, fun list => ?_⟩
    by_cases heq : list = other
    · rw [heq, show queued s' other = ∅ by rw [queued, hnil]; simp]
      exact .empty
    · exact hlist list heq
  · have hpool : s'.mb.flag = s.mb.flag := congrArg (fun p => p.2.2.2.2.2) hwaits.pool
    refine ⟨⟨a', h'⟩, hin.congr hwaits.pool, hpool ▸ hflag, fun t' => ?_, fun list => ?_⟩
    · by_cases heq : t' = t
      · exact heq ▸ .of_ready hready hmem
      · exact (hplaced t').apart happart heq
    · rw [units_congr hwaits.pool]
      by_cases heq : list = other
      · subst heq
        rw [hunits]
        exact enough_wake happart hother (hplaced t) ht hready herror (congrFun hwaits.call t)
      · refine enough_apart happart (hlist list heq) le_rfl (fun hin => heq ?_) (hmem list)
        exact Option.some.inj (hin.1.symm.trans ((hplaced t).queued other ht).1)

theorem put_awake {a : Alarm τ} (hfollows : Follows s.clock a) (hplaced : ∀ t, Placed s t)
    (hin : InPool s.mb) (hflag : s.mb.flag = rtIpcFlagFifo ∨ s.mb.flag = rtIpcFlagPrio)
    (hroom : s.mb.entry ≠ s.mb.size)
    (hsenders : Enough (units s.mb .senders - 1) (queued s .senders) (woken s .senders))
    (hreceivers : Enough (units s.mb .receivers) (queued s .receivers) (woken s .receivers))
    (hput : s.put value = .ok (s', o)) : Awake s' := by
  have hlt : s.mb.entry < s.mb.size := UInt16.lt_of_le_of_ne hin.entry_le hroom
  have hnat : s.mb.entry.toNat < s.mb.size.toNat := hlt
  have hsize := s.mb.size.toNat_lt
  have hentry : (s.mb.entry + 1).toNat = s.mb.entry.toNat + 1 := by
    rw [UInt16.toNat_add]
    simp only [UInt16.toNat_one]
    omega
  obtain ⟨hresume, -⟩ := put_cases hlt hput
  have hwaiting : ∀ l, (putMail s.mb value).waiting l = s.mb.waiting l := fun l => by
    cases l <;> rfl
  have hunits : units (putMail s.mb value) .receivers = units s.mb .receivers + 1 := hentry
  refine awake_resume (s := { s with mb := putMail s.mb value }) hfollows
    (fun t => placed_pool (hplaced t) hwaiting) (putMail_mails hin hlt value).1 hflag hunits
    hreceivers (fun list hne => ?_) hresume
  cases list with
  | receivers => exact absurd rfl hne
  | senders =>
    have hunits : units (putMail s.mb value) .senders = units s.mb .senders - 1 := by
      show s.mb.size.toNat - (s.mb.entry + 1).toNat = s.mb.size.toNat - s.mb.entry.toNat - 1
      omega
    exact hunits ▸ hsenders

theorem take_awake {a : Alarm τ} (hfollows : Follows s.clock a) (hplaced : ∀ t, Placed s t)
    (hin : InPool s.mb) (hflag : s.mb.flag = rtIpcFlagFifo ∨ s.mb.flag = rtIpcFlagPrio)
    (hsome : s.mb.entry ≠ 0)
    (hsenders : Enough (units s.mb .senders) (queued s .senders) (woken s .senders))
    (hreceivers : Enough (units s.mb .receivers - 1) (queued s .receivers) (woken s .receivers))
    (htake : s.take = .ok (s', o)) : Awake s' := by
  have hpos : 0 < s.mb.entry := UInt16.pos_iff_ne_zero.mpr hsome
  have hnat : 0 < s.mb.entry.toNat := hpos
  have hle : s.mb.entry.toNat ≤ s.mb.size.toNat := hin.entry_le
  have hentry : (s.mb.entry - 1).toNat = s.mb.entry.toNat - 1 :=
    UInt16.toNat_sub_of_le _ _ (Nat.succ_le_of_lt hnat)
  obtain ⟨hresume, -⟩ := take_cases hpos htake
  have hwaiting : ∀ l, (takeMail s.mb).waiting l = s.mb.waiting l := fun l => by
    cases l <;> rfl
  have hunits : units (takeMail s.mb) .senders = units s.mb .senders + 1 := by
    show s.mb.size.toNat - (s.mb.entry - 1).toNat = s.mb.size.toNat - s.mb.entry.toNat + 1
    omega
  refine awake_resume (s := { s with mb := takeMail s.mb }) hfollows
    (fun t => placed_pool (hplaced t) hwaiting) (takeMail_mails hin hpos).1 hflag hunits
    hsenders (fun list hne => ?_) hresume
  cases list with
  | senders => exact absurd rfl hne
  | receivers =>
    have hunits : units (takeMail s.mb) .receivers = units s.mb .receivers - 1 := hentry
    exact hunits ▸ hreceivers

/-- The thread that runs is on no list, whatever call it begins. -/
theorem placed_setCall (hplaced : ∀ t, Placed s t) (hready : Ready s.clock.kernel t)
    {call : Call} (t' : τ) : Placed (s.setCall t call) t' := by
  by_cases heq : t' = t
  · subst heq
    exact .of_ready hready fun list => by
      cases list <;> exact (hplaced t').not_mem hready
  · exact (hplaced t').apart (apart_setCall s t call) heq

theorem placed_setError (hplaced : ∀ t, Placed s t) (hready : Ready s.clock.kernel t)
    (error : Int) (t' : τ) : Placed (s.setError t error) t' := by
  by_cases heq : t' = t
  · subst heq
    exact .of_ready (ready_setError hready error) fun list => by
      cases list <;> exact (hplaced t').not_mem hready
  · exact (hplaced t').apart (apart_setError s t error) heq

/-- A thread that finds nothing to take waits on its list. -/
theorem suspended_awake {list : Waiters} {s₁ : System τ} {call : Call} (h : Awake s)
    (hready : Ready s.clock.kernel t) (hunits : units s.mb list = 0)
    (hother : ∀ list' ≠ list, t ∉ woken s list') (hcall : side call = some list)
    (hs₁ : (s.setError t rtEok).suspendCurrent list t timeout = .ok s₁) :
    Awake (s₁.setCall t call) := by
  obtain ⟨a, hfollows⟩ := h.follows
  obtain ⟨hfollows₁, happart, hsuspended, herror, hmem, -⟩ :=
    suspendCurrent_spec (placed_setError h.placed hready rtEok) (follows_setError hfollows t rtEok)
      h.flag (ready_setError hready rtEok) hs₁
  have hside : side ((s₁.setCall t call).call t) = some list := by
    show side (Function.update s₁.call t call t) = some list
    rw [Function.update_self, hcall]
  have hmem : ∀ list', t ∈ (s₁.setCall t call).mb.waiting list' ↔ list' = list := hmem
  refine h.apart ((apart_setError s t rtEok).trans (happart.trans (apart_setCall s₁ t call)))
    hfollows₁ (suspendCurrent_waits hs₁).pool
    ⟨fun list' hside' => .inr ((hmem list').mpr (Option.some.inj (hside'.symm.trans hside))),
      fun list' hin => ?_⟩ fun list' => ?_
  · rw [(hmem list').mp hin]
    refine ⟨hside, hsuspended, ?_⟩
    rw [tcb_setError] at herror
    exact herror
  · by_cases heq : list' = list
    · exact .inl (heq ▸ hunits)
    · exact .inr ⟨hother list' heq, fun hin => heq ((hmem list').mp hin)⟩

theorem sendLoop_awake (h : Awake s) (hready : Ready s.clock.kernel t)
    (hside : side (s.call t) ≠ some .receivers)
    (hloop : s.sendLoop t value timeout = .ok (s', o)) : Awake s' := by
  obtain ⟨a, hfollows⟩ := h.follows
  have hnot : t ∉ woken s .receivers := fun hin => hside hin.1
  have hfull : s.mb.entry = s.mb.size → units s.mb .senders = 0 := fun heq => by
    rw [units, heq, Nat.sub_self]
  rcases sendLoop_cases hloop with
    ⟨hentry, rfl, -⟩ | ⟨hentry, -, s₁, hs₁, rfl, -⟩ | ⟨hroom, hput⟩
  · refine h.apart ((apart_setError s t rtEok).trans (apart_setCall _ t .idle))
      ⟨a, follows_setError hfollows t rtEok⟩ rfl
      (placed_setCall (placed_setError h.placed hready rtEok) (ready_setError hready rtEok) t) fun list => ?_
    cases list with
    | senders => exact .inl (hfull hentry)
    | receivers => exact .inr ⟨hnot, (h.placed t).not_mem hready⟩
  · refine suspended_awake h hready (hfull hentry) (fun list hne => ?_) rfl hs₁
    cases list with
    | senders => exact absurd rfl hne
    | receivers => exact hnot
  · have happart := apart_setCall s t .idle
    have hlt : s.mb.entry.toNat < s.mb.size.toNat := UInt16.lt_of_le_of_ne h.inPool.entry_le hroom
    refine put_awake (s := s.setCall t .idle) hfollows (placed_setCall h.placed hready) h.inPool h.flag hroom ?_ ?_ hput
    · refine enough_take happart ?_ ((h.placed t).not_mem hready)
      have henough := h.enough .senders
      rwa [← Nat.sub_add_cancel (show 1 ≤ units s.mb .senders from Nat.sub_pos_of_lt hlt)] at henough
    · exact enough_apart happart (h.enough .receivers) le_rfl hnot ((h.placed t).not_mem hready)

theorem recvLoop_awake (h : Awake s) (hready : Ready s.clock.kernel t)
    (hside : side (s.call t) ≠ some .senders)
    (hloop : s.recvLoop t timeout = .ok (s', o)) : Awake s' := by
  obtain ⟨a, hfollows⟩ := h.follows
  have hnot : t ∉ woken s .senders := fun hin => hside hin.1
  have hempty : s.mb.entry = 0 → units s.mb .receivers = 0 := fun heq => by
    rw [units, heq]
    rfl
  rcases recvLoop_cases hloop with
    ⟨hentry, rfl, -⟩ | ⟨hentry, -, s₁, hs₁, rfl, -⟩ | ⟨hsome, htake⟩
  · have hplaced := placed_setError h.placed hready rtEok
    have hready₀ := ready_setError hready rtEok
    have happart := (apart_setError s t rtEok).trans
      ((apart_setError _ t (-rtEtimeout)).trans (apart_setCall _ t .idle))
    refine h.apart happart ⟨a, follows_setError (follows_setError hfollows t rtEok) t _⟩ rfl
      (placed_setCall (placed_setError hplaced hready₀ (-rtEtimeout)) (ready_setError hready₀ (-rtEtimeout)) t) fun list => ?_
    cases list with
    | receivers => exact .inl (hempty hentry)
    | senders => exact .inr ⟨hnot, (h.placed t).not_mem hready⟩
  · refine suspended_awake h hready (hempty hentry) (fun list hne => ?_) rfl hs₁
    cases list with
    | receivers => exact absurd rfl hne
    | senders => exact hnot
  · have happart := apart_setCall s t .idle
    have hpos : 1 ≤ units s.mb .receivers := UInt16.pos_iff_ne_zero.mpr hsome
    refine take_awake (s := s.setCall t .idle) hfollows (placed_setCall h.placed hready) h.inPool h.flag hsome ?_ ?_ htake
    · exact enough_apart happart (h.enough .senders) le_rfl hnot ((h.placed t).not_mem hready)
    · refine enough_take happart ?_ ((h.placed t).not_mem hready)
      have henough := h.enough .receivers
      rwa [← Nat.sub_add_cancel hpos] at henough

/-- A thread is done with a call that has failed: it was not woken for a unit. -/
theorem failed_awake (h : Awake s) (hready : Ready s.clock.kernel t)
    (herror : (s.clock.kernel.tcb t).error ≠ rtEok) : Awake (s.setCall t .idle) :=
  h.apart (apart_setCall s t .idle) h.follows rfl (placed_setCall h.placed hready t) fun _ =>
    .inr ⟨fun hin => herror hin.2.2, (h.placed t).not_mem hready⟩

theorem reset_awake (h : Awake s) (hstep : Step s (.reset, o) s') : Awake s' := by
  obtain ⟨a, hfollows⟩ := h.follows
  obtain ⟨-, s₁, s₂, hs₁, hs₂, rfl⟩ := step_reset hstep
  obtain ⟨hresumed₁, hempty₁⟩ := listResumeAll_spec h.placed hfollows hs₁
  obtain ⟨a₁, hfollows₁⟩ := hresumed₁.follows
  obtain ⟨hresumed₂, hempty₂⟩ := listResumeAll_spec hresumed₁.placed hfollows₁ hs₂
  have hpool := ((resumeEach_waits hs₁).trans (resumeEach_waits hs₂)).pool
  have hflag : s₂.mb.flag = s.mb.flag := congrArg (fun p => p.2.2.2.2.2) hpool
  have hempty : ∀ list t, t ∉ s₂.mb.waiting list := fun list t hin => by
    cases list with
    | receivers => exact hempty₁ t (hresumed₂.waiting .receivers t hin)
    | senders => exact hempty₂ t hin
  have hwaiting : ∀ list, { s₂.mb with entry := 0, inOffset := 0, outOffset := 0 }.waiting list =
      s₂.mb.waiting list := fun list => by cases list <;> rfl
  refine ⟨hresumed₂.follows, ⟨Nat.zero_le _, fun h => h, fun _ => (Nat.zero_mod _).symm⟩,
    hflag ▸ h.flag, fun t => placed_pool (hresumed₂.placed t) hwaiting, fun list => ?_⟩
  refine fun hne => absurd hne (Set.not_nonempty_iff_eq_empty.mpr ?_)
  exact Set.eq_empty_of_forall_notMem fun t ht => hempty list t (hwaiting list ▸ ht)

/-- A thread in a call is made ready by the kernel, or left as it is. -/
theorem kernel_thread {e : Clock.Event τ} {clock : Clocked τ} {a : Alarm τ}
    (h : Follows s.clock a) (hspares : Spares s e) (hcall : s.call t ≠ .idle)
    (hstep : Clock.Step s.clock e clock) :
    (Ready clock.kernel t ∧ ¬Ready s.clock.kernel t) ∨
      (Ready clock.kernel t ↔ Ready s.clock.kernel t) ∧
      (Suspended clock.kernel t ↔ Suspended s.clock.kernel t) ∧
      (clock.kernel.tcb t).error = (s.clock.kernel.tcb t).error := by
  obtain ⟨a', hnext, h'⟩ := step_next h hstep
  by_cases hphase : a'.phase t = a.phase t
  · obtain ⟨hready, hsuspended⟩ := stat_same h h' hphase
    exact .inr ⟨hready, hsuspended, spares_error h h' hspares hcall hstep hphase⟩
  · have hready := (spares_phase hspares hcall hnext).resolve_left hphase
    refine .inl ⟨(ready_iff h').mpr hready, fun hbefore => hphase ?_⟩
    rw [hready, (ready_iff h).mp hbefore]

theorem kernel_awake (h : Awake s) {e : Clock.Event τ} {clock : Clocked τ} (hspares : Spares s e)
    (hstep : Clock.Step s.clock e clock) : Awake (s.withClock clock) := by
  obtain ⟨a, hfollows⟩ := h.follows
  obtain ⟨a', -, hfollows'⟩ := step_next hfollows hstep
  have hthread : ∀ {t list}, side (s.call t) = some list → _ := fun {t list} hside =>
    kernel_thread (t := t) hfollows hspares (fun heq => by rw [heq] at hside; cases hside) hstep
  refine ⟨⟨a', hfollows'⟩, h.inPool.congr (pool_withClock s clock), h.flag, fun t => ⟨fun list hside => ?_,
    fun list hmem => ?_⟩, fun list => ?_⟩
  · rcases hthread hside with ⟨hready, -⟩ | ⟨hready, hsuspended, -⟩
    · exact .inl hready
    · refine ((h.placed t).waits list hside).imp hready.mpr fun hmem => mem_withClock.mpr ⟨hmem, ?_⟩
      exact hsuspended.mpr ((h.placed t).queued list hmem).2.1
  · obtain ⟨hmem, hsuspended'⟩ := mem_withClock.mp hmem
    obtain ⟨hside, hsuspended, herror⟩ := (h.placed t).queued list hmem
    rcases hthread hside with ⟨hready, -⟩ | ⟨-, -, hsame⟩
    · exact absurd hready (not_ready_of_suspended hsuspended')
    · exact ⟨hside, hsuspended', hsame.trans herror⟩
  · refine (h.enough list).mono le_rfl (fun t ht => (mem_withClock.mp ht).1) fun t ht => ?_
    obtain ⟨hside, hready, herror⟩ := ht
    rcases hthread hside with ⟨-, hnot⟩ | ⟨hiff, -, hsame⟩
    · exact absurd hready hnot
    · exact ⟨hside, hiff.mpr hready, hsame.trans herror⟩

theorem step_awake (h : Awake s) {l : Event τ × Outcome} (hundisturbed : Undisturbed s l)
    (hstep : Step s l s') : Awake s' := by
  obtain ⟨e, o⟩ := l
  cases e with
  | send t value timeout =>
    rcases step_send hstep with ⟨rfl, -⟩ | ⟨hidle, hready, hloop⟩
    · exact h
    · exact sendLoop_awake h hready (by simp [hidle, side]) hloop
  | recv t timeout =>
    rcases step_recv hstep with ⟨rfl, -⟩ | ⟨hidle, hready, hloop⟩
    · exact h
    · exact recvLoop_awake h hready (by simp [hidle, side]) hloop
  | proceed t =>
    rcases step_proceed hstep with ⟨rfl, -⟩ |
      ⟨hready, ⟨rfl, -, herror⟩ | ⟨value, timeout, tickDelta, hcall, hloop⟩ |
        ⟨timeout, tickDelta, hcall, hloop⟩⟩
    · exact h
    · exact failed_awake h hready herror
    · exact sendLoop_awake h hready (by simp [hcall, side]) hloop
    · exact recvLoop_awake h hready (by simp [hcall, side]) hloop
  | post value =>
    rcases step_post hstep with ⟨rfl, -⟩ | ⟨hroom, hput⟩
    · exact h
    · obtain ⟨a, hfollows⟩ := h.follows
      exact put_awake hfollows h.placed h.inPool h.flag hroom
        ((h.enough .senders).mono (Nat.sub_le _ _) subset_rfl subset_rfl) (h.enough .receivers) hput
  | reset => exact reset_awake h hstep
  | kernel e =>
    obtain ⟨a, hfollows⟩ := h.follows
    rcases step_kernel_spares h.placed hfollows hundisturbed hstep with
      ⟨t, tick, -, rfl⟩ | ⟨hspares, clock, hclock, rfl⟩
    · exact h
    · exact kernel_awake h hspares hclock

end Stretches

section Runs

variable [DecidableEq τ] {s₀ s : System τ} {before : List (Clock.Event τ)}
  {labels : List (Event τ × Outcome)} {msgPool : Nat → UInt32} {size : UInt32} {flag : UInt8}

theorem init_awake (hclock : Runs Clock.Step Alarms.reset before s₀.clock)
    (hflag : flag = rtIpcFlagFifo ∨ flag = rtIpcFlagPrio)
    (hmb : s₀.mb = rtMbInit msgPool size flag) (hidle : ∀ t, s₀.call t = .idle) : Awake s₀ := by
  obtain ⟨a, -, hfollows⟩ := (run_refines before).2 s₀.clock hclock
  have hempty : ∀ list t, t ∉ s₀.mb.waiting list := fun list t hin => by
    rw [hmb] at hin
    cases list <;> exact List.not_mem_nil hin
  refine ⟨⟨a, hfollows⟩, (init_holds hmb hidle).inPool, hmb ▸ hflag, fun t => ⟨fun list hside => ?_,
    fun list hin => absurd hin (hempty list t)⟩, fun list hne => ?_⟩
  · rw [hidle] at hside
    cases hside
  · obtain ⟨t, ht⟩ := hne
    exact absurd ht (hempty list t)

/-- In every run of a mailbox in which no thread in a call is suspended or closed by
another: a thread in a call is ready, or on the list of its
call; while there is a thread on a list, for every unit it waits for (a mail, or
room for one) there is another that was woken and has yet to run; and so when no
thread in a call is ready, a receiver waits only where there is no mail and a
sender only where there is no room. -/
theorem run_wakes (hclock : Runs Clock.Step Alarms.reset before s₀.clock)
    (hflag : flag = rtIpcFlagFifo ∨ flag = rtIpcFlagPrio)
    (hmb : s₀.mb = rtMbInit msgPool size flag) (hidle : ∀ t, s₀.call t = .idle)
    (hrun : Runs (restrict Undisturbed Step) s₀ labels s) :
    (∀ t list, side (s.call t) = some list →
      Ready s.clock.kernel t ∨ t ∈ s.mb.waiting list) ∧
    (∀ list, s.mb.waiting list ≠ [] → (units s.mb list : ℕ∞) ≤ (woken s list).encard) ∧
    ((∀ t, s.call t ≠ .idle → ¬Ready s.clock.kernel t) →
      ∀ list, s.mb.waiting list ≠ [] → units s.mb list = 0) := by
  have h : Awake s := hrun.invariant (fun _ s => Awake s) (init_awake hclock hflag hmb hidle)
    fun h hstep => step_awake h hstep.1 hstep.2
  have henough : ∀ list, s.mb.waiting list ≠ [] →
      (units s.mb list : ℕ∞) ≤ (woken s list).encard :=
    fun list hne => h.enough list (List.exists_mem_of_ne_nil _ hne)
  refine ⟨fun t list => (h.placed t).waits list, henough, fun hblocked list hne => ?_⟩
  have hnone : woken s list = ∅ := Set.eq_empty_of_forall_notMem fun t ht => by
    refine hblocked t (fun heq => ?_) ht.2.1
    rw [woken, Set.mem_ofPred_eq, heq] at ht
    cases ht.1
  have hle := henough list hne
  rw [hnone, Set.encard_empty] at hle
  exact Nat.cast_eq_zero.mp (nonpos_iff_eq_zero.mp hle)

end Runs

/-- One mail for two threads: one waits, and the other is on its way. -/
theorem run_wakes_two : ∃ s : System Nat, Runs (restrict Undisturbed Step)
    ⟨Alarms.reset, rtMbInit (fun _ => 0) 4 rtIpcFlagFifo, fun _ => .idle⟩
      [(.kernel (.init 0 "ec20" 22 20), .none), (.kernel (.control 0 .startup), .none),
        (.kernel (.init 1 "net" 23 20), .none), (.kernel (.control 1 .startup), .none),
        (.recv 0 (-1), .waitsToReceive), (.recv 1 10, .waitsToReceive), (.post 7, .sent 7)] s ∧
    s.mb.suspendThread = [1] ∧ s.mb.entry = 1 ∧ (1 : ℕ∞) ≤ (woken s .receivers).encard := by
  have hrun : ∃ s : System Nat, Runs (restrict Undisturbed Step)
      ⟨Alarms.reset, rtMbInit (fun _ => 0) 4 rtIpcFlagFifo, fun _ => .idle⟩
        [(.kernel (.init 0 "ec20" 22 20), .none), (.kernel (.control 0 .startup), .none),
          (.kernel (.init 1 "net" 23 20), .none), (.kernel (.control 1 .startup), .none),
          (.recv 0 (-1), .waitsToReceive), (.recv 1 10, .waitsToReceive), (.post 7, .sent 7)] s ∧
      s.mb.suspendThread = [1] ∧ s.mb.entry = 1 :=
    ⟨_, .cons ⟨trivial, rfl⟩ (.cons ⟨trivial, rfl⟩ (.cons ⟨trivial, rfl⟩ (.cons ⟨trivial, rfl⟩
      (.cons ⟨trivial, rfl⟩ (.cons ⟨trivial, rfl⟩ (.cons ⟨trivial, rfl⟩ .init)))))), rfl, rfl⟩
  obtain ⟨s, hrun, hlist, hentry⟩ := hrun
  have hwoken := (run_wakes .init (.inl rfl) rfl (fun _ => rfl) hrun).2.1 .receivers
    (by rw [Mailbox.waiting, hlist]; exact List.cons_ne_nil _ _)
  rw [units, hentry] at hwoken
  exact ⟨s, hrun, hlist, hentry, by exact_mod_cast hwoken⟩

/-- One that is suspended on its way is neither ready nor on the list any more. -/
example : ∃ s : System Nat,
    Runs Step ⟨Alarms.reset, rtMbInit (fun _ => 0) 4 rtIpcFlagFifo, fun _ => .idle⟩
      [(.kernel (.init 0 "ec20" 22 20), .none), (.kernel (.control 0 .startup), .none),
        (.recv 0 (-1), .waitsToReceive), (.post 7, .sent 7), (.kernel (.suspend 0), .none)] s ∧
    s.call 0 = .receiving (-1) 0 ∧ s.mb.suspendThread = [] ∧ s.mb.entry = 1 ∧
    (s.clock.kernel.tcb 0).stat &&& threadStatMask = threadSuspend :=
  ⟨_, .cons rfl (.cons rfl (.cons rfl (.cons rfl (.cons rfl .init)))), rfl, rfl, rfl, rfl⟩

end StmGateway.Rt.Wakeup
