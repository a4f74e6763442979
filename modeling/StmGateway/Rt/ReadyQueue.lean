import StmGateway.Rt.Schedule

/-!
# The two forms of the ready queue agree

Over every run of kernel calls a thread is queued once exactly when it is ready, a
priority has its bit exactly when its list is not empty, and `rt_schedule`
switches to the first thread of the highest priority that has one.
-/
namespace StmGateway.Rt.ReadyQueue

open StmGateway.Lib
open StmGateway.Rt.Object
open StmGateway.Rt.Thread
open StmGateway.Rt.Schedule

variable {τ : Type}

/-- The priority of a thread is one of the table, and its mask is the bit of it. -/
def Attributed (tcb : Tcb) : Prop :=
  tcb.currentPriority < 32 ∧ tcb.numberMask = 1 <<< tcb.currentPriority.toUInt32

/-- The queue in its two forms, with `off` taken off it whatever its state. The
last three fields carry the first ones through a call: a block is not initialised
while it is ready or suspended. -/
structure Consistent (k : Kernel τ) (off : Option τ) : Prop where
  mem_iff : ∀ t p, t ∈ k.priorityTable p ↔
    Ready k t ∧ off ≠ some t ∧ (k.tcb t).currentPriority = p
  nodup : ∀ p, (k.priorityTable p).Nodup
  group : ∀ p, p < 32 → (HasBit k.readyPriorityGroup p ↔ k.priorityTable p ≠ [])
  attributed : ∀ t, Ready k t ∨ Suspended k t → Attributed (k.tcb t)
  state : ∀ t, (k.tcb t).stat &&& threadStatMask ∈ threadStates
  initPriority_lt : ∀ t, (k.tcb t).initPriority < 32
  listed : ∀ t, Ready k t ∨ Suspended k t → .thread t ∈ k.container.information .thread
  typed : ∀ t, rtObjectGetType (k.object (.thread t)) = ObjectClass.thread.code →
    .thread t ∈ k.container.information .thread

theorem not_ready_of_suspended {k : Kernel τ} {t : τ} (h : Suspended k t) : ¬Ready k t := by
  rw [Ready, show (k.tcb t).stat &&& threadStatMask = threadSuspend from h]
  decide

/-- What a call on the timer of a thread leaves of the kernel. -/
structure TimerOnly (k k' : Kernel τ) : Prop where
  priorityTable : k'.priorityTable = k.priorityTable
  group : k'.readyPriorityGroup = k.readyPriorityGroup
  tcb : ∀ t, k'.tcb t = { k.tcb t with timerTick := (k'.tcb t).timerTick }
  thread : ∀ t, k'.object (.thread t) = k.object (.thread t)
  listed : ∀ t, .thread t ∈ k'.container.information .thread ↔
    .thread t ∈ k.container.information .thread

theorem TimerOnly.refl (k : Kernel τ) : TimerOnly k k :=
  ⟨rfl, rfl, fun _ => rfl, fun _ => rfl, fun _ => Iff.rfl⟩

theorem TimerOnly.trans {k k₁ k₂ : Kernel τ} (h : TimerOnly k k₁) (h' : TimerOnly k₁ k₂) :
    TimerOnly k k₂ where
  priorityTable := h'.priorityTable.trans h.priorityTable
  group := h'.group.trans h.group
  tcb := fun t => by rw [h'.tcb t, h.tcb t]
  thread := fun t => (h'.thread t).trans (h.thread t)
  listed := fun t => (h'.listed t).trans (h.listed t)

theorem rtAssert_ok {cond : Prop} [Decidable cond] {text : String} {α : Type}
    {f : Unit → Except String α} {r : α} (h : (rtAssert cond text >>= f) = .ok r) :
    cond ∧ f () = .ok r := by
  by_cases hcond : cond
  · rw [rtAssert_of hcond] at h
    exact ⟨hcond, h⟩
  · rw [rtAssert_fails hcond] at h
    cases h

theorem bind_ok {α β : Type} {x : Except String α} {f : α → Except String β} {r : β}
    (h : (x >>= f) = .ok r) : ∃ a, x = .ok a ∧ f a = .ok r := by
  cases x with
  | error text => cases h
  | ok a => exact ⟨a, rfl, h⟩

section Timers

variable [DecidableEq τ]

theorem TimerOnly.setFlag (k : Kernel τ) (t : τ) (flag : UInt8) :
    TimerOnly k (k.setFlag (.timer t) flag) :=
  ⟨rfl, rfl, fun _ => rfl, fun _ => by simp [Kernel.setFlag, Kernel.object], fun _ => Iff.rfl⟩

theorem TimerOnly.setTick (k : Kernel τ) (t : τ) (tick : Nat) :
    TimerOnly k (k.setTcb t { k.tcb t with timerTick := tick }) := by
  refine ⟨rfl, rfl, fun t' => ?_, fun _ => rfl, fun _ => Iff.rfl⟩
  by_cases h : t' = t
  · subst h
    simp [Kernel.setTcb]
  · simp [Kernel.setTcb, h]

theorem TimerOnly.detach (k : Kernel τ) (t : τ) :
    TimerOnly k { k with container := rtObjectDetach k.container (.timer t) } :=
  ⟨rfl, rfl, fun _ => rfl, fun _ => by simp [rtObjectDetach, Kernel.object],
    fun _ => by simp [rtObjectDetach]⟩

theorem TimerOnly.init {k : Kernel τ} {t : τ} {name : String} {c : Container (Addr τ)}
    (h : rtObjectInit k.container (.timer t) .timer name = .ok c) :
    TimerOnly k { k with container := c } := by
  obtain ⟨-, h⟩ := rtAssert_ok h
  cases h
  exact ⟨rfl, rfl, fun _ => rfl, fun _ => by simp [Kernel.object], fun _ => by simp⟩

variable {k k' : Kernel τ} {t : τ} {status : Int}

theorem rtTimerStop_ok (h : rtTimerStop k t = .ok (status, k')) : TimerOnly k k' := by
  obtain ⟨-, h⟩ := rtAssert_ok h
  split at h
  · cases h
    exact .refl k
  · cases h
    exact .setFlag k t _

theorem rtTimerStart_ok (h : rtTimerStart k t = .ok (status, k')) : TimerOnly k k' := by
  obtain ⟨-, h⟩ := rtAssert_ok h
  obtain ⟨-, h⟩ := rtAssert_ok h
  cases h
  exact .setFlag k t _

theorem rtTimerSetTime_ok {tick : Nat} (h : rtTimerSetTime k t tick = .ok (status, k')) :
    TimerOnly k k' := by
  obtain ⟨-, h⟩ := rtAssert_ok h
  cases h
  exact .setTick k t tick

theorem rtTimerDetach_ok (h : rtTimerDetach k t = .ok (status, k')) : TimerOnly k k' := by
  obtain ⟨-, h⟩ := rtAssert_ok h
  obtain ⟨-, h⟩ := rtAssert_ok h
  cases h
  exact (TimerOnly.setFlag k t _).trans (.detach _ t)

theorem rtTimerInit_ok {name : String} {time : Nat} {flag : UInt8}
    (h : rtTimerInit k t name time flag = .ok k') : TimerOnly k k' := by
  obtain ⟨c, hc, h⟩ := bind_ok h
  cases h
  exact (TimerOnly.init hc).trans ((TimerOnly.setFlag _ t _).trans (.setTick _ t time))

end Timers

section Primitives

variable {k k' : Kernel τ} {off : Option τ} {t : τ}

theorem TimerOnly.stat (h : TimerOnly k k') (t : τ) : (k'.tcb t).stat = (k.tcb t).stat := by
  rw [h.tcb t]

theorem TimerOnly.ready (h : TimerOnly k k') : Ready k' t ↔ Ready k t := by
  rw [Ready, Ready, h.stat t]

theorem TimerOnly.suspended (h : TimerOnly k k') : Suspended k' t ↔ Suspended k t := by
  rw [Suspended, Suspended, h.stat t]

theorem TimerOnly.attributed (h : TimerOnly k k') (ht : Attributed (k.tcb t)) :
    Attributed (k'.tcb t) := by
  rw [h.tcb t]
  exact ht

theorem Consistent.timerOnly (hk : Consistent k off) (h : TimerOnly k k') :
    Consistent k' off where
  mem_iff := fun t p => by
    rw [h.priorityTable, hk.mem_iff, h.ready, h.tcb t]
  nodup := h.priorityTable ▸ hk.nodup
  group := by
    rw [h.group, h.priorityTable]
    exact hk.group
  attributed := fun t ht => h.attributed (hk.attributed t (by rwa [h.ready, h.suspended] at ht))
  state := fun t => by
    rw [h.stat t]
    exact hk.state t
  initPriority_lt := fun t => by
    rw [h.tcb t]
    exact hk.initPriority_lt t
  listed := fun t ht => (h.listed t).mpr (hk.listed t (by rwa [h.ready, h.suspended] at ht))
  typed := fun t ht => (h.listed t).mpr (hk.typed t (by rwa [h.thread t] at ht))

/-- A thread that is not ready is off the queue already, and may stay off it. -/
theorem Consistent.off_iff (h : ¬Ready k t) : Consistent k (some t) ↔ Consistent k none := by
  constructor
  · intro hk
    refine { hk with mem_iff := fun t' p => ?_ }
    rw [hk.mem_iff]
    have hne : Ready k t' → some t ≠ some t' := fun ht' heq => h (Option.some.inj heq ▸ ht')
    simp
    grind
  · intro hk
    refine { hk with mem_iff := fun t' p => ?_ }
    rw [hk.mem_iff]
    simp
    grind

theorem Consistent.defunct (hk : Consistent k off) (l : List τ) :
    Consistent { k with defunct := l } off :=
  { hk with }

variable [DecidableEq τ]

theorem priorityTable_unlink (hk : Consistent k (some t)) (p : UInt8) :
    (k.unlink t).priorityTable p = k.priorityTable p := by
  refine List.filter_eq_self.mpr fun t' ht' => ?_
  rw [hk.mem_iff] at ht'
  simpa using fun heq : t' = t => ht'.2.1 (congrArg some heq.symm)

theorem Consistent.unlink (hk : Consistent k (some t)) : Consistent (k.unlink t) (some t) where
  mem_iff := fun t' p => by
    rw [priorityTable_unlink hk]
    exact hk.mem_iff t' p
  nodup := fun p => (priorityTable_unlink hk p).symm ▸ hk.nodup p
  group := fun p hp => by
    rw [priorityTable_unlink hk]
    exact hk.group p hp
  attributed := hk.attributed
  state := hk.state
  initPriority_lt := hk.initPriority_lt
  listed := hk.listed
  typed := hk.typed

/-- The block of a thread off the queue may be changed. -/
theorem Consistent.setTcb (hk : Consistent k (some t)) {tcb : Tcb}
    (hstate : tcb.stat &&& threadStatMask ∈ threadStates)
    (hattr : Ready (k.setTcb t tcb) t ∨ Suspended (k.setTcb t tcb) t →
      Attributed tcb ∧ .thread t ∈ k.container.information .thread)
    (hinit : tcb.initPriority < 32) : Consistent (k.setTcb t tcb) (some t) := by
  have hother : ∀ t' ≠ t, (k.setTcb t tcb).tcb t' = k.tcb t' := fun t' hne => by
    simp [Kernel.setTcb, hne]
  have hhere : (k.setTcb t tcb).tcb t = tcb := by simp [Kernel.setTcb]
  refine ⟨fun t' p => ?_, hk.nodup, hk.group, fun t' ht' => ?_, fun t' => ?_, fun t' => ?_,
    fun t' ht' => ?_, hk.typed⟩
  · rw [show (k.setTcb t tcb).priorityTable = k.priorityTable from rfl, hk.mem_iff]
    by_cases h : t' = t
    · subst h
      simp
    · rw [Ready, Ready, hother t' h]
  · by_cases h : t' = t
    · subst h
      rw [hhere]
      exact (hattr ht').1
    · rw [Ready, Suspended, hother t' h] at ht'
      rw [hother t' h]
      exact hk.attributed t' ht'
  · by_cases h : t' = t
    · subst h
      rwa [hhere]
    · rw [hother t' h]
      exact hk.state t'
  · by_cases h : t' = t
    · subst h
      rwa [hhere]
    · rw [hother t' h]
      exact hk.initPriority_lt t'
  · by_cases h : t' = t
    · subst h
      exact (hattr ht').2
    · rw [Ready, Suspended, hother t' h] at ht'
      exact hk.listed t' ht'

/-- The state set in a `stat` is the state read from it. -/
theorem stat_mask (state stat : UInt8) (h : state &&& threadStatMask = state) :
    (state ||| (stat &&& ~~~threadStatMask)) &&& threadStatMask = state := by
  refine UInt8.eq_of_toBitVec_eq (BitVec.eq_of_getLsbD_eq fun i hi => ?_)
  have hbit := congrArg (fun state : UInt8 => state.toBitVec.getLsbD i) h
  simp only [UInt8.toBitVec_and, UInt8.toBitVec_or, UInt8.toBitVec_not, BitVec.getLsbD_and,
    BitVec.getLsbD_or, BitVec.getLsbD_not] at hbit ⊢
  grind

theorem Consistent.insert (hk : Consistent k (some t)) (hattr : Attributed (k.tcb t))
    (hlisted : .thread t ∈ k.container.information .thread) :
    Consistent (rtScheduleInsertThread k t) none := by
  set tcb : Tcb := { k.tcb t with
    stat := threadReady ||| ((k.tcb t).stat &&& ~~~threadStatMask) } with htcb
  have hset : Consistent (k.setTcb t tcb) (some t) :=
    hk.setTcb (by rw [stat_mask threadReady _ (by decide)]; decide) (fun _ => ⟨hattr, hlisted⟩)
      (hk.initPriority_lt t)
  have hhere : (k.setTcb t tcb).tcb t = tcb := by simp [Kernel.setTcb]
  have hready : Ready (k.setTcb t tcb) t := by
    rw [Ready, hhere]
    exact stat_mask threadReady _ (by decide)
  have hout : ∀ p, t ∉ k.priorityTable p := fun p hmem => ((hset.mem_iff t p).mp hmem).2.1 rfl
  refine ⟨fun t' p => ?_, fun p => ?_, fun p hp => ?_, hset.attributed, hset.state,
    hset.initPriority_lt, hset.listed, hset.typed⟩
  · change t' ∈ Function.update k.priorityTable (k.tcb t).currentPriority
      (k.priorityTable (k.tcb t).currentPriority ++ [t]) p ↔
      Ready (k.setTcb t tcb) t' ∧ none ≠ some t' ∧ ((k.setTcb t tcb).tcb t').currentPriority = p
    have hmem : t' ∈ k.priorityTable p ↔ _ := hset.mem_iff t' p
    rw [Function.update_apply]
    by_cases h : t' = t
    · subst h
      rw [hhere, show tcb.currentPriority = (k.tcb t').currentPriority from rfl]
      by_cases hp : p = (k.tcb t').currentPriority
      · subst hp
        simp [hready]
      · simp [hp, hout, Ne.symm hp]
    · have hne : some t ≠ some t' := fun heq => h (Option.some.inj heq).symm
      by_cases hp : p = (k.tcb t).currentPriority
      · subst hp
        simp [hmem, h, hne]
      · simp [hp, hmem, hne]
  · simp only [rtScheduleInsertThread, Function.update_apply]
    split
    · exact List.nodup_append.mpr ⟨hk.nodup _, List.nodup_singleton t, by
        intro a ha b hb
        obtain rfl := List.mem_singleton.mp hb
        exact fun heq => hout _ (heq ▸ ha)⟩
    · exact hk.nodup p
  · have hbit := hk.group p hp
    simp only [rtScheduleInsertThread, Function.update_apply, hasBit_or, hattr.2,
      hasBit_mask hattr.1 hp]
    by_cases h : p = (k.tcb t).currentPriority
    · simp [h]
    · rw [if_neg h, or_iff_left (Ne.symm h)]
      exact hbit

/-- Off the queue, with the bit cleared when the list ran empty. -/
theorem Consistent.remove (hk : Consistent k none) (hattr : Attributed (k.tcb t)) :
    Consistent (rtScheduleRemoveThread k t) (some t) := by
  have hmem : ∀ t' p, t' ∈ (k.unlink t).priorityTable p ↔
      Ready k t' ∧ some t ≠ some t' ∧ (k.tcb t').currentPriority = p := by
    intro t' p
    rw [Kernel.unlink, List.mem_filter, hk.mem_iff]
    simp
    grind
  have hnodup : ∀ p, ((k.unlink t).priorityTable p).Nodup := fun p => (hk.nodup p).filter _
  have hother : ∀ p, p ≠ (k.tcb t).currentPriority →
      (k.unlink t).priorityTable p = k.priorityTable p := by
    intro p hne
    refine List.filter_eq_self.mpr fun t' ht' => ?_
    have hp := ((hk.mem_iff t' p).mp ht').2.2
    simpa using fun heq : t' = t => hne (heq ▸ hp.symm)
  have hsub : ∀ p, (k.unlink t).priorityTable p ≠ [] → k.priorityTable p ≠ [] := by
    intro p hne hnil
    simp [Kernel.unlink, hnil] at hne
  rw [rtScheduleRemoveThread]
  split
  next hempty =>
    refine ⟨hmem, hnodup, fun p hp => ?_, hk.attributed, hk.state, hk.initPriority_lt, hk.listed,
      hk.typed⟩
    have htcb : (k.unlink t).tcb t = k.tcb t := rfl
    rw [htcb] at hempty ⊢
    rw [hasBit_clear _ _ hp, hattr.2, hasBit_mask hattr.1 hp]
    by_cases h : p = (k.tcb t).currentPriority
    · subst h
      simp [hempty]
    · have hbit : HasBit (k.unlink t).readyPriorityGroup p ↔ _ := hk.group p hp
      simp [Ne.symm h, hbit, hother p h]
  next hsome =>
    refine ⟨hmem, hnodup, fun p hp => ?_, hk.attributed, hk.state, hk.initPriority_lt, hk.listed,
      hk.typed⟩
    have hbit : HasBit (k.unlink t).readyPriorityGroup p ↔ _ := hk.group p hp
    rw [hbit]
    by_cases h : p = (k.tcb t).currentPriority
    · subst h
      exact ⟨fun _ => hsome, hsub _⟩
    · rw [hother p h]

end Primitives

section Returns

variable [DecidableEq τ] {k k' : Kernel τ} {t : τ} {status : Int}

@[simp] theorem rtScheduleRemoveThread_tcb : (rtScheduleRemoveThread k t).tcb = k.tcb := by
  rw [rtScheduleRemoveThread]
  split <;> rfl

@[simp] theorem rtScheduleRemoveThread_container :
    (rtScheduleRemoveThread k t).container = k.container := by
  rw [rtScheduleRemoveThread]
  split <;> rfl

/-- A thread off the queue takes a state that is not ready. -/
theorem Consistent.stop (hk : Consistent k (some t)) {tcb : Tcb}
    (hready : tcb.stat &&& threadStatMask ≠ threadReady)
    (hstate : tcb.stat &&& threadStatMask ∈ threadStates) (hinit : tcb.initPriority < 32)
    (hsuspended : tcb.stat &&& threadStatMask = threadSuspend →
      Attributed tcb ∧ .thread t ∈ k.container.information .thread) :
    Consistent (k.setTcb t tcb) none := by
  have hhere : (k.setTcb t tcb).tcb t = tcb := by simp [Kernel.setTcb]
  have hnot : ¬Ready (k.setTcb t tcb) t := by rwa [Ready, hhere]
  refine (Consistent.off_iff hnot).mp (hk.setTcb hstate (fun hlive => hsuspended ?_) hinit)
  rcases hlive with hlive | hlive
  · exact absurd hlive hnot
  · rwa [Suspended, hhere] at hlive

theorem Consistent.register (hk : Consistent k none) {name : String} {c : Container (Addr τ)}
    (h : rtObjectInit k.container (.thread t) .thread name = .ok c) :
    Consistent { k with container := c } none := by
  obtain ⟨-, h⟩ := rtAssert_ok h
  cases h
  refine { hk with listed := fun t' ht' => ?_, typed := fun t' ht' => ?_ }
  · simpa using .inr (hk.listed t' ht')
  · by_cases hne : t' = t
    · simp [hne]
    · simpa using .inr (hk.typed t' (by simpa [Kernel.object, hne] using ht'))

theorem Consistent.unregister (hk : Consistent k none)
    (hstat : ¬Ready k t ∧ ¬Suspended k t) :
    Consistent { k with container := rtObjectDetach k.container (.thread t) } none := by
  refine { hk with listed := fun t' ht' => ?_, typed := fun t' ht' => ?_ }
  · have hne : t' ≠ t := fun heq => ht'.elim (heq ▸ hstat.1) (heq ▸ hstat.2)
    simpa [rtObjectDetach, hne] using hk.listed t' ht'
  · by_cases hne : t' = t
    · subst hne
      simp [rtObjectDetach, Kernel.object, rtObjectGetType, ObjectClass.code] at ht'
    · simpa [rtObjectDetach, hne] using
        hk.typed t' (by simpa [rtObjectDetach, Kernel.object, hne] using ht')

theorem rtThreadInit_consistent {name : String} {priority : UInt8} {tick : Nat}
    (hk : Consistent k none) (h : rtThreadInit k t name priority tick = .ok (status, k')) :
    Consistent k' none := by
  obtain ⟨c, hc, h⟩ := bind_ok h
  obtain ⟨hpriority, h⟩ := rtAssert_ok h
  obtain ⟨k₂, hk₂, h⟩ := bind_ok h
  cases h
  have hout : ¬Ready k t := fun hready =>
    (rtAssert_ok hc).1 (hk.listed t (.inl hready))
  have hoff := (Consistent.off_iff (k := { k with container := c }) hout).mpr (hk.register hc)
  refine Consistent.timerOnly (Consistent.stop hoff ?_ ?_ hpriority ?_) (rtTimerInit_ok hk₂)
  · exact show threadInit &&& threadStatMask ≠ threadReady by decide
  · exact show threadInit &&& threadStatMask ∈ threadStates by decide
  · exact fun h => absurd h (show threadInit &&& threadStatMask ≠ threadSuspend by decide)

theorem rtThreadResume_consistent (hk : Consistent k none)
    (h : rtThreadResume k t = .ok (status, k')) : Consistent k' none := by
  obtain ⟨-, h⟩ := rtAssert_ok h
  split at h
  · cases h
    exact hk
  next hstat =>
    have hsuspended : Suspended k t := not_not.mp hstat
    obtain ⟨⟨_, k₁⟩, hk₁, h⟩ := bind_ok h
    cases h
    have hoff := ((Consistent.off_iff (not_ready_of_suspended hsuspended)).mpr hk).unlink
    have htimer := rtTimerStop_ok hk₁
    exact (hoff.timerOnly htimer).insert (htimer.attributed (hk.attributed t (.inr hsuspended)))
      ((htimer.listed t).mpr (hk.listed t (.inr hsuspended)))

theorem rtThreadSuspend_consistent (hk : Consistent k none)
    (h : rtThreadSuspend k t = .ok (status, k')) : Consistent k' none := by
  obtain ⟨-, h⟩ := rtAssert_ok h
  split at h
  · cases h
    exact hk
  next hstat =>
    have hready : Ready k t := not_not.mp hstat
    have hattr := hk.attributed t (.inl hready)
    obtain ⟨⟨_, k₁⟩, hk₁, h⟩ := bind_ok h
    cases h
    simp only [rtScheduleRemoveThread_tcb] at hk₁
    refine Consistent.timerOnly (Consistent.stop (hk.remove hattr) ?_ ?_ ?_ fun _ => ⟨?_, ?_⟩)
      (rtTimerStop_ok hk₁)
    · rw [stat_mask threadSuspend _ (by decide)]
      decide
    · rw [stat_mask threadSuspend _ (by decide)]
      decide
    · exact hk.initPriority_lt t
    · exact hattr
    · rw [rtScheduleRemoveThread_container]
      exact hk.listed t (.inl hready)

theorem rtThreadSleep_consistent {tick : Nat} (hk : Consistent k none)
    (h : rtThreadSleep k t tick = .ok (status, k')) : Consistent k' none := by
  obtain ⟨-, h⟩ := rtAssert_ok h
  obtain ⟨⟨_, k₁⟩, hk₁, h⟩ := bind_ok h
  obtain ⟨⟨_, k₂⟩, hk₂, h⟩ := bind_ok h
  obtain ⟨⟨_, k₃⟩, hk₃, h⟩ := bind_ok h
  cases h
  exact (rtThreadSuspend_consistent hk hk₁).timerOnly
    ((rtTimerSetTime_ok hk₂).trans (rtTimerStart_ok hk₃))

/-- The expiry of a timer asserts that its thread is suspended. -/
theorem rtTimerCheck_consistent (hk : Consistent k none) (h : rtTimerCheck k t = .ok k') :
    Consistent k' none := by
  have hflag := hk.timerOnly (TimerOnly.setFlag k t
    ((k.object (.timer t)).flag &&& ~~~timerFlagActivated))
  obtain ⟨hsuspended, h⟩ := rtAssert_ok h
  obtain ⟨-, h⟩ := rtAssert_ok h
  cases h
  have hoff := (Consistent.off_iff (not_ready_of_suspended hsuspended)).mpr hflag
  have hattr := hflag.attributed t (.inr hsuspended)
  have hlisted := hflag.listed t (.inr hsuspended)
  refine Consistent.insert (Consistent.unlink (Consistent.setTcb hoff ?_ ?_ ?_)) ?_ hlisted
  · exact hflag.state t
  · exact fun _ => ⟨hattr, hlisted⟩
  · exact hflag.initPriority_lt t
  · simp only [Kernel.unlink, Kernel.setTcb, Function.update_self]
    exact hattr

theorem rtThreadStartup_consistent (hk : Consistent k none)
    (h : rtThreadStartup k t = .ok (status, k')) : Consistent k' none := by
  obtain ⟨hinit, h⟩ := rtAssert_ok h
  obtain ⟨htype, h⟩ := rtAssert_ok h
  obtain ⟨⟨_, k₁⟩, hk₁, h⟩ := bind_ok h
  cases h
  have hnot : ¬Ready k t := by
    rw [Ready, hinit]
    decide
  refine rtThreadResume_consistent (Consistent.stop ((Consistent.off_iff hnot).mpr hk) ?_ ?_ ?_ ?_)
    hk₁
  · exact show threadSuspend &&& threadStatMask ≠ threadReady by decide
  · exact show threadSuspend &&& threadStatMask ∈ threadStates by decide
  · exact hk.initPriority_lt t
  · exact fun _ => ⟨⟨hk.initPriority_lt t, rfl⟩, hk.typed t htype⟩

/-- Off the schedule, whatever state the thread was in. -/
theorem closeThread_consistent (hk : Consistent k none)
    (hstat : (k.tcb t).stat &&& threadStatMask ≠ threadClose)
    (h : closeThread k t = .ok (status, k')) : Consistent k' (some t) := by
  rw [closeThread] at h
  refine Consistent.timerOnly ?_ (rtTimerDetach_ok h)
  split
  next hinit =>
    have hlive : Ready k t ∨ Suspended k t := by
      have hstate := hk.state t
      simp only [threadStates, List.mem_cons, List.not_mem_nil, or_false] at hstate
      rcases hstate with hstate | hstate | hstate | hstate
      · exact absurd hstate hinit
      · exact .inl hstate
      · exact .inr hstate
      · exact absurd hstate hstat
    exact hk.remove (hk.attributed t hlive)
  next hinit =>
    have hnot : ¬Ready k t := by
      rw [Ready, not_not.mp hinit]
      decide
    exact (Consistent.off_iff hnot).mpr hk

theorem Consistent.close (hk : Consistent k (some t)) :
    Consistent (k.setTcb t { k.tcb t with stat := threadClose }) none :=
  Consistent.stop hk (show threadClose &&& threadStatMask ≠ threadReady by decide)
    (show threadClose &&& threadStatMask ∈ threadStates by decide) (hk.initPriority_lt t)
    fun h => absurd h (show threadClose &&& threadStatMask ≠ threadSuspend by decide)

theorem close_not_live (k : Kernel τ) (t : τ) :
    ¬Ready (k.setTcb t { k.tcb t with stat := threadClose }) t ∧
      ¬Suspended (k.setTcb t { k.tcb t with stat := threadClose }) t := by
  rw [Ready, Suspended]
  simp only [Kernel.setTcb, Function.update_self]
  decide

theorem rtThreadDetach_consistent (hk : Consistent k none)
    (h : rtThreadDetach k t = .ok (status, k')) : Consistent k' none := by
  obtain ⟨-, h⟩ := rtAssert_ok h
  obtain ⟨-, h⟩ := rtAssert_ok h
  split at h
  · cases h
    exact hk
  next hstat =>
    obtain ⟨⟨_, k₁⟩, hk₁, h⟩ := bind_ok h
    have hclosed := (closeThread_consistent hk hstat hk₁).close
    simp only at h
    split at h
    · cases h
      exact hclosed.unregister (close_not_live k₁ t)
    · cases h
      exact hclosed.defunct _

theorem rtThreadDelete_consistent (hk : Consistent k none)
    (h : rtThreadDelete k t = .ok (status, k')) : Consistent k' none := by
  obtain ⟨-, h⟩ := rtAssert_ok h
  obtain ⟨-, h⟩ := rtAssert_ok h
  split at h
  · cases h
    exact hk
  next hstat =>
    obtain ⟨⟨_, k₁⟩, hk₁, h⟩ := bind_ok h
    cases h
    exact (closeThread_consistent hk hstat hk₁).close.defunct _

theorem rtThreadControl_consistent {cmd : ThreadCtrl} (hk : Consistent k none)
    (h : rtThreadControl k t cmd = .ok (status, k')) : Consistent k' none := by
  obtain ⟨-, h⟩ := rtAssert_ok h
  cases cmd with
  | startup => exact rtThreadStartup_consistent hk h
  | close =>
    simp only at h
    split at h
    · exact rtThreadDetach_consistent hk h
    · exact rtThreadDelete_consistent hk h

theorem rtThreadChangePriority_consistent {priority : UInt8} (hpriority : priority < 32)
    (hk : Consistent k none) (h : rtThreadChangePriority k t priority = .ok (status, k')) :
    Consistent k' none := by
  obtain ⟨-, h⟩ := rtAssert_ok h
  split at h
  next hready =>
    cases h
    have hlisted : .thread t ∈ (rtScheduleRemoveThread k t).container.information .thread := by
      rw [rtScheduleRemoveThread_container]
      exact hk.listed t (.inl hready)
    have hoff := hk.remove (hk.attributed t (.inl hready))
    refine Consistent.insert (Consistent.setTcb hoff ?_ (fun _ => ⟨⟨hpriority, rfl⟩, hlisted⟩) ?_)
      ?_ hlisted
    · exact hoff.state t
    · exact hoff.initPriority_lt t
    · simp only [Kernel.setTcb, Function.update_self]
      exact ⟨hpriority, rfl⟩
  next hready =>
    cases h
    have hoff := (Consistent.off_iff hready).mpr hk
    refine Consistent.stop hoff hready (hk.state t) (hk.initPriority_lt t) fun hsuspended => ?_
    exact ⟨⟨hpriority, rfl⟩, hk.listed t (.inr hsuspended)⟩

theorem rtThreadExit_consistent (hk : Consistent k none) (hready : Ready k t)
    (h : rtThreadExit k t = .ok k') : Consistent k' none := by
  obtain ⟨⟨_, k₁⟩, hk₁, h⟩ := bind_ok h
  have hclosed := (hk.remove (hk.attributed t (.inl hready))).close
  have htimer := rtTimerDetach_ok hk₁
  have hnot := close_not_live (rtScheduleRemoveThread k t) t
  simp only at h
  split at h
  · cases h
    refine (hclosed.timerOnly htimer).unregister ?_
    rwa [htimer.ready, htimer.suspended]
  · cases h
    exact (hclosed.timerOnly htimer).defunct _

end Returns

section Requeue

variable [DecidableEq τ] {k : Kernel τ} {t : τ}

theorem mem_requeue (hk : Consistent k none) (hready : Ready k t) (t' : τ) (p : UInt8) :
    t' ∈ (requeue k t).priorityTable p ↔ t' ∈ k.priorityTable p := by
  have hmem := hk.mem_iff t p
  simp only [requeue, Kernel.unlink, Function.update_apply]
  by_cases hp : p = (k.tcb t).currentPriority
  · subst hp
    by_cases h : t' = t
    · subst h
      simpa using hmem.mpr ⟨hready, by simp, rfl⟩
    · simp [h]
  · have hout : t ∉ k.priorityTable p := fun h => hp (hmem.mp h).2.2.symm
    rw [if_neg hp, List.mem_filter]
    simp only [ne_eq, decide_not, Bool.not_eq_eq_eq_not, Bool.not_true, decide_eq_false_iff_not,
      and_iff_left_iff_imp]
    exact fun h heq => hout (heq ▸ h)

/-- The same threads in another order. -/
theorem Consistent.requeue (hk : Consistent k none) (hready : Ready k t) :
    Consistent (requeue k t) none := by
  have hmem := mem_requeue hk hready
  have hempty : ∀ p, (Schedule.requeue k t).priorityTable p = [] ↔ k.priorityTable p = [] := by
    intro p
    simp only [List.eq_nil_iff_forall_not_mem, hmem]
  refine ⟨fun t' p => (hmem t' p).trans (hk.mem_iff t' p), fun p => ?_, fun p hp => ?_,
    hk.attributed, hk.state, hk.initPriority_lt, hk.listed, hk.typed⟩
  · simp only [Schedule.requeue, Kernel.unlink, Function.update_apply]
    split
    · refine List.nodup_append.mpr ⟨(hk.nodup _).filter _, List.nodup_singleton t, ?_⟩
      intro a ha b hb
      obtain rfl := List.mem_singleton.mp hb
      simpa using (List.mem_filter.mp ha).2
    · exact (hk.nodup p).filter _
  · rw [ne_eq, hempty p]
    exact hk.group p hp

end Requeue

theorem call_consistent [DecidableEq τ] {k k' : Kernel τ} {c : Call τ}
    (hk : Consistent k none) (h : c.run k = .ok k') : Consistent k' none := by
  cases c with
  | init t name priority tick =>
    obtain ⟨⟨_, k₁⟩, hk₁, h⟩ := bind_ok h
    cases h
    exact rtThreadInit_consistent hk hk₁
  | control t cmd =>
    obtain ⟨⟨_, k₁⟩, hk₁, h⟩ := bind_ok h
    cases h
    exact rtThreadControl_consistent hk hk₁
  | changePriority t priority =>
    obtain ⟨⟨_, k₁⟩, hk₁, h⟩ := bind_ok h
    cases h
    refine rtThreadChangePriority_consistent ?_ hk hk₁
    rw [UInt8.lt_iff_toNat_lt, UInt8.toNat_ofNat_of_lt' (priority.isLt.trans (by decide))]
    exact priority.isLt
  | suspend t =>
    obtain ⟨⟨_, k₁⟩, hk₁, h⟩ := bind_ok h
    cases h
    exact rtThreadSuspend_consistent hk hk₁
  | resume t =>
    obtain ⟨⟨_, k₁⟩, hk₁, h⟩ := bind_ok h
    cases h
    exact rtThreadResume_consistent hk hk₁
  | sleep t tick =>
    obtain ⟨⟨_, k₁⟩, hk₁, h⟩ := bind_ok h
    cases h
    exact rtThreadSleep_consistent hk hk₁
  | timeout t => exact rtTimerCheck_consistent hk h
  | detach t =>
    obtain ⟨⟨_, k₁⟩, hk₁, h⟩ := bind_ok h
    cases h
    exact rtThreadDetach_consistent hk hk₁
  | delete t =>
    obtain ⟨⟨_, k₁⟩, hk₁, h⟩ := bind_ok h
    cases h
    exact rtThreadDelete_consistent hk hk₁

section Scheduler

variable [DecidableEq τ] {k : Kernel τ} {s s' : Processor τ} {t : τ}

/-- Ready, of the highest priority that is, and at the head of its list. -/
def First (k : Kernel τ) (t : τ) : Prop :=
  Ready k t ∧ (∀ t', Ready k t' → (k.tcb t).currentPriority ≤ (k.tcb t').currentPriority) ∧
    (k.priorityTable (k.tcb t).currentPriority).head? = some t

/-- The scheduler switches threads, and leaves the kernel as it is. -/
theorem rtSchedule_kernel (h : rtSchedule s = some s') :
    s'.kernel = s.kernel ∧ s'.lockNest = s.lockNest := by
  unfold rtSchedule at h
  split at h
  · split at h
    · cases h
    · obtain ⟨_, -, h⟩ := Option.bind_eq_some_iff.mp h
      split at h <;> cases h <;> exact ⟨rfl, rfl⟩
  · cases h
    exact ⟨rfl, rfl⟩

theorem rtSchedule_locked (h : s.lockNest ≠ 0) : rtSchedule s = some s := if_neg h

theorem rtSchedule_first (hk : Consistent s.kernel none) (hlock : s.lockNest = 0)
    (hready : Ready s.kernel t) :
    ∃ s' first, rtSchedule s = some s' ∧ s'.currentThread = some first ∧
      First s.kernel first := by
  have hbit : ∀ t', Ready s.kernel t' →
      HasBit s.kernel.readyPriorityGroup (s.kernel.tcb t').currentPriority := by
    intro t' ht'
    rw [hk.group _ (hk.attributed t' (.inl ht')).1]
    exact List.ne_nil_of_mem ((hk.mem_iff t' _).mpr ⟨ht', by simp, rfl⟩)
  rw [rtSchedule, if_pos hlock]
  cases hffs : rtFfs s.kernel.readyPriorityGroup with
  | zero => exact absurd (hbit t hready) (rtFfs_eq_zero hffs (hk.attributed t (.inl hready)).1)
  | succ i =>
    obtain ⟨hi, hset, hleast⟩ := rtFfs_eq_succ hffs
    have hlt : i.toUInt8 < 32 := by
      rw [UInt8.lt_iff_toNat_lt]
      simp only [Nat.toUInt8_eq, UInt8.toNat_ofNat']
      exact lt_of_le_of_lt (Nat.mod_le _ _) hi
    obtain ⟨first, rest, hlist⟩ := List.exists_cons_of_ne_nil ((hk.group _ hlt).mp hset)
    obtain ⟨hfirst, -, hpriority⟩ :=
      (hk.mem_iff first _).mp (hlist ▸ List.mem_cons_self : first ∈ s.kernel.priorityTable i.toUInt8)
    have hhead : First s.kernel first :=
      ⟨hfirst, fun t' ht' => hpriority ▸ hleast _ (hbit t' ht'), by rw [hpriority, hlist]; rfl⟩
    by_cases hsame : some first = s.currentThread
    · exact ⟨s, first, by simp [hlist, ← hsame], hsame.symm, hhead⟩
    · exact ⟨_, first, by simp [hlist, hsame]; rfl, rfl, hhead⟩

theorem rtThreadYield_ready {s' : Processor τ} (h : rtThreadYield s = some s') :
    s'.kernel = s.kernel ∨
      ∃ t, s.currentThread = some t ∧ Ready s.kernel t ∧ s'.kernel = requeue s.kernel t := by
  obtain ⟨t, ht, h⟩ := Option.bind_eq_some_iff.mp h
  split at h
  next hcond => exact .inr ⟨t, ht, hcond.1, (rtSchedule_kernel h).1⟩
  next =>
    cases h
    exact .inl rfl

theorem rtExitCritical_kernel (h : rtExitCritical s = some s') : s'.kernel = s.kernel := by
  unfold rtExitCritical at h
  simp only at h
  split at h
  · split at h
    · exact (rtSchedule_kernel h).1
    · cases h
      rfl
  · cases h
    rfl

theorem step_consistent {e : Event τ} (hk : Consistent s.kernel none) (h : Step s e s') :
    Consistent s'.kernel none := by
  cases e with
  | call c =>
    obtain ⟨k, hrun, rfl⟩ := step_call h
    exact call_consistent hk hrun
  | exit =>
    obtain ⟨t, k, -, hready, hexit, hsched⟩ := step_exit h
    rw [(rtSchedule_kernel hsched).1]
    exact rtThreadExit_consistent hk hready hexit
  | yield =>
    rcases rtThreadYield_ready h with heq | ⟨t, -, hready, heq⟩
    · exact heq ▸ hk
    · exact heq ▸ hk.requeue hready
  | schedule => exact (rtSchedule_kernel h).1 ▸ hk
  | enterCritical =>
    cases h
    exact hk
  | exitCritical => exact rtExitCritical_kernel h ▸ hk

end Scheduler

theorem init_consistent : Consistent (rtSystemSchedulerInit (τ := τ)).kernel none where
  mem_iff := fun t p => by simp [rtSystemSchedulerInit, Ready, threadReady]
  nodup := fun p => List.nodup_nil
  group := fun p hp => by simp [rtSystemSchedulerInit, hasBit_zero]
  attributed := fun t ht => by simp [rtSystemSchedulerInit, Ready, Suspended, threadReady, threadSuspend] at ht
  state := fun t => by simp [rtSystemSchedulerInit, threadStates, threadInit]
  initPriority_lt := fun t => by simp [rtSystemSchedulerInit]
  listed := fun t ht => by simp [rtSystemSchedulerInit, Ready, Suspended, threadReady, threadSuspend] at ht
  typed := fun t ht => by simp [rtSystemSchedulerInit, Kernel.object, rtObjectGetType, ObjectClass.code] at ht

variable [DecidableEq τ] {s : Processor τ} {events : List (Event τ)}

theorem run_consistent (hrun : Runs Step rtSystemSchedulerInit events s) :
    Consistent s.kernel none :=
  hrun.invariant (fun _ s => Consistent s.kernel none) init_consistent step_consistent

/-- Whatever calls were made before: a thread is in the list of its priority,
once, exactly when it is ready, a priority has its bit exactly when its list is
not empty, and while some thread is ready `rt_schedule` switches to the first
thread of the highest priority, or stays where it is if the scheduler is locked. -/
theorem run_schedules (hrun : Runs Step rtSystemSchedulerInit events s) :
    (∀ t p, (s.kernel.priorityTable p).count t =
      if Ready s.kernel t ∧ (s.kernel.tcb t).currentPriority = p then 1 else 0) ∧
    (∀ p, p < 32 → (HasBit s.kernel.readyPriorityGroup p ↔ s.kernel.priorityTable p ≠ [])) ∧
    (s.lockNest ≠ 0 → rtSchedule s = some s) ∧
    (s.lockNest = 0 → (∃ t, Ready s.kernel t) → ∃ s' first, rtSchedule s = some s' ∧
      s'.currentThread = some first ∧ First s.kernel first) := by
  have hk := run_consistent hrun
  refine ⟨fun t p => ?_, hk.group, rtSchedule_locked, fun hlock ⟨t, ht⟩ => rtSchedule_first hk hlock ht⟩
  have hmem := hk.mem_iff t p
  split
  next h => exact List.count_eq_one_of_mem (hk.nodup p) (hmem.mpr ⟨h.1, by simp, h.2⟩)
  next h => exact List.count_eq_zero_of_not_mem fun h' => h ⟨(hmem.mp h').1, (hmem.mp h').2.2⟩

/-- The idle thread and the shell, made and started. -/
def startup : List (Event Nat) :=
  [.call (.init 0 "tidle0" 31 32), .call (.control 0 .startup),
    .call (.init 1 "tshell" 20 10), .call (.control 1 .startup), .schedule]

def started : Processor Nat :=
  (startup.foldlM Event.run rtSystemSchedulerInit).getD rtSystemSchedulerInit

theorem startup_runs : Runs Step rtSystemSchedulerInit startup started := Runs.of_foldlM rfl

theorem run_schedules_startup : ∃ s' first, rtSchedule started = some s' ∧
    s'.currentThread = some first ∧ First started.kernel first :=
  (run_schedules startup_runs).2.2.2 rfl ⟨0, by decide⟩

end StmGateway.Rt.ReadyQueue
