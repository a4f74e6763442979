import StmGateway.Uart.Machine

/-!
# What the receive interrupt stores

The handler drops the status of `HAL_UART_Receive`, which answers `HAL_BUSY`
without a look at the data register while `HAL_UART_Transmit_DMA` holds the lock
of `huart3`, and it empties the data register when it clears an overrun. The
frame holds every received byte, once, in exactly the runs where no interrupt
with a byte to fetch meets either.
-/
namespace StmGateway.Uart.Receive

open StmGateway.Lib StmGateway.Uart.Machine
open StmGateway.Uart.RxBuffer (RxFrame rxAppend rxIdle Holds append_holds holds_zero)

/-- The byte in the data register that the handler has still to fetch. -/
def pending (rx : Receiver) : List (Origin × UInt8) := if rx.rxne then [(.dr, rx.dr)] else []

/-- Every byte appended came out of the data register, and every byte received
was appended once, in order, or waits in the data register. -/
def Stored (s : State) : Prop :=
  s.rx.log ++ pending s.rx = s.rx.received.map fun b => (.dr, b)

/-- A receive interrupt finds the lock free and no overrun. -/
def Undisturbed (s : State) : Event → Prop
  | .usartIrq _ => s.rx.rxne = true → s.huart.lock = false ∧ s.rx.ore = false
  | _ => True

instance (s : State) : (e : Event) → Decidable (Undisturbed s e)
  | .usartIrq _ =>
    inferInstanceAs (Decidable (s.rx.rxne = true → s.huart.lock = false ∧ s.rx.ore = false))
  | .call _ | .thread | .dmaRead | .fifoError | .dmaIrq | .arrive _ | .lineIdle => .isTrue trivial

/-- What holds between any two steps: no receive call is under way, and the
frame is what the log fills the buffer with. -/
structure Sane (s : State) : Prop where
  rxState : s.huart.rxState = .ready
  frame : Holds s.rx.frame (s.rx.log.map Prod.snd)

/-- A byte that came from nowhere, or one that is gone. -/
def Broken (s : State) : Prop :=
  (∃ b, (Origin.stack, b) ∈ s.rx.log) ∨
    s.rx.log.length + (pending s.rx).length < s.rx.received.length

theorem Stored.not_broken {s : State} (h : Stored s) : ¬ Broken s := by
  intro hb
  cases hb with
  | inl hstack =>
    obtain ⟨b, hb⟩ := hstack
    have hmem : (Origin.stack, b) ∈ s.rx.received.map fun b => (Origin.dr, b) := by
      rw [← h]
      exact List.mem_append_left _ hb
    simp at hmem
  | inr hlen =>
    have := congrArg List.length h
    rw [List.length_append, List.length_map] at this
    omega

/-- A statement of the transmit call leaves the receiver alone. -/
theorem threadStep_rx {s s' : State} (h : threadStep s = some s') :
    s'.rx = s.rx ∧ s'.huart.rxState = s.huart.rxState := by
  have hstore : ∀ i b t, s.storeTx i b t = some s' →
      s'.rx = s.rx ∧ s'.huart.rxState = s.huart.rxState := by
    intro i b t ht
    unfold State.storeTx at ht
    split at ht
    · cases ht; exact ⟨rfl, rfl⟩
    · cases ht
  unfold threadStep at h
  split at h
  · cases h
  · exact hstore _ _ _ h
  · exact hstore _ _ _ h
  · obtain ⟨n, _, hn⟩ := Option.bind_eq_some_iff.mp h
    cases hn
    exact ⟨rfl, rfl⟩
  all_goals
    repeat' split at h
    all_goals
      cases h
      exact ⟨rfl, rfl⟩

/-- An overrun is cleared by emptying the data register. -/
theorem handler_overrun {s : State} (hore : s.rx.ore = true) (tmp : UInt8) :
    usart3IrqHandler s tmp = some { s with rx := s.rx.readSrDr } := by
  simp [usart3IrqHandler, hore, Receiver.readSrDr]

/-- The byte in the data register is appended. -/
theorem handler_receive {s : State} {f : RxFrame} (hs : Sane s) (hore : s.rx.ore = false)
    (hrxne : s.rx.rxne = true) (hlock : s.huart.lock = false)
    (hf : rxAppend s.rx.frame s.rx.dr = some f) (tmp : UInt8) :
    usart3IrqHandler s tmp =
      some { s with rx := { s.rx.readSrDr with
        frame := f, log := s.rx.log ++ [(.dr, s.rx.dr)] } } := by
  obtain ⟨⟨gState, rxState, lock⟩, hdma, stream, dmat, txBuf, thread, sent, rx⟩ := s
  have hready : rxState = .ready := hs.rxState
  subst hready
  simp only at hlock hore hrxne hf
  simp [usart3IrqHandler, halUartReceive, Receiver.readSrDr, HalStatus.origin, *]

/-- With the lock held the local variable is appended, and the byte stays where
it is unless an idle line is acknowledged too. -/
theorem handler_locked {s : State} {f : RxFrame} (hs : Sane s) (hore : s.rx.ore = false)
    (hrxne : s.rx.rxne = true) (hlock : s.huart.lock = true) (tmp : UInt8)
    (hf : rxAppend s.rx.frame tmp = some f) :
    usart3IrqHandler s tmp =
      some { s with rx :=
        if s.rx.idle then
          { s.rx.readSrDr with frame := rxIdle f, log := s.rx.log ++ [(.stack, tmp)] }
        else { s.rx with frame := f, log := s.rx.log ++ [(.stack, tmp)] } } := by
  cases hidle : s.rx.idle <;>
    simp [usart3IrqHandler, halUartReceive, hore, hrxne, hlock, hs.rxState, hf,
      Receiver.readSrDr, HalStatus.origin, hidle]

/-- Nothing to fetch. -/
theorem handler_idle {s : State} (hore : s.rx.ore = false) (hrxne : s.rx.rxne = false)
    (tmp : UInt8) :
    usart3IrqHandler s tmp =
      some { s with rx :=
        if s.rx.idle then { s.rx.readSrDr with frame := rxIdle s.rx.frame } else s.rx } := by
  cases hidle : s.rx.idle <;>
    simp [usart3IrqHandler, hore, hrxne, Receiver.readSrDr, hidle]

/-- The handler leaves everything but the receiver as it was. -/
theorem handler_frame {s s' : State} {tmp : UInt8} (hs : Sane s)
    (h : usart3IrqHandler s tmp = some s') : s' = { s with rx := s'.rx } := by
  cases hore : s.rx.ore with
  | true => rw [handler_overrun hore] at h; cases h; rfl
  | false =>
    cases hrxne : s.rx.rxne with
    | false => rw [handler_idle hore hrxne] at h; cases h; rfl
    | true =>
      cases hlock : s.huart.lock with
      | false =>
        obtain ⟨f, hf, _⟩ := append_holds hs.frame s.rx.dr
        rw [handler_receive hs hore hrxne hlock hf] at h; cases h; rfl
      | true =>
        obtain ⟨f, hf, _⟩ := append_holds hs.frame tmp
        rw [handler_locked hs hore hrxne hlock tmp hf] at h; cases h; rfl

/-- Everything a handler run can do to the receiver. -/
theorem handler_cases {s s' : State} {tmp : UInt8} (hs : Sane s)
    (h : usart3IrqHandler s tmp = some s') :
    Sane s' ∧ s'.rx.received = s.rx.received ∧
      ((s.rx.ore = true ∧ s'.rx.log = s.rx.log ∧ s'.rx.rxne = false) ∨
       (s.rx.ore = false ∧ s.rx.rxne = true ∧ s.huart.lock = false ∧
          s'.rx.log = s.rx.log ++ [(.dr, s.rx.dr)] ∧ s'.rx.rxne = false) ∨
       (s.rx.ore = false ∧ s.rx.rxne = true ∧ s.huart.lock = true ∧
          s'.rx.log = s.rx.log ++ [(.stack, tmp)]) ∨
       (s.rx.rxne = false ∧ s'.rx.log = s.rx.log ∧ s'.rx.rxne = false)) := by
  have hidle : ∀ {f : RxFrame} {since : List UInt8}, Holds f since → Holds (rxIdle f) since :=
    fun hf => ⟨hf.len_eq, hf.last, hf.contents⟩
  cases hore : s.rx.ore with
  | true =>
    rw [handler_overrun hore] at h
    cases h
    exact ⟨⟨hs.rxState, hs.frame⟩, rfl, .inl ⟨rfl, rfl, rfl⟩⟩
  | false =>
    cases hrxne : s.rx.rxne with
    | false =>
      rw [handler_idle hore hrxne] at h
      cases h
      cases hi : s.rx.idle with
      | false =>
        exact ⟨⟨hs.rxState, hs.frame⟩, rfl, .inr (.inr (.inr ⟨rfl, rfl, hrxne⟩))⟩
      | true =>
        exact ⟨⟨hs.rxState, hidle hs.frame⟩, rfl, .inr (.inr (.inr ⟨rfl, rfl, rfl⟩))⟩
    | true =>
      cases hlock : s.huart.lock with
      | false =>
        obtain ⟨f, hf, hholds, _⟩ := append_holds hs.frame s.rx.dr
        rw [handler_receive hs hore hrxne hlock hf] at h
        cases h
        refine ⟨⟨hs.rxState, ?_⟩, rfl, .inr (.inl ⟨rfl, rfl, rfl, rfl, rfl⟩)⟩
        simpa using hholds
      | true =>
        obtain ⟨f, hf, hholds, _⟩ := append_holds hs.frame tmp
        rw [handler_locked hs hore hrxne hlock tmp hf] at h
        cases h
        cases hi : s.rx.idle with
        | false =>
          refine ⟨⟨hs.rxState, ?_⟩, rfl, .inr (.inr (.inl ⟨rfl, rfl, rfl, rfl⟩))⟩
          simpa using hholds
        | true =>
          refine ⟨⟨hs.rxState, ?_⟩, rfl, .inr (.inr (.inl ⟨rfl, rfl, rfl, rfl⟩))⟩
          simpa using hidle hholds

/-- Only an arrival or the receive interrupt touches what the receiver got. -/
theorem step_rx {s s' : State} {e : Event} (h : step s e s') (harrive : ∀ b, e ≠ .arrive b)
    (hirq : ∀ tmp, e ≠ .usartIrq tmp) :
    s'.huart.rxState = s.huart.rxState ∧ s'.rx.frame = s.rx.frame ∧ s'.rx.log = s.rx.log ∧
      s'.rx.received = s.rx.received ∧ pending s'.rx = pending s.rx := by
  cases e with
  | arrive b => exact absurd rfl (harrive b)
  | usartIrq tmp => exact absurd rfl (hirq tmp)
  | thread =>
    obtain ⟨hrx, hstate⟩ := threadStep_rx h
    rw [hrx]
    exact ⟨hstate, rfl, rfl, rfl, rfl⟩
  | call text =>
    simp only [step, next] at h
    split at h
    · cases h
      exact ⟨rfl, rfl, rfl, rfl, rfl⟩
    · cases h
  | dmaRead =>
    simp only [step, next, Machine.dmaRead] at h
    split at h
    · cases h
      exact ⟨rfl, rfl, rfl, rfl, rfl⟩
    · cases h
  | fifoError =>
    simp only [step, next] at h
    split at h
    · cases h
      exact ⟨rfl, rfl, rfl, rfl, rfl⟩
    · cases h
  | dmaIrq =>
    simp only [step, next, dma1Stream3IrqHandler] at h
    split at h
    · cases h
      exact ⟨rfl, rfl, rfl, rfl, rfl⟩
    · cases h
  | lineIdle =>
    cases h
    exact ⟨rfl, rfl, rfl, rfl, rfl⟩

theorem handler_of_step {s s' : State} {tmp : UInt8} (h : step s (.usartIrq tmp) s') :
    usart3IrqHandler s tmp = some s' := by
  simp only [step, next] at h
  split at h
  · exact h
  · cases h

theorem arrive_received (rx : Receiver) (b : UInt8) :
    (rx.arrive b).log = rx.log ∧ (rx.arrive b).frame = rx.frame ∧
      ((rx.arrive b).received = rx.received ∧ pending (rx.arrive b) = pending rx ∨
       rx.rxne = false ∧ (rx.arrive b).received = rx.received ++ [b] ∧
         pending (rx.arrive b) = [(.dr, b)]) := by
  cases hrxne : rx.rxne with
  | true => simp [Receiver.arrive, hrxne, pending]
  | false => simp [Receiver.arrive, hrxne, pending]

theorem step_sane {s s' : State} {e : Event} (hs : Sane s) (h : step s e s') : Sane s' := by
  by_cases hirq : ∃ tmp, e = .usartIrq tmp
  · obtain ⟨tmp, rfl⟩ := hirq
    exact (handler_cases hs (handler_of_step h)).1
  · by_cases harrive : ∃ b, e = .arrive b
    · obtain ⟨b, rfl⟩ := harrive
      obtain ⟨hlog, hframe, _⟩ := arrive_received s.rx b
      cases h
      refine ⟨hs.rxState, ?_⟩
      change Holds (s.rx.arrive b).frame ((s.rx.arrive b).log.map Prod.snd)
      rw [hlog, hframe]
      exact hs.frame
    · obtain ⟨hstate, hframe, hlog, _⟩ :=
        step_rx h (fun b hb => harrive ⟨b, hb⟩) (fun tmp htmp => hirq ⟨tmp, htmp⟩)
      refine ⟨hstate.trans hs.rxState, ?_⟩
      rw [hframe, hlog]
      exact hs.frame

/-- A step the condition allows keeps every byte; one it does not allow invents
or drops one. -/
theorem step_stored_iff {s s' : State} {e : Event} (hs : Sane s) (hst : Stored s)
    (h : step s e s') : (Undisturbed s e → Stored s') ∧ (¬ Undisturbed s e → Broken s') := by
  by_cases hirq : ∃ tmp, e = .usartIrq tmp
  · obtain ⟨tmp, rfl⟩ := hirq
    obtain ⟨_, hrec, hcases⟩ := handler_cases hs (handler_of_step h)
    have hlen := congrArg List.length hst
    rw [List.length_append, List.length_map] at hlen
    obtain ⟨hore, hlog, hrxne⟩ | ⟨hore, hrxne, hlock, hlog, hrxne'⟩ |
      ⟨hore, hrxne, hlock, hlog⟩ | ⟨hrxne, hlog, hrxne'⟩ := hcases
    · constructor
      · intro hu
        have hempty : s.rx.rxne = false := by
          by_contra hne
          have := (hu (by simpa using hne)).2
          simp [hore] at this
        unfold Stored at hst ⊢
        rw [hrec, hlog, ← hst]
        simp [pending, hempty, hrxne]
      · intro hu
        have hfull : s.rx.rxne = true := by
          by_contra hne
          exact hu fun h => absurd h hne
        right
        rw [hrec, hlog]
        simp only [pending, hrxne, hfull, ↓reduceIte, List.length_nil, List.length_singleton,
          Bool.false_eq_true] at hlen ⊢
        omega
    · constructor
      · intro _
        unfold Stored at hst ⊢
        rw [hrec, hlog, ← hst]
        simp [pending, hrxne, hrxne']
      · intro hu
        exact absurd (fun _ => ⟨hlock, hore⟩) hu
    · constructor
      · intro hu
        have := (hu hrxne).1
        simp [hlock] at this
      · intro _
        left
        rw [hlog]
        exact ⟨tmp, List.mem_append_right _ (List.mem_singleton_self _)⟩
    · constructor
      · intro _
        unfold Stored at hst ⊢
        rw [hrec, hlog, ← hst]
        simp [pending, hrxne, hrxne']
      · intro hu
        exact absurd (fun hne : s.rx.rxne = true => by simp [hrxne] at hne) hu
  · have hu : Undisturbed s e := by
      unfold Undisturbed
      split
      · exact absurd ⟨_, rfl⟩ hirq
      · trivial
    refine ⟨fun _ => ?_, fun hn => absurd hu hn⟩
    unfold Stored at hst ⊢
    by_cases harrive : ∃ b, e = .arrive b
    · obtain ⟨b, rfl⟩ := harrive
      obtain ⟨hlog, _, hcase⟩ := arrive_received s.rx b
      cases h
      simp only
      rw [hlog]
      cases hcase with
      | inl hkept => rw [hkept.1, hkept.2, hst]
      | inr hnew =>
        rw [hnew.2.1, hnew.2.2, List.map_append, ← hst]
        simp [pending, hnew.1]
    · obtain ⟨_, _, hlog, hrec, hpend⟩ :=
        step_rx h (fun b hb => harrive ⟨b, hb⟩) (fun tmp htmp => hirq ⟨tmp, htmp⟩)
      rw [hlog, hrec, hpend, hst]

/-- What is broken stays broken. -/
theorem step_broken {s s' : State} {e : Event} (hs : Sane s) (hb : Broken s)
    (h : step s e s') : Broken s' := by
  by_cases hirq : ∃ tmp, e = .usartIrq tmp
  · obtain ⟨tmp, rfl⟩ := hirq
    obtain ⟨_, hrec, hcases⟩ := handler_cases hs (handler_of_step h)
    have hgrow : ∀ entry, s'.rx.log = s.rx.log ++ [entry] →
        (∃ b, (Origin.stack, b) ∈ s.rx.log) → Broken s' := by
      intro entry hlog hstack
      obtain ⟨b, hb⟩ := hstack
      left
      rw [hlog]
      exact ⟨b, List.mem_append_left _ hb⟩
    have hkeep : s'.rx.log = s.rx.log → s'.rx.rxne = false → Broken s' := by
      intro hlog hrxne
      cases hb with
      | inl hstack => left; rw [hlog]; exact hstack
      | inr hlen =>
        right
        rw [hrec, hlog]
        simp only [pending, hrxne, Bool.false_eq_true, ↓reduceIte, List.length_nil]
        omega
    obtain ⟨_, hlog, hrxne⟩ | ⟨_, hrxne, _, hlog, hrxne'⟩ | ⟨_, _, _, hlog⟩ |
      ⟨_, hlog, hrxne⟩ := hcases
    · exact hkeep hlog hrxne
    · cases hb with
      | inl hstack => exact hgrow _ hlog hstack
      | inr hlen =>
        right
        rw [hrec, hlog]
        simp only [pending, hrxne, hrxne', ↓reduceIte, List.length_append, List.length_singleton,
          List.length_nil, Bool.false_eq_true] at hlen ⊢
        omega
    · left
      rw [hlog]
      exact ⟨tmp, List.mem_append_right _ (List.mem_singleton_self _)⟩
    · exact hkeep hlog hrxne
  · by_cases harrive : ∃ b, e = .arrive b
    · obtain ⟨b, rfl⟩ := harrive
      obtain ⟨hlog, _, hcase⟩ := arrive_received s.rx b
      cases h
      unfold Broken at hb ⊢
      simp only
      rw [hlog]
      cases hcase with
      | inl hkept => rw [hkept.1, hkept.2]; exact hb
      | inr hnew =>
        rw [hnew.2.1, hnew.2.2]
        simp only [pending, hnew.1, Bool.false_eq_true, ↓reduceIte, List.length_nil] at hb
        simp only [List.length_append, List.length_singleton]
        exact hb.imp_right fun hlen => by omega
    · obtain ⟨_, _, hlog, hrec, hpend⟩ :=
        step_rx h (fun b hb => harrive ⟨b, hb⟩) (fun tmp htmp => hirq ⟨tmp, htmp⟩)
      unfold Broken
      rw [hlog, hrec, hpend]
      exact hb

theorem sane_initial : Sane initial := ⟨rfl, holds_zero⟩

theorem run_sane {events : List Event} {s : State} (hrun : Runs step initial events s) : Sane s :=
  hrun.invariant (fun _ s => Sane s) sane_initial fun hs h => step_sane hs h

/-- Every run either met the condition at each step and kept every byte, or did
not and is broken. -/
theorem run_cases {events : List Event} {s : State} (hrun : Runs step initial events s) :
    (Runs (restrict Undisturbed step) initial events s ∧ Stored s) ∨
      (¬ Runs (restrict Undisturbed step) initial events s ∧ Broken s) := by
  induction hrun with
  | init => exact .inl ⟨.init, rfl⟩
  | @snoc events s e s' hrun h ih =>
    have hs := run_sane hrun
    have hlast : Runs (restrict Undisturbed step) initial (events ++ [e]) s' →
        Runs (restrict Undisturbed step) initial events s ∧ Undisturbed s e := by
      intro hall
      obtain ⟨t, ht, hcond, _⟩ := hall.snoc_inv
      obtain rfl := hrun.unique step_unique ht.of_restrict
      exact ⟨ht, hcond⟩
    cases ih with
    | inl hkept =>
      obtain ⟨hall, hst⟩ := hkept
      obtain ⟨hgood, hbad⟩ := step_stored_iff hs hst h
      by_cases hu : Undisturbed s e
      · exact .inl ⟨hall.snoc ⟨hu, h⟩, hgood hu⟩
      · exact .inr ⟨fun hall' => hu (hlast hall').2, hbad hu⟩
    | inr hlost =>
      obtain ⟨hall, hb⟩ := hlost
      exact .inr ⟨fun hall' => hall (hlast hall').1, step_broken hs hb h⟩

/-- A run has kept every received byte, and nothing else, exactly when each of
its receive interrupts found the lock free and no overrun; and the frame is
always what was appended. -/
theorem run_stored_iff {events : List Event} {s : State} (hrun : Runs step initial events s) :
    Holds s.rx.frame (s.rx.log.map Prod.snd) ∧
      (Stored s ↔ Runs (restrict Undisturbed step) initial events s) := by
  refine ⟨(run_sane hrun).frame, ?_⟩
  cases run_cases hrun with
  | inl hkept => exact ⟨fun _ => hkept.1, fun _ => hkept.2⟩
  | inr hlost => exact ⟨fun hst => absurd hlost.2 hst.not_broken, fun hall => absurd hall hlost.1⟩

/-- The handler is entered between the lock and the unlock of a call that sends
"AT": a byte of its stack goes into the frame. -/
theorem receive_while_locked :
    ∃ s, Runs step initial
      ([.call ⟨[0x41, 0x54], by decide, by decide, by decide⟩] ++ List.replicate 7 .thread ++
        [.arrive 0x7b, .usartIrq 0xa5]) s ∧
      s.rx.log = [(.stack, 0xa5)] ∧ s.rx.received = [0x7b] ∧ ¬ Stored s := by
  refine ⟨_, run_runs rfl, rfl, rfl, fun h => h.not_broken (.inl ⟨0xa5, ?_⟩)⟩
  exact List.mem_singleton_self _

/-- Bytes received before the lock and behind the unlock of such a call are kept. -/
theorem run_stored_arrive :
    ∃ s, Runs step initial
        ([.call ⟨[0x41, 0x54], by decide, by decide, by decide⟩] ++ List.replicate 4 .thread ++
          [.arrive 0x7b, .usartIrq 0xa5] ++ List.replicate 14 .thread ++
          [.arrive 0x7d, .usartIrq 0xa5]) s ∧
      s.thread = .setDmat ∧ s.rx.received = [0x7b, 0x7d] ∧
      Holds s.rx.frame (s.rx.log.map Prod.snd) ∧ Stored s := by
  have hrun : Runs (restrict Undisturbed step) initial
      ([.call ⟨[0x41, 0x54], by decide, by decide, by decide⟩] ++ List.replicate 4 .thread ++
        [.arrive 0x7b, .usartIrq 0xa5] ++ List.replicate 14 .thread ++
        [.arrive 0x7d, .usartIrq 0xa5]) _ := .of_checked rfl
  obtain ⟨hframe, hstored⟩ := run_stored_iff hrun.of_restrict
  exact ⟨_, hrun.of_restrict, rfl, rfl, hframe, hstored.mpr hrun⟩

end StmGateway.Uart.Receive
