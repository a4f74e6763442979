import StmGateway.Uart.Receive

/-!
# What READY says about the transmitter

`DMA1_Stream3_IRQHandler` declares the transmitter free whatever the cause of
its interrupt. `HAL_DMA_Start_IT` enables five causes: beside the half transfer,
the transfer complete and the FIFO error, the transfer error and the direct mode
error, whose flags the handler does not clear. READY means that the transfer is
over in every run whose stream interrupts are handled after the transfer.
-/
namespace StmGateway.Uart.Readiness

open StmGateway.Lib StmGateway.Uart.Machine StmGateway.Uart.Receive

/-- `TEIE` with `DMEIE`, which are set together, `TEIF` and `DMEIF`. -/
structure Errors where
  ie : Bool
  teif : Bool
  dmeif : Bool

/-- USART3 and its stream, with the two errors of the stream. -/
structure System where
  usart : State
  errors : Errors

/-- A transfer error is a bus error and stops the stream; a direct mode error
does not. `errorIrq` is the interrupt of either. -/
inductive Cause where
  | usart (e : Event)
  | transferError
  | directModeError
  | errorIrq

/-- What the statements of `HAL_DMA_Start_IT` do to the errors. -/
def Errors.afterThread (errors : Errors) : Thread → Errors
  | .dmaClearFlags _ => { errors with teif := false, dmeif := false }
  | .dmaEnableIt _ => { errors with ie := true }
  | _ => errors

def Errors.after (errors : Errors) (s : State) : Event → Errors
  | .thread => errors.afterThread s.thread
  | _ => errors

def nextSystem (s : System) : Cause → Option System
  | .usart e => (next s.usart e).map fun usart => ⟨usart, s.errors.after s.usart e⟩
  | .transferError =>
    if s.usart.stream.enabled then
      some ⟨{ s.usart with stream := { s.usart.stream with enabled := false } },
        { s.errors with teif := true }⟩
    else none
  | .directModeError =>
    if s.usart.stream.enabled then some { s with errors := { s.errors with dmeif := true } }
    else none
  | .errorIrq =>
    if s.errors.ie && (s.errors.teif || s.errors.dmeif) then
      some { s with usart := dma1Stream3IrqHandler s.usart }
    else none

def systemStep (s : System) (e : Cause) (s' : System) : Prop := nextSystem s e = some s'

/-- After `MX_USART3_UART_Init`. -/
def powerUp : System := ⟨initial, false, false, false⟩

/-- A transfer out of `g_uart_tx_buf` is in progress: the stream is enabled,
which it is until its last byte or a transfer error. -/
def InProgress (s : State) : Prop := s.stream.enabled = true

/-- What the two callers of the transmitter look at. -/
def Ready (s : State) : Prop := s.huart.gState = .ready ∧ s.hdma.state = .ready

/-- Between `State = HAL_DMA_STATE_BUSY` and the start of the stream. -/
def starting : Thread → Bool
  | .dmaSetConfig _ | .dmaClearFlags _ | .dmaEnableIt _ | .dmaEnable _ => true
  | _ => false

/-- The interrupt is that of a transfer that is over. -/
def AfterTransfer (s : State) : Prop := ¬ InProgress s ∧ starting s.thread = false

/-- The stream's interrupts are handled after the transfer. -/
def Timely (s : System) : Cause → Prop
  | .usart .dmaIrq | .errorIrq => AfterTransfer s.usart
  | _ => True

/-- The stream is busy from the moment `HAL_DMA_Start_IT` says so to its end. -/
def Occupied (s : State) : Prop := InProgress s ∨ starting s.thread = true → s.hdma.state = .busy

theorem occupied_initial : Occupied initial := by
  intro h
  cases h with
  | inl h => cases h
  | inr h => cases h

theorem Occupied.not_ready {s : State} (h : Occupied s) (hready : Ready s) : ¬ InProgress s := by
  intro hrun
  have hbusy := h (Or.inl hrun)
  rw [hready.2] at hbusy
  cases hbusy

/-- The handler says READY of a stream that is off. -/
theorem handler_occupied {s : State} (h : AfterTransfer s) : Occupied (dma1Stream3IrqHandler s) := by
  intro hoccupied
  cases hoccupied with
  | inl hrun => exact absurd hrun h.1
  | inr hstart => exact absurd (hstart.symm.trans h.2) (by decide)

/-- Only the stream's own state and the call's statement matter. -/
theorem Occupied.frame {s s' : State} (h : Occupied s)
    (henabled : s'.stream.enabled = true → s.stream.enabled = true)
    (hthread : starting s'.thread = true → starting s.thread = true)
    (hstate : s'.hdma.state = s.hdma.state) : Occupied s' := by
  intro hoccupied
  rw [hstate]
  apply h
  cases hoccupied with
  | inl hrun => exact Or.inl (henabled hrun)
  | inr hstart => exact Or.inr (hthread hstart)

theorem storeTx_occupied {s s' : State} {i : Nat} {b : UInt8} {t : Thread} (h : Occupied s)
    (ht : starting t = false) (hs : s.storeTx i b t = some s') : Occupied s' := by
  unfold State.storeTx at hs
  split at hs
  · cases hs
    exact h.frame id (fun hstart => absurd (hstart.symm.trans ht) (by decide)) rfl
  · cases hs

/-- `HAL_DMA_Start_IT` starts the stream only after it has set the state to BUSY. -/
theorem threadStep_occupied {s s' : State} (h : Occupied s) (hs : threadStep s = some s') :
    Occupied s' := by
  obtain ⟨huart, ⟨dmaState, dmaLock, half⟩, stream, dmat, txBuf, thread, sent, rx⟩ := s
  cases thread with
  | idle => cases hs
  | vsprintf rest i =>
    cases rest with
    | nil => exact storeTx_occupied h rfl hs
    | cons b rest => exact storeTx_occupied h rfl hs
  | strlen =>
    obtain ⟨n, _, hs⟩ := Option.bind_eq_some_iff.mp hs
    cases hs
    exact h.frame id id rfl
  | checkGState len =>
    simp only [threadStep] at hs
    split_ifs at hs <;> cases hs <;> exact h.frame id id rfl
  | checkLock len | dmaCheckLock len =>
    simp only [threadStep] at hs
    split_ifs at hs <;> cases hs <;> exact h.frame id id rfl
  | dmaCheckState len =>
    simp only [threadStep] at hs
    split_ifs at hs <;> cases hs <;> exact h.frame id id rfl
  | dmaSetBusy len =>
    cases hs
    exact fun _ => rfl
  | dmaSetConfig len =>
    cases hs
    refine fun _ => h (Or.inr rfl)
  | dmaClearFlags len | dmaEnableIt len | dmaEnable len =>
    cases hs
    exact fun _ => h (Or.inr rfl)
  | setLock len | setBusyTx len | setCallbacks len | dmaSetLock len =>
    cases hs
    exact h.frame id id rfl
  | dmaUnlock | unlock | setDmat =>
    cases hs
    exact h.frame id id rfl

theorem dmaRead_occupied {s s' : State} (h : Occupied s) (hs : dmaRead s = some s') :
    Occupied s' := by
  unfold dmaRead at hs
  split at hs
  · next hcond =>
    cases hs
    exact h.frame (fun _ => hcond.1) id rfl
  · cases hs

theorem next_occupied {s s' : State} {e : Event} (hsane : Sane s) (h : Occupied s)
    (hirq : e = .dmaIrq → AfterTransfer s) (hs : next s e = some s') : Occupied s' := by
  cases e with
  | call text =>
    simp only [next] at hs
    split at hs
    · cases hs
      exact h.frame id (fun hstart => by cases hstart) rfl
    · cases hs
  | thread => exact threadStep_occupied h hs
  | dmaRead => exact dmaRead_occupied h hs
  | fifoError =>
    simp only [next] at hs
    split at hs
    · cases hs
      exact h.frame id id rfl
    · cases hs
  | dmaIrq =>
    simp only [next] at hs
    split at hs
    · cases hs
      exact handler_occupied (hirq rfl)
    · cases hs
  | arrive b =>
    cases hs
    exact h.frame id id rfl
  | lineIdle =>
    cases hs
    exact h.frame id id rfl
  | usartIrq tmp =>
    rw [handler_frame hsane (handler_of_step hs)]
    exact h.frame id id rfl

theorem systemStep_occupied {s s' : System} {e : Cause} (hsane : Sane s.usart)
    (h : Occupied s.usart) (hc : Timely s e) (hs : systemStep s e s') :
    Sane s'.usart ∧ Occupied s'.usart := by
  cases e with
  | usart e =>
    obtain ⟨usart, hnext, rfl⟩ := Option.map_eq_some_iff.mp hs
    refine ⟨step_sane hsane hnext, next_occupied hsane h ?_ hnext⟩
    intro he
    subst he
    exact hc
  | transferError =>
    simp only [systemStep, nextSystem] at hs
    split at hs
    · cases hs
      exact ⟨⟨hsane.rxState, hsane.frame⟩, h.frame (fun hrun => by cases hrun) id rfl⟩
    · cases hs
  | directModeError =>
    simp only [systemStep, nextSystem] at hs
    split at hs
    · cases hs
      exact ⟨hsane, h⟩
    · cases hs
  | errorIrq =>
    simp only [systemStep, nextSystem] at hs
    split at hs
    · cases hs
      exact ⟨⟨hsane.rxState, hsane.frame⟩, handler_occupied hc⟩
    · cases hs

theorem run_occupied {events : List Cause} {s : System}
    (hrun : Runs (restrict Timely systemStep) powerUp events s) :
    Sane s.usart ∧ Occupied s.usart :=
  hrun.invariant (fun _ s => Sane s.usart ∧ Occupied s.usart) ⟨sane_initial, occupied_initial⟩
    fun h hs => systemStep_occupied h.1 h.2 hs.1 hs.2

/-- In every run whose stream interrupts are handled after the transfer they
belong to, a transmitter that says READY has no transfer in progress. -/
theorem run_ready {events : List Cause} {s : System}
    (hrun : Runs (restrict Timely systemStep) powerUp events s)
    (hgState : s.usart.huart.gState = .ready) (hstate : s.usart.hdma.state = .ready) :
    ¬ InProgress s.usart :=
  (run_occupied hrun).2.not_ready ⟨hgState, hstate⟩

/-! ## The condition is needed -/

/-- From `DMA_SetConfig` on the call starts the stream whatever the handler does. -/
theorem starting_starts {s : System} (hstart : starting s.usart.thread = true) :
    ∃ n s', Runs systemStep s (List.replicate n (.usart .thread)) s' ∧ InProgress s'.usart ∧
      s'.usart.huart = s.usart.huart ∧ s'.usart.hdma = s.usart.hdma := by
  obtain ⟨⟨huart, hdma, stream, dmat, txBuf, thread, sent, rx⟩, errors⟩ := s
  cases thread with
  | dmaSetConfig len =>
    exact ⟨4, _, .cons rfl (.cons rfl (.cons rfl (.cons rfl .init))), rfl, rfl, rfl⟩
  | dmaClearFlags len => exact ⟨3, _, .cons rfl (.cons rfl (.cons rfl .init)), rfl, rfl, rfl⟩
  | dmaEnableIt len => exact ⟨2, _, .cons rfl (.cons rfl .init), rfl, rfl, rfl⟩
  | dmaEnable len => exact ⟨1, _, .cons rfl .init, rfl, rfl, rfl⟩
  | _ => cases hstart

theorem handler_ready (s : State) : Ready (dma1Stream3IrqHandler s) := ⟨rfl, rfl⟩

/-- Either interrupt of the stream is one call of the handler. -/
theorem untimely_handler {s s' : System} {e : Cause} (hc : ¬ Timely s e) (hs : systemStep s e s') :
    ¬ AfterTransfer s.usart ∧ s'.usart = dma1Stream3IrqHandler s.usart := by
  cases e with
  | usart e =>
    obtain ⟨usart, hnext, rfl⟩ := Option.map_eq_some_iff.mp hs
    cases e with
    | dmaIrq =>
      simp only [next] at hnext
      split at hnext
      · cases hnext
        exact ⟨hc, rfl⟩
      · cases hnext
    | _ => exact absurd trivial hc
  | errorIrq =>
    simp only [systemStep, nextSystem] at hs
    split at hs
    · cases hs
      exact ⟨hc, rfl⟩
    · cases hs
  | _ => exact absurd trivial hc

/-- An interrupt that breaks the condition makes the transmitter say READY of a
transfer in progress, at once or when the call goes on. -/
theorem untimely_ready {s s' : System} {e : Cause} (hc : ¬ Timely s e) (hs : systemStep s e s') :
    ∃ n s'', Runs systemStep s' (List.replicate n (.usart .thread)) s'' ∧
      Ready s''.usart ∧ InProgress s''.usart := by
  obtain ⟨hafter, hhandler⟩ := untimely_handler hc hs
  have hready : Ready s'.usart := by
    rw [hhandler]
    exact handler_ready s.usart
  by_cases hrun : InProgress s.usart
  · refine ⟨0, s', .init, hready, ?_⟩
    rw [hhandler]
    exact hrun
  · have hstart : starting s'.usart.thread = true := by
      rw [hhandler]
      by_contra hnot
      exact hafter ⟨hrun, Bool.eq_false_iff.mpr hnot⟩
    obtain ⟨n, s'', hruns, hprogress, hhuart, hhdma⟩ := starting_starts hstart
    refine ⟨n, s'', hruns, ?_, hprogress⟩
    rw [Ready, hhuart, hhdma]
    exact hready

/-! ## Runs -/

theorem run_runs {events : List Cause} {s : System}
    (h : events.foldlM nextSystem powerUp = some s) : Runs systemStep powerUp events s :=
  .of_foldlM h

/-- The text `AT`: its half transfer interrupt, with one byte still to be read. -/
theorem ready_half_transfer :
    ∃ events s, Runs systemStep powerUp events s ∧ s.usart.huart.gState = .ready ∧
      s.usart.hdma.state = .ready ∧ InProgress s.usart ∧ s.usart.stream.pos = 1 ∧
      s.usart.stream.size = 2 := by
  refine ⟨[Cause.usart (.call ⟨[0x41, 0x54], by decide, by decide, by decide⟩)] ++
    List.replicate 19 (Cause.usart .thread) ++ [Cause.usart .dmaRead, Cause.usart .dmaIrq], ?_⟩
  exact ⟨_, run_runs rfl, rfl, rfl, rfl, rfl, rfl⟩

/-- The same text with its interrupts after the last byte. -/
theorem run_ready_at :
    ∃ events s, Runs (restrict Timely systemStep) powerUp events s ∧
      s.usart.sent = [0x41, 0x54] ∧ ¬ InProgress s.usart := by
  have hsent : Runs systemStep powerUp ([Cause.usart (.call ⟨[0x41, 0x54], by decide, by decide,
      by decide⟩)] ++ List.replicate 19 (Cause.usart .thread) ++
      [Cause.usart .dmaRead, Cause.usart .dmaRead]) _ :=
    run_runs rfl
  have hrun := @Runs.restrict_of_forall _ _ _ _ _ _ Timely hsent (by
    intro e he
    simp only [List.mem_append, List.mem_replicate, List.mem_cons, List.not_mem_nil,
      or_false] at he
    rcases he with (rfl | ⟨_, rfl⟩) | rfl | rfl <;> exact fun _ => trivial)
  have hdone := @Runs.snoc _ _ _ _ _ _ (Cause.usart .dmaIrq) _ hrun
    ⟨⟨Bool.false_ne_true, rfl⟩, rfl⟩
  exact ⟨_, _, hdone, rfl, run_ready hdone rfl rfl⟩

end StmGateway.Uart.Readiness
