import StmGateway.Uart.Receive

/-!
# What leaves the transmit buffer

`atk_ide01_uart_printf` formats into `g_uart_tx_buf` before it looks at the
state of the transmitter, and drops what `HAL_UART_Transmit_DMA` answers. The
line carries the texts of all calls, in order and whole, in every run whose
calls neither overwrite a byte the stream has still to read nor find the
transmitter occupied.
-/
namespace StmGateway.Uart.Transmit

open StmGateway.Lib StmGateway.Uart.Machine StmGateway.Uart.Receive

/-- The bytes of the running transfer that the stream has still to read. -/
def inFlight (s : State) : List UInt8 :=
  if s.stream.enabled then slice s.txBuf s.stream.pos (s.stream.size - s.stream.pos) else []

/-- The text of the call in progress, until its transfer is started. -/
def waiting (s : State) : List UInt8 :=
  match s.thread with
  | .vsprintf rest i => slice s.txBuf 0 i ++ rest
  | .strlen => slice s.txBuf 0 ((rtStrlen s.txBuf).getD 0)
  | .checkGState len | .checkLock len | .setLock len | .setBusyTx len | .setCallbacks len
  | .dmaCheckLock len | .dmaSetLock len | .dmaCheckState len | .dmaSetBusy len
  | .dmaSetConfig len | .dmaClearFlags len | .dmaEnableIt len | .dmaEnable len =>
    slice s.txBuf 0 len
  | .idle | .dmaUnlock | .unlock | .setDmat => []

/-- The concatenated texts of the calls. -/
def texts (events : List Event) : List UInt8 :=
  events.flatMap fun
    | .call text => text.bytes
    | _ => []

/-- The next statement of the call overwrites no byte that is still to be sent,
and finds the transmitter free. -/
def Unhindered (s : State) : Thread → Prop
  | .vsprintf _ i => s.stream.enabled = true → i < s.stream.pos ∨ s.stream.size ≤ i
  | .checkGState _ => s.huart.gState = .ready
  | .dmaCheckLock _ => s.hdma.lock = false
  | .dmaCheckState _ => s.hdma.state = .ready
  | .dmaSetConfig _ => s.stream.enabled = false
  | _ => True

def Clear (s : State) : Event → Prop
  | .thread => Unhindered s s.thread
  | _ => True

instance (s : State) : (t : Thread) → Decidable (Unhindered s t)
  | .vsprintf _ i =>
    inferInstanceAs (Decidable (s.stream.enabled = true → i < s.stream.pos ∨ s.stream.size ≤ i))
  | .checkGState _ => inferInstanceAs (Decidable (s.huart.gState = .ready))
  | .dmaCheckLock _ => inferInstanceAs (Decidable (s.hdma.lock = false))
  | .dmaCheckState _ => inferInstanceAs (Decidable (s.hdma.state = .ready))
  | .dmaSetConfig _ => inferInstanceAs (Decidable (s.stream.enabled = false))
  | .idle | .strlen | .checkLock _ | .setLock _ | .setBusyTx _ | .setCallbacks _ | .dmaSetLock _
  | .dmaSetBusy _ | .dmaClearFlags _ | .dmaEnableIt _ | .dmaEnable _ | .dmaUnlock | .unlock
  | .setDmat => .isTrue trivial

instance (s : State) : (e : Event) → Decidable (Clear s e)
  | .thread => inferInstanceAs (Decidable (Unhindered s s.thread))
  | .call _ | .dmaRead | .fifoError | .dmaIrq | .arrive _ | .lineIdle | .usartIrq _ =>
    .isTrue trivial

/-- Between the lock and the unlock of `huart3`. -/
def locked : Thread → Bool
  | .setBusyTx _ | .setCallbacks _ | .dmaCheckLock _ | .dmaSetLock _ | .dmaCheckState _
  | .dmaSetBusy _ | .dmaSetConfig _ | .dmaClearFlags _ | .dmaEnableIt _ | .dmaEnable _
  | .dmaUnlock | .unlock => true
  | _ => false

/-- What the call in progress has in the buffer. -/
def Prepared (t : Thread) (buf : Nat → UInt8) : Prop :=
  match t with
  | .vsprintf rest i => 0 < i + rest.length ∧ i + rest.length < atkIde01UartTxBufSize ∧
      (∀ j < i, buf j ≠ 0) ∧ 0 ∉ rest
  | .strlen => ∃ n, rtStrlen buf = some n ∧ 0 < n ∧ n < atkIde01UartTxBufSize
  | .checkGState len | .checkLock len | .setLock len | .setBusyTx len | .setCallbacks len
  | .dmaCheckLock len | .dmaSetLock len | .dmaCheckState len | .dmaSetBusy len
  | .dmaSetConfig len | .dmaClearFlags len | .dmaEnableIt len | .dmaEnable len => 0 < len
  | .idle | .dmaUnlock | .unlock | .setDmat => True

/-- The length in the stream's registers between `DMA_SetConfig` and the start. -/
def configured : Thread → Option Nat
  | .dmaClearFlags len | .dmaEnableIt len | .dmaEnable len => some len
  | _ => none

structure Intact (sofar : List UInt8) (s : State) : Prop where
  bytes : s.sent ++ inFlight s ++ waiting s = sofar
  prepared : Prepared s.thread s.txBuf
  config : ∀ len, configured s.thread = some len →
    s.stream.enabled = false ∧ s.stream.pos = 0 ∧ s.stream.size = len
  lock_free : locked s.thread = false → s.huart.lock = false
  running : s.stream.enabled = true → s.stream.pos < s.stream.size
  requests : s.stream.enabled = true → s.dmat = true ∨ s.thread = .unlock ∨ s.thread = .setDmat

theorem intact_initial : Intact [] initial := ⟨rfl, trivial, nofun, fun _ => rfl, nofun, nofun⟩

theorem Intact.append_nil {sofar : List UInt8} {s : State} (h : Intact sofar s) :
    Intact (sofar ++ []) s := by
  rw [List.append_nil]
  exact h

/-- Only the transmit side matters. -/
theorem Intact.frame {sofar : List UInt8} {s s' : State} (h : Intact sofar s)
    (hthread : s'.thread = s.thread) (hbuf : s'.txBuf = s.txBuf) (hsent : s'.sent = s.sent)
    (hlock : s'.huart.lock = s.huart.lock) (hdmat : s'.dmat = s.dmat)
    (henabled : s'.stream.enabled = s.stream.enabled) (hpos : s'.stream.pos = s.stream.pos)
    (hsize : s'.stream.size = s.stream.size) : Intact sofar s' := by
  constructor
  · unfold inFlight waiting
    rw [hthread, hbuf, hsent, henabled, hpos, hsize]
    exact h.bytes
  · rw [hthread, hbuf]
    exact h.prepared
  · rw [hthread, henabled, hpos, hsize]
    exact h.config
  · rw [hthread, hlock]
    exact h.lock_free
  · rw [henabled, hpos, hsize]
    exact h.running
  · rw [henabled, hdmat, hthread]
    exact h.requests

/-- Storing a byte the stream does not wait for keeps what is in flight. -/
theorem inFlight_update {s : State} {i : Nat} (b : UInt8) (t : Thread)
    (hc : s.stream.enabled = true → i < s.stream.pos ∨ s.stream.size ≤ i) :
    inFlight { s with txBuf := Function.update s.txBuf i b, thread := t } = inFlight s := by
  unfold inFlight
  cases hen : s.stream.enabled with
  | false => simp
  | true =>
    simp only [↓reduceIte]
    apply slice_update
    have := hc hen
    omega

/-- A byte of the text goes into the buffer. -/
theorem format_intact {sofar : List UInt8} {s s' : State} {b : UInt8} {rest : List UInt8} {i : Nat}
    (h : Intact sofar s) (ht : s.thread = .vsprintf (b :: rest) i)
    (hc : s.stream.enabled = true → i < s.stream.pos ∨ s.stream.size ≤ i)
    (hs : threadStep s = some s') : Intact sofar s' := by
  have hprep := h.prepared
  have hbytes := h.bytes
  simp only [Prepared, ht, List.length_cons, List.mem_cons, not_or] at hprep
  simp only [waiting, ht] at hbytes
  obtain ⟨hpos, hlt, hne, hb, hrest⟩ := hprep
  have hi : i < atkIde01UartTxBufSize := by omega
  simp only [threadStep, ht, State.storeTx, if_pos hi, Option.some.injEq] at hs
  subst hs
  constructor
  · rw [inFlight_update b _ hc]
    simp only [waiting]
    rw [slice_snoc, slice_update b (Or.inr (by omega)), Nat.zero_add, Function.update_self, ← hbytes]
    simp
  · simp only [Prepared]
    refine ⟨by omega, by omega, fun j hj => ?_, hrest⟩
    by_cases hji : j = i
    · subst hji
      rw [Function.update_self]
      exact Ne.symm hb
    · rw [Function.update_of_ne hji]
      exact hne j (by omega)
  · intro _ hlen
    cases hlen
  · intro _
    exact h.lock_free (by rw [ht]; rfl)
  · exact h.running
  · intro hen
    refine Or.inl ((h.requests hen).resolve_right ?_)
    simp [ht]

/-- The terminator goes behind the text. -/
theorem terminate_intact {sofar : List UInt8} {s s' : State} {i : Nat}
    (h : Intact sofar s) (ht : s.thread = .vsprintf [] i)
    (hc : s.stream.enabled = true → i < s.stream.pos ∨ s.stream.size ≤ i)
    (hs : threadStep s = some s') : Intact sofar s' := by
  have hprep := h.prepared
  have hbytes := h.bytes
  simp only [Prepared, ht, List.length_nil, Nat.add_zero] at hprep
  simp only [waiting, ht, List.append_nil] at hbytes
  obtain ⟨hpos, hlt, hne, _⟩ := hprep
  simp only [threadStep, ht, State.storeTx, if_pos hlt, Option.some.injEq] at hs
  subst hs
  have hlen : rtStrlen (Function.update s.txBuf i 0) = some i := by
    refine scanNul_start (Function.update_self _ _ _) (fun j hj => ?_) hlt
    rw [Function.update_of_ne (by omega)]
    exact hne j hj
  constructor
  · rw [inFlight_update 0 _ hc]
    simp only [waiting, hlen, Option.getD_some]
    rw [slice_update 0 (Or.inr (by omega))]
    exact hbytes
  · exact ⟨i, hlen, hpos, hlt⟩
  · exact fun _ => nofun
  · intro _
    exact h.lock_free (by rw [ht]; rfl)
  · exact h.running
  · intro hen
    refine Or.inl ((h.requests hen).resolve_right ?_)
    simp [ht]

theorem Intact.dmat {sofar : List UInt8} {s : State} (h : Intact sofar s)
    (hen : s.stream.enabled = true) (hu : s.thread ≠ .unlock) (hd : s.thread ≠ .setDmat) :
    s.dmat = true := by
  cases h.requests hen with
  | inl hdmat => exact hdmat
  | inr hthread =>
    cases hthread with
    | inl heq => exact absurd heq hu
    | inr heq => exact absurd heq hd

/-- A statement of the call keeps every text whole, where the condition holds. -/
theorem thread_intact {sofar : List UInt8} {s s' : State} (h : Intact sofar s)
    (hc : Clear s .thread) (hs : threadStep s = some s') : Intact sofar s' := by
  obtain ⟨⟨gState, rxState, lock⟩, ⟨dmaState, dmaLock, half⟩, stream, dmat, txBuf, thread, sent,
    rx⟩ := s
  have hdmat := h.dmat
  have hfree := h.lock_free
  have hprep := h.prepared
  simp only [Clear, Unhindered] at hc
  cases thread with
  | idle => cases hs
  | vsprintf rest i =>
    cases rest with
    | nil => exact terminate_intact h rfl hc hs
    | cons b rest => exact format_intact h rfl hc hs
  | strlen =>
    obtain ⟨n, hn, hpos, hlt⟩ := hprep
    have hbytes := h.bytes
    simp only at hn
    simp only [waiting, hn, Option.getD_some] at hbytes
    have hmod : n % 2 ^ 16 = n := Nat.mod_eq_of_lt (by unfold atkIde01UartTxBufSize at hlt; omega)
    simp only [threadStep, hn, Option.bind_eq_bind, Option.bind_some, hmod, Option.pure_def,
      Option.some.injEq] at hs
    subst hs
    exact ⟨hbytes, hpos, fun _ => nofun, hfree, h.running, fun hen => .inl (hdmat hen nofun nofun)⟩
  | checkGState len =>
    have hlen : len ≠ 0 := Nat.pos_iff_ne_zero.mp hprep
    simp only at hc
    simp only [threadStep, hc, hlen, ↓reduceIte, Option.some.injEq] at hs
    subst hs
    exact ⟨h.bytes, hprep, fun _ => nofun, hfree, h.running, fun hen => .inl (hdmat hen nofun nofun)⟩
  | checkLock len =>
    have hlock : lock = false := hfree rfl
    simp only [threadStep, hlock, Bool.false_eq_true, ↓reduceIte, Option.some.injEq] at hs
    subst hs
    exact ⟨h.bytes, hprep, fun _ => nofun, fun _ => rfl, h.running, fun hen => .inl (hdmat hen nofun nofun)⟩
  | setLock len =>
    cases hs
    exact ⟨h.bytes, hprep, fun _ => nofun, nofun, h.running, fun hen => .inl (hdmat hen nofun nofun)⟩
  | setBusyTx len =>
    cases hs
    exact ⟨h.bytes, hprep, fun _ => nofun, nofun, h.running, fun hen => .inl (hdmat hen nofun nofun)⟩
  | setCallbacks len =>
    cases hs
    exact ⟨h.bytes, hprep, fun _ => nofun, nofun, h.running, fun hen => .inl (hdmat hen nofun nofun)⟩
  | dmaCheckLock len =>
    simp only at hc
    simp only [threadStep, hc, Bool.false_eq_true, ↓reduceIte, Option.some.injEq] at hs
    subst hs
    exact ⟨h.bytes, hprep, fun _ => nofun, nofun, h.running, fun hen => .inl (hdmat hen nofun nofun)⟩
  | dmaSetLock len =>
    cases hs
    exact ⟨h.bytes, hprep, fun _ => nofun, nofun, h.running, fun hen => .inl (hdmat hen nofun nofun)⟩
  | dmaCheckState len =>
    simp only at hc
    simp only [threadStep, hc, ↓reduceIte, Option.some.injEq] at hs
    subst hs
    exact ⟨h.bytes, hprep, fun _ => nofun, nofun, h.running, fun hen => .inl (hdmat hen nofun nofun)⟩
  | dmaSetBusy len =>
    cases hs
    exact ⟨h.bytes, hprep, fun _ => nofun, nofun, h.running, fun hen => .inl (hdmat hen nofun nofun)⟩
  | dmaSetConfig len =>
    have hbytes := h.bytes
    simp only at hc
    simp only [threadStep, Stream.setConfig, hc, Bool.false_eq_true, ↓reduceIte,
      Option.some.injEq] at hs
    subst hs
    simp only [inFlight, hc, Bool.false_eq_true, ↓reduceIte, waiting] at hbytes
    refine ⟨?_, hprep, fun _ hlen => ⟨rfl, rfl, Option.some.inj hlen⟩, nofun, nofun, nofun⟩
    simpa only [inFlight, Bool.false_eq_true, ↓reduceIte, waiting] using hbytes
  | dmaClearFlags len =>
    cases hs
    exact ⟨h.bytes, hprep, h.config, nofun, h.running, fun hen => .inl (hdmat hen nofun nofun)⟩
  | dmaEnableIt len =>
    cases hs
    exact ⟨h.bytes, hprep, h.config, nofun, h.running, fun hen => .inl (hdmat hen nofun nofun)⟩
  | dmaEnable len =>
    obtain ⟨hen, hpos, hsize⟩ := h.config len rfl
    have hbytes := h.bytes
    simp only at hen hpos hsize
    simp only [inFlight, hen, Bool.false_eq_true, ↓reduceIte, waiting] at hbytes
    cases hs
    refine ⟨?_, trivial, fun _ => nofun, nofun, fun _ => ?_, fun _ => .inr (.inl rfl)⟩
    · simp only [inFlight, ↓reduceIte, waiting, hpos, hsize, Nat.sub_zero]
      simpa using hbytes
    · simp only [hpos, hsize]
      exact hprep
  | dmaUnlock =>
    cases hs
    exact ⟨h.bytes, trivial, fun _ => nofun, nofun, h.running, fun _ => .inr (.inl rfl)⟩
  | unlock =>
    cases hs
    exact ⟨h.bytes, trivial, fun _ => nofun, fun _ => rfl, h.running, fun _ => .inr (.inr rfl)⟩
  | setDmat =>
    cases hs
    exact ⟨h.bytes, trivial, fun _ => nofun, hfree, h.running, fun _ => .inl rfl⟩

/-- What one byte of a transfer changes. -/
structure Reads (s s' : State) : Prop where
  enabled : s.stream.enabled = true
  dmat : s.dmat = true
  pos_lt : s.stream.pos < s.stream.size
  sent_eq : s'.sent = s.sent ++ [s.txBuf s.stream.pos]
  pos_eq : s'.stream.pos = s.stream.pos + 1
  size_eq : s'.stream.size = s.stream.size
  enabled_eq : s'.stream.enabled = decide (s.stream.pos + 1 ≠ s.stream.size)
  txBuf_eq : s'.txBuf = s.txBuf
  thread_eq : s'.thread = s.thread
  lock_eq : s'.huart.lock = s.huart.lock
  dmat_eq : s'.dmat = s.dmat

theorem dmaRead_reads {s s' : State} (hs : dmaRead s = some s') : Reads s s' := by
  unfold dmaRead at hs
  split at hs
  · next hcond =>
    cases hs
    exact ⟨hcond.1, hcond.2.1, hcond.2.2, rfl, rfl, rfl, rfl, rfl, rfl, rfl, rfl⟩
  · cases hs

theorem Reads.inFlight_eq {s s' : State} (hr : Reads s s') :
    inFlight s = s.txBuf s.stream.pos :: inFlight s' := by
  have hrest : inFlight s' =
      slice s.txBuf (s.stream.pos + 1) (s.stream.size - (s.stream.pos + 1)) := by
    unfold inFlight
    rw [hr.enabled_eq, hr.txBuf_eq, hr.pos_eq, hr.size_eq]
    split
    · rfl
    · next hlast =>
      rw [slice_all]
      simp only [ne_eq, decide_eq_true_eq, not_not] at hlast
      omega
  have hlt := hr.pos_lt
  rw [hrest, inFlight, if_pos hr.enabled, ← slice_succ]
  congr 1
  omega

/-- The stream moves the next byte to the line. -/
theorem Intact.reads {sofar : List UInt8} {s s' : State} (h : Intact sofar s) (hr : Reads s s') :
    Intact sofar s' := by
  constructor
  · have hwait : waiting s' = waiting s := by
      unfold waiting
      rw [hr.thread_eq, hr.txBuf_eq]
    rw [hr.sent_eq, hwait, ← h.bytes, hr.inFlight_eq]
    simp
  · rw [hr.thread_eq, hr.txBuf_eq]
    exact h.prepared
  · intro len hlen
    rw [hr.thread_eq] at hlen
    have hoff := (h.config len hlen).1
    rw [hr.enabled] at hoff
    cases hoff
  · rw [hr.thread_eq, hr.lock_eq]
    exact h.lock_free
  · intro hen
    have hlt := hr.pos_lt
    rw [hr.enabled_eq, decide_eq_true_eq] at hen
    rw [hr.pos_eq, hr.size_eq]
    omega
  · intro _
    rw [hr.dmat_eq]
    exact .inl hr.dmat

/-- Formatting starts with nothing in the buffer and the whole text to come. -/
theorem call_intact {sofar : List UInt8} {s s' : State} {text : Text} (h : Intact sofar s)
    (hs : step s (.call text) s') : Intact (sofar ++ text.bytes) s' := by
  simp only [step, next] at hs
  split at hs
  · next hidle =>
    cases hs
    have hbytes := h.bytes
    simp only [waiting, hidle, List.append_nil] at hbytes
    refine ⟨?_, ?_, fun _ hlen => ?_, fun _ => h.lock_free (by rw [hidle]; rfl), h.running,
      fun hen => ?_⟩
    · rw [← hbytes]
      simp [waiting, slice, inFlight]
    · have := List.length_pos_of_ne_nil text.ne_nil
      have := text.length_lt
      refine ⟨by omega, by omega, ?_, text.no_nul⟩
      intro j hj
      omega
    · cases hlen
    · refine .inl (h.dmat hen ?_ ?_) <;> simp [hidle]
  · cases hs

theorem step_intact {sofar : List UInt8} {s s' : State} {e : Event} (hsane : Sane s)
    (h : Intact sofar s) (hc : Clear s e) (hs : step s e s') : Intact (sofar ++ texts [e]) s' := by
  cases e with
  | call text => simpa [texts] using call_intact h hs
  | thread => exact (thread_intact h hc hs).append_nil
  | dmaRead => exact (h.reads (dmaRead_reads hs)).append_nil
  | fifoError =>
    simp only [step, next] at hs
    split at hs
    · cases hs
      apply Intact.append_nil
      exact h.frame rfl rfl rfl rfl rfl rfl rfl rfl
    · cases hs
  | dmaIrq =>
    simp only [step, next, dma1Stream3IrqHandler] at hs
    split at hs
    · cases hs
      apply Intact.append_nil
      exact h.frame rfl rfl rfl rfl rfl rfl rfl rfl
    · cases hs
  | arrive b =>
    cases hs
    apply Intact.append_nil
    exact h.frame rfl rfl rfl rfl rfl rfl rfl rfl
  | lineIdle =>
    cases hs
    apply Intact.append_nil
    exact h.frame rfl rfl rfl rfl rfl rfl rfl rfl
  | usartIrq tmp =>
    have hframe := handler_frame hsane (handler_of_step hs)
    rw [hframe]
    apply Intact.append_nil
    exact h.frame rfl rfl rfl rfl rfl rfl rfl rfl

theorem texts_append (events : List Event) (e : Event) :
    texts (events ++ [e]) = texts events ++ texts [e] := by
  simp [texts]

theorem run_intact {events : List Event} {s : State}
    (hrun : Runs (restrict Clear step) initial events s) : Intact (texts events) s ∧ Sane s := by
  apply hrun.invariant (fun events s => Intact (texts events) s ∧ Sane s)
    ⟨intact_initial, sane_initial⟩
  intro events s e s' h hstep
  rw [texts_append]
  exact ⟨step_intact h.2 h.1 hstep.1 hstep.2, step_sane h.2 hstep.2⟩

/-- With no call in progress the stream goes on to the end of the text. -/
theorem idle_drains {sofar : List UInt8} {s : State} (h : Intact sofar s)
    (hidle : s.thread = .idle) :
    ∃ s', Runs step s (List.replicate (inFlight s).length .dmaRead) s' ∧ s'.sent = sofar := by
  generalize hn : (inFlight s).length = n
  induction n generalizing s with
  | zero =>
    have hbytes := h.bytes
    rw [List.eq_nil_of_length_eq_zero hn] at hbytes
    simp only [waiting, hidle, List.append_nil] at hbytes
    exact ⟨s, .init, hbytes⟩
  | succ n ih =>
    have hen : s.stream.enabled = true := by
      by_contra hoff
      simp [inFlight, hoff] at hn
    have hdmat := h.dmat hen (by simp [hidle]) (by simp [hidle])
    obtain ⟨t, ht⟩ : ∃ t, dmaRead s = some t := by
      unfold dmaRead
      rw [if_pos ⟨hen, hdmat, h.running hen⟩]
      exact ⟨_, rfl⟩
    have hr := dmaRead_reads ht
    have hlen : (inFlight t).length = n := by
      rw [hr.inFlight_eq, List.length_cons] at hn
      omega
    obtain ⟨s', hrun, hsent⟩ := ih (h.reads hr) (hr.thread_eq.trans hidle) hlen
    exact ⟨s', .cons ht hrun, hsent⟩

/-- At every point of a run whose calls find the transmitter and the buffer
clear, what was sent, what the stream has still to read and what the call in
progress has still to hand over are the texts of all calls, in order; once no
call is in progress the stream sends the rest. -/
theorem run_sent {events : List Event} {s : State}
    (hrun : Runs (restrict Clear step) initial events s) :
    s.sent ++ inFlight s ++ waiting s = texts events ∧
      (s.thread = .idle → ∃ s', Runs step s (List.replicate (inFlight s).length .dmaRead) s' ∧
        s'.sent = texts events) := by
  have h := (run_intact hrun).1
  exact ⟨h.bytes, fun hidle => idle_drains h hidle⟩

/-- A text of one letter. -/
def letter (b : UInt8) (hb : b ≠ 0) : Text where
  bytes := [b]
  ne_nil := List.cons_ne_nil _ _
  length_lt := by simp [atkIde01UartTxBufSize]
  no_nul := by simpa using Ne.symm hb

/-- Two calls in a row: the second text replaces the first in the buffer, and
only one transfer is started. -/
theorem sent_lost :
    ∃ events s, Runs step initial events s ∧ s.thread = .idle ∧ s.stream.enabled = false ∧
      texts events = [0x41, 0x42] ∧ s.sent = [0x42] := by
  refine ⟨[Event.call (letter 0x41 (by decide))] ++ List.replicate 18 Event.thread ++
    [Event.call (letter 0x42 (by decide))] ++ List.replicate 4 Event.thread ++
    [Event.dmaRead, Event.dmaIrq], ?_⟩
  exact ⟨_, run_runs rfl, rfl, rfl, rfl, rfl⟩

/-- A second text is handed over when the first has left and its interrupt is
handled, and its last byte is still to be read. -/
theorem run_sent_call :
    ∃ s, Runs (restrict Clear step) initial
        ([Event.call (letter 0x41 (by decide))] ++ List.replicate 18 Event.thread ++
          [Event.dmaRead, Event.dmaIrq] ++
          [Event.call ⟨[0x42, 0x43], by decide, by decide, by decide⟩] ++
          List.replicate 19 Event.thread ++ [Event.dmaRead, Event.dmaIrq]) s ∧
      s.thread = .idle ∧ s.sent = [0x41, 0x42] ∧ inFlight s = [0x43] ∧
      s.sent ++ inFlight s ++ waiting s = [0x41, 0x42, 0x43] ∧
      ∃ s', Runs step s [Event.dmaRead] s' ∧ s'.sent = [0x41, 0x42, 0x43] := by
  have hrun : Runs (restrict Clear step) initial
      ([Event.call (letter 0x41 (by decide))] ++ List.replicate 18 Event.thread ++
        [Event.dmaRead, Event.dmaIrq] ++
        [Event.call ⟨[0x42, 0x43], by decide, by decide, by decide⟩] ++
        List.replicate 19 Event.thread ++ [Event.dmaRead, Event.dmaIrq]) _ := .of_checked rfl
  obtain ⟨hbytes, hdrains⟩ := run_sent hrun
  exact ⟨_, hrun, rfl, rfl, rfl, hbytes, hdrains rfl⟩

end StmGateway.Uart.Transmit
