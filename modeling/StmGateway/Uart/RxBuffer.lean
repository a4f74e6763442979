import StmGateway.Lib.CString
import StmGateway.Lib.Runs

/-!
# The receive frame of USART3

`g_uart_rx_frame` of `cubemx/Src/usart.c`, with the parts of `USART3_IRQHandler`
that write it and the functions the threads call. A store outside `buf` is
`none`. The threads and the interrupt handler meet statement by statement:
`atk_ide01_uart_rx_restart` is two stores, and anything may happen in between.
-/
namespace StmGateway.Uart.RxBuffer

open StmGateway.Lib

def atkIde01UartRxBufSize : Nat := 2048

/-- `len` and `finsh` are the bit fields of `sta`, 15 bits and one bit. -/
structure RxFrame where
  buf : Nat → UInt8
  len : Nat
  finsh : Bool

/-- The zero-initialised frame. -/
def zero : RxFrame := ⟨fun _ => 0, 0, false⟩

def RxFrame.store (f : RxFrame) (i : Nat) (b : UInt8) : Option RxFrame :=
  if i < atkIde01UartRxBufSize then some { f with buf := Function.update f.buf i b } else none

/-- `sta.len++` in its bit field. -/
def RxFrame.incLen (f : RxFrame) : RxFrame := { f with len := (f.len + 1) % 2 ^ 15 }

/-- The RXNE branch of `USART3_IRQHandler`, with the byte it stores. -/
def rxAppend (f : RxFrame) (tmp : UInt8) : Option RxFrame :=
  if f.len < atkIde01UartRxBufSize - 1 then do
    let f ← f.store f.len tmp
    return f.incLen
  else do
    let f := { f with len := 0 }
    let f ← f.store f.len tmp
    return f.incLen

/-- The IDLE branch of `USART3_IRQHandler`. -/
def rxIdle (f : RxFrame) : RxFrame := { f with finsh := true }

/-- First statement of `atk_ide01_uart_rx_restart`. -/
def restartLen (f : RxFrame) : RxFrame := { f with len := 0 }

/-- Second statement of `atk_ide01_uart_rx_restart`. -/
def restartFinsh (f : RxFrame) : RxFrame := { f with finsh := false }

/-- `atk_ide01_uart_rx_get_frame`: whether a frame is returned, and the buffer
with its terminator written. -/
def atkIde01UartRxGetFrame (f : RxFrame) : Option (Bool × RxFrame) :=
  if f.finsh then do
    let f ← f.store f.len 0
    return (true, f)
  else
    return (false, f)

/-- `atk_ide01_uart_rx_restart`, its two statements at once. -/
def atkIde01UartRxRestart (f : RxFrame) : RxFrame := restartFinsh (restartLen f)

/-- `atk_ide01_uart_rx_get_frame_len`. -/
def atkIde01UartRxGetFrameLen (f : RxFrame) : Nat := if f.finsh then f.len else 0

/-- The bytes of the frame, as far as `len` says. -/
def RxFrame.bytes (f : RxFrame) : List UInt8 := (List.range f.len).map f.buf

/-- The text at the front of the buffer, as C reads it. -/
def RxFrame.text (f : RxFrame) : List UInt8 := cString f.buf atkIde01UartRxBufSize 0

def Terminated (f : RxFrame) : Prop := f.buf f.len = 0

inductive Event where
  | byte (b : UInt8)
  | idle
  | restartLen
  | restartFinsh
  | getFrame

def step (f : RxFrame) : Event → Option RxFrame
  | .byte b => rxAppend f b
  | .idle => some (rxIdle f)
  | .restartLen => some (restartLen f)
  | .restartFinsh => some (restartFinsh f)
  | .getFrame => (atkIde01UartRxGetFrame f).map Prod.snd

/-- The bytes appended since `len` was last zeroed by a restart. -/
def received (since : List UInt8) : Event → List UInt8
  | .byte b => since ++ [b]
  | .restartLen => []
  | _ => since

/-- How far `n` bytes fill the buffer, which wraps to its front when full. -/
def fill (n : Nat) : Nat := if n = 0 then 0 else (n - 1) % (atkIde01UartRxBufSize - 1) + 1

theorem fill_le (n : Nat) : fill n ≤ n ∧ fill n ≤ 2047 := by
  unfold fill atkIde01UartRxBufSize
  split
  · omega
  · have := Nat.mod_le (n - 1) 2047
    have := Nat.mod_lt (n - 1) (show 0 < 2047 by decide)
    omega

theorem fill_succ (n : Nat) : fill (n + 1) = if fill n < 2047 then fill n + 1 else 1 := by
  unfold fill atkIde01UartRxBufSize
  split
  · omega
  · by_cases hn : n = 0
    · subst hn; simp
    · rw [if_neg hn]
      split <;> omega

/-- The frame after the bytes `since`: the length they give, the last of them
in the buffer, and a last cell that is never written with anything but zero. -/
structure Holds (f : RxFrame) (since : List UInt8) : Prop where
  len_eq : f.len = fill since.length
  last : f.buf 2047 = 0
  contents : ∀ i < f.len, since[since.length - f.len + i]? = some (f.buf i)

theorem holds_zero : Holds zero [] := by
  constructor
  · rfl
  · rfl
  · intro i hi; simp [zero] at hi

theorem Holds.len_le {f : RxFrame} {since : List UInt8} (h : Holds f since) :
    f.len ≤ since.length ∧ f.len ≤ 2047 := by
  rw [h.len_eq]
  exact fill_le _

/-- Appending a byte behind the ones in the buffer, or at its front when full. -/
theorem append_holds {f : RxFrame} {since : List UInt8} (h : Holds f since) (b : UInt8) :
    ∃ f', rxAppend f b = some f' ∧ Holds f' (since ++ [b]) ∧ f'.finsh = f.finsh := by
  obtain ⟨hle, hle'⟩ := h.len_le
  by_cases hroom : f.len < 2047
  · refine ⟨{ f with buf := Function.update f.buf f.len b, len := f.len + 1 }, ?_, ?_, rfl⟩
    · have hlt : f.len < 2048 := by omega
      have hlt' : f.len + 1 < 32768 := by omega
      simp [rxAppend, RxFrame.store, atkIde01UartRxBufSize, RxFrame.incLen, hroom, hlt, hlt']
    · constructor
      · rw [List.length_append, List.length_singleton, fill_succ, ← h.len_eq, if_pos hroom]
      · change Function.update f.buf f.len b 2047 = 0
        rw [Function.update_of_ne (by omega)]
        exact h.last
      · intro i hi
        simp only [List.length_append, List.length_singleton] at hi ⊢
        by_cases hlast : i = f.len
        · subst hlast
          rw [Function.update_self, show since.length + 1 - (f.len + 1) + f.len = since.length by omega]
          simp
        · rw [Function.update_of_ne hlast, List.getElem?_append_left (by omega),
            show since.length + 1 - (f.len + 1) + i = since.length - f.len + i by omega]
          exact h.contents i (by omega)
  · refine ⟨{ f with buf := Function.update f.buf 0 b, len := 1 }, ?_, ?_, rfl⟩
    · simp [rxAppend, RxFrame.store, atkIde01UartRxBufSize, RxFrame.incLen, hroom]
    · constructor
      · rw [List.length_append, List.length_singleton, fill_succ, ← h.len_eq, if_neg hroom]
      · change Function.update f.buf 0 b 2047 = 0
        rw [Function.update_of_ne (by decide)]
        exact h.last
      · intro i hi
        simp only at hi
        obtain rfl : i = 0 := by omega
        simp

/-- The terminator goes behind the bytes of the frame. -/
theorem terminate_holds {f : RxFrame} {since : List UInt8} (h : Holds f since) :
    ∃ f', f.store f.len 0 = some f' ∧ Holds f' since ∧ f'.len = f.len ∧ f'.finsh = f.finsh ∧
      Terminated f' := by
  obtain ⟨_, hle⟩ := h.len_le
  refine ⟨{ f with buf := Function.update f.buf f.len 0 }, ?_, ?_, rfl, rfl,
    Function.update_self _ _ _⟩
  · simp [RxFrame.store, atkIde01UartRxBufSize, show f.len < 2048 by omega]
  · constructor
    · exact h.len_eq
    · by_cases hfull : f.len = 2047
      · simp only [hfull, Function.update_self]
      · change Function.update f.buf f.len 0 2047 = 0
        rw [Function.update_of_ne (Ne.symm hfull)]
        exact h.last
    · intro i hi
      change i < f.len at hi
      change since[since.length - f.len + i]? = some (Function.update f.buf f.len 0 i)
      rw [Function.update_of_ne (by omega)]
      exact h.contents i hi

theorem getFrame_finished {f f' : RxFrame} (hf : f.finsh = true) (hstore : f.store f.len 0 = some f') :
    atkIde01UartRxGetFrame f = some (true, f') := by
  rw [atkIde01UartRxGetFrame, if_pos hf, hstore]
  rfl

theorem getFrame_unfinished {f : RxFrame} (hf : f.finsh = false) :
    atkIde01UartRxGetFrame f = some (false, f) := by
  rw [atkIde01UartRxGetFrame, hf]
  rfl

theorem getFrame_holds {f : RxFrame} {since : List UInt8} (h : Holds f since) :
    ∃ f', atkIde01UartRxGetFrame f = some (f.finsh, f') ∧ Holds f' since ∧ f'.len = f.len ∧
      f'.finsh = f.finsh := by
  cases hf : f.finsh with
  | false => exact ⟨f, getFrame_unfinished hf, h, rfl, hf⟩
  | true =>
    obtain ⟨f', hstore, hholds, hlen, hfinsh, _⟩ := terminate_holds h
    exact ⟨f', getFrame_finished hf hstore, hholds, hlen, hfinsh.trans hf⟩

/-- A finished frame is returned with its terminator. -/
theorem getFrame_terminates {f : RxFrame} {since : List UInt8} (h : Holds f since)
    (hf : f.finsh = true) :
    ∃ f', atkIde01UartRxGetFrame f = some (true, f') ∧ Holds f' since ∧ f'.finsh = true ∧
      Terminated f' := by
  obtain ⟨f', hstore, hholds, _, hfinsh, hterm⟩ := terminate_holds h
  exact ⟨f', getFrame_finished hf hstore, hholds, hfinsh.trans hf, hterm⟩

theorem fill_of_le {n : Nat} (h : n ≤ 2047) : fill n = n := by
  unfold fill atkIde01UartRxBufSize
  split
  · omega
  · rw [Nat.mod_eq_of_lt (by omega)]
    omega

/-- A terminated frame reads back as the bytes that came in. -/
theorem Holds.text_eq {f : RxFrame} {since : List UInt8} (h : Holds f since) (hterm : Terminated f)
    (hnul : 0 ∉ since) (hle : since.length ≤ 2047) : f.text = since := by
  have hlen : f.len = since.length := by rw [h.len_eq, fill_of_le hle]
  apply cString_eq since _ 0 hnul
  · unfold atkIde01UartRxBufSize
    omega
  · intro j hj
    have := h.contents j (by omega)
    rw [hlen, Nat.sub_self, Nat.zero_add] at this
    rw [this, Nat.zero_add]
  · rw [Nat.zero_add, ← hlen]
    exact hterm

/-- One step: it is defined, and it keeps the frame in line with what arrived. -/
theorem step_holds {f : RxFrame} {since : List UInt8} (h : Holds f since) (e : Event) :
    ∃ f', step f e = some f' ∧ Holds f' (received since e) := by
  cases e with
  | byte b =>
    obtain ⟨f', he, h', _⟩ := append_holds h b
    exact ⟨f', he, h'⟩
  | idle => exact ⟨_, rfl, h.len_eq, h.last, h.contents⟩
  | restartLen =>
    refine ⟨_, rfl, rfl, h.last, fun i hi => ?_⟩
    simp [StmGateway.Uart.RxBuffer.restartLen] at hi
  | restartFinsh => exact ⟨_, rfl, h.len_eq, h.last, h.contents⟩
  | getFrame =>
    obtain ⟨f', he, h', _⟩ := getFrame_holds h
    exact ⟨f', by simp [step, he], h'⟩

theorem Holds.bytes_eq {f : RxFrame} {since : List UInt8} (h : Holds f since) :
    f.bytes = since.drop (since.length - f.len) := by
  obtain ⟨hle, _⟩ := h.len_le
  apply List.ext_getElem?
  intro i
  rw [List.getElem?_drop]
  by_cases hi : i < f.len
  · rw [h.contents i hi]
    simp [RxFrame.bytes, hi]
  · rw [List.getElem?_eq_none (by simp [RxFrame.bytes]; omega),
      List.getElem?_eq_none (by omega)]

/-- After any events from the zeroed frame no store missed the buffer, the last
cell is zero, so a scan for NUL ends inside, and the frame holds the last of the
bytes that arrived since its length was zeroed. -/
theorem run_holds (events : List Event) :
    ∃ f, events.foldlM step zero = some f ∧ f.len ≤ 2047 ∧ f.buf 2047 = 0 ∧
      (∀ i < atkIde01UartRxBufSize, ∃ j, i ≤ j ∧ j < atkIde01UartRxBufSize ∧ f.buf j = 0) ∧
      f.len = fill (events.foldl received []).length ∧
      f.bytes = (events.foldl received []).drop ((events.foldl received []).length - f.len) := by
  have hrun : ∃ f, events.foldlM step zero = some f ∧ Holds f (events.foldl received []) := by
    induction events using List.reverseRecOn with
    | nil => exact ⟨zero, rfl, holds_zero⟩
    | append_singleton events e ih =>
      obtain ⟨f, he, h⟩ := ih
      obtain ⟨f', he', h'⟩ := step_holds h e
      refine ⟨f', ?_, ?_⟩
      · rw [List.foldlM_append, he]
        simpa using he'
      · rw [List.foldl_append]
        exact h'
  obtain ⟨f, he, h⟩ := hrun
  refine ⟨f, he, h.len_le.2, h.last, fun i hi => ⟨2047, ?_, by decide, h.last⟩, h.len_eq,
    h.bytes_eq⟩
  unfold atkIde01UartRxBufSize at hi
  omega

end StmGateway.Uart.RxBuffer
