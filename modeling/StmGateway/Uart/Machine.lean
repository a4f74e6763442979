import StmGateway.Lib.CString
import StmGateway.Uart.RxBuffer

/-!
# USART3 with its transmit DMA stream

`atk_ide01_uart_printf` and the two interrupt handlers of `cubemx/Src/usart.c`,
with `HAL_UART_Transmit_DMA`, `HAL_UART_Receive` and `HAL_DMA_Start_IT` as the
HAL has them. A thread executes the call statement by statement, one access to
shared data each, so that an interrupt can fall between any two; a handler runs
to its end before the thread goes on. Calls do not overlap.

The registers behave as the reference manual of the part says: the stream's
address and length cannot be written while it is enabled, a byte that arrives
while RXNE is set is lost and sets ORE, and a read of SR followed by a read of
DR clears RXNE, ORE and IDLE.
-/
namespace StmGateway.Uart.Machine

open StmGateway.Lib
open StmGateway.Uart.RxBuffer (RxFrame rxAppend rxIdle zero)

def atkIde01UartTxBufSize : Nat := 2048

inductive HalStatus where
  | ok
  | error
  | busy
  deriving DecidableEq

inductive UartState where
  | ready
  | busyTx
  | busyRx
  deriving DecidableEq

inductive DmaState where
  | ready
  | busy
  deriving DecidableEq

/-- `huart3`; `lock` is `Lock == HAL_LOCKED`. -/
structure Huart where
  gState : UartState
  rxState : UartState
  lock : Bool

/-- `hdma_usart3_tx`; `halfCplt` is `XferHalfCpltCallback != NULL`. -/
structure Hdma where
  state : DmaState
  lock : Bool
  halfCplt : Bool

/-- DMA1 stream 3: `size` bytes of the buffer to transfer, `pos` of them done,
and the interrupts it enables and raises. -/
structure Stream where
  enabled : Bool
  size : Nat
  pos : Nat
  tcie : Bool
  htie : Bool
  feie : Bool
  tcif : Bool
  htif : Bool
  feif : Bool

/-- Where a byte the receive handler stores comes from: the data register, or
whatever was on the stack. -/
inductive Origin where
  | dr
  | stack
  deriving DecidableEq

/-- The receive registers and frame. `received` and `log` are not part of the
device: the bytes that entered the data register, and the bytes the handler
appended to the frame. -/
structure Receiver where
  dr : UInt8
  rxne : Bool
  ore : Bool
  idle : Bool
  frame : RxFrame
  received : List UInt8
  log : List (Origin × UInt8)

/-- The statement of `atk_ide01_uart_printf` a thread is at, inside
`rt_vsprintf`, `HAL_UART_Transmit_DMA` or `HAL_DMA_Start_IT`. -/
inductive Thread where
  | idle
  | vsprintf (rest : List UInt8) (i : Nat)
  | strlen
  | checkGState (len : Nat)
  | checkLock (len : Nat)
  | setLock (len : Nat)
  | setBusyTx (len : Nat)
  | setCallbacks (len : Nat)
  | dmaCheckLock (len : Nat)
  | dmaSetLock (len : Nat)
  | dmaCheckState (len : Nat)
  | dmaSetBusy (len : Nat)
  | dmaSetConfig (len : Nat)
  | dmaClearFlags (len : Nat)
  | dmaEnableIt (len : Nat)
  | dmaEnable (len : Nat)
  | dmaUnlock
  | unlock
  | setDmat

/-- `sent` is what left on the line. -/
structure State where
  huart : Huart
  hdma : Hdma
  stream : Stream
  dmat : Bool
  txBuf : Nat → UInt8
  thread : Thread
  sent : List UInt8
  rx : Receiver

/-- After `MX_USART3_UART_Init`. -/
def initial : State where
  huart := ⟨.ready, .ready, false⟩
  hdma := ⟨.ready, false, false⟩
  stream := ⟨false, 0, 0, false, false, false, false, false, false⟩
  dmat := false
  txBuf := fun _ => 0
  thread := .idle
  sent := []
  rx := ⟨0, false, false, false, zero, [], []⟩

/-- `rt_strlen` of the transmit buffer; a scan that leaves it is `none`. -/
def rtStrlen (buf : Nat → UInt8) : Option Nat := scanNul buf atkIde01UartTxBufSize 0

/-- A byte stored in `g_uart_tx_buf`. -/
def State.storeTx (s : State) (i : Nat) (b : UInt8) (next : Thread) : Option State :=
  if i < atkIde01UartTxBufSize then
    some { s with txBuf := Function.update s.txBuf i b, thread := next }
  else
    none

/-- `DMA_SetConfig`. -/
def Stream.setConfig (st : Stream) (len : Nat) : Stream :=
  if st.enabled then st else { st with size := len, pos := 0 }

/-- The next statement of the call in progress. The status of
`HAL_UART_Transmit_DMA` and that of `HAL_DMA_Start_IT` are dropped. -/
def threadStep (s : State) : Option State :=
  match s.thread with
  | .idle => none
  | .vsprintf [] i => s.storeTx i 0 .strlen
  | .vsprintf (b :: rest) i => s.storeTx i b (.vsprintf rest (i + 1))
  | .strlen => do
    let n ← rtStrlen s.txBuf
    return { s with thread := .checkGState (n % 2 ^ 16) }
  | .checkGState len =>
    if s.huart.gState = .ready then
      if len = 0 then some { s with thread := .idle } else some { s with thread := .checkLock len }
    else
      some { s with thread := .idle }
  | .checkLock len =>
    if s.huart.lock then some { s with thread := .idle } else some { s with thread := .setLock len }
  | .setLock len =>
    some { s with huart := { s.huart with lock := true }, thread := .setBusyTx len }
  | .setBusyTx len =>
    some { s with huart := { s.huart with gState := .busyTx }, thread := .setCallbacks len }
  | .setCallbacks len =>
    some { s with hdma := { s.hdma with halfCplt := true }, thread := .dmaCheckLock len }
  | .dmaCheckLock len =>
    if s.hdma.lock then some { s with thread := .unlock }
    else some { s with thread := .dmaSetLock len }
  | .dmaSetLock len =>
    some { s with hdma := { s.hdma with lock := true }, thread := .dmaCheckState len }
  | .dmaCheckState len =>
    if s.hdma.state = .ready then some { s with thread := .dmaSetBusy len }
    else some { s with thread := .dmaUnlock }
  | .dmaSetBusy len =>
    some { s with hdma := { s.hdma with state := .busy }, thread := .dmaSetConfig len }
  | .dmaSetConfig len =>
    some { s with stream := s.stream.setConfig len, thread := .dmaClearFlags len }
  | .dmaClearFlags len =>
    some { s with
      stream := { s.stream with tcif := false, htif := false, feif := false }
      thread := .dmaEnableIt len }
  | .dmaEnableIt len =>
    some { s with
      stream := { s.stream with
        tcie := true, feie := true, htie := s.stream.htie || s.hdma.halfCplt }
      thread := .dmaEnable len }
  | .dmaEnable _ =>
    some { s with stream := { s.stream with enabled := true }, thread := .unlock }
  | .dmaUnlock => some { s with hdma := { s.hdma with lock := false }, thread := .unlock }
  | .unlock => some { s with huart := { s.huart with lock := false }, thread := .setDmat }
  | .setDmat => some { s with dmat := true, thread := .idle }

/-- The stream moves one byte of the buffer to the line, and stops after the last. -/
def dmaRead (s : State) : Option State :=
  if s.stream.enabled ∧ s.dmat ∧ s.stream.pos < s.stream.size then
    let pos := s.stream.pos + 1
    some { s with
      sent := s.sent ++ [s.txBuf s.stream.pos]
      stream := { s.stream with
        pos := pos
        htif := s.stream.htif || pos = s.stream.size / 2
        tcif := s.stream.tcif || pos = s.stream.size
        enabled := pos ≠ s.stream.size } }
  else
    none

def Stream.irqPending (st : Stream) : Bool :=
  (st.tcie && st.tcif) || (st.htie && st.htif) || (st.feie && st.feif)

/-- `DMA1_Stream3_IRQHandler`. -/
def dma1Stream3IrqHandler (s : State) : State :=
  { s with
    huart := { s.huart with gState := .ready }
    hdma := { s.hdma with state := .ready, lock := false }
    stream := { s.stream with tcif := false, htif := false, feif := false } }

/-- A byte has come in from the line. -/
def Receiver.arrive (rx : Receiver) (b : UInt8) : Receiver :=
  if rx.rxne then { rx with ore := true }
  else { rx with dr := b, rxne := true, received := rx.received ++ [b] }

/-- What a read of SR and then DR leaves set. -/
def Receiver.readSrDr (rx : Receiver) : Receiver :=
  { rx with rxne := false, ore := false, idle := false }

/-- `HAL_UART_Receive` of one byte into `pData`, with no timeout: it waits for
ever when nothing has been received. -/
def halUartReceive (huart : Huart) (rx : Receiver) (pData : UInt8) :
    Option (HalStatus × UInt8 × Huart × Receiver) :=
  if huart.rxState = .ready then
    if huart.lock then
      some (.busy, pData, huart, rx)
    else
      let huart := { huart with lock := true, rxState := .busyRx }
      if rx.rxne then
        some (.ok, rx.dr, { huart with rxState := .ready, lock := false }, rx.readSrDr)
      else
        none
  else
    some (.busy, pData, huart, rx)

/-- The origin of what is in `tmp` after `HAL_UART_Receive`. -/
def HalStatus.origin : HalStatus → Origin
  | .ok => .dr
  | _ => .stack

/-- `USART3_IRQHandler`; `tmp` is the local variable, which nothing sets. -/
def usart3IrqHandler (s : State) (tmp : UInt8) : Option State := do
  let rx := if s.rx.ore then s.rx.readSrDr else s.rx
  let (huart, rx) ←
    if rx.rxne then do
      let (status, tmp, huart, rx) ← halUartReceive s.huart rx tmp
      let frame ← rxAppend rx.frame tmp
      pure (huart, { rx with frame := frame, log := rx.log ++ [(status.origin, tmp)] })
    else
      pure (s.huart, rx)
  let rx :=
    if rx.idle then { rx with frame := rxIdle rx.frame }.readSrDr
    else rx
  return { s with huart := huart, rx := rx }

/-- A formatted text: it fits the buffer with its terminator. -/
structure Text where
  bytes : List UInt8
  ne_nil : bytes ≠ []
  length_lt : bytes.length < atkIde01UartTxBufSize
  no_nul : 0 ∉ bytes

/-- A call of `atk_ide01_uart_printf`, its next statement, what the stream and
the line do, and the interrupts. -/
inductive Event where
  | call (text : Text)
  | thread
  | dmaRead
  | fifoError
  | dmaIrq
  | arrive (b : UInt8)
  | lineIdle
  | usartIrq (tmp : UInt8)

def next (s : State) : Event → Option State
  | .call text =>
    match s.thread with
    | .idle => some { s with thread := .vsprintf text.bytes 0 }
    | _ => none
  | .thread => threadStep s
  | .dmaRead => dmaRead s
  | .fifoError =>
    if s.stream.enabled then some { s with stream := { s.stream with feif := true } } else none
  | .dmaIrq => if s.stream.irqPending then some (dma1Stream3IrqHandler s) else none
  | .arrive b => some { s with rx := s.rx.arrive b }
  | .lineIdle => some { s with rx := { s.rx with idle := true } }
  | .usartIrq tmp =>
    if s.rx.rxne || s.rx.ore || s.rx.idle then usart3IrqHandler s tmp else none

def step (s : State) (e : Event) (s' : State) : Prop := next s e = some s'

theorem step_unique (s : State) (e : Event) (s₁ s₂ : State) (h₁ : step s e s₁)
    (h₂ : step s e s₂) : s₁ = s₂ :=
  Option.some.inj (h₁.symm.trans h₂)

/-- The events one after the other. -/
def run (events : List Event) : Option State := events.foldlM next initial

theorem run_runs {events : List Event} {s : State} (h : run events = some s) :
    Runs step initial events s :=
  .of_foldlM h

end StmGateway.Uart.Machine
