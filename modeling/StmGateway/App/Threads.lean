import StmGateway.Lib.Runs
import StmGateway.Rt.Life

/-!
# The application's threads

`led_open`, `led_close`, `usart_net_open` and `mail_deal_open` of
`applications/main.c` on their four static control blocks. Between two commands
the threads run: a ready thread goes to sleep or waits for an object, its timer
wakes it, or another thread does. None of the entry functions returns.
-/
namespace StmGateway.App.Threads

open StmGateway.Lib
open StmGateway.Rt.Object
open StmGateway.Rt.Thread
open StmGateway.Rt.Life

/-- The static control blocks. -/
inductive Block where
  | led0
  | led1
  | usartNet
  | mailDeal
  deriving DecidableEq

/-- A thread: one of the static blocks, or one the kernel and the shell made. -/
inductive Tid where
  | block (b : Block)
  | kernel (n : Nat)
  deriving DecidableEq

/-- `rt_thread_init` and `rt_thread_control` with `RT_THREAD_CTRL_STARTUP`, their
status ignored. -/
def openThread (k : Kernel Tid) (b : Block) (name : String) (priority : UInt8) (tick : Nat) :
    Except String (Kernel Tid) := do
  let (_, k) ← rtThreadInit k (.block b) name priority tick
  let (_, k) ← rtThreadControl k (.block b) .startup
  return k

def closeBlock (k : Kernel Tid) (b : Block) : Except String (Kernel Tid) := do
  let (_, k) ← rtThreadControl k (.block b) .close
  return k

/-- For another `flag` only a message is printed, here and in `led_open`. -/
def ledClose (k : Kernel Tid) (flag : Int) : Except String (Kernel Tid) :=
  if flag = 0 then closeBlock k .led0
  else if flag = 1 then closeBlock k .led1
  else pure k

def ledOpen (k : Kernel Tid) (flag : Int) : Except String (Kernel Tid) :=
  if flag = 0 then openThread k .led0 "led0" 23 20
  else if flag = 1 then openThread k .led1 "led1" 22 20
  else pure k

def usartNetOpen (k : Kernel Tid) : Except String (Kernel Tid) :=
  openThread k .usartNet "usart_net" 12 20

def mailDealOpen (k : Kernel Tid) : Except String (Kernel Tid) :=
  openThread k .mailDeal "mail_deal" 13 20

inductive Command where
  | ledOpen (flag : Int)
  | ledClose (flag : Int)
  | usartNetOpen
  | mailDealOpen

def Command.run (k : Kernel Tid) : Command → Except String (Kernel Tid)
  | .ledOpen flag => Threads.ledOpen k flag
  | .ledClose flag => Threads.ledClose k flag
  | .usartNetOpen => Threads.usartNetOpen k
  | .mailDealOpen => Threads.mailDealOpen k

/-- A command, or what a thread of the application does or has done to it while
it runs: `rt_thread_sleep`, the expiry of its timer, `rt_thread_suspend` and
`rt_thread_resume` of a call that waits for an object. -/
inductive Event where
  | command (c : Command)
  | sleep (b : Block) (tick : Fin (rtTickMax / 2))
  | expire (b : Block)
  | wait (b : Block)
  | wake (b : Block)

/-- A thread that is not ready does nothing, a timer that is not activated does
not expire, and a thread that is not suspended is not woken. -/
def Event.run (k : Kernel Tid) : Event → Except String (Kernel Tid)
  | .command c => c.run k
  | .sleep b tick => do
    if (k.tcb (.block b)).stat &&& threadStatMask ≠ threadReady then
      return k
    let (_, k) ← rtThreadSleep k (.block b) tick
    return k
  | .expire b =>
    if (k.object (.timer (.block b))).flag &&& timerFlagActivated = 0 then pure k
    else rtTimerCheck k (.block b)
  | .wait b => do
    if (k.tcb (.block b)).stat &&& threadStatMask ≠ threadReady then
      return k
    let (_, k) ← rtThreadSuspend k (.block b)
    return k
  | .wake b => do
    if (k.tcb (.block b)).stat &&& threadStatMask ≠ threadSuspend then
      return k
    let (_, k) ← rtThreadResume k (.block b)
    return k

/-- The event returns. -/
def Step (k : Kernel Tid) (e : Event) (k' : Kernel Tid) : Prop := e.run k = .ok k'

/-- Before the first command the block is zero and on no list. -/
structure Zeroed (k : Kernel Tid) (b : Block) : Prop where
  thread : k.object (.thread (.block b)) = ⟨"", 0, 0⟩
  timer : k.object (.timer (.block b)) = ⟨"", 0, 0⟩
  tcb : k.tcb (.block b) = ⟨0, 0, 0, 0, 0, 0, 0, 0⟩
  threadUnlisted : .thread (.block b) ∉ k.container.information .thread
  timerUnlisted : .timer (.block b) ∉ k.container.information .timer

/-- The block is in the kernel's thread list. -/
def Registered (k : Kernel Tid) (b : Block) : Prop :=
  .thread (.block b) ∈ k.container.information .thread

/-- What a command asks of a block. -/
inductive Order where
  | start
  | stop
  deriving DecidableEq

def ledBlock (flag : Int) : Option Block :=
  if flag = 0 then some .led0 else if flag = 1 then some .led1 else none

/-- The block a command is about, and the order it gives. -/
def Command.order : Command → Option (Block × Order)
  | .ledOpen flag => (ledBlock flag).map (·, .start)
  | .ledClose flag => (ledBlock flag).map (·, .stop)
  | .usartNetOpen => some (.usartNet, .start)
  | .mailDealOpen => some (.mailDeal, .start)

/-- An open is for a block that is not registered, a close for one that is. -/
def Respects (k : Kernel Tid) (c : Command) : Prop :=
  ∀ b, (c.order = some (b, .start) → ¬Registered k b) ∧ (c.order = some (b, .stop) → Registered k b)

/-- Every event of the run returns, and each command finds its block as it needs it. -/
structure Safe (k₀ : Kernel Tid) (events : List Event) : Prop where
  returns : ∃ k, Runs Step k₀ events k
  respects : ∀ before c after k, events = before ++ .command c :: after →
    Runs Step k₀ before k → Respects k c

end StmGateway.App.Threads
