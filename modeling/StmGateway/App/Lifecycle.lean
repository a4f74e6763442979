import StmGateway.App.Threads

/-!
# The life of the application's threads

The application keeps no record of which thread is open, so the phases of the
four blocks are a function of the events alone. The kernel follows that
function: an open of a live block and a close of one that is not live fail an
assertion, and nothing else does.
-/
namespace StmGateway.App.Lifecycle

open StmGateway.Lib
open StmGateway.Rt.Object
open StmGateway.Rt.Thread
open StmGateway.Rt.Life
open StmGateway.App.Threads

inductive Action where
  | order (o : Order)
  | sleep
  | expire
  | wait
  | wake

/-- The block an event is about. -/
def action : Event → Option (Block × Action)
  | .command c => c.order.map fun (b, o) => (b, .order o)
  | .sleep b _ => some (b, .sleep)
  | .expire b => some (b, .expire)
  | .wait b => some (b, .wait)
  | .wake b => some (b, .wake)

/-- The life of one thread; `none` where the kernel asserts. -/
def Action.next : Action → Phase → Option Phase
  | .order .start, p => if p.live then none else some .ready
  | .order .stop, p => if p.live then some .closed else none
  | .sleep, .ready => some .sleeping
  | .expire, .sleeping => some .ready
  | .wait, .ready => some .waiting
  | .wake, .sleeping => some .ready
  | .wake, .waiting => some .ready
  | _, p => some p

def next (lives : Block → Phase) (e : Event) : Option (Block → Phase) :=
  match action e with
  | none => some lives
  | some (b, a) => (a.next (lives b)).map (Function.update lives b)

/-- The kernel shows each block in its phase. -/
def Shows (k : Kernel Tid) (lives : Block → Phase) : Prop :=
  ∀ b, view k (.block b) = (lives b).view

/-- A call leaves the blocks in the phases given, or fails where there are none. -/
inductive Follows : Except String (Kernel Tid) → Option (Block → Phase) → Prop
  | returns {k lives} : Shows k lives → Follows (.ok k) (some lives)
  | asserts {text} : Follows (.error text) none

variable {k k' : Kernel Tid} {lives : Block → Phase} {b : Block}

theorem Shows.update {p : Phase} (h : Shows k lives) (hk : Leaves k (.block b) p.view k') :
    Shows k' (Function.update lives b p) := by
  intro b'
  by_cases hb : b' = b
  · subst hb
    rw [Function.update_self]
    exact hk.here
  · rw [Function.update_of_ne hb, hk.elsewhere _ (by simpa using hb)]
    exact h b'

theorem Shows.registered_iff (h : Shows k lives) : Registered k b ↔ (lives b).live = true :=
  listed_iff (h b)

theorem Zeroed.shows (h : ∀ b, Zeroed k b) : Shows k fun _ => .zeroed := by
  intro b
  obtain ⟨hthread, htimer, htcb, hlisted, hunlisted⟩ := h b
  simp [view, Phase.view, unregistered, hthread, htimer, htcb, hlisted, hunlisted, threadInit]

section Commands

variable {flag stat : UInt8} {name : String} {priority : UInt8} {tick : Nat}

/-- A status that is dropped. -/
theorem Moves.drop {r : Except String (Return Tid)} {t : Tid} {v : View} (h : Moves r k t v) :
    ∃ k', (do let (_, k) ← r; return k) = Except.ok k' ∧ Leaves k t v k' := by
  obtain ⟨_, k', rfl, hk'⟩ := h
  exact ⟨k', rfl, hk'⟩

theorem openThread_fresh (h : view k (.block b) = unregistered stat)
    (hpriority : priority < rtThreadPriorityMax) :
    ∃ k', openThread k b name priority tick = .ok k' ∧
      Leaves k (.block b) Phase.ready.view k' := by
  obtain ⟨_, k₁, hinit, hk₁⟩ := rtThreadInit_moves h name hpriority tick
  obtain ⟨k', hk', hleaves⟩ := Moves.drop (rtThreadControl_startup hk₁.here)
  refine ⟨k', ?_, hk₁.trans hleaves⟩
  rw [openThread, hinit]
  exact hk'

theorem openThread_live (h : view k (.block b) = registered flag stat) :
    openThread k b name priority tick = .error "obj != object" := by
  rw [openThread, rtThreadInit_registered h]
  rfl

theorem closeBlock_live (h : view k (.block b) = registered flag stat) (hflag : OneShot flag)
    (hstat : stat &&& threadStatMask ≠ threadClose) :
    ∃ k', closeBlock k b = .ok k' ∧ Leaves k (.block b) Phase.closed.view k' :=
  Moves.drop (rtThreadControl_close h hflag hstat)

theorem closeBlock_fresh (h : view k (.block b) = unregistered stat) :
    closeBlock k b =
      .error "rt_object_get_type((rt_object_t)thread) == RT_Object_Class_Thread" := by
  rw [closeBlock, rtThreadControl_unregistered h]
  rfl

theorem run_of_order_none {c : Command} (h : c.order = none) : c.run k = .ok k := by
  cases c with
  | ledOpen f =>
    simp only [Command.order, ledBlock] at h
    simp only [Command.run, ledOpen]
    split_ifs at h ⊢ <;> first | rfl | cases h
  | ledClose f =>
    simp only [Command.order, ledBlock] at h
    simp only [Command.run, ledClose]
    split_ifs at h ⊢ <;> first | rfl | cases h
  | usartNetOpen => cases h
  | mailDealOpen => cases h

theorem run_of_start {c : Command} (h : c.order = some (b, .start)) :
    ∃ name priority, priority < rtThreadPriorityMax ∧
      ∀ k, c.run k = openThread k b name priority 20 := by
  cases c with
  | ledOpen f =>
    simp only [Command.order, ledBlock] at h
    simp only [Command.run, ledOpen]
    split_ifs at h ⊢ with h0 h1 <;> cases h <;> exact ⟨_, _, by decide, fun _ => rfl⟩
  | ledClose f =>
    simp only [Command.order, ledBlock] at h
    split_ifs at h <;> cases h
  | usartNetOpen =>
    cases h
    exact ⟨_, _, by decide, fun _ => rfl⟩
  | mailDealOpen =>
    cases h
    exact ⟨_, _, by decide, fun _ => rfl⟩

theorem run_of_stop {c : Command} (h : c.order = some (b, .stop)) : c.run k = closeBlock k b := by
  cases c with
  | ledOpen f =>
    simp only [Command.order, ledBlock] at h
    split_ifs at h <;> cases h
  | ledClose f =>
    simp only [Command.order, ledBlock] at h
    simp only [Command.run, ledClose]
    split_ifs at h ⊢ <;> cases h <;> rfl
  | usartNetOpen => cases h
  | mailDealOpen => cases h

end Commands

theorem Follows.stay (h : Shows k lives) {o : Option Phase} (ho : o = some (lives b)) :
    Follows (.ok k) (o.map (Function.update lives b)) := by
  rw [ho]
  exact .returns (by simpa using h)

theorem Follows.moves {r : Except String (Kernel Tid)} {p : Phase} {o : Option Phase}
    (h : Shows k lives) (hr : ∃ k', r = .ok k' ∧ Leaves k (.block b) p.view k')
    (ho : o = some p) : Follows r (o.map (Function.update lives b)) := by
  obtain ⟨k', rfl, hk'⟩ := hr
  rw [ho]
  exact .returns (h.update hk')

theorem command_follows (h : Shows k lives) (c : Command) :
    Follows (c.run k) (next lives (.command c)) := by
  rw [next, action]
  cases hc : c.order with
  | none =>
    rw [run_of_order_none hc]
    exact .returns h
  | some order =>
    obtain ⟨b, order⟩ := order
    simp only [Option.map_some]
    cases hlive : (lives b).live with
    | true =>
      obtain ⟨flag, stat, hview, hflag, hstat⟩ := Phase.view_of_live hlive
      have hk : view k (.block b) = registered flag stat := (h b).trans hview
      cases order with
      | start =>
        obtain ⟨name, priority, _, hrun⟩ := run_of_start hc
        rw [hrun, openThread_live hk, Action.next, if_pos hlive]
        exact .asserts
      | stop =>
        rw [run_of_stop hc]
        exact .moves h (closeBlock_live hk hflag hstat) (by rw [Action.next, if_pos hlive])
    | false =>
      obtain ⟨stat, hview⟩ := Phase.view_of_not_live hlive
      have hk : view k (.block b) = unregistered stat := (h b).trans hview
      cases order with
      | start =>
        obtain ⟨name, priority, hpriority, hrun⟩ := run_of_start hc
        rw [hrun]
        exact .moves h (openThread_fresh hk hpriority)
          (by rw [Action.next, if_neg (by simp [hlive])])
      | stop =>
        rw [run_of_stop hc, closeBlock_fresh hk, Action.next, if_neg (by simp [hlive])]
        exact .asserts

theorem sleep_follows (h : Shows k lives) (b : Block) (tick : Fin (rtTickMax / 2)) :
    Follows ((Event.sleep b tick).run k) (next lives (.sleep b tick)) := by
  have hstat : (k.tcb (.block b)).stat = (lives b).view.stat := stat_eq (h b)
  simp only [next, action, Event.run, hstat]
  have hb := h b
  cases hlife : lives b with
  | ready =>
    rw [hlife] at hb
    rw [if_neg (by decide)]
    exact .moves h (Moves.drop (rtThreadSleep_moves hb tick.isLt)) rfl
  | zeroed | inited | sleeping | waiting | closed =>
    rw [if_pos (by decide)]
    exact .stay h (by rw [hlife]; rfl)

theorem wait_follows (h : Shows k lives) (b : Block) :
    Follows ((Event.wait b).run k) (next lives (.wait b)) := by
  have hstat : (k.tcb (.block b)).stat = (lives b).view.stat := stat_eq (h b)
  simp only [next, action, Event.run, hstat]
  have hb := h b
  cases hlife : lives b with
  | ready =>
    rw [hlife] at hb
    rw [if_neg (by decide)]
    exact .moves h (Moves.drop (rtThreadSuspend_moves hb)) rfl
  | zeroed | inited | sleeping | waiting | closed =>
    rw [if_pos (by decide)]
    exact .stay h (by rw [hlife]; rfl)

theorem wake_follows (h : Shows k lives) (b : Block) :
    Follows ((Event.wake b).run k) (next lives (.wake b)) := by
  have hstat : (k.tcb (.block b)).stat = (lives b).view.stat := stat_eq (h b)
  simp only [next, action, Event.run, hstat]
  have hb := h b
  cases hlife : lives b with
  | sleeping =>
    rw [hlife] at hb
    rw [if_neg (by decide)]
    exact .moves h (Moves.drop (rtThreadResume_moves hb (.inr rfl))) rfl
  | waiting =>
    rw [hlife] at hb
    rw [if_neg (by decide)]
    exact .moves h (Moves.drop (rtThreadResume_moves hb (.inl rfl))) rfl
  | zeroed | inited | ready | closed =>
    rw [if_pos (by decide)]
    exact .stay h (by rw [hlife]; rfl)

theorem expire_follows (h : Shows k lives) (b : Block) :
    Follows ((Event.expire b).run k) (next lives (.expire b)) := by
  have hflag : (k.object (.timer (.block b))).flag = (lives b).view.flag := flag_eq (h b)
  simp only [next, action, Event.run, hflag]
  have hb := h b
  cases hlife : lives b with
  | sleeping =>
    rw [hlife] at hb
    rw [if_neg (by decide)]
    exact .moves h (rtTimerCheck_leaves hb) rfl
  | zeroed | inited | ready | waiting | closed =>
    rw [if_pos (by decide)]
    exact .stay h (by rw [hlife]; rfl)

theorem run_follows (h : Shows k lives) (e : Event) : Follows (e.run k) (next lives e) := by
  cases e with
  | command c => exact command_follows h c
  | sleep b tick => exact sleep_follows h b tick
  | expire b => exact expire_follows h b
  | wait b => exact wait_follows h b
  | wake b => exact wake_follows h b

/-- Opens and closes in turn, from a block that is live or not. -/
def alternate : Bool → List Order → Bool
  | _, [] => true
  | live, .start :: rest => !live && alternate true rest
  | live, .stop :: rest => live && alternate false rest

/-- The orders that reach `b`. -/
def orders (b : Block) (events : List Event) : List Order :=
  events.filterMap fun
    | .command c => c.order.bind fun (b', o) => if b' = b then some o else none
    | _ => none

theorem orders_command_none {c : Command} (h : c.order = none) (b : Block) (rest : List Event) :
    orders b (.command c :: rest) = orders b rest := by
  simp [orders, h]

theorem orders_command_some {c : Command} {o : Order} (h : c.order = some (b, o))
    (rest : List Event) : orders b (.command c :: rest) = o :: orders b rest := by
  simp [orders, h]

theorem orders_command_of_ne {c : Command} {o : Order} {b' : Block} (h : c.order = some (b, o))
    (hne : b' ≠ b) (rest : List Event) : orders b' (.command c :: rest) = orders b' rest := by
  simp [orders, h, hne.symm]

/-- What a thread does by itself leaves it live or not as it was. -/
theorem next_live {a : Action} (h : ∀ o, a ≠ .order o) (p : Phase) :
    ∃ p', a.next p = some p' ∧ p'.live = p.live := by
  cases a with
  | order o => exact absurd rfl (h o)
  | sleep | expire | wait | wake => cases p <;> exact ⟨_, rfl, rfl⟩

/-- An order is taken where it is the next in turn. -/
theorem next_order (o : Order) (p : Phase) :
    (∃ p', (Action.order o).next p = some p' ∧
      ∀ rest, alternate p.live (o :: rest) = alternate p'.live rest) ∨
    ((Action.order o).next p = none ∧ ∀ rest, alternate p.live (o :: rest) = false) := by
  cases o with
  | start =>
    cases p with
    | zeroed | closed => exact .inl ⟨_, rfl, fun _ => rfl⟩
    | inited | ready | sleeping | waiting => exact .inr ⟨rfl, fun _ => rfl⟩
  | stop =>
    cases p with
    | zeroed | closed => exact .inr ⟨rfl, fun _ => rfl⟩
    | inited | ready | sleeping | waiting => exact .inl ⟨_, rfl, fun _ => rfl⟩

theorem live_update {p : Phase} (h : p.live = (lives b).live) (b' : Block) :
    (Function.update lives b p b').live = (lives b').live := by
  by_cases hb : b' = b
  · subst hb
    rw [Function.update_self, h]
  · rw [Function.update_of_ne hb]

/-- One event: the blocks can go on as the orders say, or one of them cannot. -/
theorem next_cases (lives : Block → Phase) (e : Event) (rest : List Event) :
    (∃ lives', next lives e = some lives' ∧ ∀ b,
      alternate (lives b).live (orders b (e :: rest)) = alternate (lives' b).live (orders b rest)) ∨
    (next lives e = none ∧ ∃ b, alternate (lives b).live (orders b (e :: rest)) = false) := by
  have hself : ∀ b a, action e = some (b, a) → (∀ o, a ≠ .order o) →
      ∃ lives', next lives e = some lives' ∧ ∀ b, (lives' b).live = (lives b).live := by
    intro b a haction hown
    obtain ⟨p, hp, hlive⟩ := next_live hown (lives b)
    exact ⟨_, by rw [next, haction]; simp [hp], live_update hlive⟩
  cases e with
  | command c =>
    cases hc : c.order with
    | none =>
      exact .inl ⟨lives, by simp [next, action, hc], fun b => by rw [orders_command_none hc]⟩
    | some order =>
      obtain ⟨b, o⟩ := order
      have hnext : next lives (.command c) =
          ((Action.order o).next (lives b)).map (Function.update lives b) := by
        simp [next, action, hc]
      rcases next_order o (lives b) with ⟨p, hp, halt⟩ | ⟨hnone, halt⟩
      · refine .inl ⟨Function.update lives b p, by simp [hnext, hp], fun b' => ?_⟩
        by_cases hb : b' = b
        · subst hb
          rw [orders_command_some hc, halt, Function.update_self]
        · rw [orders_command_of_ne hc hb, Function.update_of_ne hb]
      · exact .inr ⟨by simp [hnext, hnone], b, by rw [orders_command_some hc, halt]⟩
  | sleep b tick =>
    obtain ⟨lives', hnext, hlive⟩ := hself b .sleep rfl (by simp)
    exact .inl ⟨lives', hnext, fun b => by rw [hlive]; rfl⟩
  | expire b =>
    obtain ⟨lives', hnext, hlive⟩ := hself b .expire rfl (by simp)
    exact .inl ⟨lives', hnext, fun b => by rw [hlive]; rfl⟩
  | wait b =>
    obtain ⟨lives', hnext, hlive⟩ := hself b .wait rfl (by simp)
    exact .inl ⟨lives', hnext, fun b => by rw [hlive]; rfl⟩
  | wake b =>
    obtain ⟨lives', hnext, hlive⟩ := hself b .wake rfl (by simp)
    exact .inl ⟨lives', hnext, fun b => by rw [hlive]; rfl⟩

theorem next_isSome_iff (lives : Block → Phase) (events : List Event) :
    (events.foldlM next lives).isSome ↔
      ∀ b, alternate (lives b).live (orders b events) = true := by
  induction events generalizing lives with
  | nil => simp [orders, alternate]
  | cons e rest ih =>
    rw [List.foldlM_cons]
    rcases next_cases lives e rest with ⟨lives', hnext, halt⟩ | ⟨hnone, b, halt⟩
    · simp only [hnext, halt]
      exact ih lives'
    · simp only [hnone]
      constructor
      · intro h
        cases h
      · intro h
        rw [h b] at halt
        cases halt

theorem step_next (k : Kernel Tid) (e : Event) (k' : Kernel Tid) (lives : Block → Phase)
    (h : Shows k lives) (hstep : Step k e k') : ∃ lives', next lives e = some lives' ∧ Shows k' lives' := by
  have hfollows := run_follows h e
  rw [show e.run k = .ok k' from hstep] at hfollows
  generalize hnext : next lives e = o at hfollows
  cases hfollows with
  | returns hk => exact ⟨_, rfl, hk⟩

theorem next_step (k : Kernel Tid) (e : Event) (lives lives' : Block → Phase) (h : Shows k lives)
    (hnext : next lives e = some lives') : ∃ k', Step k e k' := by
  have hfollows := run_follows h e
  rw [hnext] at hfollows
  generalize hrun : e.run k = r at hfollows
  cases hfollows with
  | returns _ => exact ⟨_, hrun⟩

/-- A command that returns found its block as it needs it. -/
theorem respects_of_next {c : Command} {lives' : Block → Phase} (h : Shows k lives)
    (hnext : next lives (.command c) = some lives') : Respects k c := by
  intro b
  rw [h.registered_iff]
  constructor
  · intro hc hlive
    simp [next, action, hc, Action.next, hlive] at hnext
  · intro hc
    by_contra hlive
    simp [next, action, hc, Action.next, hlive] at hnext

/-- From zeroed blocks no assertion fails exactly where the orders each block gets
are an open and a close in turn, an open first; there every command finds its
block as it needs it. -/
theorem lifecycle_safe_iff (k₀ : Kernel Tid) (hzeroed : ∀ b, Zeroed k₀ b) (events : List Event) :
    Safe k₀ events ↔ ∀ b, alternate false (orders b events) = true := by
  have hshows : Shows k₀ fun _ => .zeroed := Zeroed.shows hzeroed
  have hruns := @Runs.exists_iff _ _ _ _ events _ _ _ _ hshows step_next next_step
  have halternate : _ ↔ ∀ b, alternate false (orders b events) = true :=
    next_isSome_iff (fun _ => .zeroed) events
  rw [← halternate, ← hruns]
  constructor
  · exact fun h => h.returns
  · intro h
    refine ⟨h, fun before c after k hevents hrun => ?_⟩
    obtain ⟨lives, hlives, hk⟩ := hrun.follow hshows step_next
    have hsome := hruns.mp h
    rw [hevents, List.foldlM_append, hlives] at hsome
    cases hnext : next lives (.command c) with
    | none => simp [List.foldlM_cons, hnext] at hsome
    | some lives' => exact respects_of_next hk hnext

/-- The kernel when the shell starts: the threads of `main`, the idle loop, the
timers and the shell, and the four blocks still zero. -/
def booted : Kernel Tid where
  container := {
    object := fun
      | .thread (.kernel _) => ⟨"", 0x81, 0⟩
      | .timer (.kernel _) => ⟨"", 0x8a, 0⟩
      | _ => ⟨"", 0, 0⟩
    information := fun
      | .thread => (List.range 4).map fun n => .thread (.kernel n)
      | .timer => (List.range 4).map fun n => .timer (.kernel n) }
  tcb := fun _ => ⟨0, 0, 0, 0, 0, 0, 0, 0⟩
  priorityTable := fun _ => []
  readyPriorityGroup := 0
  defunct := []

theorem booted_zeroed (b : Block) : Zeroed booted b :=
  ⟨rfl, rfl, rfl, by simp [booted], by simp [booted]⟩

/-- An LED thread opened, closed while it sleeps, and opened again. -/
theorem lifecycle_safe_reopen :
    Safe booted [.command (.ledOpen 0), .sleep .led0 ⟨1000, by decide⟩, .command (.ledClose 0),
      .command (.ledOpen 0)] :=
  (lifecycle_safe_iff booted booted_zeroed _).mpr (by intro b; cases b <;> rfl)

/-- A second open of an LED thread runs into the assertion, and so does a close
of one that was never opened. -/
theorem second_open_asserts :
    (∀ b, Zeroed booted b) ∧
      ¬Safe booted [.command (.ledOpen 0), .command (.ledOpen 0)] ∧
      (Threads.ledOpen booted 0).bind (fun k => Threads.ledOpen k 0) = .error "obj != object" ∧
      Threads.ledClose booted 1 =
        .error "rt_object_get_type((rt_object_t)thread) == RT_Object_Class_Thread" := by
  have hopens : (Threads.ledOpen booted 0).bind (fun k => Threads.ledOpen k 0) =
      .error "obj != object" := rfl
  refine ⟨booted_zeroed, fun hsafe => ?_, hopens, rfl⟩
  obtain ⟨k, hrun⟩ := hsafe.returns
  obtain ⟨lives, hlives, _⟩ := hrun.follow (Zeroed.shows booted_zeroed) step_next
  have hnone : [Event.command (.ledOpen 0), .command (.ledOpen 0)].foldlM next
      (fun _ => .zeroed) = none := rfl
  rw [hnone] at hlives
  cases hlives

end StmGateway.App.Lifecycle
