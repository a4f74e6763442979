import StmGateway.At.Link

/-!
# The call one statement at a time

A schedule of single moves: an interrupt, or the next statement of the call of
`atk_ide01_send_at_cmd`. Where no byte arrives before the command is sent or
while a poll that has found a finished frame is carried out, the call returns
what the loop of whole polls returns on the schedule of its polls.
-/
namespace StmGateway.At.Statements

open StmGateway.Lib StmGateway.At.Parameter StmGateway.At.Link
open StmGateway.Uart.RxBuffer (RxFrame rxAppend rxIdle restartFinsh atkIde01UartRxRestart
  getFrame_finished)

inductive Move where
  | byte (b : UInt8)
  | idle
  | thread

/-- The call and the interrupts, up to its return. -/
def callLoop (ack : Option (List UInt8)) :
    Call → RxFrame → List Move → Option (Status × RxFrame)
  | _, _, [] => none
  | c, f, .byte b :: moves => do
    let f ← rxAppend f b
    callLoop ack c f moves
  | c, f, .idle :: moves => callLoop ack c (rxIdle f) moves
  | c, f, .thread :: moves => do
    let (out, f) ← statement ack c f
    match out with
    | .ok c => callLoop ack c f moves
    | .error st => return (st, f)

/-- The moves, each with the statement that the call is at then, `none` once it
has returned. -/
def placed (ack : Option (List UInt8)) : Call → RxFrame → List Move → List (Option Pc × Move)
  | _, _, [] => []
  | c, f, .byte b :: moves =>
    (some c.pc, .byte b) :: ((rxAppend f b).map fun f => placed ack c f moves).getD []
  | c, f, .idle :: moves => (some c.pc, .idle) :: placed ack c (rxIdle f) moves
  | c, f, .thread :: moves =>
    (some c.pc, .thread) ::
      match statement ack c f with
      | some (.ok c, f) => placed ack c f moves
      | some (.error _, _) => moves.map fun move => (none, move)
      | none => []

/-- A byte comes when the call waits, looks whether a frame is finished or is over. -/
def calm : Option Pc × Move → Bool
  | (some pc, .byte _) => pc = .checkFinsh || pc = .delay
  | _ => true

def Calm (ack : Option (List UInt8)) (c : Call) (f : RxFrame) (moves : List Move) : Prop :=
  ∀ move ∈ placed ack c f moves, calm move = true

instance (ack : Option (List UInt8)) (c : Call) (f : RxFrame) (moves : List Move) :
    Decidable (Calm ack c f moves) :=
  inferInstanceAs (Decidable (∀ move ∈ placed ack c f moves, calm move = true))

/-- What the move is in a schedule of whole polls. A poll takes place where it
finds out whether a frame is finished, and an idle event inside of it says nothing
new. The line goes on when the call is over. -/
def whole : Option Pc × Move → Option Event
  | (_, .byte b) => some (.byte b)
  | (some pc, .idle) => if pc = .printf ∨ pc = .checkFinsh ∨ pc = .delay then some .idle else none
  | (some pc, .thread) => if pc = .checkFinsh then some .poll else none
  | (none, .idle) => some .idle
  | (none, .thread) => some .poll

/-- The schedule of the polls. -/
def schedule (ack : Option (List UInt8)) (c : Call) (f : RxFrame) (moves : List Move) :
    List Event :=
  (placed ack c f moves).filterMap whole

section Refinement

variable {ack : List UInt8} {c c' : Call} {f f' f₁ : RxFrame} {events : List Event} {st : Status}

/-- What the poll in progress comes to when nothing interrupts it. -/
def pollRest (ack : List UInt8) (c : Call) (f : RxFrame) : Option (Bool × RxFrame) :=
  match c.pc with
  | .terminate | .search => poll (some ack) f
  | .restartLen | .restartFinsh => some (false, atkIde01UartRxRestart f)
  | _ => some (false, f)

/-- The loop of whole polls, from a call between two statements. -/
def resume (ack : List UInt8) (c : Call) (f : RxFrame) (events : List Event) :
    Option (Status × RxFrame) :=
  match c.pc with
  | .firstLen | .firstFinsh => pollLoop (some ack) c.timeout (atkIde01UartRxRestart f) events
  | .printf | .checkFinsh => pollLoop (some ack) c.timeout f events
  | _ => do
    let (found, f) ← pollRest ack c f
    if found then return (.eok, f) else pollLoop (some ack) (c.timeout - 1) f events

/-- What the statements behind the call have left. -/
structure Consistent (c : Call) (f : RxFrame) : Prop where
  timeout_pos : 0 < c.timeout
  emptied : c.pc = .firstFinsh ∨ c.pc = .restartFinsh → f.len = 0
  finished : c.pc = .terminate ∨ c.pc = .search ∨ c.pc = .restartLen ∨ c.pc = .restartFinsh →
    f.finsh = true
  terminated : c.pc = .search → f.store f.len 0 = some f

/-- The result is this one; the frame counts when the call has succeeded. -/
def Ends (result : Option (Status × RxFrame)) (st : Status) (f : RxFrame) : Prop :=
  ∃ f', result = some (st, f') ∧ (st = .eok → f' = f)

theorem restart_of_empty (h : f.len = 0) : atkIde01UartRxRestart f = restartFinsh f := by
  obtain ⟨buf, len, finsh⟩ := f
  obtain rfl : len = 0 := h
  rfl

theorem store_store (h : f.store f.len 0 = some f') :
    f'.len = f.len ∧ f'.finsh = f.finsh ∧ f'.store f'.len 0 = some f' := by
  unfold RxFrame.store at h
  split at h
  · next hlt =>
    cases h
    refine ⟨rfl, rfl, ?_⟩
    simp only [RxFrame.store, hlt, ↓reduceIte, Function.update_idem]
  · cases h

theorem poll_of_store (hf : f.finsh = true) (hstore : f.store f.len 0 = some f') :
    poll (some ack) f =
      if (strstr f'.text ack).isSome then some (true, f')
      else some (false, atkIde01UartRxRestart f') := by
  simp only [poll, getFrame_finished hf hstore, Option.bind_eq_bind, Option.bind_some,
    ↓reduceIte, Option.pure_def]

theorem pollLoop_byte {timeout : Nat} {b : UInt8} (hstore : rxAppend f b = some f₁)
    (h : Ends (pollLoop (some ack) timeout f₁ events) st f') :
    Ends (pollLoop (some ack) timeout f (.byte b :: events)) st f' := by
  cases timeout with
  | zero =>
    obtain ⟨g, hg, _⟩ := h
    simp only [pollLoop, Option.some.injEq, Prod.mk.injEq] at hg
    obtain ⟨rfl, rfl⟩ := hg
    exact ⟨f, rfl, fun hst => by cases hst⟩
  | succ timeout => simpa [pollLoop, hstore] using h

theorem pollLoop_idle {timeout : Nat} (h : Ends (pollLoop (some ack) timeout (rxIdle f) events) st f') :
    Ends (pollLoop (some ack) timeout f (.idle :: events)) st f' := by
  cases timeout with
  | zero =>
    obtain ⟨g, hg, _⟩ := h
    simp only [pollLoop, Option.some.injEq, Prod.mk.injEq] at hg
    obtain ⟨rfl, rfl⟩ := hg
    exact ⟨f, rfl, fun hst => by cases hst⟩
  | succ timeout => exact h

/-- A byte that comes at a quiet place is the byte of the loop. -/
theorem resume_byte {b : UInt8} (hcalm : calm (some c.pc, .byte b) = true)
    (hstore : rxAppend f b = some f₁) (h : Ends (resume ack c f₁ events) st f') :
    Ends (resume ack c f (.byte b :: events)) st f' := by
  obtain ⟨pc, timeout⟩ := c
  cases pc with
  | checkFinsh => exact pollLoop_byte hstore h
  | delay => exact pollLoop_byte hstore h
  | _ => cases hcalm

theorem byte_consistent {b : UInt8} (h : Consistent c f)
    (hcalm : calm (some c.pc, .byte b) = true) : Consistent c f₁ := by
  obtain ⟨pc, timeout⟩ := c
  have hpos := h.timeout_pos
  cases pc with
  | checkFinsh => exact ⟨hpos, by simp, by simp, by simp⟩
  | delay => exact ⟨hpos, by simp, by simp, by simp⟩
  | _ => cases hcalm

theorem rxIdle_finished (h : f.finsh = true) : rxIdle f = f := by
  obtain ⟨buf, len, finsh⟩ := f
  obtain rfl : finsh = true := h
  rfl

/-- So is an idle event, or it says nothing new. -/
theorem resume_idle (hc : Consistent c f) (h : Ends (resume ack c (rxIdle f) events) st f') :
    Ends (resume ack c f ((whole (some c.pc, .idle)).toList ++ events)) st f' := by
  obtain ⟨pc, timeout⟩ := c
  cases pc with
  | firstLen => exact h
  | firstFinsh => exact h
  | printf => exact pollLoop_idle h
  | checkFinsh => exact pollLoop_idle h
  | delay => exact pollLoop_idle h
  | _ =>
    rw [rxIdle_finished (hc.finished (by simp))] at h
    exact h

theorem idle_consistent (h : Consistent c f) : Consistent c (rxIdle f) := by
  refine ⟨h.timeout_pos, h.emptied, fun _ => rfl, fun hpc => ?_⟩
  rw [rxIdle_finished (h.finished (by simp [hpc]))]
  exact h.terminated hpc

/-- A statement of the call is a poll of the loop, or a part of one. -/
theorem resume_thread (hc : Consistent c f) (hs : statement (some ack) c f = some (.ok c', f')) :
    Consistent c' f' ∧
      resume ack c f ((whole (some c.pc, .thread)).toList ++ events) = resume ack c' f' events := by
  obtain ⟨pc, timeout⟩ := c
  have hpos := hc.timeout_pos
  obtain ⟨timeout, rfl⟩ : ∃ t, timeout = t + 1 := ⟨timeout - 1, by simp only at hpos; omega⟩
  cases pc with
  | firstLen =>
    cases hs
    exact ⟨⟨hpos, fun _ => rfl, by simp, by simp⟩, rfl⟩
  | firstFinsh =>
    cases hs
    refine ⟨⟨hpos, by simp, by simp, by simp⟩, ?_⟩
    simp only [resume, ← restart_of_empty (hc.emptied (.inl rfl))]
    rfl
  | printf =>
    rw [statement_printf (by omega)] at hs
    cases hs
    exact ⟨⟨hpos, by simp, by simp, by simp⟩, rfl⟩
  | checkFinsh =>
    cases hf : f.finsh with
    | true =>
      rw [statement_finished hf] at hs
      cases hs
      exact ⟨⟨hpos, by simp, fun _ => hf, by simp⟩, rfl⟩
    | false =>
      rw [statement_unfinished hf] at hs
      cases hs
      refine ⟨⟨hpos, by simp, by simp, by simp⟩, ?_⟩
      simp [resume, whole, pollLoop, pollRest, poll_unfinished hf]
  | terminate =>
    have hf := hc.finished (.inl rfl)
    cases hstore : f.store f.len 0 with
    | none => simp [statement, hstore] at hs
    | some g =>
      rw [statement_terminate hstore] at hs
      cases hs
      obtain ⟨_, hfinsh, hagain⟩ := store_store hstore
      have hf' : f'.finsh = true := hfinsh.trans hf
      refine ⟨⟨hpos, by simp, fun _ => hf', fun _ => hagain⟩, ?_⟩
      simp only [resume, pollRest, poll_of_store hf hstore, poll_of_store hf' hagain]
      rfl
  | search =>
    have hf := hc.finished (.inr (.inl rfl))
    have hstore := hc.terminated rfl
    cases hfound : (strstr f.text ack).isSome with
    | true =>
      rw [statement_found hfound] at hs
      cases hs
    | false =>
      rw [statement_missed hfound] at hs
      cases hs
      refine ⟨⟨hpos, by simp, fun _ => hf, by simp⟩, ?_⟩
      simp only [resume, pollRest, poll_of_store hf hstore, hfound]
      rfl
  | restartLen =>
    cases hs
    exact ⟨⟨hpos, fun _ => rfl, fun _ => hc.finished (.inr (.inr (.inl rfl))), by simp⟩, rfl⟩
  | restartFinsh =>
    cases hs
    refine ⟨⟨hpos, by simp, by simp, by simp⟩, ?_⟩
    simp only [resume, pollRest, restart_of_empty (hc.emptied (.inr rfl))]
    rfl
  | delay =>
    by_cases ht : timeout = 0
    · rw [statement_timeout (by omega)] at hs
      cases hs
    · rw [statement_delay (by omega)] at hs
      cases hs
      exact ⟨⟨Nat.pos_of_ne_zero ht, by simp, by simp, by simp⟩, rfl⟩

/-- The call returns as the loop does. -/
theorem resume_returns (hc : Consistent c f) (hs : statement (some ack) c f = some (.error st, f')) :
    Ends (resume ack c f events) st f' := by
  obtain ⟨pc, timeout⟩ := c
  have hpos := hc.timeout_pos
  cases pc with
  | printf =>
    rw [statement_printf (Nat.pos_iff_ne_zero.mp hpos)] at hs
    cases hs
  | terminate =>
    cases hstore : f.store f.len 0 with
    | none => simp [statement, hstore] at hs
    | some g =>
      rw [statement_terminate hstore] at hs
      cases hs
  | search =>
    have hf := hc.finished (.inr (.inl rfl))
    have hstore := hc.terminated rfl
    cases hfound : (strstr f.text ack).isSome with
    | true =>
      rw [statement_found hfound] at hs
      cases hs
      refine ⟨f, ?_, fun _ => rfl⟩
      simp only [resume, pollRest, poll_of_store hf hstore, hfound]
      rfl
    | false =>
      rw [statement_missed hfound] at hs
      cases hs
  | delay =>
    by_cases ht : timeout - 1 = 0
    · rw [statement_timeout ht] at hs
      cases hs
      refine ⟨f, ?_, fun _ => rfl⟩
      simp [resume, pollRest, ht, pollLoop]
    · rw [statement_delay ht] at hs
      cases hs
  | _ => cases hs

variable {moves : List Move}

theorem schedule_byte {b : UInt8} (hstore : rxAppend f b = some f₁) :
    schedule (some ack) c f (.byte b :: moves) = .byte b :: schedule (some ack) c f₁ moves := by
  simp [schedule, placed, hstore, whole]

theorem schedule_idle :
    schedule (some ack) c f (.idle :: moves) =
      (whole (some c.pc, .idle)).toList ++ schedule (some ack) c (rxIdle f) moves := by
  cases hwhole : whole (some c.pc, .idle) with
  | none => simp [schedule, placed, hwhole]
  | some e => simp [schedule, placed, hwhole]

theorem schedule_thread (hs : statement (some ack) c f = some (.ok c', f')) :
    schedule (some ack) c f (.thread :: moves) =
      (whole (some c.pc, .thread)).toList ++ schedule (some ack) c' f' moves := by
  cases hwhole : whole (some c.pc, .thread) with
  | none => simp [schedule, placed, hs, hwhole]
  | some e => simp [schedule, placed, hs, hwhole]

/-- Up to its return the call agrees with the loop of whole polls. -/
theorem callLoop_resume (hc : Consistent c f) (hcalm : Calm (some ack) c f moves)
    (hcall : callLoop (some ack) c f moves = some (st, f')) :
    Ends (resume ack c f (schedule (some ack) c f moves)) st f' := by
  induction moves generalizing c f with
  | nil => cases hcall
  | cons move moves ih =>
    cases move with
    | byte b =>
      obtain ⟨hmove, hrest⟩ := List.forall_mem_cons.mp hcalm
      cases hstore : rxAppend f b with
      | none => simp [callLoop, hstore] at hcall
      | some f₁ =>
        simp only [hstore, Option.map_some, Option.getD_some] at hrest
        simp only [callLoop, hstore, Option.bind_eq_bind, Option.bind_some] at hcall
        rw [schedule_byte hstore]
        exact resume_byte hmove hstore (ih (byte_consistent hc hmove) hrest hcall)
    | idle =>
      obtain ⟨_, hrest⟩ := List.forall_mem_cons.mp hcalm
      rw [schedule_idle]
      exact resume_idle hc (ih (idle_consistent hc) hrest hcall)
    | thread =>
      obtain ⟨_, hrest⟩ := List.forall_mem_cons.mp hcalm
      cases hs : statement (some ack) c f with
      | none => simp [callLoop, hs] at hcall
      | some r =>
        obtain ⟨out, f₁⟩ := r
        simp only [hs] at hrest
        simp only [callLoop, hs, Option.bind_eq_bind, Option.bind_some, Option.pure_def] at hcall
        cases out with
        | ok c' =>
          obtain ⟨hc', hresume⟩ := resume_thread hc hs
          rw [schedule_thread hs, hresume]
          exact ih hc' hrest hcall
        | error st' =>
          cases hcall
          exact resume_returns hc hs

/-- The call of a command: what it returns is what `atk_ide01_send_at_cmd` of
whole polls returns on the schedule. -/
theorem callLoop_sendAtCmd {timeout : Nat} (ht : 0 < timeout)
    (hcalm : Calm (some ack) ⟨.firstLen, timeout⟩ f moves)
    (hcall : callLoop (some ack) ⟨.firstLen, timeout⟩ f moves = some (st, f')) :
    Ends (atkIde01SendAtCmd (some ack) timeout f
      (schedule (some ack) ⟨.firstLen, timeout⟩ f moves)) st f' := by
  have hresume := callLoop_resume ⟨ht, by simp, by simp, by simp⟩ hcalm hcall
  rw [atkIde01SendAtCmd, if_neg (Nat.pos_iff_ne_zero.mp ht)]
  exact hresume

end Refinement

end StmGateway.At.Statements
