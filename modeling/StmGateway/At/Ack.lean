import StmGateway.At.Link
import StmGateway.Lib.Runs

/-!
# What a setter's success says

The module echoes each command line, executes it and sends a final result line,
in command order and whenever it likes; the call of the setter goes on one
statement at a time, and an interrupt may come before each of them. A setter
succeeds when "OK" turns up in what has arrived since it restarted the frame,
whoever said it: its success is the module's own as long as nothing else on the
line says "OK", and `rt_strstr` does not read on behind the frame.
-/
namespace StmGateway.At.Ack

open StmGateway.Lib StmGateway.At.Parameter StmGateway.At.Setters StmGateway.At.Link
open StmGateway.Uart.RxBuffer (RxFrame rxAppend rxIdle restartLen restartFinsh Holds holds_zero zero
  append_holds terminate_holds Terminated)

/-- The module's verdict on a command it has executed. -/
inductive Result where
  | ok
  | error (text : List UInt8)
  deriving DecidableEq

def crlf : List UInt8 := [0x0d, 0x0a]

/-- The final result line. -/
def Result.line : Result → List UInt8
  | .ok => okAck ++ crlf
  | .error text => text ++ crlf

/-- A setter in its call of `atk_ide01_send_at_cmd`, with its `cmd`. -/
structure Setting where
  cmd : List UInt8
  call : Call

/-- The gateway and the module. `sent` are the command lines sent and `returned`
the statuses of the calls that sent them, in the same order. The module has echoed
the first `echoed` lines and executed the first `results.length`; `output` has not
arrived yet. -/
structure State where
  frame : RxFrame
  call : Option Setting
  sent : List (List UInt8)
  returned : List Status
  echoed : Nat
  results : List Result
  output : List UInt8

def initial : State := ⟨zero, none, [], [], 0, [], []⟩

inductive Event where
  | call (setter : Setter)
  | thread
  | echo
  | exec (result : Result)
  | arrive
  | idle

/-- What a setter makes of the status of its call. -/
def setterStatus (st : Status) : Status := if st = .eok then .eok else .error

/-- A call that is refused before anything is sent returns at once and changes
nothing. `thread` is the next statement of the call in progress. -/
def next (s : State) : Event → Option State
  | .call setter =>
    match s.call, setter.cmd with
    | none, .ok cmd => some { s with call := some ⟨cmd.text, ⟨.firstLen, atkIde01AtTimeout⟩⟩ }
    | none, .error _ => some s
    | some _, _ => none
  | .thread =>
    match s.call with
    | some p => do
      let (out, f) ← statement (some okAck) p.call s.frame
      let sent := if p.call.pc = .printf then s.sent ++ [p.cmd] else s.sent
      match out with
      | .ok c => return { s with frame := f, sent := sent, call := some { p with call := c } }
      | .error st => return { s with
          frame := f
          sent := sent
          call := none
          returned := s.returned ++ [setterStatus st] }
    | none => none
  | .echo =>
    match s.sent[s.echoed]? with
    | some line =>
      if s.echoed = s.results.length then
        some { s with output := s.output ++ (line ++ crlf), echoed := s.echoed + 1 }
      else
        none
    | none => none
  | .exec result =>
    if s.results.length < s.echoed then
      some { s with output := s.output ++ result.line, results := s.results ++ [result] }
    else
      none
  | .arrive =>
    match s.output with
    | b :: output => do
      let f ← rxAppend s.frame b
      return { s with frame := f, output := output }
    | [] => none
  | .idle => some { s with frame := rxIdle s.frame }

def step (s : State) (e : Event) (s' : State) : Prop := next s e = some s'

/-- The call has not sent its command line yet. -/
def unsent (p : Setting) : Bool :=
  p.call.pc = .firstLen || p.call.pc = .firstFinsh || p.call.pc = .printf

/-- The command lines, with the one that the call in progress has still to send. -/
def commands (s : State) : List (List UInt8) :=
  s.sent ++ ((s.call.filter unsent).map Setting.cmd).toList

/-- The echoes that are still to come. -/
def echoes (s : State) : List UInt8 := ((commands s).drop s.echoed).flatMap fun line => line ++ crlf

/-- The call in progress is about to search the frame it has terminated. -/
def searching (s : State) : Bool := s.call.any fun p => p.call.pc = .search

/-- "OK" is neither on its way nor in an echo when a setter is called; and while
it waits no error line says it, no earlier command is answered with it, and no
byte that arrives behind the terminator makes the text to be searched say it. -/
def Unambiguous (s : State) : Event → Prop
  | .call setter =>
    ∀ cmd ∈ setter.cmd.toOption, ¬ okAck <:+: s.output ++ (echoes s ++ (cmd.text ++ crlf))
  | .exec .ok => s.call.isSome → s.results.length + 1 = (commands s).length
  | .exec (.error text) => s.call.isSome → ¬ okAck <:+: text ++ crlf
  | .arrive => searching s → ∀ s' ∈ next s .arrive, ¬ okAck <:+: s'.frame.text
  | _ => True

instance (s : State) : (e : Event) → Decidable (Unambiguous s e)
  | .call setter => inferInstanceAs (Decidable (∀ cmd ∈ setter.cmd.toOption, _))
  | .exec .ok => inferInstanceAs (Decidable (s.call.isSome → _))
  | .exec (.error _) => inferInstanceAs (Decidable (s.call.isSome → _))
  | .arrive => inferInstanceAs (Decidable (searching s → _))
  | .thread => .isTrue trivial
  | .echo => .isTrue trivial
  | .idle => .isTrue trivial

/-- A setter that has succeeded was executed, and answered OK. -/
def Earned (s : State) : Prop :=
  ∀ i : Nat, s.returned[i]? = some Status.eok → s.results[i]? = some Result.ok

/-- Text that is over, or ends with a line. -/
def EndsLine (text : List UInt8) : Prop := text = [] ∨ ∃ t, text = t ++ [0x0a]

theorem EndsLine.of_append {a b : List UInt8} (h : EndsLine (a ++ b)) : EndsLine b := by
  cases List.eq_nil_or_concat b with
  | inl hnil => exact .inl hnil
  | inr hconcat =>
    obtain ⟨t, c, rfl⟩ := hconcat
    right
    cases h with
    | inl hnil => simp at hnil
    | inr hline =>
      obtain ⟨u, hu⟩ := hline
      rw [List.concat_eq_append, ← List.append_assoc] at hu
      obtain ⟨_, hc⟩ := List.append_inj' hu rfl
      exact ⟨t, by rw [List.concat_eq_append, hc]⟩

theorem endsLine_crlf (a b : List UInt8) : EndsLine (a ++ (b ++ crlf)) :=
  .inr ⟨a ++ (b ++ [0x0d]), by simp [crlf]⟩

/-- "OK" does not come about across the end of a line. -/
theorem okAck_append {a b : List UInt8} (hline : EndsLine a) (ha : ¬ okAck <:+: a)
    (hb : ¬ okAck <:+: b) : ¬ okAck <:+: a ++ b := by
  intro h
  obtain ⟨u, v, huv⟩ := h
  have hok : okAck = [0x4f, 0x4b] := rfl
  rw [hok] at huv ha hb
  rw [List.append_assoc] at huv
  cases List.append_eq_append_iff.mp huv with
  | inl hinside =>
    obtain ⟨w, ha', hw⟩ := hinside
    match w, ha', hw with
    | [], _, hw => exact hb ⟨[], v, by simpa using hw⟩
    | [c], ha', hw =>
      simp only [List.cons_append, List.nil_append, List.cons.injEq] at hw
      cases hline with
      | inl hnil => simp [hnil] at ha'
      | inr hend =>
        obtain ⟨t, rfl⟩ := hend
        obtain ⟨_, hc⟩ := List.append_inj' ha' rfl
        simp [← hw.1] at hc
    | c :: d :: w, ha', hw =>
      simp only [List.cons_append, List.nil_append, List.cons.injEq] at hw
      exact ha ⟨u, w, by simp [ha', ← hw.1, ← hw.2.1]⟩
  | inr houtside =>
    obtain ⟨w, _, hb'⟩ := houtside
    exact hb ⟨w, v, by simp [hb']⟩

/-- What has arrived for the call: nothing until it zeroes the length. -/
def heard (p : Setting) (since : List UInt8) : List UInt8 :=
  if p.call.pc = .firstLen then [] else since

/-- A call in progress has ticks left. Until its command has been answered OK,
"OK" is not in what arrived for it, nor on its way, nor in an echo still to come;
and it searches the frame alone, or a text that does not say "OK". -/
structure Awaits (s : State) (since : List UInt8) (p : Setting) : Prop where
  timeout_pos : 0 < p.call.timeout
  own : s.results[(commands s).length - 1]? = some .ok ∨
    ¬ okAck <:+: heard p since ++ (s.output ++ echoes s)
  searched : p.call.pc = .search → Terminated s.frame ∨ ¬ okAck <:+: s.frame.text

/-- The module works on what was sent, every command's call has returned or is in
progress, and what arrives ends with a line. -/
structure Sound (s : State) : Prop where
  echoed_le : s.echoed ≤ s.sent.length
  results_le : s.results.length ≤ s.echoed
  returned_eq : s.returned.length + (if s.call.isSome then 1 else 0) = (commands s).length
  earned : Earned s
  line : ∃ since, Holds s.frame since ∧ EndsLine (since ++ s.output) ∧
    ∀ p ∈ s.call, Awaits s since p

theorem sound_initial : Sound initial := by
  constructor
  · exact le_rfl
  · exact le_rfl
  · rfl
  · intro i h
    simp [initial] at h
  · refine ⟨[], holds_zero, .inl rfl, ?_⟩
    intro p hp
    cases hp

theorem not_infix_suffix {a b : List UInt8} (h : ¬ okAck <:+: a ++ b) : ¬ okAck <:+: b :=
  fun hb => h (hb.trans (List.suffix_append a b).isInfix)

theorem heard_eq (p : Setting) (since : List UInt8) :
    heard p since = [] ∨ heard p since = since := by
  unfold heard
  split
  · exact .inl rfl
  · exact .inr rfl

theorem endsLine_heard {since output : List UInt8} (p : Setting) (h : EndsLine (since ++ output)) :
    EndsLine (heard p since ++ output) := by
  cases heard_eq p since with
  | inl hnil =>
    rw [hnil]
    exact h.of_append
  | inr hall => rwa [hall]

theorem commands_none {s : State} (h : s.call = none) : commands s = s.sent := by
  simp [commands, h]

theorem commands_unsent {s : State} {p : Setting} (h : s.call = some p) (hp : unsent p = true) :
    commands s = s.sent ++ [p.cmd] := by
  simp [commands, h, hp]

theorem commands_sent {s : State} {p : Setting} (h : s.call = some p) (hp : unsent p = false) :
    commands s = s.sent := by
  simp [commands, h, hp]

/-- A new call starts with nothing of "OK" ahead of its own result. -/
theorem call_sound {s s' : State} {setter : Setter} (h : Sound s)
    (hc : Unambiguous s (.call setter)) (hs : step s (.call setter) s') : Sound s' := by
  simp only [step, next] at hs
  simp only [Unambiguous] at hc
  cases hcall : s.call with
  | some p => simp [hcall] at hs
  | none =>
    cases hcmd : setter.cmd with
    | error status =>
      simp only [hcall, hcmd, Option.some.injEq] at hs
      subst hs
      exact h
    | ok cmd =>
      simp only [hcall, hcmd, Option.some.injEq] at hs
      subst hs
      have hsilent := hc cmd (by rw [hcmd]; rfl)
      have hret := h.returned_eq
      have hle := h.echoed_le
      obtain ⟨since, hholds, hends, _⟩ := h.line
      simp only [hcall, commands_none hcall, Option.isSome_none, Bool.false_eq_true, ↓reduceIte,
        Nat.add_zero] at hret
      have hcommands : commands { s with
          call := some ⟨cmd.text, ⟨.firstLen, atkIde01AtTimeout⟩⟩ } = s.sent ++ [cmd.text] := by
        simp [commands, unsent]
      refine ⟨hle, h.results_le, ?_, h.earned, since, hholds, hends, ?_⟩
      · rw [hcommands]
        simp [hret]
      · intro p hp
        cases hp
        refine ⟨Nat.zero_lt_succ _, .inr ?_, fun hpc => by cases hpc⟩
        simp only [echoes, hcommands]
        rw [List.drop_append_of_le_length hle, List.flatMap_append]
        simpa [heard, echoes, commands_none hcall] using hsilent

/-- The call goes on: its command stays the last, and what arrived for it is what
it was, or nothing. -/
theorem Sound.proceeds {s s' : State} {p : Setting} {c : Call} {f : RxFrame}
    {since since' : List UInt8} (h : Sound s) (hs : step s .thread s') (hcall : s.call = some p)
    (hst : statement (some okAck) p.call s.frame = some (.ok c, f))
    (hunsent : unsent { p with call := c } = (unsent p && !(p.call.pc = .printf)))
    (hholds : Holds f since') (hends : EndsLine (since' ++ s.output)) (htimeout : 0 < c.timeout)
    (hown : s.results[(commands s).length - 1]? = some .ok ∨
      ¬ okAck <:+: heard p since ++ (s.output ++ echoes s))
    (hheard : heard { p with call := c } since' = [] ∨
      heard { p with call := c } since' = heard p since)
    (hsearched : c.pc = .search → Terminated f ∨ ¬ okAck <:+: f.text) : Sound s' := by
  simp only [step, next, hcall, hst, Option.bind_eq_bind, Option.bind_some, Option.pure_def,
    Option.some.injEq] at hs
  have hlast : s.sent <+: s'.sent := by
    rw [← hs]
    by_cases hpc : p.call.pc = .printf
    · simp [hpc]
    · simp [hpc]
  have hcommands : commands s' = commands s := by
    rw [← hs]
    by_cases hpc : p.call.pc = .printf
    · have hp : unsent p = true := by simp [unsent, hpc]
      rw [commands_sent rfl (by simp [hunsent, hpc]), commands_unsent hcall hp]
      simp [hpc]
    · simp only [commands, hcall, Option.filter_some, hunsent, hpc, ↓reduceIte, decide_false,
        Bool.not_false, Bool.and_true]
      split
      · rfl
      · rfl
  have hechoes : echoes s' = echoes s := by
    rw [echoes, hcommands, ← hs]
    rfl
  subst hs
  refine ⟨h.echoed_le.trans hlast.length_le, h.results_le, ?_, h.earned, since', hholds, hends, ?_⟩
  · rw [hcommands, ← h.returned_eq, hcall]
    rfl
  · intro q hq
    cases hq
    refine ⟨htimeout, ?_, hsearched⟩
    rw [hcommands, hechoes]
    refine hown.imp_right fun hsilent => ?_
    cases hheard with
    | inl hnil =>
      rw [hnil]
      exact not_infix_suffix hsilent
    | inr hsame =>
      rw [hsame]
      exact hsilent

/-- The call returns. -/
theorem Sound.returns {s s' : State} {p : Setting} {f : RxFrame} {since : List UInt8} {st : Status}
    (h : Sound s) (hs : step s .thread s') (hcall : s.call = some p)
    (hst : statement (some okAck) p.call s.frame = some (.error st, f))
    (hsent : unsent p = false) (hholds : Holds f since) (hends : EndsLine (since ++ s.output))
    (hown : setterStatus st = .eok → s.results[(commands s).length - 1]? = some .ok) :
    Sound s' := by
  have hpc : p.call.pc ≠ .printf := by
    intro hpc
    simp [unsent, hpc] at hsent
  have hret := h.returned_eq
  have hcommands := commands_sent hcall hsent
  rw [hcall, hcommands] at hret
  simp only [Option.isSome_some, ↓reduceIte] at hret
  simp only [step, next, hcall, hst, hpc, ↓reduceIte, Option.bind_eq_bind, Option.bind_some,
    Option.pure_def, Option.some.injEq] at hs
  subst hs
  refine ⟨h.echoed_le, h.results_le, ?_, ?_, since, hholds, hends, ?_⟩
  · rw [commands_none rfl]
    simpa using hret
  · intro i hi
    simp only at hi ⊢
    by_cases hlt : i < s.returned.length
    · rw [List.getElem?_append_left hlt] at hi
      exact h.earned i hi
    · have hlen : i < (s.returned ++ [setterStatus st]).length :=
        (List.getElem?_eq_some_iff.mp hi).1
      rw [List.length_append, List.length_singleton] at hlen
      obtain rfl : i = s.returned.length := by omega
      rw [List.getElem?_append_right le_rfl, Nat.sub_self] at hi
      have hexec := hown (by simpa using hi)
      rwa [hcommands, ← hret, Nat.add_sub_cancel] at hexec
  · intro q hq
    cases hq

/-- A call that searches its frame succeeds only on the module's own OK. -/
theorem Awaits.own_of_found {s : State} {p : Setting} {since : List UInt8} (h : Awaits s since p)
    (hpc : p.call.pc = .search) (hholds : Holds s.frame since)
    (hfound : (strstr s.frame.text okAck).isSome) :
    s.results[(commands s).length - 1]? = some .ok := by
  have hsays : okAck <:+: s.frame.text := (strstr_isSome _ _).mp hfound
  cases h.own with
  | inl hexec => exact hexec
  | inr hsilent =>
    cases h.searched hpc with
    | inr hnot => exact absurd hsays hnot
    | inl hterm =>
      have hsaid : okAck <:+: since := hsays.trans (text_occurs hholds hterm)
      have hheard : heard p since = since := by simp [heard, hpc]
      rw [hheard] at hsilent
      exact absurd (hsaid.trans (List.prefix_append _ _).isInfix) hsilent

/-- One statement of the call in progress. -/
theorem thread_sound {s s' : State} (h : Sound s) (hs : step s .thread s') : Sound s' := by
  obtain ⟨since, hholds, hends, hawaits⟩ := h.line
  cases hcall : s.call with
  | none => simp [step, next, hcall] at hs
  | some p =>
    obtain ⟨cmd, pc, timeout⟩ := p
    have haw := hawaits _ hcall
    have hpos := haw.timeout_pos
    have hown := haw.own
    have hempty : EndsLine ([] ++ s.output) := hends.of_append
    cases pc with
    | firstLen =>
      exact h.proceeds hs hcall rfl rfl (restartLen_holds hholds.last) hempty hpos hown (.inl rfl)
        (fun hpc => by cases hpc)
    | firstFinsh =>
      exact h.proceeds hs hcall rfl rfl (restartFinsh_holds hholds) hends hpos hown (.inr rfl)
        (fun hpc => by cases hpc)
    | printf =>
      have hne : timeout ≠ 0 := Nat.pos_iff_ne_zero.mp hpos
      exact h.proceeds hs hcall (statement_printf hne) rfl hholds hends hpos hown (.inr rfl)
        (fun hpc => by cases hpc)
    | checkFinsh =>
      cases hfinsh : s.frame.finsh with
      | true =>
        exact h.proceeds hs hcall (statement_finished hfinsh) rfl hholds hends hpos hown
          (.inr rfl) (fun hpc => by cases hpc)
      | false =>
        exact h.proceeds hs hcall (statement_unfinished hfinsh) rfl hholds hends hpos hown
          (.inr rfl) (fun hpc => by cases hpc)
    | terminate =>
      obtain ⟨f, hstore, hholds', _, _, hterm⟩ := terminate_holds hholds
      exact h.proceeds hs hcall (statement_terminate hstore) rfl hholds' hends hpos hown
        (.inr rfl) (fun _ => .inl hterm)
    | search =>
      cases hfound : (strstr s.frame.text okAck).isSome with
      | true =>
        exact h.returns hs hcall (statement_found hfound) rfl hholds hends
          (fun _ => haw.own_of_found rfl hholds hfound)
      | false =>
        exact h.proceeds hs hcall (statement_missed hfound) rfl hholds hends hpos hown
          (.inr rfl) (fun hpc => by cases hpc)
    | restartLen =>
      exact h.proceeds hs hcall rfl rfl (restartLen_holds hholds.last) hempty hpos hown (.inl rfl)
        (fun hpc => by cases hpc)
    | restartFinsh =>
      exact h.proceeds hs hcall rfl rfl (restartFinsh_holds hholds) hends hpos hown (.inr rfl)
        (fun hpc => by cases hpc)
    | delay =>
      by_cases hzero : timeout - 1 = 0
      · exact h.returns hs hcall (statement_timeout hzero) rfl hholds hends
          (fun hst => by cases hst)
      · exact h.proceeds hs hcall (statement_delay hzero) rfl hholds hends
          (Nat.pos_of_ne_zero hzero) hown (.inr rfl) (fun hpc => by cases hpc)

/-- The module's own steps. -/
theorem echo_sound {s s' : State} (h : Sound s) (hs : step s .echo s') : Sound s' := by
  simp only [step, next] at hs
  split at hs
  · next line hline =>
    split at hs
    · next hecho =>
      cases hs
      have hlt : s.echoed < s.sent.length := (List.getElem?_eq_some_iff.mp hline).1
      obtain ⟨since, hholds, _, hawaits⟩ := h.line
      have hechoes : echoes s = (line ++ crlf) ++
          echoes { s with output := s.output ++ (line ++ crlf), echoed := s.echoed + 1 } := by
        have hline' : (commands s)[s.echoed]? = some line := by
          rw [commands, List.getElem?_append_left hlt, hline]
        obtain ⟨hlt', hget⟩ := List.getElem?_eq_some_iff.mp hline'
        rw [echoes, List.drop_eq_getElem_cons hlt', List.flatMap_cons, hget]
        rfl
      refine ⟨hlt, ?_, h.returned_eq, h.earned, since, hholds, ?_, fun p hp => ?_⟩
      · simp only
        omega
      · simp only
        rw [← List.append_assoc]
        exact endsLine_crlf _ _
      · have haw := hawaits p hp
        have hown := haw.own
        rw [hechoes] at hown
        refine ⟨haw.timeout_pos, ?_, haw.searched⟩
        simp only
        rw [List.append_assoc s.output]
        exact hown
    · cases hs
  · cases hs

/-- The result of the command the call waits for, or one that does not say "OK". -/
theorem exec_sound {s s' : State} {result : Result} (h : Sound s)
    (hc : Unambiguous s (.exec result)) (hs : step s (.exec result) s') : Sound s' := by
  simp only [step, next] at hs
  split at hs
  · next hlt =>
    cases hs
    have hle := h.echoed_le
    obtain ⟨since, hholds, hends, hawaits⟩ := h.line
    have hlinecr : ∃ t, result.line = t ++ crlf := by
      cases result with
      | ok => exact ⟨okAck, rfl⟩
      | error text => exact ⟨text, rfl⟩
    refine ⟨h.echoed_le, ?_, h.returned_eq, ?_, since, hholds, ?_, fun p hp => ?_⟩
    · simp only [List.length_append, List.length_singleton]
      omega
    · intro i hi
      have hold := h.earned i hi
      simp only
      rw [List.getElem?_append_left (List.getElem?_eq_some_iff.mp hold).1]
      exact hold
    · obtain ⟨t, ht⟩ := hlinecr
      simp only
      rw [ht, ← List.append_assoc]
      exact endsLine_crlf _ _
    · have haw := hawaits p hp
      have hsome : s.call.isSome := Option.isSome_iff_exists.mpr ⟨p, hp⟩
      refine ⟨haw.timeout_pos, ?_, haw.searched⟩
      cases haw.own with
      | inl hdone =>
        left
        change (s.results ++ [result])[(commands s).length - 1]? = some .ok
        rw [List.getElem?_append_left (List.getElem?_eq_some_iff.mp hdone).1]
        exact hdone
      | inr hsilent =>
        cases result with
        | ok =>
          left
          have hlast := hc hsome
          change (s.results ++ [Result.ok])[(commands s).length - 1]? = some .ok
          rw [show (commands s).length - 1 = s.results.length by omega]
          simp
        | error text =>
          right
          have htext := hc hsome
          change ¬ okAck <:+: heard p since ++ ((s.output ++ (text ++ crlf)) ++ echoes s)
          rw [← List.append_assoc] at hsilent
          have hbefore : ¬ okAck <:+: heard p since ++ s.output := fun hi =>
            hsilent (hi.trans (List.prefix_append _ _).isInfix)
          have hafter := okAck_append (endsLine_crlf [] text) htext (not_infix_suffix hsilent)
          have hall := okAck_append (endsLine_heard p hends) hbefore hafter
          simpa only [List.append_assoc, List.nil_append] using hall
  · cases hs

/-- A byte that arrives while the frame is searched meets the condition on it. -/
theorem arrive_sound {s s' : State} (h : Sound s) (hc : Unambiguous s .arrive)
    (hs : step s .arrive s') : Sound s' := by
  have hnext : s' ∈ next s .arrive := hs
  simp only [step, next] at hs
  split at hs
  · next b output hout =>
    obtain ⟨since, hholds, hends, hawaits⟩ := h.line
    obtain ⟨f, hf, hholds', _⟩ := append_holds hholds b
    simp only [hf, Option.bind_eq_bind, Option.bind_some, Option.pure_def,
      Option.some.injEq] at hs
    subst hs
    rw [hout] at hends
    refine ⟨h.echoed_le, h.results_le, h.returned_eq, h.earned, since ++ [b], hholds', ?_, ?_⟩
    · simpa using hends
    · intro p hp
      have haw := hawaits p hp
      refine ⟨haw.timeout_pos, haw.own.imp_right fun hsilent => ?_, fun hpc => .inr ?_⟩
      · change ¬ okAck <:+: heard p (since ++ [b]) ++ (output ++ echoes s)
        rw [hout] at hsilent
        by_cases hpc : p.call.pc = .firstLen
        · simp only [heard, hpc, ↓reduceIte] at hsilent ⊢
          exact not_infix_suffix (a := [b]) hsilent
        · simpa [heard, hpc] using hsilent
      · refine hc ?_ _ hnext
        have hcall : s.call = some p := hp
        simp [searching, hcall, hpc]
  · cases hs

theorem step_sound {s s' : State} {e : Event} (h : Sound s) (hc : Unambiguous s e)
    (hs : step s e s') : Sound s' := by
  cases e with
  | call setter => exact call_sound h hc hs
  | thread => exact thread_sound h hs
  | echo => exact echo_sound h hs
  | exec result => exact exec_sound h hc hs
  | arrive => exact arrive_sound h hc hs
  | idle =>
    cases hs
    obtain ⟨since, hholds, hends, hawaits⟩ := h.line
    refine ⟨h.echoed_le, h.results_le, h.returned_eq, h.earned, since, idle_holds hholds, hends, ?_⟩
    intro p hp
    have haw := hawaits p hp
    exact ⟨haw.timeout_pos, haw.own, haw.searched⟩

end StmGateway.At.Ack
