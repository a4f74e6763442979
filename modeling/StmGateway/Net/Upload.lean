import StmGateway.Lib.Runs
import StmGateway.Uart.RxBuffer

/-!
# The polling loop of `usart_net_run`

The loop restarts the receive frame, and then once a second looks for a finished
one, hands it to `json_deal_cmd` and restarts. The interrupt writes the same
frame at any time, so a server frame gets through as it was sent when nothing of
the next one arrives before the loop is done with it.
-/
namespace StmGateway.Net.Upload

open StmGateway.Lib
open StmGateway.Uart.RxBuffer (RxFrame rxAppend rxIdle restartLen restartFinsh zero Holds holds_zero
  append_holds getFrame_terminates atkIde01UartRxGetFrame Terminated)

/-- The statement the loop is at. `boot` tells the first restart, before the
loop, from the one after `json_deal_cmd`; `dealing` holds the text that
`json_deal_cmd` was given and whether it is still what the buffer holds. -/
inductive Pc where
  | restartLen (boot : Bool)
  | restartFinsh (boot : Bool)
  | jsonTx
  | getFrame
  | terminate
  | jsonDealCmd
  | dealing (text : List UInt8) (unchanged : Bool)
  | delay

/-- `line` is what has come of the frame on the line, `frames` the frames whose
idle event occurred, and `dealt` what `json_deal_cmd` has finished with. -/
structure State where
  frame : RxFrame
  pc : Pc
  line : List UInt8
  frames : List (List UInt8)
  dealt : List (List UInt8 × Bool)

def initial : State := ⟨zero, .restartLen true, [], [], []⟩

/-- The buffer may change under `json_deal_cmd`. -/
def Pc.observe (f : RxFrame) : Pc → Pc
  | .dealing text unchanged => .dealing text (unchanged && f.text == text)
  | pc => pc

/-- The next statement of the loop. -/
def threadStep (s : State) : Option State :=
  match s.pc with
  | .restartLen boot => some { s with frame := restartLen s.frame, pc := .restartFinsh boot }
  | .restartFinsh boot =>
    some { s with frame := restartFinsh s.frame, pc := if boot then .jsonTx else .delay }
  | .jsonTx => some { s with pc := .getFrame }
  | .getFrame => some { s with pc := if s.frame.finsh then .terminate else .delay }
  | .terminate => do
    let f ← s.frame.store s.frame.len 0
    return { s with frame := f, pc := .jsonDealCmd }
  | .jsonDealCmd => some { s with pc := .dealing (s.frame.text) true }
  | .dealing text unchanged =>
    some { s with dealt := s.dealt ++ [(text, unchanged)], pc := .restartLen false }
  | .delay => some { s with pc := .jsonTx }

/-- A byte of a server frame, the idle line behind it, or the loop. -/
inductive Event where
  | byte (b : UInt8)
  | idle
  | thread

/-- Server frames are 1 to 2047 bytes that are not NUL. -/
def next (s : State) : Event → Option State
  | .byte b =>
    if b ≠ 0 ∧ s.line.length < 2047 then do
      let f ← rxAppend s.frame b
      return { s with frame := f, pc := s.pc.observe f, line := s.line ++ [b] }
    else
      none
  | .idle =>
    if s.line ≠ [] then
      some { s with frame := rxIdle s.frame, frames := s.frames ++ [s.line], line := [] }
    else
      none
  | .thread => threadStep s

def step (s : State) (e : Event) (s' : State) : Prop := next s e = some s'

/-- A byte finds the frame free: no finished frame in it, and no restart about to
drop it. An idle line does not fall between the two stores of a restart. -/
def Free (s : State) : Event → Prop
  | .byte _ =>
    match s.pc with
    | .restartLen _ => False
    | .restartFinsh _ => True
    | _ => s.frame.finsh = false
  | .idle =>
    match s.pc with
    | .restartFinsh _ => False
    | _ => True
  | .thread => True

instance : (s : State) → (e : Event) → Decidable (Free s e)
  | ⟨_, .restartLen _, _, _, _⟩, .byte _ => .isFalse id
  | ⟨_, .restartFinsh _, _, _, _⟩, .byte _ => .isTrue trivial
  | ⟨f, .jsonTx, _, _, _⟩, .byte _ | ⟨f, .getFrame, _, _, _⟩, .byte _
  | ⟨f, .terminate, _, _, _⟩, .byte _ | ⟨f, .jsonDealCmd, _, _, _⟩, .byte _
  | ⟨f, .dealing _ _, _, _, _⟩, .byte _ | ⟨f, .delay, _, _, _⟩, .byte _ =>
    inferInstanceAs (Decidable (f.finsh = false))
  | ⟨_, .restartFinsh _, _, _, _⟩, .idle => .isFalse id
  | ⟨_, .restartLen _, _, _, _⟩, .idle | ⟨_, .jsonTx, _, _, _⟩, .idle
  | ⟨_, .getFrame, _, _, _⟩, .idle | ⟨_, .terminate, _, _, _⟩, .idle
  | ⟨_, .jsonDealCmd, _, _, _⟩, .idle | ⟨_, .dealing _ _, _, _, _⟩, .idle
  | ⟨_, .delay, _, _, _⟩, .idle => .isTrue trivial
  | _, .thread => .isTrue trivial

/-- `json_deal_cmd` had each of these, alone and unchanged. -/
def served (frames : List (List UInt8)) : List (List UInt8 × Bool) := frames.map fun f => (f, true)

/-- The frame holds what has come of the next server frame. -/
structure Receiving (s : State) : Prop where
  holds : Holds s.frame s.line
  dealt : s.dealt = served s.frames

/-- The frame holds a finished server frame, and nothing of the next has come. -/
structure Finished (s : State) (text : List UInt8) (dealt : List (List UInt8 × Bool)) : Prop where
  finsh : s.frame.finsh = true
  holds : Holds s.frame text
  line : s.line = []
  dealt : s.dealt = dealt

/-- What holds at each statement of the loop. -/
def Sound (s : State) : Prop :=
  match s.pc with
  | .restartLen true => s.frame.finsh = false ∧ s.line = [] ∧ Receiving s
  | .restartLen false => ∃ text, Finished s text (served s.frames)
  | .restartFinsh boot => Receiving s ∧ s.frame.finsh = !boot
  | .jsonTx | .getFrame | .delay =>
    (s.frame.finsh = false ∧ Receiving s) ∨
      ∃ before text, s.frames = before ++ [text] ∧ Finished s text (served before)
  | .terminate => ∃ before text, s.frames = before ++ [text] ∧ Finished s text (served before)
  | .jsonDealCmd => ∃ before text, s.frames = before ++ [text] ∧
      Finished s text (served before) ∧ Terminated s.frame
  | .dealing given unchanged => ∃ before, s.frames = before ++ [given] ∧ unchanged = true ∧
      Finished s given (served before)

/-- What comes on the line is made of server frames. -/
structure OnLine (s : State) : Prop where
  line_nul : 0 ∉ s.line
  line_le : s.line.length ≤ 2047
  frames : ∀ f ∈ s.frames, f ≠ [] ∧ 0 ∉ f ∧ f.length ≤ 2047

theorem sound_initial : Sound initial := ⟨rfl, rfl, holds_zero, rfl⟩

theorem onLine_initial : OnLine initial := by
  constructor
  · simp [initial]
  · simp [initial]
  · simp [initial]

theorem step_onLine {s s' : State} {e : Event} (h : OnLine s) (hs : step s e s') : OnLine s' := by
  cases e with
  | byte b =>
    simp only [step, next] at hs
    split at hs
    · next hb =>
      obtain ⟨f, _, hf⟩ := Option.bind_eq_some_iff.mp hs
      cases hf
      refine ⟨?_, ?_, h.frames⟩
      · simp only [List.mem_append, List.mem_singleton, not_or]
        exact ⟨h.line_nul, Ne.symm hb.1⟩
      · simp only [List.length_append, List.length_singleton]
        omega
    · cases hs
  | idle =>
    simp only [step, next] at hs
    split at hs
    · next hne =>
      cases hs
      refine ⟨by simp, by simp, ?_⟩
      intro f hf
      simp only [List.mem_append, List.mem_singleton] at hf
      cases hf with
      | inl hold => exact h.frames f hold
      | inr hnew =>
        subst hnew
        exact ⟨hne, h.line_nul, h.line_le⟩
    · cases hs
  | thread =>
    have hsame : s'.line = s.line ∧ s'.frames = s.frames := by
      simp only [step, next, threadStep] at hs
      split at hs
      case h_5 =>
        obtain ⟨f, _, hf⟩ := Option.bind_eq_some_iff.mp hs
        cases hf
        exact ⟨rfl, rfl⟩
      all_goals
        cases hs
        exact ⟨rfl, rfl⟩
    constructor
    · rw [hsame.1]; exact h.line_nul
    · rw [hsame.1]; exact h.line_le
    · rw [hsame.2]; exact h.frames

theorem served_append (frames : List (List UInt8)) (f : List UInt8) :
    served (frames ++ [f]) = served frames ++ [(f, true)] := by
  simp [served]

theorem Finished.move {s s' : State} {text : List UInt8} {dealt : List (List UInt8 × Bool)}
    (h : Finished s text dealt) (hframe : s'.frame = s.frame) (hline : s'.line = s.line)
    (hdealt : s'.dealt = s.dealt) : Finished s' text dealt := by
  constructor
  · rw [hframe]; exact h.finsh
  · rw [hframe]; exact h.holds
  · rw [hline]; exact h.line
  · rw [hdealt]; exact h.dealt

/-- The terminator leaves the text of the frame as it is. -/
theorem terminate_finished {s : State} {text : List UInt8} {dealt : List (List UInt8 × Bool)}
    (h : Finished s text dealt) :
    ∃ f, s.frame.store s.frame.len 0 = some f ∧
      Finished { s with frame := f, pc := .jsonDealCmd } text dealt ∧ Terminated f := by
  obtain ⟨f, hget, hholds, hfinsh, hterm⟩ := getFrame_terminates h.holds h.finsh
  have hstore : s.frame.store s.frame.len 0 = some f := by
    simp only [atkIde01UartRxGetFrame, h.finsh, ↓reduceIte] at hget
    obtain ⟨g, hg, heq⟩ := Option.bind_eq_some_iff.mp hget
    cases heq
    exact hg
  exact ⟨f, hstore, ⟨hfinsh, hholds, h.line, h.dealt⟩, hterm⟩

/-- The text that `json_deal_cmd` is given is the frame's. -/
theorem Finished.text_eq {s : State} {before : List (List UInt8)} {text : List UInt8}
    (hline : OnLine s) (hframes : s.frames = before ++ [text])
    (h : Finished s text (served before)) (hterm : Terminated s.frame) :
    s.frame.text = text := by
  have hmem : text ∈ s.frames := by
    rw [hframes]
    exact List.mem_append_right _ (List.mem_singleton_self _)
  obtain ⟨_, hnul, hle⟩ := hline.frames text hmem
  exact h.holds.text_eq hterm hnul hle

theorem thread_sound {s s' : State} (hline : OnLine s) (h : Sound s)
    (hs : threadStep s = some s') : Sound s' := by
  obtain ⟨frame, pc, line, frames, dealt⟩ := s
  cases pc with
  | restartLen boot =>
    cases hs
    cases boot with
    | true =>
      obtain ⟨hfinsh, hnone, hrec⟩ := h
      simp only at hfinsh hnone
      subst hnone
      exact ⟨⟨⟨rfl, hrec.holds.last, nofun⟩, hrec.dealt⟩, hfinsh⟩
    | false =>
      obtain ⟨text, hfin⟩ := h
      obtain ⟨hfinsh, hholds, hnone, hdealt⟩ := hfin
      simp only at hnone
      subst hnone
      exact ⟨⟨⟨rfl, hholds.last, nofun⟩, hdealt⟩, hfinsh⟩
  | restartFinsh boot =>
    cases hs
    obtain ⟨hrec, _⟩ := h
    have hrec' : ∀ pc, Receiving ⟨restartFinsh frame, pc, line, frames, dealt⟩ := fun _ =>
      ⟨⟨hrec.holds.len_eq, hrec.holds.last, hrec.holds.contents⟩, hrec.dealt⟩
    cases boot with
    | true => exact .inl ⟨rfl, hrec' _⟩
    | false => exact .inl ⟨rfl, hrec' _⟩
  | jsonTx =>
    cases hs
    cases h with
    | inl hfree => exact .inl ⟨hfree.1, ⟨hfree.2.holds, hfree.2.dealt⟩⟩
    | inr hfull =>
      obtain ⟨before, text, hframes, hfin⟩ := hfull
      exact .inr ⟨before, text, hframes, hfin.move rfl rfl rfl⟩
  | getFrame =>
    simp only [threadStep] at hs
    cases hfinsh : frame.finsh with
    | false =>
      simp only [hfinsh, Bool.false_eq_true, ↓reduceIte, Option.some.injEq] at hs
      subst hs
      cases h with
      | inl hfree => exact .inl ⟨hfree.1, ⟨hfree.2.holds, hfree.2.dealt⟩⟩
      | inr hfull =>
        obtain ⟨before, text, hframes, hfin⟩ := hfull
        have := hfin.finsh
        simp [hfinsh] at this
    | true =>
      simp only [hfinsh, ↓reduceIte, Option.some.injEq] at hs
      subst hs
      cases h with
      | inl hfree =>
        have := hfree.1
        simp [hfinsh] at this
      | inr hfull =>
        obtain ⟨before, text, hframes, hfin⟩ := hfull
        exact ⟨before, text, hframes, hfin.move rfl rfl rfl⟩
  | terminate =>
    obtain ⟨before, text, hframes, hfin⟩ := h
    obtain ⟨f, hf, hfin', hterm⟩ := terminate_finished hfin
    simp only [threadStep] at hs
    obtain ⟨g, hg, heq⟩ := Option.bind_eq_some_iff.mp hs
    cases heq
    obtain rfl : f = g := Option.some.inj (hf.symm.trans hg)
    exact ⟨before, text, hframes, hfin', hterm⟩
  | jsonDealCmd =>
    cases hs
    obtain ⟨before, text, hframes, hfin, hterm⟩ := h
    have htext := hfin.text_eq hline hframes hterm
    refine ⟨before, ?_, rfl, ?_⟩
    · rw [htext]
      exact hframes
    · rw [htext]
      exact hfin.move rfl rfl rfl
  | dealing given unchanged =>
    cases hs
    obtain ⟨before, hframes, hsame, hfin⟩ := h
    refine ⟨given, hfin.finsh, hfin.holds, hfin.line, ?_⟩
    simp only at hframes
    rw [hframes, served_append, ← hfin.dealt, hsame]
  | delay =>
    cases hs
    cases h with
    | inl hfree => exact .inl ⟨hfree.1, ⟨hfree.2.holds, hfree.2.dealt⟩⟩
    | inr hfull =>
      obtain ⟨before, text, hframes, hfin⟩ := hfull
      exact .inr ⟨before, text, hframes, hfin.move rfl rfl rfl⟩

/-- A byte goes behind the ones of its own frame. -/
theorem byte_sound {s s' : State} {b : UInt8} (h : Sound s) (hc : Free s (.byte b))
    (hs : step s (.byte b) s') : Sound s' := by
  obtain ⟨frame, pc, line, frames, dealt⟩ := s
  simp only [step, next] at hs
  split at hs
  · obtain ⟨f, hf, heq⟩ := Option.bind_eq_some_iff.mp hs
    cases heq
    have hrec : Receiving ⟨frame, pc, line, frames, dealt⟩ →
        ∀ pc', Receiving ⟨f, pc', line ++ [b], frames, dealt⟩ ∧ f.finsh = frame.finsh := by
      intro hrec pc'
      obtain ⟨g, hg, hholds, hfinsh⟩ := append_holds hrec.holds b
      obtain rfl : f = g := Option.some.inj (hf.symm.trans hg)
      exact ⟨⟨hholds, hrec.dealt⟩, hfinsh⟩
    have hfull : ∀ {text dealt'}, frame.finsh = false →
        ¬ Finished ⟨frame, pc, line, frames, dealt⟩ text dealt' := by
      intro text dealt' hfree hfin
      have := hfin.finsh
      simp [hfree] at this
    cases pc with
    | restartLen boot => exact absurd hc id
    | restartFinsh boot =>
      obtain ⟨hnow, hfinsh⟩ := hrec h.1 (.restartFinsh boot)
      exact ⟨hnow, hfinsh.trans h.2⟩
    | jsonTx | getFrame | delay =>
      cases h with
      | inl hfree =>
        obtain ⟨hnow, hfinsh⟩ := hrec hfree.2 _
        exact .inl ⟨hfinsh.trans hfree.1, hnow⟩
      | inr hother =>
        obtain ⟨before, text, _, hfin⟩ := hother
        exact absurd hfin (hfull hc)
    | terminate =>
      obtain ⟨before, text, _, hfin⟩ := h
      exact absurd hfin (hfull hc)
    | jsonDealCmd =>
      obtain ⟨before, text, _, hfin, _⟩ := h
      exact absurd hfin (hfull hc)
    | dealing given unchanged =>
      obtain ⟨before, _, _, hfin⟩ := h
      exact absurd hfin (hfull hc)
  · cases hs

/-- The idle line closes the frame. -/
theorem idle_sound {s s' : State} (h : Sound s) (hc : Free s .idle) (hs : step s .idle s') :
    Sound s' := by
  obtain ⟨frame, pc, line, frames, dealt⟩ := s
  simp only [step, next] at hs
  split at hs
  · next hne =>
    cases hs
    cases pc with
    | restartLen boot =>
      cases boot with
      | true => exact absurd h.2.1 hne
      | false =>
        obtain ⟨text, hfin⟩ := h
        exact absurd hfin.line hne
    | restartFinsh boot => exact absurd hc id
    | jsonTx | getFrame | delay =>
      cases h with
      | inl hfree =>
        refine .inr ⟨frames, line, rfl, rfl, ?_, rfl, hfree.2.dealt⟩
        exact ⟨hfree.2.holds.len_eq, hfree.2.holds.last, hfree.2.holds.contents⟩
      | inr hother =>
        obtain ⟨before, text, _, hfin⟩ := hother
        exact absurd hfin.line hne
    | terminate =>
      obtain ⟨before, text, _, hfin⟩ := h
      exact absurd hfin.line hne
    | jsonDealCmd =>
      obtain ⟨before, text, _, hfin, _⟩ := h
      exact absurd hfin.line hne
    | dealing given unchanged =>
      obtain ⟨before, _, _, hfin⟩ := h
      exact absurd hfin.line hne
  · cases hs

theorem step_sound {s s' : State} {e : Event} (hline : OnLine s) (h : Sound s) (hc : Free s e)
    (hs : step s e s') : Sound s' := by
  cases e with
  | byte b => exact byte_sound h hc hs
  | idle => exact idle_sound h hc hs
  | thread => exact thread_sound hline h hs

theorem run_sound {events : List Event} {s : State}
    (hrun : Runs (restrict Free step) initial events s) : OnLine s ∧ Sound s := by
  apply hrun.invariant (fun _ s => OnLine s ∧ Sound s) ⟨onLine_initial, sound_initial⟩
  intro events s e s' h hstep
  exact ⟨step_onLine h.1 hstep.2, step_sound h.1 h.2 hstep.1 hstep.2⟩

/-- Statements of the loop until a finished frame has been dealt with. -/
def Pc.distance : Pc → Nat
  | .delay => 6
  | .jsonTx => 5
  | .getFrame => 4
  | .terminate => 3
  | .jsonDealCmd => 2
  | .dealing _ _ => 1
  | .restartLen _ | .restartFinsh _ => 0

/-- One statement takes the loop nearer to the end of `json_deal_cmd`. -/
theorem thread_nearer {s : State} (hs : Sound s) (hpos : 0 < s.pc.distance)
    (hfinsh : s.frame.finsh = true) :
    ∃ s', threadStep s = some s' ∧ s'.frames = s.frames ∧ s'.frame.finsh = true ∧
      s'.pc.distance + 1 = s.pc.distance ∧ (s'.pc.distance = 0 → s'.pc = .restartLen false) := by
  obtain ⟨frame, pc, line, frames, dealt⟩ := s
  simp only at hfinsh
  cases pc with
  | restartLen boot => simp [Pc.distance] at hpos
  | restartFinsh boot => simp [Pc.distance] at hpos
  | jsonTx => exact ⟨_, rfl, rfl, hfinsh, rfl, nofun⟩
  | getFrame =>
    refine ⟨⟨frame, .terminate, line, frames, dealt⟩, ?_, rfl, hfinsh, rfl, nofun⟩
    simp [threadStep, hfinsh]
  | terminate =>
    obtain ⟨before, text, _, hfin⟩ := hs
    obtain ⟨f, hf, hfin', _⟩ := terminate_finished hfin
    refine ⟨⟨f, .jsonDealCmd, line, frames, dealt⟩, ?_, rfl, hfin'.finsh, rfl, nofun⟩
    simp only at hf
    simp [threadStep, hf]
  | jsonDealCmd => exact ⟨_, rfl, rfl, hfinsh, rfl, nofun⟩
  | dealing given unchanged => exact ⟨_, rfl, rfl, hfinsh, rfl, fun _ => rfl⟩
  | delay => exact ⟨_, rfl, rfl, hfinsh, rfl, nofun⟩

/-- Left alone, the loop deals with the frame that is waiting. -/
theorem thread_serves {n : Nat} {s : State} (hline : OnLine s) (hs : Sound s)
    (hfinsh : s.frame.finsh = true) (hn : s.pc.distance = n) (hpos : 0 < n) :
    ∃ s', Runs step s (List.replicate n .thread) s' ∧ s'.dealt = served s.frames := by
  induction n generalizing s with
  | zero => omega
  | succ n ih =>
    obtain ⟨t, ht, hframes, hfin, hdist, hend⟩ := thread_nearer hs (by omega) hfinsh
    have hsound := thread_sound hline hs ht
    have hstep : step s .thread t := ht
    by_cases hzero : n = 0
    · subst hzero
      refine ⟨t, .cons hstep .init, ?_⟩
      obtain ⟨frame, pc, line, frames, dealt⟩ := t
      obtain rfl : pc = .restartLen false := hend (by omega)
      obtain ⟨text, hdone⟩ := hsound
      rw [hdone.dealt, hframes]
    · obtain ⟨s', hrun, hdealt⟩ := ih (step_onLine hline hstep) hsound hfin (by omega) (by omega)
      exact ⟨s', .cons hstep hrun, by rw [hdealt, hframes]⟩

/-- Whether the frames so far have all been dealt with. -/
theorem Sound.dealt_or_waiting {s : State} (h : Sound s) :
    s.dealt = served s.frames ∨
      (∃ before text, s.frames = before ++ [text] ∧ s.dealt = served before) ∧
        s.frame.finsh = true ∧ 0 < s.pc.distance := by
  obtain ⟨frame, pc, line, frames, dealt⟩ := s
  cases pc with
  | restartLen boot =>
    cases boot with
    | true => exact .inl h.2.2.dealt
    | false =>
      obtain ⟨text, hfin⟩ := h
      exact .inl hfin.dealt
  | restartFinsh boot => exact .inl h.1.dealt
  | jsonTx | getFrame | delay =>
    cases h with
    | inl hfree => exact .inl hfree.2.dealt
    | inr hfull =>
      obtain ⟨before, text, hframes, hfin⟩ := hfull
      exact .inr ⟨⟨before, text, hframes, hfin.dealt⟩, hfin.finsh, by simp [Pc.distance]⟩
  | terminate =>
    obtain ⟨before, text, hframes, hfin⟩ := h
    exact .inr ⟨⟨before, text, hframes, hfin.dealt⟩, hfin.finsh, by simp [Pc.distance]⟩
  | jsonDealCmd =>
    obtain ⟨before, text, hframes, hfin, _⟩ := h
    exact .inr ⟨⟨before, text, hframes, hfin.dealt⟩, hfin.finsh, by simp [Pc.distance]⟩
  | dealing given unchanged =>
    obtain ⟨before, hframes, _, hfin⟩ := h
    exact .inr ⟨⟨before, given, hframes, hfin.dealt⟩, hfin.finsh, by simp [Pc.distance]⟩

/-- In every run in which each byte finds the frame free, `json_deal_cmd` has had
the frames of the line in order, each once, alone and unchanged, the last one
excepted that it may still be due; and left alone the loop then deals with it. -/
theorem run_served {events : List Event} {s : State}
    (hrun : Runs (restrict Free step) initial events s) :
    (s.dealt = served s.frames ∨
      ∃ before text, s.frames = before ++ [text] ∧ s.dealt = served before) ∧
      ∃ n s', Runs step s (List.replicate n .thread) s' ∧ s'.dealt = served s.frames := by
  obtain ⟨hline, hsound⟩ := run_sound hrun
  cases hsound.dealt_or_waiting with
  | inl hdone => exact ⟨.inl hdone, 0, s, .init, hdone⟩
  | inr hwaits =>
    obtain ⟨hbefore, hfinsh, hpos⟩ := hwaits
    obtain ⟨s', hserves⟩ := thread_serves hline hsound hfinsh rfl hpos
    exact ⟨.inr hbefore, _, s', hserves⟩

/-- Two frames come in before the loop looks: it finds one. -/
theorem frames_merged :
    ∃ events s, Runs step initial events s ∧ s.frames = [[0x61], [0x62]] ∧
      s.dealt = [([0x61, 0x62], true)] ∧ s.pc = .restartLen false := by
  refine ⟨[.thread, .thread, .byte 0x61, .idle, .byte 0x62, .idle, .thread, .thread, .thread,
    .thread, .thread], ?_⟩
  exact ⟨_, .of_foldlM rfl, rfl, rfl, rfl⟩

/-- One frame dealt with, and the next waiting for the loop. -/
theorem run_served_one :
    ∃ s, Runs (restrict Free step) initial
        ([.thread, .thread, .byte 0x61, .byte 0x62, .idle] ++ List.replicate 7 .thread ++
          [.byte 0x63, .idle]) s ∧
      s.frames = [[0x61, 0x62], [0x63]] ∧ s.dealt = [([0x61, 0x62], true)] ∧
      ∃ n s', Runs step s (List.replicate n .thread) s' ∧
        s'.dealt = [([0x61, 0x62], true), ([0x63], true)] := by
  have hrun : Runs (restrict Free step) initial
      ([.thread, .thread, .byte 0x61, .byte 0x62, .idle] ++ List.replicate 7 .thread ++
        [.byte 0x63, .idle]) _ := .of_checked rfl
  exact ⟨_, hrun, rfl, rfl, (run_served hrun).2⟩

end StmGateway.Net.Upload
