import StmGateway.At.Fields
import StmGateway.At.Getters
import StmGateway.At.Link

/-!
# The module's answer to a query

An answer is a lead without `=`, the `=`, the quoted parameters and "OK"; idle
lines and polls may fall anywhere among its bytes. A poll that meets a finished
frame too early drops what has arrived. Where none does, except within the lead,
the getter copies the parameters the module sent.
-/
namespace StmGateway.At.Delivery

open StmGateway.Lib StmGateway.At.Parameter StmGateway.At.Setters StmGateway.At.Getters
open StmGateway.At.Link
open StmGateway.Uart.RxBuffer (RxFrame rxAppend rxIdle atkIde01UartRxRestart atkIde01UartRxGetFrame
  Holds append_holds getFrame_terminates Terminated fill_of_le)

/-- `atk_ide01_send_at_cmd` on the frame and on what the line brings for each
command, and on success the frame that a getter then fetches. -/
def sendVia (f : RxFrame) (line : List UInt8 → List Event) : Send := fun cmd => do
  let (ret, f) ← atkIde01SendAtCmd (some okAck) atkIde01AtTimeout f (line cmd)
  if ret ≠ .eok then return (ret, f.buf)
  let (got, f) ← atkIde01UartRxGetFrame f
  if got then return (.eok, f.buf) else none

def render (lead : List UInt8) (params : List (List UInt8 × List UInt8)) (gap tail : List UInt8) :
    List UInt8 :=
  lead ++ 0x3d :: (params.flatMap field ++ gap) ++ okAck ++ tail

/-- A complete answer. `params` has each parameter with the text before its
opening quote; `gap` comes before the "OK" and `tail` after it. -/
structure Answer where
  lead : List UInt8
  params : List (List UInt8 × List UInt8)
  gap : List UInt8
  tail : List UInt8
  nul : 0 ∉ render lead params gap tail
  equals : 0x3d ∉ lead
  quotes : ∀ p ∈ params, 0x22 ∉ p.1 ∧ 0x22 ∉ p.2
  room : (render lead params gap tail).length ≤ 255

namespace Answer

variable (a : Answer)

def bytes : List UInt8 := render a.lead a.params a.gap a.tail

/-- The answer up to its "OK". -/
def core : List UInt8 := a.lead ++ 0x3d :: (a.params.flatMap field ++ a.gap) ++ okAck

def values : List (List UInt8) := a.params.map Prod.snd

theorem bytes_eq : a.bytes = a.core ++ a.tail := rfl

theorem core_le : a.core.length ≤ a.bytes.length := by
  rw [bytes_eq, List.length_append]
  exact Nat.le_add_right _ _

theorem lead_le : a.lead.length ≤ a.core.length := by
  rw [core, List.append_assoc, List.length_append]
  exact Nat.le_add_right _ _

theorem plain : PlainFields a.params := by
  intro p hp
  have hnul : 0 ∉ field p := by
    intro h
    apply a.nul
    simp only [render, List.mem_append, List.mem_cons, List.mem_flatMap]
    exact .inl (.inl (.inr (.inr (.inl ⟨p, hp, h⟩))))
  obtain ⟨hsep, hval⟩ := a.quotes p hp
  simp only [field, List.mem_append, List.mem_cons, not_or] at hnul
  exact ⟨⟨hnul.1.1, hsep⟩, hnul.1.2.2, hval⟩

/-- What is in the frame when `n` bytes have arrived and the first `d` of them
were dropped. -/
def since (d n : Nat) : List UInt8 := (a.bytes.take n).drop d

theorem nul_since (d n : Nat) : 0 ∉ a.since d n :=
  fun h => a.nul (List.mem_of_mem_take (List.mem_of_mem_drop h))

theorem since_length_le (d n : Nat) : (a.since d n).length ≤ 255 := by
  have := a.room
  rw [since, List.length_drop, List.length_take]
  change a.bytes.length ≤ 255 at this
  omega

theorem since_self (n : Nat) : a.since n n = [] := by
  rw [since, List.drop_eq_nil_iff, List.length_take]
  omega

/-- A dropped part of the lead leaves an answer with a shorter lead. -/
theorem core_prefix {d n : Nat} (hd : d ≤ a.lead.length) (hn : a.core.length ≤ n) :
    a.lead.drop d ++ 0x3d :: (a.params.flatMap field ++ a.gap) ++ okAck <+: a.since d n := by
  have hcore : a.core.drop d =
      a.lead.drop d ++ 0x3d :: (a.params.flatMap field ++ a.gap) ++ okAck := by
    rw [core, List.append_assoc, List.append_assoc, List.drop_append_of_le_length hd]
  rw [← hcore, since, bytes_eq, List.take_append, List.take_of_length_le hn,
    List.drop_append_of_le_length (hd.trans a.lead_le)]
  exact List.prefix_append _ _

theorem since_lead {d n : Nat} (hn : n ≤ a.lead.length) : a.since d n = (a.lead.take n).drop d := by
  rw [since, bytes, render, List.append_assoc, List.append_assoc,
    List.take_append_of_le_length hn]

theorem since_succ {d n : Nat} {b : UInt8} {rest : List UInt8} (hdn : d ≤ n)
    (hrest : a.bytes.drop n = b :: rest) : a.since d (n + 1) = a.since d n ++ [b] := by
  have hget : a.bytes[n]? = some b := by
    rw [← List.head?_drop, hrest]
    rfl
  have hlt : n < a.bytes.length := (List.getElem?_eq_some_iff.mp hget).1
  rw [since, List.take_add_one, hget]
  exact List.drop_append_of_le_length (by rw [List.length_take]; omega)

end Answer

def burst (text : String) : List Event := (ascii text).map .byte

/-- The bytes of a schedule. -/
def arrived : List Event → List UInt8
  | [] => []
  | .byte b :: events => b :: arrived events
  | .idle :: events => arrived events
  | .poll :: events => arrived events

def polls : List Event → Nat
  | [] => 0
  | .byte _ :: events => polls events
  | .idle :: events => polls events
  | .poll :: events => polls events + 1

/-- The whole answer arrives before the timeout: then the line is idle and a
poll follows. -/
structure Brings (a : Answer) (before events : List Event) : Prop where
  split : ∃ after, events = before ++ .idle :: .poll :: after
  arrived_eq : arrived before = a.bytes
  in_time : polls before < atkIde01AtTimeout

/-- A poll that finds a finished frame comes when no more than `quiet` bytes have
arrived, or the first `core` bytes. `n` have arrived before these events, and
`closed` says that the frame is finished. -/
def Undisturbed (quiet core : Nat) : Nat → Bool → List Event → Prop
  | _, _, [] => True
  | n, closed, .byte _ :: events => Undisturbed quiet core (n + 1) closed events
  | n, _, .idle :: events => Undisturbed quiet core n true events
  | n, true, .poll :: events => core ≤ n ∨ n ≤ quiet ∧ Undisturbed quiet core n false events
  | n, false, .poll :: events => Undisturbed quiet core n false events

instance decidableUndisturbed (quiet core : Nat) :
    ∀ n closed events, Decidable (Undisturbed quiet core n closed events)
  | _, _, [] => isTrue trivial
  | n, closed, .byte _ :: events => decidableUndisturbed quiet core (n + 1) closed events
  | n, _, .idle :: events => decidableUndisturbed quiet core n true events
  | n, true, .poll :: events =>
    have := decidableUndisturbed quiet core n false events
    inferInstanceAs (Decidable (core ≤ n ∨ n ≤ quiet ∧ Undisturbed quiet core n false events))
  | n, false, .poll :: events => decidableUndisturbed quiet core n false events

/-- In one burst there is no finished frame before the end. -/
theorem burst_undisturbed {quiet core n : Nat} {before after : List Event}
    (hburst : .idle ∉ before) (hcore : core ≤ n + (arrived before).length) :
    Undisturbed quiet core n false (before ++ .idle :: .poll :: after) := by
  induction before generalizing n with
  | nil => exact .inl (by simpa [arrived] using hcore)
  | cons e before ih =>
    have hrest : .idle ∉ before := fun h => hburst (List.mem_cons_of_mem _ h)
    cases e with
    | byte b =>
      apply ih hrest
      rw [arrived, List.length_cons] at hcore
      omega
    | idle => exact absurd List.mem_cons_self hburst
    | poll => exact ih hrest hcore

variable {a : Answer}

/-- A start of the lead that does not say "OK". -/
structure Quiet (a : Answer) (quiet : Nat) : Prop where
  le : quiet ≤ a.lead.length
  silent : ¬ okAck <:+: a.lead.take quiet

theorem quiet_zero (a : Answer) : Quiet a 0 := by
  constructor
  · exact Nat.zero_le _
  · rw [List.take_zero]
    decide

/-- A poll of a finished frame, when nothing else than such a start is in it. -/
theorem poll_lead {f : RxFrame} {quiet d n : Nat} (hquiet : Quiet a quiet)
    (h : Holds f (a.since d n)) (hf : f.finsh = true) (hn : n ≤ quiet) :
    ∃ f', poll (some okAck) f = some (false, f') ∧ Holds f' [] ∧ f'.finsh = false := by
  obtain ⟨f', hholds, _, hterm, hpoll⟩ := poll_finished h hf okAck
  have htext : f'.text = a.since d n :=
    hholds.text_eq hterm (a.nul_since d n) ((a.since_length_le d n).trans (by decide))
  have hnot : (strstr f'.text okAck).isSome = false := by
    rw [Bool.eq_false_iff]
    intro hsome
    rw [strstr_isSome, htext, a.since_lead (hn.trans hquiet.le)] at hsome
    have hprefix : a.lead.take n <+: a.lead.take quiet := List.take_prefix_take_left hn
    exact hquiet.silent (hsome.trans ((List.drop_suffix _ _).isInfix.trans hprefix.isInfix))
  exact ⟨_, by simp [hpoll, hnot], restart_holds hholds.last, rfl⟩

/-- A poll of a finished frame that has the "OK". -/
theorem poll_core {f : RxFrame} {d n : Nat} (h : Holds f (a.since d n)) (hf : f.finsh = true)
    (hd : d ≤ a.lead.length) (hn : a.core.length ≤ n) :
    ∃ f', poll (some okAck) f = some (true, f') ∧ Holds f' (a.since d n) ∧ f'.finsh = true := by
  obtain ⟨f', hholds, hfinsh, hterm, hpoll⟩ := poll_finished h hf okAck
  have htext : f'.text = a.since d n :=
    hholds.text_eq hterm (a.nul_since d n) ((a.since_length_le d n).trans (by decide))
  have hok : (strstr f'.text okAck).isSome = true := by
    rw [strstr_isSome, htext]
    exact (List.suffix_append _ _).isInfix.trans (a.core_prefix hd hn).isInfix
  exact ⟨f', by simp [hpoll, hok], hholds, hfinsh⟩

/-- The loop ends at a poll that finds everything from the end of the lead to
the "OK" in the frame. -/
theorem pollLoop_undisturbed {quiet : Nat} {before after : List Event} (hquiet : Quiet a quiet)
    {f : RxFrame} {d n timeout : Nat} (hholds : Holds f (a.since d n)) (hd : d ≤ a.lead.length)
    (hdn : d ≤ n) (hrest : a.bytes.drop n = arrived before) (htime : polls before < timeout)
    (hclean : Undisturbed quiet a.core.length n f.finsh
      (before ++ .idle :: .poll :: after)) :
    ∃ f' d' m, pollLoop (some okAck) timeout f (before ++ .idle :: .poll :: after) =
        some (.eok, f') ∧ Holds f' (a.since d' m) ∧ f'.finsh = true ∧ d' ≤ a.lead.length ∧
        a.core.length ≤ m := by
  induction before generalizing f d n timeout with
  | nil =>
    obtain ⟨timeout, rfl⟩ : ∃ t, timeout = t + 1 := ⟨timeout - 1, by omega⟩
    have hn : a.core.length ≤ n :=
      a.core_le.trans (List.drop_eq_nil_iff.mp hrest)
    obtain ⟨f', hpoll, hholds', hfinsh⟩ := poll_core (idle_holds hholds) rfl hd hn
    refine ⟨f', d, n, ?_, hholds', hfinsh, hd, hn⟩
    simp [pollLoop, hpoll]
  | cons e before ih =>
    obtain ⟨timeout, rfl⟩ : ∃ t, timeout = t + 1 := ⟨timeout - 1, by omega⟩
    cases e with
    | byte b =>
      rw [arrived] at hrest
      obtain ⟨f₁, hstore, hholds₁, hfinsh₁⟩ := append_holds hholds b
      rw [← a.since_succ hdn hrest] at hholds₁
      have hrest₁ : a.bytes.drop (n + 1) = arrived before := by
        rw [← List.drop_drop, hrest]
        rfl
      obtain ⟨f', d', m, hloop, hend⟩ := ih hholds₁ hd (by omega) hrest₁ htime
        (by rw [hfinsh₁]; exact hclean)
      refine ⟨f', d', m, ?_, hend⟩
      simpa [pollLoop, hstore] using hloop
    | idle =>
      obtain ⟨f', d', m, hloop, hend⟩ := ih (idle_holds hholds) hd hdn hrest htime hclean
      exact ⟨f', d', m, hloop, hend⟩
    | poll =>
      rw [polls] at htime
      cases hfinsh : f.finsh with
      | false =>
        rw [hfinsh] at hclean
        obtain ⟨f', d', m, hloop, hend⟩ := ih hholds hd hdn hrest (show polls before < timeout by omega)
          (by rw [hfinsh]; exact hclean)
        refine ⟨f', d', m, ?_, hend⟩
        simpa [pollLoop, poll_unfinished hfinsh] using hloop
      | true =>
        rw [hfinsh] at hclean
        cases hclean with
        | inl hn =>
          obtain ⟨f', hpoll, hholds', hfinsh'⟩ := poll_core hholds hfinsh hd hn
          refine ⟨f', d, n, ?_, hholds', hfinsh', hd, hn⟩
          simp [pollLoop, hpoll]
        | inr hlead =>
          obtain ⟨hn, hclean⟩ := hlead
          obtain ⟨f₁, hpoll, hholds₁, hfinsh₁⟩ := poll_lead hquiet hholds hfinsh hn
          rw [← a.since_self n] at hholds₁
          obtain ⟨f', d', m, hloop, hend⟩ := ih hholds₁ (hn.trans hquiet.le) le_rfl
            hrest
            (show polls before < timeout by omega) (by rw [hfinsh₁]; exact hclean)
          refine ⟨f', d', m, ?_, hend⟩
          simpa [pollLoop, hpoll] using hloop

/-- The getter gets a frame that starts with the rest of the lead and has the
answer up to its "OK". -/
theorem sendVia_undisturbed {f : RxFrame} {earlier : List UInt8} {line : List UInt8 → List Event}
    {cmd : List UInt8} {before : List Event} {quiet : Nat} (hquiet : Quiet a quiet)
    (hf : Holds f earlier) (hbrings : Brings a before (line cmd))
    (hclean : Undisturbed quiet a.core.length 0 false (line cmd)) :
    ∃ buf d m, sendVia f line cmd = some (.eok, buf) ∧ ReadsAt buf 0 (a.since d m) ∧
      d ≤ a.lead.length ∧ a.core.length ≤ m := by
  obtain ⟨after, hsplit⟩ := hbrings.split
  rw [hsplit] at hclean
  have hempty : Holds (atkIde01UartRxRestart f) (a.since 0 0) := restart_holds hf.last
  obtain ⟨f₁, d, m, hloop, hholds, hfinsh, hd, hm⟩ := pollLoop_undisturbed hquiet hempty
    (Nat.zero_le _) le_rfl hbrings.arrived_eq.symm hbrings.in_time hclean
  obtain ⟨f₂, hget, hholds₂, _, _⟩ := getFrame_terminates hholds hfinsh
  have hlen : f₂.len = (a.since d m).length := by
    rw [hholds₂.len_eq, fill_of_le ((a.since_length_le d m).trans (by decide))]
  refine ⟨f₂.buf, d, m, ?_, ?_, hd, hm⟩
  · have hsend : atkIde01SendAtCmd (some okAck) atkIde01AtTimeout f (line cmd) = some (.eok, f₁) := by
      rw [hsplit, atkIde01SendAtCmd, if_neg (by decide)]
      exact hloop
    simp [sendVia, hsend, hget]
  · intro j hj
    have := hholds₂.contents j (by omega)
    rw [hlen, Nat.sub_self] at this
    simpa using this

/-- Each parameter of the answer is found. -/
theorem copyParameter_returns {buf : Nat → UInt8} {d m i : Nat}
    (hread : ReadsAt buf 0 (a.since d m)) (hd : d ≤ a.lead.length) (hm : a.core.length ≤ m)
    (hi : i < a.params.length) (stack : Stack) :
    Returns (copyParameter buf (UInt8.ofNat (i + 1)) stack) (.eok, (a.params[i]).2) := by
  obtain ⟨more, hmore⟩ := a.core_prefix hd hm
  have hsince : a.since d m = (a.lead.drop d ++ 0x3d :: (a.params.take (i + 1)).flatMap field) ++
      ((a.params.drop (i + 1)).flatMap field ++ a.gap ++ okAck ++ more) := by
    rw [← hmore, fields_take a.params (i + 1)]
    simp only [List.append_assoc, List.cons_append]
  have hlen := a.since_length_le d m
  rw [hsince] at hread hlen
  rw [List.length_append] at hlen
  obtain ⟨off, hret, hval', hoff⟩ := getParameter_returns
    ⟨fun h => a.nul (by simp [render, List.mem_of_mem_drop h]),
      fun h => a.equals (List.mem_of_mem_drop h)⟩ a.plain hi (by omega) (readsAt_append.mp hread).1 0 0
    (stack (UInt8.ofNat (i + 1))).1 (stack (UInt8.ofNat (i + 1))).2
  have hslice : slice buf (UInt16.ofNat off).toNat (UInt16.ofNat (a.params[i]).2.length).toNat =
      (a.params[i]).2 := by
    rw [UInt16.toNat_ofNat', UInt16.toNat_ofNat', Nat.mod_eq_of_lt (by omega),
      Nat.mod_eq_of_lt (by omega)]
    exact slice_of_readsAt hval'
  have hcopy := copyParameter_of_get hret
  rwa [hslice] at hcopy

/-- A frame with the parameters in it. -/
def Delivers (got : Option (Status × (Nat → UInt8))) (stack : Stack) (fuel : Nat)
    (values : List (List UInt8)) : Prop :=
  ∃ buf, got = some (.eok, buf) ∧ ∀ i, (hi : i < values.length) →
    copyParameter buf (UInt8.ofNat (i + 1)) stack fuel = some (.eok, values[i])

/-- A schedule that brings the answer undisturbed delivers its parameters. -/
theorem delivers_undisturbed {f : RxFrame} {earlier : List UInt8} {line : List UInt8 → List Event}
    {cmd : List UInt8} {before : List Event} {quiet : Nat} (hquiet : Quiet a quiet)
    (hf : Holds f earlier) (hbrings : Brings a before (line cmd))
    (hclean : Undisturbed quiet a.core.length 0 false (line cmd)) (stack : Stack) :
    ∃ bound, ∀ fuel, bound ≤ fuel → Delivers (sendVia f line cmd) stack fuel a.values := by
  obtain ⟨buf, d, m, hsend, hread, hd, hm⟩ := sendVia_undisturbed hquiet hf hbrings hclean
  obtain ⟨bound, hbound⟩ := Returns.all (n := a.params.length)
    (f := fun i => copyParameter buf (UInt8.ofNat (i + 1)) stack)
    (a := fun i => (.eok, (a.values.getD i [])))
    fun i hi => by
      simpa [Answer.values, hi] using copyParameter_returns hread hd hm hi stack
  refine ⟨bound, fun fuel hle => ⟨buf, hsend, fun i hi => ?_⟩⟩
  rw [hbound fuel hle i (by simpa [Answer.values] using hi)]
  simp [hi]

variable {send : Send} {stack : Stack} {fuel : Nat} {values : List (List UInt8)} {β : Type}

/-- A getter of one parameter decodes the text that was delivered. -/
theorem queryOne_delivered {cmd : Cmd} {decode : List UInt8 → Option (Status × Option β)}
    (num : UInt8) (i : Nat) (hnum : num = UInt8.ofNat (i + 1))
    (h : Delivers (send cmd.text) stack fuel values) (hi : i < values.length) :
    queryOne send cmd num stack fuel decode = decode values[i] := by
  obtain ⟨buf, hsend, hcopy⟩ := h
  have hfound := hcopy i hi
  rw [← hnum] at hfound
  simp [queryOne, query, hsend, hfound]

/-- So does a block of `atk_ide01_get_uart`. -/
theorem uartField_delivered {buf : Nat → UInt8} {size : Nat} {dst : Bool}
    {table : List (String × β)} (num : UInt8) (i : Nat) (hnum : num = UInt8.ofNat (i + 1))
    (hcopy : ∀ i, (hi : i < values.length) →
      copyParameter buf (UInt8.ofNat (i + 1)) stack fuel = some (.eok, values[i]))
    (hi : dst = true → i < values.length) :
    uartField buf stack fuel dst num size table =
      if dst then matchText size table (values.getD i []) else some (.eok, none) := by
  cases dst with
  | false => rfl
  | true =>
    have hlt := hi rfl
    have hfound := hcopy i hlt
    rw [← hnum] at hfound
    simp [uartField, hfound, List.getElem?_eq_getElem hlt]

/-- And a block of a link query. -/
theorem linkField_delivered {buf : Nat → UInt8} {dst : Bool} (num : UInt8) (i : Nat)
    (hnum : num = UInt8.ofNat (i + 1))
    (hcopy : ∀ i, (hi : i < values.length) →
      copyParameter buf (UInt8.ofNat (i + 1)) stack fuel = some (.eok, values[i]))
    (hi : dst = true → i < values.length) :
    linkField buf stack fuel dst num =
      if dst then some (.eok, some (storedText (values.getD i []))) else some (.eok, none) := by
  cases dst with
  | false => rfl
  | true =>
    have hlt := hi rfl
    have hfound := hcopy i hlt
    rw [← hnum] at hfound
    simp [linkField, hfound, List.getElem?_eq_getElem hlt]

end StmGateway.At.Delivery
