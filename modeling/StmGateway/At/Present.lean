import StmGateway.At.Fields
import StmGateway.At.Untouched

/-!
# Answers with the parameter

An answer in which a parameter is present, and the text that the getters copy
for it. The count of quotes goes round the first 256 bytes, so this is the
parameter where its closing quote is among them, and may be any text between two
quotes of them where it is not.
-/
namespace StmGateway.At.Present

open StmGateway.Lib StmGateway.At.Parameter StmGateway.At.Ring StmGateway.At.Getters
open StmGateway.At.Untouched

/-- An answer of the module: what stands before its first `=`, quoted parameters,
and whatever follows them. -/
structure Reply where
  lead : List UInt8
  params : List (List UInt8 × List UInt8)
  suffix : List UInt8
  lead_plain : 0 ∉ lead ∧ 0x3d ∉ lead
  params_plain : PlainFields params
  suffix_plain : 0 ∉ suffix
  length_le : (lead ++ 0x3d :: (params.flatMap field ++ suffix)).length ≤ 2047

namespace Reply

def text (a : Reply) : List UInt8 := a.lead ++ 0x3d :: (a.params.flatMap field ++ a.suffix)

/-- Parameter `num`. -/
def value (a : Reply) (num : UInt8) : List UInt8 := (a.params.getD (num.toNat - 1) ([], [])).2

/-- Its bytes and everything before them, with the closing quote. -/
def upTo (a : Reply) (num : UInt8) : List UInt8 :=
  a.lead ++ 0x3d :: (a.params.take num.toNat).flatMap field

/-- The answer has parameter `num`. -/
def Has (a : Reply) (num : UInt8) : Prop := num ≠ 0 ∧ num.toNat ≤ a.params.length

/-- The frame buffer holds the answer and its terminator. -/
structure In (a : Reply) (src : Nat → UInt8) : Prop where
  reads : ReadsAt src 0 a.text
  ends : src a.text.length = 0

/-- Counting quotes from the first `=` on, offsets modulo 256, string `num` is
`text`. -/
def Counted (a : Reply) (src : Nat → UInt8) (num : UInt8) (text : List UInt8) : Prop :=
  a.lead.length ≤ 255 ∧ ∃ o c, NthPair src (num.toNat - 1) a.lead.length o c ∧
    o % 256 < c % 256 ∧ text = slice src (o % 256 + 1) (c % 256 - (o % 256 + 1))

end Reply

variable {src : Nat → UInt8}

namespace Reply

variable {a : Reply} {num : UInt8} {stack : Stack}

theorem text_plain (a : Reply) : 0 ∉ a.text := by
  intro h
  simp only [text, List.mem_append, List.mem_cons] at h
  rcases h with h | h | h | h
  · exact a.lead_plain.1 h
  · exact absurd h (by decide)
  · exact nul_fields a.params_plain h
  · exact a.suffix_plain h

theorem value_plain (a : Reply) (num : UInt8) : 0 ∉ a.value num := by
  intro h
  rw [value, List.getD_eq_getElem?_getD] at h
  cases hget : a.params[num.toNat - 1]? with
  | none =>
    rw [hget] at h
    cases h
  | some p =>
    rw [hget] at h
    exact (a.params_plain p (List.mem_of_getElem? hget)).2.1 h

theorem text_split (a : Reply) (num : UInt8) :
    a.text = a.upTo num ++ ((a.params.drop num.toNat).flatMap field ++ a.suffix) := by
  rw [text, upTo, fields_take a.params num.toNat]
  simp only [List.append_assoc, List.cons_append]

theorem upTo_length_le (a : Reply) (num : UInt8) : (a.upTo num).length ≤ a.text.length := by
  rw [a.text_split num, List.length_append]
  exact Nat.le_add_right _ _

theorem Has.value_eq (h : a.Has num) : ∃ hk : num.toNat - 1 < a.params.length,
    a.value num = a.params[num.toNat - 1].2 := by
  have hpos : num.toNat ≠ 0 := fun hnum => h.1 (UInt8.toNat_inj.mp hnum)
  have hle := h.2
  have hk : num.toNat - 1 < a.params.length := by omega
  refine ⟨hk, ?_⟩
  rw [value, List.getD_eq_getElem?_getD, List.getElem?_eq_getElem hk, Option.getD_some]

theorem Has.succ (h : a.Has num) : num.toNat - 1 + 1 = num.toNat := by
  have hpos : num.toNat ≠ 0 := fun hnum => h.1 (UInt8.toNat_inj.mp hnum)
  omega

theorem Has.value_length_le (h : a.Has num) : (a.value num).length ≤ 2047 := by
  obtain ⟨hk, hvalue⟩ := h.value_eq
  have hle := (a.upTo_length_le num).trans a.length_le
  have hpos : num.toNat - 1 + 1 = num.toNat := h.succ
  rw [upTo, ← hpos, fields_split hk, List.length_append, List.length_cons, List.length_append,
    field_length] at hle
  rw [hvalue]
  omega

namespace In

variable (h : a.In src)

include h

theorem answer : Answer src a.text.length := by
  refine ⟨fun j hj hnul => a.text_plain ?_, h.ends⟩
  have hmem := h.reads.mem hj
  rwa [Nat.zero_add, hnul] at hmem

theorem upTo_reads (num : UInt8) : ReadsAt src 0 (a.upTo num) := by
  have hreads := h.reads
  rw [a.text_split num, readsAt_append] at hreads
  exact hreads.1

theorem equals : src a.lead.length = 0x3d := by
  have hreads := h.reads
  rw [text, readsAt_append, readsAt_cons, Nat.zero_add] at hreads
  exact hreads.2.1

theorem before : ∀ j < a.lead.length, src j ≠ 0 ∧ src j ≠ 0x3d := by
  intro j hj
  have hreads := h.reads
  rw [text, readsAt_append] at hreads
  have hmem := hreads.1.mem hj
  rw [Nat.zero_add] at hmem
  exact ⟨fun hnul => a.lead_plain.1 (hnul ▸ hmem), fun heq => a.lead_plain.2 (heq ▸ hmem)⟩

theorem seek (hlead : a.lead.length ≤ 255) :
    Returns (fun fuel => seekEquals src fuel 0) (UInt8.ofNat a.lead.length) :=
  seekEquals_stops hlead (.inr h.equals) (Nat.zero_le _) fun j _ hj => h.before j hj

/-- The quotes of a parameter in reach. -/
theorem pair (hhas : a.Has num) (hclose : (a.upTo num).length ≤ 256) :
    ∃ o, NthPair src (num.toNat - 1) a.lead.length o (o + 1 + (a.value num).length) ∧
      ReadsAt src (o + 1) (a.value num) ∧ o + 1 + (a.value num).length + 1 = (a.upTo num).length := by
  obtain ⟨hk, hvalue⟩ := hhas.value_eq
  have hpair := @nthPair_answer src a.lead a.params a.params_plain (num.toNat - 1) hk
  rw [hhas.succ, ← hvalue] at hpair
  exact hpair hclose (h.upTo_reads num)

/-- The count passes no terminator. -/
theorem exists_pair (hhas : a.Has num)
    (hreach : (a.upTo num).length ≤ 256 ∨ ∃ q < 256, src q = 0x22) :
    ∃ o c, NthPair src (num.toNat - 1) a.lead.length o c ∧
      ∀ j, a.lead.length ≤ j → j < c → src (j % 256) ≠ 0 := by
  have hle := a.upTo_length_le num
  by_cases hclose : (a.upTo num).length ≤ 256
  · obtain ⟨o, hpair, _, hend⟩ := h.pair hhas hclose
    refine ⟨o, _, hpair, fun j _ hj => h.answer.inside _ ?_⟩
    rw [Nat.mod_eq_of_lt (by omega)]
    omega
  · obtain ⟨o, c, hpair⟩ := exists_nthPair (hreach.resolve_left hclose) (num.toNat - 1) a.lead.length
    exact ⟨o, c, hpair, fun j _ _ => h.answer.inside _ (by omega)⟩

/-- What the getters copy when the scan counts to the quotes at `o` and `c`. -/
theorem copy_pair (hhas : a.Has num) (hlead : a.lead.length ≤ 255) {o c : Nat}
    (hpair : NthPair src (num.toNat - 1) a.lead.length o c)
    (hnul : ∀ j, a.lead.length ≤ j → j < c → src (j % 256) ≠ 0) (stack : Stack) :
    Returns (copyParameter src num stack)
      (.eok, slice src (foundIndex o).toNat (foundLen o c).toNat) := by
  have hlt := num.toNat_lt
  have hsucc := hhas.succ
  obtain ⟨s, hscan, hindex, hlength⟩ := @ring_nth src true (stack num).1 (stack num).2
    (num.toNat - 1) _ o c hpair (by omega) hnul
  rw [hsucc, UInt8.ofNat_toNat] at hscan
  rw [← hindex, ← hlength rfl]
  exact copyParameter_of_get (getParameter_eok hhas.1 (h.seek hlead)
    (by rw [index_toNat hlead]; exact h.equals) hscan)

/-- A `=` out of reach is looked for without end. -/
theorem copy_far (hnum : num ≠ 0) (hlead : 255 < a.lead.length) (fuel : Nat) :
    copyParameter src num stack fuel = none := by
  apply copyParameter_none
  intro r
  exact seek_forever hnum fun j hj => h.before j (by omega)

/-- So are quotes. -/
theorem copy_forever (hhas : a.Has num) (hlead : a.lead.length ≤ 255)
    (hlong : 256 < (a.upTo num).length) (hquote : ∀ q < 256, src q ≠ 0x22) (fuel : Nat) :
    copyParameter src num stack fuel = none := by
  have hle := a.upTo_length_le num
  apply copyParameter_none
  intro r
  exact scan_forever h.answer hhas.1 ⟨_, by omega, h.equals⟩
    fun j hj => ⟨h.answer.inside j (by omega), hquote j hj⟩

/-- A copy that is made has status `ATK_IDE01_EOK`. -/
theorem copy_eok (hnum : num ≠ 0) {fuel : Nat} {ret : Status} {text : List UInt8}
    (hcopy : copyParameter src num stack fuel = some (ret, text)) : ret = .eok := by
  by_cases hlead : a.lead.length ≤ 255
  · exact (copyParameter_status hnum hcopy).mpr
      ⟨_, h.seek hlead, by rw [index_toNat hlead]; exact h.equals⟩
  · rw [h.copy_far hnum (by omega)] at hcopy
    cases hcopy

/-- The getters copy the text that the count comes to. -/
theorem copy_iff (hhas : a.Has num) {text : List UInt8} (hlen : text.length < 65280) (stack : Stack) :
    Returns (copyParameter src num stack) (.eok, text) ↔ a.Counted src num text := by
  by_cases hlead : a.lead.length ≤ 255
  · by_cases hreach : (a.upTo num).length ≤ 256 ∨ ∃ q < 256, src q = 0x22
    · obtain ⟨o, c, hpair, hnul⟩ := h.exists_pair hhas hreach
      have hcopy := h.copy_pair hhas hlead hpair hnul stack
      rw [foundIndex_toNat, foundLen_toNat] at hcopy
      constructor
      · intro hreturns
        have htext := congrArg Prod.snd (hreturns.unique hcopy)
        have hcount := congrArg List.length htext
        simp only [slice, List.length_map, List.length_range'] at hcount
        refine ⟨hlead, o, c, hpair, by omega, htext.trans ?_⟩
        change slice _ _ _ = _
        congr 1
        omega
      · intro hcounted
        obtain ⟨_, o', c', hpair', hlt, rfl⟩ := hcounted
        obtain ⟨rfl, rfl⟩ := hpair'.unique hpair
        rwa [show (c' % 256 + 65536 - (o' % 256 + 1)) % 65536 = c' % 256 - (o' % 256 + 1) by omega]
          at hcopy
    · obtain ⟨hlong, hquote⟩ := not_or.mp hreach
      constructor
      · intro hreturns
        obtain ⟨bound, hrun⟩ := hreturns
        have hforever : copyParameter src num stack bound = none :=
          h.copy_forever hhas hlead (by omega) (fun q hq hsrc => hquote ⟨q, hq, hsrc⟩) bound
        cases hforever.symm.trans (hrun bound le_rfl)
      · intro hcounted
        obtain ⟨_, o, _, hpair, _⟩ := hcounted
        exact absurd ⟨o % 256, Nat.mod_lt _ (by decide), hpair.quote⟩ hquote
  · refine ⟨fun hreturns => ?_, fun hcounted => absurd hcounted.1 hlead⟩
    obtain ⟨bound, hrun⟩ := hreturns
    cases (h.copy_far hhas.1 (by omega) bound).symm.trans (hrun bound le_rfl)

/-- In reach the count comes to the parameter. -/
theorem counted_iff (hhas : a.Has num) (hclose : (a.upTo num).length ≤ 256) {text : List UInt8} :
    a.Counted src num text ↔ text = a.value num := by
  obtain ⟨o, hpair, hread, hend⟩ := h.pair hhas hclose
  have hvalue : slice src (o % 256 + 1) ((o + 1 + (a.value num).length) % 256 - (o % 256 + 1)) =
      a.value num := by
    rw [Nat.mod_eq_of_lt (by omega), Nat.mod_eq_of_lt (by omega), Nat.add_sub_cancel_left]
    exact slice_of_readsAt hread
  have hle := hpair.le
  constructor
  · rintro ⟨_, o', c', hpair', _, rfl⟩
    obtain ⟨rfl, rfl⟩ := hpair'.unique hpair
    exact hvalue
  · rintro rfl
    exact ⟨by omega, o, _, hpair, by omega, hvalue.symm⟩

end In

end Reply

end StmGateway.At.Present
