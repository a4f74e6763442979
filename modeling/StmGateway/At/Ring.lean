import StmGateway.At.Parameter

/-!
# The scan on the first 256 bytes

The index of `atk_ide01_get_parameter` has eight bits, so on a long answer the
scan goes round the first 256 bytes. Positions are counted without the wrap
here: position `t` is the byte `t % 256`. Loops end, and stay inside the answer,
as far as the answer is short or the ring has what they look for.
-/
namespace StmGateway.At.Ring

open StmGateway.Lib StmGateway.At.Parameter

/-- An answer of `len` bytes and its terminator. -/
structure Answer (src : Nat → UInt8) (len : Nat) : Prop where
  inside : ∀ j < len, src j ≠ 0
  ends : src len = 0

theorem position_toNat (t : Nat) : (UInt8.ofNat t).toNat = t % 256 := UInt8.toNat_ofNat'

/-- The next quote at or behind position `t`. -/
structure NextQuote (src : Nat → UInt8) (t q : Nat) : Prop where
  le : t ≤ q
  quote : src (q % 256) = 0x22
  before : ∀ j, t ≤ j → j < q → src (j % 256) ≠ 0x22

/-- The quotes of the quoted string with `n` others between it and position `t`. -/
def NthPair (src : Nat → UInt8) : Nat → Nat → Nat → Nat → Prop
  | 0, t, o, c => NextQuote src t o ∧ NextQuote src (o + 1) c
  | n + 1, t, o, c => ∃ o' c', NextQuote src t o' ∧ NextQuote src (o' + 1) c' ∧
      NthPair src n (c' + 1) o c

variable {src : Nat → UInt8} {len : Nat}

theorem NthPair.le : ∀ {n t o c : Nat}, NthPair src n t o c → t ≤ o ∧ o < c
  | 0, _, _, _, h => ⟨h.1.le, h.2.le⟩
  | _ + 1, _, _, _, ⟨_, _, ho, hc, hrest⟩ => by
    have hle := NthPair.le hrest
    have ho := ho.le
    have hc := hc.le
    omega

theorem NextQuote.unique {t q q' : Nat} (h : NextQuote src t q) (h' : NextQuote src t q') :
    q = q' := by
  rcases Nat.lt_trichotomy q q' with hlt | heq | hlt
  · exact absurd h.quote (h'.before q h.le hlt)
  · exact heq
  · exact absurd h'.quote (h.before q' h'.le hlt)

/-- A count comes to one string at most. -/
theorem NthPair.unique : ∀ {n t o c o' c' : Nat}, NthPair src n t o c → NthPair src n t o' c' →
    o = o' ∧ c = c'
  | 0, _, _, _, _, _, h, h' => by
    cases h.1.unique h'.1
    exact ⟨rfl, h.2.unique h'.2⟩
  | _ + 1, _, _, _, _, _, ⟨_, _, ho, hc, hrest⟩, ⟨_, _, ho', hc', hrest'⟩ => by
    cases ho.unique ho'
    cases hc.unique hc'
    exact NthPair.unique hrest hrest'

theorem NthPair.quote : ∀ {n t o c : Nat}, NthPair src n t o c → src (o % 256) = 0x22
  | 0, _, _, _, h => h.1.quote
  | _ + 1, _, _, _, ⟨_, _, _, _, hrest⟩ => NthPair.quote hrest

/-- The count may start before a byte that is not a quote. -/
theorem NextQuote.back {t q : Nat} (h : NextQuote src (t + 1) q) (hbyte : src (t % 256) ≠ 0x22) :
    NextQuote src t q := by
  refine ⟨Nat.le_of_succ_le h.le, h.quote, fun j hle hlt => ?_⟩
  rcases Nat.lt_or_eq_of_le hle with hlt' | rfl
  · exact h.before j hlt' hlt
  · exact hbyte

theorem NthPair.back {n t o c : Nat} (h : NthPair src n (t + 1) o c)
    (hbyte : src (t % 256) ≠ 0x22) : NthPair src n t o c := by
  cases n with
  | zero => exact ⟨h.1.back hbyte, h.2⟩
  | succ n =>
    obtain ⟨o', c', ho, hc, hrest⟩ := h
    exact ⟨o', c', ho.back hbyte, hc, hrest⟩

/-- A ring with a quote has one behind every position. -/
theorem exists_nextQuote (hquote : ∃ q < 256, src q = 0x22) (t : Nat) : ∃ q, NextQuote src t q := by
  obtain ⟨q, hq, hsrc⟩ := hquote
  have hex : ∃ d, src ((t + d) % 256) = 0x22 := by
    refine ⟨(q + 256 - t % 256), ?_⟩
    rw [show (t + (q + 256 - t % 256)) % 256 = q by omega]
    exact hsrc
  classical
  refine ⟨t + Nat.find hex, Nat.le_add_right _ _, Nat.find_spec hex, fun j hle hlt h => ?_⟩
  refine Nat.find_min hex (m := j - t) (by omega) ?_
  rw [show t + (j - t) = j by omega]
  exact h

theorem exists_nthPair (hquote : ∃ q < 256, src q = 0x22) :
    ∀ n t, ∃ o c, NthPair src n t o c := by
  intro n
  induction n with
  | zero =>
    intro t
    obtain ⟨o, ho⟩ := exists_nextQuote hquote t
    obtain ⟨c, hc⟩ := exists_nextQuote hquote (o + 1)
    exact ⟨o, c, ho, hc⟩
  | succ n ih =>
    intro t
    obtain ⟨o', ho⟩ := exists_nextQuote hquote t
    obtain ⟨c', hc⟩ := exists_nextQuote hquote (o' + 1)
    obtain ⟨o, c, hrest⟩ := ih (c' + 1)
    exact ⟨o, c, o', c', ho, hc, hrest⟩

variable {w opened recording : Bool} {num : UInt8} {paramIndex paramLen : UInt16} {r : Scan}

/-- One pass of the second loop: out of it, or on to the next index. -/
def scanPass (src : Nat → UInt8) (w : Bool) (s : Scan) : Except Scan Scan :=
  if src s.srcIndex.toNat = 0 then .error s
  else if src s.srcIndex.toNat = 0x22 then
    if s.opened = false then
      if s.paramNum = 1 then
        let s := { s with
          opened := true, recording := true, paramIndex := s.srcIndex.toUInt16 + 1 }
        if w then .ok { s with srcIndex := s.srcIndex + 1 } else .error s
      else .ok { s with opened := true, srcIndex := s.srcIndex + 1 }
    else
      let s := { s with opened := false, paramNum := s.paramNum - 1 }
      if s.recording then .error { s with paramLen := s.srcIndex.toUInt16 - s.paramIndex }
      else .ok { s with srcIndex := s.srcIndex + 1 }
  else .ok { s with srcIndex := s.srcIndex + 1 }

theorem scanQuotes_pass (fuel : Nat) (s : Scan) :
    scanQuotes src w (fuel + 1) s =
      match scanPass src w s with
      | .error s => some s
      | .ok s => scanQuotes src w fuel s := by
  rw [scanQuotes, scanPass]
  by_cases hnul : src s.srcIndex.toNat = 0
  · simp only [hnul, ↓reduceIte]
  by_cases hquote : src s.srcIndex.toNat = 0x22
  · rw [if_neg hnul, if_neg hnul, if_pos hquote, if_pos hquote]
    cases hopened : s.opened with
    | false =>
      by_cases hnum : s.paramNum = 1
      · cases w <;> simp only [hnum, ↓reduceIte, Bool.false_eq_true]
      · simp only [hnum, ↓reduceIte]
    | true =>
      cases s.recording <;> simp only [↓reduceIte, Bool.false_eq_true, Bool.true_eq_false]
  · rw [if_neg hnul, if_neg hnul, if_neg hquote, if_neg hquote]

/-- A pass that stays in the loop. -/
theorem scanQuotes_next {s s' : Scan} (hpass : scanPass src w s = .ok s')
    (hr : Returns (fun fuel => scanQuotes src w fuel s') r) :
    Returns (fun fuel => scanQuotes src w fuel s) r := by
  apply hr.step
  intro fuel
  rw [scanQuotes_pass, hpass]

/-- A pass that leaves it. -/
theorem scanQuotes_out {s s' : Scan} (hpass : scanPass src w s = .error s') :
    Returns (fun fuel => scanQuotes src w fuel s) s' := by
  apply (Returns.pure s').step
  intro fuel
  rw [scanQuotes_pass, hpass]

/-- The scan passes over bytes that are neither a quote nor the terminator. -/
theorem ring_plain {k : Nat} : ∀ {t : Nat},
    (∀ j, t ≤ j → j < t + k → src (j % 256) ≠ 0 ∧ src (j % 256) ≠ 0x22) →
    Returns (fun fuel => scanQuotes src w fuel
      ⟨UInt8.ofNat (t + k), num, opened, recording, paramIndex, paramLen⟩) r →
    Returns (fun fuel => scanQuotes src w fuel
      ⟨UInt8.ofNat t, num, opened, recording, paramIndex, paramLen⟩) r := by
  induction k with
  | zero => exact fun _ hr => hr
  | succ k ih =>
    intro t hplain hr
    obtain ⟨hnul, hquote⟩ := hplain t le_rfl (by omega)
    have hrest := @ih (t + 1) (fun j hle hlt => hplain j (by omega) (by omega))
      (by rw [show t + 1 + k = t + (k + 1) by omega]; exact hr)
    refine scanQuotes_next ?_ hrest
    simp only [scanPass, position_toNat, hnul, hquote, index_succ, ↓reduceIte]

/-- It passes over everything before the next quote. -/
theorem ring_next {t q : Nat} (hq : NextQuote src t q)
    (hnul : ∀ j, t ≤ j → j < q → src (j % 256) ≠ 0)
    (hr : Returns (fun fuel => scanQuotes src w fuel
      ⟨UInt8.ofNat q, num, opened, recording, paramIndex, paramLen⟩) r) :
    Returns (fun fuel => scanQuotes src w fuel
      ⟨UInt8.ofNat t, num, opened, recording, paramIndex, paramLen⟩) r := by
  have hle := hq.le
  have hplain : ∀ j, t ≤ j → j < t + (q - t) → src (j % 256) ≠ 0 ∧ src (j % 256) ≠ 0x22 :=
    fun j hj hlt => ⟨hnul j hj (by omega), hq.before j hj (by omega)⟩
  exact ring_plain hplain (by rw [show t + (q - t) = q by omega]; exact hr)

/-- The opening quote of a string that is not the one asked for. -/
theorem ring_open {t : Nat} (hquote : src (t % 256) = 0x22) (hnum : num ≠ 1)
    (hr : Returns (fun fuel => scanQuotes src w fuel
      ⟨UInt8.ofNat (t + 1), num, true, recording, paramIndex, paramLen⟩) r) :
    Returns (fun fuel => scanQuotes src w fuel
      ⟨UInt8.ofNat t, num, false, recording, paramIndex, paramLen⟩) r := by
  refine scanQuotes_next ?_ hr
  simp [scanPass, hquote, hnum]

/-- Its closing quote. -/
theorem ring_close {t : Nat} (hquote : src (t % 256) = 0x22)
    (hr : Returns (fun fuel => scanQuotes src w fuel
      ⟨UInt8.ofNat (t + 1), num - 1, false, false, paramIndex, paramLen⟩) r) :
    Returns (fun fuel => scanQuotes src w fuel
      ⟨UInt8.ofNat t, num, true, false, paramIndex, paramLen⟩) r := by
  refine scanQuotes_next ?_ hr
  simp [scanPass, hquote]

/-- The opening quote of the string asked for, where its length is wanted. -/
theorem ring_record {t : Nat} (hquote : src (t % 256) = 0x22)
    (hr : Returns (fun fuel => scanQuotes src true fuel
      ⟨UInt8.ofNat (t + 1), 1, true, true, (UInt8.ofNat t).toUInt16 + 1, paramLen⟩) r) :
    Returns (fun fuel => scanQuotes src true fuel
      ⟨UInt8.ofNat t, 1, false, recording, paramIndex, paramLen⟩) r := by
  refine scanQuotes_next ?_ hr
  simp [scanPass, hquote]

/-- Where it is not, the loop ends there. -/
theorem ring_index {t : Nat} (hquote : src (t % 256) = 0x22) :
    Returns (fun fuel => scanQuotes src false fuel
      ⟨UInt8.ofNat t, 1, false, recording, paramIndex, paramLen⟩)
      ⟨UInt8.ofNat t, 1, true, true, (UInt8.ofNat t).toUInt16 + 1, paramLen⟩ := by
  apply scanQuotes_out
  simp [scanPass, hquote]

/-- The closing quote of the string asked for. -/
theorem ring_stop {t : Nat} (hquote : src (t % 256) = 0x22) :
    Returns (fun fuel => scanQuotes src w fuel
      ⟨UInt8.ofNat t, num, true, true, paramIndex, paramLen⟩)
      ⟨UInt8.ofNat t, num - 1, false, true, paramIndex, (UInt8.ofNat t).toUInt16 - paramIndex⟩ := by
  apply scanQuotes_out
  simp [scanPass, hquote]

/-- The index after a scan that met the opening quote at `o`. -/
def foundIndex (o : Nat) : UInt16 := (UInt8.ofNat o).toUInt16 + 1

/-- The length after one that met the quotes at `o` and `c`. -/
def foundLen (o c : Nat) : UInt16 := (UInt8.ofNat c).toUInt16 - foundIndex o

theorem foundIndex_toNat (o : Nat) : (foundIndex o).toNat = o % 256 + 1 := by
  rw [foundIndex, UInt16.toNat_add, UInt8.toNat_toUInt16, position_toNat]
  exact Nat.mod_eq_of_lt (by change o % 256 + 1 < 65536; omega)

/-- The length wraps where the closing quote is not behind the opening one. -/
theorem foundLen_toNat (o c : Nat) :
    (foundLen o c).toNat = (c % 256 + 65536 - (o % 256 + 1)) % 65536 := by
  rw [foundLen, UInt16.toNat_sub, UInt8.toNat_toUInt16, position_toNat, foundIndex_toNat]
  change (65536 - (o % 256 + 1) + c % 256) % 65536 = _
  congr 1
  omega

theorem index_ne {n : Nat} {k : UInt8} (h : n ≤ 255) (hne : n ≠ k.toNat) : UInt8.ofNat n ≠ k := by
  intro heq
  exact hne ((index_toNat h).symm.trans (congrArg UInt8.toNat heq))

/-- The scan finds the string it counts to. -/
theorem ring_nth {n : Nat} : ∀ {t o c : Nat}, NthPair src n t o c → n + 1 ≤ 255 →
    (∀ j, t ≤ j → j < c → src (j % 256) ≠ 0) →
    ∃ s, Returns (fun fuel => scanQuotes src w fuel
        ⟨UInt8.ofNat t, UInt8.ofNat (n + 1), false, false, paramIndex, paramLen⟩) s ∧
      s.paramIndex = foundIndex o ∧ (w = true → s.paramLen = foundLen o c) := by
  induction n with
  | zero =>
    intro t o c hpair _ hnul
    obtain ⟨ho, hc⟩ := hpair
    have hle := hc.le
    cases w with
    | false =>
      refine ⟨_, ring_next ho (fun j hj hlt => hnul j hj (by omega)) (ring_index ho.quote), rfl, ?_⟩
      exact nofun
    | true =>
      refine ⟨_, ring_next ho (fun j hj hlt => hnul j hj (by omega)) (ring_record ho.quote
        (ring_next hc (fun j hj hlt => hnul j (by have := ho.le; omega) hlt)
          (ring_stop hc.quote))), rfl, fun _ => rfl⟩
  | succ n ih =>
    intro t o c hpair hn hnul
    obtain ⟨o', c', ho, hc, hrest⟩ := hpair
    have hlo := ho.le
    have hlc := hc.le
    have hle := hrest.le
    obtain ⟨s, hs, hindex, hlength⟩ := ih hrest (by omega) fun j hj hlt => hnul j (by omega) hlt
    refine ⟨s, ?_, hindex, hlength⟩
    apply ring_next ho fun j hj hlt => hnul j hj (by omega)
    apply ring_open ho.quote (index_ne hn (Nat.succ_succ_ne_one _))
    apply ring_next hc fun j hj hlt => hnul j (by omega) (by omega)
    apply ring_close hc.quote
    rw [show UInt8.ofNat (n + 1 + 1) - 1 = UInt8.ofNat (n + 1) by
      rw [← index_succ, UInt8.add_sub_cancel]]
    exact hs

/-- The first loop stops at the first `=`, or at the terminator. -/
theorem seekEquals_stops {e : Nat} (he : e ≤ 255) (hstop : src e = 0 ∨ src e = 0x3d) :
    ∀ {i : Nat}, i ≤ e → (∀ j, i ≤ j → j < e → src j ≠ 0 ∧ src j ≠ 0x3d) →
      Returns (fun fuel => seekEquals src fuel (UInt8.ofNat i)) (UInt8.ofNat e) := by
  intro i hi hpass
  obtain ⟨k, rfl⟩ : ∃ k, e = i + k := ⟨e - i, by omega⟩
  clear hi
  induction k generalizing i with
  | zero =>
    apply (Returns.pure _).step
    intro fuel
    rw [Nat.add_zero] at he hstop
    rw [seekEquals, index_toNat he, if_neg fun h => hstop.elim h.1 h.2, Nat.add_zero]
  | succ k ih =>
    have hrest := @ih (i + 1) (by omega) (by rwa [show i + 1 + k = i + (k + 1) by omega])
      fun j hj hlt => hpass j (by omega) (by omega)
    rw [show i + (k + 1) = i + 1 + k by omega]
    apply hrest.step
    intro fuel
    rw [seekEquals, index_toNat (by omega), if_pos (hpass i le_rfl (by omega)), index_succ]

/-- Without either it goes round for ever. -/
theorem seekEquals_forever (h : ∀ j < 256, src j ≠ 0 ∧ src j ≠ 0x3d) :
    ∀ fuel i, seekEquals src fuel i = none := by
  intro fuel
  induction fuel with
  | zero => exact fun _ => rfl
  | succ fuel ih =>
    intro i
    rw [seekEquals, if_pos (h i.toNat i.toNat_lt), ih]

/-- So does the second loop on a ring without quotes. -/
theorem scanQuotes_forever (h : ∀ j < 256, src j ≠ 0 ∧ src j ≠ 0x22) :
    ∀ fuel s, scanQuotes src w fuel s = none := by
  intro fuel
  induction fuel with
  | zero => exact fun _ => rfl
  | succ fuel ih =>
    intro s
    obtain ⟨hnul, hquote⟩ := h s.srcIndex.toNat s.srcIndex.toNat_lt
    rw [scanQuotes, if_neg hnul, if_neg hquote, ih]

/-- A pass that stays in the loop was not at the terminator. -/
theorem scanPass_ok {s s' : Scan} (h : scanPass src w s = .ok s') :
    src s.srcIndex.toNat ≠ 0 ∧ s'.srcIndex = s.srcIndex + 1 := by
  rw [scanPass] at h
  by_cases hnul : src s.srcIndex.toNat = 0
  · rw [if_pos hnul] at h
    cases h
  refine ⟨hnul, ?_⟩
  by_cases hquote : src s.srcIndex.toNat = 0x22
  · rw [if_neg hnul, if_pos hquote] at h
    cases hopened : s.opened with
    | false =>
      by_cases hnum : s.paramNum = 1
      · cases w <;> simp only [hopened, hnum, ↓reduceIte, Bool.false_eq_true, reduceCtorEq] at h
        cases h
        rfl
      · simp only [hopened, hnum, ↓reduceIte] at h
        cases h
        rfl
    | true =>
      cases hrecording : s.recording <;> simp only [hopened, hrecording, ↓reduceIte,
        Bool.false_eq_true, Bool.true_eq_false, reduceCtorEq] at h
      cases h
      rfl
  · rw [if_neg hnul, if_neg hquote] at h
    cases h
    rfl

theorem seekEquals_settles (src : Nat → UInt8) (i : UInt8) :
    Settles fun fuel => seekEquals src fuel i := by
  refine settles_loop (fun _ => rfl) (fun fuel ih i e he => ?_) i
  rw [seekEquals] at he ⊢
  split_ifs at he ⊢
  · exact ih (i + 1) e he
  · exact he

theorem scanQuotes_settles (s : Scan) : Settles fun fuel => scanQuotes src w fuel s := by
  refine settles_loop (fun _ => rfl) (fun fuel ih s r hr => ?_) s
  rw [scanQuotes_pass] at hr ⊢
  cases hpass : scanPass src w s with
  | error s' =>
    rw [hpass] at hr
    exact hr
  | ok s' =>
    rw [hpass] at hr
    exact ih s' r hr

/-! ## What the loops read -/

/-- The indexes at which the first loop reads, within `fuel` passes. -/
def seekReads (src : Nat → UInt8) : Nat → UInt8 → List Nat
  | 0, _ => []
  | fuel + 1, i =>
    i.toNat :: if src i.toNat ≠ 0 ∧ src i.toNat ≠ 0x3d then seekReads src fuel (i + 1) else []

/-- And the second one. -/
def scanReads (src : Nat → UInt8) (w : Bool) : Nat → Scan → List Nat
  | 0, _ => []
  | fuel + 1, s =>
    s.srcIndex.toNat ::
      match scanPass src w s with
      | .error _ => []
      | .ok s => scanReads src w fuel s

/-- All indexes at which `atk_ide01_get_parameter` reads. -/
def getParameterReads (src : Nat → UInt8) (paramNum : UInt8) (wantLen : Bool)
    (stackIndex stackLen : UInt16) (fuel : Nat) : List Nat :=
  if paramNum = 0 then []
  else
    seekReads src fuel 0 ++
      match seekEquals src fuel 0 with
      | none => []
      | some i =>
        if src i.toNat ≠ 0x3d then [i.toNat]
        else i.toNat :: scanReads src wantLen fuel ⟨i, paramNum, false, false, stackIndex, stackLen⟩

theorem succ_toNat_le (i : UInt8) : (i + 1).toNat ≤ i.toNat + 1 := by
  rw [UInt8.toNat_add]
  exact Nat.mod_le _ _

/-- From an index inside the answer the next one is at most its end. -/
theorem Answer.succ_le (h : Answer src len) {i : UInt8} (hi : i.toNat ≤ len)
    (hnul : src i.toNat ≠ 0) : (i + 1).toNat ≤ len := by
  have hne : i.toNat ≠ len := fun heq => hnul (heq ▸ h.ends)
  have hle := succ_toNat_le i
  omega

theorem seekEquals_le (h : Answer src len) : ∀ fuel (i : UInt8), i.toNat ≤ len →
    (∀ j ∈ seekReads src fuel i, j ≤ len) ∧ ∀ e, seekEquals src fuel i = some e → e.toNat ≤ len := by
  intro fuel
  induction fuel with
  | zero => exact fun i _ => ⟨List.forall_mem_nil _, fun e he => absurd he (by simp [seekEquals])⟩
  | succ fuel ih =>
    intro i hi
    rw [seekReads, seekEquals]
    by_cases hpass : src i.toNat ≠ 0 ∧ src i.toNat ≠ 0x3d
    · obtain ⟨hreads, hfound⟩ := ih (i + 1) (h.succ_le hi hpass.1)
      rw [if_pos hpass, if_pos hpass]
      exact ⟨List.forall_mem_cons.mpr ⟨hi, hreads⟩, hfound⟩
    · rw [if_neg hpass, if_neg hpass]
      refine ⟨List.forall_mem_cons.mpr ⟨hi, List.forall_mem_nil _⟩, fun e he => ?_⟩
      cases he
      exact hi

theorem scanReads_le (h : Answer src len) : ∀ fuel (s : Scan), s.srcIndex.toNat ≤ len →
    ∀ j ∈ scanReads src w fuel s, j ≤ len := by
  intro fuel
  induction fuel with
  | zero => exact fun _ _ => nofun
  | succ fuel ih =>
    intro s hs
    rw [scanReads]
    cases hpass : scanPass src w s with
    | error _ => exact List.forall_mem_cons.mpr ⟨hs, List.forall_mem_nil _⟩
    | ok s' =>
      obtain ⟨hnul, hindex⟩ := scanPass_ok hpass
      refine List.forall_mem_cons.mpr ⟨hs, ih s' ?_⟩
      rw [hindex]
      exact h.succ_le hs hnul

/-- No read is behind the terminator. -/
theorem getParameterReads_le (h : Answer src len) (paramNum : UInt8) (wantLen : Bool)
    (stackIndex stackLen : UInt16) (fuel : Nat) :
    ∀ j ∈ getParameterReads src paramNum wantLen stackIndex stackLen fuel, j ≤ len := by
  obtain ⟨hreads, hfound⟩ := seekEquals_le h fuel 0 (Nat.zero_le _)
  rw [getParameterReads]
  split
  · exact nofun
  · intro j hj
    rw [List.mem_append] at hj
    rcases hj with hj | hj
    · exact hreads j hj
    · cases hseek : seekEquals src fuel 0 with
      | none =>
        rw [hseek] at hj
        cases hj
      | some e =>
        have he := hfound e hseek
        rw [hseek] at hj
        simp only at hj
        split at hj
        · rw [List.mem_singleton] at hj
          omega
        · rcases List.mem_cons.mp hj with rfl | hj
          · exact he
          · exact scanReads_le h fuel ⟨e, _, _, _, _, _⟩ he j hj

section Congruence

variable {src' : Nat → UInt8}

theorem seekEquals_congr (h : Answer src len) (hsame : ∀ j ≤ len, src' j = src j) :
    ∀ fuel (i : UInt8), i.toNat ≤ len → seekEquals src' fuel i = seekEquals src fuel i := by
  intro fuel
  induction fuel with
  | zero => exact fun _ _ => rfl
  | succ fuel ih =>
    intro i hi
    rw [seekEquals, seekEquals, hsame _ hi]
    split
    · next hpass => exact ih (i + 1) (h.succ_le hi hpass.1)
    · rfl

theorem scanQuotes_congr (h : Answer src len) (hsame : ∀ j ≤ len, src' j = src j) :
    ∀ fuel (s : Scan), s.srcIndex.toNat ≤ len →
      scanQuotes src' w fuel s = scanQuotes src w fuel s := by
  intro fuel
  induction fuel with
  | zero => exact fun _ _ => rfl
  | succ fuel ih =>
    intro s hs
    have hpass : scanPass src' w s = scanPass src w s := by rw [scanPass, scanPass, hsame _ hs]
    rw [scanQuotes_pass, scanQuotes_pass, hpass]
    cases hnext : scanPass src w s with
    | error s' => rfl
    | ok s' =>
      obtain ⟨hnul, hindex⟩ := scanPass_ok hnext
      refine ih s' ?_
      rw [hindex]
      exact h.succ_le hs hnul

/-- So what is behind the terminator makes no difference. -/
theorem getParameter_congr (h : Answer src len) (hsame : ∀ j ≤ len, src' j = src j)
    (paramNum : UInt8) (paramIndex paramLen : Option UInt16) (stackIndex stackLen : UInt16)
    (fuel : Nat) :
    atkIde01GetParameter src' paramNum paramIndex paramLen stackIndex stackLen fuel =
      atkIde01GetParameter src paramNum paramIndex paramLen stackIndex stackLen fuel := by
  have hseek := seekEquals_congr h hsame fuel 0 (Nat.zero_le _)
  rw [atkIde01GetParameter, atkIde01GetParameter, hseek]
  cases hfound : seekEquals src fuel 0 with
  | none => rfl
  | some e =>
    have he := (seekEquals_le h fuel 0 (Nat.zero_le _)).2 e hfound
    simp only [Option.bind_eq_bind, Option.bind_some, hsame _ he,
      scanQuotes_congr h hsame fuel ⟨e, paramNum, false, false, stackIndex, stackLen⟩ he]

end Congruence

/-! ## When they end -/

/-- On a short answer the second loop reaches the terminator at the latest. -/
theorem scanQuotes_ends (h : Answer src len) (hlen : len ≤ 255) (s : Scan)
    (hs : s.srcIndex.toNat ≤ len) : ∃ r, Returns (fun fuel => scanQuotes src w fuel s) r := by
  obtain ⟨k, hk⟩ : ∃ k, k = len - s.srcIndex.toNat := ⟨_, rfl⟩
  induction k using Nat.strong_induction_on generalizing s with
  | _ k ih =>
    cases hpass : scanPass src w s with
    | error r =>
      refine ⟨r, (Returns.pure r).step fun fuel => ?_⟩
      rw [scanQuotes_pass, hpass]
    | ok s' =>
      obtain ⟨hnul, hindex⟩ := scanPass_ok hpass
      have hle := h.succ_le hs hnul
      have hne : s.srcIndex.toNat ≠ len := fun heq => hnul (heq ▸ h.ends)
      have hsucc : (s.srcIndex + 1).toNat = s.srcIndex.toNat + 1 := by
        rw [UInt8.toNat_add]
        exact Nat.mod_eq_of_lt (by change s.srcIndex.toNat + 1 < 256; omega)
      rw [← hindex] at hle hsucc
      obtain ⟨r, hr⟩ := ih (len - s'.srcIndex.toNat) (by omega) s' hle rfl
      refine ⟨r, hr.step fun fuel => ?_⟩
      rw [scanQuotes_pass, hpass]

/-- The first loop on an answer: it ends at the first `=` within reach of the
index, or at a terminator within reach. -/
theorem seekEquals_answer (h : Answer src len) (hreach : len ≤ 255 ∨ ∃ e < 256, src e = 0x3d) :
    ∃ e ≤ 255, e ≤ len ∧ (src e = 0 ∨ src e = 0x3d) ∧ (∀ j < e, src j ≠ 0 ∧ src j ≠ 0x3d) ∧
      Returns (fun fuel => seekEquals src fuel 0) (UInt8.ofNat e) := by
  classical
  have hex : ∃ e, src e = 0 ∨ src e = 0x3d := ⟨len, .inl h.ends⟩
  have hpass : ∀ j < Nat.find hex, src j ≠ 0 ∧ src j ≠ 0x3d := fun j hj =>
    not_or.mp (Nat.find_min hex hj)
  have hle : Nat.find hex ≤ len := Nat.find_min' hex (.inl h.ends)
  have hlow : Nat.find hex ≤ 255 := by
    rcases hreach with hlen | ⟨e, he, hsrc⟩
    · omega
    · have hmin := Nat.find_min' hex (.inr hsrc)
      omega
  exact ⟨Nat.find hex, hlow, hle, Nat.find_spec hex, hpass,
    seekEquals_stops hlow (Nat.find_spec hex) (Nat.zero_le _) fun j _ hj => hpass j hj⟩

/-- The scan from the `=` ends on a short answer, and on a ring with a quote. -/
theorem scanQuotes_answer (h : Answer src len) {e : Nat} (he : e ≤ 255) (hle : e ≤ len)
    (hnum : num ≠ 0) (hreach : len ≤ 255 ∨ ∃ q < 256, src q = 0x22) :
    ∃ r, Returns (fun fuel => scanQuotes src w fuel
      ⟨UInt8.ofNat e, num, false, false, paramIndex, paramLen⟩) r := by
  by_cases hlen : len ≤ 255
  · apply scanQuotes_ends h hlen
    rw [index_toNat he]
    exact hle
  · obtain ⟨n, hn, heq⟩ : ∃ n, n + 1 ≤ 255 ∧ num = UInt8.ofNat (n + 1) := by
      have hpos : num.toNat ≠ 0 := fun h => hnum (UInt8.toNat_inj.mp h)
      have hlt := num.toNat_lt
      refine ⟨num.toNat - 1, by omega, ?_⟩
      rw [show num.toNat - 1 + 1 = num.toNat by omega, UInt8.ofNat_toNat]
    obtain ⟨o, c, hpair⟩ := exists_nthPair (hreach.resolve_left hlen) n e
    obtain ⟨s, hs, _⟩ := @ring_nth src w paramIndex paramLen n e o c hpair hn fun j _ _ =>
      h.inside (j % 256) (by omega)
    exact ⟨s, by rw [heq]; exact hs⟩

theorem seek_forever {index length : Option UInt16} {stackIndex stackLen : UInt16}
    {r : Status × Option UInt16 × Option UInt16} (hnum : num ≠ 0)
    (h : ∀ j < 256, src j ≠ 0 ∧ src j ≠ 0x3d) :
    ¬ Returns (atkIde01GetParameter src num index length stackIndex stackLen) r := by
  rintro ⟨bound, hr⟩
  have hrun := hr bound le_rfl
  rw [atkIde01GetParameter, if_neg hnum, seekEquals_forever h] at hrun
  cases hrun

theorem scan_forever {index length : Option UInt16} {stackIndex stackLen : UInt16}
    {r : Status × Option UInt16 × Option UInt16} (hans : Answer src len) (hnum : num ≠ 0)
    (hequals : ∃ e < 256, src e = 0x3d) (h : ∀ j < 256, src j ≠ 0 ∧ src j ≠ 0x22) :
    ¬ Returns (atkIde01GetParameter src num index length stackIndex stackLen) r := by
  rintro ⟨bound, hr⟩
  obtain ⟨e, he, _, hstop, _, m, hm⟩ := seekEquals_answer hans (.inr hequals)
  have hsrc : src e = 0x3d := hstop.resolve_left (h e (by omega)).1
  have hrun := hr (max bound m) (Nat.le_max_left _ _)
  have hseek : seekEquals src (max bound m) 0 = some (UInt8.ofNat e) := hm _ (Nat.le_max_right _ _)
  rw [atkIde01GetParameter, if_neg hnum, hseek, Option.bind_eq_bind, Option.bind_some,
    index_toNat he, if_neg (not_not.mpr hsrc), scanQuotes_forever h] at hrun
  cases hrun

/-- Both loops end, reading inside the answer, if the answer has at most 255
bytes, or a `=` and a quote among its first 256, and only then. -/
theorem getParameter_ends_iff (h : Answer src len) (hnum : num ≠ 0)
    (index length : Option UInt16) (stackIndex stackLen : UInt16) :
    ((∃ r, Returns (atkIde01GetParameter src num index length stackIndex stackLen) r) ∧
        ∀ fuel, ∀ j ∈ getParameterReads src num length.isSome stackIndex stackLen fuel, j ≤ len) ↔
      len ≤ 255 ∨ (∃ e < 256, src e = 0x3d) ∧ ∃ q < 256, src q = 0x22 := by
  constructor
  · rintro ⟨⟨r, hr⟩, _⟩
    by_contra hnot
    obtain ⟨hlong, hring⟩ := not_or.mp hnot
    have hnul : ∀ j < 256, src j ≠ 0 := fun j hj => h.inside j (by omega)
    by_cases hequals : ∃ e < 256, src e = 0x3d
    · exact scan_forever h hnum hequals
        (fun j hj => ⟨hnul j hj, fun hq => hring ⟨hequals, j, hj, hq⟩⟩) hr
    · exact seek_forever hnum (fun j hj => ⟨hnul j hj, fun he => hequals ⟨j, hj, he⟩⟩) hr
  · intro hreach
    refine ⟨?_, fun fuel => getParameterReads_le h num _ stackIndex stackLen fuel⟩
    obtain ⟨e, he, hle, hstop, _, hseek⟩ :=
      seekEquals_answer h (hreach.imp id And.left)
    by_cases hequals : src e = 0x3d
    · obtain ⟨s, hs⟩ := @scanQuotes_answer src len length.isSome num stackIndex stackLen h e he hle
        hnum (hreach.imp id And.right)
      exact ⟨_, getParameter_eok hnum hseek (by rw [index_toNat he]; exact hequals) hs⟩
    · exact ⟨_, getParameter_einval hnum hseek (by rw [index_toNat he]; exact hequals)⟩

/-- 255 bytes without a `=`. -/
theorem getParameter_ends_255 :
    ((∃ r, Returns (atkIde01GetParameter (fun j => if j < 255 then 0x41 else 0) 1 (some 0) (some 0)
        0 0) r) ∧
      ∀ fuel, ∀ j ∈ getParameterReads (fun j => if j < 255 then 0x41 else 0) 1 true 0 0 fuel,
        j ≤ 255) ↔
      255 ≤ 255 ∨ (∃ e < 256, (fun j => if j < 255 then 0x41 else 0 : Nat → UInt8) e = 0x3d) ∧
        ∃ q < 256, (fun j => if j < 255 then 0x41 else 0 : Nat → UInt8) q = 0x22 :=
  getParameter_ends_iff ⟨fun j hj => by rw [if_pos hj]; decide, rfl⟩ (by decide) (some 0) (some 0)
    0 0

/-- One byte more, and the first loop does not end. -/
theorem getParameter_forever_256 :
    Answer (fun j => if j < 256 then 0x41 else 0) 256 ∧
      ¬ ∃ r, Returns (atkIde01GetParameter (fun j => if j < 256 then 0x41 else 0) 1 (some 0)
        (some 0) 0 0) r := by
  refine ⟨⟨fun j hj => by rw [if_pos hj]; decide, rfl⟩, ?_⟩
  rintro ⟨r, hr⟩
  refine seek_forever (by decide) (fun j hj => ?_) hr
  rw [if_pos hj]
  decide

end StmGateway.At.Ring
