import Mathlib.Tactic

/-!
# NUL-terminated text in a byte array

Scans that stay inside the array: `room` is what is left of it from index `i` on.
-/
namespace StmGateway.Lib

/-- The first NUL from index `i` on, among `room` bytes. -/
def scanNul (buf : Nat → UInt8) : Nat → Nat → Option Nat
  | 0, _ => none
  | room + 1, i => if buf i = 0 then some i else scanNul buf room (i + 1)

/-- The bytes from index `i` up to the first NUL, `room` at most. -/
def cString (buf : Nat → UInt8) : Nat → Nat → List UInt8
  | 0, _ => []
  | room + 1, i => if buf i = 0 then [] else buf i :: cString buf room (i + 1)

/-- The bytes of an ASCII text. -/
def ascii (s : String) : List UInt8 := s.toList.map fun c => c.toNat.toUInt8

/-- The array holds `text` from index `i` on. -/
def ReadsAt (buf : Nat → UInt8) (i : Nat) (text : List UInt8) : Prop :=
  ∀ j < text.length, text[j]? = some (buf (i + j))

theorem ReadsAt.nil (buf : Nat → UInt8) (i : Nat) : ReadsAt buf i [] := by
  intro j hj
  simp at hj

theorem ReadsAt.mem {buf : Nat → UInt8} {i j : Nat} {text : List UInt8} (h : ReadsAt buf i text)
    (hj : j < text.length) : buf (i + j) ∈ text := List.mem_of_getElem? (h j hj)

theorem readsAt_cons {buf : Nat → UInt8} {i : Nat} {b : UInt8} {text : List UInt8} :
    ReadsAt buf i (b :: text) ↔ buf i = b ∧ ReadsAt buf (i + 1) text := by
  constructor
  · intro h
    constructor
    · have := h 0 (by simp)
      simpa using this.symm
    · intro j hj
      have := h (j + 1) (by simpa using hj)
      rw [List.getElem?_cons_succ] at this
      rw [this, show i + (j + 1) = i + 1 + j by omega]
  · intro h j hj
    cases j with
    | zero => simp [h.1]
    | succ j =>
      have := h.2 j (by simpa using hj)
      rw [List.getElem?_cons_succ, this, show i + 1 + j = i + (j + 1) by omega]

theorem readsAt_append {buf : Nat → UInt8} {i : Nat} {a b : List UInt8} :
    ReadsAt buf i (a ++ b) ↔ ReadsAt buf i a ∧ ReadsAt buf (i + a.length) b := by
  induction a generalizing i with
  | nil => simp [ReadsAt.nil]
  | cons c a ih =>
    rw [List.cons_append, readsAt_cons, readsAt_cons, ih, List.length_cons, and_assoc,
      show i + 1 + a.length = i + (a.length + 1) by omega]

/-- A text is what an array filled with it holds. -/
theorem readsAt_getD (text : List UInt8) : ReadsAt (fun i => text.getD i 0) 0 text := by
  intro j hj
  simp only [Nat.zero_add, List.getD_eq_getElem?_getD, List.getElem?_eq_getElem hj, Option.getD_some]

/-- `n` bytes of a buffer, from index `i` on. -/
def slice (buf : Nat → UInt8) (i n : Nat) : List UInt8 := (List.range' i n).map buf

theorem slice_succ (buf : Nat → UInt8) (i n : Nat) :
    slice buf i (n + 1) = buf i :: slice buf (i + 1) n := by
  simp [slice, List.range'_succ]

theorem slice_snoc (buf : Nat → UInt8) (i n : Nat) :
    slice buf i (n + 1) = slice buf i n ++ [buf (i + n)] := by
  simp [slice, List.range'_concat]

theorem slice_length (buf : Nat → UInt8) (i n : Nat) : (slice buf i n).length = n := by
  simp [slice]

theorem slice_append (buf : Nat → UInt8) (i m n : Nat) :
    slice buf i (m + n) = slice buf i m ++ slice buf (i + m) n := by
  rw [slice, ← List.range'_append_1, List.map_append]
  rfl

theorem readsAt_slice (buf : Nat → UInt8) (i n : Nat) : ReadsAt buf i (slice buf i n) := by
  intro j hj
  rw [slice_length] at hj
  simp [slice, hj]

theorem slice_congr {buf buf' : Nat → UInt8} {i n : Nat}
    (h : ∀ j, i ≤ j → j < i + n → buf' j = buf j) : slice buf' i n = slice buf i n := by
  apply List.map_congr_left
  intro j hj
  rw [List.mem_range'_1] at hj
  exact h j hj.1 hj.2

theorem slice_update {buf : Nat → UInt8} {i n k : Nat} (b : UInt8) (hk : k < i ∨ i + n ≤ k) :
    slice (Function.update buf k b) i n = slice buf i n := by
  apply slice_congr
  intro j hj hj'
  rw [Function.update_of_ne (by omega)]

theorem slice_all {buf : Nat → UInt8} {i n : Nat} (hlt : n ≤ i) :
    slice buf i (n - i) = [] := by
  rw [Nat.sub_eq_zero_of_le hlt]
  rfl

theorem slice_of_readsAt {buf : Nat → UInt8} {i : Nat} {text : List UInt8}
    (h : ReadsAt buf i text) : slice buf i text.length = text := by
  induction text generalizing i with
  | nil => rfl
  | cons b text ih =>
    rw [readsAt_cons] at h
    rw [List.length_cons, slice_succ, h.1, ih h.2]

theorem scanNul_eq {buf : Nat → UInt8} {n : Nat} (hn : buf n = 0) :
    ∀ room i, i ≤ n → n < i + room → (∀ j, i ≤ j → j < n → buf j ≠ 0) →
      scanNul buf room i = some n := by
  intro room
  induction room with
  | zero => intro i hi hroom; omega
  | succ room ih =>
    intro i hi hroom hne
    unfold scanNul
    by_cases heq : i = n
    · subst heq
      rw [if_pos hn]
    · rw [if_neg (hne i le_rfl (by omega))]
      exact ih (i + 1) (by omega) (by omega) fun j hj hj' => hne j (by omega) hj'

/-- A scan from the start stops at the first NUL. -/
theorem scanNul_start {buf : Nat → UInt8} {n room : Nat} (hn : buf n = 0)
    (hne : ∀ j < n, buf j ≠ 0) (hroom : n < room) : scanNul buf room 0 = some n :=
  scanNul_eq hn room 0 (Nat.zero_le n) (by omega) fun j _ hj => hne j hj

/-- Text that is in the array with its terminator is the string found there. -/
theorem cString_eq {buf : Nat → UInt8} :
    ∀ (text : List UInt8) (room i : Nat), 0 ∉ text → text.length < room →
      ReadsAt buf i text → buf (i + text.length) = 0 → cString buf room i = text := by
  intro text
  induction text with
  | nil =>
    intro room i _ hroom _ hend
    obtain ⟨room, rfl⟩ : ∃ n, room = n + 1 := ⟨room - 1, by simp at hroom; omega⟩
    rw [cString, if_pos (by simpa using hend)]
  | cons b text ih =>
    intro room i hnul hroom htext hend
    simp only [List.mem_cons, not_or] at hnul
    rw [List.length_cons] at hroom hend
    rw [readsAt_cons] at htext
    obtain ⟨room, rfl⟩ : ∃ n, room = n + 1 := ⟨room - 1, by omega⟩
    rw [cString, htext.1, if_neg (Ne.symm hnul.1)]
    congr 1
    apply ih room (i + 1) hnul.2 (by omega) htext.2
    rw [← hend]
    congr 1
    omega

end StmGateway.Lib
