import Mathlib.Tactic

/-!
# A queue of countdowns

The entries of a timer queue with the ticks each has left, the shortest first and
entries of equal length in the order they were added. A tick takes off the entries
that have run out and counts the others down. An entry is taken off by the tick
its length says, and no other event that leaves it in the queue changes that.
-/
namespace StmGateway.Lib

abbrev Countdown (α : Type*) := List (α × ℕ)

namespace Countdown

variable {α : Type*}

/-- Behind every entry that has at most as many ticks left. -/
def add (q : Countdown α) (a : α) (n : ℕ) : Countdown α :=
  match q with
  | [] => [(a, n)]
  | e :: rest => if e.2 ≤ n then e :: add rest a n else (a, n) :: e :: rest

def drop [DecidableEq α] (q : Countdown α) (a : α) : Countdown α := q.filter fun e => e.1 ≠ a

/-- What has run out when one more tick has passed. -/
def due (q : Countdown α) : List α := (q.takeWhile fun e => e.2 ≤ 1).map Prod.fst

/-- What has not, with one tick less. -/
def rest (q : Countdown α) : Countdown α :=
  (q.dropWhile fun e => e.2 ≤ 1).map fun e => (e.1, e.2 - 1)

def Sorted (q : Countdown α) : Prop := q.Pairwise fun e e' => e.2 ≤ e'.2

section Sorted

variable {q : Countdown α} {a b : α} {n m : ℕ}

theorem mem_add {e : α × ℕ} : e ∈ q.add a n ↔ e = (a, n) ∨ e ∈ q := by
  induction q with
  | nil => simp [add]
  | cons e' q ih =>
    rw [add]
    split
    · rw [List.mem_cons, ih, List.mem_cons]
      tauto
    · simp

theorem Sorted.add (h : Sorted q) : Sorted (q.add a n) := by
  induction q with
  | nil => exact List.pairwise_singleton _ _
  | cons e q ih =>
    obtain ⟨hhead, htail⟩ := List.pairwise_cons.mp h
    rw [Countdown.add]
    split
    next hle =>
      refine List.pairwise_cons.mpr ⟨fun e' he' => ?_, ih htail⟩
      rcases mem_add.mp he' with rfl | he'
      · exact hle
      · exact hhead e' he'
    next hgt =>
      refine List.pairwise_cons.mpr ⟨fun e' he' => ?_, h⟩
      rcases List.mem_cons.mp he' with rfl | he'
      · exact (not_le.mp hgt).le
      · exact (not_le.mp hgt).le.trans (hhead e' he')

theorem Sorted.drop [DecidableEq α] (h : Sorted q) : Sorted (q.drop a) := List.Pairwise.filter _ h

theorem mem_drop [DecidableEq α] {e : α × ℕ} : e ∈ q.drop a ↔ e ∈ q ∧ e.1 ≠ a := by
  simp [drop]

theorem Sorted.mem_due (h : Sorted q) : a ∈ q.due ↔ ∃ n ≤ 1, (a, n) ∈ q := by
  induction q with
  | nil => simp [due]
  | cons e q ih =>
    obtain ⟨hhead, htail⟩ := List.pairwise_cons.mp h
    by_cases he : e.2 ≤ 1
    · have hdue : due (e :: q) = e.1 :: due q := by simp [due, he]
      rw [hdue, List.mem_cons, ih htail]
      constructor
      · rintro (rfl | ⟨n, hn, hmem⟩)
        · exact ⟨e.2, he, List.mem_cons_self⟩
        · exact ⟨n, hn, List.mem_cons_of_mem _ hmem⟩
      · rintro ⟨n, hn, hmem⟩
        rcases List.mem_cons.mp hmem with rfl | hmem
        · exact .inl rfl
        · exact .inr ⟨n, hn, hmem⟩
    · have hdue : due (e :: q) = [] := by simp [due, he]
      rw [hdue]
      refine ⟨fun h => absurd h List.not_mem_nil, fun ⟨n, hn, hmem⟩ => absurd hn ?_⟩
      rcases List.mem_cons.mp hmem with rfl | hmem
      · exact he
      · exact fun hn => he ((hhead _ hmem).trans hn)

theorem Sorted.one_lt_of_mem_dropWhile (h : Sorted q) {e : α × ℕ}
    (he : e ∈ q.dropWhile fun e => e.2 ≤ 1) : 1 < e.2 := by
  induction q with
  | nil => exact absurd he List.not_mem_nil
  | cons e' q ih =>
    obtain ⟨hhead, htail⟩ := List.pairwise_cons.mp h
    by_cases he' : e'.2 ≤ 1
    · rw [List.dropWhile_cons_of_pos (by simpa using he')] at he
      exact ih htail he
    · rw [List.dropWhile_cons_of_neg (by simpa using he')] at he
      rcases List.mem_cons.mp he with rfl | he
      · exact not_le.mp he'
      · exact (not_le.mp he').trans_le (hhead e he)

theorem Sorted.mem_rest (h : Sorted q) : (a, n) ∈ q.rest ↔ (a, n + 1) ∈ q ∧ 1 ≤ n := by
  induction q with
  | nil => simp [rest]
  | cons e q ih =>
    obtain ⟨hhead, htail⟩ := List.pairwise_cons.mp h
    by_cases he : e.2 ≤ 1
    · have hrest : rest (e :: q) = rest q := by simp [rest, he]
      rw [hrest, ih htail, List.mem_cons]
      refine and_congr_left fun hn => ⟨.inr, fun hmem => hmem.resolve_left ?_⟩
      rintro rfl
      simp at he
      omega
    · have hrest : rest (e :: q) = (e :: q).map fun e => (e.1, e.2 - 1) := by simp [rest, he]
      have hlong : ∀ e' ∈ e :: q, 2 ≤ e'.2 := by
        intro e' he'
        rcases List.mem_cons.mp he' with rfl | he'
        · omega
        · have := hhead e' he'
          omega
      rw [hrest, List.mem_map]
      constructor
      · rintro ⟨e', he', heq⟩
        have hlen := hlong e' he'
        obtain ⟨rfl, rfl⟩ := Prod.mk.inj heq
        rw [Nat.sub_add_cancel (by omega)]
        exact ⟨he', by omega⟩
      · rintro ⟨hmem, hn⟩
        exact ⟨_, hmem, rfl⟩

theorem Sorted.rest (h : Sorted q) : Sorted q.rest := by
  refine List.pairwise_map.mpr ((h.sublist (List.dropWhile_sublist _)).imp ?_)
  intro e e' hle
  exact Nat.sub_le_sub_right hle 1

end Sorted

end Countdown
end StmGateway.Lib
