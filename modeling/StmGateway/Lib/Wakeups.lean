import Mathlib.Tactic
import Mathlib.Data.Set.Card

/-!
# Wake-ups are not lost

Threads wait for units of something, and are woken one for a unit. A thread that
has been woken takes a unit when it runs, but another may have come first, and it
may wait again. There are enough wake-ups when nobody waits, or when for every
unit there is a thread that has been woken and has not run since.
-/
namespace StmGateway.Lib

variable {τ : Type*}

def Enough (units : ℕ) (waiting woken : Set τ) : Prop :=
  waiting.Nonempty → (units : ℕ∞) ≤ woken.encard

namespace Enough

variable {units units' : ℕ} {waiting waiting' woken woken' : Set τ} {t : τ}

theorem zero : Enough 0 waiting woken := fun _ => by simp

theorem empty : Enough units ∅ woken := fun h => absurd h Set.not_nonempty_empty

theorem mono (h : Enough units waiting woken) (hunits : units' ≤ units)
    (hwaiting : waiting' ⊆ waiting) (hwoken : woken ⊆ woken') : Enough units' waiting' woken' :=
  fun hne => calc (units' : ℕ∞)
    _ ≤ units := Nat.cast_le.mpr hunits
    _ ≤ woken.encard := h (hne.mono hwaiting)
    _ ≤ woken'.encard := Set.encard_le_encard hwoken

/-- A unit more, and one that waited is woken. -/
theorem wake (h : Enough units waiting woken) (ht : t ∈ waiting) (hnew : t ∉ woken)
    (hwoken : insert t woken ⊆ woken') : Enough (units + 1) waiting' woken' :=
  fun _ => calc ((units + 1 : ℕ) : ℕ∞)
    _ = units + 1 := Nat.cast_succ units
    _ ≤ woken.encard + 1 := by gcongr; exact h ⟨t, ht⟩
    _ = (insert t woken).encard := (Set.encard_insert_of_notMem hnew).symm
    _ ≤ woken'.encard := Set.encard_le_encard hwoken

/-- A unit less, and the one that took it has run. -/
theorem take (h : Enough (units + 1) waiting woken) (hwaiting : waiting' ⊆ waiting)
    (hwoken : woken \ {t} ⊆ woken') : Enough units waiting' woken' := by
  intro hne
  have hle : ((units : ℕ∞) + 1) ≤ woken'.encard + 1 := calc (units : ℕ∞) + 1
    _ = ((units + 1 : ℕ) : ℕ∞) := (Nat.cast_succ units).symm
    _ ≤ woken.encard := h (hne.mono hwaiting)
    _ ≤ (woken \ {t}).encard + 1 :=
      tsub_le_iff_right.mp (Set.encard_tsub_one_le_encard_sdiff_singleton woken t)
    _ ≤ woken'.encard + 1 := by gcongr
  exact (ENat.add_le_add_iff_right ENat.one_ne_top).mp hle

end Enough

end StmGateway.Lib
