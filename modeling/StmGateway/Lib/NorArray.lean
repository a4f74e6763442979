import Mathlib.Tactic

/-!
# A NOR flash array

The cells of a serial NOR flash, as a function from cell numbers. Programming
can only clear bits, so it ANDs data into cells and wraps inside one page;
erasing sets a whole sector to `0xFF`. `Overlay` says what a transfer to a ring
of `size` cells does to it: the cells from an address on are combined with the
data, and every other cell keeps its value. Transfers to adjacent ranges
compose, which is what chunking loops rest on.
-/
namespace StmGateway.Lib.NorArray

abbrev Cells := Nat → UInt8

/-- The cell `i` places after `addr`, wrapping inside the page of `addr`. -/
def inPage (page addr i : Nat) : Nat := addr - addr % page + (addr % page + i) % page

/-- Program the bytes `data` from `addr` on, one after the other. -/
def program (page : Nat) (cells : Cells) (addr : Nat) : List UInt8 → Cells
  | [] => cells
  | b :: data =>
      program page (Function.update cells addr (cells addr &&& b)) (inPage page addr 1) data

/-- Erase the sector that holds `addr`. -/
def erase (sector : Nat) (cells : Cells) (addr : Nat) : Cells :=
  fun x => if x / sector = addr / sector then 0xFF else cells x

theorem inPage_eq {page addr i : Nat} (h : addr % page + i < page) :
    inPage page addr i = addr + i := by
  have hle := Nat.mod_le addr page
  rw [inPage, Nat.mod_eq_of_lt h]
  omega

/-- A program that stays inside its page touches exactly the cells it names. -/
theorem program_eq {page : Nat} (data : List UInt8) :
    ∀ (cells : Cells) (addr : Nat), addr % page + data.length ≤ page →
      ∀ x, program page cells addr data x =
        if h : addr ≤ x ∧ x - addr < data.length then cells x &&& data[x - addr]
        else cells x := by
  induction data with
  | nil => intro cells addr _ x; simp [program]
  | cons b data ih =>
    intro cells addr hfit x
    simp only [List.length_cons] at hfit ⊢
    rw [program]
    by_cases hlast : data = []
    · subst hlast
      by_cases hx : x = addr
      · subst hx; simp [program]
      · rw [program, Function.update_of_ne hx, dif_neg (by simp; omega)]
    · have hpos : 0 < data.length := List.length_pos_iff.mpr hlast
      have hmod : (addr + 1) % page = addr % page + 1 := by
        rw [Nat.add_mod, Nat.mod_eq_of_lt (by omega : 1 < page), Nat.mod_eq_of_lt (by omega)]
      rw [inPage_eq (by omega), ih _ _ (by omega)]
      by_cases hx : x = addr
      · subst hx; simp
      · by_cases hin : addr + 1 ≤ x ∧ x - (addr + 1) < data.length
        · have hsub : x - addr = x - (addr + 1) + 1 := by omega
          rw [dif_pos hin, dif_pos (by omega), Function.update_of_ne hx]
          simp [hsub]
        · rw [dif_neg hin, dif_neg (by omega), Function.update_of_ne hx]

/-! ## Transfers to a ring of cells -/

/-- The `n` cells of the ring from `addr` on are combined by `op` with the
bytes `data`; no other cell of the ring changes. -/
structure Overlay (op : UInt8 → UInt8 → UInt8) (size : Nat) (old new : Cells)
    (addr n : Nat) (data : Nat → UInt8) : Prop where
  written : ∀ k < n, new ((addr + k) % size) = op (old ((addr + k) % size)) (data k)
  kept : ∀ x < size, (∀ k < n, x ≠ (addr + k) % size) → new x = old x

/-- Distinct offsets below the size of the ring are distinct cells. -/
theorem ring_injective {size addr i j : Nat} (hi : i < size) (hj : j < size)
    (h : (addr + i) % size = (addr + j) % size) : i = j := by
  have hc : i ≡ j [MOD size] := Nat.ModEq.add_left_cancel' addr h
  rwa [Nat.ModEq, Nat.mod_eq_of_lt hi, Nat.mod_eq_of_lt hj] at hc

namespace Overlay

variable {op : UInt8 → UInt8 → UInt8} {size : Nat} {old mid new : Cells} {addr m n : Nat}
  {data : Nat → UInt8}

theorem nil : Overlay op size old old addr 0 data :=
  ⟨fun k hk => absurd hk (Nat.not_lt_zero k), fun _ _ _ => rfl⟩

/-- Only the position on the ring matters. -/
theorem of_modEq {addr' : Nat} (h : Overlay op size old new addr n data)
    (he : addr' ≡ addr [MOD size]) : Overlay op size old new addr' n data := by
  have hk : ∀ k, (addr' + k) % size = (addr + k) % size := fun k => Nat.ModEq.add_right k he
  constructor
  · intro k hlt
    rw [hk k]
    exact h.written k hlt
  · intro x hx hout
    exact h.kept x hx fun k hlt => by rw [← hk k]; exact hout k hlt

/-- Two transfers to adjacent ranges are one transfer. -/
theorem append (h₁ : Overlay op size old mid addr m data)
    (h₂ : Overlay op size mid new (addr + m) n (fun k => data (m + k)))
    (hfit : m + n ≤ size) : Overlay op size old new addr (m + n) data := by
  constructor
  · intro k hk
    have hpos : 0 < size := by omega
    by_cases hm : k < m
    · rw [h₂.kept _ (Nat.mod_lt _ hpos), h₁.written k hm]
      intro j hj he
      rw [Nat.add_assoc] at he
      have := ring_injective (by omega) (by omega) he
      omega
    · obtain ⟨j, rfl⟩ : ∃ j, k = m + j := ⟨k - m, by omega⟩
      have hold : mid ((addr + (m + j)) % size) = old ((addr + (m + j)) % size) := by
        apply h₁.kept _ (Nat.mod_lt _ hpos)
        intro i hi he
        have := ring_injective (by omega) (by omega) he
        omega
      have hw := h₂.written j (by omega)
      rw [Nat.add_assoc] at hw
      rw [hw, hold]
  · intro x hx hout
    rw [h₂.kept x hx, h₁.kept x hx]
    · exact fun k hk => hout k (by omega)
    · intro k hk he
      exact hout (m + k) (by omega) (by rw [he, Nat.add_assoc])

/-- A program inside one page is a transfer by AND. -/
theorem of_program {page : Nat} (cells : Cells) (hdvd : page ∣ size) (haddr : addr < size)
    (hfit : addr % page + n ≤ page) (data : Nat → UInt8) :
    Overlay (· &&& ·) size cells (program page cells addr ((List.range n).map data))
      addr n data := by
  have hin : addr - addr % page + page ≤ size := by
    obtain ⟨q, rfl⟩ := hdvd
    have hq : addr / page < q := Nat.div_lt_of_lt_mul haddr
    have hd := Nat.div_add_mod addr page
    have := Nat.mul_le_mul_left page (Nat.succ_le_of_lt hq)
    rw [Nat.mul_succ] at this
    omega
  have hle := Nat.mod_le addr page
  have hlen : ((List.range n).map data).length = n := by simp
  have heq := program_eq ((List.range n).map data) cells addr (by rw [hlen]; exact hfit)
  have hcell : ∀ k < n, (addr + k) % size = addr + k := fun k hk => Nat.mod_eq_of_lt (by omega)
  constructor
  · intro k hk
    rw [hcell k hk, heq, dif_pos (by rw [hlen]; omega)]
    simp
  · intro x _ hout
    rw [heq, dif_neg]
    rintro ⟨hle, hlt⟩
    rw [hlen] at hlt
    exact hout (x - addr) hlt (by rw [hcell _ hlt]; omega)

/-! ## Sectors -/

/-- The cells of the sector that holds `addr`, for an address on its boundary. -/
theorem mem_sector_iff {sector x : Nat} (hsector : 0 < sector) (hdvd : sector ∣ size)
    (hbase : sector ∣ addr) (hx : x < size) :
    x / sector = addr % size / sector ↔ ∃ j < sector, x = (addr + j) % size := by
  have hbase' : sector ∣ addr % size := (Nat.dvd_mod_iff hdvd).mpr hbase
  obtain ⟨q, hq⟩ := hbase'
  obtain ⟨r, hr⟩ := hdvd
  have hlt : addr % size < size := Nat.mod_lt _ (by omega)
  have hqr : q < r := by rw [hq, hr] at hlt; exact lt_of_mul_lt_mul_left hlt (Nat.zero_le _)
  have hend : sector * q + sector ≤ size := by
    have := Nat.mul_le_mul_left sector (Nat.succ_le_of_lt hqr)
    rw [Nat.mul_succ] at this
    omega
  have hcell : ∀ j < sector, (addr + j) % size = sector * q + j := by
    intro j hj
    rw [← Nat.mod_add_mod, hq, Nat.mod_eq_of_lt (by omega)]
  rw [hq, Nat.mul_div_cancel_left _ hsector]
  constructor
  · rintro rfl
    have hd := Nat.div_add_mod x sector
    have hm := Nat.mod_lt x hsector
    exact ⟨x % sector, hm, by rw [hcell _ hm]; exact hd.symm⟩
  · rintro ⟨j, hj, rfl⟩
    rw [hcell j hj, Nat.mul_add_div hsector, Nat.div_eq_of_lt hj, Nat.add_zero]

end Overlay
end StmGateway.Lib.NorArray
