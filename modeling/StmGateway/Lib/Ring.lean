import Mathlib.Tactic

/-!
# A ring of cells as a queue

A pool of `size` cells is read from an offset on, around its end. Writing the cell
behind the last one puts a value at the back of the queue; moving the offset one
cell on takes the value at the front.
-/
namespace StmGateway.Lib.Ring

variable {α : Type*}

/-- The `n` values from `out` on. -/
def contents (pool : ℕ → α) (size out n : ℕ) : List α :=
  (List.range n).map fun i => pool ((out + i) % size)

variable {pool : ℕ → α} {size out n : ℕ}

@[simp] theorem length_contents : (contents pool size out n).length = n := by simp [contents]

/-- The cell behind the last of fewer than `size` is none of theirs. -/
theorem contents_put (hn : n < size) (v : α) :
    contents (Function.update pool ((out + n) % size) v) size out (n + 1) =
      contents pool size out n ++ [v] := by
  rw [contents, List.range_succ, List.map_append, List.map_singleton, Function.update_self]
  congr 1
  refine List.map_congr_left fun i hi => Function.update_of_ne (fun heq => ?_) ..
  have hi := List.mem_range.mp hi
  have hmod : i ≡ n [MOD size] := Nat.ModEq.add_left_cancel' out heq
  rw [Nat.ModEq, Nat.mod_eq_of_lt (hi.trans hn), Nat.mod_eq_of_lt hn] at hmod
  exact absurd hmod hi.ne

theorem contents_take (hout : out < size) :
    contents pool size out (n + 1) = pool out :: contents pool size ((out + 1) % size) n := by
  rw [contents, List.range_succ_eq_map, List.map_cons, List.map_map, Nat.add_zero,
    Nat.mod_eq_of_lt hout]
  refine congrArg (pool out :: ·) (List.map_congr_left fun i _ => congrArg pool ?_)
  rw [Nat.mod_add_mod]
  exact congrArg (· % size) (by omega)

end StmGateway.Lib.Ring
