import Mathlib.Tactic

/-!
# Fuelled loops that return

A C loop is embedded as a function of a fuel argument whose `none` says that
the loop has not ended yet. `Returns f a` is the total reading of such a
function: with enough fuel it gives `a`, and more fuel changes nothing. The
rules below compose it along the `do` blocks the embeddings are written in.
-/
namespace StmGateway.Lib

/-- From some amount of fuel on, the result is `a`. -/
def Returns {α : Type*} (f : Nat → Option α) (a : α) : Prop :=
  ∃ bound, ∀ fuel, bound ≤ fuel → f fuel = some a

namespace Returns

variable {α β : Type*} {f : Nat → Option α} {a b : α}

/-- A computation without a loop returns at any fuel. -/
theorem pure (a : α) : Returns (fun _ => some a) a := ⟨0, fun _ _ => rfl⟩

/-- There is at most one result. -/
theorem unique (ha : Returns f a) (hb : Returns f b) : a = b := by
  obtain ⟨m, hm⟩ := ha
  obtain ⟨n, hn⟩ := hb
  have h := (hm (max m n) (Nat.le_max_left m n)).symm.trans (hn _ (Nat.le_max_right m n))
  exact Option.some.inj h

/-- Sequential composition of two returning computations. -/
theorem bind (g : α → Nat → Option β) {c : β} (hf : Returns f a) (hg : Returns (g a) c) :
    Returns (fun fuel => (f fuel).bind fun x => g x fuel) c := by
  obtain ⟨m, hm⟩ := hf
  obtain ⟨n, hn⟩ := hg
  refine ⟨max m n, fun fuel hle => ?_⟩
  show (f fuel).bind (fun x => g x fuel) = some c
  rw [hm fuel (by omega), Option.bind_some]
  exact hn fuel (by omega)

/-- A loop body that spends one unit of fuel on the rest of the loop. -/
theorem step {g : Nat → Option α} (hg : Returns g a) (h : ∀ fuel, f (fuel + 1) = g fuel) :
    Returns f a := by
  obtain ⟨n, hn⟩ := hg
  refine ⟨n + 1, fun fuel hle => ?_⟩
  obtain ⟨k, rfl⟩ : ∃ k, fuel = k + 1 := ⟨fuel - 1, by omega⟩
  rw [h]
  exact hn k (by omega)

theorem congr {g : Nat → Option α} (hg : Returns g a) (h : ∀ fuel, f fuel = g fuel) :
    Returns f a := by
  obtain ⟨n, hn⟩ := hg
  exact ⟨n, fun fuel hle => (h fuel).trans (hn fuel hle)⟩

/-- Finitely many computations return within one amount of fuel. -/
theorem all {n : Nat} {f : Nat → Nat → Option α} {a : Nat → α}
    (h : ∀ i < n, Returns (f i) (a i)) :
    ∃ bound, ∀ fuel, bound ≤ fuel → ∀ i < n, f i fuel = some (a i) := by
  induction n with
  | zero => exact ⟨0, fun _ _ i hi => absurd hi (Nat.not_lt_zero i)⟩
  | succ n ih =>
    obtain ⟨m, hm⟩ := ih fun i hi => h i (by omega)
    obtain ⟨k, hk⟩ := h n (Nat.lt_succ_self n)
    refine ⟨max m k, fun fuel hle i hi => ?_⟩
    by_cases hlast : i = n
    · subst hlast
      exact hk fuel (by omega)
    · exact hm fuel (by omega) i (by omega)

end Returns

/-- More fuel does not change a result. -/
def Settles {α : Type*} (f : Nat → Option α) : Prop :=
  ∀ fuel a, f fuel = some a → f (fuel + 1) = some a

theorem Settles.returns {α : Type*} {f : Nat → Option α} {a : α} (h : Settles f) {n : Nat}
    (hn : f n = some a) : Returns f a := by
  refine ⟨n, fun fuel hle => ?_⟩
  induction fuel, hle using Nat.le_induction with
  | base => exact hn
  | succ k _ ih => exact h k a ih

/-- A loop settles if a pass does whose rest settles. -/
theorem settles_loop {α σ : Type*} {f : Nat → σ → Option α} (hzero : ∀ s, f 0 s = none)
    (hpass : ∀ fuel, (∀ s a, f fuel s = some a → f (fuel + 1) s = some a) →
      ∀ s a, f (fuel + 1) s = some a → f (fuel + 1 + 1) s = some a) (s : σ) :
    Settles fun fuel => f fuel s := by
  intro fuel
  induction fuel generalizing s with
  | zero =>
    intro a ha
    exact absurd ((hzero s).symm.trans ha) nofun
  | succ fuel ih => exact hpass fuel ih s

theorem settles_const {α : Type*} (x : Option α) : Settles fun _ => x := fun _ _ h => h

theorem Settles.bind {α β : Type*} {f : Nat → Option α} {g : α → Nat → Option β} (hf : Settles f)
    (hg : ∀ a, Settles (g a)) : Settles fun fuel => (f fuel).bind fun a => g a fuel := by
  intro fuel b hb
  obtain ⟨a, ha, hga⟩ := Option.bind_eq_some_iff.mp hb
  exact Option.bind_eq_some_iff.mpr ⟨a, hf fuel a ha, hg a fuel b hga⟩

end StmGateway.Lib
