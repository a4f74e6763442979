import Mathlib.Tactic

/-!
# Runs of an event-driven system

A system is a relation `step s e s'` on states and events; a run is a finite
sequence of its steps. What one step preserves, a run preserves. `restrict`
keeps the steps that meet a condition on the state before them, so a run of the
restricted system is a run all of whose steps meet it.
-/
namespace StmGateway.Lib

variable {σ ε : Type*}

/-- The states reached from `s₀`, with the events in the order they happened. -/
inductive Runs (step : σ → ε → σ → Prop) (s₀ : σ) : List ε → σ → Prop
  | init : Runs step s₀ [] s₀
  | snoc {events s e s'} : Runs step s₀ events s → step s e s' → Runs step s₀ (events ++ [e]) s'

/-- Only the steps that meet `cond` in the state they start from. -/
def restrict (cond : σ → ε → Prop) (step : σ → ε → σ → Prop) : σ → ε → σ → Prop :=
  fun s e s' => cond s e ∧ step s e s'

namespace Runs

variable {step : σ → ε → σ → Prop} {s₀ s : σ} {events : List ε}

/-- An invariant may also speak of the events so far. -/
theorem invariant (inv : List ε → σ → Prop) (hrun : Runs step s₀ events s) (hinit : inv [] s₀)
    (hstep : ∀ {events s e s'}, inv events s → step s e s' → inv (events ++ [e]) s') :
    inv events s := by
  induction hrun with
  | init => exact hinit
  | snoc _ hlast ih => exact hstep ih hlast

theorem cons {e : ε} {t : σ} (hstep : step s₀ e t) (hrun : Runs step t events s) :
    Runs step s₀ (e :: events) s := by
  induction hrun with
  | init => exact .snoc .init hstep
  | snoc _ hlast ih => exact .snoc ih hlast

theorem snoc_inv {e : ε} (hrun : Runs step s₀ (events ++ [e]) s) :
    ∃ t, Runs step s₀ events t ∧ step t e s := by
  generalize hall : events ++ [e] = all at hrun
  cases hrun with
  | init => simp at hall
  | snoc hrun hlast =>
    obtain ⟨rfl, hlast'⟩ := List.append_inj' hall rfl
    cases hlast'
    exact ⟨_, hrun, hlast⟩

/-- With a step that is a function a run is determined by its events. -/
theorem unique {s' : σ} (hdet : ∀ s e s₁ s₂, step s e s₁ → step s e s₂ → s₁ = s₂)
    (hrun : Runs step s₀ events s) (hrun' : Runs step s₀ events s') : s = s' := by
  induction hrun generalizing s' with
  | init =>
    generalize hnil : ([] : List ε) = all at hrun'
    cases hrun' with
    | init => rfl
    | snoc _ _ => simp at hnil
  | snoc _ hlast ih =>
    obtain ⟨t, ht, hlast'⟩ := hrun'.snoc_inv
    obtain rfl := ih ht
    exact hdet _ _ _ _ hlast hlast'

theorem mono {step' : σ → ε → σ → Prop} (hrun : Runs step s₀ events s)
    (h : ∀ {s e s'}, step s e s' → step' s e s') : Runs step' s₀ events s := by
  induction hrun with
  | init => exact .init
  | snoc _ hlast ih => exact .snoc ih (h hlast)

/-- A run of the restricted system is a run. -/
theorem of_restrict {cond : σ → ε → Prop} (hrun : Runs (restrict cond step) s₀ events s) :
    Runs step s₀ events s :=
  hrun.mono fun h => h.2

/-- Events that meet the condition in every state are not restricted. -/
theorem restrict_of_forall {cond : σ → ε → Prop} (hrun : Runs step s₀ events s)
    (h : ∀ e ∈ events, ∀ s, cond s e) : Runs (restrict cond step) s₀ events s := by
  induction hrun with
  | init => exact .init
  | @snoc events s e s' _ hlast ih =>
    refine .snoc (ih fun e he => h e (List.mem_append_left _ he)) ⟨h e ?_ s, hlast⟩
    exact List.mem_append_right _ (List.mem_singleton_self e)

/-- Where the step is a partial function its runs can be computed. -/
theorem of_foldlM {f : σ → ε → Option σ} (h : events.foldlM f s₀ = some s) :
    Runs (fun s e s' => f s e = some s') s₀ events s := by
  induction events using List.reverseRecOn generalizing s with
  | nil =>
    cases h
    exact .init
  | append_singleton events e ih =>
    rw [List.foldlM_append] at h
    obtain ⟨t, ht, hlast⟩ := Option.bind_eq_some_iff.mp h
    have hnext : f t e = some s := by simpa using hlast
    exact .snoc (ih ht) hnext

/-- The runs all of whose steps meet a decidable condition can be computed too. -/
theorem of_checked {cond : σ → ε → Prop} [∀ s e, Decidable (cond s e)] {f : σ → ε → Option σ}
    (h : events.foldlM (fun s e => if cond s e then f s e else none) s₀ = some s) :
    Runs (restrict cond fun s e s' => f s e = some s') s₀ events s := by
  refine (of_foldlM h).mono ?_
  intro s e s' hstep
  by_cases hc : cond s e
  · exact ⟨hc, by simpa [hc] using hstep⟩
  · simp [hc] at hstep

section Simulation

variable {α : Type*} {next : α → ε → Option α} {R : σ → α → Prop} {a₀ : α}

/-- A partial function simulates the system along `R`: it follows every step. -/
theorem follow (hR : R s₀ a₀)
    (hstep : ∀ s e s' a, R s a → step s e s' → ∃ a', next a e = some a' ∧ R s' a')
    (hrun : Runs step s₀ events s) : ∃ a, events.foldlM next a₀ = some a ∧ R s a := by
  induction hrun with
  | init => exact ⟨a₀, rfl, hR⟩
  | snoc _ hlast ih =>
    obtain ⟨a, ha, hsa⟩ := ih
    obtain ⟨a', ha', hsa'⟩ := hstep _ _ _ _ hsa hlast
    exact ⟨a', by simp [List.foldlM_append, ha, ha'], hsa'⟩

/-- Where the system also follows the function, it runs on the function's inputs exactly. -/
theorem exists_iff (hR : R s₀ a₀)
    (hstep : ∀ s e s' a, R s a → step s e s' → ∃ a', next a e = some a' ∧ R s' a')
    (hnext : ∀ s e a a', R s a → next a e = some a' → ∃ s', step s e s') :
    (∃ s, Runs step s₀ events s) ↔ (events.foldlM next a₀).isSome := by
  constructor
  · rintro ⟨s, hrun⟩
    obtain ⟨a, ha, _⟩ := hrun.follow hR hstep
    simp [ha]
  · intro hsome
    induction events using List.reverseRecOn with
    | nil => exact ⟨s₀, .init⟩
    | append_singleton events e ih =>
      rw [List.foldlM_append] at hsome
      cases ha : events.foldlM next a₀ with
      | none => simp [ha] at hsome
      | some a =>
        obtain ⟨s, hrun⟩ := ih (by simp [ha])
        obtain ⟨a', ha', hsa⟩ := hrun.follow hR hstep
        obtain rfl : a = a' := Option.some.inj (ha.symm.trans ha')
        cases hlast : next a e with
        | none => simp [ha, hlast] at hsome
        | some a' =>
          obtain ⟨s', hs'⟩ := hnext _ _ _ _ hsa hlast
          exact ⟨s', .snoc hrun hs'⟩

end Simulation

end Runs
end StmGateway.Lib
