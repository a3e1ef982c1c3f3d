import Mathlib.Data.Nat.Notation
import Mathlib.Data.Sum.Basic

/-!
# Loops that leave

The body of a loop leaves with a result or goes round with a new state. The loop runs at most one
round more than the size of the state it starts from; when every round makes the size smaller this
bound is never met, and the loop is what its body says.
-/

structure Loop (σ ρ : Type*) where
  body : σ → ρ ⊕ σ
  size : σ → ℕ
  /-- What a run that is cut off returns. -/
  exhausted : σ → ρ

namespace Loop

variable {σ ρ : Type*}

def rounds (loop : Loop σ ρ) : ℕ → σ → ρ
  | 0, state => loop.exhausted state
  | count + 1, state =>
      match loop.body state with
      | .inl result => result
      | .inr state => loop.rounds count state

def run (loop : Loop σ ρ) (state : σ) : ρ :=
  loop.rounds (loop.size state + 1) state

def Decreasing (loop : Loop σ ρ) : Prop :=
  ∀ ⦃state next⦄, loop.body state = .inr next → loop.size next < loop.size state

section Equations

variable {loop : Loop σ ρ} {state : σ}

theorem rounds_eq (hdecreasing : loop.Decreasing) {count more : ℕ}
    (hcount : loop.size state < count) (hmore : loop.size state < more) :
    loop.rounds count state = loop.rounds more state := by
  induction count generalizing more state with
  | zero => exact absurd hcount (Nat.not_lt_zero _)
  | succ count ih =>
      obtain ⟨more, rfl⟩ := Nat.exists_eq_add_one_of_ne_zero (Nat.ne_zero_of_lt hmore)
      simp only [rounds]
      cases hbody : loop.body state with
      | inl result => rfl
      | inr next =>
          have hlt := hdecreasing hbody
          exact ih (by omega) (by omega)

theorem run_leave {result : ρ} (hbody : loop.body state = .inl result) :
    loop.run state = result := by
  simp only [run, rounds, hbody]

theorem run_round (hdecreasing : loop.Decreasing) {next : σ}
    (hbody : loop.body state = .inr next) : loop.run state = loop.run next := by
  simp only [run, rounds, hbody]
  exact rounds_eq hdecreasing (hdecreasing hbody) (Nat.lt_succ_self _)

end Equations

/-- **The induction rule.** What holds of the results that are left with, and is carried back over
every round, holds of the whole loop. -/
theorem run_induction {loop : Loop σ ρ} (hdecreasing : loop.Decreasing) (holds : σ → ρ → Prop)
    (hleave : ∀ state result, loop.body state = .inl result → holds state result)
    (hround : ∀ state next, loop.body state = .inr next →
      holds next (loop.run next) → holds state (loop.run next))
    (state : σ) : holds state (loop.run state) := by
  induction hsize : loop.size state using Nat.strongRecOn generalizing state with
  | ind size ih =>
      cases hbody : loop.body state with
      | inl result =>
          rw [run_leave hbody]
          exact hleave state result hbody
      | inr next =>
          rw [run_round hdecreasing hbody]
          exact hround state next hbody (ih _ (hsize ▸ hdecreasing hbody) next rfl)

/-- **The simulation rule.** From related states the first loop leaves with a result related to
what the second returns, or both go round to related states. -/
theorem run_rel {σ' ρ' : Type*} {first : Loop σ ρ} {second : Loop σ' ρ'}
    (hfirst : first.Decreasing) (hsecond : second.Decreasing) {related : σ → σ' → Prop}
    {agree : ρ → ρ' → Prop}
    (hleave : ∀ state state' result, related state state' → first.body state = .inl result →
      agree result (second.run state'))
    (hround : ∀ state state' next, related state state' → first.body state = .inr next →
      ∃ next', second.body state' = .inr next' ∧ related next next')
    {state : σ} {state' : σ'} (hrelated : related state state') :
    agree (first.run state) (second.run state') := by
  have hall : ∀ state', related state state' → agree (first.run state) (second.run state') := by
    refine run_induction hfirst
      (fun state result => ∀ state', related state state' → agree result (second.run state'))
      ?_ ?_ state
    · intro state result hbody state' hrelated
      exact hleave state state' result hrelated hbody
    · intro state next hbody ih state' hrelated
      obtain ⟨next', hbody', hnext⟩ := hround state state' next hrelated hbody
      rw [run_round hsecond hbody']
      exact ih next' hnext
  exact hall state' hrelated

end Loop
