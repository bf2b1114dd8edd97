import Mathlib.Order.Basic
import Mathlib.Tactic.Common

/-!
# Loops that leave by a condition

A loop whose body goes on with a state or leaves with a result. It runs on a bound taken from a
measure of its state; while the measure falls, the bound is never felt, and the loop obeys its
own equation.
-/

namespace Mandelbot

variable {σ ρ : Type}

/-- One round of a loop: on to a state, or out with a result. -/
inductive Round (σ ρ : Type) where
  | next (s : σ)
  | leave (r : ρ)

/-- Rounds until one leaves; `stuck` when `n` of them do not. -/
def rounds (body : σ → Round σ ρ) (stuck : ρ) : ℕ → σ → ρ
  | 0, _ => stuck
  | n + 1, s =>
      match body s with
      | .leave r => r
      | .next s' => rounds body stuck n s'

def loop (body : σ → Round σ ρ) (stuck : ρ) (μ : σ → ℕ) (s : σ) : ρ :=
  rounds body stuck (μ s + 1) s

/-- The rounds keep the states in `I`, and each lowers the measure. -/
structure Falling (body : σ → Round σ ρ) (I : σ → Prop) (μ : σ → ℕ) : Prop where
  keeps : ∀ {s s'}, I s → body s = .next s' → I s'
  falls : ∀ {s s'}, I s → body s = .next s' → μ s' < μ s

section Rules

variable {body : σ → Round σ ρ} {stuck : ρ} {μ : σ → ℕ} {I : σ → Prop} {s s' : σ} {r : ρ}

private theorem rounds_bound (h : Falling body I μ) (hs : I s) {m n : ℕ} (hm : μ s < m)
    (hn : μ s < n) : rounds body stuck m s = rounds body stuck n s := by
  induction m generalizing n s with
  | zero => omega
  | succ m ih =>
      cases n with
      | zero => omega
      | succ n =>
          rw [rounds, rounds]
          cases hbody : body s with
          | leave r => rfl
          | next s' =>
              have hlower := h.falls hs hbody
              exact ih (h.keeps hs hbody) (by omega) (by omega)

theorem loop_leave (hbody : body s = .leave r) : loop body stuck μ s = r := by
  rw [loop, rounds, hbody]

theorem loop_next (h : Falling body I μ) (hs : I s) (hbody : body s = .next s') :
    loop body stuck μ s = loop body stuck μ s' := by
  rw [loop, rounds, hbody]
  exact rounds_bound h (h.keeps hs hbody) (h.falls hs hbody) (by omega)

/-- Induction along the rounds that are left. -/
theorem Falling.induction (h : Falling body I μ) {P : σ → Prop}
    (step : ∀ s, I s → (∀ s', body s = .next s' → P s') → P s) (hs : I s) : P s := by
  induction hn : μ s using Nat.strongRecOn generalizing s with
  | ind n ih =>
      apply step s hs
      intro s' hbody
      exact ih (μ s') (hn ▸ h.falls hs hbody) (h.keeps hs hbody) rfl

/-- What every leaving round guarantees of its result holds of the loop's. -/
theorem loop_result (h : Falling body I μ) {Q : ρ → Prop}
    (leaves : ∀ s r, I s → body s = .leave r → Q r) (hs : I s) : Q (loop body stuck μ s) := by
  refine h.induction (P := fun s => Q (loop body stuck μ s)) ?_ hs
  intro s hs ih
  cases hbody : body s with
  | leave r =>
      rw [loop_leave hbody]
      exact leaves s r hs hbody
  | next s' =>
      rw [loop_next h hs hbody]
      exact ih s' hbody

end Rules

def Round.map {τ π : Type} (f : σ → τ) (g : ρ → π) : Round σ ρ → Round τ π
  | .next s => .next (f s)
  | .leave r => .leave (g r)

/-- A loop that forgets a part of another's state forgets it in the result only. -/
theorem loop_map {τ π : Type} {body : σ → Round σ ρ} {body' : τ → Round τ π} {μ : σ → ℕ}
    {μ' : τ → ℕ} (f : σ → τ) (g : ρ → π) (hbody : ∀ s, body' (f s) = (body s).map f g)
    (hμ : ∀ s, μ' (f s) = μ s) (stuck : ρ) (s : σ) :
    loop body' (g stuck) μ' (f s) = g (loop body stuck μ s) := by
  have hrounds : ∀ n s, rounds body' (g stuck) n (f s) = g (rounds body stuck n s) := by
    intro n
    induction n with
    | zero => exact fun _ => rfl
    | succ n ih =>
        intro s
        rw [rounds, rounds, hbody]
        cases body s with
        | leave r => rfl
        | next s' => exact ih s'
  rw [loop, loop, hμ]
  exact hrounds _ s

end Mandelbot
