import Mathlib.Algebra.BigOperators.Group.List.Basic
import Mathlib.Algebra.Order.Group.Nat
import Mathlib.Algebra.Ring.Nat

/-!
# Totals over accounts

The total of a finite list of distinct accounts and how it changes when one account is written.
-/

namespace Mandelbot

variable {ι : Type}

def total (accounts : List ι) (amount : ι → ℕ) : ℕ := (accounts.map amount).sum

theorem total_congr {accounts : List ι} {f g : ι → ℕ} (h : ∀ i ∈ accounts, f i = g i) :
    total accounts f = total accounts g := by
  rw [total, total, List.map_congr_left h]

theorem total_eq_zero {accounts : List ι} {f : ι → ℕ} (h : ∀ i ∈ accounts, f i = 0) :
    total accounts f = 0 := by
  induction accounts with
  | nil => rfl
  | cons i is ih =>
      have hi := h i (by simp)
      have his := ih fun j hj => h j (List.mem_cons_of_mem _ hj)
      simp only [total, List.map_cons, List.sum_cons] at his ⊢
      omega

theorem total_append (accounts₁ accounts₂ : List ι) (f : ι → ℕ) :
    total (accounts₁ ++ accounts₂) f = total accounts₁ f + total accounts₂ f := by
  rw [total, List.map_append, List.sum_append]
  rfl

theorem le_total {accounts : List ι} {f : ι → ℕ} {i : ι} (hi : i ∈ accounts) :
    f i ≤ total accounts f := by
  induction accounts with
  | nil => cases hi
  | cons j js ih =>
      simp only [total, List.map_cons, List.sum_cons] at ih ⊢
      rcases List.mem_cons.mp hi with he | hj
      · subst he
        omega
      · have hle := ih hj
        omega

/-- Writing one account exchanges its old amount for the new one. -/
theorem total_update_add [DecidableEq ι] {accounts : List ι} (hn : accounts.Nodup) {i : ι}
    (hi : i ∈ accounts) (f : ι → ℕ) (x : ℕ) :
    total accounts (Function.update f i x) + f i = total accounts f + x := by
  induction accounts with
  | nil => cases hi
  | cons j js ih =>
      obtain ⟨hj, hn⟩ := List.nodup_cons.mp hn
      by_cases he : i = j
      · subst he
        have hrest : total js (Function.update f i x) = total js f := by
          apply total_congr
          intro k hk
          exact Function.update_of_ne (ne_of_mem_of_not_mem hk hj) x f
        simp only [total, List.map_cons, List.sum_cons, Function.update_self] at hrest ⊢
        omega
      · have hjs := ih hn ((List.mem_cons.mp hi).resolve_left he)
        have hkeep : Function.update f i x j = f j := Function.update_of_ne (Ne.symm he) x f
        simp only [total, List.map_cons, List.sum_cons, hkeep] at hjs ⊢
        omega

end Mandelbot
