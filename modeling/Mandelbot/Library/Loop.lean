import Mathlib.Data.List.Infix

/-!
# Loops that may abort

A store iterator hands its elements one by one to a callback that updates a state, may abort,
and may ask the iterator to stop. A callback that never stops is a monadic fold; the rules
below carry an invariant over the processed prefix through such a fold.
-/

namespace Mandelbot

variable {α ε σ : Type}

/-- Call `cb` with the running index, the element and the state until it asks to stop. -/
def iterateFrom (cb : Nat → α → σ → Except ε (Bool × σ)) : Nat → List α → σ → Except ε σ
  | _, [], s => .ok s
  | i, a :: as, s => do
      let (stop, s) ← cb i a s
      if stop then .ok s else iterateFrom cb (i + 1) as s

def iterate (cb : Nat → α → σ → Except ε (Bool × σ)) (as : List α) (s : σ) : Except ε σ :=
  iterateFrom cb 0 as s

/-- The callback that ignores its index and always returns `stop = false`. -/
def neverStop (f : σ → α → Except ε σ) : Nat → α → σ → Except ε (Bool × σ) :=
  fun _ a s => (f s a).map fun s => (false, s)

private theorem iterateFrom_neverStop (f : σ → α → Except ε σ) (i : Nat) (as : List α) (s : σ) :
    iterateFrom (neverStop f) i as s = as.foldlM f s := by
  induction as generalizing i s with
  | nil => rfl
  | cons a as ih =>
      rw [iterateFrom, List.foldlM_cons, neverStop]
      cases h : f s a with
      | error e => rfl
      | ok s₁ => exact ih (i + 1) s₁

@[simp] theorem iterate_neverStop (f : σ → α → Except ε σ) (as : List α) (s : σ) :
    iterate (neverStop f) as s = as.foldlM f s :=
  iterateFrom_neverStop f 0 as s

/-- A sequence of two steps succeeds exactly when both do. -/
theorem bind_eq_ok {β γ : Type} {x : Except ε β} {f : β → Except ε γ} {c : γ} :
    x >>= f = .ok c ↔ ∃ b, x = .ok b ∧ f b = .ok c := by
  cases x with
  | error e => simp [bind, Except.bind]
  | ok b => simp [bind, Except.bind]

theorem foldlM_cons_eq_ok {f : σ → α → Except ε σ} {a : α} {as : List α} {s s' : σ} :
    (a :: as).foldlM f s = .ok s' ↔ ∃ s₁, f s a = .ok s₁ ∧ as.foldlM f s₁ = .ok s' := by
  rw [List.foldlM_cons, bind_eq_ok]

/-- A fold whose step writes one component `μ` of the state. -/
theorem foldlM_component {μ : Type} (f : σ → α → σ) (put : μ → σ) (step : μ → α → μ)
    (h : ∀ m a, f (put m) a = put (step m a)) (as : List α) (m : μ) :
    as.foldlM (fun s a => (.ok (f s a) : Except ε σ)) (put m) = .ok (put (as.foldl step m)) := by
  induction as generalizing m with
  | nil => rfl
  | cons a as ih =>
      rw [foldlM_cons_eq_ok]
      exact ⟨put (step m a), congrArg Except.ok (h m a), ih (step m a)⟩

section Invariant

variable {f : σ → α → Except ε σ} {I : List α → σ → Prop}

private theorem foldlM_invariant_from (pre : List α) {as : List α} {s s' : σ}
    (step : ∀ done a s s', (done ++ [a]) <+: pre ++ as → I done s → f s a = .ok s' →
      I (done ++ [a]) s')
    (h : I pre s) (hrun : as.foldlM f s = .ok s') : I (pre ++ as) s' := by
  induction as generalizing pre s with
  | nil =>
      cases hrun
      simpa using h
  | cons a as ih =>
      obtain ⟨s₁, h₁, hrest⟩ := foldlM_cons_eq_ok.mp hrun
      have hsplit : pre ++ a :: as = (pre ++ [a]) ++ as := by simp
      have hnext : I (pre ++ [a]) s₁ :=
        step pre a s s₁ (hsplit ▸ List.prefix_append _ _) h h₁
      rw [hsplit] at step ⊢
      exact ih (pre ++ [a]) step hnext hrest

/-- What every step of a successful fold preserves holds at its end. -/
theorem foldlM_invariant {as : List α} {s s' : σ}
    (step : ∀ done a s s', (done ++ [a]) <+: as → I done s → f s a = .ok s' → I (done ++ [a]) s')
    (h : I [] s) (hrun : as.foldlM f s = .ok s') : I as s' :=
  foldlM_invariant_from [] step h hrun

private theorem foldlM_total_from (pre : List α) {as : List α} {s : σ}
    (step : ∀ done a s, (done ++ [a]) <+: pre ++ as → I done s →
      ∃ s', f s a = .ok s' ∧ I (done ++ [a]) s')
    (h : I pre s) : ∃ s', as.foldlM f s = .ok s' ∧ I (pre ++ as) s' := by
  induction as generalizing pre s with
  | nil => exact ⟨s, rfl, by simpa using h⟩
  | cons a as ih =>
      have hsplit : pre ++ a :: as = (pre ++ [a]) ++ as := by simp
      obtain ⟨s₁, h₁, hnext⟩ := step pre a s (hsplit ▸ List.prefix_append _ _) h
      rw [hsplit] at step ⊢
      obtain ⟨s', hrest, hI⟩ := ih (pre ++ [a]) step hnext
      exact ⟨s', foldlM_cons_eq_ok.mpr ⟨s₁, h₁, hrest⟩, hI⟩

/-- A fold whose every step succeeds and preserves the invariant succeeds. -/
theorem foldlM_total {as : List α} {s : σ}
    (step : ∀ done a s, (done ++ [a]) <+: as → I done s →
      ∃ s', f s a = .ok s' ∧ I (done ++ [a]) s')
    (h : I [] s) : ∃ s', as.foldlM f s = .ok s' ∧ I as s' :=
  foldlM_total_from [] step h

/-- A successful fold ran its step successfully on each element, in a state of the invariant. -/
theorem foldlM_visits {as : List α} {s s' : σ}
    (step : ∀ done a s s', (done ++ [a]) <+: as → I done s → f s a = .ok s' → I (done ++ [a]) s')
    (h : I [] s) (hrun : as.foldlM f s = .ok s') {a : α} (ha : a ∈ as) :
    ∃ done t t', (done ++ [a]) <+: as ∧ I done t ∧ f t a = .ok t' := by
  obtain ⟨done, rest, rfl⟩ := List.append_of_mem ha
  rw [List.foldlM_append, bind_eq_ok] at hrun
  rcases hrun with ⟨t, hdone, hrest⟩
  obtain ⟨t', hstep, _⟩ := foldlM_cons_eq_ok.mp hrest
  have hsplitPre : (done ++ [a]) <+: done ++ a :: rest := ⟨rest, by simp⟩
  refine ⟨done, t, t', hsplitPre, ?_, hstep⟩
  refine foldlM_invariant ?_ h hdone
  intro pre b u u' hpre
  exact step pre b u u' (hpre.trans (List.prefix_append _ _))

end Invariant

/-- The element a prefix ends in is not among the earlier ones when nothing repeats. -/
theorem notMem_of_split {done as : List α} {a : α} (hn : as.Nodup)
    (h : (done ++ [a]) <+: as) : a ∉ done := by
  have hnodup : (done ++ [a]).Nodup := hn.sublist h.sublist
  intro ha
  exact (List.nodup_append.mp hnodup).2.2 a ha a (by simp) rfl

theorem mem_of_split {done as : List α} {a : α} (h : (done ++ [a]) <+: as) : a ∈ as :=
  h.subset (by simp)

end Mandelbot
