import Mathlib.Algebra.BigOperators.Group.Finset.Basic
import Mathlib.Data.Multiset.AddSub

/-!
# Reference-counted records

A store keeps one counted record per key. It tallies with a multiset of references when each
key's record exists exactly if the key is referenced, with the number of its references as its
count. Creating, acquiring and releasing a reference preserve the tally.
-/

namespace Mandelbot

variable {κ ρ ι : Type}

section Tallies

variable [DecidableEq κ]

/-- The records of `store` are exactly the referenced keys, counted by their references. -/
def Tallies (count : ρ → ℕ) (store : κ → Option ρ) (refs : Multiset κ) : Prop :=
  ∀ k, (store k).map count = if refs.count k = 0 then none else some (refs.count k)

namespace Tallies

variable {count : ρ → ℕ} {store : κ → Option ρ} {refs : Multiset κ} {k : κ}

theorem exists_of_mem (h : Tallies count store refs) (hk : k ∈ refs) :
    ∃ r, store k = some r ∧ count r = refs.count k := by
  have hpos : refs.count k ≠ 0 := (Multiset.count_pos.mpr hk).ne'
  have hrecord := h k
  rw [if_neg hpos, Option.map_eq_some_iff] at hrecord
  exact hrecord

theorem eq_none_of_notMem (h : Tallies count store refs) (hk : k ∉ refs) : store k = none := by
  have hrecord := h k
  rwa [Multiset.count_eq_zero.mpr hk, if_pos rfl, Option.map_eq_none_iff] at hrecord

theorem mem_of_some (h : Tallies count store refs) {r : ρ} (hr : store k = some r) : k ∈ refs := by
  by_contra hk
  rw [h.eq_none_of_notMem hk] at hr
  cases hr

/-- Only one key's record and references change. -/
theorem update (h : Tallies count store refs) {refs' : Multiset κ} {new : Option ρ}
    (hnew : new.map count = if refs'.count k = 0 then none else some (refs'.count k))
    (hrest : ∀ j, j ≠ k → refs'.count j = refs.count j) :
    Tallies count (Function.update store k new) refs' := by
  intro j
  by_cases hj : j = k
  · subst j
    rw [Function.update_self, hnew]
  · rw [Function.update_of_ne hj, hrest j hj, h j]

/-- A record is created for a key that nothing references, with its first reference. -/
theorem create (h : Tallies count store refs) (hk : k ∉ refs) {r : ρ} (hr : count r = 1) :
    Tallies count (Function.update store k (some r)) (k ::ₘ refs) := by
  have hcount : (k ::ₘ refs).count k = 1 := by
    rw [Multiset.count_cons_self, Multiset.count_eq_zero.mpr hk]
  apply h.update
  · rw [hcount, Option.map_some, hr]
    rfl
  · intro j hj
    exact Multiset.count_cons_of_ne hj refs

/-- One more reference to an existing record. -/
theorem acquire (h : Tallies count store refs) {r : ρ} (hr : count r = refs.count k + 1) :
    Tallies count (Function.update store k (some r)) (k ::ₘ refs) := by
  apply h.update
  · rw [Multiset.count_cons_self, Option.map_some, hr, if_neg (Nat.succ_ne_zero _)]
  · intro j hj
    exact Multiset.count_cons_of_ne hj refs

/-- One reference is released; the record goes with its last reference. -/
theorem release (h : Tallies count store refs) {new : Option ρ}
    (hnew : new.map count =
      if refs.count k - 1 = 0 then none else some (refs.count k - 1)) :
    Tallies count (Function.update store k new) (refs.erase k) := by
  apply h.update
  · rw [Multiset.count_erase_self, hnew]
  · intro j hj
    exact Multiset.count_erase_of_ne hj refs

end Tallies

end Tallies

section Holders

variable {holders : List ι} {held : ι → Option κ} {i : ι} {k : κ}

/-- The references of holders that each hold at most one. -/
def heldBy (holders : List ι) (held : ι → Option κ) : Multiset κ := holders.filterMap held

theorem heldBy_congr {held' : ι → Option κ} (h : ∀ j ∈ holders, held' j = held j) :
    heldBy holders held' = heldBy holders held := by
  rw [heldBy, List.filterMap_congr h, heldBy]

private theorem heldBy_cons_some {j : ι} (hj : held j = some k) :
    heldBy (j :: holders) held = k ::ₘ heldBy holders held := by
  rw [heldBy, List.filterMap_cons_some hj]
  rfl

private theorem heldBy_cons_none {j : ι} (hj : held j = none) :
    heldBy (j :: holders) held = heldBy holders held := by
  rw [heldBy, List.filterMap_cons_none hj]
  rfl

/-- When every holder holds a reference there are as many references as holders. -/
theorem card_heldBy (h : ∀ i ∈ holders, ∃ k, held i = some k) :
    (heldBy holders held).card = holders.length := by
  induction holders with
  | nil => rfl
  | cons j js ih =>
      obtain ⟨k, hk⟩ := h j (by simp)
      rw [heldBy_cons_some hk, Multiset.card_cons, List.length_cons,
        ih fun i hi => h i (List.mem_cons_of_mem _ hi)]

theorem count_heldBy [DecidableEq κ] (holders : List ι) (held : ι → Option κ) (k : κ) :
    (heldBy holders held).count k = holders.countP fun i => held i = some k := by
  induction holders with
  | nil => rfl
  | cons j js ih =>
      cases h : held j with
      | none => rw [heldBy_cons_none h, ih, List.countP_cons_of_neg (by simp [h])]
      | some l =>
          rw [heldBy_cons_some h, Multiset.count_cons, ih, List.countP_cons]
          simp [h, eq_comm]

variable [DecidableEq ι]

theorem heldBy_update_of_notMem (hi : i ∉ holders) (new : Option κ) :
    heldBy holders (Function.update held i new) = heldBy holders held := by
  apply heldBy_congr
  intro j hj
  exact Function.update_of_ne (ne_of_mem_of_not_mem hj hi) new held

/-- A holder without a reference takes one. -/
theorem heldBy_update_some (hn : holders.Nodup) (hi : i ∈ holders) (hnone : held i = none) :
    heldBy holders (Function.update held i (some k)) = k ::ₘ heldBy holders held := by
  induction holders with
  | nil => cases hi
  | cons j js ih =>
      obtain ⟨hjs, hn⟩ := List.nodup_cons.mp hn
      by_cases hj : i = j
      · subst j
        rw [heldBy_cons_some (Function.update_self i (some k) held), heldBy_cons_none hnone,
          heldBy_update_of_notMem hjs]
      · have hi' : i ∈ js := (List.mem_cons.mp hi).resolve_left hj
        have hkeep : Function.update held i (some k) j = held j :=
          Function.update_of_ne (Ne.symm hj) _ _
        cases h : held j with
        | none => rw [heldBy_cons_none (hkeep.trans h), heldBy_cons_none h, ih hn hi']
        | some l =>
            rw [heldBy_cons_some (hkeep.trans h), heldBy_cons_some h, ih hn hi',
              Multiset.cons_swap]

/-- A new holder joins with a reference. -/
theorem heldBy_concat_update (hi : i ∉ holders) :
    heldBy (holders ++ [i]) (Function.update held i (some k)) = k ::ₘ heldBy holders held := by
  have hsplit : heldBy (holders ++ [i]) (Function.update held i (some k)) =
      heldBy holders (Function.update held i (some k)) +
        heldBy [i] (Function.update held i (some k)) := by
    rw [heldBy, List.filterMap_append]
    rfl
  have hlast : heldBy [i] (Function.update held i (some k)) = {k} :=
    heldBy_cons_some (Function.update_self i (some k) held)
  rw [hsplit, hlast, heldBy_update_of_notMem hi, add_comm]
  rfl

/-- A holder drops its reference. -/
theorem heldBy_update_none (hn : holders.Nodup) (hi : i ∈ holders) (hsome : held i = some k) :
    heldBy holders held = k ::ₘ heldBy holders (Function.update held i none) := by
  have hback : Function.update (Function.update held i none) i (some k) = held := by
    rw [Function.update_idem, ← hsome, Function.update_eq_self]
  have htake := heldBy_update_some (k := k) hn hi (Function.update_self i none held)
  rwa [hback] at htake

end Holders

end Mandelbot
