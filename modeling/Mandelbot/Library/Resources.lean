import Mathlib.Data.List.Basic
import Mathlib.Logic.Function.Basic
import Mathlib.Tactic.Common

/-!
# Resources with triggers

The instances of a counted resource, each created by a run that may break off. A plan drops the
instances that are out of range, tainted, or made for other triggers; what is missing is then
created in any order. A run is never repeated for an instance that is kept.
-/

namespace Mandelbot

/-- An instance: its id, the triggers it was created for, and whether its creation broke off. -/
structure Resource (τ : Type) where
  id : ℕ
  triggers : τ
  tainted : Bool

/-- The instances by their index. -/
abbrev Slots (τ : Type) := ℕ → Option (Resource τ)

variable {τ ω : Type}

namespace Slots

def none : Slots τ := fun _ => Option.none

/-- Keep what is in range, intact and made for the wanted triggers. -/
def prune [DecidableEq τ] (wanted : τ) (n : ℕ) (slots : Slots τ) : Slots τ := fun i =>
  if i < n then (slots i).filter fun r => r.triggers = wanted && !r.tainted else Option.none

def ids (n : ℕ) (slots : Slots τ) : List ℕ :=
  (List.range n).filterMap fun i => (slots i).map Resource.id

/-- All instances in range exist and are intact. -/
def Complete (n : ℕ) (slots : Slots τ) : Prop := ∀ i < n, ∃ r, slots i = some r ∧ r.tainted = false

def isComplete (n : ℕ) (slots : Slots τ) : Bool :=
  (List.range n).all fun i => (slots i).any fun r => !r.tainted

theorem isComplete_iff {n : ℕ} {slots : Slots τ} : slots.isComplete n = true ↔ slots.Complete n := by
  simp [isComplete, Complete, Option.any_eq_true]

theorem prune_eq_some [DecidableEq τ] {wanted : τ} {n i : ℕ} {slots : Slots τ} {r : Resource τ} :
    slots.prune wanted n i = some r ↔
      i < n ∧ slots i = some r ∧ r.triggers = wanted ∧ r.tainted = false := by
  rw [prune]
  split
  · rename_i hi
    rw [Option.filter_eq_some_iff]
    simp [hi]
  · rename_i hi
    simp [hi]

/-- The instances are in range and made for the wanted triggers. -/
def Meets (wanted : τ) (n : ℕ) (slots : Slots τ) : Prop :=
  ∀ i r, slots i = some r → i < n ∧ r.triggers = wanted

def Intact (slots : Slots τ) : Prop := ∀ i r, slots i = some r → r.tainted = false

theorem meets_none (wanted : τ) (n : ℕ) : (none : Slots τ).Meets wanted n := nofun

theorem not_complete_none {n : ℕ} (hn : 0 < n) : ¬ (none : Slots τ).Complete n := by
  intro h
  obtain ⟨r, hr, _⟩ := h 0 hn
  cases hr

theorem meets_prune [DecidableEq τ] (wanted : τ) (n : ℕ) (slots : Slots τ) :
    (slots.prune wanted n).Meets wanted n := by
  intro i r hr
  obtain ⟨hi, _, htriggers, _⟩ := prune_eq_some.mp hr
  exact ⟨hi, htriggers⟩

theorem intact_prune [DecidableEq τ] (wanted : τ) (n : ℕ) (slots : Slots τ) :
    (slots.prune wanted n).Intact := by
  intro i r hr
  exact (prune_eq_some.mp hr).2.2.2

/-- Complete slots for the wanted triggers are kept as they are. -/
theorem prune_of_complete [DecidableEq τ] {wanted : τ} {n : ℕ} {slots : Slots τ}
    (hall : slots.Complete n) (hmeets : slots.Meets wanted n) : slots.prune wanted n = slots := by
  funext i
  cases hi : slots i with
  | none =>
      rw [prune, hi]
      split <;> rfl
  | some r =>
      obtain ⟨hlt, hr⟩ := hmeets i r hi
      obtain ⟨r', hr', hintact⟩ := hall i hlt
      rw [hi] at hr'
      cases hr'
      exact prune_eq_some.mpr ⟨hlt, hi, hr, hintact⟩

end Slots

/-- Slots being filled: the next free id, and the world that the runs change. -/
structure Site (τ ω : Type) where
  slots : Slots τ
  nextId : ℕ
  world : ω

/-- Create an instance that is missing; a run that breaks off leaves it tainted. -/
def create (wanted : τ) (run : ℕ → ω → ω × Bool) (site : Site τ ω) (i : ℕ) : Site τ ω :=
  match site.slots i with
  | some _ => site
  | none =>
      { slots := Function.update site.slots i (some ⟨site.nextId, wanted, !(run i site.world).2⟩)
        nextId := site.nextId + 1
        world := (run i site.world).1 }

def createAll (wanted : τ) (run : ℕ → ω → ω × Bool) (order : List ℕ) (site : Site τ ω) :
    Site τ ω :=
  order.foldl (create wanted run) site

section Create

variable {wanted : τ} {run : ℕ → ω → ω × Bool} {order : List ℕ} {site : Site τ ω} {i : ℕ}

theorem create_of_some {r : Resource τ} (h : site.slots i = some r) :
    create wanted run site i = site := by
  rw [create, h]

theorem create_of_none (h : site.slots i = none) :
    create wanted run site i =
      { slots := Function.update site.slots i (some ⟨site.nextId, wanted, !(run i site.world).2⟩)
        nextId := site.nextId + 1
        world := (run i site.world).1 } := by
  rw [create, h]

/-- With nothing missing nothing is run. -/
theorem createAll_of_some (h : ∀ i ∈ order, ∃ r, site.slots i = some r) :
    createAll wanted run order site = site := by
  induction order with
  | nil => rfl
  | cons i order ih =>
      obtain ⟨r, hr⟩ := h i (by simp)
      rw [createAll, List.foldl_cons, create_of_some hr]
      exact ih fun j hj => h j (List.mem_cons_of_mem _ hj)

/-- What the creation of the missing instances does to the slots. -/
structure Filled (wanted : τ) (order : List ℕ) (before after : Site τ ω) : Prop where
  nextId_le : before.nextId ≤ after.nextId
  kept : ∀ i r, before.slots i = some r → after.slots i = some r
  made : ∀ i r, after.slots i = some r → before.slots i = some r ∨
    (before.slots i = none ∧ i ∈ order ∧ r.triggers = wanted ∧ before.nextId ≤ r.id ∧
      r.id < after.nextId)
  full : ∀ i ∈ order, ∃ r, after.slots i = some r

private theorem filled_create (wanted : τ) (run : ℕ → ω → ω × Bool) (site : Site τ ω) (i : ℕ) :
    Filled wanted [i] site (create wanted run site i) := by
  cases h : site.slots i with
  | some r =>
      rw [create_of_some h]
      exact ⟨Nat.le_refl _, fun _ _ hr => hr, fun _ _ hr => .inl hr, by simp [h]⟩
  | none =>
      rw [create_of_none h]
      refine ⟨Nat.le_succ _, ?_, ?_, by simp⟩
      · intro j r hr
        have hne : j ≠ i := by
          rintro rfl
          rw [h] at hr
          cases hr
        simpa [Function.update_of_ne hne] using hr
      · intro j r hr
        by_cases hj : j = i
        · subst hj
          simp only [Function.update_self, Option.some.injEq] at hr
          subst hr
          exact .inr ⟨h, by simp, rfl, Nat.le_refl _, Nat.lt_succ_self _⟩
        · left
          simpa [Function.update_of_ne hj] using hr

private theorem Filled.trans {order' : List ℕ} {a b c : Site τ ω} (hab : Filled wanted order a b)
    (hbc : Filled wanted order' b c) : Filled wanted (order ++ order') a c where
  nextId_le := Nat.le_trans hab.nextId_le hbc.nextId_le
  kept i r hr := hbc.kept i r (hab.kept i r hr)
  made i r hr := by
    have hle := hab.nextId_le
    have hle' := hbc.nextId_le
    rcases hbc.made i r hr with hb | ⟨hnone, hmem, htriggers, hid⟩
    · rcases hab.made i r hb with ha | ⟨hnone, hmem, htriggers, hid⟩
      · exact .inl ha
      · exact .inr ⟨hnone, List.mem_append_left _ hmem, htriggers, hid.1, by omega⟩
    · refine .inr ⟨?_, List.mem_append_right _ hmem, htriggers, by omega, hid.2⟩
      cases ha : a.slots i with
      | none => rfl
      | some r' =>
          rw [hab.kept i r' ha] at hnone
          cases hnone
  full i hi := by
    rcases List.mem_append.mp hi with hi | hi
    · obtain ⟨r, hr⟩ := hab.full i hi
      exact ⟨r, hbc.kept i r hr⟩
    · exact hbc.full i hi

theorem filled_createAll (wanted : τ) (run : ℕ → ω → ω × Bool) (order : List ℕ)
    (site : Site τ ω) : Filled wanted order site (createAll wanted run order site) := by
  induction order generalizing site with
  | nil => exact ⟨Nat.le_refl _, fun _ _ hr => hr, fun _ _ hr => .inl hr, by simp⟩
  | cons i order ih => exact (filled_create wanted run site i).trans (ih _)

theorem Filled.meets {n : ℕ} {after : Site τ ω} (h : Filled wanted order site after)
    (horder : ∀ i ∈ order, i < n) (hmeets : site.slots.Meets wanted n) :
    after.slots.Meets wanted n := by
  intro i r hr
  rcases h.made i r hr with hold | ⟨_, hmem, htriggers, _⟩
  · exact hmeets i r hold
  · exact ⟨horder i hmem, htriggers⟩

theorem Filled.complete {n : ℕ} {after : Site τ ω} (h : Filled wanted order site after)
    (horder : ∀ i < n, i ∈ order) (hintact : after.slots.Intact) : after.slots.Complete n := by
  intro i hi
  obtain ⟨r, hr⟩ := h.full i (horder i hi)
  exact ⟨r, hr, hintact i r hr⟩

/-- The runs keep `I`, a run that ends well makes its own instance good, and no run spoils
another's. -/
structure Provisions (run : ℕ → ω → ω × Bool) (order : List ℕ) (I : ω → Prop)
    (P : ℕ → ω → Prop) : Prop where
  keeps : ∀ i ∈ order, ∀ w, I w → I (run i w).1
  makes : ∀ i ∈ order, ∀ w, I w → (run i w).2 = true → P i (run i w).1
  spares : ∀ i ∈ order, ∀ j, j ≠ i → ∀ w, I w → P j w → P j (run i w).1

/-- Every intact instance is good. -/
def Sound (P : ℕ → ω → Prop) (slots : Slots τ) (w : ω) : Prop :=
  ∀ i r, slots i = some r → r.tainted = false → P i w

private theorem sound_create (wanted : τ) {I : ω → Prop} {P : ℕ → ω → Prop} (h : Provisions run order I P)
    (hi : i ∈ order) (hI : I site.world) (hsound : Sound P site.slots site.world) :
    I (create wanted run site i).world ∧
      Sound P (create wanted run site i).slots (create wanted run site i).world := by
  cases hslot : site.slots i with
  | some r =>
      rw [create_of_some hslot]
      exact ⟨hI, hsound⟩
  | none =>
      rw [create_of_none hslot]
      refine ⟨h.keeps i hi _ hI, ?_⟩
      intro j r hr hintact
      by_cases hj : j = i
      · subst hj
        simp only [Function.update_self, Option.some.injEq] at hr
        subst hr
        exact h.makes j hi _ hI (by simpa using hintact)
      · simp only [Function.update_of_ne hj] at hr
        exact h.spares i hi j hj _ hI (hsound j r hr hintact)

/-- Good instances stay good while the missing ones are created. -/
theorem sound_createAll (wanted : τ) (site : Site τ ω) {I : ω → Prop} {P : ℕ → ω → Prop}
    (h : Provisions run order I P) (hI : I site.world) (hsound : Sound P site.slots site.world) :
    I (createAll wanted run order site).world ∧
      Sound P (createAll wanted run order site).slots (createAll wanted run order site).world := by
  have hrun : ∀ (order' : List ℕ) (site : Site τ ω), (∀ i ∈ order', i ∈ order) → I site.world →
      Sound P site.slots site.world → I (createAll wanted run order' site).world ∧
        Sound P (createAll wanted run order' site).slots
          (createAll wanted run order' site).world := by
    intro order'
    induction order' with
    | nil => exact fun _ _ hI hsound => ⟨hI, hsound⟩
    | cons i order' ih =>
        intro site hsub hI hsound
        obtain ⟨hI', hsound'⟩ := sound_create wanted h (hsub i (by simp)) hI hsound
        exact ih _ (fun j hj => hsub j (List.mem_cons_of_mem _ hj)) hI' hsound'
  exact hrun order site (fun _ hi => hi) hI hsound

/-- Runs that all end well taint nothing. -/
theorem intact_createAll (wanted : τ) {I : ω → Prop} (hkeeps : ∀ i ∈ order, ∀ w, I w → I (run i w).1)
    (hends : ∀ i ∈ order, ∀ w, I w → (run i w).2 = true) (hI : I site.world)
    (hintact : site.slots.Intact) : (createAll wanted run order site).slots.Intact := by
  induction order generalizing site with
  | nil => exact hintact
  | cons i order ih =>
      rw [createAll, List.foldl_cons]
      apply ih (fun j hj => hkeeps j (List.mem_cons_of_mem _ hj))
        (fun j hj => hends j (List.mem_cons_of_mem _ hj))
      · cases hslot : site.slots i with
        | some r => rwa [create_of_some hslot]
        | none =>
            rw [create_of_none hslot]
            exact hkeeps i (by simp) _ hI
      · cases hslot : site.slots i with
        | some r => rwa [create_of_some hslot]
        | none =>
            intro j r hr
            rw [create_of_none hslot, hends i (by simp) _ hI] at hr
            by_cases hj : j = i
            · subst hj
              simp only [Function.update_self, Option.some.injEq] at hr
              subst hr
              rfl
            · simp only [Function.update_of_ne hj] at hr
              exact hintact j r hr

end Create

end Mandelbot
