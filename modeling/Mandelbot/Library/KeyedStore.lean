import Mathlib.Data.List.AList
import Mathlib.Data.List.Sort

/-!
# Stores of self-keyed records

Records are saved under a key computed from themselves, as a key-value store with typed
records does. Every reachable store carries this as a field. Iterators list the keys present
when they are created, in key order, each once.
-/

namespace Mandelbot

/-- A finite store in which each record sits under its own key. -/
structure KeyedStore (κ α : Type) [DecidableEq κ] (keyOf : α → κ) where
  entries : AList fun _ : κ => α
  keyed : ∀ k a, entries.lookup k = some a → keyOf a = k

namespace KeyedStore

variable {κ α : Type} [DecidableEq κ] {keyOf : α → κ}

def empty : KeyedStore κ α keyOf := ⟨∅, fun _ _ h => by cases h⟩

def get (m : KeyedStore κ α keyOf) (k : κ) : Option α := m.entries.lookup k

/-- Write a record under its own key. -/
def set (m : KeyedStore κ α keyOf) (a : α) : KeyedStore κ α keyOf where
  entries := m.entries.insert (keyOf a) a
  keyed := by
    intro k b h
    by_cases hk : k = keyOf a
    · subst k
      rw [AList.lookup_insert] at h
      cases h
      rfl
    · rw [AList.lookup_insert_ne hk] at h
      exact m.keyed k b h

theorem keyOf_get {m : KeyedStore κ α keyOf} {k : κ} {a : α} (h : m.get k = some a) :
    keyOf a = k :=
  m.keyed k a h

@[simp] theorem get_empty (k : κ) : (empty : KeyedStore κ α keyOf).get k = none := rfl

@[simp] theorem get_set_self (m : KeyedStore κ α keyOf) (a : α) :
    (m.set a).get (keyOf a) = some a :=
  AList.lookup_insert m.entries

theorem get_set_of_ne (m : KeyedStore κ α keyOf) {a : α} {k : κ} (h : k ≠ keyOf a) :
    (m.set a).get k = m.get k :=
  AList.lookup_insert_ne h

private theorem map_keyOf_filterMap (m : KeyedStore κ α keyOf) (ks : List κ)
    (h : ∀ k ∈ ks, ∃ a, m.get k = some a) : (ks.filterMap m.get).map keyOf = ks := by
  induction ks with
  | nil => rfl
  | cons k ks ih =>
      obtain ⟨a, ha⟩ := h k (by simp)
      rw [List.filterMap_cons_some ha, List.map_cons, keyOf_get ha,
        ih fun j hj => h j (List.mem_cons_of_mem _ hj)]

section Iterator

variable [LE κ] [DecidableLE κ]

/-- The keys in ascending order. -/
def keys (m : KeyedStore κ α keyOf) : List κ := m.entries.keys.insertionSort (· ≤ ·)

/-- The records in ascending order of their keys. -/
def values (m : KeyedStore κ α keyOf) : List α := m.keys.filterMap m.get

theorem nodup_keys (m : KeyedStore κ α keyOf) : m.keys.Nodup :=
  (List.perm_insertionSort _ _).nodup_iff.mpr m.entries.keys_nodup

theorem mem_keys {m : KeyedStore κ α keyOf} {k : κ} : k ∈ m.keys ↔ ∃ a, m.get k = some a := by
  rw [keys, (List.perm_insertionSort _ _).mem_iff, ← AList.mem_keys, ← AList.lookup_isSome,
    Option.isSome_iff_exists]
  rfl

theorem mem_values {m : KeyedStore κ α keyOf} {a : α} : a ∈ m.values ↔ m.get (keyOf a) = some a := by
  rw [values, List.mem_filterMap]
  constructor
  · rintro ⟨k, _, h⟩
    rwa [keyOf_get h]
  · intro h
    exact ⟨keyOf a, mem_keys.mpr ⟨a, h⟩, h⟩

theorem map_keyOf_values (m : KeyedStore κ α keyOf) : m.values.map keyOf = m.keys :=
  map_keyOf_filterMap m m.keys fun _ hk => mem_keys.mp hk

theorem nodup_values (m : KeyedStore κ α keyOf) : m.values.Nodup :=
  List.Nodup.of_map keyOf (m.map_keyOf_values ▸ m.nodup_keys)

end Iterator

/-- `m'` is `m` with the records under `ks` replaced by their images under `f`. -/
def RewrittenOn (f : α → α) (ks : List κ) (m m' : KeyedStore κ α keyOf) : Prop :=
  ∀ k, m'.get k = if k ∈ ks then (m.get k).map f else m.get k

namespace RewrittenOn

variable {f : α → α} {ks : List κ} {m m' : KeyedStore κ α keyOf}

theorem refl (f : α → α) (m : KeyedStore κ α keyOf) : RewrittenOn f [] m m := fun k => by simp

/-- A record not yet rewritten is still the original one. -/
theorem get_of_notMem (h : RewrittenOn f ks m m') {k : κ} (hk : k ∉ ks) : m'.get k = m.get k := by
  rw [h k, if_neg hk]

theorem step (h : RewrittenOn f ks m m') {a : α} (ha : m.get (keyOf a) = some a)
    (hf : keyOf (f a) = keyOf a) : RewrittenOn f (ks ++ [keyOf a]) m (m'.set (f a)) := by
  intro k
  by_cases hk : k = keyOf a
  · subst k
    have hset := get_set_self m' (f a)
    rw [hf] at hset
    rw [hset, if_pos (by simp), ha, Option.map_some]
  · rw [get_set_of_ne m' (by rwa [hf]), h k]
    simp [hk]

/-- Once every key has been visited the whole store is the image of the original. -/
theorem get_of_all [LE κ] [DecidableLE κ] (h : RewrittenOn f ks m m') (hks : ∀ k ∈ m.keys, k ∈ ks)
    (k : κ) : m'.get k = (m.get k).map f := by
  rw [h k]
  split
  · rfl
  · rename_i hk
    have hnone : m.get k = none := by
      by_contra hsome
      obtain ⟨a, ha⟩ := Option.ne_none_iff_exists'.mp hsome
      exact hk (hks k (mem_keys.mpr ⟨a, ha⟩))
    rw [hnone]
    rfl

end RewrittenOn

section Rewrite

variable [LE κ] [DecidableLE κ]

/-- Write the image of every record. -/
def rewrite (f : α → α) (m : KeyedStore κ α keyOf) : KeyedStore κ α keyOf :=
  m.values.foldl (fun m' a => m'.set (f a)) m

theorem get_rewrite (m : KeyedStore κ α keyOf) (f : α → α) (hf : ∀ a, keyOf (f a) = keyOf a)
    (k : κ) : (m.rewrite f).get k = (m.get k).map f := by
  have hrun : ∀ (as : List α) (ks : List κ) (m' : KeyedStore κ α keyOf),
      (∀ a ∈ as, m.get (keyOf a) = some a) → RewrittenOn f ks m m' →
        RewrittenOn f (ks ++ as.map keyOf) m (as.foldl (fun m' a => m'.set (f a)) m') := by
    intro as
    induction as with
    | nil =>
        intro ks m' _ h
        simpa using h
    | cons a as ih =>
        intro ks m' hstored h
        have hnext := h.step (hstored a (by simp)) (hf a)
        have hrest := ih (ks ++ [keyOf a]) _ (fun b hb => hstored b (by simp [hb])) hnext
        simpa using hrest
  have hall := hrun m.values [] m (fun a ha => mem_values.mp ha) (RewrittenOn.refl f m)
  rw [List.nil_append, map_keyOf_values] at hall
  exact hall.get_of_all (fun _ hk => hk) k

end Rewrite

section Contents

/-- The records of the store are those of the list. -/
def Contains (m : KeyedStore κ α keyOf) (as : List α) : Prop :=
  ∀ k a, m.get k = some a ↔ a ∈ as ∧ keyOf a = k

theorem contains_empty : (empty : KeyedStore κ α keyOf).Contains [] := by
  intro k a
  simp

theorem contains_singleton (a : α) : ((empty : KeyedStore κ α keyOf).set a).Contains [a] := by
  intro k b
  by_cases hk : k = keyOf a
  · subst k
    rw [get_set_self, List.mem_singleton, Option.some.injEq]
    constructor
    · intro h
      subst b
      exact ⟨rfl, rfl⟩
    · intro h
      exact h.1.symm
  · rw [get_set_of_ne _ hk, get_empty, List.mem_singleton]
    constructor
    · intro h
      cases h
    · intro h
      rw [h.1] at h
      exact absurd h.2.symm hk

theorem Contains.congr {m : KeyedStore κ α keyOf} {as bs : List α} (h : m.Contains as)
    (hmem : ∀ a, a ∈ bs ↔ a ∈ as) : m.Contains bs := by
  intro k a
  rw [h k a, hmem a]

variable [LE κ] [DecidableLE κ]

/-- Copy every record of `src` into `dst`. -/
def copyInto (src dst : KeyedStore κ α keyOf) : KeyedStore κ α keyOf := src.values.foldl set dst

theorem get_copyInto (src dst : KeyedStore κ α keyOf) (k : κ) :
    (src.copyInto dst).get k = (src.get k).or (dst.get k) := by
  have hrun : ∀ (as : List α) (dst : KeyedStore κ α keyOf), (∀ a ∈ as, src.get (keyOf a) = some a) →
      (as.foldl set dst).get k = if k ∈ as.map keyOf then src.get k else dst.get k := by
    intro as
    induction as with
    | nil => intro dst _; simp
    | cons a as ih =>
        intro dst hsrc
        rw [List.foldl_cons, ih (dst.set a) fun b hb => hsrc b (List.mem_cons_of_mem _ hb)]
        by_cases hk : k = keyOf a
        · subst k
          simp [hsrc a (by simp)]
        · simp [hk, get_set_of_ne dst hk]
  rw [copyInto, hrun src.values dst fun a ha => mem_values.mp ha, map_keyOf_values]
  by_cases hk : k ∈ src.keys
  · obtain ⟨a, ha⟩ := mem_keys.mp hk
    rw [if_pos hk, ha]
    rfl
  · have hnone : src.get k = none := by
      by_contra hsome
      exact hk (mem_keys.mpr (Option.ne_none_iff_exists'.mp hsome))
    rw [if_neg hk, hnone]
    rfl

/-- Copying adds the records when no two of them share a key. -/
theorem Contains.copyInto {src dst : KeyedStore κ α keyOf} {as bs : List α}
    (hsrc : src.Contains as) (hdst : dst.Contains bs) (hn : ((as ++ bs).map keyOf).Nodup) :
    (src.copyInto dst).Contains (as ++ bs) := by
  intro k a
  rw [List.map_append, List.nodup_append] at hn
  rw [get_copyInto, Option.or_eq_some_iff, hsrc k a, hdst k a, List.mem_append]
  constructor
  · intro h
    rcases h with h | h
    · exact ⟨.inl h.1, h.2⟩
    · exact ⟨.inr h.2.1, h.2.2⟩
  · intro h
    rcases h.1 with ha | ha
    · exact .inl ⟨ha, h.2⟩
    · refine .inr ⟨?_, ha, h.2⟩
      by_contra hsome
      obtain ⟨b, hb⟩ := Option.ne_none_iff_exists'.mp hsome
      obtain ⟨hbas, hkey⟩ := (hsrc k b).mp hb
      exact hn.2.2 _ (List.mem_map_of_mem hbas) _ (List.mem_map_of_mem ha) (hkey.trans h.2.symm)

/-- Copying once more changes nothing. -/
theorem Contains.copyInto_again {src dst dst' : KeyedStore κ α keyOf} {as : List α}
    (h : (src.copyInto dst).Contains as) (h' : dst'.Contains as) :
    (src.copyInto dst').Contains as := by
  intro k a
  have hk := h k a
  rw [get_copyInto] at hk ⊢
  cases hsrc : src.get k with
  | none =>
      rw [Option.none_or]
      exact h' k a
  | some b =>
      rw [hsrc, Option.some_or] at hk
      rwa [Option.some_or]

theorem Contains.values_perm {m : KeyedStore κ α keyOf} {as : List α} (h : m.Contains as)
    (hn : (as.map keyOf).Nodup) : m.values.Perm as := by
  apply (List.perm_ext_iff_of_nodup m.nodup_values (List.Nodup.of_map keyOf hn)).mpr
  intro a
  rw [mem_values, h (keyOf a) a]
  exact and_iff_left rfl

end Contents

end KeyedStore

end Mandelbot
