import Mathlib.Data.List.Basic
import Mathlib.Tactic.Common

/-!
# JavaScript objects

The values that have a JSON text, with the property order of JavaScript: array indices ascending,
then all other keys in the order of their creation. An undefined property is one that is not there.
-/

namespace Mandelbot

inductive Json (ν : Type) where
  | null
  | bool (b : Bool)
  | num (n : ν)
  | str (s : String)
  | arr (items : List (Json ν))
  | obj (props : List (String × Json ν))

variable {ν α : Type}

section Keys

/-- A key that is the decimal of an array index. -/
def arrayIndex (key : String) : Option ℕ :=
  key.toNat?.filter fun n => toString n = key && n < 4294967295

/-- A new key goes before this one. -/
def goesBefore (key other : String) : Bool :=
  match arrayIndex key, arrayIndex other with
  | some i, some j => i < j
  | some _, none => true
  | none, _ => false

def Precedes (key other : String) : Prop :=
  goesBefore key other = true ∨ (arrayIndex key = none ∧ arrayIndex other = none ∧ key ≠ other)

theorem arrayIndex_eq_some {key : String} {i : ℕ} (h : arrayIndex key = some i) :
    toString i = key := by
  rw [arrayIndex, Option.filter_eq_some_iff] at h
  have htext := h.2
  simp only [Bool.and_eq_true, decide_eq_true_eq] at htext
  exact htext.1

theorem goesBefore_irrefl (key : String) : goesBefore key key = false := by
  rw [goesBefore]
  cases arrayIndex key with
  | none => rfl
  | some i => simp

theorem goesBefore_of_precedes {key k k' : String} (h : goesBefore key k = true)
    (h' : Precedes k k') : goesBefore key k' = true := by
  rcases h' with h' | ⟨hk, hk', _⟩
  · rw [goesBefore] at h h' ⊢
    revert h h'
    cases arrayIndex key <;> cases arrayIndex k <;> cases arrayIndex k' <;> simp
    omega
  · rw [goesBefore, hk] at h
    rw [goesBefore, hk']
    exact h

theorem precedes_of_not {key k : String} (hne : k ≠ key) (h : goesBefore key k = false) :
    Precedes k key := by
  rw [goesBefore] at h
  rw [Precedes, goesBefore]
  cases hi : arrayIndex key with
  | none =>
      cases hj : arrayIndex k with
      | none => exact .inr ⟨rfl, rfl, hne⟩
      | some j => exact .inl rfl
  | some i =>
      cases hj : arrayIndex k with
      | none =>
          rw [hi, hj] at h
          cases h
      | some j =>
          left
          rw [hi, hj] at h
          have hle : j ≤ i := by simpa using h
          have hdiff : j ≠ i := by
            rintro rfl
            exact hne ((arrayIndex_eq_some hj).symm.trans (arrayIndex_eq_some hi))
          simp only [decide_eq_true_eq]
          omega

theorem not_goesBefore_of_precedes {k key : String} (h : Precedes k key) :
    k ≠ key ∧ goesBefore key k = false := by
  constructor
  · rintro rfl
    rcases h with h | ⟨_, _, hne⟩
    · rw [goesBefore_irrefl] at h
      cases h
    · exact hne rfl
  · rw [Bool.eq_false_iff]
    intro hback
    have hloop := goesBefore_of_precedes hback h
    rw [goesBefore_irrefl] at hloop
    cases hloop

end Keys

section Properties

/-- A property is replaced in its place; a new one is put where its key belongs. -/
def setProp (key : String) (value : α) : List (String × α) → List (String × α)
  | [] => [(key, value)]
  | (k, v) :: props =>
      if k = key then (key, value) :: props
      else if goesBefore key k then (key, value) :: (k, v) :: props
      else (k, v) :: setProp key value props

def getProp (key : String) (props : List (String × α)) : Option α :=
  (props.find? fun p => p.1 = key).map Prod.snd

/-- The order in which a JavaScript object lists its keys. -/
def Ordered (props : List (String × α)) : Prop := props.Pairwise fun p q => Precedes p.1 q.1

theorem mem_setProp {key : String} {value : α} {props : List (String × α)} {p : String × α}
    (h : p ∈ setProp key value props) : p = (key, value) ∨ p ∈ props := by
  induction props with
  | nil => exact .inl (by simpa [setProp] using h)
  | cons q props ih =>
      obtain ⟨k, v⟩ := q
      rw [setProp] at h
      split at h
      · rcases List.mem_cons.mp h with he | hmem
        · exact .inl he
        · exact .inr (List.mem_cons_of_mem _ hmem)
      split at h
      · rcases List.mem_cons.mp h with he | hmem
        · exact .inl he
        · exact .inr hmem
      · rcases List.mem_cons.mp h with he | hmem
        · exact .inr (by rw [he]; exact List.mem_cons_self)
        · exact (ih hmem).imp_right (List.mem_cons_of_mem _)

theorem ordered_setProp {props : List (String × α)} (h : Ordered props) (key : String) (value : α) :
    Ordered (setProp key value props) := by
  induction props with
  | nil => exact List.pairwise_singleton _ _
  | cons q props ih =>
      obtain ⟨k, v⟩ := q
      obtain ⟨hfirst, hrest⟩ := List.pairwise_cons.mp h
      rw [setProp]
      split
      · rename_i he
        rw [← he]
        exact List.pairwise_cons.mpr ⟨hfirst, hrest⟩
      rename_i hne
      split
      · rename_i hbefore
        refine List.pairwise_cons.mpr ⟨?_, h⟩
        intro p hp
        rcases List.mem_cons.mp hp with rfl | hp
        · exact .inl hbefore
        · exact .inl (goesBefore_of_precedes hbefore (hfirst p hp))
      · rename_i hafter
        refine List.pairwise_cons.mpr ⟨?_, ih hrest⟩
        intro p hp
        rcases mem_setProp hp with rfl | hp
        · exact precedes_of_not hne (by simpa using hafter)
        · exact hfirst p hp

/-- A key that belongs after all others is put at the end. -/
theorem setProp_of_precedes {props : List (String × α)} {key : String} {value : α}
    (h : ∀ p ∈ props, Precedes p.1 key) : setProp key value props = props ++ [(key, value)] := by
  induction props with
  | nil => rfl
  | cons q props ih =>
      obtain ⟨k, v⟩ := q
      obtain ⟨hne, hafter⟩ := not_goesBefore_of_precedes (h (k, v) List.mem_cons_self)
      rw [setProp, if_neg hne, if_neg (by simp [hafter]),
        ih fun p hp => h p (List.mem_cons_of_mem _ hp)]
      rfl

theorem getProp_cons (key k : String) (v : α) (props : List (String × α)) :
    getProp key ((k, v) :: props) = if k = key then some v else getProp key props := by
  rw [getProp, getProp, List.find?_cons]
  by_cases h : k = key
  · simp [h]
  · simp [h]

@[simp] theorem getProp_setProp_self (key : String) (value : α) (props : List (String × α)) :
    getProp key (setProp key value props) = some value := by
  induction props with
  | nil => rw [setProp, getProp_cons, if_pos rfl]
  | cons q props ih =>
      obtain ⟨k, v⟩ := q
      rw [setProp]
      split
      · rw [getProp_cons, if_pos rfl]
      split
      · rw [getProp_cons, if_pos rfl]
      · rename_i hne _
        rw [getProp_cons, if_neg hne, ih]

theorem getProp_setProp_of_ne {key key' : String} (hne : key' ≠ key) (value : α)
    (props : List (String × α)) : getProp key' (setProp key value props) = getProp key' props := by
  induction props with
  | nil => rw [setProp, getProp_cons, if_neg hne.symm]
  | cons q props ih =>
      obtain ⟨k, v⟩ := q
      rw [setProp]
      split
      · rename_i he
        rw [getProp_cons, if_neg hne.symm, getProp_cons, if_neg (he ▸ hne.symm)]
      split
      · rw [getProp_cons, if_neg hne.symm]
      · rw [getProp_cons, getProp_cons, ih]

theorem mem_of_getProp {key : String} {value : α} {props : List (String × α)}
    (h : getProp key props = some value) : (key, value) ∈ props := by
  rw [getProp, Option.map_eq_some_iff] at h
  obtain ⟨⟨k, v⟩, hfind, rfl⟩ := h
  have hkey : k = key := by simpa using List.find?_some hfind
  rw [← hkey]
  exact List.mem_of_find?_eq_some hfind

theorem getProp_of_mem {props : List (String × α)} (hordered : Ordered props) {p : String × α}
    (h : p ∈ props) : getProp p.1 props = some p.2 := by
  induction props with
  | nil => cases h
  | cons q props ih =>
      have hrest := List.pairwise_cons.mp hordered
      rw [getProp_cons]
      rcases List.mem_cons.mp h with rfl | hmem
      · rw [if_pos rfl]
      · rw [if_neg (not_goesBefore_of_precedes (hrest.1 p hmem)).1]
        exact ih hrest.2 hmem

/-- To set a property to what it is changes nothing. -/
theorem setProp_of_getProp {key : String} {value : α} {props : List (String × α)}
    (hordered : Ordered props) (h : getProp key props = some value) :
    setProp key value props = props := by
  induction props with
  | nil => cases h
  | cons q props ih =>
      obtain ⟨k, v⟩ := q
      obtain ⟨hfirst, hrest⟩ := List.pairwise_cons.mp hordered
      rw [getProp_cons] at h
      rw [setProp]
      by_cases hk : k = key
      · rw [if_pos hk] at h ⊢
        rw [← Option.some.inj h, hk]
      · rw [if_neg hk] at h ⊢
        have hafter := (not_goesBefore_of_precedes (hfirst (key, value) (mem_of_getProp h))).2
        rw [if_neg (by simp [hafter]), ih hrest h]

end Properties

namespace Json

mutual

/-- Every object lists its keys in the order of JavaScript. -/
def WellFormed : Json ν → Prop
  | .arr items => ItemsWellFormed items
  | .obj props => Ordered props ∧ PropsWellFormed props
  | _ => True

def ItemsWellFormed : List (Json ν) → Prop
  | [] => True
  | v :: items => v.WellFormed ∧ ItemsWellFormed items

def PropsWellFormed : List (String × Json ν) → Prop
  | [] => True
  | (_, v) :: props => v.WellFormed ∧ PropsWellFormed props

end

theorem itemsWellFormed_iff {items : List (Json ν)} :
    ItemsWellFormed items ↔ ∀ v ∈ items, v.WellFormed := by
  induction items with
  | nil => simp [ItemsWellFormed]
  | cons v items ih => simp [ItemsWellFormed, ih]

theorem propsWellFormed_iff {props : List (String × Json ν)} :
    PropsWellFormed props ↔ ∀ p ∈ props, p.2.WellFormed := by
  induction props with
  | nil => simp [PropsWellFormed]
  | cons p props ih => simp [PropsWellFormed, ih]

end Json

/-- A value as JavaScript builds it. -/
abbrev Js (ν : Type) := { v : Json ν // v.WellFormed }

/-- An object as JavaScript builds it. -/
structure Obj (ν : Type) where
  props : List (String × Json ν)
  ordered : Ordered props
  wellFormed : ∀ p ∈ props, p.2.WellFormed

namespace Js

def null : Js ν := ⟨.null, by simp [Json.WellFormed]⟩

def bool (b : Bool) : Js ν := ⟨.bool b, by simp [Json.WellFormed]⟩

def num (n : ν) : Js ν := ⟨.num n, by simp [Json.WellFormed]⟩

def str (s : String) : Js ν := ⟨.str s, by simp [Json.WellFormed]⟩

def arr (items : List (Js ν)) : Js ν :=
  ⟨.arr (items.map Subtype.val), by
    rw [Json.WellFormed, Json.itemsWellFormed_iff]
    intro v hv
    obtain ⟨w, _, rfl⟩ := List.mem_map.mp hv
    exact w.property⟩

end Js

namespace Obj

def empty : Obj ν := ⟨[], List.Pairwise.nil, nofun⟩

def set (o : Obj ν) (key : String) (value : Js ν) : Obj ν where
  props := setProp key value.val o.props
  ordered := ordered_setProp o.ordered key value.val
  wellFormed p hp := by
    rcases mem_setProp hp with rfl | hp
    · exact value.property
    · exact o.wellFormed p hp

/-- The property, unless it is undefined. -/
def get (o : Obj ν) (key : String) : Option (Js ν) :=
  (getProp key o.props).pmap Subtype.mk fun _ hv => o.wellFormed _ (mem_of_getProp hv)

/-- A value that may be undefined is set only when it is not. -/
def set? (o : Obj ν) (key : String) (value : Option (Js ν)) : Obj ν :=
  value.elim o (o.set key)

def toJs (o : Obj ν) : Js ν :=
  ⟨.obj o.props, by
    rw [Json.WellFormed, Json.propsWellFormed_iff]
    exact ⟨o.ordered, o.wellFormed⟩⟩

theorem ext_props {o o' : Obj ν} (h : o.props = o'.props) : o = o' := by
  cases o
  cases o'
  cases h
  rfl

@[simp] theorem get_empty (key : String) : (empty : Obj ν).get key = none := rfl

@[simp] theorem get_set_self (o : Obj ν) (key : String) (value : Js ν) :
    (o.set key value).get key = some value := by
  obtain ⟨v, hv⟩ := value
  simp only [get, set, getProp_setProp_self]
  rfl

theorem set_of_get {o : Obj ν} {key : String} {value : Js ν} (h : o.get key = some value) :
    o.set key value = o := by
  apply ext_props
  apply setProp_of_getProp o.ordered
  rw [get, Option.pmap_eq_some_iff] at h
  obtain ⟨v, _, hv, rfl⟩ := h
  exact hv

theorem get_set_of_ne {key key' : String} (hne : key' ≠ key) (o : Obj ν) (value : Js ν) :
    (o.set key value).get key' = o.get key' := by
  simp only [get, set, getProp_setProp_of_ne hne]

end Obj

namespace Json

theorem wellFormed_arr {items : List (Json ν)} :
    (Json.arr items).WellFormed ↔ ∀ v ∈ items, v.WellFormed := by
  rw [WellFormed, itemsWellFormed_iff]

theorem wellFormed_obj {props : List (String × Json ν)} :
    (Json.obj props).WellFormed ↔ Ordered props ∧ ∀ p ∈ props, p.2.WellFormed := by
  rw [WellFormed, propsWellFormed_iff]

end Json

def Obj.ofProps (props : List (String × Json ν)) (h : (Json.obj props).WellFormed) : Obj ν :=
  ⟨props, (Json.wellFormed_obj.mp h).1, (Json.wellFormed_obj.mp h).2⟩

namespace Js

/-- A property with a name; only objects have such properties. -/
def get : Js ν → String → Option (Js ν)
  | ⟨.obj props, h⟩, key => (Obj.ofProps props h).get key
  | _, _ => none

/-- The items of an array. -/
def items : Js ν → Option (List (Js ν))
  | ⟨.arr items, h⟩ => some (items.pmap Subtype.mk (Json.wellFormed_arr.mp h))
  | _ => none

/-- What a spread of the value into an array gives. -/
def iterate : Js ν → Option (List (Js ν))
  | ⟨.str s, _⟩ => some (s.toList.map fun c => str (String.singleton c))
  | v => v.items

/-- The object with the values under their indices. -/
def indexed (values : List (Js ν)) : Obj ν :=
  values.zipIdx.foldl (fun o p => o.set (toString p.2) p.1) Obj.empty

/-- What a spread of the value into an object gives. -/
def spread : Js ν → Obj ν
  | ⟨.obj props, h⟩ => Obj.ofProps props h
  | v => indexed (v.iterate.getD [])

def isNull : Js ν → Bool
  | ⟨.null, _⟩ => true
  | _ => false

end Js

/-- The properties of an object in order. -/
def Obj.entries (o : Obj ν) : List (String × Js ν) :=
  o.props.pmap (fun p hp => (p.1, ⟨p.2, hp⟩)) o.wellFormed

@[simp] theorem Js.get_toJs (o : Obj ν) (key : String) : o.toJs.get key = o.get key := rfl

@[simp] theorem Js.spread_toJs (o : Obj ν) : o.toJs.spread = o := rfl

@[simp] theorem Js.isNull_toJs (o : Obj ν) : o.toJs.isNull = false := rfl

@[simp] theorem Js.items_arr (items : List (Js ν)) : (Js.arr items).items = some items := by
  have hback : ∀ h : ∀ v ∈ items.map Subtype.val, v.WellFormed,
      (items.map Subtype.val).pmap Subtype.mk h = items := by
    intro h
    apply List.map_injective_iff.mpr Subtype.val_injective
    rw [List.map_pmap, List.pmap_eq_map, List.map_id']
  exact congrArg some (hback _)

@[simp] theorem Js.iterate_arr (items : List (Js ν)) : (Js.arr items).iterate = some items :=
  Js.items_arr items

theorem Obj.get_of_mem_entries {o : Obj ν} {p : String × Js ν} (h : p ∈ o.entries) :
    o.get p.1 = some p.2 := by
  rw [Obj.entries, List.mem_pmap] at h
  obtain ⟨q, hq, rfl⟩ := h
  rw [Obj.get, Option.pmap_eq_some_iff]
  exact ⟨q.2, o.wellFormed _ hq, getProp_of_mem o.ordered hq, rfl⟩

theorem Obj.mem_entries {o : Obj ν} {key : String} {value : Js ν} (h : o.get key = some value) :
    (key, value) ∈ o.entries := by
  rw [Obj.get, Option.pmap_eq_some_iff] at h
  obtain ⟨v, hv, hget, rfl⟩ := h
  rw [Obj.entries, List.mem_pmap]
  exact ⟨(key, v), mem_of_getProp hget, rfl⟩

theorem Obj.nodup_keys (o : Obj ν) : (o.entries.map Prod.fst).Nodup := by
  rw [Obj.entries, List.map_pmap, List.pmap_eq_map]
  exact List.pairwise_map.mpr (o.ordered.imp fun h => (not_goesBefore_of_precedes h).1)

theorem Obj.toJs_injective {o o' : Obj ν} (h : o.toJs = o'.toJs) : o = o' :=
  Obj.ext_props (Json.obj.inj (congrArg Subtype.val h))

end Mandelbot
