import Mathlib.Data.List.GetD
import Mathlib.Data.List.Nodup
import Mathlib.Tactic.IntervalCases

/-!
# Shell texts

What the deployment scripts do with texts: word splitting, separated lists, arrays read past their
end, and the string comparison of decimals.
-/

namespace Mandelbot.Shell

def blanks : List Char := [' ', '\t', '\n']

/-- Blanks, pattern characters and quotes: the characters of an expansion that the shell acts on. -/
def special : List Char := blanks ++ ['*', '?', '[', '\\', '"', Char.ofNat 39]

/-- A text that the shell takes as one word, as it is. -/
structure Plain (s : String) : Prop where
  nonempty : s ≠ ""
  plain : ∀ c ∈ s.toList, c ∉ special

instance (s : String) : Decidable (Plain s) :=
  decidable_of_iff (s ≠ "" ∧ s.toList.all (· ∉ special)) <| by
    rw [List.all_eq_true]
    simp only [decide_eq_true_eq]
    exact ⟨fun h => ⟨h.1, h.2⟩, fun h => ⟨h.nonempty, h.plain⟩⟩

/-- The words of an unquoted expansion. Words without pattern characters are not expanded on. -/
def words (s : String) : List String :=
  (((s.toList.map fun c => if c ∈ blanks then ' ' else c).splitOn ' ').filter (· ≠ [])).map
    String.ofList

/-- `${s//a/b}`. -/
def replaceAll (a b : Char) (s : String) : String :=
  String.ofList (s.toList.map fun c => if c = a then b else c)

def join (sep : Char) (items : List String) : String :=
  String.ofList ([sep].intercalate (items.map String.toList))

def splitOn (sep : Char) (s : String) : List String := (s.toList.splitOn sep).map String.ofList

def dropEmptyLast (items : List String) : List String :=
  if items.getLast? = some "" then items.dropLast else items

/-- An array element; past the end it is empty. -/
def element (arr : List String) (i : ℕ) : String := arr.getD i ""

/-- A list in which the separator follows every item. -/
def terminated (sep : Char) (items : List String) : String :=
  items.foldl (fun acc item => acc ++ item ++ String.singleton sep) ""

section Lists

variable {sep a b : Char} {items : List String}

private theorem map_intercalate (f : Char → Char) (ls : List (List Char)) :
    ([sep].intercalate ls).map f = [f sep].intercalate (ls.map (List.map f)) := by
  induction ls with
  | nil => rfl
  | cons l ls ih =>
      cases ls with
      | nil => simp
      | cons m ls =>
          rw [List.intercalate_cons_cons, List.map_cons, List.map_cons, List.intercalate_cons_cons,
            List.map_append, List.map_append, ih]
          rfl

private theorem map_texts {f : Char → Char} (h : ∀ w ∈ items, ∀ c ∈ w.toList, f c = c) :
    (items.map String.toList).map (List.map f) = items.map String.toList := by
  rw [List.map_map]
  apply List.map_congr_left
  intro w hw
  exact (List.map_congr_left (h w hw)).trans (List.map_id _)

theorem replaceAll_join (h : ∀ w ∈ items, a ∉ w.toList) :
    replaceAll a b (join a items) = join b items := by
  have hkeep : ∀ w ∈ items, ∀ c ∈ w.toList, (if c = a then b else c) = c := by
    intro w hw c hc
    apply if_neg
    intro he
    subst he
    exact h w hw hc
  rw [replaceAll, join, String.toList_ofList, map_intercalate, if_pos rfl, map_texts hkeep]
  rfl

theorem splitOn_join (h : ∀ w ∈ items, sep ∉ w.toList) (hne : items ≠ []) :
    splitOn sep (join sep items) = items := by
  have hitems : ∀ l ∈ items.map String.toList, sep ∉ l := by
    intro l hl
    obtain ⟨w, hw, he⟩ := List.mem_map.mp hl
    exact he ▸ h w hw
  rw [splitOn, join, String.toList_ofList, List.splitOn_intercalate sep hitems (by simpa using hne),
    List.map_map]
  exact (List.map_congr_left fun w _ => String.ofList_toList).trans (List.map_id items)

/-- Plain words separated by blanks are read back. -/
theorem words_join (h : ∀ w ∈ items, Plain w) : words (join ' ' items) = items := by
  have hblank : ∀ w ∈ items, ∀ c ∈ w.toList, c ∉ blanks := by
    intro w hw c hc hmem
    exact (h w hw).plain c hc (List.mem_append_left _ hmem)
  have hkeep : ∀ w ∈ items, ∀ c ∈ w.toList, (if c ∈ blanks then ' ' else c) = c :=
    fun w hw c hc => if_neg (hblank w hw c hc)
  have hspace : ∀ w ∈ items, ' ' ∉ w.toList := fun w hw hc => hblank w hw ' ' hc (by decide)
  have htext : (join ' ' items).toList.map (fun c => if c ∈ blanks then ' ' else c) =
      (join ' ' items).toList := by
    rw [join, String.toList_ofList, map_intercalate, map_texts hkeep]
    rfl
  rw [words, htext]
  cases items with
  | nil => rfl
  | cons w ws =>
      have hsplit := splitOn_join hspace (List.cons_ne_nil w ws)
      have hlists : (join ' ' (w :: ws)).toList.splitOn ' ' = (w :: ws).map String.toList := by
        have hmap := congrArg (List.map String.toList) hsplit
        rw [splitOn, List.map_map] at hmap
        rw [← hmap]
        exact ((List.map_congr_left fun l _ => String.toList_ofList).trans (List.map_id _)).symm
      have hall : ∀ l ∈ (w :: ws).map String.toList, decide (l ≠ []) = true := by
        intro l hl
        obtain ⟨v, hv, he⟩ := List.mem_map.mp hl
        have hne : v ≠ "" := (h v hv).nonempty
        rw [← he]
        simpa using hne
      rw [hlists, List.filter_eq_self.mpr hall, List.map_map]
      exact (List.map_congr_left fun v _ => String.ofList_toList).trans (List.map_id _)

private theorem toList_terminated (items : List String) (acc : String) :
    (items.foldl (fun acc item => acc ++ item ++ String.singleton sep) acc).toList =
      acc.toList ++ items.flatMap fun item => item.toList ++ [sep] := by
  induction items generalizing acc with
  | nil => simp
  | cons item items ih =>
      rw [List.foldl_cons, ih]
      simp

private theorem splitOn_flatMap (h : ∀ w ∈ items, sep ∉ w.toList) :
    (items.flatMap fun item => item.toList ++ [sep]).splitOn sep =
      items.map String.toList ++ [[]] := by
  induction items with
  | nil => simp
  | cons item items ih =>
      have hrest := ih fun w hw => h w (List.mem_cons_of_mem _ hw)
      rw [List.flatMap_cons, List.append_assoc, List.singleton_append,
        List.splitOn_append_cons_self_of_not_mem (h item (by simp)), hrest]
      rfl

/-- A terminated list is read back by splitting and dropping the empty last item. -/
theorem split_terminated (h : ∀ w ∈ items, sep ∉ w.toList) :
    dropEmptyLast (splitOn sep (terminated sep items)) = items := by
  have hsplit : splitOn sep (terminated sep items) = items ++ [""] := by
    rw [splitOn, terminated, toList_terminated, String.toList_empty, List.nil_append,
      splitOn_flatMap h, List.map_append, List.map_map]
    congr 1
    exact (List.map_congr_left fun w _ => String.ofList_toList).trans (List.map_id items)
  rw [hsplit, dropEmptyLast, if_pos (by simp), List.dropLast_concat]

end Lists

section Elements

variable {items : List String}

theorem exists_element {w : String} (h : w ∈ items) : ∃ j < items.length, element items j = w := by
  obtain ⟨j, hj, he⟩ := List.mem_iff_getElem.mp h
  refine ⟨j, hj, ?_⟩
  rw [element, List.getD_eq_getElem _ _ hj]
  exact he

theorem element_mem {j : ℕ} (hj : j < items.length) : element items j ∈ items := by
  rw [element, List.getD_eq_getElem _ _ hj]
  exact List.getElem_mem hj

theorem map_element_range (items : List String) :
    (List.range items.length).map (element items) = items := by
  apply List.ext_getElem (by simp)
  intro j hj hj'
  rw [List.getElem_map, List.getElem_range, element, List.getD_eq_getElem _ _ hj']

theorem idxOf_element (hn : items.Nodup) {j : ℕ} (hj : j < items.length) :
    items.idxOf (element items j) = j := by
  rw [element, List.getD_eq_getElem _ _ hj]
  exact hn.idxOf_getElem j hj

theorem element_ne (hn : items.Nodup) {i j : ℕ} (hi : i < items.length) (hj : j < items.length)
    (hij : i ≠ j) : element items i ≠ element items j := by
  intro he
  have hidx := idxOf_element hn hi
  rw [he, idxOf_element hn hj] at hidx
  exact hij hidx.symm

/-- A function of distinct items is injective when it is so in their index. -/
theorem nodup_map_of_index {β : Type} {f : String → β} {g : ℕ → β} (hn : items.Nodup)
    (hf : ∀ j < items.length, f (element items j) = g j)
    (hg : ∀ i < items.length, ∀ j < items.length, i ≠ j → g i ≠ g j) : (items.map f).Nodup := by
  apply List.Nodup.map_on _ hn
  intro a ha b hb he
  obtain ⟨i, hi, hai⟩ := exists_element ha
  obtain ⟨j, hj, hbj⟩ := exists_element hb
  by_contra hab
  have hij : i ≠ j := by
    intro hij
    apply hab
    rw [← hai, ← hbj, hij]
  rw [← hai, ← hbj, hf i hi, hf j hj] at he
  exact hg i hi j hj hij he

end Elements

section Decimals

/-- The decimal of `n` starts with the digit one. -/
def LeadsWithOne (n : ℕ) : Prop := ∃ k, 10 ^ k ≤ n ∧ n < 2 * 10 ^ k

instance (n : ℕ) : Decidable (LeadsWithOne n) :=
  decidable_of_iff (∃ k < n, 10 ^ k ≤ n ∧ n < 2 * 10 ^ k) <| by
    constructor
    · intro h
      rcases h with ⟨k, _, hk⟩
      exact ⟨k, hk⟩
    · intro h
      rcases h with ⟨k, hk⟩
      exact ⟨k, (Nat.lt_pow_self (by omega)).trans_le hk.1, hk⟩

/-- The leading digit of a positive number and the power of ten it counts. -/
theorem leading_digit {n : ℕ} (h : 1 ≤ n) : ∃ d k, 1 ≤ d ∧ d ≤ 9 ∧
    (Nat.toDigits 10 n).head? = some (Nat.digitChar d) ∧
    d * 10 ^ k ≤ n ∧ n < (d + 1) * 10 ^ k := by
  induction n using Nat.strongRecOn with
  | ind n ih =>
      by_cases hsmall : n < 10
      · refine ⟨n, 0, h, by omega, ?_, by omega, by omega⟩
        rw [Nat.toDigits_of_lt_base hsmall]
        rfl
      · obtain ⟨d, k, hpos, hmax, hhead, hle, hlt⟩ := ih (n / 10) (by omega) (by omega)
        refine ⟨d, k + 1, hpos, hmax, ?_, ?_, ?_⟩
        · rw [Nat.toDigits_of_base_le (by omega) (by omega), List.head?_append, hhead]
          rfl
        · rw [Nat.pow_succ, ← Nat.mul_assoc]
          omega
        · rw [Nat.pow_succ, ← Nat.mul_assoc]
          omega

private theorem leadsWithOne_iff {n d k : ℕ} (hpos : 1 ≤ d) (hmax : d ≤ 9) (hle : d * 10 ^ k ≤ n)
    (hlt : n < (d + 1) * 10 ^ k) : LeadsWithOne n ↔ d = 1 := by
  have hten : 0 < 10 ^ k := Nat.pow_pos (by omega)
  constructor
  · intro hone
    rcases hone with ⟨j, hlow, hhigh⟩
    by_contra hd
    have htwo : 2 * 10 ^ k ≤ n := (Nat.mul_le_mul_right _ (by omega)).trans hle
    have hnext : n < 10 ^ (k + 1) := by
      have hbound : (d + 1) * 10 ^ k ≤ 10 * 10 ^ k := Nat.mul_le_mul_right _ (by omega)
      rw [Nat.pow_succ]
      omega
    have hj : j < k + 1 := (Nat.pow_lt_pow_iff_right (by omega)).mp (hlow.trans_lt hnext)
    have hpow : 10 ^ j ≤ 10 ^ k := Nat.pow_le_pow_right (by omega) (by omega)
    omega
  · intro hd
    subst d
    exact ⟨k, by omega, by omega⟩

/-- `[[ n < 2 ]]` compares strings: it holds of every number that starts with the digit one. -/
theorem repr_lt_two_iff {n : ℕ} (h : 1 ≤ n) : toString n < "2" ↔ LeadsWithOne n := by
  obtain ⟨d, k, hpos, hmax, hhead, hle, hlt⟩ := leading_digit h
  obtain ⟨rest, hdigits⟩ := List.head?_eq_some_iff.mp hhead
  have htext : (toString n).toList = Nat.digitChar d :: rest := by
    rw [Nat.toString_eq_repr, Nat.toList_repr, hdigits]
  have htwo : "2".toList = ['2'] := by decide
  rw [leadsWithOne_iff hpos hmax hle hlt, String.lt_iff, htext, htwo, List.cons_lt_cons_iff]
  interval_cases d <;> simp [Nat.digitChar]

end Decimals

end Mandelbot.Shell
