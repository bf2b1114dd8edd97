import Mandelbot.Client.Cache

/-!
# Listings

An action with the option `all` goes through the pages of a listing: each request has the key that
came with the page before. Whatever else happens in between, the promise stays pending until the
last page is there, and then it has the items of all pages in their order.
-/

namespace Mandelbot.Client

variable {ν : Type} {name : String}

section Pages

/-- A page of a listing under `name`; nothing else in it is an array. -/
structure Page (ν : Type) (name : String) where
  body : Obj ν
  items : List (Js ν)
  pagination : Obj ν
  next : Option String
  body_items : body.get name = some (Js.arr items)
  body_pagination : body.get "pagination" = some pagination.toJs
  body_others : ∀ key value, body.get key = some value → key ≠ name → value.items = none
  next_key : pagination.get "next_key" = some (next.elim Js.null Js.str)

/-- The pages that the server has from a cursor on; a key is the cursor of the page after it. -/
inductive Listing (serve : Option (List UInt8) → Option (Page ν name)) :
    Option (List UInt8) → List (Page ν name) → Prop
  | last {cursor : Option (List UInt8)} {page : Page ν name} (hserve : serve cursor = some page)
      (hnext : page.next = none) : Listing serve cursor [page]
  | more {cursor : Option (List UInt8)} {page : Page ν name} {key : String}
      {pages : List (Page ν name)} (hserve : serve cursor = some page)
      (hnext : page.next = some key) (hpages : Listing serve (some (utf8 key.toList)) pages) :
      Listing serve cursor (page :: pages)

variable [NumberFormat ν]

private theorem nextKey_of_pagination {o : Obj ν} (page : Page ν name)
    (h : o.get "pagination" = some page.pagination.toJs) :
    nextKey o.toJs = some (page.next.map Js.str) := by
  have htruthy : truthy page.pagination.toJs = true := rfl
  rw [nextKey, Js.isNull_toJs, Js.get_toJs, h]
  simp only [Bool.false_eq_true, if_false, Option.bind_some, htruthy, if_true, Js.get_toJs,
    page.next_key]
  cases page.next with
  | none => rfl
  | some key => rfl

omit [NumberFormat ν] in
private theorem mergeProp_eq {items front : List (Js ν)} {p : String × Js ν} {o : Obj ν}
    (hname : p.1 = name → p.2 = Js.arr items) (hother : p.1 ≠ name → p.2.items = none)
    (hfront : o.get name = some (Js.arr front)) :
    mergeProp o p = some (o.set p.1 (if p.1 = name then Js.arr (front ++ items) else p.2)) := by
  by_cases hp : p.1 = name
  · rw [mergeProp, hname hp, hp, hfront, if_pos rfl, Js.items_arr]
    simp
  · rw [mergeProp, hother hp, if_neg hp]

omit [NumberFormat ν] in
/-- Merging goes through the properties; it appends to the one array and replaces all others. -/
private theorem foldlM_mergeProp {items : List (Js ν)} (props : List (String × Js ν))
    (hkeys : (props.map Prod.fst).Nodup)
    (hname : ∀ p ∈ props, p.1 = name → p.2 = Js.arr items)
    (hothers : ∀ p ∈ props, p.1 ≠ name → p.2.items = none) (o : Obj ν) (front : List (Js ν))
    (hfront : o.get name = some (Js.arr front)) :
    ∃ o' : Obj ν, props.foldlM mergeProp o = some o' ∧
      o'.get name = some (Js.arr (if name ∈ props.map Prod.fst then front ++ items else front)) ∧
      (∀ p ∈ props, p.1 ≠ name → o'.get p.1 = some p.2) ∧
      (∀ key, key ∉ props.map Prod.fst → o'.get key = o.get key) := by
  induction props generalizing o front with
  | nil => exact ⟨o, rfl, by simpa using hfront, by simp, by simp⟩
  | cons p props ih =>
      have hfresh : p.1 ∉ props.map Prod.fst := (List.nodup_cons.mp hkeys).1
      have hmerge := mergeProp_eq (hname p List.mem_cons_self) (hothers p List.mem_cons_self) hfront
      let value := if p.1 = name then Js.arr (front ++ items) else p.2
      let front' := if p.1 = name then front ++ items else front
      have hnext : (o.set p.1 value).get name = some (Js.arr front') := by
        by_cases hp : p.1 = name
        · simp only [value, front', if_pos hp, ← hp, Obj.get_set_self]
        · simp only [front', if_neg hp, Obj.get_set_of_ne (Ne.symm hp), hfront]
      obtain ⟨o', hfold, hget, hprops, hframe⟩ := ih (List.nodup_cons.mp hkeys).2
        (fun p hp => hname p (List.mem_cons_of_mem _ hp))
        (fun p hp => hothers p (List.mem_cons_of_mem _ hp)) (o.set p.1 value) front' hnext
      refine ⟨o', ?_, ?_, ?_, ?_⟩
      · rw [List.foldlM_cons, hmerge]
        exact hfold
      · rw [hget]
        by_cases hp : p.1 = name
        · rw [if_neg (hp ▸ hfresh), if_pos (by simp [hp])]
          simp only [front', if_pos hp]
        · have hiff : name ∈ (p :: props).map Prod.fst ↔ name ∈ props.map Prod.fst := by
            rw [List.map_cons, List.mem_cons, or_iff_right (Ne.symm hp)]
          simp only [front', if_neg hp, hiff]
      · intro q hq hne
        rcases List.mem_cons.mp hq with rfl | hq
        · rw [hframe q.1 hfresh, Obj.get_set_self]
          simp only [value, if_neg hne]
        · exact hprops q hq hne
      · intro key hkey
        rw [List.map_cons, List.mem_cons, not_or] at hkey
        rw [hframe key hkey.2, Obj.get_set_of_ne hkey.1]

omit [NumberFormat ν] in
private theorem pagination_ne (page : Page ν name) : "pagination" ≠ name := by
  rintro rfl
  have hsame := page.body_pagination.symm.trans page.body_items
  cases congrArg Subtype.val (Option.some.inj hsame)

omit [NumberFormat ν] in
/-- A page is put behind what there is of the listing, with its own pagination. -/
private theorem mergeResults_page {o : Obj ν} {front : List (Js ν)} (page : Page ν name)
    (h : o.get name = some (Js.arr front)) :
    ∃ o' : Obj ν, mergeResults o.toJs page.body.toJs = some o'.toJs ∧
      o'.get name = some (Js.arr (front ++ page.items)) ∧
      o'.get "pagination" = some page.pagination.toJs := by
  have hname : ∀ p ∈ page.body.entries, p.1 = name → p.2 = Js.arr page.items := by
    rintro p hp rfl
    exact Option.some.inj ((Obj.get_of_mem_entries hp).symm.trans page.body_items)
  have hothers : ∀ p ∈ page.body.entries, p.1 ≠ name → p.2.items = none :=
    fun p hp => page.body_others p.1 p.2 (Obj.get_of_mem_entries hp)
  have hlisted : name ∈ page.body.entries.map Prod.fst :=
    List.mem_map.mpr ⟨_, Obj.mem_entries page.body_items, rfl⟩
  obtain ⟨o', hfold, hget, hprops, _⟩ :=
    foldlM_mergeProp page.body.entries page.body.nodup_keys hname hothers o front h
  refine ⟨o', ?_, ?_, ?_⟩
  · rw [mergeResults, Js.isNull_toJs, Js.spread_toJs, Js.spread_toJs, hfold]
    rfl
  · rw [hget, if_pos hlisted]
  · exact hprops _ (Obj.mem_entries page.body_pagination) (pagination_ne page)

end Pages

section Cursors

variable [NumberFormat ν] {baseUrl path : List Char}

/-- The cursor of a request, as the server reads it out of the URL. -/
def cursor (url : List Char) : Option (List UInt8) :=
  (parseQuery (rawQuery url)).bind fun query => query.lookup (utf8 "pagination.key".toList)

/-- The action has the option `all` and its first request has no cursor. -/
structure Task.Lists (baseUrl path : List Char) (task : Task ν) : Prop where
  fresh : task.value = none
  takesQuery : task.endpoint.takesQuery = true
  all : task.all.any truthy = true
  asks : Asks task.query
  plain : ∀ c ∈ baseUrl ++ path, c ≠ '?' ∧ c ≠ '#'
  first : cursor (requestUrl baseUrl path task.query) = none

/-- What the pages so far came to, with the cursor of the next one. -/
inductive Gathered (name : String) :
    Option (Js ν) → Option (List UInt8) → List (Js ν) → Prop
  | nothing : Gathered name none none []
  | front {o : Obj ν} {key : String} {items : List (Js ν)} (hitems : o.get name = some (Js.arr items))
      (hkey : nextKey o.toJs = some (some (Js.str key))) :
      Gathered name (some o.toJs) (some (utf8 key.toList)) items

private theorem Gathered.page {value : Option (Js ν)} {c : Option (List UInt8)}
    {items : List (Js ν)} (h : Gathered name value c items) (page : Page ν name) :
    ∃ o : Obj ν, (value.elim (some page.body.toJs) fun value => mergeResults value page.body.toJs) =
        some o.toJs ∧
      o.get name = some (Js.arr (items ++ page.items)) ∧
      nextKey o.toJs = some (page.next.map Js.str) := by
  cases h with
  | nothing =>
      exact ⟨page.body, rfl, page.body_items, nextKey_of_pagination page page.body_pagination⟩
  | front hitems hkey =>
      obtain ⟨o, hmerge, hget, hpagination⟩ := mergeResults_page page hitems
      exact ⟨o, hmerge, hget, nextKey_of_pagination page hpagination⟩

end Cursors

section Collecting

variable [NumberFormat ν] {baseUrl path : List Char} {task : Task ν} {endpoints : List Endpoint}
  {serve : Option (List UInt8) → Option (Page ν name)} {all : List (Js ν)} {n i : ℕ}
  {promise : Promise ν} {s : State ν}

/-- The promise has taken in all pages but the last `n`. -/
inductive Collects (task : Task ν) (serve : Option (List UInt8) → Option (Page ν name))
    (all : List (Js ν)) : ℕ → Promise ν → Prop
  | pending {value : Option (Js ν)} {c : Option (List UInt8)} {items : List (Js ν)}
      {pages : List (Page ν name)} (hgathered : Gathered name value c items)
      (hpages : Listing serve c pages) (hall : items ++ pages.flatMap Page.items = all) :
      Collects task serve all pages.length (.pending { task with value := value })
  | resolved {o : Obj ν} (hitems : o.get name = some (Js.arr all)) :
      Collects task serve all 0 (.resolved o.toJs)

private theorem Collects.asks (hlists : task.Lists baseUrl path)
    (h : Collects task serve all n promise) : promise.Asks := by
  cases h with
  | pending => exact hlists.asks
  | resolved => trivial

end Collecting

section Samples

end Samples

end Mandelbot.Client
