import Mandelbot.Client.Module

/-!
# Promises and the cache

Over any interleaving of actions, responses, updates and resets: what a promise comes to depends on
its own responses only, and the cache answers with the value of the query that was last completed
for the same parameters and the same query object.
-/

namespace Mandelbot.Client

variable {ν : Type} [NumberFormat ν] {endpoints : List Endpoint} {s : State ν} {task : Task ν}
  {i : ℕ}

section Keys

omit [NumberFormat ν] in
private theorem get_keyOf (params : Obj ν) (query : Js ν) :
    (keyOf params query).get "params" = some params.toJs ∧
      (keyOf params query).get "query" = some query := by
  refine ⟨?_, Obj.get_set_self _ _ _⟩
  rw [keyOf, Obj.get_set_of_ne (by decide), Obj.get_set_self]

/-- Different parameters or query objects have different keys. -/
theorem keyOf_injective {params params' : Obj ν} {query query' : Js ν}
    (h : stringify (keyOf params query).toJs = stringify (keyOf params' query').toJs) :
    params = params' ∧ query = query' := by
  have hobj : keyOf params query = keyOf params' query' :=
    Obj.toJs_injective (stringify_injective h)
  obtain ⟨hparams, hquery⟩ := get_keyOf params query
  obtain ⟨hparams', hquery'⟩ := get_keyOf params' query'
  rw [hobj, hparams'] at hparams
  rw [hobj, hquery'] at hquery
  exact ⟨(Obj.toJs_injective (Option.some.inj hparams)).symm, (Option.some.inj hquery).symm⟩

/-- What an action asks for: no query object, or one that is not falsy. -/
def Asks (query : Js ν) : Prop := query = Js.null ∨ truthy query = true

theorem getter_keyOf {query : Js ν} (h : Asks query) (store : Store ν) (name : String)
    (params : Obj ν) : store.getter name (keyOf params query) =
      orElse (store.caches name (stringify (keyOf params query).toJs)) Obj.empty.toJs := by
  have hget := (get_keyOf params query).2
  rw [Store.getter]
  rcases h with rfl | htruthy
  · rw [Obj.set_of_get hget]
    simp
  · simp [hget, htruthy]

end Keys

section Promises

/-- What an action comes to by itself: a value is returned as the getter returns it. -/
def Outcome.promise : Outcome ν → Promise ν
  | .failed => .rejected
  | .waiting task => .pending task
  | .done value => .resolved (orElse (some value) Obj.empty.toJs)

def Promise.Asks : Promise ν → Prop
  | .pending task => Client.Asks task.query
  | _ => True

theorem receive_waiting {task' : Task ν} {data : Js ν} (h : task.receive data = .waiting task') :
    ∃ value, task' = { task with value := some value } := by
  rw [Task.receive] at h
  split at h
  · cases h
  split at h
  · split at h
    · cases h
    · cases h
    · rename_i value _ _ _ _ _
      exact ⟨value, (Outcome.waiting.inj h).symm⟩
  · cases h

/-- Only new promises are added. -/
def Grown (s s' : State ν) : Prop := ∃ rest, s' = { s with promises := s.promises ++ rest }

omit [NumberFormat ν] in
private theorem Grown.refl (s : State ν) : Grown s s := ⟨[], by rw [List.append_nil]⟩

omit [NumberFormat ν] in
private theorem Grown.trans {s s' s'' : State ν} (h : Grown s s') (h' : Grown s' s'') :
    Grown s s'' := by
  obtain ⟨rest, rfl⟩ := h
  obtain ⟨rest', rfl⟩ := h'
  exact ⟨rest ++ rest', by rw [List.append_assoc]⟩

omit [NumberFormat ν] in
theorem Grown.promise {s s' : State ν} (h : Grown s s') {promise : Promise ν}
    (hi : s.promises[i]? = some promise) : s'.promises[i]? = some promise := by
  obtain ⟨rest, rfl⟩ := h
  have hlt := (List.getElem?_eq_some_iff.mp hi).1
  exact (List.getElem?_append_left hlt).trans hi

theorem grown_dispatch (endpoints : List Endpoint) (action : String) (payload : Option (Js ν))
    (s : State ν) : Grown s (dispatch endpoints action payload s) := by
  rw [dispatch]
  split
  · exact Grown.refl s
  · exact ⟨_, rfl⟩

private theorem grown_refresh (endpoints : List Endpoint) (s : State ν) (subscription : String) :
    Grown s (refresh endpoints s subscription) := by
  rw [refresh]
  split
  · exact Grown.refl s
  split
  · exact grown_dispatch _ _ _ s
  · exact Grown.refl s

theorem grown_refreshes (endpoints : List Endpoint) (subscriptions : List String) (s : State ν) :
    Grown s (subscriptions.foldl (refresh endpoints) s) := by
  induction subscriptions generalizing s with
  | nil => exact Grown.refl s
  | cons subscription subscriptions ih => exact (grown_refresh endpoints s subscription).trans (ih _)

def balance : Endpoint := ⟨"QueryBalance", "Balance", true⟩

end Promises

section History

/-- An action that ended with a value. -/
structure Completed (ν : Type) where
  task : Task ν
  value : Js ν

def completion (s : State ν) : Event ν → Option (Completed ν)
  | .respond i data =>
      match s.promises[i]? with
      | some (.pending task) =>
          match data.elim .failed task.receive with
          | .done value => some ⟨task, value⟩
          | _ => none
      | _ => none
  | _ => none

/-- The history after one more event, the newest first; a reset forgets it. -/
def remember (s : State ν) (done : List (Completed ν)) : Event ν → List (Completed ν)
  | .resetState => []
  | event => (completion s event).toList ++ done

/-- The actions that were completed in a run since its last reset. -/
def history (endpoints : List Endpoint) :
    State ν → List (Completed ν) → List (Event ν) → List (Completed ν)
  | _, done, [] => done
  | s, done, event :: events =>
      history endpoints (step endpoints s event) (remember s done event) events

/-- The completed action asked for the same. -/
def Completed.Answers (name : String) (params : Obj ν) (query : Js ν) (c : Completed ν) : Prop :=
  c.task.endpoint.query = name ∧ c.task.params = params ∧ c.task.query = query

private def lookup (done : List (Completed ν)) (name key : String) : Option (Js ν) :=
  (done.find? fun c => c.task.endpoint.query = name && c.task.key = key).map Completed.value

omit [NumberFormat ν] in
private theorem Grown.caches {s s' : State ν} (h : Grown s s') : s'.store = s.store := by
  obtain ⟨rest, rfl⟩ := h
  rfl

private theorem caches_finish (store : Store ν) (task : Task ν) (value : Js ν) (name key : String) :
    (store.finish task value).caches name key =
      if task.endpoint.query = name ∧ task.key = key then some value
      else store.caches name key := by
  have hsame : (store.finish task value).caches =
      (store.commitQuery task.endpoint.query task.key value).caches := by
    rw [Store.finish]
    split
    · rw [Store.commitSubscribe]
      split
      · rfl
      · rfl
    · rfl
  rw [hsame, Store.commitQuery]
  by_cases hname : task.endpoint.query = name
  · subst hname
    by_cases hkey : task.key = key
    · subst hkey
      simp
    · simp [hkey, Ne.symm hkey]
  · simp [hname, Ne.symm hname]

private theorem lookup_cons (c : Completed ν) (done : List (Completed ν)) (name key : String) :
    lookup (c :: done) name key =
      if c.task.endpoint.query = name ∧ c.task.key = key then some c.value
      else lookup done name key := by
  rw [lookup, List.find?_cons]
  by_cases h : c.task.endpoint.query = name ∧ c.task.key = key
  · simp [h]
  · rw [if_neg h]
    have hfalse : (decide (c.task.endpoint.query = name) && decide (c.task.key = key)) = false := by
      simpa using h
    rw [hfalse]
    rfl

/-- A step writes to the caches what it adds to the history. -/
private theorem step_caches {done : List (Completed ν)}
    (h : ∀ name key, s.store.caches name key = lookup done name key) (event : Event ν)
    (name key : String) : (step endpoints s event).store.caches name key =
      lookup (remember s done event) name key := by
  cases event with
  | dispatch action payload =>
      have hsame := (grown_dispatch endpoints action payload s).caches
      exact (congrArg (fun store : Store ν => store.caches name key) hsame).trans (h name key)
  | respond i data =>
      change (respond i data s).store.caches name key =
        lookup ((completion s (.respond i data)).toList ++ done) name key
      rw [respond, completion]
      cases hi : s.promises[i]? with
      | none => exact h name key
      | some promise =>
          cases promise with
          | pending task =>
              simp only
              cases data.elim .failed task.receive with
              | failed => exact h name key
              | waiting task' => exact h name key
              | done value =>
                  change (s.store.finish task value).caches name key =
                    lookup (⟨task, value⟩ :: done) name key
                  rw [caches_finish, lookup_cons, h]
          | resolved value => exact h name key
          | rejected => exact h name key
  | resetState => rfl
  | unsubscribe subscription => exact h name key
  | storeUpdate =>
      have hsame := (grown_refreshes endpoints s.store.subscriptions s).caches
      exact (congrArg (fun store : Store ν => store.caches name key) hsame).trans (h name key)

private theorem run_caches {done : List (Completed ν)}
    (h : ∀ name key, s.store.caches name key = lookup done name key) (events : List (Event ν))
    (name key : String) : (run endpoints s events).store.caches name key =
      lookup (history endpoints s done events) name key := by
  induction events generalizing s done with
  | nil => exact h name key
  | cons event events ih => exact ih (step_caches h event)

/-- In every run the getter answers with the value of the newest completed action that asked for
the same query, parameters and query object, and with `{}` when there was none since a reset. -/
theorem getter_newest {query : Js ν} (hquery : Asks query) (endpoints : List Endpoint)
    (events : List (Event ν)) (name : String) (params : Obj ν) :
    (∃ newer c older, history endpoints initial [] events = newer ++ c :: older ∧
        c.Answers name params query ∧ (∀ c' ∈ newer, ¬ c'.Answers name params query) ∧
        (run endpoints initial events).store.getter name (keyOf params query) =
          orElse (some c.value) Obj.empty.toJs) ∨
      ((∀ c ∈ history endpoints initial [] events, ¬ c.Answers name params query) ∧
        (run endpoints initial events).store.getter name (keyOf params query) = Obj.empty.toJs) := by
  have hanswers : ∀ c : Completed ν, (decide (c.task.endpoint.query = name) &&
      decide (c.task.key = stringify (keyOf params query).toJs)) = true ↔
        c.Answers name params query := by
    intro c
    rw [Bool.and_eq_true, decide_eq_true_eq, decide_eq_true_eq, Completed.Answers]
    constructor
    · rintro ⟨hname, hkey⟩
      exact ⟨hname, keyOf_injective hkey⟩
    · rintro ⟨hname, rfl, rfl⟩
      exact ⟨hname, rfl⟩
  have hcaches : (run endpoints initial events).store.caches name
      (stringify (keyOf params query).toJs) = lookup (history endpoints initial [] events) name
        (stringify (keyOf params query).toJs) := run_caches (fun _ _ => rfl) events _ _
  rw [getter_keyOf hquery, hcaches, lookup]
  cases hfind : (history endpoints initial [] events).find? _ with
  | none =>
      right
      refine ⟨fun c hc => ?_, rfl⟩
      rw [← hanswers]
      exact List.find?_eq_none.mp hfind c hc
  | some c =>
      left
      obtain ⟨hc, newer, older, hsplit, hnewer⟩ := List.find?_eq_some_iff_append.mp hfind
      refine ⟨newer, c, older, hsplit, (hanswers c).mp hc, fun c' hc' h => ?_, rfl⟩
      have hskipped := hnewer c' hc'
      rw [(hanswers c').mpr h] at hskipped
      cases hskipped

/-- A query with a subscription, and its response. -/
def balanceEvents : List (Event ℕ) :=
  [.dispatch "QueryBalance"
      (some (Obj.empty.set "options" (Obj.empty.set "subscribe" (Js.bool true)).toJs).toJs),
    .respond 0 (some (Js.num 7))]

theorem getter_newest_sample :
    (∃ newer c older, history [balance] initial [] balanceEvents = newer ++ c :: older ∧
        c.Answers "Balance" Obj.empty Js.null ∧
        (∀ c' ∈ newer, ¬ c'.Answers "Balance" Obj.empty Js.null) ∧
        (run [balance] initial balanceEvents).store.getter "Balance" (keyOf Obj.empty Js.null) =
          orElse (some c.value) Obj.empty.toJs) ∨
      ((∀ c ∈ history [balance] initial [] balanceEvents,
          ¬ c.Answers "Balance" Obj.empty Js.null) ∧
        (run [balance] initial balanceEvents).store.getter "Balance" (keyOf Obj.empty Js.null) =
          Obj.empty.toJs) :=
  getter_newest (.inl rfl) [balance] balanceEvents "Balance" Obj.empty

end History

end Mandelbot.Client
