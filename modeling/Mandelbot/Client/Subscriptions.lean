import Mandelbot.Client.Cache

/-!
# Subscriptions

A subscription is kept as a JSON text and dispatched again, parsed, at every update. Over any run
each of them parses to an action of the module that asks for what was subscribed to, so an update
renews the same cache entries, and updates never change what is subscribed to.
-/

namespace Mandelbot.Client

variable {ν : Type} [NumberFormat ν] {endpoints : List Endpoint} {s : State ν} {task : Task ν}

/-- The module dispatches the task's action to the task's query. -/
def Task.Known (endpoints : List Endpoint) (task : Task ν) : Prop :=
  endpoints.find? (fun e => e.action = task.endpoint.action) = some task.endpoint

/-- The task as an update starts it. -/
def Task.again (task : Task ν) : Task ν := { task with subscribe := false, value := none }

section Refresh

omit [NumberFormat ν] in
private theorem payload_get (task : Task ν) :
    task.payload.get "options" = some (Obj.empty.set? "all" task.all).toJs ∧
      task.payload.get "params" = some task.params.toJs ∧
      task.payload.get "query" = some task.query := by
  refine ⟨?_, ?_, Obj.get_set_self _ _ _⟩
  · rw [Task.payload, Obj.get_set_of_ne (by decide), Obj.get_set_of_ne (by decide),
      Obj.get_set_self]
  · rw [Task.payload, Obj.get_set_of_ne (by decide), Obj.get_set_self]

omit [NumberFormat ν] in
private theorem options_get (all : Option (Js ν)) :
    (Obj.empty.set? "all" all).get "all" = all ∧
      (Obj.empty.set? "all" all).get "subscribe" = none := by
  cases all with
  | none => exact ⟨rfl, rfl⟩
  | some all =>
      refine ⟨Obj.get_set_self _ _ _, ?_⟩
      exact (Obj.get_set_of_ne (by decide) _ _).trans (Obj.get_empty _)

omit [NumberFormat ν] in
private theorem destructure_payload (task : Task ν) :
    destructure (some task.payload.toJs) =
      some ⟨none, task.all, some task.params.toJs, task.query⟩ := by
  obtain ⟨hoptions, hparams, hquery⟩ := payload_get task
  obtain ⟨hall, hsubscribe⟩ := options_get task.all
  have hpresent : (some task.payload.toJs).filter (fun v : Js ν => !v.isNull) =
      some task.payload.toJs := rfl
  have hobject : (Obj.empty.set? "all" task.all).toJs.isNull = false := rfl
  rw [destructure, hpresent]
  simp [hoptions, hparams, hquery, hall, hsubscribe, hobject]

/-- The payload of a subscription starts the task that was subscribed to. -/
private theorem start_payload (task : Task ν) :
    start task.endpoint (some task.payload.toJs) = some task.again := by
  have hpresent : (some task.params.toJs).filter (fun v : Js ν => !v.isNull) =
      some task.params.toJs := rfl
  rw [start, destructure_payload, Option.map_some, orElse, hpresent]
  rfl

/-- An update dispatches a subscription of the module anew. -/
private theorem refresh_subscription (h : task.Known endpoints) (s : State ν) :
    refresh endpoints s (stringify task.subscription) =
      { s with promises := s.promises ++ [.pending task.again] } := by
  have haction : task.subscription.get "action" = some (Js.str task.endpoint.action) :=
    (Obj.get_set_of_ne (by decide) _ _).trans (Obj.get_set_self _ _ _)
  have hpayload : task.subscription.get "payload" = some task.payload.toJs :=
    Obj.get_set_self _ _ _
  rw [refresh, parse_stringify]
  simp only [haction, hpayload]
  have hdispatch : dispatch endpoints task.endpoint.action (some task.payload.toJs) s =
      { s with promises := s.promises ++
        [(start task.endpoint (some task.payload.toJs)).elim .rejected .pending] } := by
    rw [Task.Known] at h
    rw [dispatch, h]
  rw [start_payload] at hdispatch
  exact hdispatch

end Refresh

section Runs

/-- Every subscription is that of a task of the module, and so is every pending promise. -/
structure Subscribed (endpoints : List Endpoint) (s : State ν) : Prop where
  subscriptions : ∀ text ∈ s.store.subscriptions, ∃ task : Task ν,
    task.Known endpoints ∧ stringify task.subscription = text
  pending : ∀ task, Promise.pending task ∈ s.promises → task.Known endpoints

private theorem known_of_dispatch {action : String} {endpoint : Endpoint}
    {payload : Option (Js ν)} (h : endpoints.find? (fun e => e.action = action) = some endpoint)
    (hstart : start endpoint payload = some task) : task.Known endpoints := by
  have haction : endpoint.action = action := by simpa using List.find?_some h
  rw [start, Option.map_eq_some_iff] at hstart
  obtain ⟨p, _, rfl⟩ := hstart
  rw [Task.Known]
  simpa only [haction] using h

private theorem dispatch_subscribed (h : Subscribed endpoints s) (action : String)
    (payload : Option (Js ν)) : Subscribed endpoints (dispatch endpoints action payload s) := by
  rw [dispatch]
  split
  · exact h
  · rename_i endpoint hendpoint
    refine ⟨h.subscriptions, fun task htask => ?_⟩
    rcases List.mem_append.mp htask with hold | hnew
    · exact h.pending task hold
    · cases hstart : start endpoint payload with
      | none =>
          rw [hstart] at hnew
          simp at hnew
      | some task' =>
          rw [hstart] at hnew
          have hsame : task = task' := by simpa using hnew
          exact hsame ▸ known_of_dispatch hendpoint hstart

/-- An update dispatches all subscriptions, each as it was subscribed to. -/
private theorem refreshes_eq (subscriptions : List String) (s : State ν)
    (h : ∀ text ∈ subscriptions, ∃ task : Task ν,
      task.Known endpoints ∧ stringify task.subscription = text) :
    ∃ tasks : List (Task ν),
      tasks.map (fun task => stringify task.subscription) = subscriptions ∧
      (∀ task ∈ tasks, task.Known endpoints) ∧
      subscriptions.foldl (refresh endpoints) s =
        { s with promises := s.promises ++ tasks.map fun task => .pending task.again } := by
  induction subscriptions generalizing s with
  | nil => exact ⟨[], rfl, by simp, by simp⟩
  | cons text subscriptions ih =>
      obtain ⟨task, hknown, rfl⟩ := h text List.mem_cons_self
      have hfirst := refresh_subscription hknown s
      obtain ⟨tasks, htexts, htasks, hrest⟩ := ih (refresh endpoints s (stringify task.subscription))
        fun text ht => h text (List.mem_cons_of_mem _ ht)
      refine ⟨task :: tasks, ?_, ?_, ?_⟩
      · rw [List.map_cons, htexts]
      · intro task' ht
        rcases List.mem_cons.mp ht with rfl | ht
        · exact hknown
        · exact htasks task' ht
      · rw [List.foldl_cons, hrest, hfirst, List.map_cons]
        simp

private theorem known_receive {data : Option (Js ν)} {task' : Task ν} (h : task.Known endpoints)
    (hwaiting : data.elim .failed task.receive = .waiting task') : task'.Known endpoints := by
  cases data with
  | none => cases hwaiting
  | some data =>
      obtain ⟨value, rfl⟩ := receive_waiting hwaiting
      exact h

omit [NumberFormat ν] in
private theorem pending_of_set {promises : List (Promise ν)} {i : ℕ} {promise : Promise ν}
    (h : Promise.pending task ∈ promises.set i promise) :
    Promise.pending task ∈ promises ∨ promise = .pending task := by
  rcases List.mem_or_eq_of_mem_set h with hold | hnew
  · exact .inl hold
  · exact .inr hnew.symm

private theorem mem_commitSubscribe {store : Store ν} {subscription : Js ν} {text : String}
    (h : text ∈ (store.commitSubscribe subscription).subscriptions) :
    text ∈ store.subscriptions ∨ text = stringify subscription := by
  rw [Store.commitSubscribe] at h
  split at h
  · exact .inl h
  · simpa using h

private theorem respond_subscribed (h : Subscribed endpoints s) (i : ℕ) (data : Option (Js ν)) :
    Subscribed endpoints (respond i data s) := by
  rw [respond]
  split
  · rename_i task hi
    have hknown : task.Known endpoints := h.pending task (List.mem_of_getElem? hi)
    cases houtcome : data.elim .failed task.receive with
    | failed =>
        refine ⟨h.subscriptions, fun task' ht => ?_⟩
        rcases pending_of_set ht with hold | hnew
        · exact h.pending task' hold
        · cases hnew
    | waiting task'' =>
        refine ⟨h.subscriptions, fun task' ht => ?_⟩
        rcases pending_of_set ht with hold | hnew
        · exact h.pending task' hold
        · cases hnew
          exact known_receive hknown houtcome
    | done value =>
        refine ⟨fun text ht => ?_, fun task' ht => ?_⟩
        · change text ∈ (s.store.finish task value).subscriptions at ht
          rw [Store.finish] at ht
          split at ht
          · rcases mem_commitSubscribe ht with hold | rfl
            · exact h.subscriptions text hold
            · exact ⟨task, hknown, rfl⟩
          · exact h.subscriptions text ht
        · rcases pending_of_set ht with hold | hnew
          · exact h.pending task' hold
          · cases hnew
  · exact h

private theorem step_subscribed (h : Subscribed endpoints s) (event : Event ν) :
    Subscribed endpoints (step endpoints s event) := by
  cases event with
  | dispatch action payload => exact dispatch_subscribed h action payload
  | respond i data => exact respond_subscribed h i data
  | resetState => exact ⟨nofun, h.pending⟩
  | unsubscribe subscription =>
      exact ⟨fun text ht => h.subscriptions text (List.mem_filter.mp ht).1, h.pending⟩
  | storeUpdate =>
      obtain ⟨tasks, _, hknown, heq⟩ := refreshes_eq s.store.subscriptions s h.subscriptions
      change Subscribed endpoints (s.store.subscriptions.foldl (refresh endpoints) s)
      rw [heq]
      refine ⟨h.subscriptions, fun task ht => ?_⟩
      rcases List.mem_append.mp ht with hold | hnew
      · exact h.pending task hold
      · obtain ⟨task', ht', hsame⟩ := List.mem_map.mp hnew
        cases hsame
        exact hknown task' ht'

private theorem run_subscribed (h : Subscribed endpoints s) (events : List (Event ν)) :
    Subscribed endpoints (run endpoints s events) := by
  induction events generalizing s with
  | nil => exact h
  | cons event events ih => exact ih (step_subscribed h event)

private theorem initial_subscribed : Subscribed endpoints (initial : State ν) := ⟨nofun, nofun⟩

/-- After any run an update dispatches every subscription: the same action for the same parameters
and the same query object, as often through all pages, and without subscribing again. -/
theorem storeUpdate_dispatches (endpoints : List Endpoint) (events : List (Event ν)) :
    ∃ tasks : List (Task ν),
      tasks.map (fun task => stringify task.subscription) =
        (run endpoints initial events).store.subscriptions ∧
      (∀ task ∈ tasks, task.Known endpoints) ∧
      run endpoints initial (events ++ [.storeUpdate]) =
        { run endpoints initial events with
          promises := (run endpoints initial events).promises ++
            tasks.map fun task => .pending task.again } := by
  have h : Subscribed endpoints (run endpoints initial events) :=
    run_subscribed initial_subscribed events
  obtain ⟨tasks, htexts, hknown, heq⟩ :=
    refreshes_eq (run endpoints initial events).store.subscriptions _ h.subscriptions
  refine ⟨tasks, htexts, hknown, ?_⟩
  rw [run, List.foldl_append]
  exact heq

end Runs

section Updates

/-- An update, or a response to a promise from `first` on. -/
def Renews (first : ℕ) : Event ν → Prop
  | .storeUpdate => True
  | .respond i _ => first ≤ i
  | _ => False

/-- The promises from `first` on are those of updates. -/
private def Renewing (first : ℕ) (s : State ν) : Prop :=
  ∀ i task, first ≤ i → s.promises[i]? = some (.pending task) → task.subscribe = false

omit [NumberFormat ν] in
private theorem renewing_set {first i : ℕ} {promise : Promise ν} (h : Renewing first s)
    (hpromise : ∀ task, promise = .pending task → task.subscribe = false) (store : Store ν) :
    Renewing first { store := store, promises := s.promises.set i promise } := by
  intro j task hj hget
  change (s.promises.set i promise)[j]? = _ at hget
  by_cases hij : i = j
  · subst hij
    have hlt := (List.getElem?_eq_some_iff.mp hget).1
    rw [List.length_set] at hlt
    rw [List.getElem?_set_self hlt] at hget
    exact hpromise task (Option.some.inj hget)
  · rw [List.getElem?_set_ne hij] at hget
    exact h j task hj hget

private theorem step_renews {first : ℕ} {event : Event ν} (hsub : Subscribed endpoints s)
    (h : Renewing first s) (hevent : Renews first event) :
    Renewing first (step endpoints s event) ∧
      (step endpoints s event).store.subscriptions = s.store.subscriptions := by
  cases event with
  | dispatch action payload => exact hevent.elim
  | respond i data =>
      change Renewing first (respond i data s) ∧
        (respond i data s).store.subscriptions = s.store.subscriptions
      rw [respond]
      split
      · rename_i task hi
        have hfalse : task.subscribe = false := h i task hevent hi
        cases houtcome : data.elim .failed task.receive with
        | failed => exact ⟨renewing_set h (fun _ he => by cases he) _, rfl⟩
        | waiting task' =>
            refine ⟨renewing_set h ?_ _, rfl⟩
            intro task'' he
            cases he
            cases data with
            | none => cases houtcome
            | some data =>
                obtain ⟨value, rfl⟩ := receive_waiting houtcome
                exact hfalse
        | done value =>
            refine ⟨renewing_set h (fun _ he => by cases he) _, ?_⟩
            change (s.store.finish task value).subscriptions = _
            rw [Store.finish, hfalse]
            rfl
      · exact ⟨h, rfl⟩
  | resetState => exact hevent.elim
  | unsubscribe subscription => exact hevent.elim
  | storeUpdate =>
      obtain ⟨tasks, _, _, heq⟩ := refreshes_eq s.store.subscriptions s hsub.subscriptions
      change Renewing first (s.store.subscriptions.foldl (refresh endpoints) s) ∧
        (s.store.subscriptions.foldl (refresh endpoints) s).store.subscriptions = _
      rw [heq]
      refine ⟨fun j task hj hget => ?_, rfl⟩
      by_cases hlt : j < s.promises.length
      · rw [List.getElem?_append_left hlt] at hget
        exact h j task hj hget
      · rw [List.getElem?_append_right (by omega)] at hget
        obtain ⟨task', _, hsame⟩ := List.mem_map.mp (List.mem_of_getElem? hget)
        cases hsame
        rfl

private theorem run_renews {first : ℕ} {updates : List (Event ν)} (hsub : Subscribed endpoints s)
    (h : Renewing first s) (hupdates : ∀ event ∈ updates, Renews first event) :
    (run endpoints s updates).store.subscriptions = s.store.subscriptions := by
  induction updates generalizing s with
  | nil => rfl
  | cons event updates ih =>
      obtain ⟨hnext, hsame⟩ := step_renews hsub h (hupdates event List.mem_cons_self)
      have hrest := ih (step_subscribed hsub event) hnext
        fun event he => hupdates event (List.mem_cons_of_mem _ he)
      exact hrest.trans hsame

/-- Updates and the responses to what they dispatch never change what is subscribed to, however
often they come and in whatever order. -/
theorem updates_keepSubscriptions (endpoints : List Endpoint) (events updates : List (Event ν))
    (h : ∀ event ∈ updates, Renews (run endpoints initial events).promises.length event) :
    (run endpoints initial (events ++ updates)).store.subscriptions =
      (run endpoints initial events).store.subscriptions := by
  have hsub : Subscribed endpoints (run endpoints initial events) :=
    run_subscribed initial_subscribed events
  have hstart : Renewing (run endpoints initial events).promises.length
      (run endpoints initial events) := by
    intro i task hi hget
    have hlt := (List.getElem?_eq_some_iff.mp hget).1
    omega
  rw [run, List.foldl_append]
  exact run_renews hsub hstart h

theorem updates_keepSubscriptions_sample :
    (run [balance] initial
        (balanceEvents ++ [.storeUpdate, .respond 1 (some (Js.num 8))])).store.subscriptions =
      (run [balance] initial balanceEvents).store.subscriptions := by
  apply updates_keepSubscriptions
  intro event h
  rcases List.mem_pair.mp h with rfl | rfl
  · trivial
  · exact Nat.le_refl 1

end Updates

end Mandelbot.Client
