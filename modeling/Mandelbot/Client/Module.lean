import Mandelbot.Client.Rest

/-!
# A generated store module

The Vuex module that is generated for each Cosmos module (index.ts), over the list of its queries:
the cache by query and JSON key, the subscriptions, and the actions. An action that waits for a
response is a pending promise; whatever happens in between is an event of its own.
-/

namespace Mandelbot.Client

variable {ν : Type}

/-- A query of a module: its action, the name of its cache, and whether it takes a query object,
which is whether it goes through pages. -/
structure Endpoint where
  action : String
  query : String
  takesQuery : Bool

/-- What an action takes from its payload. -/
structure Payload (ν : Type) where
  subscribe : Option (Js ν)
  all : Option (Js ν)
  params : Option (Js ν)
  query : Js ν

/-- An action between two responses; `params` is `{...key}`. -/
structure Task (ν : Type) where
  endpoint : Endpoint
  subscribe : Bool
  all : Option (Js ν)
  params : Obj ν
  query : Js ν
  value : Option (Js ν)

inductive Outcome (ν : Type) where
  | failed
  | waiting (task : Task ν)
  | done (value : Js ν)

/-- `_Subscriptions` is a set in the order of insertion. -/
structure Store (ν : Type) where
  caches : String → String → Option (Js ν)
  subscriptions : List String

inductive Promise (ν : Type) where
  | pending (task : Task ν)
  | resolved (value : Js ν)
  | rejected

/-- The store with the promise of every action that was dispatched. -/
structure State (ν : Type) where
  store : Store ν
  promises : List (Promise ν)

inductive Event (ν : Type) where
  | dispatch (action : String) (payload : Option (Js ν))
  | respond (promise : ℕ) (data : Option (Js ν))
  | resetState
  | unsubscribe (subscription : Js ν)
  | storeUpdate

section Values

variable [NumberFormat ν]

def truthy : Js ν → Bool
  | ⟨.null, _⟩ => false
  | ⟨.bool b, _⟩ => b
  | ⟨.num n, _⟩ => !NumberFormat.isZero n
  | ⟨.str s, _⟩ => s ≠ ""
  | _ => true

/-- `value ?? other`. -/
def orElse (value : Option (Js ν)) (other : Js ν) : Js ν :=
  (value.filter fun v => !v.isNull).getD other

/-- An array is put behind what the property has; without anything iterable there, `none` is the
error that ends the action. -/
def mergeProp (value : Obj ν) (prop : String × Js ν) : Option (Obj ν) :=
  match prop.2.items with
  | some items =>
      ((value.get prop.1).bind Js.iterate).map fun front => value.set prop.1 (Js.arr (front ++ items))
  | none => some (value.set prop.1 prop.2)

def mergeResults (value nextValues : Js ν) : Option (Js ν) :=
  if nextValues.isNull then none
  else (nextValues.spread.entries.foldlM mergeProp value.spread).map Obj.toJs

/-- `value.pagination && value.pagination.next_key != null`, with the key; to read a property of
null is an error. -/
def nextKey (value : Js ν) : Option (Option (Js ν)) :=
  if value.isNull then none
  else some ((value.get "pagination").bind fun pagination =>
    if truthy pagination then (pagination.get "next_key").filter fun key => !key.isNull else none)

end Values

section Actions

variable [NumberFormat ν]

/-- The parameters of an action, destructured. -/
def destructure (payload : Option (Js ν)) : Option (Payload ν) := do
  let payload ← payload.filter fun v => !v.isNull
  let options := (payload.get "options").getD
    ((Obj.empty.set "subscribe" (Js.bool false)).set "all" (Js.bool false)).toJs
  if options.isNull then none
  else
    some {
      subscribe := options.get "subscribe"
      all := options.get "all"
      params := payload.get "params"
      query := (payload.get "query").getD Js.null }

def start (endpoint : Endpoint) (payload : Option (Js ν)) : Option (Task ν) :=
  (destructure payload).map fun p =>
    { endpoint := endpoint
      subscribe := p.subscribe.any truthy
      all := p.all
      params := (orElse p.params Obj.empty.toJs).spread
      query := p.query
      value := none }

/-- Take a response in and go on to the next page, or end. -/
def Task.receive (task : Task ν) (data : Js ν) : Outcome ν :=
  match task.value.elim (some data) fun value => mergeResults value data with
  | none => .failed
  | some value =>
      if task.endpoint.takesQuery && task.all.any truthy then
        match nextKey value with
        | none => .failed
        | some none => .done value
        | some (some _) => .waiting { task with value := some value }
      else .done value

/-- The object `{ params, query }`. -/
def keyOf (params : Obj ν) (query : Js ν) : Obj ν :=
  (Obj.empty.set "params" params.toJs).set "query" query

def Task.key (task : Task ν) : String := stringify (keyOf task.params task.query).toJs

/-- `{ options: { all }, params, query }`. -/
def Task.payload (task : Task ν) : Obj ν :=
  ((Obj.empty.set "options" (Obj.empty.set? "all" task.all).toJs).set "params"
    task.params.toJs).set "query" task.query

/-- `{ action, payload }`. -/
def Task.subscription (task : Task ν) : Js ν :=
  ((Obj.empty.set "action" (Js.str task.endpoint.action)).set "payload" task.payload.toJs).toJs

end Actions

namespace Store

variable [NumberFormat ν]

def empty : Store ν where
  caches _ _ := none
  subscriptions := []

/-- The mutation `QUERY`. -/
def commitQuery (store : Store ν) (query key : String) (value : Js ν) : Store ν :=
  { store with
    caches := Function.update store.caches query
      (Function.update (store.caches query) key (some value)) }

/-- The mutation `SUBSCRIBE`. -/
def commitSubscribe (store : Store ν) (subscription : Js ν) : Store ν :=
  if stringify subscription ∈ store.subscriptions then store
  else { store with subscriptions := store.subscriptions ++ [stringify subscription] }

/-- The mutation `UNSUBSCRIBE`. -/
def commitUnsubscribe (store : Store ν) (subscription : Js ν) : Store ν :=
  { store with subscriptions := store.subscriptions.filter (· ≠ stringify subscription) }

/-- A getter: a query that is missing or falsy is taken for null. -/
def getter (store : Store ν) (query : String) (params : Obj ν) : Js ν :=
  let params := if (params.get "query").any truthy then params else params.set "query" Js.null
  orElse (store.caches query (stringify params.toJs)) Obj.empty.toJs

/-- The end of an action: both commits and the getter, with nothing in between. -/
def finish (store : Store ν) (task : Task ν) (value : Js ν) : Store ν :=
  let store := store.commitQuery task.endpoint.query task.key value
  if task.subscribe then store.commitSubscribe task.subscription else store

end Store

section Steps

variable [NumberFormat ν]

/-- Vuex only logs an action that the module does not have. -/
def dispatch (endpoints : List Endpoint) (action : String) (payload : Option (Js ν))
    (s : State ν) : State ν :=
  match endpoints.find? fun e => e.action = action with
  | none => s
  | some endpoint =>
      { s with promises := s.promises ++ [(start endpoint payload).elim .rejected .pending] }

/-- The action goes on or ends, after a response. -/
def settle (i : ℕ) (task : Task ν) (s : State ν) : Outcome ν → State ν
  | .failed => { s with promises := s.promises.set i .rejected }
  | .waiting task => { s with promises := s.promises.set i (.pending task) }
  | .done value =>
      let store := s.store.finish task value
      { store := store
        promises := s.promises.set i
          (.resolved (store.getter task.endpoint.query (keyOf task.params task.query))) }

/-- A response to a promise that still waits for it; `none` is a request that failed. -/
def respond (i : ℕ) (data : Option (Js ν)) (s : State ν) : State ν :=
  match s.promises[i]? with
  | some (.pending task) => settle i task s (data.elim .failed task.receive)
  | _ => s

/-- `StoreUpdate` dispatches a subscription as it was parsed. -/
def refresh (endpoints : List Endpoint) (s : State ν) (subscription : String) : State ν :=
  match parse subscription with
  | none => s
  | some sub =>
      match sub.get "action" with
      | some ⟨.str action, _⟩ => dispatch endpoints action (sub.get "payload") s
      | _ => s

def step (endpoints : List Endpoint) (s : State ν) : Event ν → State ν
  | .dispatch action payload => dispatch endpoints action payload s
  | .respond i data => respond i data s
  | .resetState => { s with store := Store.empty }
  | .unsubscribe subscription => { s with store := s.store.commitUnsubscribe subscription }
  | .storeUpdate => s.store.subscriptions.foldl (refresh endpoints) s

def run (endpoints : List Endpoint) (s : State ν) (events : List (Event ν)) : State ν :=
  events.foldl (step endpoints) s

def initial : State ν := ⟨Store.empty, []⟩

end Steps

end Mandelbot.Client
