import Mandelbot.Export.ZeroHeight

/-!
# The export

`ExportAppStateAndValidators` (app/export.go, lines 19-50): the genesis of the state as it is, one
block ahead, or the genesis of the state prepared for height zero.
-/

namespace Mandelbot

variable {Denom Json Val Params : Type}

structure ExportedApp (Json Val Params : Type) where
  appState : Json
  validators : List Val
  height : Int
  consensusParams : Params

/-- What the export calls after the preparation: the module manager with the JSON encoder, the
list of the bonded validators, and the consensus parameters. -/
structure Exporter (Denom Json Val Params : Type) where
  exportGenesis : Context → AppState Denom → Except Abort (Except SdkError Json)
  writeValidators : Context → StakingStore → Except SdkError (List Val)
  consensusParams : Context → AppState Denom → Params

/-- A new context has the height of the last block and no time. -/
def exportContext (lastBlockHeight : Int) : Context := ⟨lastBlockHeight, 0⟩

/-- The height of the export and the state it is taken from. -/
def exportedState (decode : StoreKey → ValAddress) (app : App Denom) (lastBlockHeight : Int)
    (forZeroHeight : Bool) (jailAllowedAddrs : List String) (s : AppState Denom) :
    Except Abort (Int × AppState Denom) :=
  if forZeroHeight then
    (prepForZeroHeightGenesis decode app (exportContext lastBlockHeight) jailAllowedAddrs s).map
      fun s => (0, s)
  else .ok (lastBlockHeight + 1, s)

def exportAppStateAndValidators (decode : StoreKey → ValAddress) (app : App Denom)
    (exporter : Exporter Denom Json Val Params) (lastBlockHeight : Int) (forZeroHeight : Bool)
    (jailAllowedAddrs : List String) (s : AppState Denom) :
    Except Abort (Except SdkError (ExportedApp Json Val Params)) := do
  let ctx := exportContext lastBlockHeight
  let (height, s) ← exportedState decode app lastBlockHeight forZeroHeight jailAllowedAddrs s
  let genState ← exporter.exportGenesis ctx s
  match genState with
  | .error err => return .error err
  | .ok appState =>
      match exporter.writeValidators ctx s.staking with
      | .error err => return .error err
      | .ok validators =>
          return .ok {
            appState := appState
            validators := validators
            height := height
            consensusParams := exporter.consensusParams ctx s }

variable {decode : StoreKey → ValAddress} {app : App Denom}
  {exporter : Exporter Denom Json Val Params} {lastBlockHeight : Int} {addrs : List String}
  {s : AppState Denom} {exported : ExportedApp Json Val Params}

/-- The exported data are those of `s`, at the given height. -/
structure Exports (exporter : Exporter Denom Json Val Params) (ctx : Context) (height : Int)
    (s : AppState Denom) (exported : ExportedApp Json Val Params) : Prop where
  appState : exporter.exportGenesis ctx s = .ok (.ok exported.appState)
  validators : exporter.writeValidators ctx s.staking = .ok exported.validators
  height : exported.height = height
  consensusParams : exported.consensusParams = exporter.consensusParams ctx s

/-- An export that returns data has prepared the state it exports, or left it as it is. -/
theorem exportAppStateAndValidators_eq_ok {forZeroHeight : Bool} :
    exportAppStateAndValidators decode app exporter lastBlockHeight forZeroHeight addrs s =
        .ok (.ok exported) ↔
      ∃ height s', exportedState decode app lastBlockHeight forZeroHeight addrs s =
          .ok (height, s') ∧
        Exports exporter (exportContext lastBlockHeight) height s' exported := by
  rw [exportAppStateAndValidators]
  simp only [bind_eq_ok]
  constructor
  · intro h
    rcases h with ⟨⟨height, s'⟩, hstate, genState, hgenesis, hrest⟩
    refine ⟨height, s', hstate, ?_⟩
    cases genState with
    | error err => cases hrest
    | ok appState =>
        cases hvalidators : exporter.writeValidators (exportContext lastBlockHeight) s'.staking with
        | error err => simp [hvalidators, pure, Except.pure] at hrest
        | ok validators =>
            simp only [hvalidators, pure, Except.pure, Except.ok.injEq] at hrest
            subst hrest
            exact ⟨hgenesis, hvalidators, rfl, rfl⟩
  · intro h
    rcases h with ⟨height, s', hstate, hexports⟩
    refine ⟨(height, s'), hstate, .ok exported.appState, hexports.appState, ?_⟩
    simp only [hexports.validators, pure, Except.pure]
    rw [← hexports.height, ← hexports.consensusParams]

/-- A plain export writes the state as it is, for the block after the last one. -/
theorem export_eq_ok :
    exportAppStateAndValidators decode app exporter lastBlockHeight false addrs s =
        .ok (.ok exported) ↔
      Exports exporter (exportContext lastBlockHeight) (lastBlockHeight + 1) s exported := by
  rw [exportAppStateAndValidators_eq_ok]
  simp [exportedState]

/-- A zero-height export writes a prepared state at height zero. -/
theorem exportForZeroHeight_eq_ok :
    exportAppStateAndValidators decode app exporter lastBlockHeight true addrs s =
        .ok (.ok exported) ↔
      ∃ s', prepForZeroHeightGenesis decode app (exportContext lastBlockHeight) addrs s =
          .ok s' ∧ Exports exporter (exportContext lastBlockHeight) 0 s' exported := by
  rw [exportAppStateAndValidators_eq_ok]
  simp only [exportedState, if_true]
  cases prepForZeroHeightGenesis decode app (exportContext lastBlockHeight) addrs s with
  | error e => simp [Except.map]
  | ok s' => simp [Except.map]

/-- No chain with a validator is ever exported for height zero. -/
theorem operators_eq_nil_of_exportForZeroHeight (happ : app.Documented)
    (h : exportAppStateAndValidators keyAddress app exporter lastBlockHeight true addrs s =
      .ok (.ok exported)) : s.staking.operators = [] := by
  obtain ⟨s', hrun, _⟩ := exportForZeroHeight_eq_ok.mp h
  exact operators_eq_nil_of_prep happ hrun

/-- With the addresses of the keys recovered, the exported state starts at height zero. -/
theorem startsAtZero_of_exportForZeroHeight (happ : app.Documented)
    (hdecode : ∀ a ∈ s.staking.operators, decode (validatorKey a) = a)
    (hdistinct : (s.staking.delegations.map Delegation.pair).Nodup)
    (hknown : ∀ del ∈ s.staking.delegations, del.validatorAddress ∈ s.staking.operators)
    (howned : Owned s.staking s.distr)
    (h : exportAppStateAndValidators decode app exporter lastBlockHeight true addrs s =
      .ok (.ok exported)) :
    ∃ s', StartsAtZero (exportContext lastBlockHeight) s.staking s' ∧
      Exports exporter (exportContext lastBlockHeight) 0 s' exported := by
  obtain ⟨s', hrun, hexports⟩ := exportForZeroHeight_eq_ok.mp h
  exact ⟨s', startsAtZero_of_prep happ hdecode hdistinct hknown howned hrun, hexports⟩

section Samples

def sampleExporter : Exporter ChainDenom ℕ ValAddress Unit where
  exportGenesis _ s := .ok (.ok s.staking.delegations.length)
  writeValidators _ st := .ok st.operators
  consensusParams _ _ := ()

theorem startsAtZero_of_exportForZeroHeight_sample : ∃ exported s',
    exportAppStateAndValidators dropKeyHead sampleApp sampleExporter 7 true [] sampleAppState =
        .ok (.ok exported) ∧
      StartsAtZero (exportContext 7) sampleAppState.staking s' ∧
      Exports sampleExporter (exportContext 7) 0 s' exported := by
  have hdecode : ∀ a ∈ sampleAppState.staking.operators, dropKeyHead (validatorKey a) = a :=
    fun a _ => dropKeyHead_validatorKey a
  obtain ⟨s', hrun⟩ : ∃ s', prepForZeroHeightGenesis dropKeyHead sampleApp (exportContext 7) []
      sampleAppState = .ok s' :=
    prepForZeroHeightGenesis_total sampleApp_documented hdecode
      (sampleState_consistent (le_refl sampleRewards)) sampleState_owned sampleStore_indexKept
      (by simp) rfl (by decide) (by simp)
  have hexports : Exports sampleExporter (exportContext 7) 0 s'
      ⟨s'.staking.delegations.length, s'.staking.operators, 0, ()⟩ := ⟨rfl, rfl, rfl, rfl⟩
  have hexport := exportForZeroHeight_eq_ok.mpr ⟨s', hrun, hexports⟩
  obtain ⟨s'', hstarts, hexports'⟩ := startsAtZero_of_exportForZeroHeight sampleApp_documented
    hdecode (by decide) (by decide) sampleState_owned hexport
  exact ⟨_, s'', hexport, hstarts, hexports'⟩

end Samples

end Mandelbot
