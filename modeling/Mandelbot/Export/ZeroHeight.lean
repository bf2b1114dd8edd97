import Mandelbot.Export.Withdrawals
import Mandelbot.Export.Jailing

/-!
# The zero-height preparation

`prepForZeroHeightGenesis` as a whole (app/export.go, lines 52-185): the allow-list, the invariants
of the crisis module, the fee distribution, the staking records and the signing infos. A run that
completes leaves a state that starts at height zero. With the source's key decoding only a chain
without validators has such a run.
-/

namespace Mandelbot

open DistrState

variable {Denom : Type}

abbrev ConsAddress := List UInt8

/-- A signing info with the address that it is stored under. -/
structure SigningInfo where
  consAddress : ConsAddress
  address : String
  startHeight : Int
  indexOffset : Int
  jailedUntil : Int
  tombstoned : Bool
  missedBlocksCounter : Int

abbrev SigningInfos := KeyedStore ConsAddress SigningInfo SigningInfo.consAddress

/-- The stores that the preparation reads or writes. -/
structure AppState (Denom : Type) where
  staking : StakingStore
  distr : DistrState Denom
  signingInfos : SigningInfos

/-- The application's codec and keepers. `bondHooks` is what the hooks of the validator set update
do to the signing infos, from the staking store that the update leaves. -/
structure App (Denom : Type) where
  codec : AddressCodec
  distrKeeper : DistrKeeper Denom
  stakingKeeper : StakingKeeper
  assertInvariants : Context → AppState Denom → Except Abort Unit
  bondHooks : Context → StakingStore → SigningInfos → SigningInfos
  setValidatorSigningInfo : SigningInfos → ConsAddress → SigningInfo → SigningInfos

structure App.Documented (app : App Denom) : Prop where
  distr : app.distrKeeper.Documented
  staking : app.stakingKeeper.Documented
  update_frame : ∀ ctx st st',
    app.stakingKeeper.applyAndReturnValidatorSetUpdates ctx st = .ok (none, st') →
      st'.redelegations = st.redelegations ∧
        st'.unbondingDelegations = st.unbondingDelegations
  setSigningInfo_eq : ∀ infos info,
    app.setValidatorSigningInfo infos info.consAddress info = infos.set info

/-- The callback of the slashing part. -/
def resetSigningInfo (app : App Denom) (infos : SigningInfos) (info : SigningInfo) :
    Except Abort SigningInfos :=
  .ok (app.setValidatorSigningInfo infos info.consAddress { info with startHeight := 0 })

def handleSlashing (app : App Denom) (infos : SigningInfos) : Except Abort SigningInfos :=
  iterate (neverStop (resetSigningInfo app)) infos.values infos

def prepForZeroHeightGenesis (decode : StoreKey → ValAddress) (app : App Denom) (ctx : Context)
    (jailAllowedAddrs : List String) (s : AppState Denom) : Except Abort (AppState Denom) := do
  let allowed ← allowedAddrsMap app.codec jailAllowedAddrs
  app.assertInvariants ctx s
  let (ctx, distr) ← handleFeeDistribution app.distrKeeper ctx s.staking s.distr
  let staking ← handleStaking decode app.stakingKeeper app.codec ctx
    (applyAllowedAddrs jailAllowedAddrs) allowed s.staking
  let signingInfos ← handleSlashing app (app.bondHooks ctx staking s.signingInfos)
  return { staking := staking, distr := distr, signingInfos := signingInfos }

variable {decode : StoreKey → ValAddress} {app : App Denom} {ctx : Context}
  {addrs : List String} {s s' : AppState Denom}

section Slashing

theorem handleSlashing_eq (happ : app.Documented) (infos : SigningInfos) :
    handleSlashing app infos =
      .ok (infos.rewrite fun info => { info with startHeight := 0 }) := by
  rw [handleSlashing, iterate_neverStop]
  exact foldlM_component
    (fun infos info =>
      app.setValidatorSigningInfo infos info.consAddress { info with startHeight := 0 })
    (fun infos => infos) (fun infos info => infos.set { info with startHeight := 0 })
    (fun infos info => happ.setSigningInfo_eq infos { info with startHeight := 0 })
    infos.values infos

end Slashing

section Staking

variable {k : StakingKeeper} {c : AddressCodec} {applyAllowedAddrs : Bool}
  {allowed : String → Bool} {st st' : StakingStore}

theorem handleStaking_eq_ok :
    handleStaking decode k c ctx applyAllowedAddrs allowed st = .ok st' ↔
      ∃ st₁ n, stakingWalk decode k c applyAllowedAddrs allowed st = .ok (st₁, n) ∧
        k.applyAndReturnValidatorSetUpdates ctx st₁ = .ok (none, st') := by
  rw [handleStaking]
  simp only [bind_eq_ok, panicOnError_eq_ok, exists_eq_right]
  constructor
  · intro h
    rcases h with ⟨walked, hrun, hupdate⟩
    exact ⟨walked.1, walked.2, hrun, hupdate⟩
  · intro h
    rcases h with ⟨st₁, n, hrun, hupdate⟩
    exact ⟨(st₁, n), hrun, hupdate⟩

/-- An update that returns has bonded a prefix of the index. -/
theorem update_eq_ok (hk : k.Documented)
    (h : k.applyAndReturnValidatorSetUpdates ctx st = .ok (none, st')) :
    ∃ met, ∀ key, st'.validators.get key =
      (st.validators.get key).map (updateBond ctx k.unbondingPeriod met) := by
  cases hmet : bondedPrefix k.consensusPower st.validator k.maxValidators st.powerIndex with
  | error e =>
      rw [hk.apply_error ctx st e hmet] at h
      cases h
  | ok met =>
      obtain ⟨st₂, hrun, hupdated⟩ := hk.apply_ok ctx st met hmet
      rw [hrun] at h
      cases h
      exact ⟨met, hupdated⟩

/-- The staking part rewrites every validator in place. -/
theorem validators_of_handleStaking (hk : k.Documented)
    (hdecode : ∀ a ∈ st.operators, decode (validatorKey a) = a)
    (h : handleStaking decode k c ctx applyAllowedAddrs allowed st = .ok st') :
    ∃ met, ∀ a, st'.validator a = (st.validator a).map fun v =>
      updateBond ctx k.unbondingPeriod met (walkedValidator c applyAllowedAddrs allowed v) := by
  obtain ⟨st₁, n, hrun, hupdate⟩ := handleStaking_eq_ok.mp h
  obtain ⟨st₂, n₂, hrun₂, hwalked⟩ := stakingWalk_total hk c applyAllowedAddrs allowed hdecode
  rw [hrun] at hrun₂
  cases hrun₂
  obtain ⟨met, hupdated⟩ := update_eq_ok hk hupdate
  refine ⟨met, fun a => ?_⟩
  rw [StakingStore.validator, hupdated, hwalked.validators, Option.map_map]
  rfl

theorem mem_operators_of_handleStaking (hk : k.Documented)
    (hdecode : ∀ a ∈ st.operators, decode (validatorKey a) = a)
    (h : handleStaking decode k c ctx applyAllowedAddrs allowed st = .ok st') (a : ValAddress) :
    a ∈ st'.operators ↔ a ∈ st.operators := by
  obtain ⟨met, hvalidators⟩ := validators_of_handleStaking hk hdecode h
  simp [StakingStore.mem_operators, hvalidators a]

/-- The staking part completes when the index is sound and the list spares every validator that is
not jailed. -/
theorem handleStaking_total (hk : k.Documented) (ctx : Context) (hindex : IndexKept st)
    (hdecode : ∀ a ∈ st.operators, decode (validatorKey a) = a)
    (hspared : ∀ a v, st.validator a = some v → applyAllowedAddrs = true →
      allowed (c.string a) = false → v.jailed = true) :
    ∃ st', handleStaking decode k c ctx applyAllowedAddrs allowed st = .ok st' := by
  obtain ⟨st₁, n, hrun, hwalked⟩ := stakingWalk_total hk c applyAllowedAddrs allowed hdecode
  have hnone := (noneJailed_iff hwalked hindex).mpr hspared
  obtain ⟨met, st', _, hupdate, _⟩ := update_total hk ctx hwalked hindex hnone
  exact ⟨st', handleStaking_eq_ok.mpr ⟨st₁, n, hrun, hupdate⟩⟩

end Staking

section Owned

variable {k : DistrKeeper Denom} {st : StakingStore} {t t' : DistrState Denom}

/-- Every starting info belongs to a delegation. -/
def Owned (st : StakingStore) (t : DistrState Denom) : Prop :=
  ∀ key, t.startingInfo key ≠ none → ∃ del ∈ st.delegations, del.pair = key

/-- The withdrawals restart only delegations. -/
theorem owned_of_withdrawFees (hk : k.Documented) (howned : Owned st t)
    (h : withdrawFees k ctx st t = .ok t') : Owned st t' := by
  obtain ⟨t₁, hcommission, hrewards⟩ := withdrawFees_eq_ok.mp h
  have hfirst : Owned st t₁ := by
    refine foldlM_invariant (I := fun _ u => Owned st u) ?_ howned hcommission
    intro done val u u' _ hu hstep
    obtain ⟨_, _, he⟩ := (withdrawCommission_eq_ok hk).mp hstep
    rw [he]
    exact hu
  refine foldlM_invariant (I := fun _ u => Owned st u) ?_ hfirst hrewards
  intro done del u u' hpre hu hstep
  obtain ⟨u₁, u₂, val, hsettles⟩ := (withdrawReward_eq_ok hk).mp hstep
  obtain ⟨info, hstarting⟩ := (settledFrame hsettles).starting
  intro key hkey
  by_cases hpair : key = del.pair
  · exact ⟨del, mem_of_split hpre, hpair.symm⟩
  · have hkeep : u'.startingInfo key = u.startingInfo key := by
      rw [hstarting]
      exact Function.update_of_ne hpair _ _
    rw [hkeep] at hkey
    exact hu key hkey

end Owned

/-- The parts of a completed preparation. -/
theorem prepForZeroHeightGenesis_eq_ok (happ : app.Documented) :
    prepForZeroHeightGenesis decode app ctx addrs s = .ok s' ↔
      ∃ allowed, allowedAddrsMap app.codec addrs = .ok allowed ∧
        app.assertInvariants ctx s = .ok () ∧
        handleFeeDistribution app.distrKeeper ctx s.staking s.distr = .ok (ctx, s'.distr) ∧
        handleStaking decode app.stakingKeeper app.codec ctx (applyAllowedAddrs addrs) allowed
          s.staking = .ok s'.staking ∧
        s'.signingInfos = (app.bondHooks ctx s'.staking s.signingInfos).rewrite
          fun info => { info with startHeight := 0 } := by
  have hctx : ∀ {ctx' distr}, handleFeeDistribution app.distrKeeper ctx s.staking s.distr =
      .ok (ctx', distr) → ctx' = ctx := by
    intro ctx' distr hfees
    obtain ⟨t, _, hrebuild⟩ := handleFeeDistribution_eq_ok.mp hfees
    exact ((rebuildRecords_eq_ok happ.distr).mp hrebuild).1
  rw [prepForZeroHeightGenesis]
  simp only [bind_eq_ok, handleSlashing_eq happ, pure, Except.pure, Except.ok.injEq]
  constructor
  · intro h
    obtain ⟨allowed, hlist, _, hinvariants, ⟨ctx', distr⟩, hfees, staking, hstaking, infos, hinfos,
      he⟩ := h
    have hsame := hctx hfees
    subst hsame
    subst infos
    subst s'
    exact ⟨allowed, hlist, hinvariants, hfees, hstaking, rfl⟩
  · intro h
    rcases h with ⟨allowed, hlist, hinvariants, hfees, hstaking, hinfos⟩
    exact ⟨allowed, hlist, (), hinvariants, (ctx, s'.distr), hfees, s'.staking, hstaking, _, rfl,
      by rw [← hinfos]⟩

/-- Staking records at height zero, except for the validators that the update has just sent into
unbonding at the height of the context. -/
structure StakingAtZero (ctx : Context) (st : StakingStore) : Prop where
  redelegations : ∀ key red, st.redelegations.get key = some red →
    ∀ entry ∈ red.entries, entry.creationHeight = 0
  unbondingDelegations : ∀ key ubd, st.unbondingDelegations.get key = some ubd →
    ∀ entry ∈ ubd.entries, entry.creationHeight = 0
  validators : ∀ a v, st.validator a = some v → v.unbondingHeight = 0 ∨
    (v.status = .unbonding ∧ v.unbondingHeight = ctx.blockHeight)

theorem stakingAtZero_of_handleStaking (happ : app.Documented) {applyAllowedAddrs : Bool}
    {allowed : String → Bool} {st st' : StakingStore}
    (hdecode : ∀ a ∈ st.operators, decode (validatorKey a) = a)
    (h : handleStaking decode app.stakingKeeper app.codec ctx applyAllowedAddrs allowed st =
      .ok st') : StakingAtZero ctx st' := by
  obtain ⟨st₁, n, hwalk, hupdate⟩ := handleStaking_eq_ok.mp h
  obtain ⟨st₂, n₂, hwalk₂, hwalked⟩ :=
    stakingWalk_total happ.staking app.codec applyAllowedAddrs allowed hdecode
  rw [hwalk] at hwalk₂
  cases hwalk₂
  obtain ⟨hredelegations, hunbonding⟩ := happ.update_frame ctx st₁ st' hupdate
  obtain ⟨met, hvalidators⟩ := validators_of_handleStaking happ.staking hdecode h
  constructor
  · intro key red hred entry hentry
    rw [hredelegations, hwalked.redelegations] at hred
    obtain ⟨old, _, he⟩ := Option.map_eq_some_iff.mp hred
    subst red
    obtain ⟨_, _, he⟩ := List.mem_map.mp hentry
    rw [← he]
  · intro key ubd hubd entry hentry
    rw [hunbonding, hwalked.unbondingDelegations] at hubd
    obtain ⟨old, _, he⟩ := Option.map_eq_some_iff.mp hubd
    subst ubd
    obtain ⟨_, _, he⟩ := List.mem_map.mp hentry
    rw [← he]
  · intro a v hv
    rw [hvalidators a] at hv
    obtain ⟨old, _, he⟩ := Option.map_eq_some_iff.mp hv
    subst v
    rw [updateBond]
    split
    · exact .inl rfl
    · split
      · exact .inr ⟨rfl, rfl⟩
      · exact .inl rfl

/-- The fee distribution rebuilds the records from whatever the withdrawals leave. -/
theorem recordsRebuilt_of_handleFeeDistribution {k : DistrKeeper Denom} {st : StakingStore}
    {t t' : DistrState Denom} (hk : k.Documented)
    (hdistinct : (st.delegations.map Delegation.pair).Nodup)
    (hknown : ∀ del ∈ st.delegations, del.validatorAddress ∈ st.operators) (howned : Owned st t)
    (h : handleFeeDistribution k ctx st t = .ok (ctx, t')) : RecordsRebuilt st t' := by
  obtain ⟨t₁, hwithdraw, hrebuild⟩ := handleFeeDistribution_eq_ok.mp h
  obtain ⟨t₂, hrun, hrestarted⟩ :=
    rebuildRecords_total hk ctx hdistinct hknown (owned_of_withdrawFees hk howned hwithdraw)
  rw [hrebuild] at hrun
  cases hrun
  exact hrestarted.recordsRebuilt hknown

/-- The state of a chain that can start at height zero. -/
structure StartsAtZero (ctx : Context) (st : StakingStore) (s' : AppState Denom) : Prop where
  fees : ∀ v ∈ st.operators, s'.distr.outstandingRewards v = 0 ∧
    s'.distr.accumulatedCommission v = 0
  records : RecordsRebuilt st s'.distr
  operators : ∀ a, a ∈ s'.staking.operators ↔ a ∈ st.operators
  staking : StakingAtZero ctx s'.staking
  signingInfos : ∀ a info, s'.signingInfos.get a = some info → info.startHeight = 0

/-- A preparation that completes leaves a state that starts at height zero. -/
theorem startsAtZero_of_prep (happ : app.Documented)
    (hdecode : ∀ a ∈ s.staking.operators, decode (validatorKey a) = a)
    (hdistinct : (s.staking.delegations.map Delegation.pair).Nodup)
    (hknown : ∀ del ∈ s.staking.delegations, del.validatorAddress ∈ s.staking.operators)
    (howned : Owned s.staking s.distr)
    (h : prepForZeroHeightGenesis decode app ctx addrs s = .ok s') :
    StartsAtZero ctx s.staking s' := by
  obtain ⟨allowed, _, _, hfees, hstaking, hinfos⟩ := (prepForZeroHeightGenesis_eq_ok happ).mp h
  obtain ⟨t, _, hrebuild⟩ := handleFeeDistribution_eq_ok.mp hfees
  constructor
  · exact (rebuildRecords_money happ.distr hrebuild).1
  · exact recordsRebuilt_of_handleFeeDistribution happ.distr hdistinct hknown howned hfees
  · exact mem_operators_of_handleStaking happ.staking hdecode hstaking
  · exact stakingAtZero_of_handleStaking happ hdecode hstaking
  · intro a info hinfo
    have hget := (app.bondHooks ctx s'.staking s.signingInfos).get_rewrite
      (fun info => { info with startHeight := 0 }) (fun _ => rfl) a
    rw [hinfos, hget] at hinfo
    obtain ⟨old, _, he⟩ := Option.map_eq_some_iff.mp hinfo
    rw [← he]

/-- From a consistent state with some commission everywhere the preparation completes, given the
addresses of the keys and a list that spares every validator that is not jailed. -/
theorem prepForZeroHeightGenesis_total (happ : app.Documented)
    (hdecode : ∀ a ∈ s.staking.operators, decode (validatorKey a) = a)
    (hconsistent : Consistent s.staking s.distr) (howned : Owned s.staking s.distr)
    (hindex : IndexKept s.staking)
    (hlist : ∀ e ∈ addrs, ∃ a, app.codec.valAddressFromBech32 e = .ok a)
    (hinvariants : app.assertInvariants ctx s = .ok ())
    (hsome : ∀ v ∈ s.staking.operators, s.distr.accumulatedCommission v ≠ 0)
    (hspared : ∀ a v, s.staking.validator a = some v → addrs ≠ [] →
      app.codec.string a ∉ addrs → v.jailed = true) :
    ∃ s', prepForZeroHeightGenesis decode app ctx addrs s = .ok s' := by
  let allowed : String → Bool := fun t => decide (t ∈ addrs)
  have hmap : allowedAddrsMap app.codec addrs = .ok allowed :=
    allowedAddrsMap_eq_ok.mpr ⟨hlist, rfl⟩
  obtain ⟨t, hwithdraw, _⟩ := withdrawFees_total happ.distr ctx hconsistent hsome
  obtain ⟨distr, hrebuild, _⟩ := rebuildRecords_total happ.distr ctx hconsistent.distinct
    hconsistent.known (owned_of_withdrawFees happ.distr howned hwithdraw)
  have hfees := handleFeeDistribution_eq_ok.mpr ⟨t, hwithdraw, hrebuild⟩
  have hoff : ∀ a v, s.staking.validator a = some v → applyAllowedAddrs addrs = true →
      allowed (app.codec.string a) = false → v.jailed = true := by
    intro a v hv happly hout
    have hne : addrs ≠ [] := List.length_pos_iff.mp (of_decide_eq_true happly)
    exact hspared a v hv hne (of_decide_eq_false hout)
  obtain ⟨staking, hstaking⟩ := handleStaking_total happ.staking ctx hindex hdecode hoff
  let signingInfos := (app.bondHooks ctx staking s.signingInfos).rewrite
    fun info => { info with startHeight := 0 }
  exact ⟨⟨staking, distr, signingInfos⟩, (prepForZeroHeightGenesis_eq_ok happ).mpr
    ⟨allowed, hmap, hinvariants, hfees, hstaking, rfl⟩⟩

/-- With the source's key decoding the preparation gets past no validator. -/
theorem operators_eq_nil_of_prep (happ : app.Documented)
    (h : prepForZeroHeightGenesis keyAddress app ctx addrs s = .ok s') :
    s.staking.operators = [] := by
  obtain ⟨_, _, _, _, hstaking, _⟩ := (prepForZeroHeightGenesis_eq_ok happ).mp h
  obtain ⟨_, _, hwalk, _⟩ := handleStaking_eq_ok.mp hstaking
  exact operators_eq_nil_of_walk happ.staking hwalk

/-- With the source's key decoding the preparation completes exactly on a chain without
validators, with an accepted list and unbroken invariants. -/
theorem prepForZeroHeightGenesis_completes_iff (happ : app.Documented)
    (hconsistent : Consistent s.staking s.distr) (howned : Owned s.staking s.distr)
    (hindex : IndexKept s.staking) :
    (∃ s', prepForZeroHeightGenesis keyAddress app ctx addrs s = .ok s') ↔
      s.staking.operators = [] ∧
        (∀ e ∈ addrs, ∃ a, app.codec.valAddressFromBech32 e = .ok a) ∧
        app.assertInvariants ctx s = .ok () := by
  constructor
  · intro h
    rcases h with ⟨s', hrun⟩
    obtain ⟨_, hmap, hinvariants, _⟩ := (prepForZeroHeightGenesis_eq_ok happ).mp hrun
    exact ⟨operators_eq_nil_of_prep happ hrun, (allowedAddrsMap_eq_ok.mp hmap).1, hinvariants⟩
  · intro h
    rcases h with ⟨hnil, hlist, hinvariants⟩
    have hnone : ∀ a, a ∉ s.staking.operators := by simp [hnil]
    apply prepForZeroHeightGenesis_total happ _ hconsistent howned hindex hlist hinvariants
    · intro v hv
      exact absurd hv (hnone v)
    · intro a v hv
      exact absurd (StakingStore.mem_operators.mpr ⟨v, hv⟩) (hnone a)
    · intro a ha
      exact absurd ha (hnone a)

section Samples

def sampleApp : App ChainDenom where
  codec := bech32Codec
  distrKeeper := sampleDistrKeeper
  stakingKeeper := sampleStakingKeeper
  assertInvariants _ _ := .ok ()
  bondHooks _ _ infos := infos
  setValidatorSigningInfo infos address info := infos.set { info with consAddress := address }

theorem sampleApp_documented : sampleApp.Documented where
  distr := sampleDistrKeeper_documented
  staking := sampleStakingKeeper_documented
  update_frame ctx st st' h := by
    obtain ⟨met, _, hst⟩ := bind_eq_ok.mp h
    cases hst
    exact ⟨rfl, rfl⟩
  setSigningInfo_eq _ _ := rfl

def sampleAppState : AppState ChainDenom where
  staking := sampleStore
  distr := sampleStateWith sampleRewards
  signingInfos := KeyedStore.empty.set ⟨[3], "mandelbotvalcons1", 7, 2, 0, false, 0⟩

/-- With the addresses of the keys recovered, the sample chain can start over. -/
theorem prepForZeroHeightGenesis_total_sample :
    ∃ s', prepForZeroHeightGenesis dropKeyHead sampleApp sampleContext [] sampleAppState =
      .ok s' :=
  prepForZeroHeightGenesis_total sampleApp_documented (fun a _ => dropKeyHead_validatorKey a)
    (sampleState_consistent (le_refl sampleRewards)) sampleState_owned sampleStore_indexKept
    (by simp) rfl (by decide) (by simp)

/-- With the source's decoding of the keys the same chain cannot. -/
theorem prepForZeroHeightGenesis_completes_iff_sample :
    ¬ ∃ s', prepForZeroHeightGenesis keyAddress sampleApp sampleContext [] sampleAppState =
      .ok s' := by
  have hiff : (∃ s', prepForZeroHeightGenesis keyAddress sampleApp sampleContext []
      sampleAppState = .ok s') ↔ sampleAppState.staking.operators = [] ∧ _ :=
    prepForZeroHeightGenesis_completes_iff sampleApp_documented
      (sampleState_consistent (le_refl sampleRewards)) sampleState_owned sampleStore_indexKept
  rw [hiff]
  intro h
  exact absurd h.1 (by decide)

end Samples

end Mandelbot
