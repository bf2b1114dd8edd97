import Mandelbot.Library.Loop
import Mandelbot.Sdk.Periods

/-!
# Fee distribution state

The part of `prepForZeroHeightGenesis` that withdraws all fees and rebuilds the distribution
records (app/export.go, lines 75-124), in the order of the source.
-/

namespace Mandelbot

variable {Denom : Type}

/-- The withdrawal callbacks panic on the error that a withdrawal returns. -/
def panicOnError {σ : Type} (result : Option SdkError × σ) : Except Abort σ :=
  match result with
  | (some err, _) => .error (.panicError err)
  | (none, s) => .ok s

def withdrawCommission (k : DistrKeeper Denom) (s : DistrState Denom) (val : Validator) :
    Except Abort (DistrState Denom) := do
  let result ← k.withdrawValidatorCommission val.getOperator s
  panicOnError result

def withdrawAllCommission (k : DistrKeeper Denom) (st : StakingStore) (s : DistrState Denom) :
    Except Abort (DistrState Denom) :=
  iterate (neverStop (withdrawCommission k)) st.validators.values s

def withdrawReward (k : DistrKeeper Denom) (ctx : Context) (st : StakingStore)
    (s : DistrState Denom) (del : Delegation) : Except Abort (DistrState Denom) := do
  let result ← k.withdrawDelegationRewards ctx st del.delegatorAddress del.validatorAddress s
  panicOnError result

/-- Withdraw all validator commission, then all delegator rewards. -/
def withdrawFees (k : DistrKeeper Denom) (ctx : Context) (st : StakingStore)
    (s : DistrState Denom) : Except Abort (DistrState Denom) := do
  let s ← withdrawAllCommission k st s
  let dels := st.delegations
  dels.foldlM (withdrawReward k ctx st) s

/-- Donate the outstanding fraction tokens to the community pool. -/
def donateScraps (s : DistrState Denom) (v : ValAddress) : DistrState Denom :=
  let scraps := s.outstandingRewards v
  { s with communityPool := s.communityPool + scraps }

def reinitializeValidator (k : DistrKeeper Denom) (st : StakingStore) (s : DistrState Denom)
    (val : Validator) : Except Abort (DistrState Denom) :=
  k.afterValidatorCreated st val.getOperator (donateScraps s val.getOperator)

def reinitializeDelegation (k : DistrKeeper Denom) (ctx : Context) (st : StakingStore)
    (s : DistrState Denom) (del : Delegation) : Except Abort (DistrState Denom) := do
  let s ← k.beforeDelegationCreated st del.delegatorAddress del.validatorAddress s
  k.afterDelegationModified ctx st del.delegatorAddress del.validatorAddress s

/-- Clear the slash events and historical rewards, then reinitialize all validators and all
delegations with the context height at zero (lines 95-124). -/
def rebuildRecords (k : DistrKeeper Denom) (ctx : Context) (st : StakingStore)
    (s : DistrState Denom) : Except Abort (Context × DistrState Denom) := do
  let s := k.deleteAllValidatorSlashEvents s
  let s := k.deleteAllValidatorHistoricalRewards s
  let height := ctx.blockHeight
  let ctx := ctx.withBlockHeight 0
  let s ← iterate (neverStop (reinitializeValidator k st)) st.validators.values s
  let dels := st.delegations
  let s ← dels.foldlM (reinitializeDelegation k ctx st) s
  let ctx := ctx.withBlockHeight height
  return (ctx, s)

def handleFeeDistribution (k : DistrKeeper Denom) (ctx : Context) (st : StakingStore)
    (s : DistrState Denom) : Except Abort (Context × DistrState Denom) := do
  let s ← withdrawFees k ctx st s
  rebuildRecords k ctx st s

section Steps

variable {k : DistrKeeper Denom} {ctx : Context} {st : StakingStore} {s s' : DistrState Denom}
  {val : Validator} {del : Delegation}

theorem panicOnError_eq_ok {σ : Type} {result : Option SdkError × σ} {s : σ} :
    panicOnError result = .ok s ↔ result = (none, s) := by
  rcases result with ⟨err, t⟩
  cases err with
  | none => simp [panicOnError]
  | some e => simp [panicOnError]

theorem notMem_getOperator_of_split {done : List Validator}
    (hpre : (done ++ [val]) <+: st.validators.values) :
    val.getOperator ∉ done.map Validator.getOperator := by
  have hops := hpre.map Validator.getOperator
  rw [List.map_append] at hops
  exact notMem_of_split st.nodup_operators hops

theorem getOperator_mem_of_split {done : List Validator}
    (hpre : (done ++ [val]) <+: st.validators.values) : val.getOperator ∈ st.operators :=
  List.mem_map_of_mem (mem_of_split hpre)

/-- A withdrawal goes on exactly when there is some commission, and then pays it. -/
theorem withdrawCommission_eq_ok (hk : k.Documented) :
    withdrawCommission k s val = .ok s' ↔
      s.accumulatedCommission val.getOperator ≠ 0 ∧
        s.CommissionPayable val.getOperator ∧
        s' = s.payCommission val.getOperator := by
  rw [withdrawCommission, bind_eq_ok]
  simp only [panicOnError_eq_ok, exists_eq_right]
  by_cases hzero : s.accumulatedCommission val.getOperator = 0
  · rw [hk.commission_zero _ _ hzero]
    simp [hzero]
  · rw [hk.commission_ok _ _ _ hzero]
    simp [hzero]

theorem withdrawReward_eq_ok (hk : k.Documented) :
    withdrawReward k ctx st s del = .ok s' ↔
      ∃ s₁ s₂ v, k.Settles ctx st del.delegatorAddress del.validatorAddress s s₁ s₂ s' v := by
  rw [withdrawReward, bind_eq_ok]
  simp only [panicOnError_eq_ok, exists_eq_right]
  exact hk.rewards_ok _ _ _ _ _ _

theorem reinitializeValidator_eq_ok (hk : k.Documented) (hval : val ∈ st.validators.values) :
    reinitializeValidator k st s val = .ok s' ↔
      s' = (donateScraps s val.getOperator).initializeValidator
        val.getOperator := by
  rw [reinitializeValidator, hk.created_ok]
  constructor
  · exact fun h => h.2
  · exact fun h => ⟨⟨val, KeyedStore.mem_values.mp hval⟩, h⟩

theorem reinitializeDelegation_eq_ok (hk : k.Documented) (hdel : del ∈ st.delegations) :
    reinitializeDelegation k ctx st s del = .ok s' ↔
      ∃ v s₁, st.validator del.validatorAddress = some v ∧
        s.Sweepable del.validatorAddress v.tokens ∧
        s.incrementValidatorPeriod del.validatorAddress v.tokens = some s₁ ∧
        s₁.initializeDelegation del.delegatorAddress del.validatorAddress ctx
          (k.delegationStake st del.delegatorAddress del.validatorAddress) = some s' := by
  have hfound := StakingStore.exists_delegation hdel
  rw [reinitializeDelegation, bind_eq_ok]
  simp only [hk.beforeCreated_ok, hk.afterModified_ok]
  constructor
  · rintro ⟨s₁, ⟨v, hv, hsweep, hinc⟩, _, _, hinit⟩
    exact ⟨v, s₁, hv, hsweep, hinc, hinit⟩
  · rintro ⟨v, s₁, hv, hsweep, hinc, hinit⟩
    exact ⟨s₁, ⟨v, hv, hsweep, hinc⟩, ⟨v, hv⟩, hfound, hinit⟩

theorem withdrawFees_eq_ok :
    withdrawFees k ctx st s = .ok s' ↔
      ∃ s₁, st.validators.values.foldlM (withdrawCommission k) s = .ok s₁ ∧
        st.delegations.foldlM (withdrawReward k ctx st) s₁ = .ok s' := by
  simp only [withdrawFees, withdrawAllCommission, iterate_neverStop, bind_eq_ok]

/-- The state from which the records are rebuilt: no slash event and no historical record. -/
def clearedRecords (s : DistrState Denom) : DistrState Denom :=
  { s with slashEvents := fun _ => [], historicalRewards := fun _ _ => none }

/-- The height reset is undone: the context leaves as it came. -/
theorem rebuildRecords_eq_ok (hk : k.Documented) {ctx' : Context} :
    rebuildRecords k ctx st s = .ok (ctx', s') ↔ ctx' = ctx ∧
      ∃ s₁, st.validators.values.foldlM (reinitializeValidator k st) (clearedRecords s) = .ok s₁ ∧
        st.delegations.foldlM (reinitializeDelegation k (ctx.withBlockHeight 0) st) s₁ = .ok s' := by
  simp only [rebuildRecords, iterate_neverStop, bind_eq_ok, hk.deleteSlashEvents_eq,
    hk.deleteHistoricalRewards_eq, pure, Except.pure, Except.ok.injEq, Prod.mk.injEq]
  constructor
  · intro h
    rcases h with ⟨s₁, hvals, s₂, hdels, hctx, he⟩
    subst s₂
    exact ⟨hctx.symm, s₁, hvals, hdels⟩
  · intro h
    rcases h with ⟨hctx, s₁, hvals, hdels⟩
    exact ⟨s₁, hvals, s', hdels, hctx.symm, rfl⟩

theorem handleFeeDistribution_eq_ok {result : Context × DistrState Denom} :
    handleFeeDistribution k ctx st s = .ok result ↔
      ∃ s₁, withdrawFees k ctx st s = .ok s₁ ∧ rebuildRecords k ctx st s₁ = .ok result := by
  rw [handleFeeDistribution, bind_eq_ok]

end Steps

end Mandelbot
