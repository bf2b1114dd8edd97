import Mathlib.Data.Fintype.Pi
import Mandelbot.Sdk.Periods

/-!
# Reference keepers

Executable keepers with exactly the documented behaviour, over finitely many denominations. They
show that the assumptions on the keeper parameters can be met, and run the export on samples.
-/

namespace Mandelbot

/-- The denominations of the chain's genesis accounts. -/
inductive ChainDenom
  | stake
  | token
  deriving DecidableEq

instance : Fintype ChainDenom := ⟨{.stake, .token}, fun denom => by cases denom <;> decide⟩

section Distribution

variable {Denom : Type} [Fintype Denom]

instance (a b : DecCoins Denom) : Decidable (a ≤ b) :=
  inferInstanceAs (Decidable (∀ denom, a denom ≤ b denom))

instance (s : DistrState Denom) (v : ValAddress) : Decidable (s.CommissionPayable v) :=
  inferInstanceAs (Decidable (_ ∧ _))

instance (s : DistrState Denom) (v : ValAddress) (tokens : ℕ) :
    Decidable (s.Sweepable v tokens) :=
  inferInstanceAs (Decidable (_ → _))

/-- `TokensFromSharesTruncated` of a delegation. -/
def stakeOf (st : StakingStore) (d : AccAddress) (v : ValAddress) : ℕ :=
  match st.validator v, st.delegation d v with
  | some val, some del => del.shares * val.tokens / val.delegatorShares
  | _, _ => 0

private def brokenReferences : Abort := .panic "cannot set negative reference count"

/-- A distribution keeper that calculates rewards with `rewards`. -/
def referenceDistrKeeper
    (rewards : StakingStore → DistrState Denom → AccAddress → ValAddress → DecCoins Denom) :
    DistrKeeper Denom where
  withdrawValidatorCommission v s :=
    if s.accumulatedCommission v = 0 then .ok (some .noValidatorCommission, s)
    else if s.CommissionPayable v then .ok (none, s.payCommission v)
    else .error (.panic "negative coin amount")
  withdrawDelegationRewards ctx st d v s :=
    match st.validator v, st.delegation d v with
    | none, _ => .ok (some .noValidatorDistInfo, s)
    | some _, none => .ok (some .emptyDelegationDistInfo, s)
    | some val, some _ =>
        if s.Sweepable v val.tokens then
          match s.incrementValidatorPeriod v val.tokens with
          | none => .error brokenReferences
          | some s₁ =>
              let reward := rewards st s₁ d v ⊓ s₁.outstandingRewards v
              if truncate reward ≤ s₁.moduleBalance then
                match (s₁.payRewards v reward).removeStartingInfo d v with
                | none => .ok (some .emptyDelegationDistInfo, s)
                | some s₂ =>
                    match s₂.initializeDelegation d v ctx (stakeOf st d v) with
                    | none => .error brokenReferences
                    | some s' => .ok (none, s')
              else .ok (some .insufficientFunds, s)
        else .error (.panic "negative coin amount")
  deleteAllValidatorSlashEvents s := { s with slashEvents := fun _ => [] }
  deleteAllValidatorHistoricalRewards s := { s with historicalRewards := fun _ _ => none }
  afterValidatorCreated st v s :=
    match st.validator v with
    | none => .error (.panic "nil validator")
    | some _ => .ok (s.initializeValidator v)
  beforeDelegationCreated st _ v s :=
    match st.validator v with
    | none => .error (.panic "nil validator")
    | some val =>
        if s.Sweepable v val.tokens then
          match s.incrementValidatorPeriod v val.tokens with
          | none => .error brokenReferences
          | some s' => .ok s'
        else .error (.panic "negative coin amount")
  afterDelegationModified ctx st d v s :=
    match st.validator v, st.delegation d v with
    | some _, some _ =>
        match s.initializeDelegation d v ctx (stakeOf st d v) with
        | none => .error brokenReferences
        | some s' => .ok s'
    | _, _ => .error (.panic "nil delegation")
  calculateDelegationRewards := rewards
  delegationStake := stakeOf

theorem referenceDistrKeeper_documented
    (rewards : StakingStore → DistrState Denom → AccAddress → ValAddress → DecCoins Denom) :
    (referenceDistrKeeper rewards).Documented where
  commission_zero s v hzero := by
    simp [referenceDistrKeeper, hzero]
  commission_ok s v s' hzero := by
    by_cases hpay : s.CommissionPayable v
    · simp [referenceDistrKeeper, hzero, hpay, eq_comm]
    · simp [referenceDistrKeeper, hzero, hpay]
  rewards_ok ctx st d v s s' := by
    constructor
    · intro h
      cases hval : st.validator v with
      | none => simp [referenceDistrKeeper, hval] at h
      | some val =>
      cases hdel : st.delegation d v with
      | none => simp [referenceDistrKeeper, hval, hdel] at h
      | some del =>
      by_cases hsweep : s.Sweepable v val.tokens
      case neg => simp [referenceDistrKeeper, hval, hdel, hsweep] at h
      cases hinc : s.incrementValidatorPeriod v val.tokens with
      | none => simp [referenceDistrKeeper, hval, hdel, hsweep, hinc] at h
      | some s₁ =>
      simp only [referenceDistrKeeper, hval, hdel, hsweep, hinc, if_true] at h
      split at h
      case isFalse => cases h
      rename_i hpay
      split at h
      case h_1 => cases h
      rename_i s₂ hremove
      split at h
      case h_1 => cases h
      rename_i hrestart
      cases h
      exact ⟨s₁, s₂, val, hval, ⟨del, hdel⟩, hsweep, hinc, hpay, hremove, hrestart⟩
    · intro h
      rcases h with ⟨s₁, s₂, val, hsettles⟩
      obtain ⟨del, hdel⟩ := hsettles.delegation
      have hremove := hsettles.remove
      have hpay := hsettles.payable
      have hrestart := hsettles.restart
      simp only [DistrKeeper.reward, referenceDistrKeeper] at hremove hpay hrestart
      simp only [referenceDistrKeeper, hsettles.validator, hdel, hsettles.sweepable,
        hsettles.increment, hpay, hremove, hrestart, if_true]
  deleteSlashEvents_eq s := rfl
  deleteHistoricalRewards_eq s := rfl
  created_ok st v s s' := by
    cases hval : st.validator v with
    | none => simp [referenceDistrKeeper, hval]
    | some val => simp [referenceDistrKeeper, hval, eq_comm]
  beforeCreated_ok st d v s s' := by
    cases hval : st.validator v with
    | none => simp [referenceDistrKeeper, hval]
    | some val =>
        by_cases hsweep : s.Sweepable v val.tokens
        · cases hinc : s.incrementValidatorPeriod v val.tokens <;>
            simp [referenceDistrKeeper, hval, hsweep, hinc]
        · simp [referenceDistrKeeper, hval, hsweep]
  afterModified_ok ctx st d v s s' := by
    cases hval : st.validator v with
    | none => simp [referenceDistrKeeper, hval]
    | some val =>
        cases hdel : st.delegation d v with
        | none => simp [referenceDistrKeeper, hval, hdel]
        | some del =>
            cases hinit : s.initializeDelegation d v ctx (stakeOf st d v) <;>
              simp [referenceDistrKeeper, hval, hdel, hinit]

end Distribution

section Staking

@[simp] theorem key_updateBond (ctx : Context) (unbondingPeriod : Int) (met : List ValAddress)
    (v : Validator) : (updateBond ctx unbondingPeriod met v).key = v.key := by
  rw [updateBond]
  split
  · rfl
  · split <;> rfl

/-- A staking keeper with the given power function and parameters. -/
def referenceStakingKeeper (consensusPower : Validator → ℕ) (maxValidators : ℕ)
    (unbondingPeriod : Int) : StakingKeeper where
  getValidator st a :=
    if a.length ≤ 255 then .ok (st.validator a)
    else .error (.panic "address length should be max 255 bytes")
  setValidator st v := { st with validators := st.validators.set v }
  setRedelegation st r := { st with redelegations := st.redelegations.set r }
  setUnbondingDelegation st u := { st with unbondingDelegations := st.unbondingDelegations.set u }
  applyAndReturnValidatorSetUpdates ctx st := do
    let met ← bondedPrefix consensusPower st.validator maxValidators st.powerIndex
    return (none,
      { st with validators := st.validators.rewrite (updateBond ctx unbondingPeriod met) })
  consensusPower := consensusPower
  maxValidators := maxValidators
  unbondingPeriod := unbondingPeriod

theorem referenceStakingKeeper_documented (consensusPower : Validator → ℕ) (maxValidators : ℕ)
    (unbondingPeriod : Int) :
    (referenceStakingKeeper consensusPower maxValidators unbondingPeriod).Documented where
  getValidator_eq st a h := if_pos h
  getValidator_long st a h := if_neg (Nat.not_le.mpr h)
  setValidator_eq st v := rfl
  setRedelegation_eq st r := rfl
  setUnbondingDelegation_eq st u := rfl
  apply_error ctx st e h := by
    change bondedPrefix consensusPower st.validator maxValidators st.powerIndex >>= _ = _
    change bondedPrefix consensusPower st.validator maxValidators st.powerIndex = _ at h
    rw [h]
    rfl
  apply_ok ctx st met h := by
    refine ⟨{ st with validators := st.validators.rewrite (updateBond ctx unbondingPeriod met) },
      ?_, fun key => ?_⟩
    · change bondedPrefix consensusPower st.validator maxValidators st.powerIndex >>= _ = _
      change bondedPrefix consensusPower st.validator maxValidators st.powerIndex = _ at h
      rw [h]
      rfl
    · exact st.validators.get_rewrite _ (key_updateBond ctx unbondingPeriod met) key

end Staking

section Samples

def sampleValidator : Validator where
  operatorAddress := sampleOperator
  consensusPubkey := []
  jailed := false
  status := .bonded
  tokens := 100
  delegatorShares := 100
  description := "red"
  unbondingHeight := 0
  unbondingTime := 0
  commissionRate := 10
  minSelfDelegation := 1

/-- One bonded validator with one delegation. -/
def sampleStore : StakingStore where
  validators := KeyedStore.empty.set sampleValidator
  redelegations := KeyedStore.empty
  unbondingDelegations := KeyedStore.empty
  delegations := [⟨[7], [1], 100⟩]
  powerIndex := [[1]]

def sampleRewards : DecCoins ChainDenom
  | .stake => 25 * 10 ^ 17
  | .token => 0

/-- `2.5stake` are outstanding, half of them as commission. -/
def sampleState : DistrState ChainDenom where
  communityPool := 0
  outstandingRewards _ := sampleRewards
  accumulatedCommission _ := fun denom => sampleRewards denom / 2
  historicalRewards _ := fun period => if period = 0 then some ⟨0, 2⟩ else none
  currentRewards _ := ⟨0, 1⟩
  startingInfo := fun key => if key = ([7], [1]) then some ⟨0, 100, 5⟩ else none
  slashEvents _ := []
  moduleBalance := truncate sampleRewards
  paidOut := 0

def sampleDistrKeeper : DistrKeeper ChainDenom := referenceDistrKeeper fun _ _ _ _ => sampleRewards

def sampleContext : Context := ⟨9, 0⟩

def sampleStakingKeeper : StakingKeeper := referenceStakingKeeper (fun v => v.tokens / 10) 100 21

theorem sampleStakingKeeper_documented : sampleStakingKeeper.Documented :=
  referenceStakingKeeper_documented _ _ _

theorem sampleDistrKeeper_documented : sampleDistrKeeper.Documented :=
  referenceDistrKeeper_documented _

end Samples

end Mandelbot
