import Mandelbot.Sdk.Staking

/-!
# Distribution state and keeper

The distribution module's store, the documented effects of its keeper on that store, and the
keeper itself as a parameter. `DistrKeeper.Documented` says which effect each call has and when
it succeeds in cosmos-sdk v0.45.5.
-/

namespace Mandelbot

structure HistoricalRewards (Denom : Type) where
  cumulativeRewardRatio : DecCoins Denom
  referenceCount : ℕ

structure CurrentRewards (Denom : Type) where
  rewards : DecCoins Denom
  period : ℕ

structure DelegatorStartingInfo where
  previousPeriod : ℕ
  stake : ℕ
  height : Int

structure SlashEvent where
  height : Int
  validatorPeriod : ℕ
  fraction : ℕ

/-- The distribution store with the balance of the distribution module account; `paidOut` adds up
the coins that left it. -/
structure DistrState (Denom : Type) where
  communityPool : DecCoins Denom
  outstandingRewards : ValAddress → DecCoins Denom
  accumulatedCommission : ValAddress → DecCoins Denom
  historicalRewards : ValAddress → ℕ → Option (HistoricalRewards Denom)
  currentRewards : ValAddress → CurrentRewards Denom
  startingInfo : AccAddress × ValAddress → Option DelegatorStartingInfo
  slashEvents : ValAddress → List SlashEvent
  moduleBalance : Coins Denom
  paidOut : Coins Denom

namespace DistrState

variable {Denom : Type}

section Effects

variable (s : DistrState Denom) (d : AccAddress) (v : ValAddress)

/-- Pay the whole coins of the commission, leave the remainder to withdraw later. -/
def payCommission : DistrState Denom :=
  let commission := s.accumulatedCommission v
  { s with
    accumulatedCommission := Function.update s.accumulatedCommission v (remainder commission)
    outstandingRewards := Function.update s.outstandingRewards v
      (s.outstandingRewards v - toDec (truncate commission))
    moduleBalance := s.moduleBalance - truncate commission
    paidOut := s.paidOut + truncate commission }

/-- The subtraction from the outstanding rewards stays non-negative and the account can pay. -/
def CommissionPayable : Prop :=
  toDec (truncate (s.accumulatedCommission v)) ≤ s.outstandingRewards v ∧
    truncate (s.accumulatedCommission v) ≤ s.moduleBalance

/-- Pay the whole coins of a reward, give the remainder to the community pool. -/
def payRewards (reward : DecCoins Denom) : DistrState Denom :=
  { s with
    outstandingRewards := Function.update s.outstandingRewards v (s.outstandingRewards v - reward)
    communityPool := s.communityPool + remainder reward
    moduleBalance := s.moduleBalance - truncate reward
    paidOut := s.paidOut + truncate reward }

def setHistoricalRewards (period : ℕ) (h : Option (HistoricalRewards Denom)) : DistrState Denom :=
  { s with
    historicalRewards := Function.update s.historicalRewards v
      (Function.update (s.historicalRewards v) period h) }

/-- A missing record reads as the zero record. -/
def getHistoricalRewards (period : ℕ) : HistoricalRewards Denom :=
  (s.historicalRewards v period).getD ⟨0, 0⟩

/-- `none` is the panic "reference count should never exceed 2". -/
def incrementReferenceCount (period : ℕ) : Option (DistrState Denom) :=
  let h := s.getHistoricalRewards v period
  if 2 < h.referenceCount then none
  else some (s.setHistoricalRewards v period
    (some { h with referenceCount := h.referenceCount + 1 }))

/-- `none` is the panic "cannot set negative reference count". -/
def decrementReferenceCount (period : ℕ) : Option (DistrState Denom) :=
  let h := s.getHistoricalRewards v period
  if h.referenceCount = 0 then none
  else some (s.setHistoricalRewards v period
    (if h.referenceCount - 1 = 0 then none
      else some { h with referenceCount := h.referenceCount - 1 }))

/-- The current rewards of a validator without tokens go to the community pool. -/
def sweepCurrentRewards : DistrState Denom :=
  { s with
    communityPool := s.communityPool + (s.currentRewards v).rewards
    outstandingRewards := Function.update s.outstandingRewards v
      (s.outstandingRewards v - (s.currentRewards v).rewards) }

/-- The subtraction of `sweepCurrentRewards` stays non-negative. -/
def Sweepable (tokens : ℕ) : Prop :=
  tokens = 0 → (s.currentRewards v).rewards ≤ s.outstandingRewards v

/-- End the current period and open the next one. -/
def incrementValidatorPeriod (tokens : ℕ) : Option (DistrState Denom) :=
  match (s.currentRewards v).period with
  | 0 => none
  | lastPeriod + 1 => do
      let ratio := if tokens = 0 then 0 else fun denom => (s.currentRewards v).rewards denom / tokens
      let historical := (s.getHistoricalRewards v lastPeriod).cumulativeRewardRatio
      let s := if tokens = 0 then s.sweepCurrentRewards v else s
      let s ← s.decrementReferenceCount v lastPeriod
      let s := s.setHistoricalRewards v (lastPeriod + 1) (some ⟨historical + ratio, 1⟩)
      return { s with
        currentRewards := Function.update s.currentRewards v ⟨0, lastPeriod + 2⟩ }

/-- Point a delegation at the period just ended. -/
def initializeDelegation (ctx : Context) (stake : ℕ) : Option (DistrState Denom) :=
  match (s.currentRewards v).period with
  | 0 => none
  | previousPeriod + 1 => do
      let s ← s.incrementReferenceCount v previousPeriod
      return { s with
        startingInfo := Function.update s.startingInfo (d, v)
          (some ⟨previousPeriod, stake, ctx.blockHeight⟩) }

/-- Drop the starting info of a delegation and its reference. -/
def removeStartingInfo : Option (DistrState Denom) := do
  let info ← s.startingInfo (d, v)
  let s ← s.decrementReferenceCount v info.previousPeriod
  return { s with startingInfo := Function.update s.startingInfo (d, v) none }

/-- Fresh records of a validator: period `0` is over, period `1` is current. -/
def initializeValidator : DistrState Denom :=
  { s.setHistoricalRewards v 0 (some ⟨0, 1⟩) with
    currentRewards := Function.update s.currentRewards v ⟨0, 1⟩
    accumulatedCommission := Function.update s.accumulatedCommission v 0
    outstandingRewards := Function.update s.outstandingRewards v 0 }

end Effects

end DistrState

/-- The distribution keeper calls of the export, with the reward calculation and the stake of a
delegation that they use. A call returns its error, or `none`, with the new state. -/
structure DistrKeeper (Denom : Type) where
  withdrawValidatorCommission :
    ValAddress → DistrState Denom → Except Abort (Option SdkError × DistrState Denom)
  withdrawDelegationRewards : Context → StakingStore → AccAddress → ValAddress →
    DistrState Denom → Except Abort (Option SdkError × DistrState Denom)
  deleteAllValidatorSlashEvents : DistrState Denom → DistrState Denom
  deleteAllValidatorHistoricalRewards : DistrState Denom → DistrState Denom
  afterValidatorCreated :
    StakingStore → ValAddress → DistrState Denom → Except Abort (DistrState Denom)
  beforeDelegationCreated :
    StakingStore → AccAddress → ValAddress → DistrState Denom → Except Abort (DistrState Denom)
  afterDelegationModified : Context → StakingStore → AccAddress → ValAddress →
    DistrState Denom → Except Abort (DistrState Denom)
  calculateDelegationRewards :
    StakingStore → DistrState Denom → AccAddress → ValAddress → DecCoins Denom
  delegationStake : StakingStore → AccAddress → ValAddress → ℕ

namespace DistrKeeper

variable {Denom : Type}

/-- The reward a withdrawal takes: the calculated one, bounded by the outstanding rewards. -/
def reward (k : DistrKeeper Denom) (st : StakingStore) (s : DistrState Denom) (d : AccAddress)
    (v : ValAddress) : DecCoins Denom :=
  k.calculateDelegationRewards st s d v ⊓ s.outstandingRewards v

/-- A successful reward withdrawal: the period ends, the reward is paid, and the delegation is
pointed at the new last period. -/
structure Settles (k : DistrKeeper Denom) (ctx : Context) (st : StakingStore) (d : AccAddress)
    (v : ValAddress) (s s₁ s₂ s' : DistrState Denom) (val : Validator) : Prop where
  validator : st.validator v = some val
  delegation : ∃ del, st.delegation d v = some del
  sweepable : s.Sweepable v val.tokens
  increment : s.incrementValidatorPeriod v val.tokens = some s₁
  payable : truncate (k.reward st s₁ d v) ≤ s₁.moduleBalance
  remove : (s₁.payRewards v (k.reward st s₁ d v)).removeStartingInfo d v = some s₂
  restart : s₂.initializeDelegation d v ctx (k.delegationStake st d v) = some s'

/-- The documented behaviour of the distribution keeper. -/
structure Documented (k : DistrKeeper Denom) : Prop where
  commission_zero : ∀ s v, s.accumulatedCommission v = 0 →
    k.withdrawValidatorCommission v s = .ok (some .noValidatorCommission, s)
  commission_ok : ∀ s v s', s.accumulatedCommission v ≠ 0 →
    (k.withdrawValidatorCommission v s = .ok (none, s') ↔
      s.CommissionPayable v ∧ s' = s.payCommission v)
  rewards_ok : ∀ ctx st d v s s',
    k.withdrawDelegationRewards ctx st d v s = .ok (none, s') ↔
      ∃ s₁ s₂ val, k.Settles ctx st d v s s₁ s₂ s' val
  deleteSlashEvents_eq : ∀ s,
    k.deleteAllValidatorSlashEvents s = { s with slashEvents := fun _ => [] }
  deleteHistoricalRewards_eq : ∀ s,
    k.deleteAllValidatorHistoricalRewards s = { s with historicalRewards := fun _ _ => none }
  created_ok : ∀ st v s s', k.afterValidatorCreated st v s = .ok s' ↔
    (∃ val, st.validator v = some val) ∧ s' = s.initializeValidator v
  beforeCreated_ok : ∀ st d v s s', k.beforeDelegationCreated st d v s = .ok s' ↔
    ∃ val, st.validator v = some val ∧ s.Sweepable v val.tokens ∧
      s.incrementValidatorPeriod v val.tokens = some s'
  afterModified_ok : ∀ ctx st d v s s', k.afterDelegationModified ctx st d v s = .ok s' ↔
    (∃ val, st.validator v = some val) ∧ (∃ del, st.delegation d v = some del) ∧
      s.initializeDelegation d v ctx (k.delegationStake st d v) = some s'

end DistrKeeper

end Mandelbot
