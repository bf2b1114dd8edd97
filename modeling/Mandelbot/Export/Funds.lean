import Mandelbot.Library.Ledger
import Mandelbot.Export.FeeDistribution
import Mandelbot.Sdk.Reference

/-!
# Conservation of the fee funds

Fee funds sit in the outstanding rewards of the validators and in the community pool; payments
leave from the module account in whole coins. Every step of the fee distribution moves funds
between these places without creating or losing any.
-/

namespace Mandelbot

variable {Denom : Type}

/-- The outstanding rewards of all validators. -/
def totalOutstanding (st : StakingStore) (s : DistrState Denom) : DecCoins Denom :=
  fun denom => total st.operators fun v => s.outstandingRewards v denom

/-- What the distribution module holds for validators, delegators and the community. -/
def totalFunds (st : StakingStore) (s : DistrState Denom) : DecCoins Denom :=
  totalOutstanding st s + s.communityPool

/-- Funds and payments add up to the same in both states, and so do balance and payments. -/
structure FundsKept (st : StakingStore) (s s' : DistrState Denom) : Prop where
  funds : ∀ denom, totalFunds st s' denom + s'.paidOut denom * precision =
    totalFunds st s denom + s.paidOut denom * precision
  balance : ∀ denom, s'.moduleBalance denom + s'.paidOut denom =
    s.moduleBalance denom + s.paidOut denom

/-- The module account holds the truncated funds. -/
def Covered (st : StakingStore) (s : DistrState Denom) : Prop :=
  ∀ denom, s.moduleBalance denom = totalFunds st s denom / precision

/-- Both states hold the same money in the same places. -/
structure SameMoney (s s' : DistrState Denom) : Prop where
  pool : s'.communityPool = s.communityPool
  outstanding : s'.outstandingRewards = s.outstandingRewards
  commission : s'.accumulatedCommission = s.accumulatedCommission
  balance : s'.moduleBalance = s.moduleBalance
  paid : s'.paidOut = s.paidOut

variable {k : DistrKeeper Denom} {ctx : Context} {st : StakingStore}
  {s s₁ s₂ s' : DistrState Denom} {d : AccAddress} {v : ValAddress}

theorem FundsKept.refl (st : StakingStore) (s : DistrState Denom) : FundsKept st s s :=
  ⟨fun _ => rfl, fun _ => rfl⟩

theorem FundsKept.trans (h₁ : FundsKept st s s₁) (h₂ : FundsKept st s₁ s₂) : FundsKept st s s₂ :=
  ⟨fun denom => (h₂.funds denom).trans (h₁.funds denom),
    fun denom => (h₂.balance denom).trans (h₁.balance denom)⟩

theorem FundsKept.covered (h : FundsKept st s s') (hs : Covered st s) : Covered st s' := by
  intro denom
  have htruncated := congrArg (· / precision) (h.funds denom)
  simp only [Nat.add_mul_div_right _ _ precision_pos] at htruncated
  have hmoved := h.balance denom
  have hstart := hs denom
  omega

/-- The module account can pay out what a validator has outstanding. -/
theorem Covered.truncate_le (hs : Covered st s) (hv : v ∈ st.operators) {c : DecCoins Denom}
    (hc : c ≤ s.outstandingRewards v) : truncate c ≤ s.moduleBalance := by
  intro denom
  have hle : c denom ≤ s.outstandingRewards v denom := hc denom
  have hone : s.outstandingRewards v denom ≤ totalOutstanding st s denom :=
    le_total (f := fun w => s.outstandingRewards w denom) hv
  rw [hs denom]
  apply Nat.div_le_div_right
  calc
    c denom ≤ totalOutstanding st s denom := hle.trans hone
    _ ≤ totalFunds st s denom := Nat.le_add_right _ _

theorem SameMoney.trans (h₁ : SameMoney s s₁) (h₂ : SameMoney s₁ s₂) : SameMoney s s₂ :=
  ⟨h₂.pool.trans h₁.pool, h₂.outstanding.trans h₁.outstanding, h₂.commission.trans h₁.commission,
    h₂.balance.trans h₁.balance, h₂.paid.trans h₁.paid⟩

theorem SameMoney.fundsKept (h : SameMoney s s') (st : StakingStore) : FundsKept st s s' := by
  constructor
  · intro denom
    simp only [totalFunds, totalOutstanding, Pi.add_apply, h.pool, h.outstanding, h.paid]
  · intro denom
    rw [h.balance, h.paid]

/-- Writing one validator's outstanding rewards exchanges them in the total. -/
theorem totalOutstanding_update (s s' : DistrState Denom) (hv : v ∈ st.operators)
    (rewards : DecCoins Denom)
    (hout : s'.outstandingRewards = Function.update s.outstandingRewards v rewards)
    (denom : Denom) :
    totalOutstanding st s' denom + s.outstandingRewards v denom =
      totalOutstanding st s denom + rewards denom := by
  have hcoin : (fun w => s'.outstandingRewards w denom) =
      Function.update (fun w => s.outstandingRewards w denom) v (rewards denom) := by
    funext w
    rw [hout]
    by_cases hw : w = v
    · subst w
      simp
    · simp [Function.update_of_ne hw]
  rw [totalOutstanding, hcoin]
  exact total_update_add st.nodup_operators hv (fun w => s.outstandingRewards w denom) _

theorem fundsKept_payCommission (hv : v ∈ st.operators) (hpay : s.CommissionPayable v) :
    FundsKept st s (s.payCommission v) := by
  rcases hpay with ⟨hcovered, hbalance⟩
  constructor
  · intro denom
    have htotal := totalOutstanding_update s (s.payCommission v) hv _ rfl denom
    have hle := hcovered denom
    have hpaid : (s.payCommission v).paidOut denom =
        s.paidOut denom + truncate (s.accumulatedCommission v) denom := rfl
    simp only [totalFunds, Pi.add_apply, Pi.sub_apply, toDec] at htotal hle ⊢
    rw [hpaid, Nat.add_mul]
    change totalOutstanding st (s.payCommission v) denom + s.communityPool denom + _ = _
    omega
  · intro denom
    have hle : truncate (s.accumulatedCommission v) denom ≤ s.moduleBalance denom :=
      hbalance denom
    change s.moduleBalance denom - truncate (s.accumulatedCommission v) denom +
      (s.paidOut denom + truncate (s.accumulatedCommission v) denom) = _
    omega

theorem fundsKept_payRewards (hv : v ∈ st.operators) {reward : DecCoins Denom}
    (hcovered : reward ≤ s.outstandingRewards v) (hbalance : truncate reward ≤ s.moduleBalance) :
    FundsKept st s (s.payRewards v reward) := by
  constructor
  · intro denom
    have htotal := totalOutstanding_update s (s.payRewards v reward) hv _ rfl denom
    have hle : reward denom ≤ s.outstandingRewards v denom := hcovered denom
    have hsplit : truncate reward denom * precision + remainder reward denom = reward denom :=
      congrFun (toDec_truncate_add_remainder reward) denom
    have hpaid : (s.payRewards v reward).paidOut denom =
        s.paidOut denom + truncate reward denom := rfl
    have hpool : (s.payRewards v reward).communityPool denom =
        s.communityPool denom + remainder reward denom := rfl
    simp only [totalFunds, Pi.add_apply, Pi.sub_apply] at htotal ⊢
    rw [hpaid, hpool, Nat.add_mul]
    omega
  · intro denom
    have hle : truncate reward denom ≤ s.moduleBalance denom := hbalance denom
    change s.moduleBalance denom - truncate reward denom +
      (s.paidOut denom + truncate reward denom) = _
    omega

private theorem fundsKept_sweep (hv : v ∈ st.operators)
    (hsweep : (s.currentRewards v).rewards ≤ s.outstandingRewards v) :
    FundsKept st s (s.sweepCurrentRewards v) := by
  constructor
  · intro denom
    have htotal := totalOutstanding_update s (s.sweepCurrentRewards v) hv _ rfl denom
    have hle : (s.currentRewards v).rewards denom ≤ s.outstandingRewards v denom := hsweep denom
    have hpool : (s.sweepCurrentRewards v).communityPool denom =
        s.communityPool denom + (s.currentRewards v).rewards denom := rfl
    have hpaid : (s.sweepCurrentRewards v).paidOut = s.paidOut := rfl
    simp only [totalFunds, Pi.add_apply, Pi.sub_apply] at htotal ⊢
    rw [hpaid, hpool]
    omega
  · intro denom
    rfl

theorem sameMoney_nextPeriod (tokens lastPeriod : ℕ) :
    SameMoney (if tokens = 0 then s.sweepCurrentRewards v else s)
      (s.nextPeriod v tokens lastPeriod) := by
  constructor <;> rfl

theorem fundsKept_incrementValidatorPeriod (hv : v ∈ st.operators) {tokens : ℕ}
    (hsweep : s.Sweepable v tokens) (h : s.incrementValidatorPeriod v tokens = some s') :
    FundsKept st s s' := by
  obtain ⟨last, _, _, rfl⟩ := DistrState.incrementValidatorPeriod_eq_some.mp h
  have hswept : FundsKept st s (if tokens = 0 then s.sweepCurrentRewards v else s) := by
    split
    · rename_i hzero
      exact fundsKept_sweep hv (hsweep hzero)
    · exact FundsKept.refl st s
  exact hswept.trans ((sameMoney_nextPeriod tokens last).fundsKept st)

theorem sameMoney_initializeDelegation {stake : ℕ}
    (h : s.initializeDelegation d v ctx stake = some s') : SameMoney s s' := by
  obtain ⟨last, s₁, _, hinc, rfl⟩ := DistrState.initializeDelegation_eq_some.mp h
  obtain ⟨_, rfl⟩ := DistrState.incrementReferenceCount_eq_some.mp hinc
  constructor <;> rfl

theorem sameMoney_removeStartingInfo (h : s.removeStartingInfo d v = some s') :
    SameMoney s s' := by
  obtain ⟨info, s₁, _, hdec, rfl⟩ := DistrState.removeStartingInfo_eq_some.mp h
  obtain ⟨_, rfl⟩ := DistrState.decrementReferenceCount_eq_some.mp hdec
  constructor <;> rfl

/-- A reward withdrawal keeps the funds. -/
theorem fundsKept_settles {val : Validator} (h : k.Settles ctx st d v s s₁ s₂ s' val) :
    FundsKept st s s' := by
  have hv : v ∈ st.operators := StakingStore.mem_operators.mpr ⟨val, h.validator⟩
  have hcovered : k.reward st s₁ d v ≤ s₁.outstandingRewards v := inf_le_right
  have hincrement := fundsKept_incrementValidatorPeriod hv h.sweepable h.increment
  have hpay := fundsKept_payRewards hv hcovered h.payable
  have hremove := (sameMoney_removeStartingInfo h.remove).fundsKept st
  have hrestart := (sameMoney_initializeDelegation h.restart).fundsKept st
  exact ((hincrement.trans hpay).trans hremove).trans hrestart

/-- Both withdrawal passes keep the funds. -/
theorem fundsKept_withdrawFees (hk : k.Documented) (h : withdrawFees k ctx st s = .ok s') :
    FundsKept st s s' := by
  obtain ⟨s₁, hcommission, hrewards⟩ := withdrawFees_eq_ok.mp h
  have hfirst : FundsKept st s s₁ := by
    refine foldlM_invariant (I := fun _ t => FundsKept st s t) ?_ (FundsKept.refl st s) hcommission
    intro done val t t' hpre hkept hstep
    obtain ⟨_, hpay, rfl⟩ := (withdrawCommission_eq_ok hk).mp hstep
    exact hkept.trans (fundsKept_payCommission (getOperator_mem_of_split hpre) hpay)
  refine foldlM_invariant (I := fun _ t => FundsKept st s t) ?_ hfirst hrewards
  intro done del t t' _ hkept hstep
  obtain ⟨t₁, t₂, val, hsettles⟩ := (withdrawReward_eq_ok hk).mp hstep
  exact hkept.trans (fundsKept_settles hsettles)

/-- The state after the validators in `done` have been reinitialized, starting from `s`. -/
structure Donated (s : DistrState Denom) (done : List ValAddress) (t : DistrState Denom) :
    Prop where
  outstanding : ∀ v, t.outstandingRewards v = if v ∈ done then 0 else s.outstandingRewards v
  commission : ∀ v ∈ done, t.accumulatedCommission v = 0
  current : ∀ v ∈ done, (t.currentRewards v).rewards = 0
  pool : ∀ denom, t.communityPool denom =
    s.communityPool denom + total done fun v => s.outstandingRewards v denom
  balance : t.moduleBalance = s.moduleBalance
  paid : t.paidOut = s.paidOut

theorem Donated.step {done : List ValAddress} {t : DistrState Denom} (h : Donated s done t)
    (hv : v ∉ done) : Donated s (done ++ [v]) ((donateScraps t v).initializeValidator v) := by
  constructor
  · intro w
    by_cases hw : w = v
    · subst w
      simp [DistrState.initializeValidator]
    · have hkeep : ((donateScraps t v).initializeValidator v).outstandingRewards w =
          t.outstandingRewards w := Function.update_of_ne hw _ _
      rw [hkeep, h.outstanding w]
      simp [hw]
  · intro w hw
    by_cases he : w = v
    · subst w
      simp [DistrState.initializeValidator]
    · have hdone : w ∈ done := by simpa [he] using hw
      simp only [DistrState.initializeValidator, Function.update_of_ne he]
      exact h.commission w hdone
  · intro w hw
    by_cases he : w = v
    · subst w
      simp [DistrState.initializeValidator]
    · have hdone : w ∈ done := by simpa [he] using hw
      simp only [DistrState.initializeValidator, Function.update_of_ne he]
      exact h.current w hdone
  · intro denom
    have hpool := h.pool denom
    have hscraps : t.outstandingRewards v = s.outstandingRewards v := by
      rw [h.outstanding v, if_neg hv]
    change t.communityPool denom + t.outstandingRewards v denom = _
    rw [total_append, hscraps, hpool, Nat.add_assoc]
    simp [total]
  · exact h.balance
  · exact h.paid

/-- The reinitialized validators hold nothing, and their scraps are in the community pool. -/
theorem donated_of_run (hk : k.Documented)
    (h : st.validators.values.foldlM (reinitializeValidator k st) s = .ok s') :
    Donated s st.operators s' := by
  have hstart : Donated s [] s :=
    ⟨fun v => by simp, by simp, by simp, fun denom => by simp [total], rfl, rfl⟩
  refine foldlM_invariant
    (I := fun done t => Donated s (done.map Validator.getOperator) t) ?_ hstart h
  intro done val t t' hpre hdone hstep
  rw [(reinitializeValidator_eq_ok hk (mem_of_split hpre)).mp hstep, List.map_append]
  exact hdone.step (notMem_getOperator_of_split hpre)

/-- Reinitializing the delegations moves no money when no validator has current rewards. -/
theorem sameMoney_reinitializeDelegations (hk : k.Documented)
    (hcurrent : ∀ v ∈ st.operators, (s.currentRewards v).rewards = 0)
    (h : st.delegations.foldlM (reinitializeDelegation k ctx st) s = .ok s') : SameMoney s s' := by
  let I : List Delegation → DistrState Denom → Prop := fun _ t =>
    SameMoney s t ∧ ∀ v ∈ st.operators, (t.currentRewards v).rewards = 0
  have hend : I st.delegations s' := by
    refine foldlM_invariant (I := I) ?_ ⟨⟨rfl, rfl, rfl, rfl, rfl⟩, hcurrent⟩ h
    intro done del t t' hpre hI hstep
    rcases hI with ⟨hmoney, hzero⟩
    obtain ⟨val, t₁, hval, _, hinc, hinit⟩ :=
      (reinitializeDelegation_eq_ok hk (mem_of_split hpre)).mp hstep
    have hv := StakingStore.mem_operators.mpr ⟨val, hval⟩
    obtain ⟨last, _, _, rfl⟩ := DistrState.incrementValidatorPeriod_eq_some.mp hinc
    have hsweep : SameMoney t (t.sweepCurrentRewards del.validatorAddress) := by
      have hrewards := hzero _ hv
      refine ⟨?_, ?_, rfl, rfl, rfl⟩
      · simp [DistrState.sweepCurrentRewards, hrewards]
      · have hsame : t.outstandingRewards del.validatorAddress - 0 =
            t.outstandingRewards del.validatorAddress := funext fun _ => Nat.sub_zero _
        simp [DistrState.sweepCurrentRewards, hrewards, hsame]
    have hperiod : SameMoney t (t.nextPeriod del.validatorAddress val.tokens last) := by
      refine SameMoney.trans ?_ (sameMoney_nextPeriod val.tokens last)
      split
      · exact hsweep
      · exact ⟨rfl, rfl, rfl, rfl, rfl⟩
    refine ⟨(hmoney.trans hperiod).trans (sameMoney_initializeDelegation hinit), ?_⟩
    intro w hw
    obtain ⟨_, t₂, _, hinc', rfl⟩ := DistrState.initializeDelegation_eq_some.mp hinit
    obtain ⟨_, rfl⟩ := DistrState.incrementReferenceCount_eq_some.mp hinc'
    change ((t.nextPeriod del.validatorAddress val.tokens last).currentRewards w).rewards = 0
    by_cases he : w = del.validatorAddress
    · subst w
      rw [DistrState.nextPeriod_currentRewards]
    · rw [(DistrState.samePeriods_nextPeriod he val.tokens last).current]
      exact hzero w hw
  exact hend.1

/-- What the rebuild of the records does to the money. -/
theorem rebuildRecords_money (hk : k.Documented) {ctx' : Context}
    (h : rebuildRecords k ctx st s = .ok (ctx', s')) :
    (∀ v ∈ st.operators, s'.outstandingRewards v = 0 ∧ s'.accumulatedCommission v = 0) ∧
      (∀ denom, s'.communityPool denom = s.communityPool denom + totalOutstanding st s denom) ∧
      s'.moduleBalance = s.moduleBalance ∧ s'.paidOut = s.paidOut := by
  obtain ⟨_, s₁, hvals, hdels⟩ := (rebuildRecords_eq_ok hk).mp h
  have hdonated := donated_of_run hk hvals
  have hzero : ∀ v ∈ st.operators, s₁.outstandingRewards v = 0 := by
    intro v hv
    rw [hdonated.outstanding v, if_pos hv]
  have hsame := sameMoney_reinitializeDelegations hk hdonated.current hdels
  refine ⟨?_, ?_, ?_, ?_⟩
  · intro v hv
    rw [hsame.outstanding, hsame.commission]
    exact ⟨hzero v hv, hdonated.commission v hv⟩
  · intro denom
    rw [hsame.pool, hdonated.pool denom]
    rfl
  · rw [hsame.balance, hdonated.balance]
    rfl
  · rw [hsame.paid, hdonated.paid]
    rfl

/-- Fee funds are conserved: payments leave in whole coins, the validators end with nothing, the
community pool gains exactly their leftovers, and the module account still covers its liabilities
if it did before. -/
theorem handleFeeDistribution_conserves (k : DistrKeeper Denom) (hk : k.Documented)
    (ctx ctx' : Context) (st : StakingStore) (s s' : DistrState Denom)
    (h : handleFeeDistribution k ctx st s = .ok (ctx', s')) :
    (∀ denom, totalFunds st s' denom + s'.paidOut denom * precision =
        totalFunds st s denom + s.paidOut denom * precision) ∧
      (∀ v ∈ st.operators, s'.outstandingRewards v = 0 ∧ s'.accumulatedCommission v = 0) ∧
      (∃ s₁, withdrawFees k ctx st s = .ok s₁ ∧ ∀ denom,
        s'.communityPool denom = s₁.communityPool denom + totalOutstanding st s₁ denom) ∧
      ((∀ denom, s.moduleBalance denom = totalFunds st s denom / precision) →
        ∀ denom, s'.moduleBalance denom = totalFunds st s' denom / precision) := by
  obtain ⟨s₁, hfees, hrebuild⟩ := handleFeeDistribution_eq_ok.mp h
  have hfirst := fundsKept_withdrawFees hk hfees
  obtain ⟨hzero, hpool, hbalance, hpaid⟩ := rebuildRecords_money hk hrebuild
  have hfunds : ∀ denom, totalFunds st s' denom + s'.paidOut denom * precision =
      totalFunds st s denom + s.paidOut denom * precision := by
    intro denom
    have hnothing : totalOutstanding st s' denom = 0 :=
      total_eq_zero fun v hv => congrFun (hzero v hv).1 denom
    have hkept := hfirst.funds denom
    simp only [totalFunds, Pi.add_apply] at hkept ⊢
    rw [hnothing, hpool denom, hpaid]
    omega
  have hmoved : ∀ denom, s'.moduleBalance denom + s'.paidOut denom =
      s.moduleBalance denom + s.paidOut denom := by
    rw [hbalance, hpaid]
    exact hfirst.balance
  have hkept : FundsKept st s s' := ⟨hfunds, hmoved⟩
  exact ⟨hfunds, hzero, ⟨s₁, hfees, hpool⟩, hkept.covered⟩

theorem handleFeeDistribution_conserves_sample : ∃ ctx' s',
    handleFeeDistribution sampleDistrKeeper sampleContext sampleStore sampleState =
        .ok (ctx', s') ∧
      (∀ v ∈ sampleStore.operators, s'.outstandingRewards v = 0) ∧
      ∀ denom, s'.moduleBalance denom = totalFunds sampleStore s' denom / precision := by
  have hok : (handleFeeDistribution sampleDistrKeeper sampleContext sampleStore
      sampleState).isOk = true := by decide
  cases hrun : handleFeeDistribution sampleDistrKeeper sampleContext sampleStore sampleState with
  | error e => rw [hrun] at hok; cases hok
  | ok result =>
      rcases result with ⟨ctx', s'⟩
      obtain ⟨_, hzero, _, hcovered⟩ := handleFeeDistribution_conserves sampleDistrKeeper
        sampleDistrKeeper_documented sampleContext ctx' sampleStore sampleState s' hrun
      refine ⟨ctx', s', rfl, fun v hv => (hzero v hv).1, hcovered ?_⟩
      intro denom
      cases denom <;> decide

end Mandelbot
