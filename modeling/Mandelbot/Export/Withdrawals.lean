import Mandelbot.Export.Funds
import Mandelbot.Export.RewardPeriods

/-!
# The withdrawal passes

From a consistent state every reward withdrawal succeeds, and a commission withdrawal succeeds
exactly when there is some commission: the callback panics on the error that the keeper returns
for a validator without any. The passes therefore complete exactly when every validator has
accumulated some commission, and never after a first run has reset the commissions.
-/

namespace Mandelbot

open DistrState

variable {Denom : Type} {k : DistrKeeper Denom} {ctx : Context} {st : StakingStore}
  {s s' : DistrState Denom}

/-- What the distribution module keeps about the delegations and balances of a live chain. -/
structure Settleable (st : StakingStore) (s : DistrState Denom) : Prop where
  started : ∀ del ∈ st.delegations, ∃ info, s.startingInfo del.pair = some info
  periods : ∀ v ∈ st.operators, s.PeriodsKept (delegatorsOf st.delegations v) v
  accrued : ∀ v ∈ st.operators, (s.currentRewards v).rewards ≤ s.outstandingRewards v
  covered : Covered st s

/-- Commission and current rewards are both part of a validator's outstanding rewards. -/
def CommissionAccrued (st : StakingStore) (s : DistrState Denom) : Prop :=
  ∀ v ∈ st.operators,
    s.accumulatedCommission v + (s.currentRewards v).rewards ≤ s.outstandingRewards v

structure Consistent (st : StakingStore) (s : DistrState Denom) : Prop where
  distinct : (st.delegations.map Delegation.pair).Nodup
  known : ∀ del ∈ st.delegations, del.validatorAddress ∈ st.operators
  settleable : Settleable st s
  commission : CommissionAccrued st s

section Commission

theorem Settleable.commissionPayable (h : Settleable st s) (hcommission : CommissionAccrued st s)
    {v : ValAddress} (hv : v ∈ st.operators) : s.CommissionPayable v := by
  have hle : s.accumulatedCommission v ≤ s.outstandingRewards v := by
    intro denom
    have hboth : s.accumulatedCommission v denom + (s.currentRewards v).rewards denom ≤
        s.outstandingRewards v denom := hcommission v hv denom
    exact (Nat.le_add_right _ _).trans hboth
  exact ⟨(toDec_truncate_le _).trans hle, h.covered.truncate_le hv hle⟩

/-- The first pass after the validators in `done`, starting from `s`. -/
structure CommissionTaken (st : StakingStore) (s : DistrState Denom) (done : List ValAddress)
    (t : DistrState Denom) : Prop where
  settleable : Settleable st t
  accrued : CommissionAccrued st t
  taken : ∀ v, t.accumulatedCommission v =
    if v ∈ done then remainder (s.accumulatedCommission v) else s.accumulatedCommission v

theorem CommissionTaken.step {t : DistrState Denom} {done : List ValAddress} {v : ValAddress}
    (h : CommissionTaken st s done t) (hv : v ∈ st.operators) (hnew : v ∉ done) :
    CommissionTaken st s (done ++ [v]) (t.payCommission v) := by
  have hpay := h.settleable.commissionPayable h.accrued hv
  have hsplit := toDec_truncate_add_remainder (t.accumulatedCommission v)
  have hsame : ∀ w, SamePeriods w t (t.payCommission v) := fun w => ⟨rfl, rfl, fun _ => rfl, rfl⟩
  have haccrued : CommissionAccrued st (t.payCommission v) := by
    intro w hw denom
    have hle : t.accumulatedCommission w denom + (t.currentRewards w).rewards denom ≤
        t.outstandingRewards w denom := h.accrued w hw denom
    by_cases he : w = v
    · subst w
      have hdenom : toDec (truncate (t.accumulatedCommission v)) denom +
          remainder (t.accumulatedCommission v) denom = t.accumulatedCommission v denom :=
        congrFun hsplit denom
      simp only [payCommission, Function.update_self, Pi.add_apply, Pi.sub_apply]
      omega
    · simpa [payCommission, Function.update_of_ne he] using hle
  refine ⟨⟨h.settleable.started, ?_, ?_, ?_⟩, haccrued, ?_⟩
  · intro w hw
    exact (h.settleable.periods w hw).congr (hsame w)
  · intro w hw denom
    have hboth : (t.payCommission v).accumulatedCommission w denom +
        ((t.payCommission v).currentRewards w).rewards denom ≤
          (t.payCommission v).outstandingRewards w denom := haccrued w hw denom
    exact (Nat.le_add_left _ _).trans hboth
  · exact (fundsKept_payCommission hv hpay).covered h.settleable.covered
  · intro w
    by_cases he : w = v
    · subst w
      have hold : t.accumulatedCommission v = s.accumulatedCommission v := by
        rw [h.taken v, if_neg hnew]
      simp [payCommission, hold]
    · simp [payCommission, h.taken w, he]

private theorem commissionTaken_start (h : Consistent st s) : CommissionTaken st s [] s :=
  ⟨h.settleable, h.commission, fun v => by simp⟩

private theorem commissionTaken_step (hk : k.Documented) {done : List Validator} {val : Validator}
    {t t' : DistrState Denom} (hpre : (done ++ [val]) <+: st.validators.values)
    (h : CommissionTaken st s (done.map Validator.getOperator) t)
    (hstep : withdrawCommission k t val = .ok t') :
    CommissionTaken st s ((done ++ [val]).map Validator.getOperator) t' := by
  obtain ⟨_, _, ht'⟩ := (withdrawCommission_eq_ok hk).mp hstep
  subst t'
  rw [List.map_append]
  exact h.step (getOperator_mem_of_split hpre) (notMem_getOperator_of_split hpre)

/-- The first pass meets every validator with its commission still untouched. -/
theorem commission_ne_zero_of_run (hk : k.Documented) (h : Consistent st s)
    (hrun : st.validators.values.foldlM (withdrawCommission k) s = .ok s') :
    ∀ v ∈ st.operators, s.accumulatedCommission v ≠ 0 := by
  intro v hv
  obtain ⟨val, hval, he⟩ := List.mem_map.mp hv
  subst v
  obtain ⟨done, t, t', hpre, htaken, hstep⟩ := foldlM_visits
    (I := fun done t => CommissionTaken st s (done.map Validator.getOperator) t)
    (fun done w t t' hpre hI hstep => commissionTaken_step hk hpre hI hstep)
    (commissionTaken_start h) hrun hval
  have hsome := ((withdrawCommission_eq_ok hk).mp hstep).1
  rwa [htaken.taken, if_neg (notMem_getOperator_of_split hpre)] at hsome

theorem withdrawAllCommission_total (hk : k.Documented) (h : Consistent st s)
    (hsome : ∀ v ∈ st.operators, s.accumulatedCommission v ≠ 0) :
    ∃ s', st.validators.values.foldlM (withdrawCommission k) s = .ok s' ∧
      CommissionTaken st s st.operators s' := by
  refine foldlM_total
    (I := fun done t => CommissionTaken st s (done.map Validator.getOperator) t) ?_
    (commissionTaken_start h)
  intro done val t hpre htaken
  have hv := getOperator_mem_of_split hpre
  have hkeep : t.accumulatedCommission val.getOperator =
      s.accumulatedCommission val.getOperator := by
    rw [htaken.taken, if_neg (notMem_getOperator_of_split hpre)]
  have hstep : withdrawCommission k t val = .ok (t.payCommission val.getOperator) :=
    (withdrawCommission_eq_ok hk).mpr ⟨hkeep ▸ hsome _ hv,
      htaken.settleable.commissionPayable htaken.accrued hv, rfl⟩
  exact ⟨_, hstep, commissionTaken_step hk hpre htaken hstep⟩

end Commission

section Rewards

variable {d : AccAddress} {v : ValAddress} {s₁ s₂ : DistrState Denom} {val : Validator}

private theorem nextPeriod_outstanding_of_ne {w : ValAddress} (hw : w ≠ v)
    (tokens lastPeriod : ℕ) :
    (s.nextPeriod v tokens lastPeriod).outstandingRewards w = s.outstandingRewards w := by
  rw [(sameMoney_nextPeriod tokens lastPeriod).outstanding]
  split
  · exact Function.update_of_ne hw _ _
  · rfl

private theorem nextPeriod_commission (tokens lastPeriod : ℕ) :
    (s.nextPeriod v tokens lastPeriod).accumulatedCommission = s.accumulatedCommission := by
  rw [(sameMoney_nextPeriod tokens lastPeriod).commission]
  split <;> rfl

/-- Which parts of the state a reward withdrawal leaves alone. -/
structure SettledFrame (s s' : DistrState Denom) (d : AccAddress) (v : ValAddress) : Prop where
  commission : s'.accumulatedCommission = s.accumulatedCommission
  outstanding : ∀ w, w ≠ v → s'.outstandingRewards w = s.outstandingRewards w
  others : ∀ w, w ≠ v → SamePeriods w s s'
  current : (s'.currentRewards v).rewards = 0
  starting : ∃ info, s'.startingInfo = Function.update s.startingInfo (d, v) (some info)

theorem settledFrame (h : k.Settles ctx st d v s s₁ s₂ s' val) : SettledFrame s s' d v := by
  obtain ⟨last, _, _, hs₁⟩ := incrementValidatorPeriod_eq_some.mp h.increment
  obtain ⟨p, hstarting, hcurrent, _⟩ := initializeDelegation_writes h.restart
  obtain ⟨hremoved, hcurrent₂, _⟩ := removeStartingInfo_writes h.remove
  have hremove := sameMoney_removeStartingInfo h.remove
  have hrestart := sameMoney_initializeDelegation h.restart
  constructor
  · rw [hrestart.commission, hremove.commission]
    change s₁.accumulatedCommission = _
    rw [hs₁, nextPeriod_commission]
  · intro w hw
    rw [hrestart.outstanding, hremove.outstanding]
    have hpaid : (s₁.payRewards v (k.reward st s₁ d v)).outstandingRewards w =
        s₁.outstandingRewards w := Function.update_of_ne hw _ _
    rw [hpaid, hs₁, nextPeriod_outstanding_of_ne hw]
  · intro w hw
    have hfirst : SamePeriods w s s₁ := hs₁ ▸ samePeriods_nextPeriod hw val.tokens last
    have hpaid : SamePeriods w s₁ (s₁.payRewards v (k.reward st s₁ d v)) :=
      ⟨rfl, rfl, fun _ => rfl, rfl⟩
    exact ((hfirst.trans hpaid).trans (samePeriods_removeStartingInfo hw h.remove)).trans
      (samePeriods_initializeDelegation hw h.restart)
  · rw [hcurrent, hcurrent₂]
    change (s₁.currentRewards v).rewards = 0
    rw [hs₁, nextPeriod_currentRewards]
  · refine ⟨⟨p, k.delegationStake st d v, ctx.blockHeight⟩, ?_⟩
    have hfirst : (s₁.payRewards v (k.reward st s₁ d v)).startingInfo = s.startingInfo := by
      change s₁.startingInfo = _
      rw [hs₁, nextPeriod_startingInfo]
    rw [hstarting, hremoved, hfirst, Function.update_idem]

/-- A reward withdrawal runs through all its steps and keeps the reward periods. -/
theorem Settleable.settles (k : DistrKeeper Denom) (ctx : Context) (h : Settleable st s)
    (hdistinct : (st.delegations.map Delegation.pair).Nodup) {del : Delegation}
    (hdel : del ∈ st.delegations) (hv : del.validatorAddress ∈ st.operators) :
    ∃ s₁ s₂ s' val, k.Settles ctx st del.delegatorAddress del.validatorAddress s s₁ s₂ s' val ∧
      s'.PeriodsKept (delegatorsOf st.delegations del.validatorAddress) del.validatorAddress := by
  let d := del.delegatorAddress
  let v := del.validatorAddress
  let ds := delegatorsOf st.delegations v
  obtain ⟨val, hval⟩ := StakingStore.mem_operators.mp hv
  obtain ⟨info, hinfo⟩ := h.started del hdel
  have hn : ds.Nodup := nodup_delegatorsOf hdistinct v
  have hd : d ∈ ds := mem_delegatorsOf.mpr ⟨del, hdel, rfl⟩
  have hsweep : s.Sweepable v val.tokens := fun _ => h.accrued v hv
  obtain ⟨s₁, hinc, hkept₁, hfresh₁⟩ := (h.periods v hv).incrementValidatorPeriod val.tokens
  obtain ⟨last, _, _, hs₁⟩ := incrementValidatorPeriod_eq_some.mp hinc
  have hcovered₁ : Covered st s₁ :=
    (fundsKept_incrementValidatorPeriod hv hsweep hinc).covered h.covered
  have hpay : truncate (k.reward st s₁ d v) ≤ s₁.moduleBalance :=
    hcovered₁.truncate_le hv inf_le_right
  let paid := s₁.payRewards v (k.reward st s₁ d v)
  have hsame : SamePeriods v s₁ paid := ⟨rfl, rfl, fun _ => rfl, rfl⟩
  have hinfoPaid : paid.startingInfo (d, v) = some info := by
    change s₁.startingInfo (d, v) = _
    rw [hs₁, nextPeriod_startingInfo]
    exact hinfo
  obtain ⟨s₂, hremove, hkept₂, hpointers⟩ :=
    (hkept₁.congr hsame).removeStartingInfo hn hd hinfoPaid
  obtain ⟨hremoved, hcurrent₂, _⟩ := removeStartingInfo_writes hremove
  -- the removal only drops a pointer, so the period just ended is still fresh
  have hfresh₂ : s₂.Fresh ds v := by
    intro hmem
    apply hfresh₁
    rw [← hsame.pointers, hpointers, ← hsame.current, ← hcurrent₂]
    exact Multiset.mem_cons_of_mem hmem
  have hnone : s₂.startPeriod v d = none := by
    rw [startPeriod_update none hremoved]
    exact Function.update_self d _ _
  have hheld : ∀ p, heldBy ds (Function.update (s₂.startPeriod v) d (some p)) =
      p ::ₘ heldBy ds (s₂.startPeriod v) := fun p => heldBy_update_some hn hd hnone
  obtain ⟨s', hrestart, hkept⟩ :=
    hkept₂.initializeDelegation hfresh₂ hheld ctx (k.delegationStake st d v)
  exact ⟨s₁, s₂, s', val, ⟨hval, StakingStore.exists_delegation hdel, hsweep, hinc, hpay, hremove,
    hrestart⟩, hkept⟩

theorem Settleable.step (hk : k.Documented) (h : Settleable st s)
    (hdistinct : (st.delegations.map Delegation.pair).Nodup) {del : Delegation}
    (hdel : del ∈ st.delegations) (hv : del.validatorAddress ∈ st.operators) :
    ∃ s', withdrawReward k ctx st s del = .ok s' ∧ Settleable st s' ∧
      s'.accumulatedCommission = s.accumulatedCommission := by
  obtain ⟨s₁, s₂, s', val, hsettles, hkept⟩ := h.settles k ctx hdistinct hdel hv
  have hframe := settledFrame hsettles
  refine ⟨s', (withdrawReward_eq_ok hk).mpr ⟨s₁, s₂, val, hsettles⟩, ⟨?_, ?_, ?_, ?_⟩,
    hframe.commission⟩
  · intro e he
    obtain ⟨info, hstarting⟩ := hframe.starting
    rw [hstarting]
    by_cases hpair : e.pair = del.pair
    · exact ⟨info, by rw [hpair]; exact Function.update_self _ _ _⟩
    · obtain ⟨old, hold⟩ := h.started e he
      exact ⟨old, (Function.update_of_ne hpair _ _).trans hold⟩
  · intro w hw
    by_cases he : w = del.validatorAddress
    · subst w
      exact hkept
    · exact (h.periods w hw).congr (hframe.others w he)
  · intro w hw
    by_cases he : w = del.validatorAddress
    · subst w
      rw [hframe.current]
      exact fun _ => Nat.zero_le _
    · rw [(hframe.others w he).current, hframe.outstanding w he]
      exact h.accrued w hw
  · exact (fundsKept_settles hsettles).covered h.covered

theorem withdrawAllRewards_total (hk : k.Documented) (ctx : Context) (h : Settleable st s)
    (hdistinct : (st.delegations.map Delegation.pair).Nodup)
    (hknown : ∀ del ∈ st.delegations, del.validatorAddress ∈ st.operators) :
    ∃ s', st.delegations.foldlM (withdrawReward k ctx st) s = .ok s' ∧
      s'.accumulatedCommission = s.accumulatedCommission := by
  let I : List Delegation → DistrState Denom → Prop := fun _ t =>
    Settleable st t ∧ t.accumulatedCommission = s.accumulatedCommission
  have hstart : I [] s := ⟨h, rfl⟩
  have hstep : ∀ done del t, (done ++ [del]) <+: st.delegations → I done t →
      ∃ t', withdrawReward k ctx st t del = .ok t' ∧ I (done ++ [del]) t' := by
    intro done del t hpre hI
    have hdel := mem_of_split hpre
    obtain ⟨t', hok, hsettleable, hkeep⟩ := hI.1.step hk hdistinct hdel (hknown del hdel)
    exact ⟨t', hok, hsettleable, hkeep.trans hI.2⟩
  obtain ⟨s', hrun, hend⟩ := foldlM_total hstep hstart
  exact ⟨s', hrun, hend.2⟩

end Rewards

/-- The passes do not even get past the first validator after the commissions have been reset. -/
theorem operators_eq_nil_of_rerun (hk : k.Documented)
    (hzero : ∀ v ∈ st.operators, s.accumulatedCommission v = 0)
    (hrun : withdrawFees k ctx st s = .ok s') : st.operators = [] := by
  obtain ⟨s₁, hcommission, _⟩ := withdrawFees_eq_ok.mp hrun
  cases hvals : st.validators.values with
  | nil => rw [StakingStore.operators, hvals, List.map_nil]
  | cons val rest =>
      have hval : val.getOperator ∈ st.operators := by simp [StakingStore.operators, hvals]
      rw [hvals] at hcommission
      obtain ⟨t, hstep, _⟩ := foldlM_cons_eq_ok.mp hcommission
      exact absurd (hzero _ hval) ((withdrawCommission_eq_ok hk).mp hstep).1

theorem withdrawFees_of_operators_eq_nil (k : DistrKeeper Denom) (ctx : Context)
    (s : DistrState Denom) (hnil : st.operators = [])
    (hknown : ∀ del ∈ st.delegations, del.validatorAddress ∈ st.operators) :
    withdrawFees k ctx st s = .ok s := by
  have hvals : st.validators.values = [] := List.map_eq_nil_iff.mp hnil
  have hdels : st.delegations = [] := by
    apply List.eq_nil_iff_forall_not_mem.mpr
    intro del hdel
    have hv := hknown del hdel
    rw [hnil] at hv
    cases hv
  rw [withdrawFees_eq_ok, hvals, hdels]
  exact ⟨s, rfl, rfl⟩

/-- With some commission everywhere both passes complete. -/
theorem withdrawFees_total (hk : k.Documented) (ctx : Context) (h : Consistent st s)
    (hsome : ∀ v ∈ st.operators, s.accumulatedCommission v ≠ 0) :
    ∃ s', withdrawFees k ctx st s = .ok s' ∧ ∀ v ∈ st.operators,
      s'.accumulatedCommission v = remainder (s.accumulatedCommission v) := by
  obtain ⟨s₁, hcommission, htaken⟩ := withdrawAllCommission_total hk h hsome
  obtain ⟨s', hrewards, hkeep⟩ :=
    withdrawAllRewards_total hk ctx htaken.settleable h.distinct h.known
  refine ⟨s', withdrawFees_eq_ok.mpr ⟨s₁, hcommission, hrewards⟩, ?_⟩
  intro v hv
  rw [hkeep, htaken.taken v, if_pos hv]

/-- From a consistent state the withdrawal passes complete, with every commission reduced to its
remainder, exactly when no validator is without commission; after a first run they complete only
if there is no validator. -/
theorem withdrawFees_completes_iff (k : DistrKeeper Denom) (hk : k.Documented) (ctx : Context)
    (st : StakingStore) (s : DistrState Denom) (h : Consistent st s) :
    ((∃ s', withdrawFees k ctx st s = .ok s' ∧ ∀ v ∈ st.operators,
        s'.accumulatedCommission v = remainder (s.accumulatedCommission v)) ↔
      ∀ v ∈ st.operators, s.accumulatedCommission v ≠ 0) ∧
    ∀ ctx' s', handleFeeDistribution k ctx st s = .ok (ctx', s') →
      ((∃ s'', withdrawFees k ctx' st s' = .ok s'') ↔ st.operators = []) := by
  have hfirst : ∀ s', withdrawFees k ctx st s = .ok s' →
      ∀ v ∈ st.operators, s.accumulatedCommission v ≠ 0 := by
    intro s' hrun
    obtain ⟨s₁, hcommission, _⟩ := withdrawFees_eq_ok.mp hrun
    exact commission_ne_zero_of_run hk h hcommission
  refine ⟨⟨fun hrun => ?_, withdrawFees_total hk ctx h⟩, ?_⟩
  · rcases hrun with ⟨s', hrun, _⟩
    exact hfirst s' hrun
  · intro ctx' s' hrun
    obtain ⟨s₁, _, hrebuild⟩ := handleFeeDistribution_eq_ok.mp hrun
    have hzero : ∀ v ∈ st.operators, s'.accumulatedCommission v = 0 :=
      fun v hv => ((rebuildRecords_money hk hrebuild).1 v hv).2
    constructor
    · intro hagain
      rcases hagain with ⟨s'', hagain⟩
      exact operators_eq_nil_of_rerun hk hzero hagain
    · intro hnil
      exact ⟨s', withdrawFees_of_operators_eq_nil k ctx' s' hnil h.known⟩

section Samples

/-- The sample state with `c` as the commission of its validators. -/
def sampleStateWith (c : DecCoins ChainDenom) : DistrState ChainDenom :=
  { sampleState with accumulatedCommission := fun _ => c }

private theorem sampleState_periodsKept : sampleState.PeriodsKept [[7]] [1] := by
  have hrefs : sampleState.references [[7]] [1] = {0, 0} := by decide
  refine ⟨by decide, ?_, ?_⟩
  · rw [hrefs]
    intro p
    cases p with
    | zero => rfl
    | succ p => simp [sampleState]
  · rw [hrefs]
    decide

theorem sampleState_consistent {c : DecCoins ChainDenom} (hc : c ≤ sampleRewards) :
    Consistent sampleStore (sampleStateWith c) := by
  have hperiods : ∀ v ∈ sampleStore.operators,
      (sampleStateWith c).PeriodsKept (delegatorsOf sampleStore.delegations v) v := by
    intro v hv
    have he : v = [1] := by
      have hops : sampleStore.operators = [[1]] := by decide
      simpa [hops] using hv
    subst v
    have hsame : SamePeriods [1] sampleState (sampleStateWith c) :=
      ⟨rfl, rfl, fun _ => rfl, rfl⟩
    have hdelegators : delegatorsOf sampleStore.delegations [1] = [[7]] := by decide
    rw [hdelegators]
    exact sampleState_periodsKept.congr hsame
  have hstarted : ∀ del ∈ sampleStore.delegations,
      ∃ info, (sampleStateWith c).startingInfo del.pair = some info := by
    intro del hdel
    have he : del = ⟨[7], [1], 100⟩ := by simpa [sampleStore] using hdel
    subst del
    exact ⟨_, rfl⟩
  have hcovered : Covered sampleStore sampleState := by
    intro denom
    cases denom <;> decide
  refine ⟨by decide, by decide, ⟨hstarted, hperiods, ?_, hcovered⟩, ?_⟩
  · intro v _ denom
    exact Nat.zero_le _
  · intro v _
    exact hc

theorem withdrawFees_completes_iff_sample :
    ∃ s', withdrawFees sampleDistrKeeper sampleContext sampleStore
      (sampleStateWith sampleRewards) = .ok s' := by
  have hiff := (withdrawFees_completes_iff sampleDistrKeeper sampleDistrKeeper_documented
    sampleContext sampleStore (sampleStateWith sampleRewards)
    (sampleState_consistent (le_refl sampleRewards))).1
  obtain ⟨s', hrun, _⟩ := hiff.mpr (by decide)
  exact ⟨s', hrun⟩

/-- A single validator without commission stops the export from a consistent state. -/
theorem withdrawFees_panics_without_commission :
    Consistent sampleStore (sampleStateWith 0) ∧ sampleDistrKeeper.Documented ∧
      ¬ ∃ s', withdrawFees sampleDistrKeeper sampleContext sampleStore (sampleStateWith 0) =
        .ok s' := by
  have hpanic : withdrawFees sampleDistrKeeper sampleContext sampleStore (sampleStateWith 0) =
      .error (.panicError .noValidatorCommission) := rfl
  refine ⟨sampleState_consistent (by decide), sampleDistrKeeper_documented, ?_⟩
  intro h
  rcases h with ⟨s', hrun⟩
  rw [hpanic] at hrun
  cases hrun

end Samples

end Mandelbot
