import Mathlib.Algebra.BigOperators.Intervals
import Mandelbot.Export.FeeDistribution
import Mandelbot.Sdk.Reference

/-!
# Rebuilt reward periods

The reinitialization loops start from a store without historical records and slash events. Each
validator gets period `0` with one reference, and each delegation ends a period of its validator
and points at it. The loops never meet a broken reference count, in any order of the delegations.
-/

namespace Mandelbot

open DistrState

variable {Denom : Type}

variable {k : DistrKeeper Denom} {ctx : Context} {st : StakingStore} {s s' : DistrState Denom}

section Validators

/-- The store while the validators are reinitialized: those in `done` have their first period, the
others no record. -/
structure ValidatorsOpened (s₀ : DistrState Denom) (done : List ValAddress)
    (s : DistrState Denom) : Prop where
  periods : ∀ v ∈ done, s.PeriodsKept [] v
  current : ∀ v ∈ done, s.currentRewards v = ⟨0, 1⟩
  unopened : ∀ v, v ∉ done → s.historicalRewards v = fun _ => none
  starting : s.startingInfo = s₀.startingInfo
  unslashed : ∀ v, s.slashEvents v = []

private theorem pointers_nil {v : ValAddress} (h : s.slashEvents v = []) :
    s.pointers [] v = 0 := by
  rw [pointers, h]
  rfl

theorem ValidatorsOpened.step {s₀ : DistrState Denom} {done : List ValAddress} {v : ValAddress}
    (h : ValidatorsOpened s₀ done s) (hv : v ∉ done) :
    ValidatorsOpened s₀ (done ++ [v]) ((donateScraps s v).initializeValidator v) := by
  have hsame : ∀ w, w ≠ v → SamePeriods w s ((donateScraps s v).initializeValidator v) := by
    intro w hw
    have hdonate : SamePeriods w s (donateScraps s v) := ⟨rfl, rfl, fun _ => rfl, rfl⟩
    exact hdonate.trans (samePeriods_initializeValidator hw)
  constructor
  · intro w hw
    by_cases he : w = v
    · subst w
      exact periodsKept_initializeValidator (s := donateScraps s v) (h.unopened v hv)
        (pointers_nil (h.unslashed v))
    · have hdone : w ∈ done := by simpa [he] using hw
      exact (h.periods w hdone).congr (hsame w he)
  · intro w hw
    by_cases he : w = v
    · subst w
      exact Function.update_self _ _ _
    · have hdone : w ∈ done := by simpa [he] using hw
      rw [(hsame w he).current]
      exact h.current w hdone
  · intro w hw
    have hw' : w ∉ done ∧ w ≠ v := by simpa using hw
    rw [(hsame w hw'.2).historical]
    exact h.unopened w hw'.1
  · exact h.starting
  · exact h.unslashed

/-- Reinitializing the validators succeeds and opens the first period of each. -/
theorem reinitializeValidators_total (hk : k.Documented) (st : StakingStore)
    (s : DistrState Denom) :
    ∃ s', st.validators.values.foldlM (reinitializeValidator k st) (clearedRecords s) = .ok s' ∧
      ValidatorsOpened s st.operators s' := by
  let I : List Validator → DistrState Denom → Prop := fun done t =>
    ValidatorsOpened s (done.map Validator.getOperator) t
  have hstart : I [] (clearedRecords s) :=
    ⟨by simp, by simp, fun _ _ => rfl, rfl, fun _ => rfl⟩
  refine foldlM_total (I := I) ?_ hstart
  intro done val t hpre hI
  have hnew := notMem_getOperator_of_split hpre
  refine ⟨_, (reinitializeValidator_eq_ok hk (mem_of_split hpre)).mpr rfl, ?_⟩
  simp only [I, List.map_append]
  exact ValidatorsOpened.step hI hnew

end Validators

section Delegations

/-- The store while the delegations are reinitialized: those in `done` have been restarted. -/
structure DelegationsRestarted (st : StakingStore) (done : List Delegation)
    (s : DistrState Denom) : Prop where
  periods : ∀ v ∈ st.operators, s.PeriodsKept (delegatorsOf done v) v
  current : ∀ v ∈ st.operators, s.currentRewards v = ⟨0, 1 + (delegatorsOf done v).length⟩
  restarted : ∀ del ∈ done, ∃ info, s.startingInfo del.pair = some info ∧ info.height = 0
  owned : ∀ key, s.startingInfo key ≠ none → ∃ del ∈ st.delegations, del.pair = key
  unknown : ∀ v, v ∉ st.operators → s.historicalRewards v = fun _ => none
  unslashed : ∀ v, s.slashEvents v = []

theorem ValidatorsOpened.restarted {s₀ : DistrState Denom}
    (h : ValidatorsOpened s₀ st.operators s)
    (howned : ∀ key, s₀.startingInfo key ≠ none → ∃ del ∈ st.delegations, del.pair = key) :
    DelegationsRestarted st [] s := by
  refine ⟨h.periods, h.current, by simp, ?_, h.unopened, h.unslashed⟩
  intro key hkey
  rw [h.starting] at hkey
  exact howned key hkey

/-- What a reinitialized delegation leaves alone, and what it writes. -/
structure ReinitializedFrame (s s' : DistrState Denom) (del : Delegation) : Prop where
  others : ∀ w, w ≠ del.validatorAddress → SamePeriods w s s'
  current : ∃ last, (s.currentRewards del.validatorAddress).period = last + 1 ∧
    s'.currentRewards del.validatorAddress = ⟨0, last + 2⟩
  starting : ∃ info : DelegatorStartingInfo, info.height = 0 ∧
    s'.startingInfo = Function.update s.startingInfo del.pair (some info)
  slashEvents : s'.slashEvents = s.slashEvents

private theorem reinitializedFrame {del : Delegation} {s₁ : DistrState Denom} {tokens stake : ℕ}
    (hinc : s.incrementValidatorPeriod del.validatorAddress tokens = some s₁)
    (hinit : s₁.initializeDelegation del.delegatorAddress del.validatorAddress
      (ctx.withBlockHeight 0) stake = some s') : ReinitializedFrame s s' del := by
  obtain ⟨p, hstarting, hcurrent, hslash⟩ := initializeDelegation_writes hinit
  obtain ⟨last, hlast, _, hs₁⟩ := incrementValidatorPeriod_eq_some.mp hinc
  constructor
  · intro w hw
    have hfirst : SamePeriods w s s₁ := hs₁ ▸ samePeriods_nextPeriod hw tokens last
    exact hfirst.trans (samePeriods_initializeDelegation hw hinit)
  · refine ⟨last, hlast, ?_⟩
    rw [hcurrent, hs₁, nextPeriod_currentRewards]
  · refine ⟨⟨p, stake, 0⟩, rfl, ?_⟩
    rw [hstarting, hs₁, nextPeriod_startingInfo]
    rfl
  · rw [hslash, hs₁, nextPeriod_slashEvents]

/-- The hooks of a delegation run through and keep the periods of its validator. -/
private theorem reinitializeDelegation_total (ctx : Context) (hk : k.Documented)
    {done : List Delegation} {del : Delegation} (h : DelegationsRestarted st done s) (hdel : del ∈ st.delegations)
    (hknown : del.validatorAddress ∈ st.operators) (hnew : del.pair ∉ done.map Delegation.pair) :
    ∃ s', reinitializeDelegation k (ctx.withBlockHeight 0) st s del = .ok s' ∧
      s'.PeriodsKept (delegatorsOf (done ++ [del]) del.validatorAddress) del.validatorAddress ∧
      ReinitializedFrame s s' del := by
  let d := del.delegatorAddress
  let v := del.validatorAddress
  obtain ⟨val, hval⟩ := StakingStore.mem_operators.mp hknown
  obtain ⟨s₁, hinc, hkept₁, hfresh⟩ := (h.periods v hknown).incrementValidatorPeriod val.tokens
  have hd : d ∉ delegatorsOf done v := by
    intro hmem
    obtain ⟨e, he, hpair⟩ := mem_delegatorsOf.mp hmem
    have hmap := List.mem_map_of_mem (f := Delegation.pair) he
    rw [hpair] at hmap
    exact hnew hmap
  have hheld : ∀ p, heldBy (delegatorsOf done v ++ [d])
      (Function.update (s₁.startPeriod v) d (some p)) =
        p ::ₘ heldBy (delegatorsOf done v) (s₁.startPeriod v) :=
    fun p => heldBy_concat_update hd
  obtain ⟨s', hinit, hkept⟩ := hkept₁.initializeDelegation hfresh hheld (ctx.withBlockHeight 0)
    (k.delegationStake st d v)
  have hsweep : s.Sweepable v val.tokens := by
    intro _
    rw [h.current v hknown]
    exact fun _ => Nat.zero_le _
  refine ⟨s', ?_, ?_, reinitializedFrame hinc hinit⟩
  · exact (reinitializeDelegation_eq_ok hk hdel).mpr ⟨val, s₁, hval, hsweep, hinc, hinit⟩
  · rw [delegatorsOf_concat_self]
    exact hkept

/-- One delegation ends a period of its validator and points at it. -/
theorem DelegationsRestarted.step (hk : k.Documented) {done : List Delegation} {del : Delegation}
    (h : DelegationsRestarted st done s) (hdel : del ∈ st.delegations)
    (hknown : del.validatorAddress ∈ st.operators) (hnew : del.pair ∉ done.map Delegation.pair) :
    ∃ s', reinitializeDelegation k (ctx.withBlockHeight 0) st s del = .ok s' ∧
      DelegationsRestarted st (done ++ [del]) s' := by
  obtain ⟨s', hrun, hkept, hframe⟩ :=
    reinitializeDelegation_total ctx hk h hdel hknown hnew
  obtain ⟨info, hheight, hstarting⟩ := hframe.starting
  have hother : ∀ key, key ≠ del.pair → s'.startingInfo key = s.startingInfo key := by
    intro key hkey
    rw [hstarting]
    exact Function.update_of_ne hkey _ _
  refine ⟨s', hrun, ?_, ?_, ?_, ?_, ?_, ?_⟩
  · intro w hw
    by_cases he : w = del.validatorAddress
    · subst w
      exact hkept
    · rw [delegatorsOf_concat_of_ne done he]
      exact (h.periods w hw).congr (hframe.others w he)
  · intro w hw
    by_cases he : w = del.validatorAddress
    · subst w
      obtain ⟨last, hlast, hcurrent⟩ := hframe.current
      rw [h.current _ hknown] at hlast
      change 1 + (delegatorsOf done del.validatorAddress).length = last + 1 at hlast
      rw [hcurrent, delegatorsOf_concat_self, List.length_append, List.length_singleton]
      congr 1
      omega
    · rw [delegatorsOf_concat_of_ne done he, (hframe.others w he).current]
      exact h.current w hw
  · intro e he
    by_cases hpair : e.pair = del.pair
    · rw [hpair, hstarting]
      exact ⟨info, Function.update_self _ _ _, hheight⟩
    · have hdone : e ∈ done := by
        rcases List.mem_append.mp he with hmem | hmem
        · exact hmem
        · exact absurd (congrArg Delegation.pair (List.mem_singleton.mp hmem)) hpair
      rw [hother e.pair hpair]
      exact h.restarted e hdone
  · intro key hkey
    by_cases hpair : key = del.pair
    · exact ⟨del, hdel, hpair.symm⟩
    · rw [hother key hpair] at hkey
      exact h.owned key hkey
  · intro w hw
    have hne : w ≠ del.validatorAddress := fun he => hw (he ▸ hknown)
    rw [(hframe.others w hne).historical]
    exact h.unknown w hw
  · intro w
    rw [hframe.slashEvents]
    exact h.unslashed w

theorem reinitializeDelegations_total (hk : k.Documented) (ctx : Context)
    (hdistinct : (st.delegations.map Delegation.pair).Nodup)
    (hknown : ∀ del ∈ st.delegations, del.validatorAddress ∈ st.operators)
    (h : DelegationsRestarted st [] s) :
    ∃ s', st.delegations.foldlM (reinitializeDelegation k (ctx.withBlockHeight 0) st) s = .ok s' ∧
      DelegationsRestarted st st.delegations s' := by
  refine foldlM_total ?_ h
  intro done del t hpre hI
  have hdel := mem_of_split hpre
  have hpairs := hpre.map Delegation.pair
  rw [List.map_append] at hpairs
  exact hI.step hk hdel (hknown del hdel) (notMem_of_split hdistinct hpairs)

/-- The number of starting infos that point at period `p` of `v`. -/
def startingInfosAt (st : StakingStore) (s : DistrState Denom) (v : ValAddress) (p : ℕ) : ℕ :=
  st.delegations.countP fun del =>
    del.validatorAddress = v ∧ s.startPeriod v del.delegatorAddress = some p

/-- The consistent reward-period bookkeeping of a chain that starts over. -/
structure RecordsRebuilt (st : StakingStore) (s : DistrState Denom) : Prop where
  period : ∀ v ∈ st.operators,
    (s.currentRewards v).period = 1 + (delegatorsOf st.delegations v).length
  restarted : ∀ del ∈ st.delegations, ∃ info, s.startingInfo del.pair = some info ∧
    info.height = 0 ∧ s.historicalRewards del.validatorAddress info.previousPeriod ≠ none
  owned : ∀ key, s.startingInfo key ≠ none → ∃ del ∈ st.delegations, del.pair = key
  counted : ∀ v ∈ st.operators, ∀ p, (s.getHistoricalRewards v p).referenceCount =
    startingInfosAt st s v p + if p + 1 = (s.currentRewards v).period then 1 else 0
  recorded : ∀ v p, s.historicalRewards v p ≠ none ↔ v ∈ st.operators ∧
    p < (s.currentRewards v).period ∧
    (0 < startingInfosAt st s v p ∨ p + 1 = (s.currentRewards v).period)
  unslashed : ∀ v, s.slashEvents v = []
  sum : (total st.operators fun v => ∑ p ∈ Finset.range (s.currentRewards v).period,
    (s.getHistoricalRewards v p).referenceCount) = st.operators.length + st.delegations.length

section Rebuilt

variable {v : ValAddress}

private theorem count_references (h : DelegationsRestarted st st.delegations s)
    (hv : v ∈ st.operators) (p : ℕ) :
    (s.references (delegatorsOf st.delegations v) v).count p =
      startingInfosAt st s v p + if p + 1 = (s.currentRewards v).period then 1 else 0 := by
  have hopened := (h.periods v hv).opened
  have hheld : (s.pointers (delegatorsOf st.delegations v) v).count p =
      startingInfosAt st s v p := by
    rw [pointers, h.unslashed v, Multiset.count_add, count_heldBy, startingInfosAt, delegatorsOf,
      List.countP_map, List.countP_filter]
    simp [Bool.and_comm]
  rw [references, Multiset.count_cons, hheld]
  congr 1
  split <;> split <;> omega

private theorem mem_references (h : DelegationsRestarted st st.delegations s)
    (hv : v ∈ st.operators) (p : ℕ) :
    p ∈ s.references (delegatorsOf st.delegations v) v ↔
      0 < startingInfosAt st s v p ∨ p + 1 = (s.currentRewards v).period := by
  rw [← Multiset.count_pos, count_references h hv]
  split <;> omega

private theorem recorded_iff (h : DelegationsRestarted st st.delegations s) (v : ValAddress)
    (p : ℕ) : s.historicalRewards v p ≠ none ↔ v ∈ st.operators ∧
      p < (s.currentRewards v).period ∧
      (0 < startingInfosAt st s v p ∨ p + 1 = (s.currentRewards v).period) := by
  by_cases hv : v ∈ st.operators
  · have hkept := h.periods v hv
    rw [← mem_references h hv p]
    constructor
    · intro hsome
      obtain ⟨record, hrecord⟩ := Option.ne_none_iff_exists'.mp hsome
      have hmem := hkept.tally.mem_of_some hrecord
      exact ⟨hv, hkept.past p hmem, hmem⟩
    · intro hmem
      obtain ⟨record, hrecord, _⟩ := hkept.tally.exists_of_mem hmem.2.2
      rw [hrecord]
      exact Option.some_ne_none record
  · simp [h.unknown v hv, hv]

private theorem restarted_recorded (h : DelegationsRestarted st st.delegations s)
    (hknown : ∀ del ∈ st.delegations, del.validatorAddress ∈ st.operators) {del : Delegation}
    (hdel : del ∈ st.delegations) : ∃ info, s.startingInfo del.pair = some info ∧
      info.height = 0 ∧ s.historicalRewards del.validatorAddress info.previousPeriod ≠ none := by
  have hv := hknown del hdel
  obtain ⟨info, hinfo, hheight⟩ := h.restarted del hdel
  have hstart : s.startPeriod del.validatorAddress del.delegatorAddress =
      some info.previousPeriod := by
    change (s.startingInfo del.pair).map _ = _
    rw [hinfo]
    rfl
  have hcount : 0 < startingInfosAt st s del.validatorAddress info.previousPeriod :=
    List.countP_pos_iff.mpr ⟨del, hdel, by simp [hstart]⟩
  have hmem := (mem_references h hv info.previousPeriod).mpr (.inl hcount)
  have hpast := (h.periods _ hv).past _ hmem
  exact ⟨info, hinfo, hheight, (recorded_iff h _ _).mpr ⟨hv, hpast, .inl hcount⟩⟩

/-- A validator's counts add up to its delegations and its latest completed period. -/
private theorem sum_referenceCount (h : DelegationsRestarted st st.delegations s)
    (hv : v ∈ st.operators) :
    ∑ p ∈ Finset.range (s.currentRewards v).period, (s.getHistoricalRewards v p).referenceCount =
      (delegatorsOf st.delegations v).length + 1 := by
  have hkept := h.periods v hv
  have hheld : ∀ d ∈ delegatorsOf st.delegations v, ∃ p, s.startPeriod v d = some p := by
    intro d hd
    obtain ⟨del, hdel, hpair⟩ := mem_delegatorsOf.mp hd
    obtain ⟨info, hinfo, _⟩ := h.restarted del hdel
    rw [hpair] at hinfo
    exact ⟨info.previousPeriod, by rw [startPeriod, hinfo]; rfl⟩
  have hcard : (s.references (delegatorsOf st.delegations v) v).card =
      (delegatorsOf st.delegations v).length + 1 := by
    rw [references, pointers, h.unslashed v, Multiset.card_cons, Multiset.card_add,
      card_heldBy hheld]
    rfl
  calc
    _ = ∑ p ∈ Finset.range (s.currentRewards v).period,
          (s.references (delegatorsOf st.delegations v) v).count p :=
      Finset.sum_congr rfl fun p _ => hkept.count_eq p
    _ = (s.references (delegatorsOf st.delegations v) v).card :=
      Multiset.sum_count_eq_card fun p hp => Finset.mem_range.mpr (hkept.past p hp)
    _ = _ := hcard

private theorem total_add_one (ops : List ValAddress) (f : ValAddress → ℕ) :
    (total ops fun v => f v + 1) = ops.length + total ops f := by
  induction ops with
  | nil => rfl
  | cons v vs ih =>
      simp only [total, List.map_cons, List.sum_cons, List.length_cons] at ih ⊢
      omega

theorem DelegationsRestarted.recordsRebuilt (h : DelegationsRestarted st st.delegations s)
    (hknown : ∀ del ∈ st.delegations, del.validatorAddress ∈ st.operators) :
    RecordsRebuilt st s := by
  constructor
  · intro v hv
    rw [h.current v hv]
  · intro del hdel
    exact restarted_recorded h hknown hdel
  · exact h.owned
  · intro v hv p
    rw [(h.periods v hv).count_eq p, count_references h hv]
  · exact recorded_iff h
  · exact h.unslashed
  · rw [total_congr fun v hv => sum_referenceCount h hv, total_add_one,
      total_delegatorsOf st.nodup_operators st.delegations hknown]

end Rebuilt

/-- The rebuild restarts every delegation, whatever the records of the old chain were. -/
theorem rebuildRecords_total (hk : k.Documented) (ctx : Context)
    (hdistinct : (st.delegations.map Delegation.pair).Nodup)
    (hknown : ∀ del ∈ st.delegations, del.validatorAddress ∈ st.operators)
    (howned : ∀ key, s.startingInfo key ≠ none → ∃ del ∈ st.delegations, del.pair = key) :
    ∃ s', rebuildRecords k ctx st s = .ok (ctx, s') ∧
      DelegationsRestarted st st.delegations s' := by
  obtain ⟨s₁, hvals, hopened⟩ := reinitializeValidators_total hk st s
  obtain ⟨s', hdels, hrestarted⟩ := reinitializeDelegations_total hk ctx hdistinct hknown
    (hopened.restarted howned)
  exact ⟨s', (rebuildRecords_eq_ok hk).mpr ⟨rfl, s₁, hvals, hdels⟩, hrestarted⟩

/-- Whatever the records of the old chain were, the rebuild succeeds and leaves consistent
bookkeeping: one period per delegation of a validator, every delegation at height zero, and every
record counted by what points at it. -/
theorem rebuildRecords_consistent (k : DistrKeeper Denom) (hk : k.Documented) (ctx : Context)
    (st : StakingStore) (s : DistrState Denom)
    (hdistinct : (st.delegations.map Delegation.pair).Nodup)
    (hknown : ∀ del ∈ st.delegations, del.validatorAddress ∈ st.operators)
    (howned : ∀ key, s.startingInfo key ≠ none → ∃ del ∈ st.delegations, del.pair = key) :
    ∃ s', rebuildRecords k ctx st s = .ok (ctx, s') ∧ RecordsRebuilt st s' := by
  obtain ⟨s', hrun, hrestarted⟩ := rebuildRecords_total hk ctx hdistinct hknown howned
  exact ⟨s', hrun, hrestarted.recordsRebuilt hknown⟩

theorem sampleState_owned : ∀ key, sampleState.startingInfo key ≠ none →
    ∃ del ∈ sampleStore.delegations, del.pair = key := by
  intro key hkey
  have hpair : key = ([7], [1]) := by
    by_contra hne
    exact hkey (if_neg hne)
  exact ⟨⟨[7], [1], 100⟩, by decide, hpair.symm⟩

theorem rebuildRecords_consistent_sample :
    ∃ s', rebuildRecords sampleDistrKeeper sampleContext sampleStore sampleState =
      .ok (sampleContext, s') ∧ RecordsRebuilt sampleStore s' :=
  rebuildRecords_consistent sampleDistrKeeper sampleDistrKeeper_documented sampleContext
    sampleStore sampleState (by decide) (by decide) sampleState_owned

end Delegations

end Mandelbot
