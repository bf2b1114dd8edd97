import Mandelbot.Library.RefCount
import Mandelbot.Sdk.Distribution

/-!
# Reward periods of a validator

The historical records of a validator tally with the references to them: its latest completed
period, the starting infos of its delegators, and its slash events. Each bookkeeping effect
succeeds on a state that tallies and keeps the tally; effects on one validator leave the records
of the others alone.
-/

namespace Mandelbot

namespace DistrState

variable {Denom : Type} {s s' s₁ s₂ : DistrState Denom} {d : AccAddress} {v w : ValAddress}
  {period : ℕ}

theorem incrementReferenceCount_eq_some :
    s.incrementReferenceCount v period = some s' ↔
      (s.getHistoricalRewards v period).referenceCount ≤ 2 ∧
        s' = s.setHistoricalRewards v period (some { s.getHistoricalRewards v period with
          referenceCount := (s.getHistoricalRewards v period).referenceCount + 1 }) := by
  simp only [incrementReferenceCount]
  split
  · rename_i hlarge
    simp only [reduceCtorEq, false_iff, not_and]
    intro hsmall
    omega
  · rename_i hsmall
    rw [Option.some.injEq, eq_comm]
    exact ⟨fun h => ⟨by omega, h⟩, fun h => h.2⟩

/-- What is left of a record that loses a reference. -/
def released (h : HistoricalRewards Denom) : Option (HistoricalRewards Denom) :=
  if h.referenceCount - 1 = 0 then none else some { h with referenceCount := h.referenceCount - 1 }

theorem decrementReferenceCount_eq_some :
    s.decrementReferenceCount v period = some s' ↔
      (s.getHistoricalRewards v period).referenceCount ≠ 0 ∧
        s' = s.setHistoricalRewards v period (released (s.getHistoricalRewards v period)) := by
  simp only [decrementReferenceCount, released]
  split
  · rename_i hzero
    simp [hzero]
  · rename_i hpos
    rw [Option.some.injEq, eq_comm]
    exact ⟨fun h => ⟨hpos, h⟩, fun h => h.2⟩

/-- The state after the period that follows `lastPeriod` has been ended. -/
def nextPeriod (s : DistrState Denom) (v : ValAddress) (tokens lastPeriod : ℕ) :
    DistrState Denom :=
  let ratio := if tokens = 0 then 0 else fun denom => (s.currentRewards v).rewards denom / tokens
  let historical := (s.getHistoricalRewards v lastPeriod).cumulativeRewardRatio
  let swept := if tokens = 0 then s.sweepCurrentRewards v else s
  let s := (swept.setHistoricalRewards v lastPeriod
    (released (s.getHistoricalRewards v lastPeriod))).setHistoricalRewards v (lastPeriod + 1)
      (some ⟨historical + ratio, 1⟩)
  { s with currentRewards := Function.update s.currentRewards v ⟨0, lastPeriod + 2⟩ }

theorem incrementValidatorPeriod_eq_some {tokens : ℕ} :
    s.incrementValidatorPeriod v tokens = some s' ↔
      ∃ lastPeriod, (s.currentRewards v).period = lastPeriod + 1 ∧
        (s.getHistoricalRewards v lastPeriod).referenceCount ≠ 0 ∧
        s' = s.nextPeriod v tokens lastPeriod := by
  have hsweep : ∀ p, (if tokens = 0 then s.sweepCurrentRewards v else s).getHistoricalRewards v p =
      s.getHistoricalRewards v p := by
    intro p
    split <;> rfl
  rw [incrementValidatorPeriod]
  split
  · rename_i hperiod
    simp [hperiod]
  · rename_i lastPeriod hperiod
    simp only [Option.bind_eq_bind, Option.bind_eq_some_iff, decrementReferenceCount_eq_some,
      Option.pure_def, Option.some.injEq, hsweep]
    constructor
    · rintro ⟨s₁, ⟨hcount, rfl⟩, rfl⟩
      exact ⟨lastPeriod, hperiod, hcount, rfl⟩
    · rintro ⟨last, hlast, hcount, rfl⟩
      have he : last = lastPeriod := by omega
      subst last
      exact ⟨_, ⟨hcount, rfl⟩, rfl⟩

theorem initializeDelegation_eq_some {ctx : Context} {stake : ℕ} :
    s.initializeDelegation d v ctx stake = some s' ↔
      ∃ lastPeriod s₁, (s.currentRewards v).period = lastPeriod + 1 ∧
        s.incrementReferenceCount v lastPeriod = some s₁ ∧
        s' = { s₁ with
          startingInfo := Function.update s₁.startingInfo (d, v)
            (some ⟨lastPeriod, stake, ctx.blockHeight⟩) } := by
  rw [initializeDelegation]
  split
  · rename_i hperiod
    simp [hperiod]
  · rename_i lastPeriod hperiod
    simp only [Option.bind_eq_bind, Option.bind_eq_some_iff, Option.pure_def, Option.some.injEq]
    constructor
    · rintro ⟨s₁, hinc, rfl⟩
      exact ⟨lastPeriod, s₁, hperiod, hinc, rfl⟩
    · rintro ⟨last, s₁, hlast, hinc, rfl⟩
      have he : last = lastPeriod := by omega
      subst last
      exact ⟨s₁, hinc, rfl⟩

/-- What the restart of a delegation writes beside the historical records. -/
theorem initializeDelegation_writes {ctx : Context} {stake : ℕ}
    (h : s.initializeDelegation d v ctx stake = some s') :
    ∃ p, s'.startingInfo =
        Function.update s.startingInfo (d, v) (some ⟨p, stake, ctx.blockHeight⟩) ∧
      s'.currentRewards = s.currentRewards ∧ s'.slashEvents = s.slashEvents := by
  obtain ⟨last, s₁, _, hinc, hs'⟩ := initializeDelegation_eq_some.mp h
  have hs₁ := (incrementReferenceCount_eq_some.mp hinc).2
  subst s₁
  subst s'
  exact ⟨last, rfl, rfl, rfl⟩

theorem removeStartingInfo_eq_some :
    s.removeStartingInfo d v = some s' ↔
      ∃ info s₁, s.startingInfo (d, v) = some info ∧
        s.decrementReferenceCount v info.previousPeriod = some s₁ ∧
        s' = { s₁ with startingInfo := Function.update s₁.startingInfo (d, v) none } := by
  simp only [removeStartingInfo, Option.bind_eq_bind, Option.bind_eq_some_iff, Option.pure_def,
    Option.some.injEq]
  constructor
  · rintro ⟨info, hinfo, s₁, hdec, rfl⟩
    exact ⟨info, s₁, hinfo, hdec, rfl⟩
  · rintro ⟨info, s₁, hinfo, hdec, rfl⟩
    exact ⟨info, hinfo, s₁, hdec, rfl⟩

/-- What the removal of a starting info writes beside the historical records. -/
theorem removeStartingInfo_writes (h : s.removeStartingInfo d v = some s') :
    s'.startingInfo = Function.update s.startingInfo (d, v) none ∧
      s'.currentRewards = s.currentRewards ∧ s'.slashEvents = s.slashEvents := by
  obtain ⟨info, s₁, _, hdec, hs'⟩ := removeStartingInfo_eq_some.mp h
  have hs₁ := (decrementReferenceCount_eq_some.mp hdec).2
  subst s₁
  subst s'
  exact ⟨rfl, rfl, rfl⟩

section Tally

/-- The period that the starting info of a delegator points at. -/
def startPeriod (s : DistrState Denom) (v : ValAddress) (d : AccAddress) : Option ℕ :=
  (s.startingInfo (d, v)).map DelegatorStartingInfo.previousPeriod

/-- The references of starting infos and slash events. -/
def pointers (s : DistrState Denom) (ds : List AccAddress) (v : ValAddress) : Multiset ℕ :=
  heldBy ds (s.startPeriod v) + ((s.slashEvents v).map SlashEvent.validatorPeriod : List ℕ)

/-- All references to the records of a validator: the latest completed period and the pointers. -/
def references (s : DistrState Denom) (ds : List AccAddress) (v : ValAddress) : Multiset ℕ :=
  ((s.currentRewards v).period - 1) ::ₘ s.pointers ds v

/-- The reward periods of `v` are consistent; `ds` are its delegators. -/
structure PeriodsKept (s : DistrState Denom) (ds : List AccAddress) (v : ValAddress) : Prop where
  opened : (s.currentRewards v).period ≠ 0
  tally : Tallies HistoricalRewards.referenceCount (s.historicalRewards v) (s.references ds v)
  past : ∀ p ∈ s.references ds v, p < (s.currentRewards v).period

variable {ds : List AccAddress}

theorem PeriodsKept.count_eq (h : s.PeriodsKept ds v) (p : ℕ) :
    (s.getHistoricalRewards v p).referenceCount = (s.references ds v).count p := by
  by_cases hp : p ∈ s.references ds v
  · obtain ⟨r, hr, hcount⟩ := h.tally.exists_of_mem hp
    rw [getHistoricalRewards, hr, Option.getD_some, hcount]
  · rw [getHistoricalRewards, h.tally.eq_none_of_notMem hp, Option.getD_none,
      Multiset.count_eq_zero.mpr hp]

/-- A record that is referenced loses one reference. -/
theorem PeriodsKept.tally_released (h : s.PeriodsKept ds v) (p : ℕ) :
    Tallies HistoricalRewards.referenceCount
      (Function.update (s.historicalRewards v) p (released (s.getHistoricalRewards v p)))
      ((s.references ds v).erase p) := by
  apply h.tally.release
  rw [released, h.count_eq p]
  split
  · rfl
  · rfl

/-- Nothing but the latest completed period itself refers to it. -/
def Fresh (s : DistrState Denom) (ds : List AccAddress) (v : ValAddress) : Prop :=
  (s.currentRewards v).period - 1 ∉ s.pointers ds v

/-- The bookkeeping of `w` is the same in both states. -/
structure SamePeriods (w : ValAddress) (s s' : DistrState Denom) : Prop where
  historical : s'.historicalRewards w = s.historicalRewards w
  current : s'.currentRewards w = s.currentRewards w
  starting : ∀ d, s'.startingInfo (d, w) = s.startingInfo (d, w)
  slash : s'.slashEvents w = s.slashEvents w

theorem SamePeriods.trans (h₁ : SamePeriods w s s₁) (h₂ : SamePeriods w s₁ s₂) :
    SamePeriods w s s₂ :=
  ⟨h₂.historical.trans h₁.historical, h₂.current.trans h₁.current,
    fun d => (h₂.starting d).trans (h₁.starting d), h₂.slash.trans h₁.slash⟩

theorem SamePeriods.pointers (h : SamePeriods w s s') : s'.pointers ds w = s.pointers ds w := by
  have hstart : s'.startPeriod w = s.startPeriod w := by
    funext d
    rw [startPeriod, startPeriod, h.starting d]
  rw [DistrState.pointers, DistrState.pointers, hstart, h.slash]

theorem SamePeriods.references (h : SamePeriods w s s') :
    s'.references ds w = s.references ds w := by
  rw [DistrState.references, DistrState.references, h.current, h.pointers]

theorem PeriodsKept.congr (h : SamePeriods w s s') (hkept : s.PeriodsKept ds w) :
    s'.PeriodsKept ds w := by
  constructor
  · rw [h.current]
    exact hkept.opened
  · rw [h.historical, h.references]
    exact hkept.tally
  · rw [h.current, h.references]
    exact hkept.past

theorem samePeriods_nextPeriod (hw : w ≠ v) (tokens lastPeriod : ℕ) :
    SamePeriods w s (s.nextPeriod v tokens lastPeriod) := by
  constructor <;> simp only [nextPeriod, setHistoricalRewards, sweepCurrentRewards] <;>
    split <;> simp [Function.update_of_ne hw]

theorem nextPeriod_startingInfo (tokens lastPeriod : ℕ) :
    (s.nextPeriod v tokens lastPeriod).startingInfo = s.startingInfo := by
  simp only [nextPeriod, setHistoricalRewards, sweepCurrentRewards]
  split <;> rfl

theorem nextPeriod_slashEvents (tokens lastPeriod : ℕ) :
    (s.nextPeriod v tokens lastPeriod).slashEvents = s.slashEvents := by
  simp only [nextPeriod, setHistoricalRewards, sweepCurrentRewards]
  split <;> rfl

theorem nextPeriod_currentRewards (tokens lastPeriod : ℕ) :
    (s.nextPeriod v tokens lastPeriod).currentRewards v = ⟨0, lastPeriod + 2⟩ := by
  simp [nextPeriod]

private theorem nextPeriod_historicalRewards (tokens lastPeriod : ℕ) :
    ∃ record : HistoricalRewards Denom, record.referenceCount = 1 ∧
      (s.nextPeriod v tokens lastPeriod).historicalRewards v =
        Function.update (Function.update (s.historicalRewards v) lastPeriod
          (released (s.getHistoricalRewards v lastPeriod))) (lastPeriod + 1) (some record) := by
  let ratio : DecCoins Denom :=
    if tokens = 0 then 0 else fun denom => (s.currentRewards v).rewards denom / tokens
  refine ⟨⟨(s.getHistoricalRewards v lastPeriod).cumulativeRewardRatio + ratio, 1⟩, rfl, ?_⟩
  by_cases htokens : tokens = 0 <;>
    simp [nextPeriod, setHistoricalRewards, sweepCurrentRewards, ratio, htokens]

private theorem nextPeriod_pointers (tokens lastPeriod : ℕ) :
    (s.nextPeriod v tokens lastPeriod).pointers ds v = s.pointers ds v := by
  have hstart : (s.nextPeriod v tokens lastPeriod).startPeriod v = s.startPeriod v := by
    funext d
    rw [startPeriod, startPeriod, nextPeriod_startingInfo]
  rw [pointers, pointers, hstart, nextPeriod_slashEvents]

/-- Ending a period succeeds, keeps the tally and leaves nothing pointing at the ended period. -/
theorem PeriodsKept.incrementValidatorPeriod (h : s.PeriodsKept ds v) (tokens : ℕ) :
    ∃ s', s.incrementValidatorPeriod v tokens = some s' ∧ s'.PeriodsKept ds v ∧
      s'.Fresh ds v := by
  obtain ⟨last, hlast⟩ := Nat.exists_eq_succ_of_ne_zero h.opened
  have hmem : last ∈ s.references ds v := by simp [references, hlast]
  have hcount : (s.getHistoricalRewards v last).referenceCount ≠ 0 := by
    rw [h.count_eq last]
    exact (Multiset.count_pos.mpr hmem).ne'
  let s' := s.nextPeriod v tokens last
  have hperiod : (s'.currentRewards v).period = last + 2 := by
    rw [nextPeriod_currentRewards]
  have hpointers : s'.pointers ds v = s.pointers ds v := nextPeriod_pointers tokens last
  have hpast : ∀ p ∈ s.pointers ds v, p < last + 1 := by
    intro p hp
    have hlt := h.past p (Multiset.mem_cons_of_mem hp)
    omega
  have hnew : last + 1 ∉ s.pointers ds v := fun hp => Nat.lt_irrefl _ (hpast _ hp)
  have herase : (s.references ds v).erase last = s.pointers ds v := by
    rw [references, hlast]
    exact Multiset.erase_cons_head last _
  have hrefs : s'.references ds v = (last + 1) ::ₘ s.pointers ds v := by
    rw [references, hperiod, hpointers]
    rfl
  refine ⟨s', incrementValidatorPeriod_eq_some.mpr ⟨last, hlast, hcount, rfl⟩, ⟨?_, ?_, ?_⟩, ?_⟩
  · rw [hperiod]
    exact Nat.succ_ne_zero _
  · obtain ⟨record, hone, hrecords⟩ := nextPeriod_historicalRewards (s := s) (v := v) tokens last
    have hreleased := h.tally_released last
    rw [herase] at hreleased
    rw [hrecords, hrefs]
    exact hreleased.create hnew hone
  · intro p hp
    rw [hrefs] at hp
    rw [hperiod]
    rcases Multiset.mem_cons.mp hp with rfl | hp
    · omega
    · have hlt := hpast p hp
      omega
  · rw [Fresh, hperiod, hpointers]
    exact hnew

theorem startPeriod_update (info : Option DelegatorStartingInfo)
    (hinfo : s'.startingInfo = Function.update s.startingInfo (d, v) info) :
    s'.startPeriod v = Function.update (s.startPeriod v) d
      (info.map DelegatorStartingInfo.previousPeriod) := by
  funext e
  by_cases he : e = d
  · subst e
    simp [startPeriod, hinfo]
  · have hne : (e, v) ≠ (d, v) := fun h => he (Prod.mk.inj h).1
    simp [startPeriod, hinfo, Function.update_of_ne hne, Function.update_of_ne he]

/-- Dropping a starting info succeeds, keeps the tally and removes one pointer. -/
theorem PeriodsKept.removeStartingInfo (h : s.PeriodsKept ds v) (hn : ds.Nodup) (hd : d ∈ ds)
    {info : DelegatorStartingInfo} (hinfo : s.startingInfo (d, v) = some info) :
    ∃ s', s.removeStartingInfo d v = some s' ∧ s'.PeriodsKept ds v ∧
      s.pointers ds v = info.previousPeriod ::ₘ s'.pointers ds v := by
  let p := info.previousPeriod
  let s₁ := s.setHistoricalRewards v p (released (s.getHistoricalRewards v p))
  let s' : DistrState Denom :=
    { s₁ with startingInfo := Function.update s₁.startingInfo (d, v) none }
  have hstart : s.startPeriod v d = some p := by
    rw [startPeriod, hinfo]
    rfl
  have hpointers : s.pointers ds v = p ::ₘ s'.pointers ds v := by
    have hheld := heldBy_update_none hn hd hstart
    have hs' : s'.startPeriod v = Function.update (s.startPeriod v) d none :=
      startPeriod_update none rfl
    rw [pointers, pointers, hheld, Multiset.cons_add, hs']
    rfl
  have hmem : p ∈ s.references ds v := by simp [references, hpointers]
  have hcount : (s.getHistoricalRewards v p).referenceCount ≠ 0 := by
    rw [h.count_eq p]
    exact (Multiset.count_pos.mpr hmem).ne'
  have hrefs : s'.references ds v = (s.references ds v).erase p := by
    rw [references, references, hpointers, Multiset.cons_swap, Multiset.erase_cons_head]
    rfl
  refine ⟨s', removeStartingInfo_eq_some.mpr ⟨info, s₁, hinfo,
    decrementReferenceCount_eq_some.mpr ⟨hcount, rfl⟩, rfl⟩, ⟨h.opened, ?_, ?_⟩, hpointers⟩
  · have hrecords : s'.historicalRewards v =
        Function.update (s.historicalRewards v) p (released (s.getHistoricalRewards v p)) :=
      Function.update_self v _ _
    rw [hrefs, hrecords]
    exact h.tally_released p
  · intro q hq
    rw [hrefs] at hq
    exact h.past q (Multiset.mem_of_mem_erase hq)

/-- Pointing a delegation at a fresh last period succeeds and keeps the tally; `hheld` says that
the delegators hold one more pointer for it. -/
theorem PeriodsKept.initializeDelegation {ds' : List AccAddress} (h : s.PeriodsKept ds v)
    (hfresh : s.Fresh ds v)
    (hheld : ∀ p, heldBy ds' (Function.update (s.startPeriod v) d (some p)) =
      p ::ₘ heldBy ds (s.startPeriod v)) (ctx : Context) (stake : ℕ) :
    ∃ s', s.initializeDelegation d v ctx stake = some s' ∧ s'.PeriodsKept ds' v := by
  obtain ⟨last, hlast⟩ := Nat.exists_eq_succ_of_ne_zero h.opened
  let record := s.getHistoricalRewards v last
  let s₁ := s.setHistoricalRewards v last
    (some { record with referenceCount := record.referenceCount + 1 })
  let s' : DistrState Denom :=
    { s₁ with
      startingInfo := Function.update s₁.startingInfo (d, v)
        (some ⟨last, stake, ctx.blockHeight⟩) }
  have hcount : record.referenceCount = (s.references ds v).count last := h.count_eq last
  have hlastNot : last ∉ s.pointers ds v := by
    rw [Fresh, hlast] at hfresh
    exact hfresh
  have hone : (s.references ds v).count last = 1 := by
    rw [references, hlast, Nat.succ_sub_one, Multiset.count_cons_self,
      Multiset.count_eq_zero.mpr hlastNot]
  have hpointers : s'.pointers ds' v = last ::ₘ s.pointers ds v := by
    have hs' : s'.startPeriod v = Function.update (s.startPeriod v) d (some last) :=
      startPeriod_update (some ⟨last, stake, ctx.blockHeight⟩) rfl
    rw [pointers, hs', hheld, Multiset.cons_add]
    rfl
  have hrefs : s'.references ds' v = last ::ₘ s.references ds v := by
    rw [references, references, hpointers, Multiset.cons_swap]
    rfl
  refine ⟨s', initializeDelegation_eq_some.mpr ⟨last, s₁, hlast,
    incrementReferenceCount_eq_some.mpr ⟨?_, rfl⟩, rfl⟩, ⟨h.opened, ?_, ?_⟩⟩
  · change record.referenceCount ≤ 2
    omega
  · have hrecords : s'.historicalRewards v = Function.update (s.historicalRewards v) last
        (some { record with referenceCount := record.referenceCount + 1 }) :=
      Function.update_self v _ _
    rw [hrefs, hrecords]
    exact h.tally.acquire (congrArg (· + 1) hcount)
  · intro q hq
    rw [hrefs] at hq
    rcases Multiset.mem_cons.mp hq with rfl | hq
    · change q < (s.currentRewards v).period
      omega
    · exact h.past q hq

/-- The fresh records of a validator that nothing points at. -/
theorem periodsKept_initializeValidator (hrecords : s.historicalRewards v = fun _ => none)
    (hpointers : s.pointers ds v = 0) : (s.initializeValidator v).PeriodsKept ds v := by
  have hperiod : ((s.initializeValidator v).currentRewards v).period = 1 := by
    simp [initializeValidator]
  have hrefs : (s.initializeValidator v).references ds v = 0 ::ₘ (0 : Multiset ℕ) := by
    rw [references, hperiod]
    exact congrArg _ hpointers
  refine ⟨by rw [hperiod]; exact Nat.one_ne_zero, ?_, ?_⟩
  · have hempty : Tallies HistoricalRewards.referenceCount (s.historicalRewards v) 0 := by
      rw [hrecords]
      intro k
      rfl
    have hnew : (s.initializeValidator v).historicalRewards v =
        Function.update (s.historicalRewards v) 0 (some ⟨0, 1⟩) :=
      Function.update_self v _ _
    rw [hrefs, hnew]
    exact hempty.create (Multiset.notMem_zero 0) rfl
  · intro p hp
    rw [hrefs] at hp
    rw [hperiod]
    simp at hp
    omega

theorem samePeriods_initializeValidator (hw : w ≠ v) :
    SamePeriods w s (s.initializeValidator v) := by
  constructor <;> simp [initializeValidator, setHistoricalRewards, Function.update_of_ne hw]

theorem samePeriods_initializeDelegation {ctx : Context} {stake : ℕ} (hw : w ≠ v)
    (h : s.initializeDelegation d v ctx stake = some s') : SamePeriods w s s' := by
  obtain ⟨last, s₁, _, hinc, rfl⟩ := initializeDelegation_eq_some.mp h
  obtain ⟨_, rfl⟩ := incrementReferenceCount_eq_some.mp hinc
  have hkey : ∀ e : AccAddress, (e, w) ≠ (d, v) := fun e he => hw (Prod.mk.inj he).2
  constructor <;>
    simp [setHistoricalRewards, Function.update_of_ne hw, Function.update_of_ne (hkey _)]

theorem samePeriods_removeStartingInfo (hw : w ≠ v) (h : s.removeStartingInfo d v = some s') :
    SamePeriods w s s' := by
  obtain ⟨info, s₁, _, hdec, rfl⟩ := removeStartingInfo_eq_some.mp h
  obtain ⟨_, rfl⟩ := decrementReferenceCount_eq_some.mp hdec
  have hkey : ∀ e : AccAddress, (e, w) ≠ (d, v) := fun e he => hw (Prod.mk.inj he).2
  constructor <;>
    simp [setHistoricalRewards, Function.update_of_ne hw, Function.update_of_ne (hkey _)]

end Tally

end DistrState

end Mandelbot
