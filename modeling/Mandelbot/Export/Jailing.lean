import Mandelbot.Export.StakingWalk
import Mandelbot.Export.FeeDistribution

/-!
# Jailing and the validator set update

The walk jails validators in their records only; the power index is left alone. The validator set
update that follows (app/export.go, lines 170-172) reads both, and stamps the height of the
context on every bonded validator that it no longer meets in the index.
-/

namespace Mandelbot

/-- The staking part of the preparation: the walk, then the validator set update. -/
def handleStaking (decode : StoreKey → ValAddress) (k : StakingKeeper) (c : AddressCodec)
    (ctx : Context) (applyAllowedAddrs : Bool) (allowedAddrsMap : String → Bool)
    (st : StakingStore) : Except Abort StakingStore := do
  let (st, _) ← stakingWalk decode k c applyAllowedAddrs allowedAddrsMap st
  let result ← k.applyAndReturnValidatorSetUpdates ctx st
  panicOnError result

variable {decode : StoreKey → ValAddress} {k : StakingKeeper} {c : AddressCodec} {ctx : Context}
  {addrs : List String} {allowed : String → Bool} {st st₁ st₂ : StakingStore}

/-- The power index lists exactly the validators that are not jailed. -/
def IndexKept (st : StakingStore) : Prop :=
  ∀ a, a ∈ st.powerIndex ↔ ∃ v, st.validator a = some v ∧ v.jailed = false

/-- No entry of the power index is a jailed validator. -/
def NoneJailed (st : StakingStore) : Prop :=
  ∀ a ∈ st.powerIndex, ∀ v, st.validator a = some v → v.jailed = false

/-- Every validator off the list is jailed, not bonded, and has no unbonding height. -/
def JailedOff (c : AddressCodec) (addrs : List String) (st : StakingStore) : Prop :=
  ∀ a v, st.validator a = some v → c.string a ∉ addrs →
    v.jailed = true ∧ v.status ≠ .bonded ∧ v.unbondingHeight = 0

section Update

/-- The update meets only entries of the index. -/
theorem bondedPrefix_subset {power : Validator → ℕ} {get : ValAddress → Option Validator}
    {n : ℕ} {index met : List ValAddress} (h : bondedPrefix power get n index = .ok met) :
    met ⊆ index := by
  induction index generalizing n met with
  | nil =>
      cases n with
      | zero => cases h; exact List.Subset.refl _
      | succ n => cases h; exact List.Subset.refl _
  | cons a index ih =>
      cases n with
      | zero => cases h; exact List.nil_subset _
      | succ n =>
          rw [bondedPrefix] at h
          split at h
          case h_1 => cases h
          split at h
          case isTrue => cases h
          split at h
          case isTrue => cases h; exact List.nil_subset _
          obtain ⟨rest, hrest, hmet⟩ := bind_eq_ok.mp h
          cases hmet
          exact List.cons_subset_cons a (ih hrest)

/-- The update does not abort on an index of stored validators none of which is jailed. -/
theorem bondedPrefix_total (power : Validator → ℕ) {get : ValAddress → Option Validator}
    {index : List ValAddress} (h : ∀ a ∈ index, ∃ v, get a = some v ∧ v.jailed = false) (n : ℕ) :
    ∃ met, bondedPrefix power get n index = .ok met := by
  induction index generalizing n with
  | nil => cases n <;> exact ⟨[], rfl⟩
  | cons a index ih =>
      cases n with
      | zero => exact ⟨[], rfl⟩
      | succ n =>
          obtain ⟨v, hv, hjailed⟩ := h a (by simp)
          obtain ⟨rest, hrest⟩ := ih (fun b hb => h b (List.mem_cons_of_mem a hb)) n
          by_cases hpower : power v = 0
          · exact ⟨[], by simp [bondedPrefix, hv, hjailed, hpower]⟩
          · refine ⟨a :: rest, ?_⟩
            simp only [bondedPrefix, hv, hjailed, hpower, hrest]
            rfl

end Update

section Walk

variable {applyAllowedAddrs : Bool}

/-- A validator after the walk, with the one it was before. -/
theorem Walked.validator_iff (h : Walked c applyAllowedAddrs allowed st st₁) {a : ValAddress}
    {v : Validator} : st₁.validator a = some v ↔
      ∃ v₀, st.validator a = some v₀ ∧ v = walkedValidator c applyAllowedAddrs allowed v₀ := by
  rw [StakingStore.validator, h.validators, Option.map_eq_some_iff]
  simp only [eq_comm, StakingStore.validator]

/-- After the walk an entry of the index is jailed exactly when the list is applied and does not
spare it. -/
theorem noneJailed_iff (h : Walked c applyAllowedAddrs allowed st st₁) (hindex : IndexKept st) :
    NoneJailed st₁ ↔ ∀ a v, st.validator a = some v → applyAllowedAddrs = true →
      allowed (c.string a) = false → v.jailed = true := by
  constructor
  · intro hnone a v hv happly hoff
    by_contra hfree
    have hfree : v.jailed = false := Bool.eq_false_iff.mpr hfree
    have hmem : a ∈ st₁.powerIndex := by
      rw [h.powerIndex]
      exact (hindex a).mpr ⟨v, hv, hfree⟩
    have hwalked := hnone a hmem _ (h.validator_iff.mpr ⟨v, hv, rfl⟩)
    have haddr := StakingStore.getOperator_of_validator hv
    subst haddr
    simp [walkedValidator, happly, hoff] at hwalked
  · intro hoff a hmem v hv
    obtain ⟨v₀, hv₀, he⟩ := h.validator_iff.mp hv
    have haddr := StakingStore.getOperator_of_validator hv₀
    rw [h.powerIndex] at hmem
    obtain ⟨w, hw, hfree⟩ := (hindex a).mp hmem
    rw [hv₀] at hw
    cases hw
    subst haddr
    have hspared : applyAllowedAddrs = true → allowed (c.string v₀.getOperator) = true := by
      intro happly
      by_contra hnot
      have hjailed := hoff _ _ hv₀ happly (Bool.eq_false_iff.mpr hnot)
      rw [hfree] at hjailed
      cases hjailed
    cases happly : applyAllowedAddrs with
    | false => simp [he, walkedValidator, hfree, happly]
    | true => simp [he, walkedValidator, hfree, hspared happly]

/-- When no index entry is jailed the update runs through the index. -/
theorem update_total (hk : k.Documented) (ctx : Context)
    (h : Walked c applyAllowedAddrs allowed st st₁) (hindex : IndexKept st)
    (hnone : NoneJailed st₁) :
    ∃ met st₂, met ⊆ st.powerIndex ∧
      k.applyAndReturnValidatorSetUpdates ctx st₁ = .ok (none, st₂) ∧
      ∀ key, st₂.validators.get key =
        (st₁.validators.get key).map (updateBond ctx k.unbondingPeriod met) := by
  have hstored : ∀ a ∈ st₁.powerIndex, ∃ v, st₁.validator a = some v ∧ v.jailed = false := by
    intro a ha
    have hmem := ha
    rw [h.powerIndex] at hmem
    obtain ⟨v, hv, _⟩ := (hindex a).mp hmem
    have hw := h.validator_iff.mpr ⟨v, hv, rfl⟩
    exact ⟨_, hw, hnone a ha _ hw⟩
  obtain ⟨met, hmet⟩ := bondedPrefix_total k.consensusPower hstored k.maxValidators
  obtain ⟨st₂, hrun, hupdated⟩ := hk.apply_ok ctx st₁ met hmet
  have hsub := bondedPrefix_subset hmet
  rw [h.powerIndex] at hsub
  exact ⟨met, st₂, hsub, hrun, hupdated⟩

/-- The update leaves a jailed validator off the index as it should be, unless it has to stamp the
height of the context on it. -/
theorem updateBond_off {met : List ValAddress} {v : Validator} (period : Int)
    (hmet : v.getOperator ∉ met) (hheight : v.unbondingHeight = 0) :
    ((updateBond ctx period met v).status ≠ .bonded ∧
        (updateBond ctx period met v).unbondingHeight = 0) ↔
      (v.status = .bonded → ctx.blockHeight = 0) := by
  rw [updateBond, if_neg hmet]
  by_cases hbonded : v.status = .bonded
  · simp [hbonded]
  · simp [hbonded, hheight]

theorem jailed_updateBond (period : Int) (met : List ValAddress) (v : Validator) :
    (updateBond ctx period met v).jailed = v.jailed := by
  rw [updateBond]
  split
  · rfl
  · split <;> rfl

/-- When no index entry is jailed the update succeeds, and the validators off the list end as they
should exactly when none of them is still bonded at a non-zero height. -/
theorem update_jailedOff_iff (hk : k.Documented) (hmap : allowedAddrsMap c addrs = .ok allowed)
    (h : Walked c true allowed st st₁) (hindex : IndexKept st) (hnone : NoneJailed st₁) :
    (∃ st₂, k.applyAndReturnValidatorSetUpdates ctx st₁ = .ok (none, st₂) ∧
        JailedOff c addrs st₂) ↔
      ∀ a v, st.validator a = some v → c.string a ∉ addrs →
        v.status = .bonded → ctx.blockHeight = 0 := by
  have hoff := (noneJailed_iff h hindex).mp hnone
  obtain ⟨met, st₂, hmet, hrun, hupdated⟩ := update_total hk ctx h hindex hnone
  -- a validator off the list was jailed before, so it is not in the index
  have hunmet : ∀ a v, st.validator a = some v → c.string a ∉ addrs → v.jailed = true ∧ a ∉ met := by
    intro a v hv hlist
    have hspare : allowed (c.string a) = false :=
      Bool.eq_false_iff.mpr fun hyes => hlist ((allowed_iff_mem hmap _).mp hyes)
    have hjailed := hoff a v hv rfl hspare
    refine ⟨hjailed, fun hmem => ?_⟩
    obtain ⟨w, hw, hfree⟩ := (hindex a).mp (hmet hmem)
    rw [hv] at hw
    cases hw
    rw [hjailed] at hfree
    cases hfree
  have hvalidator : ∀ a v, st₂.validator a = some v ↔ ∃ v₀, st.validator a = some v₀ ∧
      v = updateBond ctx k.unbondingPeriod met (walkedValidator c true allowed v₀) := by
    intro a v
    rw [StakingStore.validator, hupdated, h.validators, Option.map_map, Option.map_eq_some_iff]
    simp only [eq_comm, StakingStore.validator, Function.comp_apply]
  have hone : ∀ a v, st.validator a = some v → c.string a ∉ addrs →
      (((updateBond ctx k.unbondingPeriod met (walkedValidator c true allowed v)).status ≠ .bonded ∧
        (updateBond ctx k.unbondingPeriod met (walkedValidator c true allowed v)).unbondingHeight =
          0) ↔ (v.status = .bonded → ctx.blockHeight = 0)) := by
    intro a v hv hlist
    have haddr := StakingStore.getOperator_of_validator hv
    subst haddr
    exact updateBond_off (v := walkedValidator c true allowed v) k.unbondingPeriod
      (hunmet _ v hv hlist).2 rfl
  constructor
  · intro hafter a v hv hlist
    rcases hafter with ⟨st', hrun', hjailed⟩
    rw [hrun] at hrun'
    cases hrun'
    have hend := hjailed a _ ((hvalidator a _).mpr ⟨v, hv, rfl⟩) hlist
    exact (hone a v hv hlist).mp hend.2
  · intro hheight
    refine ⟨st₂, hrun, ?_⟩
    intro a w hw hlist
    obtain ⟨v, hv, he⟩ := (hvalidator a w).mp hw
    have hend := (hone a v hv hlist).mpr (hheight a v hv hlist)
    rw [he, jailed_updateBond]
    refine ⟨?_, hend⟩
    simp [walkedValidator, (hunmet a v hv hlist).1]

end Walk

/-- Jailing through the list leaves a coherent state, before and after the validator set update,
exactly when the validators off the list were jailed already and none of them is still bonded at a
non-zero height. -/
theorem jailing_coherent_iff (k : StakingKeeper) (hk : k.Documented) (c : AddressCodec)
    (ctx : Context) (decode : StoreKey → ValAddress) (st : StakingStore) (addrs : List String)
    (allowed : String → Bool) (hlist : addrs ≠ [])
    (hmap : allowedAddrsMap c addrs = .ok allowed)
    (hdecode : ∀ a ∈ st.operators, decode (validatorKey a) = a) (hindex : IndexKept st) :
    (∃ st₁ n, stakingWalk decode k c (applyAllowedAddrs addrs) allowed st = .ok (st₁, n) ∧
        NoneJailed st₁ ∧
        ∃ st₂, k.applyAndReturnValidatorSetUpdates ctx st₁ = .ok (none, st₂) ∧
          JailedOff c addrs st₂) ↔
      ∀ a v, st.validator a = some v → c.string a ∉ addrs →
        v.jailed = true ∧ (v.status = .bonded → ctx.blockHeight = 0) := by
  have happly : applyAllowedAddrs addrs = true :=
    decide_eq_true (List.length_pos_iff.mpr hlist)
  obtain ⟨w, n, hrun, hwalked⟩ := stakingWalk_total hk c true allowed hdecode
  have hspare : ∀ a : ValAddress, allowed (c.string a) = false ↔ c.string a ∉ addrs := by
    intro a
    rw [← Bool.not_eq_true, allowed_iff_mem hmap]
  have hnone : NoneJailed w ↔
      ∀ a v, st.validator a = some v → c.string a ∉ addrs → v.jailed = true := by
    rw [noneJailed_iff hwalked hindex]
    simp only [hspare, forall_const]
  rw [happly]
  constructor
  · intro h
    rcases h with ⟨st₁, n₁, hrun₁, hfree, hafter⟩
    rw [hrun] at hrun₁
    cases hrun₁
    have hheight := (update_jailedOff_iff hk hmap hwalked hindex hfree).mp hafter
    intro a v hv hoff
    exact ⟨hnone.mp hfree a v hv hoff, hheight a v hv hoff⟩
  · intro h
    have hfree := hnone.mpr fun a v hv hoff => (h a v hv hoff).1
    refine ⟨w, n, hrun, hfree, ?_⟩
    exact (update_jailedOff_iff hk hmap hwalked hindex hfree).mpr
      fun a v hv hoff => (h a v hv hoff).2

section Samples

def otherOperator : OperatorAddress := ⟨[2], by decide, by decide⟩

/-- A validator that was jailed in its time and has finished unbonding. -/
def jailedValidator : Validator :=
  { sampleValidator with
    operatorAddress := otherOperator
    jailed := true
    status := .unbonded
    unbondingHeight := 5 }

/-- The sample store with one more validator, which is jailed. -/
def jailedStore : StakingStore :=
  { sampleStore with validators := sampleStore.validators.set jailedValidator }

/-- A recovery that drops the length byte as well. -/
def dropKeyHead (key : StoreKey) : ValAddress := key.drop 2

theorem dropKeyHead_validatorKey (a : ValAddress) : dropKeyHead (validatorKey a) = a := rfl

private theorem sampleStore_validator {a : ValAddress} {v : Validator} :
    sampleStore.validator a = some v ↔ a = [1] ∧ v = sampleValidator := by
  constructor
  · intro h
    have hops : sampleStore.operators = [[1]] := by decide
    have ha := StakingStore.mem_operators.mpr ⟨v, h⟩
    rw [hops, List.mem_singleton] at ha
    subst ha
    exact ⟨rfl, (Option.some.inj h).symm⟩
  · intro h
    rw [h.1, h.2]
    rfl

theorem sampleStore_indexKept : IndexKept sampleStore := by
  intro a
  have hpower : sampleStore.powerIndex = [[1]] := rfl
  rw [hpower, List.mem_singleton]
  constructor
  · intro ha
    subst ha
    exact ⟨sampleValidator, rfl, rfl⟩
  · intro h
    rcases h with ⟨v, hv, _⟩
    exact (sampleStore_validator.mp hv).1

private theorem jailedStore_validator {a : ValAddress} {v : Validator} :
    jailedStore.validator a = some v ↔
      (a = [1] ∧ v = sampleValidator) ∨ (a = [2] ∧ v = jailedValidator) := by
  constructor
  · intro h
    have hops : jailedStore.operators = [[1], [2]] := by decide
    have ha := StakingStore.mem_operators.mpr ⟨v, h⟩
    rw [hops, List.mem_cons, List.mem_singleton] at ha
    rcases ha with ha | ha
    · subst ha
      exact .inl ⟨rfl, (Option.some.inj h).symm⟩
    · subst ha
      exact .inr ⟨rfl, (Option.some.inj h).symm⟩
  · intro h
    rcases h with h | h
    · rw [h.1, h.2]
      rfl
    · rw [h.1, h.2]
      rfl

theorem jailing_coherent_iff_sample : ∃ allowed st₁ n,
    stakingWalk dropKeyHead sampleStakingKeeper bech32Codec true allowed jailedStore =
        .ok (st₁, n) ∧ NoneJailed st₁ := by
  have hmap := allowedAddrsMap_singleton (bech32Codec_documented.decode_string sampleOperator)
  have hindex : IndexKept jailedStore := by
    intro a
    have hpower : jailedStore.powerIndex = [[1]] := rfl
    rw [hpower, List.mem_singleton]
    constructor
    · intro ha
      subst ha
      exact ⟨sampleValidator, rfl, rfl⟩
    · intro h
      rcases h with ⟨v, hv, hfree⟩
      rcases jailedStore_validator.mp hv with hone | htwo
      · exact hone.1
      · rw [htwo.2] at hfree
        cases hfree
  have hiff := jailing_coherent_iff sampleStakingKeeper sampleStakingKeeper_documented bech32Codec
    sampleContext dropKeyHead jailedStore [bech32Codec.string sampleOperator.bytes] _
    (List.cons_ne_nil _ _) hmap (fun a _ => dropKeyHead_validatorKey a) hindex
  have hcondition : ∀ a v, jailedStore.validator a = some v →
      bech32Codec.string a ∉ [bech32Codec.string sampleOperator.bytes] →
        v.jailed = true ∧ (v.status = .bonded → sampleContext.blockHeight = 0) := by
    intro a v hv hoff
    rcases jailedStore_validator.mp hv with hone | htwo
    · rw [hone.1] at hoff
      exact absurd (List.mem_singleton.mpr rfl) hoff
    · rw [htwo.2]
      exact ⟨rfl, fun hbonded => by cases hbonded⟩
  obtain ⟨st₁, n, hrun, hnone, _⟩ := hiff.mpr hcondition
  exact ⟨_, st₁, n, hrun, hnone⟩

/-- A bonded validator off the list is jailed in its record only: it stays in the power index, and
the update aborts on it. -/
theorem jailing_leaves_jailed_entry :
    IndexKept sampleStore ∧ ∃ allowed st₁ n,
      allowedAddrsMap bech32Codec [bech32Codec.string otherOperator.bytes] = .ok allowed ∧
        stakingWalk dropKeyHead sampleStakingKeeper bech32Codec true allowed sampleStore =
          .ok (st₁, n) ∧
        ¬ NoneJailed st₁ ∧
        sampleStakingKeeper.applyAndReturnValidatorSetUpdates sampleContext st₁ =
          .error (.panic "should never retrieve a jailed validator from the power store") := by
  let allowed : String → Bool := fun t => decide (t ∈ [bech32Codec.string otherOperator.bytes])
  have hmap : allowedAddrsMap bech32Codec [bech32Codec.string otherOperator.bytes] = .ok allowed :=
    allowedAddrsMap_singleton (bech32Codec_documented.decode_string otherOperator)
  have hoff : allowed (bech32Codec.string [1]) = false := by
    apply decide_eq_false
    intro hmem
    have hsame := bech32Codec_documented.string_injective (a := sampleOperator) (b := otherOperator)
      (List.mem_singleton.mp hmem)
    exact absurd hsame (by decide)
  have htotal : ∃ st₁ n, stakingWalk dropKeyHead sampleStakingKeeper bech32Codec true allowed
      sampleStore = .ok (st₁, n) ∧ Walked bech32Codec true allowed sampleStore st₁ :=
    stakingWalk_total sampleStakingKeeper_documented bech32Codec true allowed
      fun a _ => dropKeyHead_validatorKey a
  rcases htotal with ⟨st₁, n, hrun, hwalked⟩
  have hvalidator : st₁.validator [1] = some { sampleValidator with jailed := true } := by
    refine hwalked.validator_iff.mpr ⟨sampleValidator, rfl, ?_⟩
    have hone : allowed (bech32Codec.string sampleValidator.getOperator) = false := hoff
    rw [walkedValidator, hone]
    rfl
  have hpower : st₁.powerIndex = [[1]] := hwalked.powerIndex
  refine ⟨sampleStore_indexKept, allowed, st₁, n, hmap, hrun, ?_, ?_⟩
  · intro hnone
    have hfree := hnone [1] (by rw [hpower]; exact List.mem_singleton.mpr rfl) _ hvalidator
    cases hfree
  · apply sampleStakingKeeper_documented.apply_error
    rw [hpower]
    change bondedPrefix _ st₁.validator (99 + 1) _ = _
    rw [bondedPrefix, hvalidator]
    rfl

end Samples

end Mandelbot
