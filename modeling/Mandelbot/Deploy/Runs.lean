import Mandelbot.Deploy.Lifecycle

/-!
# Runs of applies

The stages of an apply in order, and what any run of applies guarantees when the last one
succeeds. Breaks are repaired by applying again. New code reaches no machine that is already
configured, and a change of the number of validators leaves the seeds behind.
-/

namespace Mandelbot.Deploy

open Shell

variable {ε : Type} {d : NodeDaemon} {v : Variables ε} {c : Conditions ε} {s : State ε}

/-- Whatever exists is in range and was made for what the variables ask for. -/
structure Matches (v : Variables ε) (s : State ε) : Prop where
  build : s.buildLinuxExecutable.Meets v.code v.buildCount
  clients : s.configureClient.Meets (s.clientTriggers v) v.numValidatorInstances
  genesisFile : s.generateGenesisFile.Meets (s.configureClient.ids v.numValidatorInstances)
    v.genesisCount
  starts : s.startValidator.Meets (s.generateGenesisFile.ids v.genesisCount)
    v.numValidatorInstances
  seedClients : s.configureSeedClient.Meets (s.seedTriggers v) v.numSeedInstances

/-- Nothing that is provisioned on a machine is tainted. -/
structure Untainted (s : State ε) : Prop where
  clients : s.configureClient.Intact
  genesisFile : s.generateGenesisFile.Intact
  starts : s.startValidator.Intact
  seedClients : s.configureSeedClient.Intact

/-- The instances are as many as asked for, and the resources are good and made for them. -/
structure Staged (d : NodeDaemon) (v : Variables ε) (s : State ε) : Prop where
  inv : Inv d s
  matching : Matches v s
  validators : s.validators.length = v.numValidatorInstances
  seeds : s.seeds.length = v.numSeedInstances

section Instances

theorem createSeeds_cases (v : Variables ε) (c : Conditions ε) (s : State ε) :
    (survives s.seeds v.numSeedInstances c.lostSeeds = true ∧ createSeeds v c s = s) ∨
      (survives s.seeds v.numSeedInstances c.lostSeeds = false ∧ createSeeds v c s =
        { s with
          nextId := s.nextId + v.numSeedInstances
          seeds := scale s.seeds v.numSeedInstances s.nextId c.lostSeeds c.seedIps
          seedMachines := boot c.seedImage s.nextId
            (scale s.seeds v.numSeedInstances s.nextId c.lostSeeds c.seedIps) s.seedMachines }) := by
  cases h : survives s.seeds v.numSeedInstances c.lostSeeds with
  | true => exact .inl ⟨rfl, if_pos h⟩
  | false => exact .inr ⟨rfl, if_neg (by simp [h])⟩

theorem createValidators_cases (v : Variables ε) (c : Conditions ε) (s : State ε) :
    (survives s.validators v.numValidatorInstances c.lost = true ∧ createValidators v c s = s) ∨
      (survives s.validators v.numValidatorInstances c.lost = false ∧ createValidators v c s =
        { s with
          nextId := s.nextId + v.numValidatorInstances
          validators := scale s.validators v.numValidatorInstances s.nextId c.lost c.validatorIps
          machines := boot c.image s.nextId
            (scale s.validators v.numValidatorInstances s.nextId c.lost c.validatorIps)
            s.machines }) := by
  cases h : survives s.validators v.numValidatorInstances c.lost with
  | true => exact .inl ⟨rfl, if_pos h⟩
  | false => exact .inr ⟨rfl, if_neg (by simp [h])⟩

end Instances

section Kept

/-- Without all instances no client is kept, and nothing that depends on one. -/
private theorem kept_none (h : ValidatorsSound d s)
    (hsurvives : survives s.validators v.numValidatorInstances c.lost = false) :
    keptClients v c s = Slots.none ∧ keptGenesisFile v c s = Slots.none ∧
      keptStarts v c s = Slots.none := by
  have hclients : keptClients v c s = Slots.none := by
    rw [keptClients, if_neg (by simp [hsurvives])]
  have hgenesis : ∀ i r, keptGenesisFile v c s i = some r → False := by
    intro i r hr
    obtain ⟨_, _, hpos⟩ := keptGenesisFile_validators h hr
    have hall := (keptGenesisFile_eq_some hr).1
    rw [hclients] at hall
    exact Slots.not_complete_none hpos hall
  refine ⟨hclients, ?_, ?_⟩
  · funext i
    rw [Slots.none, Option.eq_none_iff_forall_ne_some]
    exact hgenesis i
  · funext i
    rw [Slots.none, Option.eq_none_iff_forall_ne_some]
    intro r hr
    obtain ⟨hall, hi, _⟩ := keptStarts_eq_some hr
    rw [genesisCount_of_pos (by omega)] at hall
    obtain ⟨g, hg, _⟩ := hall 0 (by omega)
    exact hgenesis 0 g hg

private theorem keptSeeds_none
    (hsurvives : survives s.seeds v.numSeedInstances c.lostSeeds = false) :
    keptSeedClients v c s = Slots.none := by
  rw [keptSeedClients, if_neg (by simp [hsurvives])]

theorem filled_build (v : Variables ε) (c : Conditions ε) (s : State ε) :
    Filled v.code (List.range v.buildCount) ⟨s.buildLinuxExecutable, s.nextId, s.upload⟩
      (createAll v.code
        (fun _ upload => if c.buildBreaks then (upload, false) else (some v.code, true))
        (List.range v.buildCount) ⟨s.buildLinuxExecutable, s.nextId, s.upload⟩) :=
  filled_createAll _ _ _ _

end Kept

section Build

variable [DecidableEq ε]

/-- The state once the executable has been built and the seeds' instances exist. -/
def afterBuild (v : Variables ε) (c : Conditions ε) (s : State ε) : State ε :=
  applyBuildLinuxExecutable v c (createSeeds v c (plan v c s))

private theorem plan_matches : Matches v (plan v c s) where
  build := Slots.meets_prune _ _ _
  clients i r hr := by
    obtain ⟨hi, _, htriggers, _⟩ := keptClients_eq_some hr
    exact ⟨hi, htriggers⟩
  genesisFile i r hr := by
    obtain ⟨_, hi, _, htriggers, _⟩ := keptGenesisFile_eq_some hr
    exact ⟨hi, htriggers⟩
  starts i r hr := by
    obtain ⟨_, hi, _, htriggers, _⟩ := keptStarts_eq_some hr
    exact ⟨hi, htriggers⟩
  seedClients i r hr := by
    obtain ⟨hi, _, htriggers, _⟩ := keptSeedClients_eq_some hr
    exact ⟨hi, htriggers⟩

theorem plan_untainted : Untainted (plan v c s) where
  clients _ _ hr := (keptClients_eq_some hr).2.2.2.1
  genesisFile _ _ hr := (keptGenesisFile_eq_some hr).2.2.2.2
  starts _ _ hr := (keptStarts_eq_some hr).2.2.2.2
  seedClients _ _ hr := (keptSeedClients_eq_some hr).2.2.2.1

private theorem createSeeds_plan_inv (h : Inv d s) (hc : c.Valid v s) :
    Inv d (createSeeds v c (plan v c s)) := by
  apply createSeeds_inv (plan_inv h)
  · intro hsurvives
    apply keptSeeds_none
    rw [← survives_take]
    exact hsurvives
  · change ((publicIps (scale (s.seeds.take v.numSeedInstances) v.numSeedInstances s.nextId
      c.lostSeeds c.seedIps)).map PublicIp.text).Nodup
    rw [publicIps_scale_take s.seeds v.numSeedInstances s.nextId s.nextId]
    exact hc.seedIps

/-- Everything but the executable and the seeds' instances is as it was planned. -/
theorem createSeeds_plan_eq (v : Variables ε) (c : Conditions ε) (s : State ε) :
    ∃ nextId seeds seedMachines, createSeeds v c (plan v c s) =
        { plan v c s with nextId := nextId, seeds := seeds, seedMachines := seedMachines } ∧
      seeds.length = v.numSeedInstances ∧
      (keptSeedClients v c s = Slots.none ∨ seeds = s.seeds.take v.numSeedInstances) := by
  rcases createSeeds_cases v c (plan v c s) with ⟨hsurvives, heq⟩ | ⟨hsurvives, heq⟩
  · have hlen := (survives_iff.mp hsurvives).1
    refine ⟨_, _, _, heq, ?_, .inr rfl⟩
    have htake : (s.seeds.take v.numSeedInstances).length ≤ v.numSeedInstances :=
      List.length_take_le _ _
    exact le_antisymm htake hlen
  · refine ⟨_, _, _, heq, length_scale, .inl (keptSeeds_none ?_)⟩
    rw [← survives_take]
    exact hsurvives

private theorem afterBuild_inv (h : Inv d s) (hc : c.Valid v s) : Inv d (afterBuild v c s) :=
  build_inv (createSeeds_plan_inv h hc)

/-- The validators' resources are as they were planned. -/
theorem afterBuild_eq (v : Variables ε) (c : Conditions ε) (s : State ε) :
    ∃ nextId build upload seeds seedMachines, afterBuild v c s =
        { plan v c s with
          nextId := nextId
          buildLinuxExecutable := build
          upload := upload
          seeds := seeds
          seedMachines := seedMachines } ∧
      seeds.length = v.numSeedInstances ∧
      (keptSeedClients v c s = Slots.none ∨ seeds = s.seeds.take v.numSeedInstances) := by
  obtain ⟨nextId, seeds, seedMachines, heq, hlen, hseeds⟩ := createSeeds_plan_eq v c s
  refine ⟨(afterBuild v c s).nextId, (afterBuild v c s).buildLinuxExecutable,
    (afterBuild v c s).upload, seeds, seedMachines, ?_, hlen, hseeds⟩
  rw [afterBuild, heq]
  rfl

private theorem afterBuild_build (v : Variables ε) (c : Conditions ε) (s : State ε) :
    (afterBuild v c s).buildLinuxExecutable.Meets v.code v.buildCount := by
  obtain ⟨nextId, seeds, seedMachines, heq, _⟩ := createSeeds_plan_eq v c s
  have hfilled := filled_build v c (createSeeds v c (plan v c s))
  apply hfilled.meets (fun i hi => List.mem_range.mp hi)
  rw [heq]
  exact Slots.meets_prune _ _ _

private theorem afterBuild_matches : Matches v (afterBuild v c s) := by
  have hbuild := afterBuild_build v c s
  obtain ⟨nextId, build, upload, seeds, seedMachines, heq, _, hseeds⟩ := afterBuild_eq v c s
  have hplan : Matches v (plan v c s) := plan_matches
  rw [heq] at hbuild ⊢
  refine ⟨hbuild, hplan.clients, hplan.genesisFile, hplan.starts, ?_⟩
  rcases hseeds with hnone | hkept
  · change (keptSeedClients v c s).Meets _ _
    rw [hnone]
    exact Slots.meets_none _ _
  · intro i r hr
    obtain ⟨hi, htriggers⟩ := hplan.seedClients i r hr
    refine ⟨hi, htriggers.trans ?_⟩
    rw [State.seedTriggers, State.seedTriggers]
    change _ = (v.genesisFileAvailable, serverIds seeds, v.seedFiles)
    rw [hkept]
    rfl

/-- Once the instances exist the resources are staged for their number. -/
theorem createValidators_staged (h : Inv d s) (hc : c.Valid v s) :
    Staged d v (createValidators v c (afterBuild v c s)) := by
  have hinv := afterBuild_inv h hc
  have hmatches : Matches v (afterBuild v c s) := afterBuild_matches
  obtain ⟨nextId, build, upload, seeds, seedMachines, heq, hlen, _⟩ := afterBuild_eq v c s
  have hseeds : (afterBuild v c s).seeds.length = v.numSeedInstances := by
    rw [heq]
    exact hlen
  have hvalidators : (afterBuild v c s).validators =
      s.validators.take v.numValidatorInstances := by
    rw [heq]
    rfl
  have hslots : survives (afterBuild v c s).validators v.numValidatorInstances c.lost = false →
      (afterBuild v c s).configureClient = Slots.none ∧
        (afterBuild v c s).generateGenesisFile = Slots.none ∧
        (afterBuild v c s).startValidator = Slots.none := by
    intro hsurvives
    rw [hvalidators, survives_take] at hsurvives
    rw [heq]
    exact kept_none h.validators hsurvives
  have hips : ((publicIps (scale (afterBuild v c s).validators v.numValidatorInstances
      (afterBuild v c s).nextId c.lost c.validatorIps)).map PublicIp.text).Nodup := by
    rw [hvalidators, publicIps_scale_take _ _ _ s.nextId]
    exact hc.validatorIps
  have hinv' := createValidators_inv hinv hslots hips
  rcases createValidators_cases v c (afterBuild v c s) with ⟨hsurvives, hsame⟩ | ⟨hsurvives, hnew⟩
  · rw [hsame] at hinv' ⊢
    refine ⟨hinv', hmatches, ?_, hseeds⟩
    have hle := (survives_iff.mp hsurvives).1
    have hge : (afterBuild v c s).validators.length ≤ v.numValidatorInstances := by
      rw [hvalidators]
      exact List.length_take_le _ _
    exact le_antisymm hge hle
  · obtain ⟨hclients, hgenesis, hstarts⟩ := hslots hsurvives
    rw [hnew] at hinv' ⊢
    refine ⟨hinv', ⟨hmatches.build, ?_, ?_, ?_, hmatches.seedClients⟩, length_scale, hseeds⟩
    · change (afterBuild v c s).configureClient.Meets _ _
      rw [hclients]
      exact Slots.meets_none _ _
    · change (afterBuild v c s).generateGenesisFile.Meets _ _
      rw [hgenesis]
      exact Slots.meets_none _ _
    · change (afterBuild v c s).startValidator.Meets _ _
      rw [hstarts]
      exact Slots.meets_none _ _

end Build

section Stages

private theorem meets_of_none {τ : Type} {slots : Slots τ} (h : ∀ i, slots i = none) (wanted : τ)
    (n : ℕ) : slots.Meets wanted n := by
  intro i r hr
  rw [h i] at hr
  cases hr

theorem configureClient_staged (hd : d.Documented)
    (horder : ∀ i ∈ c.order, i < v.numValidatorInstances) (h : Staged d v s) :
    Staged d v (applyConfigureClient d v c s) := by
  have hinv := configureClient_inv hd horder h.validators h.inv
  by_cases hall : s.configureClient.Complete v.numValidatorInstances
  · rw [applyConfigureClient_of_complete horder hall]
    exact h
  obtain ⟨hgenesis, hstarts⟩ := h.inv.validators.no_dependents (h.validators ▸ hall)
  have hfilled := filled_createAll (s.clientTriggers v)
    (runClient d c s.upload (publicIps s.validators)) c.order
    ⟨s.configureClient, s.nextId, s.machines⟩
  exact ⟨hinv, ⟨h.matching.build, hfilled.meets horder h.matching.clients,
    meets_of_none hgenesis _ _, meets_of_none hstarts _ _, h.matching.seedClients⟩, h.validators,
    h.seeds⟩

theorem generateGenesisFile_staged (hd : d.Documented)
    (hclients : s.configureClient.Complete v.numValidatorInstances) (h : Staged d v s) :
    Staged d v (applyGenerateGenesisFile d v c s) := by
  have hinv : Inv d (applyGenerateGenesisFile d v c s) :=
    generateGenesisFile_inv hd h.validators hclients h.inv
  by_cases hall : s.generateGenesisFile.Complete v.genesisCount
  · rw [applyGenerateGenesisFile_of_complete hall]
    exact h
  have hstarts : ∀ i, s.startValidator i = none := by
    intro i
    apply Option.eq_none_iff_forall_ne_some.mpr
    intro r hr
    have hi := (h.matching.starts i r hr).1
    apply hall
    rw [genesisCount_of_pos (by omega)]
    exact h.inv.validators.starts i r hr
  have hfilled := filled_createAll (s.configureClient.ids v.numValidatorInstances)
    (runGenesis d.toDaemon c (publicIps s.validators)) (List.range v.genesisCount)
    ⟨s.generateGenesisFile, s.nextId, s.machines⟩
  exact ⟨hinv, ⟨h.matching.build, h.matching.clients,
    hfilled.meets (fun i hi => List.mem_range.mp hi) h.matching.genesisFile,
    meets_of_none hstarts _ _, h.matching.seedClients⟩, h.validators, h.seeds⟩

theorem startValidator_staged (horder : ∀ i ∈ c.startOrder, i < v.numValidatorInstances)
    (hgenesis : s.generateGenesisFile.Complete v.genesisCount) (h : Staged d v s) :
    Staged d v (applyStartValidator v c s) := by
  have hinv : Inv d (applyStartValidator v c s) :=
    startValidator_inv h.validators hgenesis h.inv horder
  have hfilled := filled_createAll (s.generateGenesisFile.ids v.genesisCount)
    (runStart c (publicIps s.validators)) c.startOrder ⟨s.startValidator, s.nextId, s.machines⟩
  exact ⟨hinv, ⟨h.matching.build, h.matching.clients, h.matching.genesisFile,
    hfilled.meets horder h.matching.starts, h.matching.seedClients⟩, h.validators, h.seeds⟩

theorem configureSeedClient_staged (horder : ∀ i ∈ c.seedOrder, i < v.numSeedInstances)
    (h : Staged d v s) : Staged d v (applyConfigureSeedClient v c s) := by
  have hinv : Inv d (applyConfigureSeedClient v c s) :=
    configureSeedClient_inv horder h.seeds h.inv
  have hfilled := filled_createAll (s.seedTriggers v)
    (runSeed v c s.upload s.genesis (publicIps s.seeds) (publicIps s.validators)) c.seedOrder
    ⟨s.configureSeedClient, s.nextId, s.seedMachines⟩
  exact ⟨hinv, ⟨h.matching.build, h.matching.clients, h.matching.genesisFile, h.matching.starts,
    hfilled.meets horder h.matching.seedClients⟩, h.validators, h.seeds⟩

end Stages

section Apply

variable [DecidableEq ε]

def afterClients (d : NodeDaemon) (v : Variables ε) (c : Conditions ε) (s : State ε) : State ε :=
  applyConfigureClient d v c (createValidators v c (afterBuild v c s))

def afterGenesis (d : NodeDaemon) (v : Variables ε) (c : Conditions ε) (s : State ε) : State ε :=
  applyGenerateGenesisFile d v c (afterClients d v c s)

def afterStarts (d : NodeDaemon) (v : Variables ε) (c : Conditions ε) (s : State ε) : State ε :=
  applyStartValidator v c (afterGenesis d v c s)

/-- An apply stops after the first stage with a break, or goes through all of them. -/
theorem apply_cases (d : NodeDaemon) (v : Variables ε) (c : Conditions ε) (s : State ε) :
    (¬ (afterBuild v c s).buildLinuxExecutable.Complete v.buildCount ∧
        apply d v c s = afterBuild v c s) ∨
      (¬ (afterClients d v c s).configureClient.Complete v.numValidatorInstances ∧
        apply d v c s = afterClients d v c s) ∨
      ((afterClients d v c s).configureClient.Complete v.numValidatorInstances ∧
        ¬ (afterGenesis d v c s).generateGenesisFile.Complete v.genesisCount ∧
        apply d v c s = afterGenesis d v c s) ∨
      ((afterBuild v c s).buildLinuxExecutable.Complete v.buildCount ∧
        (afterClients d v c s).configureClient.Complete v.numValidatorInstances ∧
        (afterGenesis d v c s).generateGenesisFile.Complete v.genesisCount ∧
        apply d v c s = applyConfigureSeedClient v c (afterStarts d v c s)) := by
  by_cases hbuild : (afterBuild v c s).buildLinuxExecutable.Complete v.buildCount
  case neg =>
    exact .inl ⟨hbuild, if_neg fun h => hbuild (Slots.isComplete_iff.mp h)⟩
  have hfirst : apply d v c s = _ := if_pos (Slots.isComplete_iff.mpr hbuild)
  by_cases hclients : (afterClients d v c s).configureClient.Complete v.numValidatorInstances
  case neg =>
    exact .inr (.inl ⟨hclients, hfirst.trans
      (if_neg fun h => hclients (Slots.isComplete_iff.mp h))⟩)
  have hsecond : apply d v c s = _ := hfirst.trans (if_pos (Slots.isComplete_iff.mpr hclients))
  by_cases hgenesis : (afterGenesis d v c s).generateGenesisFile.Complete v.genesisCount
  case neg =>
    exact .inr (.inr (.inl ⟨hclients, hgenesis, hsecond.trans
      (if_neg fun h => hgenesis (Slots.isComplete_iff.mp h))⟩))
  exact .inr (.inr (.inr ⟨hbuild, hclients, hgenesis,
    hsecond.trans (if_pos (Slots.isComplete_iff.mpr hgenesis))⟩))

theorem afterClients_staged (hd : d.Documented) (h : Inv d s) (hc : c.Valid v s) :
    Staged d v (afterClients d v c s) :=
  configureClient_staged hd (fun i => (hc.order i).mp) (createValidators_staged h hc)

/-- Every apply keeps the invariant, wherever it stops. -/
theorem apply_inv (hd : d.Documented) (h : Inv d s) (hc : c.Valid v s) :
    Inv d (apply d v c s) := by
  have hstaged := afterClients_staged hd h hc
  rcases apply_cases d v c s with ⟨_, heq⟩ | ⟨_, heq⟩ | ⟨hclients, _, heq⟩ |
    ⟨_, hclients, hgenesis, heq⟩
  · rw [heq]
    exact afterBuild_inv h hc
  · rw [heq]
    exact hstaged.inv
  · rw [heq]
    exact (generateGenesisFile_staged hd hclients hstaged).inv
  · rw [heq]
    have hstarts := startValidator_staged (fun i => (hc.startOrder i).mp) hgenesis
      (generateGenesisFile_staged hd hclients hstaged)
    exact (configureSeedClient_staged (fun i => (hc.seedOrder i).mp) hstarts).inv

theorem Reachable.inv (hd : d.Documented) (h : Reachable d s) : Inv d s := by
  induction h with
  | start =>
      exact ⟨⟨List.nodup_nil, List.nodup_nil⟩, ⟨nofun, nofun, nofun, nofun, nofun, nofun⟩,
        ⟨nofun, nofun, nofun, nofun⟩⟩
  | apply _ hc ih => exact apply_inv hd ih hc

/-- A successful apply has gone through all stages. -/
theorem apply_of_succeeded (hsucc : Succeeded v (apply d v c s)) :
    (afterClients d v c s).configureClient.Complete v.numValidatorInstances ∧
      (afterGenesis d v c s).generateGenesisFile.Complete v.genesisCount ∧
      apply d v c s = applyConfigureSeedClient v c (afterStarts d v c s) := by
  rcases apply_cases d v c s with ⟨hnot, heq⟩ | ⟨hnot, heq⟩ | ⟨_, hnot, heq⟩ |
    ⟨_, hclients, hgenesis, heq⟩
  · exact absurd (heq ▸ hsucc.build) hnot
  · exact absurd (heq ▸ hsucc.clients) hnot
  · exact absurd (heq ▸ hsucc.genesisFile) hnot
  · exact ⟨hclients, hgenesis, heq⟩

theorem afterStarts_staged (hd : d.Documented) (h : Inv d s) (hc : c.Valid v s)
    (hclients : (afterClients d v c s).configureClient.Complete v.numValidatorInstances)
    (hgenesis : (afterGenesis d v c s).generateGenesisFile.Complete v.genesisCount) :
    Staged d v (afterStarts d v c s) :=
  startValidator_staged (fun i => (hc.startOrder i).mp) hgenesis
    (generateGenesisFile_staged hd hclients (afterClients_staged hd h hc))

/-- What a successful apply leaves is staged for its variables. -/
theorem apply_staged (hd : d.Documented) (h : Inv d s) (hc : c.Valid v s)
    (hsucc : Succeeded v (apply d v c s)) : Staged d v (apply d v c s) := by
  obtain ⟨hclients, hgenesis, heq⟩ := apply_of_succeeded hsucc
  rw [heq]
  exact configureSeedClient_staged (fun i => (hc.seedOrder i).mp)
    (afterStarts_staged hd h hc hclients hgenesis)

end Apply

end Mandelbot.Deploy
