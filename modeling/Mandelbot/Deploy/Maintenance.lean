import Mandelbot.Deploy.Runs

/-!
# Maintaining a deployment

What a maintainer gets from an apply that succeeds, after any history of applies: validators that
share a genesis, run with it and peer with each other. An apply in which nothing breaks off
succeeds from every state that earlier ones can leave, whatever broke off in them.
-/

namespace Mandelbot.Deploy

open Shell

variable {ε : Type} {d : NodeDaemon} {v : Variables ε} {c : Conditions ε} {s : State ε}

section Creation

theorem Staged.length_publicIps (h : Staged d v s) :
    (publicIps s.validators).length = v.numValidatorInstances := by
  rw [publicIps, List.length_map, h.validators]

/-- No provisioner breaks off. -/
structure Conditions.Quiet (c : Conditions ε) : Prop where
  build : c.buildBreaks = false
  clients : ∀ i, c.clientBreaks i = false
  genesis : c.genesisBreaks = none
  starts : ∀ i, c.startBreaks i = false
  seeds : ∀ i, c.seedBreaks i = false

variable [DecidableEq ε]

/-- Before the clients are provisioned nothing is tainted. -/
private theorem createValidators_untainted (v : Variables ε) (c : Conditions ε) (s : State ε) :
    Untainted (createValidators v c (afterBuild v c s)) := by
  have hplan : Untainted (plan v c s) := plan_untainted
  obtain ⟨nextId, build, upload, seeds, seedMachines, heq, _⟩ := afterBuild_eq v c s
  have hbuilt : Untainted (afterBuild v c s) := by
    rw [heq]
    exact ⟨hplan.clients, hplan.genesisFile, hplan.starts, hplan.seedClients⟩
  rcases createValidators_cases v c (afterBuild v c s) with ⟨_, hsame⟩ | ⟨_, hnew⟩
  · rw [hsame]
    exact hbuilt
  · rw [hnew]
    exact ⟨hbuilt.clients, hbuilt.genesisFile, hbuilt.starts, hbuilt.seedClients⟩

private theorem afterBuild_complete (hquiet : c.Quiet) :
    (afterBuild v c s).buildLinuxExecutable.Complete v.buildCount := by
  obtain ⟨nextId, seeds, seedMachines, heq, _⟩ := createSeeds_plan_eq v c s
  have hfilled := filled_build v c (createSeeds v c (plan v c s))
  apply hfilled.complete fun i hi => List.mem_range.mpr hi
  apply intact_createAll v.code (I := fun _ => True) (fun _ _ _ _ => trivial)
  · intro i _ upload _
    simp [hquiet.build]
  · trivial
  · rw [heq]
    exact Slots.intact_prune _ _ _

private theorem clients_complete (hd : d.Documented) (hquiet : c.Quiet) (hc : c.Valid v s)
    (hlen : v.numValidatorInstances ≤ 3) :
    (afterClients d v c s).configureClient.Complete v.numValidatorInstances := by
  let s' := createValidators v c (afterBuild v c s)
  have hfilled := filled_createAll (s'.clientTriggers v)
    (runClient d c s'.upload (publicIps s'.validators)) c.order
    ⟨s'.configureClient, s'.nextId, s'.machines⟩
  apply hfilled.complete fun i hi => (hc.order i).mpr hi
  apply intact_createAll _ (I := fun _ => True) (fun _ _ _ _ => trivial)
  · intro i hi w _
    have hlt := (hc.order i).mp hi
    obtain ⟨config, _, hmachine⟩ :=
      configureMachine_eq hd s'.upload (publicIps s'.validators) (show i < 3 by omega)
    simp only [runClient, hquiet.clients i, Bool.false_eq_true, if_false, hmachine]
  · trivial
  · exact (createValidators_untainted v c s).clients

private theorem genesisFile_complete (hd : d.Documented) (h : Inv d s) (hquiet : c.Quiet)
    (hc : c.Valid v s) (hlen : v.numValidatorInstances ≤ 3) :
    (afterGenesis d v c s).generateGenesisFile.Complete v.genesisCount := by
  let s' := afterClients d v c s
  have hstaged : Staged d v s' := afterClients_staged hd h hc
  have hclients : s'.configureClient.Complete v.numValidatorInstances :=
    clients_complete hd hquiet hc hlen
  have hips := hstaged.length_publicIps
  have hfilled := filled_createAll (s'.configureClient.ids v.numValidatorInstances)
    (runGenesis d.toDaemon c (publicIps s'.validators)) (List.range v.genesisCount)
    ⟨s'.generateGenesisFile, s'.nextId, s'.machines⟩
  have hpos : ∀ i ∈ List.range v.genesisCount, 0 < (publicIps s'.validators).length ∧ i = 0 := by
    intro i hi
    have hlt := List.mem_range.mp hi
    rw [Variables.genesisCount] at hlt
    split at hlt
    · omega
    · omega
  have hprovisions : ∀ i ∈ List.range v.genesisCount,
      Provisions (runGenesis d.toDaemon c (publicIps s'.validators)) [i]
        (fun w => ∀ i, ConfiguredAt d (publicIps s'.validators) i w)
        (AssembledAt d (publicIps s'.validators)) := by
    intro i hi
    obtain ⟨hne, hzero⟩ := hpos i hi
    exact provisions_runGenesis hd hstaged.inv.inventory.validatorIps hne (by simp [hzero])
  apply hfilled.complete fun i hi => List.mem_range.mpr hi
  apply intact_createAll _ (I := fun w => ∀ i, ConfiguredAt d (publicIps s'.validators) i w)
  · intro i hi w hw
    exact (hprovisions i hi).keeps i (by simp) w hw
  · intro i hi w hw
    have hall : AllConfigured d (publicIps s'.validators) (hosts w) := fun j hj => (hw j hj).1
    exact (genesisProvisioners_again hd (hpos i hi).1 hstaged.inv.inventory.validatorIps hall
      c.genesisBreaks).2.2 hquiet.genesis
  · intro i hi
    obtain ⟨r, hr, hintact⟩ := hclients i (hips ▸ hi)
    exact hstaged.inv.validators.configured i r hr hintact hi
  · exact (createValidators_untainted v c s).genesisFile

private theorem starts_complete (hquiet : c.Quiet) (hc : c.Valid v s) :
    (afterStarts d v c s).startValidator.Complete v.numValidatorInstances := by
  let s' := afterGenesis d v c s
  have hfilled := filled_createAll (s'.generateGenesisFile.ids v.genesisCount)
    (runStart c (publicIps s'.validators)) c.startOrder
    ⟨s'.startValidator, s'.nextId, s'.machines⟩
  apply hfilled.complete fun i hi => (hc.startOrder i).mpr hi
  apply intact_createAll _ (I := fun _ => True) (fun _ _ _ _ => trivial)
  · intro i _ w _
    simp [runStart, hquiet.starts i]
  · trivial
  · exact (createValidators_untainted v c s).starts

private theorem seedClients_complete (hquiet : c.Quiet) (hc : c.Valid v s)
    (hlen : v.numSeedInstances ≤ 3)
    (havailable : v.numSeedInstances = 0 ∨ 0 < v.numValidatorInstances) :
    (applyConfigureSeedClient v c (afterStarts d v c s)).configureSeedClient.Complete
      v.numSeedInstances := by
  let s' := afterStarts d v c s
  have hfilled := filled_createAll (s'.seedTriggers v)
    (runSeed v c s'.upload s'.genesis (publicIps s'.seeds) (publicIps s'.validators)) c.seedOrder
    ⟨s'.configureSeedClient, s'.nextId, s'.seedMachines⟩
  apply hfilled.complete fun i hi => (hc.seedOrder i).mpr hi
  apply intact_createAll _ (I := fun _ => True) (fun _ _ _ _ => trivial)
  · intro i hi w _
    have hlt := (hc.seedOrder i).mp hi
    have hpos : 0 < v.numValidatorInstances := by omega
    have hsome : ∃ config, configureSeed ("genesis.json" :: uploadedKeys) i
        (ipsStr (publicIps s'.seeds)) (ipsStr (publicIps s'.validators)) = some config :=
      configureSeed_isSome_iff.mpr (by omega)
    obtain ⟨config, hconfig⟩ := hsome
    simp [runSeed, hquiet.seeds i, Variables.genesisFileAvailable, genesisCount_of_pos hpos,
      hconfig]
  · trivial
  · exact (createValidators_untainted v c s).seedClients

/-- An apply in which nothing breaks off creates everything that it is asked for. -/
theorem succeeded_of_quiet (hd : d.Documented) (hinv : Inv d s) (hc : c.Valid v s)
    (hquiet : c.Quiet) (hvalidators : v.numValidatorInstances ≤ 3)
    (hseeds : v.numSeedInstances ≤ 3)
    (havailable : v.numSeedInstances = 0 ∨ 0 < v.numValidatorInstances) :
    Succeeded v (apply d v c s) := by
  have hbuild : (afterBuild v c s).buildLinuxExecutable.Complete v.buildCount :=
    afterBuild_complete hquiet
  have hclients := clients_complete (s := s) hd hquiet hc hvalidators
  have hgenesis := genesisFile_complete hd hinv hquiet hc hvalidators
  have hstarts : (afterStarts d v c s).startValidator.Complete v.numValidatorInstances :=
    starts_complete hquiet hc
  have hseedClients : (applyConfigureSeedClient v c (afterStarts d v c s)).configureSeedClient.Complete
      v.numSeedInstances := seedClients_complete hquiet hc hseeds havailable
  rcases apply_cases d v c s with ⟨hnot, _⟩ | ⟨hnot, _⟩ | ⟨_, hnot, _⟩ | ⟨_, _, _, heq⟩
  · exact absurd hbuild hnot
  · exact absurd hclients hnot
  · exact absurd hgenesis hnot
  · rw [heq]
    refine ⟨?_, hclients, hgenesis, hstarts, hseedClients⟩
    have hsame : (createValidators v c (afterBuild v c s)).buildLinuxExecutable =
        (afterBuild v c s).buildLinuxExecutable := by
      rcases createValidators_cases v c (afterBuild v c s) with ⟨_, h⟩ | ⟨_, h⟩
      · rw [h]
      · rw [h]
    change (createValidators v c (afterBuild v c s)).buildLinuxExecutable.Complete v.buildCount
    rw [hsame]
    exact hbuild

end Creation

section Samples

def sampleIp (j : ℕ) : PublicIp := sampleIps[j]?.getD ⟨"10.0.2.21", by decide, by decide⟩

def sampleVariables (validators seeds : ℕ) : Variables ℕ where
  numValidatorInstances := validators
  numSeedInstances := seeds
  validatorFiles := "5891b5b5"
  seedFiles := "e258d248"
  code := 1

def sampleConditions (validators seeds : ℕ) : Conditions ℕ where
  lost _ := false
  lostSeeds _ := false
  validatorIps := sampleIp
  seedIps j := sampleIp (5 + j)
  image := ⟨⟨"", KeyedStore.empty, ⟨fun _ => none, []⟩⟩, ⟨"", "", "", ""⟩, none, none⟩
  seedImage := ⟨⟨fun _ => none, []⟩, ⟨"", "", "", ""⟩, none⟩
  order := List.range validators
  startOrder := List.range validators
  seedOrder := List.range seeds
  buildBreaks := false
  clientBreaks _ := false
  wreck _ := ⟨⟨"", KeyedStore.empty, ⟨fun _ => none, []⟩⟩, ⟨"", "", "", ""⟩, none, none⟩
  genesisBreaks := none
  startBreaks _ := false
  seedBreaks _ := false
  seedWreck _ := ⟨⟨fun _ => none, []⟩, ⟨"", "", "", ""⟩, none⟩

/-- Before the first apply. -/
def sampleState : State ℕ where
  nextId := 0
  buildLinuxExecutable := Slots.none
  upload := none
  validators := []
  configureClient := Slots.none
  generateGenesisFile := Slots.none
  startValidator := Slots.none
  machines _ := ⟨⟨"", KeyedStore.empty, ⟨fun _ => none, []⟩⟩, ⟨"", "", "", ""⟩, none, none⟩
  seeds := []
  configureSeedClient := Slots.none
  seedMachines _ := ⟨⟨fun _ => none, []⟩, ⟨"", "", "", ""⟩, none⟩

theorem sampleState_reachable : Reachable referenceNodeDaemon sampleState := .start

theorem sampleConditions_quiet (validators seeds : ℕ) :
    (sampleConditions validators seeds).Quiet :=
  ⟨rfl, fun _ => rfl, rfl, fun _ => rfl, fun _ => rfl⟩

theorem sampleConditions_valid :
    (sampleConditions 3 1).Valid (sampleVariables 3 1) sampleState where
  order _ := List.mem_range
  startOrder _ := List.mem_range
  seedOrder _ := List.mem_range
  validatorIps := by decide
  seedIps := by decide

theorem sample_succeeded :
    Succeeded (sampleVariables 3 1) (apply referenceNodeDaemon (sampleVariables 3 1)
      (sampleConditions 3 1) sampleState) :=
  succeeded_of_quiet referenceNodeDaemon_documented
    (sampleState_reachable.inv referenceNodeDaemon_documented) sampleConditions_valid
    (sampleConditions_quiet 3 1) (by decide) (by decide) (by decide)

end Samples

section Validators

theorem Staged.assembled (h : Staged d v s) (hsucc : Succeeded v s)
    (hpos : 0 < v.numValidatorInstances) :
    Assembled (stakeAt d ((publicIps s.validators).map PublicIp.text))
      ((publicIps s.validators).map PublicIp.text) (hosts s.machines) := by
  obtain ⟨g, hg, hintact⟩ := hsucc.genesisFile 0 (by rw [genesisCount_of_pos hpos]; omega)
  exact h.inv.validators.assembled 0 g hg hintact rfl

theorem Staged.genesis_shared (h : Staged d v s) (hsucc : Succeeded v s)
    (hpos : 0 < v.numValidatorInstances) :
    (∀ i < v.numValidatorInstances,
        (s.machines (ipAt (publicIps s.validators) i)).host.genesis = s.genesis) ∧
      s.genesis.genTxs.length = v.numValidatorInstances := by
  have hlen := h.length_publicIps
  obtain ⟨genesis, hshared, hperm, _⟩ := h.assembled hsucc hpos
  have hmem : ∀ i < v.numValidatorInstances,
      ipAt (publicIps s.validators) i ∈ (publicIps s.validators).map PublicIp.text := by
    intro i hi
    exact element_mem (by rw [List.length_map, hlen]; exact hi)
  have hfirst : s.genesis = genesis := hshared _ (hmem 0 hpos)
  rw [hfirst]
  refine ⟨fun i hi => hshared _ (hmem i hi), ?_⟩
  rw [hperm.length_eq, List.length_map, List.length_map, hlen]

end Validators

end Mandelbot.Deploy
