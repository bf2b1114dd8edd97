import Mandelbot.Deploy.Maintenance

/-!
# Applying to a settled deployment

What a further apply does after one that succeeded. The same variables change nothing, new code is
built but reaches no machine, and seeds are left with the genesis and the peers of the time when
they were configured.
-/

namespace Mandelbot.Deploy

open Shell

variable {ε : Type} {d : NodeDaemon} {v v' : Variables ε} {c c' : Conditions ε} {s : State ε}

/-- All instances that are asked for are still there. -/
structure Conditions.NothingLost (c : Conditions ε) (v : Variables ε) : Prop where
  validators : ∀ i < v.numValidatorInstances, c.lost i = false
  seeds : ∀ i < v.numSeedInstances, c.lostSeeds i = false

section Kept

theorem Staged.take_validators (h : Staged d v s) :
    s.validators.take v.numValidatorInstances = s.validators := by
  rw [← h.validators, List.take_length]

theorem Staged.take_seeds (h : Staged d v s) : s.seeds.take v.numSeedInstances = s.seeds := by
  rw [← h.seeds, List.take_length]

private theorem keptClients_settled (h : Staged d v s) (hsucc : Succeeded v s)
    (hlost : c.NothingLost v) : keptClients v c s = s.configureClient := by
  have hsurvives : survives s.validators v.numValidatorInstances c.lost = true :=
    survives_iff.mpr ⟨h.validators.ge, hlost.validators⟩
  rw [keptClients, if_pos hsurvives, h.take_validators]
  exact Slots.prune_of_complete hsucc.clients h.matching.clients

private theorem keptGenesisFile_settled (h : Staged d v s) (hsucc : Succeeded v s)
    (hlost : c.NothingLost v) : keptGenesisFile v c s = s.generateGenesisFile := by
  rw [keptGenesisFile, keptClients_settled h hsucc hlost,
    if_pos (Slots.isComplete_iff.mpr hsucc.clients)]
  exact Slots.prune_of_complete hsucc.genesisFile h.matching.genesisFile

private theorem keptStarts_settled (h : Staged d v s) (hsucc : Succeeded v s)
    (hlost : c.NothingLost v) : keptStarts v c s = s.startValidator := by
  rw [keptStarts, keptGenesisFile_settled h hsucc hlost,
    if_pos (Slots.isComplete_iff.mpr hsucc.genesisFile)]
  exact Slots.prune_of_complete hsucc.starts h.matching.starts

/-- The seeds' clients are kept under any variables that agree on the seeds. -/
private theorem keptSeedClients_settled (h : Staged d v s) (hsucc : Succeeded v s)
    (hnum : v'.numSeedInstances = v.numSeedInstances) (hfiles : v'.seedFiles = v.seedFiles)
    (havailable : v'.genesisFileAvailable = v.genesisFileAvailable)
    (hlost : ∀ i < v.numSeedInstances, c.lostSeeds i = false) :
    keptSeedClients v' c s = s.configureSeedClient := by
  have hsurvives : survives s.seeds v.numSeedInstances c.lostSeeds = true :=
    survives_iff.mpr ⟨h.seeds.ge, hlost⟩
  rw [keptSeedClients, hnum, if_pos hsurvives, h.take_seeds, havailable, hfiles]
  exact Slots.prune_of_complete hsucc.seedClients h.matching.seedClients

end Kept

section Present

/-- The instances are there already. -/
private theorem createSeeds_settled (h : s.seeds.length = v.numSeedInstances)
    (hlost : c.NothingLost v) : createSeeds v c s = s :=
  if_pos (survives_iff.mpr ⟨h.ge, hlost.seeds⟩)

private theorem createValidators_settled (h : s.validators.length = v.numValidatorInstances)
    (hlost : c.NothingLost v) : createValidators v c s = s :=
  if_pos (survives_iff.mpr ⟨h.ge, hlost.validators⟩)

private theorem applyStartValidator_of_complete
    (horder : ∀ i ∈ c.startOrder, i < v.numValidatorInstances)
    (hall : s.startValidator.Complete v.numValidatorInstances) :
    applyStartValidator v c s = s := by
  have hsome : ∀ i ∈ c.startOrder, ∃ r, s.startValidator i = some r := fun i hi =>
    (hall i (horder i hi)).imp fun _ hr => hr.1
  rw [applyStartValidator, createAll_of_some hsome]

private theorem applyConfigureSeedClient_of_complete
    (horder : ∀ i ∈ c.seedOrder, i < v.numSeedInstances)
    (hall : s.configureSeedClient.Complete v.numSeedInstances) :
    applyConfigureSeedClient v c s = s := by
  have hsome : ∀ i ∈ c.seedOrder, ∃ r, s.configureSeedClient i = some r := fun i hi =>
    (hall i (horder i hi)).imp fun _ hr => hr.1
  rw [applyConfigureSeedClient, createAll_of_some hsome]

end Present

section Samples

/-- Addresses that are all in use already are different. -/
private theorem valid_of_survives {n m : ℕ} {s : State ℕ} (h : Inv d s)
    (hv : survives s.validators n (fun _ => false) = true)
    (hs : survives s.seeds m (fun _ => false) = true) (code : ℕ) :
    (sampleConditions n m).Valid { sampleVariables n m with code := code } s where
  order _ := List.mem_range
  startOrder _ := List.mem_range
  seedOrder _ := List.mem_range
  validatorIps := by
    change ((publicIps (scale s.validators n s.nextId (fun _ => false) _)).map PublicIp.text).Nodup
    rw [scale_of_survives hv]
    exact h.inventory.validatorIps.sublist (((List.take_sublist _ _).map _).map _)
  seedIps := by
    change ((publicIps (scale s.seeds m s.nextId (fun _ => false) _)).map PublicIp.text).Nodup
    rw [scale_of_survives hs]
    exact h.inventory.seedIps.sublist (((List.take_sublist _ _).map _).map _)

def sampleSettled : State ℕ :=
  apply referenceNodeDaemon (sampleVariables 3 1) (sampleConditions 3 1) sampleState

private theorem sampleSettled_staged :
    Staged referenceNodeDaemon (sampleVariables 3 1) sampleSettled :=
  apply_staged referenceNodeDaemon_documented
    (sampleState_reachable.inv referenceNodeDaemon_documented) sampleConditions_valid
    sample_succeeded

private theorem sampleSettled_valid {n : ℕ} (hn : n ≤ 3) (code : ℕ) :
    (sampleConditions n 1).Valid { sampleVariables n 1 with code := code } sampleSettled :=
  valid_of_survives sampleSettled_staged.inv
    (survives_iff.mpr ⟨by rw [sampleSettled_staged.validators]; exact hn, fun _ _ => rfl⟩)
    (survives_iff.mpr ⟨sampleSettled_staged.seeds.ge, fun _ _ => rfl⟩) code

private theorem sampleConditions_nothingLost (n m : ℕ) (v : Variables ℕ) :
    (sampleConditions n m).NothingLost v := ⟨fun _ _ => rfl, fun _ _ => rfl⟩

end Samples

section Again

variable [DecidableEq ε]

private theorem plan_settled (h : Staged d v s) (hsucc : Succeeded v s) (hlost : c.NothingLost v)
    (code : ε) :
    plan { v with code := code } c s =
      { s with buildLinuxExecutable := s.buildLinuxExecutable.prune code v.buildCount } := by
  have hclients : keptClients { v with code := code } c s = s.configureClient :=
    (keptClients_settled h hsucc hlost :)
  have hgenesis : keptGenesisFile { v with code := code } c s = s.generateGenesisFile :=
    (keptGenesisFile_settled h hsucc hlost :)
  have hstarts : keptStarts { v with code := code } c s = s.startValidator :=
    (keptStarts_settled h hsucc hlost :)
  have hseeds : keptSeedClients { v with code := code } c s = s.configureSeedClient :=
    keptSeedClients_settled h hsucc rfl rfl rfl hlost.seeds
  rw [plan, hclients, hgenesis, hstarts, hseeds]
  simp only [h.take_validators, h.take_seeds]
  rfl

/-- With other code nothing but the executable is dropped and created. -/
private theorem apply_settled (h : Staged d v s) (hsucc : Succeeded v s) (code : ε)
    (hc : c.Valid { v with code := code } s) (hlost : c.NothingLost v) :
    apply d { v with code := code } c s = applyBuildLinuxExecutable { v with code := code } c
      { s with buildLinuxExecutable := s.buildLinuxExecutable.prune code v.buildCount } := by
  let v' := { v with code := code }
  let t := { s with buildLinuxExecutable := s.buildLinuxExecutable.prune code v.buildCount }
  let b := applyBuildLinuxExecutable v' c t
  have hlost' : c.NothingLost v' := ⟨hlost.validators, hlost.seeds⟩
  have hbuild : afterBuild v' c s = b := by
    have hplan : plan v' c s = t := plan_settled h hsucc hlost code
    have hseeds : createSeeds v' c t = t := createSeeds_settled h.seeds hlost'
    rw [afterBuild, hplan, hseeds]
  have hclients : afterClients d v' c s = b := by
    have hvalidators : createValidators v' c b = b := createValidators_settled h.validators hlost'
    rw [afterClients, hbuild, hvalidators]
    exact applyConfigureClient_of_complete (fun i => (hc.order i).mp) hsucc.clients
  have hgenesis : afterGenesis d v' c s = b := by
    rw [afterGenesis, hclients]
    exact applyGenerateGenesisFile_of_complete hsucc.genesisFile
  have hstarts : afterStarts d v' c s = b := by
    rw [afterStarts, hgenesis]
    exact applyStartValidator_of_complete (fun i => (hc.startOrder i).mp) hsucc.starts
  rcases apply_cases d v' c s with ⟨_, heq⟩ | ⟨_, heq⟩ | ⟨_, _, heq⟩ | ⟨_, _, _, heq⟩
  · exact heq.trans hbuild
  · exact heq.trans hclients
  · exact heq.trans hgenesis
  · refine heq.trans ?_
    rw [hstarts]
    exact applyConfigureSeedClient_of_complete (fun i => (hc.seedOrder i).mp) hsucc.seedClients

/-- After an apply that succeeded, another one with the same variables changes nothing as long as
no instance is lost. -/
theorem apply_again (hd : d.Documented) (h : Reachable d s) (hc : c.Valid v s)
    (hsucc : Succeeded v (apply d v c s)) (hc' : c'.Valid v (apply d v c s))
    (hlost : c'.NothingLost v) : apply d v c' (apply d v c s) = apply d v c s := by
  have hstaged := apply_staged hd (h.inv hd) hc hsucc
  have hsettled := apply_settled hstaged hsucc v.code hc' hlost
  have hkept : (apply d v c s).buildLinuxExecutable.prune v.code v.buildCount =
      (apply d v c s).buildLinuxExecutable :=
    Slots.prune_of_complete hsucc.build hstaged.matching.build
  have hsome : ∀ i ∈ List.range v.buildCount,
      ∃ r, (apply d v c s).buildLinuxExecutable i = some r := fun i hi =>
    (hsucc.build i (List.mem_range.mp hi)).imp fun _ hr => hr.1
  rw [hkept] at hsettled
  refine hsettled.trans ?_
  rw [applyBuildLinuxExecutable, createAll_of_some hsome]

theorem apply_again_sample :
    apply referenceNodeDaemon (sampleVariables 3 1) (sampleConditions 3 1) sampleSettled =
      sampleSettled :=
  apply_again referenceNodeDaemon_documented sampleState_reachable sampleConditions_valid
    sample_succeeded (sampleSettled_valid (Nat.le_refl 3) 1) (sampleConditions_nothingLost 3 1 _)

end Again

section Seeds

variable [DecidableEq ε]

/-- A seed with the genesis that peers with every validator. -/
structure Follows (genesis : Genesis) (ips : List PublicIp) (m : SeedMachine ε) : Prop where
  genesis : m.genesis = genesis
  peers : peerList m.config.persistentPeers = (List.range ips.length).map (peerEntry nodeId ips)

/-- The seed machine that has index `i`. -/
def State.seedAt (s : State ε) (i : ℕ) : SeedMachine ε :=
  s.seedMachines (ipAt (publicIps s.seeds) i)

omit [DecidableEq ε] in
private theorem follows_of_synced {i : ℕ} (hi : i < s.seeds.length)
    (h : SyncedAt s.genesis (publicIps s.validators) (publicIps s.seeds) i s.seedMachines) :
    Follows s.genesis (publicIps s.validators) (s.seedAt i) := by
  obtain ⟨hgenesis, hconfig⟩ := h (by rw [publicIps, List.length_map]; exact hi)
  exact ⟨hgenesis, peerList_configureSeed hconfig⟩

omit [DecidableEq ε] in
private theorem createValidators_seeds (v : Variables ε) (c : Conditions ε) (s : State ε) :
    (createValidators v c s).seeds = s.seeds ∧
      (createValidators v c s).seedMachines = s.seedMachines ∧
      (createValidators v c s).configureSeedClient = s.configureSeedClient := by
  rcases createValidators_cases v c s with ⟨_, heq⟩ | ⟨_, heq⟩
  · rw [heq]
    exact ⟨rfl, rfl, rfl⟩
  · rw [heq]
    exact ⟨rfl, rfl, rfl⟩

/-- Until their clients are provisioned the seeds are as their instances were created. -/
private theorem afterStarts_seeds (d : NodeDaemon) (v : Variables ε) (c : Conditions ε)
    (s : State ε) :
    (afterStarts d v c s).seeds = (createSeeds v c (plan v c s)).seeds ∧
      (afterStarts d v c s).seedMachines = (createSeeds v c (plan v c s)).seedMachines ∧
      (afterStarts d v c s).configureSeedClient = keptSeedClients v c s := by
  obtain ⟨hseeds, hmachines, hclients⟩ := createValidators_seeds v c (afterBuild v c s)
  refine ⟨hseeds, hmachines, hclients.trans ?_⟩
  obtain ⟨nextId, seeds, seedMachines, heq, _⟩ := createSeeds_plan_eq v c s
  change (createSeeds v c (plan v c s)).configureSeedClient = _
  rw [heq]
  rfl

/-- A kept client means that no seed's instance had to be created. -/
private theorem createSeeds_of_kept (h : Inv d s) {i : ℕ} {r : Resource (Bool × List ℕ × String)}
    (hr : keptSeedClients v c s i = some r) : (createSeeds v c (plan v c s)).seeds = s.seeds ∧
      (createSeeds v c (plan v c s)).seedMachines = s.seedMachines := by
  obtain ⟨_, _, _, _, hsurvives⟩ := keptSeedClients_eq_some hr
  have hsame : createSeeds v c (plan v c s) = plan v c s :=
    if_pos ((survives_take (n := v.numSeedInstances)).trans hsurvives)
  rw [hsame]
  exact ⟨keptSeedClients_seeds h.seeds hr, rfl⟩

private theorem follows_or_kept (hd : d.Documented) (hinv : Inv d s) (hc : c.Valid v s)
    (hsucc : Succeeded v (apply d v c s)) {i : ℕ} (hi : i < v.numSeedInstances) :
    Follows (apply d v c s).genesis (publicIps (apply d v c s).validators)
        ((apply d v c s).seedAt i) ∨
      ((∃ r, keptSeedClients v c s i = some r) ∧ (apply d v c s).seedAt i = s.seedAt i) := by
  obtain ⟨hclients, hgenesis, heq⟩ := apply_of_succeeded hsucc
  have hstaged := apply_staged hd hinv hc hsucc
  let t := afterStarts d v c s
  have ht : Staged d v t := afterStarts_staged hd hinv hc hclients hgenesis
  obtain ⟨hseeds, hmachines, hslots⟩ := afterStarts_seeds d v c s
  let site : Site (Bool × List ℕ × String) (String → SeedMachine ε) :=
    ⟨t.configureSeedClient, t.nextId, t.seedMachines⟩
  have hlen : (publicIps t.seeds).length = v.numSeedInstances := by
    rw [publicIps, List.length_map, ht.seeds]
  have hprovisions : Provisions
      (runSeed v c t.upload t.genesis (publicIps t.seeds) (publicIps t.validators)) c.seedOrder
      (fun _ => True) (fun i w => ((∃ r, keptSeedClients v c s i = some r) ∧
        w (ipAt (publicIps t.seeds) i) = t.seedAt i) ∨
        SyncedAt t.genesis (publicIps t.validators) (publicIps t.seeds) i w) :=
    provisions_runSeed ht.inv.inventory.seedIps
      (fun i hi => by rw [hlen]; exact (hc.seedOrder i).mp hi) t.upload
      (fun i m => (∃ r, keptSeedClients v c s i = some r) ∧ m = t.seedAt i)
  have hbefore : Sound (fun i w => ((∃ r, keptSeedClients v c s i = some r) ∧
        w (ipAt (publicIps t.seeds) i) = t.seedAt i) ∨
        SyncedAt t.genesis (publicIps t.validators) (publicIps t.seeds) i w)
      site.slots site.world := by
    intro i r hr _
    have hkept : t.configureSeedClient i = some r := hr
    rw [hslots] at hkept
    exact .inl ⟨⟨r, hkept⟩, rfl⟩
  obtain ⟨r, hr, hintact⟩ := hsucc.seedClients i hi
  rw [heq] at hr
  rcases (sound_createAll (t.seedTriggers v) site hprovisions trivial hbefore).2 i r hr hintact
    with ⟨⟨r', hr'⟩, hsame⟩ | hsynced
  · right
    obtain ⟨hseeds', hmachines'⟩ := createSeeds_of_kept hinv hr'
    refine ⟨⟨r', hr'⟩, ?_⟩
    rw [heq]
    refine hsame.trans ?_
    rw [State.seedAt, State.seedAt, hseeds, hmachines, hseeds', hmachines']
  · left
    rw [heq]
    exact follows_of_synced (by rw [← heq, hstaged.seeds]; exact hi) hsynced

/-- After an apply that succeeds every seed either follows the validators or is the one that was
there before, with the client that was kept. -/
theorem apply_seeds (hd : d.Documented) (h : Reachable d s) (hc : c.Valid v s)
    (hsucc : Succeeded v (apply d v c s)) :
    ∀ i < v.numSeedInstances,
      Follows (apply d v c s).genesis (publicIps (apply d v c s).validators)
          ((apply d v c s).seedAt i) ∨
        ((∃ r, keptSeedClients v c s i = some r) ∧ (apply d v c s).seedAt i = s.seedAt i) :=
  fun _ hi => follows_or_kept hd (h.inv hd) hc hsucc hi

theorem apply_seeds_sample :
    Follows sampleSettled.genesis (publicIps sampleSettled.validators) (sampleSettled.seedAt 0) ∨
      ((∃ r, keptSeedClients (sampleVariables 3 1) (sampleConditions 3 1) sampleState 0 = some r) ∧
        sampleSettled.seedAt 0 = sampleState.seedAt 0) :=
  apply_seeds referenceNodeDaemon_documented sampleState_reachable sampleConditions_valid
    sample_succeeded 0 (by decide)

/-- Whatever breaks off, seeds that are asked for as before stay as they are. -/
private theorem apply_keepsSeeds (h : Staged d v s) (hsucc : Succeeded v s)
    (hnum : v'.numSeedInstances = v.numSeedInstances) (hfiles : v'.seedFiles = v.seedFiles)
    (havailable : v'.genesisFileAvailable = v.genesisFileAvailable)
    (hlost : ∀ i < v.numSeedInstances, c.lostSeeds i = false) (hc : c.Valid v' s) :
    (apply d v' c s).seeds = s.seeds ∧ (apply d v' c s).seedMachines = s.seedMachines := by
  have hkept : keptSeedClients v' c s = s.configureSeedClient :=
    keptSeedClients_settled h hsucc hnum hfiles havailable hlost
  have htake : s.seeds.take v'.numSeedInstances = s.seeds := by rw [hnum, h.take_seeds]
  have hsurvives : survives (s.seeds.take v'.numSeedInstances) v'.numSeedInstances c.lostSeeds =
      true := by
    rw [htake, hnum]
    exact survives_iff.mpr ⟨h.seeds.ge, hlost⟩
  have hsame : createSeeds v' c (plan v' c s) = plan v' c s := if_pos hsurvives
  have hseeds : (createSeeds v' c (plan v' c s)).seeds = s.seeds := by
    rw [hsame]
    exact htake
  have hmachines : (createSeeds v' c (plan v' c s)).seedMachines = s.seedMachines := by
    rw [hsame]
    rfl
  obtain ⟨hcreated, hcreated', _⟩ := createValidators_seeds v' c (afterBuild v' c s)
  rcases apply_cases d v' c s with ⟨_, heq⟩ | ⟨_, heq⟩ | ⟨_, _, heq⟩ | ⟨_, _, _, heq⟩
  · rw [heq]
    exact ⟨hseeds, hmachines⟩
  · rw [heq]
    exact ⟨hcreated.trans hseeds, hcreated'.trans hmachines⟩
  · rw [heq]
    exact ⟨hcreated.trans hseeds, hcreated'.trans hmachines⟩
  · obtain ⟨hseeds', hmachines', hslots⟩ := afterStarts_seeds d v' c s
    have hall : (afterStarts d v' c s).configureSeedClient.Complete v'.numSeedInstances := by
      rw [hslots, hkept, hnum]
      exact hsucc.seedClients
    rw [heq, applyConfigureSeedClient_of_complete (fun i => (hc.seedOrder i).mp) hall]
    exact ⟨hseeds'.trans hseeds, hmachines'.trans hmachines⟩

/-- A change of the number of validators gives them a new genesis, but the seeds keep the old one
and the peers that they had. -/
theorem apply_leavesSeedsBehind (hd : d.Documented) (h : Reachable d s) (hc : c.Valid v s)
    (hsucc : Succeeded v (apply d v c s)) (hc' : c'.Valid v' (apply d v c s))
    (hsucc' : Succeeded v' (apply d v' c' (apply d v c s)))
    (hpos : 0 < v.numValidatorInstances) (hpos' : 0 < v'.numValidatorInstances)
    (hne : v'.numValidatorInstances ≠ v.numValidatorInstances)
    (hnum : v'.numSeedInstances = v.numSeedInstances) (hfiles : v'.seedFiles = v.seedFiles)
    (hlost : ∀ i < v.numSeedInstances, c'.lostSeeds i = false) (i : ℕ)
    (hfollows : Follows (apply d v c s).genesis (publicIps (apply d v c s).validators)
      ((apply d v c s).seedAt i)) :
    (apply d v' c' (apply d v c s)).seedAt i = (apply d v c s).seedAt i ∧
      ((apply d v c s).seedAt i).genesis ≠ (apply d v' c' (apply d v c s)).genesis ∧
      peerList ((apply d v c s).seedAt i).config.persistentPeers ≠
        (List.range v'.numValidatorInstances).map
          (peerEntry nodeId (publicIps (apply d v' c' (apply d v c s)).validators)) := by
  have hreach : Reachable d (apply d v c s) := h.apply hc
  have hstaged := apply_staged hd (h.inv hd) hc hsucc
  have hstaged' := apply_staged hd (hreach.inv hd) hc' hsucc'
  have havailable : v'.genesisFileAvailable = v.genesisFileAvailable := by
    rw [Variables.genesisFileAvailable, Variables.genesisFileAvailable, genesisCount_of_pos hpos,
      genesisCount_of_pos hpos']
  obtain ⟨hseeds, hmachines⟩ :=
    apply_keepsSeeds hstaged hsucc hnum hfiles havailable hlost hc'
  refine ⟨by rw [State.seedAt, State.seedAt, hseeds, hmachines], ?_, ?_⟩
  · intro hsame
    have hlen := (hstaged.genesis_shared hsucc hpos).2
    rw [← hfollows.genesis, hsame, (hstaged'.genesis_shared hsucc' hpos').2] at hlen
    exact hne hlen
  · intro hsame
    have hlen := congrArg List.length (hfollows.peers.symm.trans hsame)
    rw [List.length_map, List.length_map, List.length_range, List.length_range,
      hstaged.length_publicIps] at hlen
    exact hne hlen.symm

private theorem sampleSettled_succeeded :
    Succeeded (sampleVariables 2 1) (apply referenceNodeDaemon (sampleVariables 2 1)
      (sampleConditions 2 1) sampleSettled) :=
  succeeded_of_quiet referenceNodeDaemon_documented sampleSettled_staged.inv
    (sampleSettled_valid (by decide) 1) (sampleConditions_quiet 2 1) (by decide) (by decide)
    (by decide)

private theorem sampleSettled_follows :
    Follows sampleSettled.genesis (publicIps sampleSettled.validators)
      (sampleSettled.seedAt 0) := by
  rcases follows_or_kept referenceNodeDaemon_documented
    (sampleState_reachable.inv referenceNodeDaemon_documented) sampleConditions_valid
    sample_succeeded (show 0 < 1 by omega) with hfollows | ⟨⟨r, hr⟩, _⟩
  · exact hfollows
  · have hold : sampleState.configureSeedClient 0 = some r := (keptSeedClients_eq_some hr).2.1
    cases hold

theorem apply_leavesSeedsBehind_sample :
    (sampleSettled.seedAt 0).genesis ≠ (apply referenceNodeDaemon (sampleVariables 2 1)
      (sampleConditions 2 1) sampleSettled).genesis :=
  (apply_leavesSeedsBehind (i := 0) referenceNodeDaemon_documented sampleState_reachable
    sampleConditions_valid sample_succeeded (sampleSettled_valid (by decide) 1)
    sampleSettled_succeeded (by decide) (by decide) (by decide) rfl rfl (fun _ _ => rfl)
    sampleSettled_follows).2.1

end Seeds

end Mandelbot.Deploy
