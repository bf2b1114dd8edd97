import Mandelbot.Deploy.Retry

/-!
# The life of a deployment

What holds after any number of applies, whatever each of them met: machines that Terraform takes
for configured are configured for the validators that exist, a genesis that it takes for generated
is assembled on them, and services that it takes for started run with it. Seeds keep the genesis
and the peers of the time when they were configured.
-/

namespace Mandelbot.Deploy

open Shell

variable {ε : Type} {d : NodeDaemon} {v : Variables ε} {c : Conditions ε} {s : State ε}

/-- Machine `i` is configured for the addresses. -/
def ConfiguredAt (d : NodeDaemon) (ips : List PublicIp) (i : ℕ) (machines : String → Machine ε) :
    Prop :=
  i < ips.length → ConfiguredHost d ips.length i (machines (ipAt ips i)).host ∧
    configureValidator uploadedKeys i (ipsStr ips) = some (machines (ipAt ips i)).config

def AssembledAt (d : NodeDaemon) (ips : List PublicIp) (i : ℕ) (machines : String → Machine ε) :
    Prop :=
  i = 0 → Assembled (stakeAt d (ips.map PublicIp.text)) (ips.map PublicIp.text) (hosts machines)

/-- The service of machine `i` runs with what is on the machine. -/
def RunningAt (ips : List PublicIp) (i : ℕ) (machines : String → Machine ε) : Prop :=
  (machines (ipAt ips i)).running = (machines (ipAt ips i)).start.running

/-- Seed `i` has the genesis of the validators and peers with all of them. -/
def SyncedAt (genesis : Genesis) (ips seedIps : List PublicIp) (i : ℕ)
    (machines : String → SeedMachine ε) : Prop :=
  i < seedIps.length → (machines (ipAt seedIps i)).genesis = genesis ∧
    configureSeed ("genesis.json" :: uploadedKeys) i (ipsStr seedIps) (ipsStr ips) =
      some (machines (ipAt seedIps i)).config

/-- The genesis of the first validator. -/
def State.genesis (s : State ε) : Genesis :=
  (s.machines (primaryIp ((publicIps s.validators).map PublicIp.text))).host.genesis

structure Inventory (s : State ε) : Prop where
  validatorIps : ((publicIps s.validators).map PublicIp.text).Nodup
  seedIps : ((publicIps s.seeds).map PublicIp.text).Nodup

/-- A dependent exists only as long as all that it depends on is intact. -/
structure ValidatorsSound (d : NodeDaemon) (s : State ε) : Prop where
  clients : ∀ i r, s.configureClient i = some r →
    i < s.validators.length ∧ r.triggers.1 = serverIds s.validators
  configured : Sound (ConfiguredAt d (publicIps s.validators)) s.configureClient s.machines
  genesisFile : ∀ i r, s.generateGenesisFile i = some r →
    s.configureClient.Complete s.validators.length
  assembled : Sound (AssembledAt d (publicIps s.validators)) s.generateGenesisFile s.machines
  starts : ∀ i r, s.startValidator i = some r → s.generateGenesisFile.Complete 1
  running : Sound (RunningAt (publicIps s.validators)) s.startValidator s.machines

/-- A seed that was configured after the genesis was generated has it. -/
structure SeedsSound (s : State ε) : Prop where
  clients : ∀ i r, s.configureSeedClient i = some r →
    i < s.seeds.length ∧ r.triggers.2.1 = serverIds s.seeds ∧ r.id < s.nextId
  available : ∀ i r, s.configureSeedClient i = some r → r.tainted = false →
    i < 3 ∧ r.triggers.1 = true
  genesisIds : ∀ i r, s.generateGenesisFile i = some r → r.id < s.nextId
  synced : ∀ i r g, s.configureSeedClient i = some r → r.tainted = false →
    s.generateGenesisFile 0 = some g → g.tainted = false → g.id < r.id →
      SyncedAt s.genesis (publicIps s.validators) (publicIps s.seeds) i s.seedMachines

structure Inv (d : NodeDaemon) (s : State ε) : Prop where
  inventory : Inventory s
  validators : ValidatorsSound d s
  seeds : SeedsSound s

section Servers

variable {servers : List Server} {n k : ℕ} {lost : ℕ → Bool} {newIp : ℕ → PublicIp}

theorem survives_iff : survives servers n lost = true ↔
    n ≤ servers.length ∧ ∀ j < n, lost j = false := by
  simp [survives]

theorem survives_take : survives (servers.take n) n lost = survives servers n lost := by
  rw [Bool.eq_iff_iff, survives_iff, survives_iff, List.length_take, Nat.le_min]
  exact and_congr_left fun _ => and_iff_right le_rfl

theorem length_scale : (scale servers n k lost newIp).length = n := by
  rw [scale, List.length_map, List.length_range]

/-- The addresses do not depend on the ids, nor on the instances that are dropped. -/
theorem publicIps_scale_take (servers : List Server) (n k k' : ℕ) (lost : ℕ → Bool)
    (newIp : ℕ → PublicIp) :
    publicIps (scale (servers.take n) n k lost newIp) =
      publicIps (scale servers n k' lost newIp) := by
  rw [publicIps, publicIps, scale, scale, List.map_map, List.map_map]
  apply List.map_congr_left
  intro j hj
  have hlt := List.mem_range.mp hj
  simp only [Function.comp_apply, List.getElem?_take, if_pos hlt]
  cases servers[j]? with
  | none => rfl
  | some server => cases lost j <;> rfl

/-- What survives is a front part of the servers, and keeps its addresses. -/
theorem scale_of_survives (h : survives servers n lost = true) :
    scale servers n k lost newIp = servers.take n := by
  obtain ⟨hlen, hlost⟩ := survives_iff.mp h
  apply List.ext_getElem
  · rw [length_scale, List.length_take, Nat.min_eq_left hlen]
  · intro j hj hj'
    rw [length_scale] at hj
    simp [scale, List.getElem?_eq_getElem (show j < servers.length by omega), hlost j hj]

end Servers

section Plan

/-- A plan keeps either no client or all validators. -/
theorem keptClients_cases (v : Variables ε) (c : Conditions ε) (h : ValidatorsSound d s) :
    keptClients v c s = Slots.none ∨
      (v.numValidatorInstances = s.validators.length ∧
        s.validators.take v.numValidatorInstances = s.validators) := by
  by_cases hsurvives : survives s.validators v.numValidatorInstances c.lost = true
  · by_cases hlen : v.numValidatorInstances = s.validators.length
    · right
      exact ⟨hlen, by rw [hlen, List.take_length]⟩
    · left
      funext i
      rw [Slots.none, Option.eq_none_iff_forall_ne_some]
      intro r hr
      rw [keptClients, if_pos hsurvives] at hr
      obtain ⟨_, hold, htriggers, _⟩ := Slots.prune_eq_some.mp hr
      have hids := congrArg (List.length ∘ Prod.fst) htriggers
      have hle := (survives_iff.mp hsurvives).1
      simp only [Function.comp_apply, (h.clients i r hold).2, serverIds, List.length_map,
        List.length_take] at hids
      omega
  · left
    rw [keptClients, if_neg hsurvives]

theorem keptClients_eq_some {i : ℕ} {r : Resource (List ℕ × String)}
    (h : keptClients v c s i = some r) :
    i < v.numValidatorInstances ∧ s.configureClient i = some r ∧
      r.triggers = (serverIds (s.validators.take v.numValidatorInstances), v.validatorFiles) ∧
      r.tainted = false ∧ survives s.validators v.numValidatorInstances c.lost = true := by
  rw [keptClients] at h
  split at h
  · rename_i hsurvives
    obtain ⟨hi, hold, htriggers, hintact⟩ := Slots.prune_eq_some.mp h
    exact ⟨hi, hold, htriggers, hintact, hsurvives⟩
  · cases h

theorem keptGenesisFile_eq_some {i : ℕ} {r : Resource (List ℕ)}
    (h : keptGenesisFile v c s i = some r) :
    (keptClients v c s).Complete v.numValidatorInstances ∧ i < v.genesisCount ∧
      s.generateGenesisFile i = some r ∧
      r.triggers = (keptClients v c s).ids v.numValidatorInstances ∧ r.tainted = false := by
  rw [keptGenesisFile] at h
  split at h
  · rename_i hall
    exact ⟨Slots.isComplete_iff.mp hall, Slots.prune_eq_some.mp h⟩
  · cases h

theorem keptStarts_eq_some {i : ℕ} {r : Resource (List ℕ)} (h : keptStarts v c s i = some r) :
    (keptGenesisFile v c s).Complete v.genesisCount ∧ i < v.numValidatorInstances ∧
      s.startValidator i = some r ∧
      r.triggers = (keptGenesisFile v c s).ids v.genesisCount ∧ r.tainted = false := by
  rw [keptStarts] at h
  split at h
  · rename_i hall
    exact ⟨Slots.isComplete_iff.mp hall, Slots.prune_eq_some.mp h⟩
  · cases h

theorem keptSeedClients_eq_some {i : ℕ} {r : Resource (Bool × List ℕ × String)}
    (h : keptSeedClients v c s i = some r) :
    i < v.numSeedInstances ∧ s.configureSeedClient i = some r ∧
      r.triggers = (v.genesisFileAvailable, serverIds (s.seeds.take v.numSeedInstances),
        v.seedFiles) ∧
      r.tainted = false ∧ survives s.seeds v.numSeedInstances c.lostSeeds = true := by
  rw [keptSeedClients] at h
  split at h
  · rename_i hsurvives
    obtain ⟨hi, hold, htriggers, hintact⟩ := Slots.prune_eq_some.mp h
    exact ⟨hi, hold, htriggers, hintact, hsurvives⟩
  · cases h

end Plan

section Planned

/-- A genesis is kept with all validators only. -/
theorem keptGenesisFile_validators (h : ValidatorsSound d s) {i : ℕ} {r : Resource (List ℕ)}
    (hr : keptGenesisFile v c s i = some r) :
    v.numValidatorInstances = s.validators.length ∧
      s.validators.take v.numValidatorInstances = s.validators ∧
      0 < v.numValidatorInstances := by
  obtain ⟨hall, hi, _⟩ := keptGenesisFile_eq_some hr
  have hpos : 0 < v.numValidatorInstances := by
    by_contra hzero
    rw [Variables.genesisCount, if_neg hzero] at hi
    cases hi
  rcases keptClients_cases v c h with hnone | ⟨hlen, htake⟩
  · obtain ⟨r, hr, _⟩ := hall 0 hpos
    rw [hnone] at hr
    cases hr
  · exact ⟨hlen, htake, hpos⟩

theorem genesisCount_of_pos (h : 0 < v.numValidatorInstances) : v.genesisCount = 1 := if_pos h

private theorem plan_validators [DecidableEq ε] (h : ValidatorsSound d s) :
    ValidatorsSound d (plan v c s) where
  clients i r hr := by
    change keptClients v c s i = some r at hr
    obtain ⟨hi, _, htriggers, _⟩ := keptClients_eq_some hr
    rcases keptClients_cases v c h with hnone | ⟨hlen, htake⟩
    · rw [hnone] at hr
      cases hr
    · change i < (s.validators.take v.numValidatorInstances).length ∧ _
      rw [htake, ← hlen]
      exact ⟨hi, by rw [htriggers]; rfl⟩
  configured i r hr hintact := by
    change keptClients v c s i = some r at hr
    change ConfiguredAt d (publicIps (s.validators.take v.numValidatorInstances)) i s.machines
    rcases keptClients_cases v c h with hnone | ⟨_, htake⟩
    · rw [hnone] at hr
      cases hr
    · rw [htake]
      exact h.configured i r (keptClients_eq_some hr).2.1 hintact
  genesisFile i r hr := by
    change keptGenesisFile v c s i = some r at hr
    obtain ⟨hlen, htake, _⟩ := keptGenesisFile_validators h hr
    change (keptClients v c s).Complete (s.validators.take v.numValidatorInstances).length
    rw [htake, ← hlen]
    exact (keptGenesisFile_eq_some hr).1
  assembled i r hr hintact := by
    change keptGenesisFile v c s i = some r at hr
    change AssembledAt d (publicIps (s.validators.take v.numValidatorInstances)) i s.machines
    rw [(keptGenesisFile_validators h hr).2.1]
    exact h.assembled i r (keptGenesisFile_eq_some hr).2.2.1 hintact
  starts i r hr := by
    change keptStarts v c s i = some r at hr
    change (keptGenesisFile v c s).Complete 1
    obtain ⟨hall, hi, _⟩ := keptStarts_eq_some hr
    rwa [genesisCount_of_pos (by omega)] at hall
  running i r hr hintact := by
    change keptStarts v c s i = some r at hr
    change RunningAt (publicIps (s.validators.take v.numValidatorInstances)) i s.machines
    obtain ⟨hall, hi, hold, _⟩ := keptStarts_eq_some hr
    rw [genesisCount_of_pos (by omega)] at hall
    obtain ⟨g, hg, _⟩ := hall 0 (by omega)
    rw [(keptGenesisFile_validators h hg).2.1]
    exact h.running i r hold hintact

/-- A kept seed is kept with all seeds. -/
theorem keptSeedClients_seeds (h : SeedsSound s) {i : ℕ} {r : Resource (Bool × List ℕ × String)}
    (hr : keptSeedClients v c s i = some r) : s.seeds.take v.numSeedInstances = s.seeds := by
  obtain ⟨_, hold, htriggers, _⟩ := keptSeedClients_eq_some hr
  have hids := congrArg (fun t => t.2.1.length) htriggers
  simp only [(h.clients i r hold).2.1, serverIds, List.length_map, List.length_take] at hids
  exact List.take_of_length_le (by omega)

private theorem plan_seeds [DecidableEq ε] (hv : ValidatorsSound d s) (h : SeedsSound s) :
    SeedsSound (plan v c s) where
  clients i r hr := by
    change keptSeedClients v c s i = some r at hr
    obtain ⟨hi, hold, htriggers, _, hsurvives⟩ := keptSeedClients_eq_some hr
    have hle := (survives_iff.mp hsurvives).1
    change i < (s.seeds.take v.numSeedInstances).length ∧ _
    rw [List.length_take, htriggers]
    exact ⟨by omega, rfl, (h.clients i r hold).2.2⟩
  available i r hr := h.available i r (keptSeedClients_eq_some hr).2.1
  genesisIds i r hr := h.genesisIds i r (keptGenesisFile_eq_some hr).2.2.1
  synced i r g hr hintact hg hgintact hlt := by
    change keptSeedClients v c s i = some r at hr
    change keptGenesisFile v c s 0 = some g at hg
    have hsynced := h.synced i r g (keptSeedClients_eq_some hr).2.1 hintact
      (keptGenesisFile_eq_some hg).2.2.1 hgintact hlt
    rw [State.genesis]
    change SyncedAt (s.machines (primaryIp ((publicIps
      (s.validators.take v.numValidatorInstances)).map PublicIp.text))).host.genesis
      (publicIps (s.validators.take v.numValidatorInstances))
      (publicIps (s.seeds.take v.numSeedInstances)) i s.seedMachines
    rw [(keptGenesisFile_validators hv hg).2.1, keptSeedClients_seeds h hr]
    exact hsynced

theorem plan_inv [DecidableEq ε] (h : Inv d s) : Inv d (plan v c s) where
  inventory := by
    constructor
    · have hsub : (((publicIps (s.validators.take v.numValidatorInstances)).map
          PublicIp.text)).Sublist ((publicIps s.validators).map PublicIp.text) :=
        ((List.take_sublist _ _).map _).map _
      exact h.inventory.validatorIps.sublist hsub
    · have hsub : (((publicIps (s.seeds.take v.numSeedInstances)).map PublicIp.text)).Sublist
          ((publicIps s.seeds).map PublicIp.text) := ((List.take_sublist _ _).map _).map _
      exact h.inventory.seedIps.sublist hsub
  validators := plan_validators h.validators
  seeds := plan_seeds h.validators h.seeds

end Planned

section Instances

/-- New instances need no resource of theirs to be good. -/
theorem createSeeds_inv (h : Inv d s)
    (hnone : survives s.seeds v.numSeedInstances c.lostSeeds = false →
      s.configureSeedClient = Slots.none)
    (hips : ((publicIps (scale s.seeds v.numSeedInstances s.nextId c.lostSeeds c.seedIps)).map
      PublicIp.text).Nodup) : Inv d (createSeeds v c s) := by
  have hv := h.validators
  cases hsurvives : survives s.seeds v.numSeedInstances c.lostSeeds with
  | true =>
      rw [createSeeds, if_pos hsurvives]
      exact h
  | false =>
      have hslots := hnone hsurvives
      rw [createSeeds, if_neg (by simp [hsurvives])]
      refine ⟨⟨h.inventory.validatorIps, hips⟩, ⟨hv.clients, hv.configured, hv.genesisFile,
        hv.assembled, hv.starts, hv.running⟩, ?_, ?_, ?_, ?_⟩
      · intro i r hr
        change s.configureSeedClient i = some r at hr
        rw [hslots] at hr
        cases hr
      · intro i r hr
        change s.configureSeedClient i = some r at hr
        rw [hslots] at hr
        cases hr
      · intro i r hr
        exact Nat.lt_add_right _ (h.seeds.genesisIds i r hr)
      · intro i r g hr
        change s.configureSeedClient i = some r at hr
        rw [hslots] at hr
        cases hr

theorem build_inv (h : Inv d s) : Inv d (applyBuildLinuxExecutable v c s) := by
  have hv := h.validators
  have hle : s.nextId ≤ (applyBuildLinuxExecutable v c s).nextId := by
    rw [applyBuildLinuxExecutable]
    exact (filled_createAll v.code _ (List.range v.buildCount)
      ⟨s.buildLinuxExecutable, s.nextId, s.upload⟩).nextId_le
  refine ⟨⟨h.inventory.validatorIps, h.inventory.seedIps⟩, ⟨hv.clients, hv.configured,
    hv.genesisFile, hv.assembled, hv.starts, hv.running⟩, ?_, h.seeds.available, ?_,
    h.seeds.synced⟩
  · intro i r hr
    obtain ⟨hi, htriggers, hid⟩ := h.seeds.clients i r hr
    exact ⟨hi, htriggers, hid.trans_le hle⟩
  · intro i r hr
    exact (h.seeds.genesisIds i r hr).trans_le hle

theorem createValidators_inv (h : Inv d s)
    (hnone : survives s.validators v.numValidatorInstances c.lost = false →
      s.configureClient = Slots.none ∧ s.generateGenesisFile = Slots.none ∧
        s.startValidator = Slots.none)
    (hips : ((publicIps (scale s.validators v.numValidatorInstances s.nextId c.lost
      c.validatorIps)).map PublicIp.text).Nodup) : Inv d (createValidators v c s) := by
  cases hsurvives : survives s.validators v.numValidatorInstances c.lost with
  | true =>
      rw [createValidators, if_pos hsurvives]
      exact h
  | false =>
      obtain ⟨hclients, hgenesis, hstarts⟩ := hnone hsurvives
      have hnoClient : ∀ i r, s.configureClient i = some r → False := by
        intro i r hr
        rw [hclients] at hr
        cases hr
      have hnoGenesis : ∀ i r, s.generateGenesisFile i = some r → False := by
        intro i r hr
        rw [hgenesis] at hr
        cases hr
      have hnoStart : ∀ i r, s.startValidator i = some r → False := by
        intro i r hr
        rw [hstarts] at hr
        cases hr
      rw [createValidators, if_neg (by simp [hsurvives])]
      refine ⟨⟨hips, h.inventory.seedIps⟩, ⟨fun i r hr => (hnoClient i r hr).elim,
        fun i r hr => (hnoClient i r hr).elim, fun i r hr => (hnoGenesis i r hr).elim,
        fun i r hr => (hnoGenesis i r hr).elim, fun i r hr => (hnoStart i r hr).elim,
        fun i r hr => (hnoStart i r hr).elim⟩, ?_, h.seeds.available,
        fun i r hr => (hnoGenesis i r hr).elim, fun i r g _ _ hg => (hnoGenesis 0 g hg).elim⟩
      intro i r hr
      obtain ⟨hi, htriggers, hid⟩ := h.seeds.clients i r hr
      exact ⟨hi, htriggers, Nat.lt_add_right _ hid⟩

end Instances

section Provisioned

/-- A configured machine stays so under what changes neither its host nor its config. -/
private theorem configuredAt_congr {ips : List PublicIp} {i : ℕ} {m m' : String → Machine ε}
    (hhost : hosts m' = hosts m) (hconfig : ∀ ip, (m' ip).config = (m ip).config)
    (h : ConfiguredAt d ips i m) : ConfiguredAt d ips i m' := by
  intro hi
  have hi' : (m' (ipAt ips i)).host = (m (ipAt ips i)).host := congrFun hhost (ipAt ips i)
  rw [hi', hconfig]
  exact h hi

private theorem ipAt_ne_ipAt {ips : List PublicIp} (hn : (ips.map PublicIp.text).Nodup) {i j : ℕ}
    (hi : i < ips.length) (hj : j < ips.length) (hij : j ≠ i) : ipAt ips j ≠ ipAt ips i :=
  element_ne hn (by rwa [List.length_map]) (by rwa [List.length_map]) hij

/-- A client that is provisioned to its end leaves a configured machine and no other changed. -/
theorem provisions_runClient (hd : d.Documented) {ips : List PublicIp} {order : List ℕ}
    (hn : (ips.map PublicIp.text).Nodup) (horder : ∀ i ∈ order, i < ips.length)
    (upload : Option ε) :
    Provisions (runClient d c upload ips) order (fun _ => True) (ConfiguredAt d ips) where
  keeps _ _ _ _ := trivial
  makes i hi machines _ hok := by
    intro _
    have hmachine : ∃ m, configureMachine d upload ips i = some m ∧
        (runClient d c upload ips i machines).1 = Function.update machines (ipAt ips i) m := by
      rw [runClient] at hok ⊢
      split at hok
      · rename_i m hm
        split at hm
        · cases hm
        · exact ⟨m, hm, rfl⟩
      · cases hok
    obtain ⟨m, hm, hrun⟩ := hmachine
    have hthree := configureMachine_index hm
    obtain ⟨config, hconfig, heq⟩ := configureMachine_eq hd upload ips hthree
    rw [heq] at hm
    cases hm
    rw [hrun, Function.update_self]
    exact ⟨configuredHost_configured hd ips.length hthree, hconfig⟩
  spares i hi j hj machines _ h := by
    intro hlt
    have hne := ipAt_ne_ipAt hn (horder i hi) hlt hj
    have hsame : (runClient d c upload ips i machines).1 (ipAt ips j) = machines (ipAt ips j) := by
      rw [runClient]
      split
      · exact Function.update_of_ne hne _ _
      · exact Function.update_of_ne hne _ _
    rw [hsame]
    exact h hlt

/-- With every client in place nothing is provisioned. -/
theorem applyConfigureClient_of_complete (horder : ∀ i ∈ c.order, i < v.numValidatorInstances)
    (hall : s.configureClient.Complete v.numValidatorInstances) :
    applyConfigureClient d v c s = s := by
  have hsome : ∀ i ∈ c.order, ∃ r, s.configureClient i = some r := fun i hi =>
    (hall i (horder i hi)).imp fun _ hr => hr.1
  rw [applyConfigureClient, createAll_of_some hsome]

/-- While a client is missing nothing that depends on the clients is there. -/
theorem ValidatorsSound.no_dependents (h : ValidatorsSound d s)
    (hall : ¬ s.configureClient.Complete s.validators.length) :
    (∀ i, s.generateGenesisFile i = none) ∧ ∀ i, s.startValidator i = none := by
  have hgenesis : ∀ i r, s.generateGenesisFile i ≠ some r := fun i r hr =>
    hall (h.genesisFile i r hr)
  refine ⟨fun i => Option.eq_none_iff_forall_ne_some.mpr (hgenesis i), fun i =>
    Option.eq_none_iff_forall_ne_some.mpr fun r hr => ?_⟩
  obtain ⟨g, hg, _⟩ := h.starts i r hr 0 (by omega)
  exact hgenesis 0 g hg

theorem configureClient_inv (hd : d.Documented)
    (horder : ∀ i ∈ c.order, i < v.numValidatorInstances)
    (hlen : s.validators.length = v.numValidatorInstances) (h : Inv d s) :
    Inv d (applyConfigureClient d v c s) := by
  by_cases hall : s.configureClient.Complete v.numValidatorInstances
  · rw [applyConfigureClient_of_complete horder hall]
    exact h
  have hv := h.validators
  obtain ⟨hgenesis, hstarts⟩ := hv.no_dependents (hlen ▸ hall)
  have hnoGenesis : ∀ i r, s.generateGenesisFile i = some r → False := by simp [hgenesis]
  have hnoStart : ∀ i r, s.startValidator i = some r → False := by simp [hstarts]
  let site : Site (List ℕ × String) (String → Machine ε) :=
    ⟨s.configureClient, s.nextId, s.machines⟩
  have hips : (publicIps s.validators).length = v.numValidatorInstances := by
    rw [publicIps, List.length_map, hlen]
  have hfilled := filled_createAll (s.clientTriggers v)
    (runClient d c s.upload (publicIps s.validators)) c.order site
  have hprovisions : Provisions (runClient d c s.upload (publicIps s.validators)) c.order
      (fun _ => True) (ConfiguredAt d (publicIps s.validators)) :=
    provisions_runClient hd h.inventory.validatorIps
      (fun i hi => by rw [hips]; exact horder i hi) s.upload
  refine ⟨⟨h.inventory.validatorIps, h.inventory.seedIps⟩, ⟨?_,
    (sound_createAll (s.clientTriggers v) site hprovisions trivial hv.configured).2,
    fun i r hr => (hnoGenesis i r hr).elim, fun i r hr => (hnoGenesis i r hr).elim,
    fun i r hr => (hnoStart i r hr).elim, fun i r hr => (hnoStart i r hr).elim⟩, ?_,
    h.seeds.available, fun i r hr => (hnoGenesis i r hr).elim,
    fun i r g _ _ hg => (hnoGenesis 0 g hg).elim⟩
  · intro i r hr
    rcases hfilled.made i r hr with hold | ⟨_, hmem, htriggers, _⟩
    · exact hv.clients i r hold
    · refine ⟨?_, by rw [htriggers]; rfl⟩
      change i < s.validators.length
      rw [hlen]
      exact horder i hmem
  · intro i r hr
    obtain ⟨hi, htriggers, hid⟩ := h.seeds.clients i r hr
    exact ⟨hi, htriggers, hid.trans_le hfilled.nextId_le⟩

/-- The genesis provisioners keep all machines configured; at their end the genesis is
assembled. -/
theorem provisions_runGenesis (hd : d.Documented) {ips : List PublicIp} {order : List ℕ}
    (hn : (ips.map PublicIp.text).Nodup) (hpos : 0 < ips.length) (horder : ∀ i ∈ order, i = 0) :
    Provisions (runGenesis d.toDaemon c ips) order (fun w => ∀ i, ConfiguredAt d ips i w)
      (AssembledAt d ips) where
  keeps i hi machines h := by
    intro j hj
    have hall : AllConfigured d ips (hosts machines) := fun j hj => (h j hj).1
    exact ⟨(genesisProvisioners_again hd hpos hn hall c.genesisBreaks).1 j hj, (h j hj).2⟩
  makes i hi machines h hok := by
    intro _
    have hall : AllConfigured d ips (hosts machines) := fun j hj => (h j hj).1
    exact (genesisProvisioners_again hd hpos hn hall c.genesisBreaks).2.1 hok
  spares i hi j hj machines h _ := by
    intro hj0
    exact absurd (hj0.trans (horder i hi).symm) hj

theorem applyGenerateGenesisFile_of_complete
    (hall : s.generateGenesisFile.Complete v.genesisCount) :
    applyGenerateGenesisFile d v c s = s := by
  have hsome : ∀ i ∈ List.range v.genesisCount, ∃ r, s.generateGenesisFile i = some r :=
    fun i hi => (hall i (List.mem_range.mp hi)).imp fun _ hr => hr.1
  rw [applyGenerateGenesisFile, createAll_of_some hsome]

theorem generateGenesisFile_inv (hd : d.Documented)
    (hlen : s.validators.length = v.numValidatorInstances)
    (hclients : s.configureClient.Complete v.numValidatorInstances) (h : Inv d s) :
    Inv d (applyGenerateGenesisFile d v c s) := by
  by_cases hall : s.generateGenesisFile.Complete v.genesisCount
  · rw [applyGenerateGenesisFile_of_complete hall]
    exact h
  have hpos : 0 < v.numValidatorInstances := by
    by_contra hzero
    apply hall
    rw [Variables.genesisCount, if_neg hzero]
    intro i hi
    cases hi
  have hv := h.validators
  rw [genesisCount_of_pos hpos] at hall
  have hnoStart : ∀ i r, s.startValidator i = some r → False := fun i r hr =>
    hall (hv.starts i r hr)
  let site : Site (List ℕ) (String → Machine ε) := ⟨s.generateGenesisFile, s.nextId, s.machines⟩
  have hips : (publicIps s.validators).length = v.numValidatorInstances := by
    rw [publicIps, List.length_map, hlen]
  have hfilled := filled_createAll (s.configureClient.ids v.numValidatorInstances)
    (runGenesis d.toDaemon c (publicIps s.validators)) (List.range v.genesisCount) site
  have hprovisions : Provisions (runGenesis d.toDaemon c (publicIps s.validators))
      (List.range v.genesisCount) (fun w => ∀ i, ConfiguredAt d (publicIps s.validators) i w)
      (AssembledAt d (publicIps s.validators)) := by
    apply provisions_runGenesis hd h.inventory.validatorIps (by omega)
    intro i hi
    rw [genesisCount_of_pos hpos] at hi
    simpa using hi
  have hconfigured : ∀ i, ConfiguredAt d (publicIps s.validators) i s.machines := by
    intro i hi
    obtain ⟨r, hr, hintact⟩ := hclients i (hips ▸ hi)
    exact hv.configured i r hr hintact hi
  obtain ⟨hconfigured', hassembled⟩ :=
    sound_createAll (s.configureClient.ids v.numValidatorInstances) site hprovisions hconfigured
      hv.assembled
  refine ⟨⟨h.inventory.validatorIps, h.inventory.seedIps⟩, ⟨hv.clients, ?_, ?_, hassembled,
    fun i r hr => (hnoStart i r hr).elim, fun i r hr => (hnoStart i r hr).elim⟩, ?_,
    h.seeds.available, ?_, ?_⟩
  · intro i r _ _
    exact hconfigured' i
  · intro i r _
    change s.configureClient.Complete s.validators.length
    rwa [hlen]
  · intro i r hr
    obtain ⟨hi, htriggers, hid⟩ := h.seeds.clients i r hr
    exact ⟨hi, htriggers, hid.trans_le hfilled.nextId_le⟩
  · intro i r hr
    rcases hfilled.made i r hr with hold | ⟨_, _, _, _, hid⟩
    · exact (h.seeds.genesisIds i r hold).trans_le hfilled.nextId_le
    · exact hid
  · intro i r g hr hintact hg hgintact hlt
    rcases hfilled.made 0 g hg with hold | ⟨_, _, _, hid, _⟩
    · exact (hall fun j hj => ⟨g, by rw [Nat.lt_one_iff.mp hj]; exact hold, hgintact⟩).elim
    · have hseed := (h.seeds.clients i r hr).2.2
      have hid' : s.nextId ≤ g.id := hid
      omega

private theorem update_start_same (machines : String → Machine ε) (a ip : String) :
    (Function.update machines a (machines a).start ip).host = (machines ip).host ∧
      (Function.update machines a (machines a).start ip).config = (machines ip).config := by
  by_cases he : ip = a
  · subst he
    rw [Function.update_self]
    exact ⟨rfl, rfl⟩
  · rw [Function.update_of_ne he]
    exact ⟨rfl, rfl⟩

/-- A start changes what runs, not what is on the machines. -/
private theorem runStart_same (c : Conditions ε) (ips : List PublicIp) (i : ℕ)
    (machines : String → Machine ε) (ip : String) :
    ((runStart c ips i machines).1 ip).host = (machines ip).host ∧
      ((runStart c ips i machines).1 ip).config = (machines ip).config := by
  rw [runStart]
  split
  · exact ⟨rfl, rfl⟩
  · exact update_start_same machines _ ip

/-- Hosts and configs are those of the machines `w`. -/
private def SameDisks (w w' : String → Machine ε) : Prop :=
  ∀ ip, (w' ip).host = (w ip).host ∧ (w' ip).config = (w ip).config

theorem provisions_runStart (ips : List PublicIp) (order : List ℕ)
    (machines : String → Machine ε) :
    Provisions (runStart c ips) order (SameDisks machines) (RunningAt ips) where
  keeps i _ w h ip := by
    obtain ⟨hhost, hconfig⟩ := runStart_same c ips i w ip
    exact ⟨hhost.trans (h ip).1, hconfig.trans (h ip).2⟩
  makes i _ w _ hok := by
    rw [RunningAt]
    rw [runStart] at hok ⊢
    split at hok
    · cases hok
    · rename_i hstart
      rw [if_neg hstart, ipAt]
      simp only [Function.update_self]
      rfl
  spares i _ j _ w _ h := by
    rw [RunningAt] at h ⊢
    rw [runStart]
    split
    · exact h
    · by_cases he : ipAt ips j = element (ips.map PublicIp.text) i
      · rw [he]
        simp only [Function.update_self]
        rfl
      · simp only [Function.update_of_ne he]
        exact h

theorem startValidator_inv (hlen : s.validators.length = v.numValidatorInstances)
    (hgenesis : s.generateGenesisFile.Complete v.genesisCount) (h : Inv d s)
    (horder : ∀ i ∈ c.startOrder, i < v.numValidatorInstances) :
    Inv d (applyStartValidator v c s) := by
  have hv := h.validators
  let site : Site (List ℕ) (String → Machine ε) := ⟨s.startValidator, s.nextId, s.machines⟩
  have hfilled := filled_createAll (s.generateGenesisFile.ids v.genesisCount)
    (runStart c (publicIps s.validators)) c.startOrder site
  have hprovisions : Provisions (runStart c (publicIps s.validators)) c.startOrder
      (SameDisks s.machines) (RunningAt (publicIps s.validators)) :=
    provisions_runStart (publicIps s.validators) c.startOrder s.machines
  obtain ⟨hsame, hrunning⟩ := sound_createAll (s.generateGenesisFile.ids v.genesisCount) site
    hprovisions (fun _ => ⟨rfl, rfl⟩) hv.running
  have hhosts : hosts (applyStartValidator v c s).machines = hosts s.machines :=
    funext fun ip => (hsame ip).1
  have hgenesisSame : (applyStartValidator v c s).genesis = s.genesis :=
    congrArg Host.genesis (hsame _).1
  refine ⟨⟨h.inventory.validatorIps, h.inventory.seedIps⟩, ⟨hv.clients, ?_, hv.genesisFile, ?_, ?_,
    hrunning⟩, ?_, h.seeds.available, ?_, ?_⟩
  · intro i r hr hintact
    exact configuredAt_congr hhosts (fun ip => (hsame ip).2) (hv.configured i r hr hintact)
  · intro i r hr hintact hi
    rw [hhosts]
    exact hv.assembled i r hr hintact hi
  · intro i r hr
    rcases hfilled.made i r hr with hold | ⟨_, hmem, _⟩
    · exact hv.starts i r hold
    · have hi := horder i hmem
      rwa [genesisCount_of_pos (by omega)] at hgenesis
  · intro i r hr
    obtain ⟨hi, htriggers, hid⟩ := h.seeds.clients i r hr
    exact ⟨hi, htriggers, hid.trans_le hfilled.nextId_le⟩
  · intro i r hr
    exact (h.seeds.genesisIds i r hr).trans_le hfilled.nextId_le
  · intro i r g hr hintact hg hgintact hlt
    rw [hgenesisSame]
    exact h.seeds.synced i r g hr hintact hg hgintact hlt

/-- A seed is provisioned to its end only with a genesis and a key file. -/
theorem runSeed_ok {genesis : Genesis} {seedIps ips : List PublicIp} {upload : Option ε} {i : ℕ}
    {w : String → SeedMachine ε} (hok : (runSeed v c upload genesis seedIps ips i w).2 = true) :
    v.genesisFileAvailable = true ∧
      ∃ config, configureSeed ("genesis.json" :: uploadedKeys) i (ipsStr seedIps) (ipsStr ips) =
          some config ∧
        (runSeed v c upload genesis seedIps ips i w).1 =
          Function.update w (ipAt seedIps i) ⟨genesis, config, upload⟩ := by
  rw [runSeed] at hok ⊢
  split at hok
  · cases hok
  rename_i hgo
  split at hok
  · cases hok
  rename_i havailable
  split at hok
  · rename_i config hconfig
    rw [if_neg hgo, if_neg havailable, hconfig]
    exact ⟨by simpa using havailable, config, rfl, rfl⟩
  · cases hok

/-- A seed is provisioned on its own machine only. -/
private theorem runSeed_other {genesis : Genesis} {seedIps ips : List PublicIp}
    (hn : (seedIps.map PublicIp.text).Nodup) (upload : Option ε) {i j : ℕ}
    (hi : i < seedIps.length) (hj : j < seedIps.length) (hij : j ≠ i)
    (w : String → SeedMachine ε) :
    (runSeed v c upload genesis seedIps ips i w).1 (ipAt seedIps j) = w (ipAt seedIps j) := by
  have hne := ipAt_ne_ipAt hn hi hj hij
  rw [runSeed]
  split
  · exact Function.update_of_ne hne _ _
  split
  · rfl
  split
  · exact Function.update_of_ne hne _ _
  · exact Function.update_of_ne hne _ _

/-- A seed that is provisioned to its end is synced; what another one had stays with it. -/
theorem provisions_runSeed {genesis : Genesis} {seedIps ips : List PublicIp} {order : List ℕ}
    (hn : (seedIps.map PublicIp.text).Nodup) (horder : ∀ i ∈ order, i < seedIps.length)
    (upload : Option ε) (had : ℕ → SeedMachine ε → Prop) :
    Provisions (runSeed v c upload genesis seedIps ips) order (fun _ => True)
      (fun i w => had i (w (ipAt seedIps i)) ∨ SyncedAt genesis ips seedIps i w) where
  keeps _ _ _ _ := trivial
  makes i _ w _ hok := by
    right
    intro _
    obtain ⟨_, config, hconfig, hrun⟩ := runSeed_ok hok
    rw [hrun, Function.update_self]
    exact ⟨rfl, hconfig⟩
  spares i hi j hj w _ h := by
    by_cases hlt : j < seedIps.length
    · have hsame : (runSeed v c upload genesis seedIps ips i w).1 (ipAt seedIps j) =
          w (ipAt seedIps j) := runSeed_other hn upload (horder i hi) hlt hj w
      rw [SyncedAt, hsame]
      exact h
    · exact .inr fun hlt' => absurd hlt' hlt

theorem configureSeedClient_inv (horder : ∀ i ∈ c.seedOrder, i < v.numSeedInstances)
    (hlen : s.seeds.length = v.numSeedInstances) (h : Inv d s) :
    Inv d (applyConfigureSeedClient v c s) := by
  have hv := h.validators
  let site : Site (Bool × List ℕ × String) (String → SeedMachine ε) :=
    ⟨s.configureSeedClient, s.nextId, s.seedMachines⟩
  let run := runSeed v c s.upload s.genesis (publicIps s.seeds) (publicIps s.validators)
  have hips : (publicIps s.seeds).length = v.numSeedInstances := by
    rw [publicIps, List.length_map, hlen]
  have hfilled := filled_createAll (s.seedTriggers v) run c.seedOrder site
  let synced (i : ℕ) (w : String → SeedMachine ε) : Prop :=
    SyncedAt s.genesis (publicIps s.validators) (publicIps s.seeds) i w
  have hprovisions : Provisions run c.seedOrder (fun _ => True) (fun i w =>
      (s.configureSeedClient i ≠ none ∧ ¬ synced i s.seedMachines) ∨ synced i w) :=
    provisions_runSeed h.inventory.seedIps (fun i hi => by rw [hips]; exact horder i hi) s.upload
      fun i _ => s.configureSeedClient i ≠ none ∧ ¬ synced i s.seedMachines
  have hbefore : Sound (fun i w => (s.configureSeedClient i ≠ none ∧ ¬ synced i s.seedMachines) ∨
      synced i w) site.slots site.world := by
    intro i r hr _
    by_cases hsynced : synced i s.seedMachines
    · exact .inr hsynced
    · have hsome : s.configureSeedClient i = some r := hr
      exact .inl ⟨by simp [hsome], hsynced⟩
  have hafter := (sound_createAll (s.seedTriggers v) site hprovisions trivial hbefore).2
  have havailable : Provisions run c.seedOrder (fun _ => True) (fun i _ =>
      s.configureSeedClient i ≠ none ∨ i < 3 ∧ v.genesisFileAvailable = true) := by
    refine ⟨fun _ _ _ _ => trivial, fun i _ w _ hok => ?_, fun _ _ _ _ _ _ h => h⟩
    obtain ⟨hpos, config, hconfig, _⟩ := runSeed_ok hok
    exact .inr ⟨configureSeed_isSome_iff.mp ⟨config, hconfig⟩, hpos⟩
  have hallowed : Sound (fun i (_ : String → SeedMachine ε) =>
      s.configureSeedClient i ≠ none ∨ i < 3 ∧ v.genesisFileAvailable = true) site.slots
      site.world := by
    intro i r hr _
    have hsome : s.configureSeedClient i = some r := hr
    exact .inl (by simp [hsome])
  refine ⟨⟨h.inventory.validatorIps, h.inventory.seedIps⟩, ⟨hv.clients, hv.configured,
    hv.genesisFile, hv.assembled, hv.starts, hv.running⟩, ?_, ?_, ?_, ?_⟩
  · intro i r hr
    rcases hfilled.made i r hr with hold | ⟨_, hmem, htriggers, _, hid⟩
    · obtain ⟨hi, htriggers, hid⟩ := h.seeds.clients i r hold
      exact ⟨hi, htriggers, hid.trans_le hfilled.nextId_le⟩
    · refine ⟨?_, by rw [htriggers]; rfl, hid⟩
      change i < s.seeds.length
      rw [hlen]
      exact horder i hmem
  · intro i r hr hintact
    rcases hfilled.made i r hr with hold | ⟨hnone, _, htriggers, _⟩
    · exact h.seeds.available i r hold hintact
    · rcases (sound_createAll (s.seedTriggers v) site havailable trivial hallowed).2 i r hr hintact
        with hsome | ⟨hthree, htrue⟩
      · exact absurd hnone hsome
      · exact ⟨hthree, by rw [htriggers]; exact htrue⟩
  · intro i r hr
    exact (h.seeds.genesisIds i r hr).trans_le hfilled.nextId_le
  · intro i r g hr hintact hg hgintact hlt
    rcases hafter i r hr hintact with ⟨hsome, hnot⟩ | hsynced
    · rcases hfilled.made i r hr with hold | ⟨hnone, _⟩
      · exact absurd (h.seeds.synced i r g hold hintact hg hgintact hlt) hnot
      · exact absurd hnone hsome
    · exact hsynced

end Provisioned

end Mandelbot.Deploy
