import Mandelbot.Deploy.Deployment
import Mandelbot.Library.Resources

/-!
# Applying the deployment

The resources of deploy/main.tf and of the validator and seed modules with their counts and
triggers, and an apply: it drops what is stale, dependents included, then creates what is missing,
dependencies first, and goes no further where a provisioner breaks off. The daemons, the network
and the addresses that are handed out are parameters.
-/

namespace Mandelbot.Deploy

open Shell

variable {ε : Type}

/-- An instance with its elastic address. -/
structure Server where
  id : ℕ
  ip : PublicIp

def serverIds (servers : List Server) : List ℕ := servers.map Server.id

def publicIps (servers : List Server) : List PublicIp := servers.map Server.ip

/-- What a service was started with. -/
structure Running (ε : Type) where
  genesis : Genesis
  config : NodeConfig
  executable : Option ε

structure Machine (ε : Type) where
  host : Host
  config : NodeConfig
  executable : Option ε
  running : Option (Running ε)

structure SeedMachine (ε : Type) where
  genesis : Genesis
  config : NodeConfig
  executable : Option ε

/-- The variables of an apply and the files that it reads: the hashes of the uploaded files, and
the code that the executable is built from. -/
structure Variables (ε : Type) where
  numValidatorInstances : ℕ
  numSeedInstances : ℕ
  validatorFiles : String
  seedFiles : String
  code : ε

/-- The provisioner of the genesis after which the next one breaks off. -/
inductive Reached where
  | nothing
  | gathered
  | generated
  | scattered
  deriving DecidableEq

/-- What an apply meets: the instances that are gone, the addresses of new ones and what they boot
with, the order in which provisioners end, and those that break off with what they leave. -/
structure Conditions (ε : Type) where
  lost : ℕ → Bool
  lostSeeds : ℕ → Bool
  validatorIps : ℕ → PublicIp
  seedIps : ℕ → PublicIp
  image : Machine ε
  seedImage : SeedMachine ε
  order : List ℕ
  startOrder : List ℕ
  seedOrder : List ℕ
  buildBreaks : Bool
  clientBreaks : ℕ → Bool
  wreck : ℕ → Machine ε
  genesisBreaks : Option Reached
  startBreaks : ℕ → Bool
  seedBreaks : ℕ → Bool
  seedWreck : ℕ → SeedMachine ε

/-- The resources, and the machines by their address. -/
structure State (ε : Type) where
  nextId : ℕ
  buildLinuxExecutable : Slots ε
  upload : Option ε
  validators : List Server
  configureClient : Slots (List ℕ × String)
  generateGenesisFile : Slots (List ℕ)
  startValidator : Slots (List ℕ)
  machines : String → Machine ε
  seeds : List Server
  configureSeedClient : Slots (Bool × List ℕ × String)
  seedMachines : String → SeedMachine ε

def Variables.buildCount (v : Variables ε) : ℕ :=
  if 0 < v.numValidatorInstances ∨ 0 < v.numSeedInstances then 1 else 0

def Variables.genesisCount (v : Variables ε) : ℕ := if 0 < v.numValidatorInstances then 1 else 0

/-- `length(null_resource.generate_genesis_file) > 0`. -/
def Variables.genesisFileAvailable (v : Variables ε) : Bool := 0 < v.genesisCount

def State.clientTriggers (v : Variables ε) (s : State ε) : List ℕ × String :=
  (serverIds s.validators, v.validatorFiles)

def State.seedTriggers (v : Variables ε) (s : State ε) : Bool × List ℕ × String :=
  (v.genesisFileAvailable, serverIds s.seeds, v.seedFiles)

section Servers

/-- No instance has to be created. -/
def survives (servers : List Server) (n : ℕ) (lost : ℕ → Bool) : Bool :=
  n ≤ servers.length && (List.range n).all fun j => !lost j

/-- A lost instance is replaced under its address; a new one gets an address of its own. -/
def scale (servers : List Server) (n nextId : ℕ) (lost : ℕ → Bool) (newIp : ℕ → PublicIp) :
    List Server :=
  (List.range n).map fun j =>
    match servers[j]? with
    | some server => if lost j then ⟨nextId + j, server.ip⟩ else server
    | none => ⟨nextId + j, newIp j⟩

/-- Machines that boot from the image are those of the instances created just now. -/
def boot {M : Type} (image : M) (nextId : ℕ) (servers : List Server) (machines : String → M) :
    String → M := fun ip =>
  if ip ∈ (servers.filter fun server => nextId ≤ server.id).map fun server => server.ip.text then
    image
  else machines ip

end Servers

section Provisioners

/-- The provisioners of `configure_client`; the service is stopped first. -/
def configureMachine (d : NodeDaemon) (upload : Option ε) (ips : List PublicIp) (i : ℕ) :
    Option (Machine ε) := do
  let config ← configureValidator uploadedKeys i (ipsStr ips)
  let host ← configureClient d ips i
  return ⟨host, config, upload, none⟩

def runClient (d : NodeDaemon) (c : Conditions ε) (upload : Option ε) (ips : List PublicIp) (i : ℕ)
    (machines : String → Machine ε) : (String → Machine ε) × Bool :=
  let ip := element (ips.map PublicIp.text) i
  match if c.clientBreaks i then none else configureMachine d upload ips i with
  | some machine => (Function.update machines ip machine, true)
  | none => (Function.update machines ip (c.wreck i), false)

/-- The provisioners of `generate_genesis_file`. -/
def genesisProvisioners (d : Daemon) (ips : List String) (breaks : Option Reached)
    (cluster : Cluster) : Cluster × Bool :=
  if breaks = some .nothing then (cluster, false)
  else if breaks = some .gathered then (gatherGentxs ips cluster, false)
  else
    match generateOnPrimary d ips (gatherGentxs ips cluster) with
    | none => (gatherGentxs ips cluster, false)
    | some generated =>
        if breaks = some .generated then (generated, false)
        else (scatterGenesis ips generated, breaks = none)

def hosts (machines : String → Machine ε) : Cluster := fun ip => (machines ip).host

def withHosts (machines : String → Machine ε) (cluster : Cluster) : String → Machine ε := fun ip =>
  { machines ip with host := cluster ip }

def runGenesis (d : Daemon) (c : Conditions ε) (ips : List PublicIp) (_ : ℕ)
    (machines : String → Machine ε) : (String → Machine ε) × Bool :=
  let (cluster, ok) :=
    genesisProvisioners d (ips.map PublicIp.text) c.genesisBreaks (hosts machines)
  (withHosts machines cluster, ok)

def Machine.start (m : Machine ε) : Machine ε :=
  { m with running := some ⟨m.host.genesis, m.config, m.executable⟩ }

def runStart (c : Conditions ε) (ips : List PublicIp) (i : ℕ) (machines : String → Machine ε) :
    (String → Machine ε) × Bool :=
  let ip := element (ips.map PublicIp.text) i
  if c.startBreaks i then (machines, false)
  else (Function.update machines ip (machines ip).start, true)

/-- The provisioners of the seeds' `configure_client`, with the genesis of the first validator. -/
def runSeed (v : Variables ε) (c : Conditions ε) (upload : Option ε) (genesis : Genesis)
    (seedIps ips : List PublicIp) (i : ℕ) (machines : String → SeedMachine ε) :
    (String → SeedMachine ε) × Bool :=
  let ip := element (seedIps.map PublicIp.text) i
  if c.seedBreaks i then (Function.update machines ip (c.seedWreck i), false)
  else if v.genesisFileAvailable = false then (machines, false)
  else
    match configureSeed ("genesis.json" :: uploadedKeys) i (ipsStr seedIps) (ipsStr ips) with
    | some config => (Function.update machines ip ⟨genesis, config, upload⟩, true)
    | none => (Function.update machines ip (c.seedWreck i), false)

end Provisioners

section Stages

variable (d : NodeDaemon) (v : Variables ε) (c : Conditions ε) (s : State ε)

def keptClients : Slots (List ℕ × String) :=
  if survives s.validators v.numValidatorInstances c.lost then
    s.configureClient.prune
      (serverIds (s.validators.take v.numValidatorInstances), v.validatorFiles)
      v.numValidatorInstances
  else Slots.none

/-- A resource whose triggers name one that is dropped is dropped with it. -/
def keptGenesisFile : Slots (List ℕ) :=
  if (keptClients v c s).isComplete v.numValidatorInstances then
    s.generateGenesisFile.prune ((keptClients v c s).ids v.numValidatorInstances) v.genesisCount
  else Slots.none

def keptStarts : Slots (List ℕ) :=
  if (keptGenesisFile v c s).isComplete v.genesisCount then
    s.startValidator.prune ((keptGenesisFile v c s).ids v.genesisCount) v.numValidatorInstances
  else Slots.none

/-- The seeds' triggers name neither the genesis nor the validators' addresses. -/
def keptSeedClients : Slots (Bool × List ℕ × String) :=
  if survives s.seeds v.numSeedInstances c.lostSeeds then
    s.configureSeedClient.prune
      (v.genesisFileAvailable, serverIds (s.seeds.take v.numSeedInstances), v.seedFiles)
      v.numSeedInstances
  else Slots.none

/-- Stale resources are dropped before anything is created. -/
def plan [DecidableEq ε] : State ε :=
  { s with
    buildLinuxExecutable := s.buildLinuxExecutable.prune v.code v.buildCount
    validators := s.validators.take v.numValidatorInstances
    configureClient := keptClients v c s
    generateGenesisFile := keptGenesisFile v c s
    startValidator := keptStarts v c s
    seeds := s.seeds.take v.numSeedInstances
    configureSeedClient := keptSeedClients v c s }

def createSeeds : State ε :=
  let seeds := scale s.seeds v.numSeedInstances s.nextId c.lostSeeds c.seedIps
  if survives s.seeds v.numSeedInstances c.lostSeeds then s
  else
    { s with
      nextId := s.nextId + v.numSeedInstances
      seeds := seeds
      seedMachines := boot c.seedImage s.nextId seeds s.seedMachines }

def applyBuildLinuxExecutable : State ε :=
  let site := createAll v.code
    (fun _ upload => if c.buildBreaks then (upload, false) else (some v.code, true))
    (List.range v.buildCount) ⟨s.buildLinuxExecutable, s.nextId, s.upload⟩
  { s with
    nextId := site.nextId
    buildLinuxExecutable := site.slots
    upload := site.world }

def createValidators : State ε :=
  let validators := scale s.validators v.numValidatorInstances s.nextId c.lost c.validatorIps
  if survives s.validators v.numValidatorInstances c.lost then s
  else
    { s with
      nextId := s.nextId + v.numValidatorInstances
      validators := validators
      machines := boot c.image s.nextId validators s.machines }

def applyConfigureClient : State ε :=
  let site := createAll (s.clientTriggers v) (runClient d c s.upload (publicIps s.validators))
    c.order ⟨s.configureClient, s.nextId, s.machines⟩
  { s with
    nextId := site.nextId
    configureClient := site.slots
    machines := site.world }

def applyGenerateGenesisFile : State ε :=
  let site := createAll (s.configureClient.ids v.numValidatorInstances)
    (runGenesis d.toDaemon c (publicIps s.validators)) (List.range v.genesisCount)
    ⟨s.generateGenesisFile, s.nextId, s.machines⟩
  { s with
    nextId := site.nextId
    generateGenesisFile := site.slots
    machines := site.world }

def applyStartValidator : State ε :=
  let site := createAll (s.generateGenesisFile.ids v.genesisCount)
    (runStart c (publicIps s.validators)) c.startOrder ⟨s.startValidator, s.nextId, s.machines⟩
  { s with
    nextId := site.nextId
    startValidator := site.slots
    machines := site.world }

def applyConfigureSeedClient : State ε :=
  let genesis := (s.machines (primaryIp ((publicIps s.validators).map PublicIp.text))).host.genesis
  let site := createAll (s.seedTriggers v)
    (runSeed v c s.upload genesis (publicIps s.seeds) (publicIps s.validators)) c.seedOrder
    ⟨s.configureSeedClient, s.nextId, s.seedMachines⟩
  { s with
    nextId := site.nextId
    configureSeedClient := site.slots
    seedMachines := site.world }

/-- Only the seeds' instances do not wait for the executable; the seeds do not wait for the
validators' services. -/
def apply [DecidableEq ε] : State ε :=
  let s := applyBuildLinuxExecutable v c (createSeeds v c (plan v c s))
  if s.buildLinuxExecutable.isComplete v.buildCount then
    let s := applyConfigureClient d v c (createValidators v c s)
    if s.configureClient.isComplete v.numValidatorInstances then
      let s := applyGenerateGenesisFile d v c s
      if s.generateGenesisFile.isComplete v.genesisCount then
        applyConfigureSeedClient v c (applyStartValidator v c s)
      else s
    else s
  else s

end Stages

/-- Orders go through all instances, and no address is handed out twice. -/
structure Conditions.Valid (v : Variables ε) (c : Conditions ε) (s : State ε) : Prop where
  order : ∀ i, i ∈ c.order ↔ i < v.numValidatorInstances
  startOrder : ∀ i, i ∈ c.startOrder ↔ i < v.numValidatorInstances
  seedOrder : ∀ i, i ∈ c.seedOrder ↔ i < v.numSeedInstances
  validatorIps : ((publicIps (scale s.validators v.numValidatorInstances s.nextId c.lost
    c.validatorIps)).map PublicIp.text).Nodup
  seedIps : ((publicIps (scale s.seeds v.numSeedInstances s.nextId c.lostSeeds
    c.seedIps)).map PublicIp.text).Nodup

/-- Everything that the variables ask for exists and is intact: the apply exits without an
error. -/
structure Succeeded (v : Variables ε) (s : State ε) : Prop where
  build : s.buildLinuxExecutable.Complete v.buildCount
  clients : s.configureClient.Complete v.numValidatorInstances
  genesisFile : s.generateGenesisFile.Complete v.genesisCount
  starts : s.startValidator.Complete v.numValidatorInstances
  seedClients : s.configureSeedClient.Complete v.numSeedInstances

/-- The states that applies lead to, whatever each of them met. -/
inductive Reachable [DecidableEq ε] (d : NodeDaemon) : State ε → Prop
  | start {nextId : ℕ} {upload : Option ε} {machines : String → Machine ε}
      {seedMachines : String → SeedMachine ε} :
      Reachable d
        { nextId := nextId
          buildLinuxExecutable := Slots.none
          upload := upload
          validators := []
          configureClient := Slots.none
          generateGenesisFile := Slots.none
          startValidator := Slots.none
          machines := machines
          seeds := []
          configureSeedClient := Slots.none
          seedMachines := seedMachines }
  | apply {s : State ε} {v : Variables ε} {c : Conditions ε} :
      Reachable d s → c.Valid v s → Reachable d (apply d v c s)

end Mandelbot.Deploy
