import Mandelbot.Deploy.Scripts
import Mandelbot.Library.KeyedStore

/-!
# Genesis assembly

The three provisioners of `generate_genesis_file` (deploy/modules/validator/instance.tf) and the
script that they run on the first validator (generate-genesis-file.sh): gather the genesis
transactions, fund their delegators and collect them, scatter the genesis file. The chain daemon
is a parameter.
-/

namespace Mandelbot.Deploy

open Shell

/-- The fields of a genesis transaction that the scripts read. -/
structure GenTx where
  delegatorAddress : String
  amount : ℕ
  denom : String
  deriving DecidableEq

structure GentxFile where
  name : String
  tx : GenTx

/-- A directory of genesis transactions; its files are listed by name. -/
abbrev GentxDir := KeyedStore String GentxFile GentxFile.name

structure Genesis where
  balances : String → Option (String → ℕ)
  genTxs : List GenTx

structure Host where
  nodeId : String
  gentxDir : GentxDir
  genesis : Genesis

/-- The hosts by their public address. -/
abbrev Cluster := String → Host

/-- The commands of the chain daemon; `none` is a non-zero exit. -/
structure Daemon where
  addGenesisAccount : Genesis → String → ℕ → String → Option Genesis
  collectGentxs : Genesis → List GentxFile → Option Genesis

def coin (amount : ℕ) (denom : String) : String → ℕ := fun d => if d = denom then amount else 0

/-- The delegator has an account that holds the staked amount. -/
def Funded (genesis : Genesis) (tx : GenTx) : Prop :=
  ∃ coins, genesis.balances tx.delegatorAddress = some coins ∧ tx.amount ≤ coins tx.denom

instance (genesis : Genesis) (tx : GenTx) : Decidable (Funded genesis tx) :=
  match h : genesis.balances tx.delegatorAddress with
  | none => .isFalse fun hf => by
      rcases hf with ⟨coins, hcoins, _⟩
      rw [h] at hcoins
      cases hcoins
  | some coins => decidable_of_iff (tx.amount ≤ coins tx.denom) (by simp [Funded, h])

structure Daemon.Documented (d : Daemon) : Prop where
  add_new : ∀ g a amount denom, g.balances a = none → d.addGenesisAccount g a amount denom =
    some { g with balances := Function.update g.balances a (some (coin amount denom)) }
  add_existing : ∀ g a amount denom, g.balances a ≠ none →
    d.addGenesisAccount g a amount denom = none
  collect_funded : ∀ g files, (∀ f ∈ files, Funded g f.tx) →
    d.collectGentxs g files = some { g with genTxs := files.map GentxFile.tx }

/-- A daemon that does just what is documented. -/
def referenceDaemon : Daemon where
  addGenesisAccount genesis a amount denom :=
    if genesis.balances a = none then
      some { genesis with balances := Function.update genesis.balances a (some (coin amount denom)) }
    else none
  collectGentxs genesis files :=
    if ∀ f ∈ files, Funded genesis f.tx then
      some { genesis with genTxs := files.map GentxFile.tx }
    else none

theorem referenceDaemon_documented : referenceDaemon.Documented where
  add_new _ _ _ _ h := if_pos h
  add_existing _ _ _ _ h := if_neg h
  collect_funded _ _ h := if_pos h

def gentxName (nodeId : String) : String := "gentx-" ++ nodeId ++ ".json"

/-- The pattern `gentx-*.json`. -/
def isGentx (name : String) : Bool :=
  "gentx-".toList.isPrefixOf name.toList && ".json".toList.isSuffixOf name.toList

/-- The loop body: fund the delegator of another node's transaction; a failure is ignored. -/
def fundDelegator (d : Daemon) (thisNodeId : String) (genesis : Genesis) (f : GentxFile) :
    Genesis :=
  if f.name ≠ gentxName thisNodeId then
    (d.addGenesisAccount genesis f.tx.delegatorAddress f.tx.amount f.tx.denom).getD genesis
  else genesis

def generateGenesisFile (d : Daemon) (host : Host) : Option Host :=
  let files := host.gentxDir.values.filter fun f => isGentx f.name
  let genesis := files.foldl (fundDelegator d host.nodeId) host.genesis
  (d.collectGentxs genesis host.gentxDir.values).map fun genesis => { host with genesis := genesis }

/-- The words of `join(" ", slice(ips, 1, n))`. -/
def secondaryIps (ips : List String) : List String := words (join ' ' (ips.drop 1))

def primaryIp (ips : List String) : String := element ips 0

/-- The guard of both local provisioners. -/
def skipsSecondaries (ips : List String) : Bool := toString ips.length < "2"

/-- Copy the files of the secondary hosts to an empty local directory, and from there to the
primary host. -/
def gatherGentxs (ips : List String) (cluster : Cluster) : Cluster :=
  if skipsSecondaries ips then cluster
  else
    let dir := (secondaryIps ips).foldl (fun dir ip => (cluster ip).gentxDir.copyInto dir)
      KeyedStore.empty
    let primary := cluster (primaryIp ips)
    Function.update cluster (primaryIp ips)
      { primary with gentxDir := dir.copyInto primary.gentxDir }

def generateOnPrimary (d : Daemon) (ips : List String) (cluster : Cluster) : Option Cluster :=
  (generateGenesisFile d (cluster (primaryIp ips))).map (Function.update cluster (primaryIp ips))

/-- Copy the genesis file of the primary host to every secondary host. -/
def scatterGenesis (ips : List String) (cluster : Cluster) : Cluster :=
  if skipsSecondaries ips then cluster
  else
    let genesis := (cluster (primaryIp ips)).genesis
    (secondaryIps ips).foldl
      (fun cluster ip => Function.update cluster ip { cluster ip with genesis := genesis }) cluster

end Mandelbot.Deploy
