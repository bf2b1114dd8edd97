import Mandelbot.Deploy.Assembly
import Mandelbot.Deploy.Mesh

/-!
# A deployment of validators

The provisioners of the validator module in order (deploy/modules/validator/instance.tf): every
host is configured and generates its genesis transaction, then the genesis is assembled. For at
most three validators this leaves the assembled genesis; a fourth one cannot be configured.
-/

namespace Mandelbot.Deploy

open Shell

/-- The daemon with the commands that a single host runs: `show-node-id` of a key file, the address
of a recovered mnemonic, and the creation of a genesis transaction. -/
structure NodeDaemon extends Daemon where
  showNodeId : String → String
  account : String → String
  gentx : Genesis → String → ℕ → String → Option GenTx

structure NodeDaemon.Documented (d : NodeDaemon) : Prop where
  daemon : d.toDaemon.Documented
  nodeIds : ∀ j < 3, d.showNodeId (validatorNodeKey j) = nodeId j
  accounts : ∀ m m', m ≠ m' → d.account m ≠ d.account m'
  gentx_ok : ∀ genesis tx, Funded genesis tx →
    d.gentx genesis tx.delegatorAddress tx.amount tx.denom = some tx

/-- The script ends when the daemon cannot create the transaction (`set -e`). -/
def generateGentx (d : NodeDaemon) (nodeIndex : ℕ) (host : Host) : Option Host :=
  let address := d.account (generateGentxMnemonic nodeIndex)
  let genesis := (d.addGenesisAccount host.genesis address 100000000000 "stake").getD host.genesis
  (d.gentx genesis address 100000000 "stake").map fun tx =>
    { host with
      genesis := genesis
      gentxDir := host.gentxDir.set ⟨gentxName host.nodeId, tx⟩ }

/-- A host after `mandelbotd init` with a key file in place. -/
def initialized (d : NodeDaemon) (nodeKey : String) : Host where
  nodeId := d.showNodeId nodeKey
  gentxDir := KeyedStore.empty
  genesis := ⟨fun _ => none, []⟩

/-- The provisioners of one host. -/
def configureClient (d : NodeDaemon) (ips : List PublicIp) (i : ℕ) : Option Host := do
  let config ← configureValidator uploadedKeys i (ipsStr ips)
  generateGentx d i (initialized d config.nodeKey)

/-- The genesis transaction of node `j`. -/
def stakeOf (d : NodeDaemon) (j : ℕ) : GenTx :=
  ⟨d.account (generateGentxMnemonic j), 100000000, "stake"⟩

/-- The genesis transaction of the host with address `ip`. -/
def stakeAt (d : NodeDaemon) (ips : List String) (ip : String) : GenTx :=
  stakeOf d (ips.idxOf ip)

def configuredHost (d : NodeDaemon) (j : ℕ) : Host where
  nodeId := nodeId j
  gentxDir := KeyedStore.empty.set ⟨gentxName (nodeId j), stakeOf d j⟩
  genesis := ⟨Function.update (fun _ => none) (stakeOf d j).delegatorAddress
    (some (coin 100000000000 "stake")), []⟩

theorem configuredHost_balances (d : NodeDaemon) (j : ℕ) (a : String) :
    (configuredHost d j).genesis.balances a =
      if a = (stakeOf d j).delegatorAddress then some (coin 100000000000 "stake") else none := by
  simp [configuredHost, Function.update_apply]

/-- The script gives an account more than it stakes. -/
theorem configuredHost_ownAccount (d : NodeDaemon) (j : ℕ) :
    ∃ coins, (configuredHost d j).genesis.balances (stakeOf d j).delegatorAddress = some coins ∧
      (stakeOf d j).amount < coins (stakeOf d j).denom := by
  refine ⟨coin 100000000000 "stake", ?_, ?_⟩
  · rw [configuredHost_balances, if_pos rfl]
  · simp [coin, stakeOf]

variable {d : NodeDaemon} {ips : List PublicIp} {cluster : Cluster}

section Configuration

/-- A new host funds its own account and stakes from it. -/
theorem generateGentx_eq (hd : d.Documented) (j : ℕ) {host : Host}
    (hnew : host.genesis = ⟨fun _ => none, []⟩) :
    generateGentx d j host = some { host with
      genesis := (configuredHost d j).genesis
      gentxDir := host.gentxDir.set ⟨gentxName host.nodeId, stakeOf d j⟩ } := by
  have hadd : d.addGenesisAccount host.genesis (d.account (generateGentxMnemonic j)) 100000000000
      "stake" = some (configuredHost d j).genesis := by
    rw [hnew]
    exact hd.daemon.add_new ⟨fun _ => none, []⟩ _ 100000000000 "stake" rfl
  obtain ⟨coins, hcoins, hlt⟩ := configuredHost_ownAccount d j
  have hgentx : d.gentx (configuredHost d j).genesis (d.account (generateGentxMnemonic j))
      100000000 "stake" = some (stakeOf d j) :=
    hd.gentx_ok _ (stakeOf d j) ⟨coins, hcoins, hlt.le⟩
  simp only [generateGentx, hadd, Option.getD_some, hgentx, Option.map_some]

theorem configureClient_eq (hd : d.Documented) (ips : List PublicIp) {j : ℕ} (hj : j < 3) :
    configureClient d ips j = some (configuredHost d j) := by
  have hkey := validatorNodeKey_uploaded j hj
  have hid : (initialized d (validatorNodeKey j)).nodeId = nodeId j := hd.nodeIds j hj
  rw [configureClient, configureValidator, if_pos hkey]
  change generateGentx d j (initialized d (validatorNodeKey j)) = _
  rw [generateGentx_eq hd j rfl, hid]
  simp [initialized, configuredHost, hd.nodeIds j hj]

end Configuration

section Preparation

theorem account_ne (hd : d.Documented) {i j : ℕ} (hi : i < 3) (hj : j < 3) (hij : i ≠ j) :
    (stakeOf d i).delegatorAddress ≠ (stakeOf d j).delegatorAddress :=
  (distinctOperators hd.accounts hi hj hij).2.2.2

end Preparation

/-- Two or three hosts are not skipped. -/
theorem single_or_not_skipped (primary : String) {secondaries : List String}
    (hlen : (primary :: secondaries).length ≤ 3) :
    secondaries = [] ∨ skipsSecondaries (primary :: secondaries) = false := by
  rw [List.length_cons] at hlen
  have hcount : secondaries.length = 0 ∨ secondaries.length = 1 ∨ secondaries.length = 2 := by
    omega
  rcases hcount with hzero | hone | htwo
  · exact .inl (List.length_eq_zero_iff.mp hzero)
  · right
    simp only [skipsSecondaries, List.length_cons, hone]
    decide
  · right
    simp only [skipsSecondaries, List.length_cons, htwo]
    decide

section Samples

def referenceNodeDaemon : NodeDaemon where
  toDaemon := referenceDaemon
  showNodeId nodeKey := nodeId (uploadedKeys.idxOf nodeKey - 3)
  account mnemonic := "mandelbot1" ++ mnemonic
  gentx genesis address amount denom :=
    if Funded genesis ⟨address, amount, denom⟩ then some ⟨address, amount, denom⟩ else none

theorem referenceNodeDaemon_documented : referenceNodeDaemon.Documented where
  daemon := referenceDaemon_documented
  nodeIds := by decide
  accounts m m' hne := by
    intro he
    have hlists := congrArg String.toList he
    simp only [referenceNodeDaemon, String.toList_append] at hlists
    exact hne (String.toList_inj.mp (List.append_cancel_left hlists))
  gentx_ok _ _ h := if_pos h

end Samples

end Mandelbot.Deploy
