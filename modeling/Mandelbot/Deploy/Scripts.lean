import Mandelbot.Library.Shell

/-!
# Node scripts

The scripts that configure the nodes (deploy/modules/validator/upload/configure-validator.sh and
generate-gentx.sh, deploy/modules/seed/upload/configure-seed.sh), as functions of their arguments.
The node index is the decimal that Terraform renders for `count.index`.
-/

namespace Mandelbot.Deploy

open Shell

def validatorP2pKeys : List String :=
  ["7b23bfaa390d84699812fb709957a9222a7eb519", "547217a2c7449d7c6f779e07b011aa27e61673fc",
    "7aaf162f245915711940148fe5d0206e2b456457"]

/-- The `if`/`elif`/`else` on the node index that every script starts with. -/
def byNodeIndex (first second other : String) (nodeIndex : ℕ) : String :=
  if toString nodeIndex = "0" then first
  else if toString nodeIndex = "1" then second
  else other

def configureValidatorMoniker (nodeIndex : ℕ) : String :=
  byNodeIndex "red" "blue" "green" nodeIndex

def configureSeedMoniker (nodeIndex : ℕ) : String :=
  byNodeIndex "black" "white" "gray" nodeIndex

def generateGentxMoniker (nodeIndex : ℕ) : String :=
  byNodeIndex "red" "blue" "green" nodeIndex

def generateGentxMnemonic (nodeIndex : ℕ) : String :=
  byNodeIndex
    "gun quick banner word mutual pet sort run illness behind pull stock crazy talk actor icon help gym young census decorate swamp two plunge"
    "mule multiply combine frown aim window top weekend frown cancel turn token canoe thumb attitude flame execute purpose chest design winner enable coconut retire"
    "business bless fuel joy lady volcano odor tribe virus have effort rate mouse disease general view mention evoke lend expect frozen trend shrimp flavor"
    nodeIndex

/-- The array assignment `(${s//,/ })`. -/
def ipArray (ipsStr : String) : List String := words (replaceAll ',' ' ' ipsStr)

/-- The loop that builds `P2P_PERSISTENT_PEERS`; `skip` is the test on the loop variable. -/
def persistentPeers (skip : String → Bool) (validatorIps : List String) : String :=
  (List.range validatorIps.length).foldl
    (fun peers i =>
      if skip (toString i) then peers
      else peers ++ element validatorP2pKeys i ++ "@" ++ element validatorIps i ++ ":26656,") ""

def validatorPeers (nodeIndex : ℕ) (validatorIpsStr : String) : String :=
  persistentPeers (fun i => i = toString nodeIndex) (ipArray validatorIpsStr)

def seedPeers (validatorIpsStr : String) : String :=
  persistentPeers (fun _ => false) (ipArray validatorIpsStr)

def externalAddress (ips : List String) (nodeIndex : ℕ) : String :=
  "tcp://" ++ element ips nodeIndex ++ ":26656"

/-- What the configuration of a node leaves in its config directory. -/
structure NodeConfig where
  moniker : String
  nodeKey : String
  externalAddress : String
  persistentPeers : String

def validatorNodeKey (nodeIndex : ℕ) : String :=
  "node_key_validator_" ++ toString nodeIndex ++ ".json"

def seedNodeKey (nodeIndex : ℕ) : String := "node_key_seed_" ++ toString nodeIndex ++ ".json"

/-- The key files of deploy/upload, which are shipped to every node. -/
def uploadedKeys : List String :=
  ["node_key_seed_0.json", "node_key_seed_1.json", "node_key_seed_2.json",
    "node_key_validator_0.json", "node_key_validator_1.json", "node_key_validator_2.json"]

/-- The script ends at a failing copy (`set -e`). -/
def configureValidator (upload : List String) (nodeIndex : ℕ) (validatorIpsStr : String) :
    Option NodeConfig :=
  if validatorNodeKey nodeIndex ∈ upload then
    some {
      moniker := configureValidatorMoniker nodeIndex
      nodeKey := validatorNodeKey nodeIndex
      externalAddress := externalAddress (ipArray validatorIpsStr) nodeIndex
      persistentPeers := validatorPeers nodeIndex validatorIpsStr }
  else none

def configureSeed (upload : List String) (nodeIndex : ℕ) (seedIpsStr validatorIpsStr : String) :
    Option NodeConfig :=
  if seedNodeKey nodeIndex ∈ upload ∧ "genesis.json" ∈ upload then
    some {
      moniker := configureSeedMoniker nodeIndex
      nodeKey := seedNodeKey nodeIndex
      externalAddress := externalAddress (ipArray seedIpsStr) nodeIndex
      persistentPeers := seedPeers validatorIpsStr }
  else none

/-- A public address: one shell word, without the comma that separates addresses. -/
structure PublicIp where
  text : String
  plain : Plain text
  noComma : ',' ∉ text.toList

/-- Terraform's `join(",", ...)` of the addresses. -/
def ipsStr (ips : List PublicIp) : String := join ',' (ips.map PublicIp.text)

theorem plain_of_mem {ips : List PublicIp} {w : String} (h : w ∈ ips.map PublicIp.text) :
    Plain w := by
  obtain ⟨ip, _, he⟩ := List.mem_map.mp h
  exact he ▸ ip.plain

theorem noComma_of_mem {ips : List PublicIp} {w : String} (h : w ∈ ips.map PublicIp.text) :
    ',' ∉ w.toList := by
  obtain ⟨ip, _, he⟩ := List.mem_map.mp h
  exact he ▸ ip.noComma

/-- The scripts read back the addresses that were joined for them. -/
theorem ipArray_ipsStr (ips : List PublicIp) : ipArray (ipsStr ips) = ips.map PublicIp.text := by
  rw [ipArray, ipsStr, replaceAll_join fun _ hw => noComma_of_mem hw,
    words_join fun _ hw => plain_of_mem hw]

/-- Ten addresses of the validator subnet. -/
def sampleIps : List PublicIp :=
  [⟨"10.0.2.11", by decide, by decide⟩,
    ⟨"10.0.2.12", by decide, by decide⟩,
    ⟨"10.0.2.13", by decide, by decide⟩,
    ⟨"10.0.2.14", by decide, by decide⟩,
    ⟨"10.0.2.15", by decide, by decide⟩,
    ⟨"10.0.2.16", by decide, by decide⟩,
    ⟨"10.0.2.17", by decide, by decide⟩,
    ⟨"10.0.2.18", by decide, by decide⟩,
    ⟨"10.0.2.19", by decide, by decide⟩,
    ⟨"10.0.2.20", by decide, by decide⟩]

end Mandelbot.Deploy
