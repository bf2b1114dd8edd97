import Mandelbot.Deploy.Apply

/-!
# The genesis after a break

A machine that has been configured stays good while the genesis provisioners run over it, however
far they come. So they can break off and be run again, any number of times: when they end, the
genesis is assembled.
-/

namespace Mandelbot.Deploy

open Shell

variable {ε : Type} {d : NodeDaemon} {ips : List PublicIp} {cluster : Cluster}

/-- The address of machine `i`. -/
def ipAt (ips : List PublicIp) (i : ℕ) : String := element (ips.map PublicIp.text) i

def gentxFile (d : NodeDaemon) (i : ℕ) : GentxFile := ⟨gentxName (nodeId i), stakeOf d i⟩

/-- A configured host, whether or not the genesis has been assembled since. -/
structure ConfiguredHost (d : NodeDaemon) (n i : ℕ) (host : Host) : Prop where
  index : i < 3
  nodeId : host.nodeId = nodeId i
  gentxs : host.gentxDir = KeyedStore.empty.set (gentxFile d i) ∨
    i = 0 ∧ host.gentxDir.Contains ((List.range n).map (gentxFile d))
  ownAccount : i = 0 → ∃ coins,
    host.genesis.balances (stakeOf d 0).delegatorAddress = some coins ∧
      (stakeOf d 0).amount < coins (stakeOf d 0).denom
  others : i = 0 → ∀ j < n, j ≠ 0 → Fundable host.genesis (stakeOf d j)

/-- All hosts of the list are configured. -/
def AllConfigured (d : NodeDaemon) (ips : List PublicIp) (cluster : Cluster) : Prop :=
  ∀ i < ips.length, ConfiguredHost d ips.length i (cluster (ipAt ips i))

theorem AllConfigured.length_le (h : AllConfigured d ips cluster) : ips.length ≤ 3 := by
  by_contra hlong
  have hindex := (h 3 (by omega)).index
  omega

section Configuring

private theorem toList_validatorNodeKey (i : ℕ) : (validatorNodeKey i).toList =
    "node_key_validator_".toList ++ (toString i).toList ++ ".json".toList := by
  have happ : ("node_key_validator_" ++ toString i ++ ".json").toList =
      ("node_key_validator_" ++ toString i).toList ++ ".json".toList := String.toList_append
  exact happ.trans (congrArg (· ++ _) String.toList_append)

private theorem toList_seedNodeKey (i : ℕ) : (seedNodeKey i).toList =
    "node_key_seed_".toList ++ (toString i).toList ++ ".json".toList := by
  have happ : ("node_key_seed_" ++ toString i ++ ".json").toList =
      ("node_key_seed_" ++ toString i).toList ++ ".json".toList := String.toList_append
  exact happ.trans (congrArg (· ++ _) String.toList_append)

private theorem toString_of_key {front : List Char} {i j : ℕ}
    (h : front ++ (toString i).toList ++ ".json".toList =
      front ++ (toString j).toList ++ ".json".toList) : i = j :=
  toString_injective
    (String.toList_inj.mp (List.append_cancel_left (List.append_cancel_right h)))

private theorem uploadedKeys_eq : uploadedKeys =
    (List.range 3).map seedNodeKey ++ (List.range 3).map validatorNodeKey := by decide

private theorem seedNodeKey_ne (i j : ℕ) : seedNodeKey i ≠ validatorNodeKey j := by
  intro he
  have hlists := congrArg (fun s => (s.toList.drop 9).head?) he
  have hs : "node_key_seed_".toList = "node_key_".toList ++ 's' :: "eed_".toList := by decide
  have hv : "node_key_validator_".toList = "node_key_".toList ++ 'v' :: "alidator_".toList := by
    decide
  have hnine : "node_key_".toList.length = 9 := by decide
  simp only [toList_validatorNodeKey, toList_seedNodeKey, hs, hv, List.append_assoc,
    List.drop_left' hnine] at hlists
  cases hlists

private theorem seedNodeKey_ne_genesis (i : ℕ) : seedNodeKey i ≠ "genesis.json" := by
  intro he
  have hlists := congrArg (fun s => s.toList.head?) he
  have hs : "node_key_seed_".toList = 'n' :: "ode_key_seed_".toList := by decide
  have hg : "genesis.json".toList = 'g' :: "enesis.json".toList := by decide
  simp only [toList_seedNodeKey, hs, hg, List.cons_append, List.head?_cons] at hlists
  cases hlists

/-- Only the first three validators have a key file. -/
theorem index_of_uploaded {i : ℕ} (h : validatorNodeKey i ∈ uploadedKeys) : i < 3 := by
  rw [uploadedKeys_eq] at h
  rcases List.mem_append.mp h with hseed | hvalidator
  · obtain ⟨j, _, he⟩ := List.mem_map.mp hseed
    exact absurd he (seedNodeKey_ne j i)
  · obtain ⟨j, hj, he⟩ := List.mem_map.mp hvalidator
    have hlists := congrArg String.toList he
    rw [toList_validatorNodeKey, toList_validatorNodeKey] at hlists
    rw [← toString_of_key hlists]
    exact List.mem_range.mp hj

/-- Only the first three seeds have a key file. -/
theorem seedIndex_of_uploaded {i : ℕ} (h : seedNodeKey i ∈ "genesis.json" :: uploadedKeys) :
    i < 3 := by
  rw [uploadedKeys_eq] at h
  rcases List.mem_cons.mp h with hgenesis | hkeys
  · exact absurd hgenesis (seedNodeKey_ne_genesis i)
  rcases List.mem_append.mp hkeys with hseed | hvalidator
  · obtain ⟨j, hj, he⟩ := List.mem_map.mp hseed
    have hlists := congrArg String.toList he
    rw [toList_seedNodeKey, toList_seedNodeKey] at hlists
    rw [← toString_of_key hlists]
    exact List.mem_range.mp hj
  · obtain ⟨j, _, he⟩ := List.mem_map.mp hvalidator
    exact absurd he.symm (seedNodeKey_ne i j)

/-- A seed can be configured exactly when it has a key file. -/
theorem configureSeed_isSome_iff {i : ℕ} {seedIpsStr validatorIpsStr : String} :
    (∃ config, configureSeed ("genesis.json" :: uploadedKeys) i seedIpsStr validatorIpsStr =
      some config) ↔ i < 3 := by
  constructor
  · intro h
    obtain ⟨config, hconfig⟩ := h
    rw [configureSeed] at hconfig
    split at hconfig
    · rename_i hkeys
      exact seedIndex_of_uploaded hkeys.1
    · cases hconfig
  · intro hi
    have hkey : seedNodeKey i ∈ "genesis.json" :: uploadedKeys := by
      rw [uploadedKeys_eq]
      exact List.mem_cons_of_mem _ (List.mem_append_left _
        (List.mem_map_of_mem (List.mem_range.mpr hi)))
    rw [configureSeed, if_pos ⟨hkey, by simp⟩]
    exact ⟨_, rfl⟩

theorem configureMachine_index {upload : Option ε} {i : ℕ} {m : Machine ε}
    (h : configureMachine d upload ips i = some m) : i < 3 := by
  rw [configureMachine, configureValidator] at h
  by_cases hkey : validatorNodeKey i ∈ uploadedKeys
  · exact index_of_uploaded hkey
  · rw [if_neg hkey] at h
    cases h

/-- A machine with an index below three is configured, and its host is new. -/
theorem configureMachine_eq (hd : d.Documented) (upload : Option ε) (ips : List PublicIp) {i : ℕ}
    (hi : i < 3) :
    ∃ config, configureValidator uploadedKeys i (ipsStr ips) = some config ∧
      configureMachine d upload ips i = some ⟨configuredHost d i, config, upload, none⟩ := by
  have hpeers : PeersWithOthers ips nodeId i := peersWithOthers hi
  obtain ⟨config, hconfig, _⟩ := hpeers
  refine ⟨config, hconfig, ?_⟩
  rw [configureMachine, hconfig, configureClient_eq hd ips hi]
  rfl

/-- No other operator has the account of the first one. -/
private theorem account_ne_first (hd : d.Documented) {j : ℕ} (hj : j ≠ 0) :
    (stakeOf d j).delegatorAddress ≠ (stakeOf d 0).delegatorAddress := by
  by_cases hlt : j < 3
  · exact account_ne hd hlt (by omega) hj
  · have hsame : generateGentxMnemonic j = generateGentxMnemonic 2 :=
      (byNodeIndex_of_two_le _ _ _ (by omega)).trans (byNodeIndex_of_two_le _ _ _ le_rfl).symm
    have htwo := account_ne hd (show 2 < 3 by omega) (show 0 < 3 by omega) (by omega)
    rw [stakeOf] at htwo ⊢
    rwa [hsame]

theorem configuredHost_configured (hd : d.Documented) (n : ℕ) {i : ℕ} (hi : i < 3) :
    ConfiguredHost d n i (configuredHost d i) where
  index := hi
  nodeId := rfl
  gentxs := .inl rfl
  ownAccount h := by
    subst h
    exact configuredHost_ownAccount d 0
  others h j _ hj0 coins hcoins := by
    subst h
    rw [configuredHost_balances, if_neg (account_ne_first hd hj0)] at hcoins
    cases hcoins

end Configuring

section Assembling

variable {primary : PublicIp} {secondaries : List PublicIp}

/-- The addresses of all hosts, the first one's in front. -/
private abbrev texts (primary : PublicIp) (secondaries : List PublicIp) : List String :=
  (primary :: secondaries).map PublicIp.text

/-- The cluster with the first host's directory as it was before anything was gathered. -/
private def ungathered (d : NodeDaemon) (cluster : Cluster) (primary : PublicIp) : Cluster :=
  Function.update cluster primary.text
    { cluster primary.text with gentxDir := KeyedStore.empty.set (gentxFile d 0) }

private theorem ipAt_ne (hn : (texts primary secondaries).Nodup) {j : ℕ}
    (hj : j < (primary :: secondaries).length) (hj0 : j ≠ 0) :
    ipAt (primary :: secondaries) j ≠ primary.text :=
  element_ne hn (by rwa [List.length_map]) (by simp) hj0

private theorem stakeAt_ipAt (d : NodeDaemon) (hn : (texts primary secondaries).Nodup) {j : ℕ}
    (hj : j < (primary :: secondaries).length) :
    stakeAt d (texts primary secondaries) (ipAt (primary :: secondaries) j) = stakeOf d j := by
  rw [stakeAt, ipAt, idxOf_element hn (by rwa [List.length_map])]

private theorem ungathered_ipAt (hn : (texts primary secondaries).Nodup)
    (h : AllConfigured d (primary :: secondaries) cluster) {j : ℕ}
    (hj : j < (primary :: secondaries).length) :
    (ungathered d cluster primary (ipAt (primary :: secondaries) j)).nodeId = nodeId j ∧
      (ungathered d cluster primary (ipAt (primary :: secondaries) j)).gentxDir =
        KeyedStore.empty.set (gentxFile d j) := by
  have hhost := h j hj
  by_cases hj0 : j = 0
  · subst hj0
    rw [ungathered, show ipAt (primary :: secondaries) 0 = primary.text from rfl,
      Function.update_self]
    exact ⟨hhost.nodeId, rfl⟩
  · rw [ungathered, Function.update_of_ne (ipAt_ne hn hj hj0)]
    rcases hhost.gentxs with hown | hall
    · exact ⟨hhost.nodeId, hown⟩
    · exact absurd hall.1 hj0

private theorem ownFile_ipAt (hn : (texts primary secondaries).Nodup)
    (h : AllConfigured d (primary :: secondaries) cluster) {j : ℕ}
    (hj : j < (primary :: secondaries).length) :
    ownFile (stakeAt d (texts primary secondaries)) (ungathered d cluster primary)
      (ipAt (primary :: secondaries) j) = gentxFile d j := by
  rw [ownFile, (ungathered_ipAt hn h hj).1, stakeAt_ipAt d hn hj, gentxFile]

private theorem map_ownFile (hn : (texts primary secondaries).Nodup)
    (h : AllConfigured d (primary :: secondaries) cluster) :
    (texts primary secondaries).map
        (ownFile (stakeAt d (texts primary secondaries)) (ungathered d cluster primary)) =
      (List.range (primary :: secondaries).length).map (gentxFile d) := by
  have htexts := map_element_range (texts primary secondaries)
  rw [List.length_map] at htexts
  rw [← htexts, List.map_map, htexts]
  apply List.map_congr_left
  intro j hj
  exact ownFile_ipAt hn h (List.mem_range.mp hj)

/-- Before the gathering the hosts were prepared for it. -/
private theorem prepared_ungathered (hd : d.Documented)
    (hn : (texts primary secondaries).Nodup)
    (h : AllConfigured d (primary :: secondaries) cluster) :
    Prepared (stakeAt d (texts primary secondaries)) (ungathered d cluster primary) primary.text
      (secondaries.map PublicIp.text) := by
  have hlen := h.length_le
  have hfirst := h 0 (by simp)
  have hlength : (texts primary secondaries).length = (primary :: secondaries).length :=
    List.length_map _
  have hgenesis : (ungathered d cluster primary primary.text).genesis =
      (cluster primary.text).genesis := by
    rw [ungathered, Function.update_self]
  have hown : stakeAt d (texts primary secondaries) primary.text = stakeOf d 0 :=
    stakeAt_ipAt (j := 0) d hn (by simp)
  constructor
  · exact hn
  · intro ip hip
    obtain ⟨j, hj, he⟩ := exists_element hip
    have hj' : j < (primary :: secondaries).length := hlength ▸ hj
    have hip' : ip = ipAt (primary :: secondaries) j := he.symm
    subst hip'
    rw [(ungathered_ipAt hn h hj').2, ownFile_ipAt hn h hj']
  · apply nodup_map_of_index hn (fun j hj => (ungathered_ipAt hn h (hlength ▸ hj)).1)
    intro i hi j hj
    exact nodeId_distinct i (by omega) j (by omega)
  · apply nodup_map_of_index hn
      (fun j hj => congrArg GenTx.delegatorAddress (stakeAt_ipAt d hn (hlength ▸ hj)))
    intro i hi j hj
    exact account_ne hd (by omega) (by omega)
  · rw [hgenesis, hown]
    exact hfirst.ownAccount rfl
  · intro ip hip
    obtain ⟨j, hj, he⟩ := exists_element (List.mem_cons_of_mem primary.text hip)
    have hj' : j < (primary :: secondaries).length := hlength ▸ hj
    have hj0 : j ≠ 0 := by
      rintro rfl
      rw [← he] at hip
      exact (List.nodup_cons.mp hn).1 hip
    have hip' : ip = ipAt (primary :: secondaries) j := he.symm
    subst hip'
    rw [hgenesis, stakeAt_ipAt d hn hj']
    exact hfirst.others rfl j hj' hj0

/-- Gathering changes the first host only, and there only the directory. -/
private theorem gatherGentxs_eq (ips : List String) (cluster : Cluster) :
    ∃ dir, gatherGentxs ips cluster = Function.update cluster (primaryIp ips)
      { cluster (primaryIp ips) with gentxDir := dir } := by
  rw [gatherGentxs]
  split
  · exact ⟨(cluster (primaryIp ips)).gentxDir, (Function.update_eq_self _ _).symm⟩
  · exact ⟨_, rfl⟩

/-- Whatever was gathered before, all transactions arrive. -/
private theorem gatheredFrom_again (hd : d.Documented) (hn : (texts primary secondaries).Nodup)
    (h : AllConfigured d (primary :: secondaries) cluster) :
    GatheredFrom (stakeAt d (texts primary secondaries)) (ungathered d cluster primary)
      primary.text (texts primary secondaries) (gatherGentxs (texts primary secondaries) cluster) := by
  have hprepared := prepared_ungathered hd hn h
  have hplain : ∀ ip ∈ secondaries.map PublicIp.text, Plain ip := fun _ hip => plain_of_mem hip
  have hlen : (texts primary secondaries).length ≤ 3 := by
    rw [List.length_map]
    exact h.length_le
  have hfiles := map_ownFile hn h
  have hfirst : (cluster primary.text).gentxDir = KeyedStore.empty.set (gentxFile d 0) ∨
      (cluster primary.text).gentxDir.Contains ((texts primary secondaries).map
        (ownFile (stakeAt d (texts primary secondaries)) (ungathered d cluster primary))) := by
    rw [hfiles]
    exact (h 0 (by simp)).gentxs.imp_right And.right
  obtain ⟨dir, hgather⟩ := gatherGentxs_eq (texts primary secondaries) cluster
  have hprimary : primaryIp (texts primary secondaries) = primary.text := rfl
  constructor
  · rcases single_or_not_skipped primary.text hlen with hsingle | hgo
    · have hnil : secondaries = [] := List.map_eq_nil_iff.mp hsingle
      subst hnil
      have hskip : skipsSecondaries (texts primary []) = true :=
        skipsSecondaries_iff.mpr ⟨0, by simp⟩
      rw [gatherGentxs, hskip, if_pos rfl]
      rcases hfirst with hown | hall
      · rw [hown, hfiles]
        exact KeyedStore.contains_singleton _
      · exact hall
    · have hskip : skipsSecondaries (texts primary secondaries) = false := hgo
      have hall : (gatherGentxs (texts primary secondaries) (ungathered d cluster primary)
          primary.text).gentxDir.Contains _ := (gatheredFrom_all hprepared hplain hgo).contains
      have hdirs : ∀ dst : GentxDir, (secondaryIps (texts primary secondaries)).foldl
          (fun dir ip => (cluster ip).gentxDir.copyInto dir) dst =
          (secondaryIps (texts primary secondaries)).foldl
            (fun dir ip => (ungathered d cluster primary ip).gentxDir.copyInto dir) dst := by
        intro dst
        apply List.foldl_ext
        intro dir ip hip
        have hsecondary : secondaryIps (texts primary secondaries) =
            secondaries.map PublicIp.text := words_join hplain
        rw [hsecondary] at hip
        have hne : ip ≠ primary.text := by
          rintro rfl
          exact (List.nodup_cons.mp hn).1 hip
        rw [ungathered, Function.update_of_ne hne]
      rw [gatherGentxs, hskip] at hall ⊢
      simp only [Bool.false_eq_true, if_false, hprimary, Function.update_self, hdirs] at hall ⊢
      rcases hfirst with hown | hagain
      · rw [hown]
        rw [ungathered, Function.update_self] at hall
        exact hall
      · exact hall.copyInto_again hagain
  · rw [hgather, hprimary, Function.update_self, ungathered, Function.update_self]
  · rw [hgather, hprimary, Function.update_self, ungathered, Function.update_self]

/-- The hosts behind the first one need their directory and their id only. -/
private theorem AllConfigured.of_first {cluster' : Cluster}
    (hn : (texts primary secondaries).Nodup) (h : AllConfigured d (primary :: secondaries) cluster)
    (hfirst : ConfiguredHost d (primary :: secondaries).length 0 (cluster' primary.text))
    (hother : ∀ ip, ip ≠ primary.text → (cluster' ip).nodeId = (cluster ip).nodeId ∧
      (cluster' ip).gentxDir = (cluster ip).gentxDir) :
    AllConfigured d (primary :: secondaries) cluster' := by
  intro i hi
  by_cases hi0 : i = 0
  · subst hi0
    exact hfirst
  · have hhost := h i hi
    obtain ⟨hid, hdir⟩ := hother _ (ipAt_ne hn hi hi0)
    refine ⟨hhost.index, hid.trans hhost.nodeId, ?_, fun h0 => absurd h0 hi0,
      fun h0 => absurd h0 hi0⟩
    rw [hdir]
    exact hhost.gentxs

private theorem allConfigured_gathered (hd : d.Documented)
    (hn : (texts primary secondaries).Nodup)
    (h : AllConfigured d (primary :: secondaries) cluster) :
    AllConfigured d (primary :: secondaries)
      (gatherGentxs (texts primary secondaries) cluster) := by
  have hg := gatheredFrom_again hd hn h
  obtain ⟨dir, hgather⟩ := gatherGentxs_eq (texts primary secondaries) cluster
  have hprimary : primaryIp (texts primary secondaries) = primary.text := rfl
  have hfirst := h 0 (by simp)
  have hsame : gatherGentxs (texts primary secondaries) cluster primary.text =
      { cluster primary.text with gentxDir := dir } := by
    rw [hgather, hprimary, Function.update_self]
  have hcontains := hg.contains
  rw [map_ownFile hn h] at hcontains
  apply h.of_first hn
  · refine ⟨hfirst.index, ?_, .inr ⟨rfl, hcontains⟩, ?_, ?_⟩
    · rw [hsame]
      exact hfirst.nodeId
    · rw [hsame]
      exact hfirst.ownAccount
    · rw [hsame]
      exact hfirst.others
  · intro ip hip
    rw [hgather, hprimary, Function.update_of_ne hip]
    exact ⟨rfl, rfl⟩

/-- The genesis is generated, and the hosts can be gathered and the genesis generated again. -/
private theorem generated_again (hd : d.Documented) (hn : (texts primary secondaries).Nodup)
    (h : AllConfigured d (primary :: secondaries) cluster) :
    ∃ c, generateOnPrimary d.toDaemon (texts primary secondaries)
        (gatherGentxs (texts primary secondaries) cluster) = some c ∧
      AllConfigured d (primary :: secondaries) c ∧
      (c primary.text).genesis.genTxs.Perm
        ((texts primary secondaries).map (stakeAt d (texts primary secondaries))) ∧
      ∀ ip ∈ texts primary secondaries,
        Funded (c primary.text).genesis (stakeAt d (texts primary secondaries) ip) := by
  have hprepared := prepared_ungathered hd hn h
  have hg := gatheredFrom_again hd hn h
  have hgathered := allConfigured_gathered hd hn h
  obtain ⟨genesis, hrun, hperm, hfunded⟩ :=
    generateOnPrimary_total hd.daemon hprepared (List.Sublist.refl _) hg
  have hown := generateOnPrimary_ownAccount hd.daemon hprepared (List.Sublist.refl _) hg hrun
  have hstake : stakeAt d (texts primary secondaries) primary.text = stakeOf d 0 :=
    stakeAt_ipAt (j := 0) d hn (by simp)
  refine ⟨_, hrun, ?_, ?_, ?_⟩
  · have hfirst := hgathered 0 (by simp)
    apply hgathered.of_first hn
    · rw [Function.update_self] at hown ⊢
      refine ⟨hfirst.index, hfirst.nodeId, hfirst.gentxs, fun _ => ?_, fun _ j hj hj0 => ?_⟩
      · obtain ⟨coins, hcoins, hlt⟩ := hprepared.ownAccount
        rw [hstake] at hown hcoins hlt
        exact ⟨coins, hown.trans hcoins, hlt⟩
      · have hmem : ipAt (primary :: secondaries) j ∈ texts primary secondaries :=
          element_mem (by rwa [List.length_map])
        obtain ⟨coins, hcoins, hle⟩ := hfunded (ipAt (primary :: secondaries) j) hmem
        rw [stakeAt_ipAt d hn hj] at hcoins hle
        intro coins' hcoins'
        rw [hcoins] at hcoins'
        cases hcoins'
        exact hle
    · intro ip hip
      rw [Function.update_of_ne hip]
      exact ⟨rfl, rfl⟩
  · rw [Function.update_self]
    exact hperm
  · rw [Function.update_self]
    exact hfunded

/-- Scattering gives the secondary hosts a genesis and nothing else. -/
private theorem scatterGenesis_eq (ips : List String) (c : Cluster) (ip : String) :
    (scatterGenesis ips c ip).nodeId = (c ip).nodeId ∧
      (scatterGenesis ips c ip).gentxDir = (c ip).gentxDir := by
  rw [scatterGenesis]
  split
  · exact ⟨rfl, rfl⟩
  · rw [foldl_copyGenesis]
    split
    · exact ⟨rfl, rfl⟩
    · exact ⟨rfl, rfl⟩

private theorem scatterGenesis_genesis (hn : (texts primary secondaries).Nodup)
    (hlen : (primary :: secondaries).length ≤ 3) (c : Cluster) :
    ∀ ip ∈ texts primary secondaries,
      (scatterGenesis (texts primary secondaries) c ip).genesis = (c primary.text).genesis := by
  have hplain : ∀ ip ∈ secondaries.map PublicIp.text, Plain ip := fun _ hip => plain_of_mem hip
  have hlen' : (texts primary secondaries).length ≤ 3 := by rwa [List.length_map]
  intro ip hip
  rcases single_or_not_skipped primary.text hlen' with hsingle | hgo
  · have hnil : secondaries = [] := List.map_eq_nil_iff.mp hsingle
    subst hnil
    have hskip : skipsSecondaries (texts primary []) = true :=
      skipsSecondaries_iff.mpr ⟨0, by simp⟩
    rw [scatterGenesis, hskip, if_pos rfl, List.mem_singleton.mp hip]
  · exact scatterGenesis_shared hplain hn hgo ip hip

private theorem allConfigured_scattered (hn : (texts primary secondaries).Nodup) {c : Cluster}
    (h : AllConfigured d (primary :: secondaries) c) :
    AllConfigured d (primary :: secondaries) (scatterGenesis (texts primary secondaries) c) := by
  have hfirst := h 0 (by simp)
  have hgenesis := scatterGenesis_genesis hn h.length_le c primary.text (by simp)
  obtain ⟨hid, hdir⟩ := scatterGenesis_eq (texts primary secondaries) c primary.text
  apply h.of_first hn
  · refine ⟨hfirst.index, hid.trans hfirst.nodeId, ?_, ?_, ?_⟩
    · rw [hdir]
      exact hfirst.gentxs
    · rw [hgenesis]
      exact hfirst.ownAccount
    · rw [hgenesis]
      exact hfirst.others
  · intro ip _
    exact scatterGenesis_eq _ c ip

/-- However far the provisioners come, they can be run again; when they end, the genesis is
assembled, and they end unless the connection breaks. -/
theorem genesisProvisioners_again (hd : d.Documented) (hne : 0 < ips.length)
    (hn : (ips.map PublicIp.text).Nodup) (h : AllConfigured d ips cluster)
    (breaks : Option Reached) :
    AllConfigured d ips
        (genesisProvisioners d.toDaemon (ips.map PublicIp.text) breaks cluster).1 ∧
      ((genesisProvisioners d.toDaemon (ips.map PublicIp.text) breaks cluster).2 = true →
        Assembled (stakeAt d (ips.map PublicIp.text)) (ips.map PublicIp.text)
          (genesisProvisioners d.toDaemon (ips.map PublicIp.text) breaks cluster).1) ∧
      (breaks = none →
        (genesisProvisioners d.toDaemon (ips.map PublicIp.text) breaks cluster).2 = true) := by
  obtain ⟨primary, secondaries, rfl⟩ := List.exists_cons_of_length_pos hne
  obtain ⟨c, hrun, hc, hperm, hfunded⟩ := generated_again hd hn h
  have hrun' : generateOnPrimary d.toDaemon ((primary :: secondaries).map PublicIp.text)
      (gatherGentxs ((primary :: secondaries).map PublicIp.text) cluster) = some c := hrun
  rw [genesisProvisioners]
  split
  · rename_i hnothing
    subst hnothing
    exact ⟨h, nofun, nofun⟩
  split
  · rename_i hgathered
    subst hgathered
    exact ⟨allConfigured_gathered hd hn h, nofun, nofun⟩
  simp only [hrun']
  split
  · rename_i hgenerated
    subst hgenerated
    exact ⟨hc, nofun, nofun⟩
  refine ⟨allConfigured_scattered hn hc, fun _ => ?_, fun hnone => by simp [hnone]⟩
  exact ⟨(c primary.text).genesis, scatterGenesis_genesis hn h.length_le c, hperm, hfunded⟩

end Assembling

end Mandelbot.Deploy
