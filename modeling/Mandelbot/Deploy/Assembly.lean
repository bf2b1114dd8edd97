import Mandelbot.Deploy.Genesis

/-!
# The assembled genesis

From hosts with one genesis transaction each, the provisioners leave one genesis file with all
transactions, every delegator funded, unless the guard skips the secondary hosts. The guard
compares decimals as strings, so it skips every number that starts with the digit one.
-/

namespace Mandelbot.Deploy

open Shell

variable {d : Daemon} {gentx : String → GenTx} {cluster cluster' : Cluster}

/-- The genesis transaction file that a host starts with. -/
def ownFile (gentx : String → GenTx) (cluster : Cluster) (ip : String) : GentxFile :=
  ⟨gentxName (cluster ip).nodeId, gentx ip⟩

/-- No account, or one that holds the staked amount. -/
def Fundable (genesis : Genesis) (tx : GenTx) : Prop :=
  ∀ coins, genesis.balances tx.delegatorAddress = some coins → tx.amount ≤ coins tx.denom

/-- The hosts after their configuration: each holds its own genesis transaction, and the first
one's genesis has the account of its own delegator, with more than the stake, and no account that
is short of another host's stake. -/
structure Prepared (gentx : String → GenTx) (cluster : Cluster) (primary : String)
    (secondaries : List String) : Prop where
  distinctIps : (primary :: secondaries).Nodup
  files : ∀ ip ∈ primary :: secondaries,
    (cluster ip).gentxDir = KeyedStore.empty.set (ownFile gentx cluster ip)
  nodeIds : ((primary :: secondaries).map fun ip => (cluster ip).nodeId).Nodup
  delegators : ((primary :: secondaries).map fun ip => (gentx ip).delegatorAddress).Nodup
  ownAccount : ∃ coins, (cluster primary).genesis.balances (gentx primary).delegatorAddress =
    some coins ∧ (gentx primary).amount < coins (gentx primary).denom
  others : ∀ ip ∈ secondaries, Fundable (cluster primary).genesis (gentx ip)

/-- All hosts share a genesis with all transactions, each with a funded delegator. -/
def Assembled (gentx : String → GenTx) (ips : List String) (cluster : Cluster) : Prop :=
  ∃ genesis : Genesis, (∀ ip ∈ ips, (cluster ip).genesis = genesis) ∧
    genesis.genTxs.Perm (ips.map gentx) ∧ ∀ ip ∈ ips, Funded genesis (gentx ip)

section Names

theorem gentxName_injective {a b : String} (h : gentxName a = gentxName b) : a = b := by
  have hlists := congrArg String.toList h
  simp only [gentxName, String.toList_append] at hlists
  exact String.toList_inj.mp (List.append_cancel_left (List.append_cancel_right hlists))

theorem isGentx_gentxName (nodeId : String) : isGentx (gentxName nodeId) = true := by
  rw [isGentx, Bool.and_eq_true, List.isPrefixOf_iff_prefix, List.isSuffixOf_iff_suffix]
  simp only [gentxName, String.toList_append]
  exact ⟨⟨_, (List.append_assoc _ _ _).symm⟩, List.suffix_append _ _⟩

end Names

section Funding

private theorem fundDelegator_own {own : String} {genesis : Genesis} {f : GentxFile}
    (hname : f.name = gentxName own) : fundDelegator d own genesis f = genesis := by
  simp [fundDelegator, hname]

private theorem fundDelegator_new (hd : d.Documented) {own : String} {genesis : Genesis}
    {f : GentxFile} (hname : f.name ≠ gentxName own)
    (hnew : genesis.balances f.tx.delegatorAddress = none) :
    (fundDelegator d own genesis f).balances =
      Function.update genesis.balances f.tx.delegatorAddress
        (some (coin f.tx.amount f.tx.denom)) := by
  have hadd := hd.add_new genesis _ f.tx.amount f.tx.denom hnew
  simp [fundDelegator, hname, hadd]

/-- The failure to add an account twice is swallowed. -/
private theorem fundDelegator_existing (hd : d.Documented) {own : String} {genesis : Genesis}
    {f : GentxFile} (hold : genesis.balances f.tx.delegatorAddress ≠ none) :
    fundDelegator d own genesis f = genesis := by
  have hadd := hd.add_existing genesis _ f.tx.amount f.tx.denom hold
  simp [fundDelegator, hadd]

private theorem funded_fundDelegator (hd : d.Documented) {own : String} {genesis : Genesis}
    {f : GentxFile} (hname : f.name ≠ gentxName own) (hf : Fundable genesis f.tx) :
    Funded (fundDelegator d own genesis f) f.tx := by
  cases hold : genesis.balances f.tx.delegatorAddress with
  | none =>
      refine ⟨coin f.tx.amount f.tx.denom, ?_, by simp [coin]⟩
      rw [fundDelegator_new hd hname hold, Function.update_self]
  | some coins =>
      have hne : genesis.balances f.tx.delegatorAddress ≠ none := by simp [hold]
      rw [fundDelegator_existing hd hne]
      exact ⟨coins, hold, hf coins hold⟩

/-- An account that is not the delegator of another node's transaction stays as it is. -/
private theorem fundDelegator_other (hd : d.Documented) {own : String} {genesis : Genesis}
    {f : GentxFile} {a : String} (ha : f.name ≠ gentxName own → f.tx.delegatorAddress ≠ a) :
    (fundDelegator d own genesis f).balances a = genesis.balances a := by
  by_cases hname : f.name = gentxName own
  · rw [fundDelegator_own hname]
  by_cases hold : genesis.balances f.tx.delegatorAddress = none
  · rw [fundDelegator_new hd hname hold]
    exact Function.update_of_ne (Ne.symm (ha hname)) _ _
  · rw [fundDelegator_existing hd hold]

/-- The loop funds every delegator that is not funded yet and leaves all other accounts alone. -/
theorem foldl_fundDelegator (hd : d.Documented) (own : String) (files : List GentxFile)
    (genesis : Genesis) (hnodup : (files.map fun f => f.tx.delegatorAddress).Nodup)
    (hfundable : ∀ f ∈ files, f.name ≠ gentxName own → Fundable genesis f.tx) :
    (∀ f ∈ files, f.name ≠ gentxName own →
        Funded (files.foldl (fundDelegator d own) genesis) f.tx) ∧
      ∀ a, (∀ f ∈ files, f.name ≠ gentxName own → f.tx.delegatorAddress ≠ a) →
        (files.foldl (fundDelegator d own) genesis).balances a = genesis.balances a := by
  induction files generalizing genesis with
  | nil => exact ⟨by simp, fun a _ => rfl⟩
  | cons file files ih =>
      obtain ⟨hfile, hnodup⟩ := List.nodup_cons.mp hnodup
      have hother : ∀ f ∈ files, f.tx.delegatorAddress ≠ file.tx.delegatorAddress := by
        intro f hf he
        have hmem : f.tx.delegatorAddress ∈ files.map fun f => f.tx.delegatorAddress :=
          List.mem_map_of_mem hf
        rw [he] at hmem
        exact hfile hmem
      have hnext : ∀ f ∈ files, f.name ≠ gentxName own →
          Fundable (fundDelegator d own genesis file) f.tx := by
        intro f hf hname coins hcoins
        rw [fundDelegator_other hd fun _ => Ne.symm (hother f hf)] at hcoins
        exact hfundable f (List.mem_cons_of_mem _ hf) hname coins hcoins
      obtain ⟨hfunded, hkept⟩ := ih (fundDelegator d own genesis file) hnodup hnext
      constructor
      · intro f hf hname
        rcases List.mem_cons.mp hf with he | hf
        · subst f
          have hown := funded_fundDelegator hd hname (hfundable file (by simp) hname)
          rw [Funded, List.foldl_cons, hkept _ fun g hg _ => hother g hg]
          exact hown
        · exact hfunded f hf hname
      · intro a ha
        rw [List.foldl_cons, hkept a fun f hf => ha f (List.mem_cons_of_mem _ hf)]
        exact fundDelegator_other hd (ha file (by simp))

end Funding

section Hosts

variable {primary : String} {secondaries : List String}

private theorem nodup_names (h : Prepared gentx cluster primary secondaries) :
    (((primary :: secondaries).map (ownFile gentx cluster)).map GentxFile.name).Nodup := by
  have hmap := h.nodeIds.map (f := gentxName) fun _ _ he => gentxName_injective he
  rw [List.map_map] at hmap ⊢
  exact hmap

private theorem contains_own (h : Prepared gentx cluster primary secondaries) {ip : String}
    (hip : ip ∈ primary :: secondaries) :
    (cluster ip).gentxDir.Contains [ownFile gentx cluster ip] := by
  rw [h.files ip hip]
  exact KeyedStore.contains_singleton _

/-- The local directory after the secondary hosts have been visited. -/
private theorem contains_gathered (ips : List String) (files : List GentxFile) (dir : GentxDir)
    (hdir : dir.Contains files)
    (hips : ∀ ip ∈ ips, (cluster ip).gentxDir.Contains [ownFile gentx cluster ip])
    (hn : ((ips.map (ownFile gentx cluster) ++ files).map GentxFile.name).Nodup) :
    (ips.foldl (fun dir ip => (cluster ip).gentxDir.copyInto dir) dir).Contains
      (ips.map (ownFile gentx cluster) ++ files) := by
  induction ips generalizing files dir with
  | nil => exact hdir
  | cons ip ips ih =>
      have hperm : ((ip :: ips).map (ownFile gentx cluster) ++ files).Perm
          (ips.map (ownFile gentx cluster) ++ (ownFile gentx cluster ip :: files)) := by
        rw [List.map_cons, List.cons_append]
        exact List.perm_middle.symm
      have hnodup := (hperm.map GentxFile.name).nodup_iff.mp hn
      have hone : ((ownFile gentx cluster ip :: files).map GentxFile.name).Nodup := by
        rw [List.map_append] at hnodup
        exact (List.nodup_append.mp hnodup).2.1
      have hnext := (hips ip (by simp)).copyInto hdir hone
      have hrest := ih (ownFile gentx cluster ip :: files) _ hnext
        (fun jp hjp => hips jp (List.mem_cons_of_mem _ hjp)) hnodup
      exact hrest.congr fun a => hperm.mem_iff

/-- What the gathering leaves on the primary host: the same host, with some transactions. -/
structure GatheredFrom (gentx : String → GenTx) (cluster : Cluster) (primary : String)
    (sources : List String) (cluster' : Cluster) : Prop where
  contains : (cluster' primary).gentxDir.Contains (sources.map (ownFile gentx cluster))
  nodeId : (cluster' primary).nodeId = (cluster primary).nodeId
  genesis : (cluster' primary).genesis = (cluster primary).genesis

/-- Without the guard all transactions arrive. -/
theorem gatheredFrom_all (h : Prepared gentx cluster primary secondaries)
    (hplain : ∀ ip ∈ secondaries, Plain ip)
    (hgo : skipsSecondaries (primary :: secondaries) = false) :
    GatheredFrom gentx cluster primary (primary :: secondaries)
      (gatherGentxs (primary :: secondaries) cluster) := by
  have hsecondary : secondaryIps (primary :: secondaries) = secondaries := words_join hplain
  have hprimary : primaryIp (primary :: secondaries) = primary := rfl
  have hnames := nodup_names h
  have hperm : ((primary :: secondaries).map (ownFile gentx cluster)).Perm
      (secondaries.map (ownFile gentx cluster) ++ [ownFile gentx cluster primary]) :=
    (List.perm_append_singleton _ _).symm
  have hnodup := (hperm.map GentxFile.name).nodup_iff.mp hnames
  have hlocal : ((secondaries.map (ownFile gentx cluster) ++ []).map GentxFile.name).Nodup := by
    rw [List.append_nil]
    exact (List.nodup_cons.mp hnames).2
  have hdir := contains_gathered secondaries [] KeyedStore.empty KeyedStore.contains_empty
    (fun ip hip => contains_own h (List.mem_cons_of_mem _ hip)) hlocal
  rw [List.append_nil] at hdir
  have hall := (hdir.copyInto (contains_own h (by simp)) hnodup).congr fun a => hperm.mem_iff
  rw [gatherGentxs, hgo, hsecondary, hprimary]
  simp only [Bool.false_eq_true, if_false]
  constructor
  · rw [Function.update_self]
    exact hall
  · rw [Function.update_self]
  · rw [Function.update_self]

section Collection

variable {sources : List String}

private theorem gathered_perm (h : Prepared gentx cluster primary secondaries)
    (hsub : sources.Sublist (primary :: secondaries))
    (hg : GatheredFrom gentx cluster primary sources cluster') :
    (cluster' primary).gentxDir.values.Perm (sources.map (ownFile gentx cluster)) := by
  apply hg.contains.values_perm
  exact (nodup_names h).sublist ((hsub.map _).map _)

private theorem exists_source (h : Prepared gentx cluster primary secondaries)
    (hsub : sources.Sublist (primary :: secondaries))
    (hg : GatheredFrom gentx cluster primary sources cluster') {f : GentxFile}
    (hf : f ∈ (cluster' primary).gentxDir.values) :
    ∃ ip ∈ sources, ownFile gentx cluster ip = f :=
  List.mem_map.mp ((gathered_perm h hsub hg).mem_iff.mp hf)

/-- A file under another name than the primary's is a secondary's. -/
private theorem exists_secondary (h : Prepared gentx cluster primary secondaries)
    (hsub : sources.Sublist (primary :: secondaries))
    (hg : GatheredFrom gentx cluster primary sources cluster') {f : GentxFile}
    (hf : f ∈ (cluster' primary).gentxDir.values)
    (hname : f.name ≠ gentxName (cluster primary).nodeId) :
    ∃ ip ∈ secondaries, ownFile gentx cluster ip = f := by
  obtain ⟨ip, hip, he⟩ := exists_source h hsub hg hf
  refine ⟨ip, ?_, he⟩
  rcases List.mem_cons.mp (hsub.subset hip) with hp | hs
  · rw [← he, hp] at hname
    exact absurd rfl hname
  · exact hs

/-- The pattern of the loop misses no file. -/
private theorem filter_isGentx (h : Prepared gentx cluster primary secondaries)
    (hsub : sources.Sublist (primary :: secondaries))
    (hg : GatheredFrom gentx cluster primary sources cluster') :
    ((cluster' primary).gentxDir.values.filter fun f => isGentx f.name) =
      (cluster' primary).gentxDir.values := by
  apply List.filter_eq_self.mpr
  intro f hf
  obtain ⟨ip, _, he⟩ := exists_source h hsub hg hf
  rw [← he]
  exact isGentx_gentxName _

private theorem nodup_delegators (h : Prepared gentx cluster primary secondaries)
    (hsub : sources.Sublist (primary :: secondaries))
    (hg : GatheredFrom gentx cluster primary sources cluster') :
    ((cluster' primary).gentxDir.values.map fun f => f.tx.delegatorAddress).Nodup := by
  apply ((gathered_perm h hsub hg).map _).nodup_iff.mpr
  rw [List.map_map]
  exact h.delegators.sublist (hsub.map _)

private theorem fundable_of_gathered (h : Prepared gentx cluster primary secondaries)
    (hsub : sources.Sublist (primary :: secondaries))
    (hg : GatheredFrom gentx cluster primary sources cluster') :
    ∀ f ∈ (cluster' primary).gentxDir.values,
      f.name ≠ gentxName (cluster primary).nodeId → Fundable (cluster primary).genesis f.tx := by
  intro f hf hname
  obtain ⟨ip, hip, he⟩ := exists_secondary h hsub hg hf hname
  rw [← he]
  exact h.others ip hip

private theorem delegator_ne_own (h : Prepared gentx cluster primary secondaries)
    (hsub : sources.Sublist (primary :: secondaries))
    (hg : GatheredFrom gentx cluster primary sources cluster') :
    ∀ f ∈ (cluster' primary).gentxDir.values, f.name ≠ gentxName (cluster primary).nodeId →
      f.tx.delegatorAddress ≠ (gentx primary).delegatorAddress := by
  intro f hf hname hsame
  obtain ⟨ip, hip, he⟩ := exists_secondary h hsub hg hf hname
  rw [← he] at hsame
  have heq := List.inj_on_of_nodup_map h.delegators (List.mem_cons_of_mem primary hip)
    (by simp) hsame
  subst heq
  exact (List.nodup_cons.mp h.distinctIps).1 hip

/-- After the loop every delegator is funded: the primary's was before, the others at the latest
now. -/
private theorem funded_of_gathered (hd : d.Documented)
    (h : Prepared gentx cluster primary secondaries)
    (hsub : sources.Sublist (primary :: secondaries))
    (hg : GatheredFrom gentx cluster primary sources cluster') :
    ∀ ip ∈ sources, Funded ((cluster' primary).gentxDir.values.foldl
      (fundDelegator d (cluster primary).nodeId) (cluster primary).genesis) (gentx ip) := by
  have hperm := gathered_perm h hsub hg
  obtain ⟨hfunded, hkept⟩ := foldl_fundDelegator hd _ _ _ (nodup_delegators h hsub hg)
    (fundable_of_gathered h hsub hg)
  intro ip hip
  by_cases hname : (ownFile gentx cluster ip).name = gentxName (cluster primary).nodeId
  · have heq := List.inj_on_of_nodup_map h.nodeIds (hsub.subset hip) (by simp)
      (gentxName_injective hname)
    obtain ⟨coins, hcoins, hlt⟩ := h.ownAccount
    rw [heq]
    exact ⟨coins, (hkept _ (delegator_ne_own h hsub hg)).trans hcoins, hlt.le⟩
  · exact hfunded _ (hperm.mem_iff.mpr (List.mem_map_of_mem hip)) hname

/-- The genesis that the loop leaves is collected as it is. -/
private theorem generateGenesisFile_gathered (hd : d.Documented)
    (h : Prepared gentx cluster primary secondaries)
    (hsub : sources.Sublist (primary :: secondaries))
    (hg : GatheredFrom gentx cluster primary sources cluster') :
    generateGenesisFile d (cluster' primary) = some { cluster' primary with
      genesis := { (cluster' primary).gentxDir.values.foldl
          (fundDelegator d (cluster primary).nodeId) (cluster primary).genesis with
        genTxs := (cluster' primary).gentxDir.values.map GentxFile.tx } } := by
  let files := (cluster' primary).gentxDir.values
  let funded := files.foldl (fundDelegator d (cluster primary).nodeId) (cluster primary).genesis
  have hcollect : d.collectGentxs funded files =
      some { funded with genTxs := files.map GentxFile.tx } := by
    apply hd.collect_funded
    intro f hf
    obtain ⟨ip, hip, he⟩ := exists_source h hsub hg hf
    rw [← he]
    exact funded_of_gathered hd h hsub hg ip hip
  rw [generateGenesisFile]
  simp only [filter_isGentx h hsub hg, hg.genesis, hg.nodeId]
  rw [hcollect]
  rfl

/-- The primary host funds and collects the transactions that it has gathered. -/
theorem generateOnPrimary_total (hd : d.Documented)
    (h : Prepared gentx cluster primary secondaries)
    (hsub : sources.Sublist (primary :: secondaries))
    (hg : GatheredFrom gentx cluster primary sources cluster') :
    ∃ genesis, generateOnPrimary d (primary :: secondaries) cluster' =
        some (Function.update cluster' primary { cluster' primary with genesis := genesis }) ∧
      genesis.genTxs.Perm (sources.map gentx) ∧ ∀ ip ∈ sources, Funded genesis (gentx ip) := by
  refine ⟨{ (cluster' primary).gentxDir.values.foldl
      (fundDelegator d (cluster primary).nodeId) (cluster primary).genesis with
    genTxs := (cluster' primary).gentxDir.values.map GentxFile.tx }, ?_, ?_,
    funded_of_gathered hd h hsub hg⟩
  · change (generateGenesisFile d (cluster' primary)).map _ = _
    rw [generateGenesisFile_gathered hd h hsub hg]
    rfl
  · have htxs := (gathered_perm h hsub hg).map GentxFile.tx
    rwa [List.map_map] at htxs

/-- The account of the primary's own delegator stays as it is. -/
theorem generateOnPrimary_ownAccount (hd : d.Documented)
    (h : Prepared gentx cluster primary secondaries)
    (hsub : sources.Sublist (primary :: secondaries))
    (hg : GatheredFrom gentx cluster primary sources cluster') {c : Cluster}
    (hrun : generateOnPrimary d (primary :: secondaries) cluster' = some c) :
    (c primary).genesis.balances (gentx primary).delegatorAddress =
      (cluster primary).genesis.balances (gentx primary).delegatorAddress := by
  have hprimary : primaryIp (primary :: secondaries) = primary := rfl
  rw [generateOnPrimary, hprimary, generateGenesisFile_gathered hd h hsub hg, Option.map_some,
    Option.some.injEq] at hrun
  rw [← hrun, Function.update_self]
  exact (foldl_fundDelegator hd _ _ _ (nodup_delegators h hsub hg)
    (fundable_of_gathered h hsub hg)).2 _ (delegator_ne_own h hsub hg)

end Collection

/-- A loop that copies one genesis to the hosts of a list. -/
theorem foldl_copyGenesis (genesis : Genesis) (ips : List String) (cluster : Cluster)
    (ip : String) :
    (ips.foldl (fun cluster ip =>
      Function.update cluster ip { cluster ip with genesis := genesis }) cluster) ip =
        if ip ∈ ips then { cluster ip with genesis := genesis } else cluster ip := by
  induction ips generalizing cluster with
  | nil => simp
  | cons jp ips ih =>
      rw [List.foldl_cons, ih]
      by_cases he : ip = jp
      · subst jp
        simp
      · simp [he]

theorem scatterGenesis_shared (hplain : ∀ ip ∈ secondaries, Plain ip)
    (hnodup : (primary :: secondaries).Nodup)
    (hgo : skipsSecondaries (primary :: secondaries) = false) :
    ∀ ip ∈ primary :: secondaries,
      (scatterGenesis (primary :: secondaries) cluster ip).genesis =
        (cluster primary).genesis := by
  have hsecondary : secondaryIps (primary :: secondaries) = secondaries := words_join hplain
  have hprimary : primaryIp (primary :: secondaries) = primary := rfl
  intro ip hip
  rw [scatterGenesis, hgo, hsecondary, hprimary]
  simp only [Bool.false_eq_true, if_false]
  rw [foldl_copyGenesis]
  rcases List.mem_cons.mp hip with he | hmem
  · subst ip
    rw [if_neg (List.nodup_cons.mp hnodup).1]
  · rw [if_pos hmem]

/-- The guard holds of every number of hosts that starts with the digit one. -/
theorem skipsSecondaries_iff :
    skipsSecondaries (primary :: secondaries) = true ↔
      LeadsWithOne (primary :: secondaries).length := by
  rw [skipsSecondaries, decide_eq_true_eq, repr_lt_two_iff (by simp)]

end Hosts

section Samples

end Samples

end Mandelbot.Deploy
