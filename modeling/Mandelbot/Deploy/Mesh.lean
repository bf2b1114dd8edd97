import Mandelbot.Deploy.Scripts

/-!
# The peer mesh

The persistent peers that the scripts give to validators and seeds, for any number of validators,
and the identities behind them. The identity table, the key files and the mnemonics cover three
validators; every further index falls into the same branch and past the end of the table.
-/

namespace Mandelbot.Deploy

open Shell

/-- A peer entry: node id, address and port. -/
def peerEntry (id : ℕ → String) (ips : List PublicIp) (j : ℕ) : String :=
  id j ++ "@" ++ element (ips.map PublicIp.text) j ++ ":26656"

/-- The node id that the scripts use for validator `j`. -/
def nodeId (j : ℕ) : String := element validatorP2pKeys j

/-- The peers of a comma-separated list. -/
def peerList (peers : String) : List String := dropEmptyLast (splitOn ',' peers)

theorem nodeId_eq_empty {j : ℕ} (h : 3 ≤ j) : nodeId j = "" :=
  List.getD_eq_default _ _ h

theorem element_noComma {items : List String} (h : ∀ w ∈ items, ',' ∉ w.toList) (j : ℕ) :
    ',' ∉ (element items j).toList := by
  by_cases hj : j < items.length
  · rw [element, List.getD_eq_getElem _ _ hj]
    exact h _ (List.getElem_mem hj)
  · rw [element, List.getD_eq_default _ _ (by omega)]
    decide

theorem peerEntry_noComma (ips : List PublicIp) (j : ℕ) :
    ',' ∉ (peerEntry nodeId ips j).toList := by
  have hid : ',' ∉ (nodeId j).toList := element_noComma (by decide) j
  have hip : ',' ∉ (element (ips.map PublicIp.text) j).toList :=
    element_noComma (fun _ hw => noComma_of_mem hw) j
  have hat : "@".toList = ['@'] := by decide
  have hport : ":26656".toList = [':', '2', '6', '6', '5', '6'] := by decide
  simp [peerEntry, hid, hip, hat, hport]

/-- The loop writes the entries that it does not skip, each with a comma after it. -/
theorem persistentPeers_eq (skip : String → Bool) (ips : List PublicIp) :
    persistentPeers skip (ips.map PublicIp.text) =
      terminated ',' (((List.range ips.length).filter fun j => !skip (toString j)).map
        (peerEntry nodeId ips)) := by
  rw [persistentPeers, terminated, List.foldl_map, List.foldl_filter, List.length_map]
  congr 1
  funext peers j
  cases skip (toString j) with
  | true => simp
  | false =>
      have hend : ":26656," = ":26656" ++ String.singleton ',' := by decide
      simp only [Bool.false_eq_true, if_false, Bool.not_false, if_true, peerEntry, nodeId, hend,
        String.append_assoc]

theorem peerList_persistentPeers (skip : String → Bool) (ips : List PublicIp) :
    peerList (persistentPeers skip (ips.map PublicIp.text)) =
      ((List.range ips.length).filter fun j => !skip (toString j)).map (peerEntry nodeId ips) := by
  rw [peerList, persistentPeers_eq]
  apply split_terminated
  intro w hw
  obtain ⟨j, _, he⟩ := List.mem_map.mp hw
  exact he ▸ peerEntry_noComma ips j

theorem toString_injective {i j : ℕ} (h : toString i = toString j) : i = j := by
  have hdigits := congrArg String.toList h
  rw [Nat.toString_eq_repr, Nat.toString_eq_repr, Nat.toList_repr, Nat.toList_repr] at hdigits
  have hvalues := congrArg (fun cs => Nat.ofDigitChars 10 cs 0) hdigits
  simpa only [Nat.ofDigitChars_ten_toDigits] using hvalues

/-- Every validator peers with all the others, in order, for any number of validators. -/
theorem peerList_validatorPeers (i : ℕ) (ips : List PublicIp) :
    peerList (validatorPeers i (ipsStr ips)) =
      ((List.range ips.length).filter (· ≠ i)).map (peerEntry nodeId ips) := by
  have hskip : (fun j : ℕ => !decide (toString j = toString i)) = fun j => decide (j ≠ i) := by
    funext j
    by_cases hj : j = i
    · simp [hj]
    · have hne : j.repr ≠ i.repr := fun he => hj (toString_injective he)
      simp [hj, hne]
  rw [validatorPeers, ipArray_ipsStr, peerList_persistentPeers, hskip]

theorem peerList_seedPeers (ips : List PublicIp) :
    peerList (seedPeers (ipsStr ips)) = (List.range ips.length).map (peerEntry nodeId ips) := by
  have hall : (List.range ips.length).filter (fun _ => !false) = List.range ips.length :=
    List.filter_eq_self.mpr fun _ _ => rfl
  rw [seedPeers, ipArray_ipsStr, peerList_persistentPeers, hall]

/-- A seed that is configured at all peers with every validator. -/
theorem peerList_configureSeed {upload : List String} {i : ℕ} {seedIpsStr : String}
    {ips : List PublicIp} {config : NodeConfig}
    (h : configureSeed upload i seedIpsStr (ipsStr ips) = some config) :
    peerList config.persistentPeers = (List.range ips.length).map (peerEntry nodeId ips) := by
  rw [configureSeed] at h
  split at h
  · rw [← Option.some.inj h]
    simp only [peerList_seedPeers]
  · cases h

/-- Node `i` has its own key file and peers with all the others. -/
def PeersWithOthers (ips : List PublicIp) (id : ℕ → String) (i : ℕ) : Prop :=
  ∃ config, configureValidator uploadedKeys i (ipsStr ips) = some config ∧
    config.nodeKey = validatorNodeKey i ∧
    peerList config.persistentPeers =
      ((List.range ips.length).filter (· ≠ i)).map (peerEntry id ips)

/-- The scripts give two nodes different names, mnemonics and operator accounts. -/
def DistinctOperators {Account : Type} (account : String → Account) (i j : ℕ) : Prop :=
  generateGentxMoniker i ≠ generateGentxMoniker j ∧
    configureValidatorMoniker i ≠ configureValidatorMoniker j ∧
    generateGentxMnemonic i ≠ generateGentxMnemonic j ∧
    account (generateGentxMnemonic i) ≠ account (generateGentxMnemonic j)

/-- A complete mesh of distinct identities. -/
structure CompleteMesh {Account : Type} (account : String → Account) (ips : List PublicIp)
    (id : ℕ → String) : Prop where
  idNonempty : ∀ j < ips.length, id j ≠ ""
  idDistinct : ∀ i < ips.length, ∀ j < ips.length, i ≠ j → id i ≠ id j
  validators : ∀ i < ips.length, PeersWithOthers ips id i
  seeds : peerList (seedPeers (ipsStr ips)) = (List.range ips.length).map (peerEntry id ips)
  operators : ∀ i < ips.length, ∀ j < ips.length, i ≠ j → DistinctOperators account i j

section Identities

theorem nodeId_distinct : ∀ i < 3, ∀ j < 3, i ≠ j → nodeId i ≠ nodeId j := by decide

theorem nodeId_nonempty : ∀ j < 3, nodeId j ≠ "" := by decide

theorem validatorNodeKey_uploaded : ∀ i < 3, validatorNodeKey i ∈ uploadedKeys := by decide

/-- From the fourth node on all nodes are the same operator. -/
theorem byNodeIndex_of_two_le (first second other : String) {i : ℕ} (h : 2 ≤ i) :
    byNodeIndex first second other i = other := by
  have hzero : toString i ≠ "0" := fun he => by
    have hi : i = 0 := toString_injective he
    omega
  have hone : toString i ≠ "1" := fun he => by
    have hi : i = 1 := toString_injective he
    omega
  rw [byNodeIndex, if_neg hzero, if_neg hone]

theorem byNodeIndex_ne {first second other : String} (h₁ : first ≠ second) (h₂ : first ≠ other)
    (h₃ : second ≠ other) {i j : ℕ} (hi : i < 3) (hj : j < 3) (hij : i ≠ j) :
    byNodeIndex first second other i ≠ byNodeIndex first second other j := by
  have hzero : byNodeIndex first second other 0 = first := rfl
  have hone : byNodeIndex first second other 1 = second := rfl
  have htwo : byNodeIndex first second other 2 = other := rfl
  interval_cases i <;> interval_cases j <;> simp_all [Ne.symm]

theorem peersWithOthers {ips : List PublicIp} {i : ℕ} (hi : i < 3) :
    PeersWithOthers ips nodeId i := by
  have hpeers := peerList_validatorPeers i ips
  have hkey := validatorNodeKey_uploaded i hi
  simp only [PeersWithOthers, configureValidator, if_pos hkey, Option.some.injEq,
    exists_eq_left', true_and]
  exact hpeers

theorem distinctOperators {Account : Type} {account : String → Account}
    (haccount : ∀ m m', m ≠ m' → account m ≠ account m') {i j : ℕ} (hi : i < 3) (hj : j < 3)
    (hij : i ≠ j) : DistinctOperators account i j := by
  have hmoniker : byNodeIndex "red" "blue" "green" i ≠ byNodeIndex "red" "blue" "green" j :=
    byNodeIndex_ne (by simp) (by simp) (by simp) hi hj hij
  have hmnemonic : generateGentxMnemonic i ≠ generateGentxMnemonic j := by
    rw [generateGentxMnemonic, generateGentxMnemonic]
    exact byNodeIndex_ne (by decide +kernel) (by decide +kernel) (by decide +kernel) hi hj hij
  exact ⟨hmoniker, hmoniker, hmnemonic, haccount _ _ hmnemonic⟩

end Identities

/-- The mesh is complete exactly for at most three validators. -/
theorem completeMesh_iff {Account : Type} (account : String → Account)
    (haccount : ∀ m m', m ≠ m' → account m ≠ account m') (ips : List PublicIp) :
    (∃ id, CompleteMesh account ips id) ↔ ips.length ≤ 3 := by
  constructor
  · intro h
    rcases h with ⟨id, hmesh⟩
    by_contra hlong
    have hsame : generateGentxMoniker 2 = generateGentxMoniker 3 := by
      have htwo := byNodeIndex_of_two_le "red" "blue" "green" (le_refl 2)
      have hthree := byNodeIndex_of_two_le "red" "blue" "green" (Nat.le_succ 2)
      exact htwo.trans hthree.symm
    exact (hmesh.operators 2 (by omega) 3 (by omega) (by omega)).1 hsame
  · intro hlen
    refine ⟨nodeId, ?_, ?_, ?_, peerList_seedPeers ips, ?_⟩
    · intro j hj
      exact nodeId_nonempty j (by omega)
    · intro i hi j hj
      exact nodeId_distinct i (by omega) j (by omega)
    · intro i hi
      exact peersWithOthers (by omega)
    · intro i hi j hj hij
      exact distinctOperators haccount (by omega) (by omega) hij

section Samples

theorem completeMesh_iff_sample : ∃ id, CompleteMesh (fun m => m) (sampleIps.take 3) id :=
  (completeMesh_iff (fun m => m) (fun _ _ h => h) (sampleIps.take 3)).mpr (by decide)

/-- The fourth validator has no key file, no node id and the operator of the third. -/
theorem fourth_validator_fails :
    ((sampleIps.take 4).map PublicIp.text).Nodup ∧
      (¬ ∃ id, CompleteMesh (fun m => m) (sampleIps.take 4) id) ∧
      configureValidator uploadedKeys 3 (ipsStr (sampleIps.take 4)) = none ∧ nodeId 3 = "" ∧
      generateGentxMnemonic 3 = generateGentxMnemonic 2 := by
  have hmissing : validatorNodeKey 3 ∉ uploadedKeys := by decide
  have hsame : generateGentxMnemonic 3 = generateGentxMnemonic 2 := by
    rw [generateGentxMnemonic, generateGentxMnemonic, byNodeIndex_of_two_le _ _ _ (by omega),
      byNodeIndex_of_two_le _ _ _ (by omega)]
  have hnone : configureValidator uploadedKeys 3 (ipsStr (sampleIps.take 4)) = none := by
    rw [configureValidator, if_neg hmissing]
  refine ⟨by decide, ?_, hnone, nodeId_eq_empty (le_refl 3), hsame⟩
  intro h
  rcases h with ⟨id, hmesh⟩
  obtain ⟨config, hconfig, _⟩ := hmesh.validators 3 (by decide)
  rw [hnone] at hconfig
  cases hconfig

end Samples

end Mandelbot.Deploy
