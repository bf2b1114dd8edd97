import Mandelbot.Export.AllowList
import Mandelbot.Sdk.Reference

/-!
# The staking walk

The part of `prepForZeroHeightGenesis` that resets the heights of the staking records and jails
the validators off the allow-list (app/export.go, lines 126-168). The walk over the validators
recovers each address from its store key; `decode` stands for that recovery, and the source's own
is `keyAddress`.
-/

namespace Mandelbot

/-- Set the creation height of every entry to zero. -/
def resetRedelegation (red : Redelegation) : Redelegation :=
  { red with entries := red.entries.map fun entry => { entry with creationHeight := 0 } }

def resetUnbondingDelegation (ubd : UnbondingDelegation) : UnbondingDelegation :=
  { ubd with entries := ubd.entries.map fun entry => { entry with creationHeight := 0 } }

def resetRedelegations (k : StakingKeeper) (st : StakingStore) : Except Abort StakingStore :=
  iterate (neverStop fun st red => .ok (k.setRedelegation st (resetRedelegation red)))
    st.redelegations.values st

def resetUnbondingDelegations (k : StakingKeeper) (st : StakingStore) :
    Except Abort StakingStore :=
  iterate (neverStop fun st ubd => .ok (k.setUnbondingDelegation st (resetUnbondingDelegation ubd)))
    st.unbondingDelegations.values st

/-- `iter.Key()[1:]`. -/
def keyAddress (key : StoreKey) : ValAddress := key.drop 1

def resetValidator (c : AddressCodec) (applyAllowedAddrs : Bool) (allowedAddrsMap : String → Bool)
    (addr : ValAddress) (validator : Validator) : Validator :=
  let validator := { validator with unbondingHeight := 0 }
  if applyAllowedAddrs && !allowedAddrsMap (c.string addr) then { validator with jailed := true }
  else validator

/-- The loop body, with the `int16` counter. -/
def visitValidator (k : StakingKeeper) (c : AddressCodec) (applyAllowedAddrs : Bool)
    (allowedAddrsMap : String → Bool) (s : StakingStore × Int16) (addr : ValAddress) :
    Except Abort (StakingStore × Int16) := do
  let found ← k.getValidator s.1 addr
  match found with
  | none => .error (.panic "expected validator, not found")
  | some validator =>
      .ok (k.setValidator s.1 (resetValidator c applyAllowedAddrs allowedAddrsMap addr validator),
        s.2 + 1)

/-- The addresses in the order of the reverse iterator. -/
def visitedAddrs (decode : StoreKey → ValAddress) (st : StakingStore) : List ValAddress :=
  st.validators.keys.reverse.map decode

def walkValidators (decode : StoreKey → ValAddress) (k : StakingKeeper) (c : AddressCodec)
    (applyAllowedAddrs : Bool) (allowedAddrsMap : String → Bool) (st : StakingStore) :
    Except Abort (StakingStore × Int16) :=
  (visitedAddrs decode st).foldlM (visitValidator k c applyAllowedAddrs allowedAddrsMap) (st, 0)

def stakingWalk (decode : StoreKey → ValAddress) (k : StakingKeeper) (c : AddressCodec)
    (applyAllowedAddrs : Bool) (allowedAddrsMap : String → Bool) (st : StakingStore) :
    Except Abort (StakingStore × Int16) := do
  let st ← resetRedelegations k st
  let st ← resetUnbondingDelegations k st
  walkValidators decode k c applyAllowedAddrs allowedAddrsMap st

/-- What the walk is for: a record with its unbonding height reset, and jailed when the list is
applied and does not spare it. -/
def walkedValidator (c : AddressCodec) (applyAllowedAddrs : Bool)
    (allowedAddrsMap : String → Bool) (v : Validator) : Validator :=
  { v with
    unbondingHeight := 0
    jailed := v.jailed || (applyAllowedAddrs && !allowedAddrsMap (c.string v.getOperator)) }

/-- The staking store at the end of the walk: every record rewritten, no record added or lost. -/
structure Walked (c : AddressCodec) (applyAllowedAddrs : Bool) (allowedAddrsMap : String → Bool)
    (st st' : StakingStore) : Prop where
  validators : ∀ key, st'.validators.get key =
    (st.validators.get key).map (walkedValidator c applyAllowedAddrs allowedAddrsMap)
  redelegations : ∀ key, st'.redelegations.get key =
    (st.redelegations.get key).map resetRedelegation
  unbondingDelegations : ∀ key, st'.unbondingDelegations.get key =
    (st.unbondingDelegations.get key).map resetUnbondingDelegation
  delegations : st'.delegations = st.delegations
  powerIndex : st'.powerIndex = st.powerIndex

variable {decode : StoreKey → ValAddress} {k : StakingKeeper} {c : AddressCodec}
  {applyAllowedAddrs : Bool} {allowedAddrsMap : String → Bool} {st st' : StakingStore}

theorem resetValidator_eq (v : Validator) :
    resetValidator c applyAllowedAddrs allowedAddrsMap v.getOperator v =
      walkedValidator c applyAllowedAddrs allowedAddrsMap v := by
  rw [resetValidator, walkedValidator]
  cases applyAllowedAddrs && !allowedAddrsMap (c.string v.getOperator) <;> simp

theorem visitValidator_eq_ok (hk : k.Documented) {s s' : StakingStore × Int16}
    {addr : ValAddress} :
    visitValidator k c applyAllowedAddrs allowedAddrsMap s addr = .ok s' ↔
      ∃ v, addr.length ≤ 255 ∧ s.1.validator addr = some v ∧
        s' = ({ s.1 with
          validators := s.1.validators.set
            (walkedValidator c applyAllowedAddrs allowedAddrsMap v) }, s.2 + 1) := by
  rw [visitValidator, bind_eq_ok]
  by_cases hlen : addr.length ≤ 255
  · rw [hk.getValidator_eq _ _ hlen]
    cases hv : s.1.validator addr with
    | none => simp
    | some v =>
        have haddr := StakingStore.getOperator_of_validator hv
        subst haddr
        simp [hk.setValidator_eq, resetValidator_eq, hlen, eq_comm]
  · rw [hk.getValidator_long _ _ (by omega)]
    simp [hlen]

section Heights

theorem resetRedelegations_eq (hk : k.Documented) (st : StakingStore) :
    resetRedelegations k st =
      .ok { st with redelegations := st.redelegations.rewrite resetRedelegation } := by
  rw [resetRedelegations, iterate_neverStop]
  exact foldlM_component (fun st red => k.setRedelegation st (resetRedelegation red))
    (fun m => { st with redelegations := m }) (fun m red => m.set (resetRedelegation red))
    (fun m red => hk.setRedelegation_eq _ _) st.redelegations.values st.redelegations

theorem resetUnbondingDelegations_eq (hk : k.Documented) (st : StakingStore) :
    resetUnbondingDelegations k st =
      .ok { st with
        unbondingDelegations := st.unbondingDelegations.rewrite resetUnbondingDelegation } := by
  rw [resetUnbondingDelegations, iterate_neverStop]
  exact foldlM_component (fun st ubd => k.setUnbondingDelegation st (resetUnbondingDelegation ubd))
    (fun m => { st with unbondingDelegations := m })
    (fun m ubd => m.set (resetUnbondingDelegation ubd))
    (fun m ubd => hk.setUnbondingDelegation_eq _ _) st.unbondingDelegations.values
    st.unbondingDelegations

/-- The store in which the walk over the validators starts. -/
def heightsReset (st : StakingStore) : StakingStore :=
  { st with
    redelegations := st.redelegations.rewrite resetRedelegation
    unbondingDelegations := st.unbondingDelegations.rewrite resetUnbondingDelegation }

theorem stakingWalk_eq (hk : k.Documented) (st : StakingStore) :
    stakingWalk decode k c applyAllowedAddrs allowedAddrsMap st =
      walkValidators decode k c applyAllowedAddrs allowedAddrsMap (heightsReset st) := by
  rw [stakingWalk, resetRedelegations_eq hk]
  change resetUnbondingDelegations k _ >>= _ = _
  rw [resetUnbondingDelegations_eq hk]
  rfl

end Heights

section Decoded

theorem visitedAddrs_of_decode (h : ∀ a ∈ st.operators, decode (validatorKey a) = a) :
    visitedAddrs decode st = st.operators.reverse := by
  rw [visitedAddrs, st.keys_eq, ← List.map_reverse, List.map_map]
  apply (List.map_congr_left ?_).trans (List.map_id _)
  intro a ha
  exact h a (List.mem_reverse.mp ha)

/-- The walk after the addresses in `done`: their records are rewritten, the rest is untouched. -/
structure WalkedOn (c : AddressCodec) (applyAllowedAddrs : Bool)
    (allowedAddrsMap : String → Bool) (st : StakingStore) (done : List ValAddress)
    (t : StakingStore) : Prop where
  validators : KeyedStore.RewrittenOn (walkedValidator c applyAllowedAddrs allowedAddrsMap)
    (done.map validatorKey) st.validators t.validators
  rest : t = { st with validators := t.validators }

theorem WalkedOn.step (hk : k.Documented) {done : List ValAddress} {t : StakingStore} {n : Int16}
    {a : ValAddress} (h : WalkedOn c applyAllowedAddrs allowedAddrsMap st done t)
    (ha : a ∈ st.operators) (hnew : a ∉ done) :
    ∃ t', visitValidator k c applyAllowedAddrs allowedAddrsMap (t, n) a = .ok (t', n + 1) ∧
      WalkedOn c applyAllowedAddrs allowedAddrsMap st (done ++ [a]) t' := by
  obtain ⟨v, hv⟩ := StakingStore.mem_operators.mp ha
  have haddr := StakingStore.getOperator_of_validator hv
  subst haddr
  have hkey : validatorKey v.getOperator ∉ done.map validatorKey := by
    intro hmem
    obtain ⟨b, hb, he⟩ := List.mem_map.mp hmem
    exact hnew (validatorKey_injective he ▸ hb)
  have htv : t.validator v.getOperator = some v := (h.validators.get_of_notMem hkey).trans hv
  have hlen := StakingStore.length_of_mem_operators ha
  refine ⟨_, (visitValidator_eq_ok hk).mpr ⟨v, hlen, htv, rfl⟩, ?_, ?_⟩
  · have hrewritten := h.validators.step (a := v) hv rfl
    rw [List.map_append]
    exact hrewritten
  · rw [h.rest]

/-- A walk that recovers every address visits each validator once and rewrites its record. -/
theorem walkValidators_total (hk : k.Documented)
    (hdecode : ∀ a ∈ st.operators, decode (validatorKey a) = a) :
    ∃ st' n, walkValidators decode k c applyAllowedAddrs allowedAddrsMap st = .ok (st', n) ∧
      WalkedOn c applyAllowedAddrs allowedAddrsMap st st.operators.reverse st' := by
  let I : List ValAddress → StakingStore × Int16 → Prop := fun done s =>
    WalkedOn c applyAllowedAddrs allowedAddrsMap st done s.1
  have hstart : I [] (st, 0) := ⟨KeyedStore.RewrittenOn.refl _ _, rfl⟩
  have hnodup : st.operators.reverse.Nodup := List.nodup_reverse.mpr st.nodup_operators
  have hstep : ∀ done a s, (done ++ [a]) <+: st.operators.reverse → I done s →
      ∃ s', visitValidator k c applyAllowedAddrs allowedAddrsMap s a = .ok s' ∧
        I (done ++ [a]) s' := by
    intro done a s hpre hI
    obtain ⟨t', hrun, hwalked⟩ := WalkedOn.step (n := s.2) hk hI
      (List.mem_reverse.mp (mem_of_split hpre)) (notMem_of_split hnodup hpre)
    exact ⟨(t', s.2 + 1), hrun, hwalked⟩
  obtain ⟨s', hrun, hend⟩ := foldlM_total hstep hstart
  rw [walkValidators, visitedAddrs_of_decode hdecode]
  exact ⟨s'.1, s'.2, hrun, hend⟩

theorem stakingWalk_total (hk : k.Documented) (c : AddressCodec) (applyAllowedAddrs : Bool)
    (allowedAddrsMap : String → Bool)
    (hdecode : ∀ a ∈ st.operators, decode (validatorKey a) = a) :
    ∃ st' n, stakingWalk decode k c applyAllowedAddrs allowedAddrsMap st = .ok (st', n) ∧
      Walked c applyAllowedAddrs allowedAddrsMap st st' := by
  have hops : ∀ a ∈ (heightsReset st).operators, decode (validatorKey a) = a := hdecode
  obtain ⟨st', n, hrun, hwalked⟩ := walkValidators_total hk hops
  refine ⟨st', n, (stakingWalk_eq hk st).trans hrun, ?_, ?_, ?_, ?_, ?_⟩
  · apply hwalked.validators.get_of_all
    intro key hkey
    rw [(heightsReset st).keys_eq] at hkey
    rw [List.map_reverse]
    exact List.mem_reverse.mpr hkey
  · intro key
    rw [hwalked.rest]
    exact st.redelegations.get_rewrite resetRedelegation (fun _ => rfl) key
  · intro key
    rw [hwalked.rest]
    exact st.unbondingDelegations.get_rewrite resetUnbondingDelegation (fun _ => rfl) key
  · rw [hwalked.rest]
    rfl
  · rw [hwalked.rest]
    rfl

end Decoded

section KeyAddress

/-- The recovered address still carries the length byte of the key. -/
theorem keyAddress_validatorKey (a : ValAddress) : keyAddress (validatorKey a) = lengthPrefix a :=
  rfl

/-- The walk adds no record. -/
theorem visitValidator_keys (hk : k.Documented) {s s' : StakingStore × Int16} {addr : ValAddress}
    (h : visitValidator k c applyAllowedAddrs allowedAddrsMap s addr = .ok s')
    {a : ValAddress} (ha : a ∈ s'.1.operators) : a ∈ s.1.operators := by
  obtain ⟨v, _, hv, hs'⟩ := (visitValidator_eq_ok hk).mp h
  obtain ⟨w, hw⟩ := StakingStore.mem_operators.mp ha
  rw [hs'] at hw
  by_cases he : a = v.getOperator
  · subst a
    have haddr := StakingStore.getOperator_of_validator hv
    rw [haddr]
    exact StakingStore.mem_operators.mpr ⟨v, hv⟩
  · have hkey : validatorKey a ≠
        (walkedValidator c applyAllowedAddrs allowedAddrsMap v).key :=
      fun hkey => he (validatorKey_injective hkey)
    have hkeep := KeyedStore.get_set_of_ne s.1.validators hkey
    exact StakingStore.mem_operators.mpr ⟨w, hkeep.symm.trans hw⟩

/-- A walk that does not panic has found a validator at every address it recovered. -/
theorem operators_of_walk (hk : k.Documented) {s' : StakingStore × Int16}
    (h : walkValidators decode k c applyAllowedAddrs allowedAddrsMap st = .ok s')
    {addr : ValAddress} (haddr : addr ∈ visitedAddrs decode st) : addr ∈ st.operators := by
  let I : List ValAddress → StakingStore × Int16 → Prop := fun _ s =>
    ∀ a ∈ s.1.operators, a ∈ st.operators
  have hstep : ∀ done a s s', (done ++ [a]) <+: visitedAddrs decode st → I done s →
      visitValidator k c applyAllowedAddrs allowedAddrsMap s a = .ok s' → I (done ++ [a]) s' := by
    intro done a s s' _ hI hrun b hb
    exact hI b (visitValidator_keys hk hrun hb)
  have hstart : I [] (st, 0) := fun _ ha => ha
  obtain ⟨done, s, s₁, _, hI, hrun⟩ := foldlM_visits hstep hstart h haddr
  obtain ⟨v, _, hv, _⟩ := (visitValidator_eq_ok hk).mp hrun
  exact hI addr (StakingStore.mem_operators.mpr ⟨v, hv⟩)

/-- With every address its longer form would be stored too, beyond every length. -/
theorem operators_eq_nil_of_prefixed (h : ∀ a ∈ st.operators, lengthPrefix a ∈ st.operators) :
    st.operators = [] := by
  by_contra hne
  have hlong : ∀ n, ∃ a ∈ st.operators, n ≤ a.length := by
    intro n
    induction n with
    | zero =>
        obtain ⟨a, ha⟩ := List.exists_mem_of_ne_nil _ hne
        exact ⟨a, ha, Nat.zero_le _⟩
    | succ n ih =>
        rcases ih with ⟨a, ha, hn⟩
        refine ⟨lengthPrefix a, h a ha, ?_⟩
        rw [lengthPrefix, List.length_cons]
        omega
  obtain ⟨a, ha, hn⟩ := hlong 256
  have hbound := StakingStore.length_of_mem_operators ha
  omega

/-- The walk with the source's key decoding gets past no validator. -/
theorem operators_eq_nil_of_walk (hk : k.Documented) {s' : StakingStore × Int16}
    (h : stakingWalk keyAddress k c applyAllowedAddrs allowedAddrsMap st = .ok s') :
    st.operators = [] := by
  rw [stakingWalk_eq hk] at h
  apply operators_eq_nil_of_prefixed
  intro a ha
  apply operators_of_walk hk h
  have hvisited : visitedAddrs keyAddress (heightsReset st) =
      (st.operators.map validatorKey).reverse.map keyAddress := by
    rw [visitedAddrs, (heightsReset st).keys_eq]
    rfl
  rw [hvisited, List.mem_map]
  exact ⟨validatorKey a, List.mem_reverse.mpr (List.mem_map_of_mem ha), keyAddress_validatorKey a⟩

/-- The walk with the source's key decoding reaches the validator set update, with every record
rewritten, only from a store without validators. -/
theorem stakingWalk_completes_iff (k : StakingKeeper) (hk : k.Documented) (c : AddressCodec)
    (applyAllowedAddrs : Bool) (allowedAddrsMap : String → Bool) (st : StakingStore) :
    (∃ st' n, stakingWalk keyAddress k c applyAllowedAddrs allowedAddrsMap st = .ok (st', n) ∧
        (visitedAddrs keyAddress st).Perm st.operators ∧
        Walked c applyAllowedAddrs allowedAddrsMap st st') ↔ st.operators = [] := by
  constructor
  · intro h
    rcases h with ⟨st', n, hrun, _⟩
    exact operators_eq_nil_of_walk hk hrun
  · intro hnil
    have hdecode : ∀ a ∈ st.operators, keyAddress (validatorKey a) = a := by
      rw [hnil]
      intro a ha
      cases ha
    obtain ⟨st', n, hrun, hwalked⟩ := stakingWalk_total hk c applyAllowedAddrs
      allowedAddrsMap hdecode
    refine ⟨st', n, hrun, ?_, hwalked⟩
    rw [visitedAddrs_of_decode hdecode]
    exact List.reverse_perm _

theorem stakingWalk_completes_iff_sample :
    ∃ st' n, stakingWalk keyAddress sampleStakingKeeper bech32Codec false (fun _ => false)
      { sampleStore with validators := KeyedStore.empty } = .ok (st', n) := by
  have hiff := stakingWalk_completes_iff sampleStakingKeeper sampleStakingKeeper_documented
    bech32Codec false (fun _ => false) { sampleStore with validators := KeyedStore.empty }
  obtain ⟨st', n, hrun, _⟩ := hiff.mpr (by decide)
  exact ⟨st', n, hrun⟩

/-- A single stored validator makes the walk panic. -/
theorem stakingWalk_panics_on_validator :
    sampleStakingKeeper.Documented ∧
      stakingWalk keyAddress sampleStakingKeeper bech32Codec false (fun _ => false) sampleStore =
        .error (.panic "expected validator, not found") := by
  refine ⟨sampleStakingKeeper_documented, ?_⟩
  rfl

end KeyAddress

end Mandelbot
