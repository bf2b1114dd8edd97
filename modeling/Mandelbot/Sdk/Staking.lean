import Mandelbot.Library.KeyedStore
import Mandelbot.Library.Ledger
import Mandelbot.Sdk.Basic

/-!
# Staking state and keeper

The staking store that the export walks, and the staking keeper it calls. The keeper is not part
of the repository: it is a parameter, and `StakingKeeper.Documented` collects the behaviour of
cosmos-sdk v0.45.5 that the export relies on.
-/

namespace Mandelbot

inductive BondStatus
  | unbonded
  | unbonding
  | bonded
  deriving DecidableEq

structure Validator where
  operatorAddress : OperatorAddress
  consensusPubkey : List UInt8
  jailed : Bool
  status : BondStatus
  tokens : ℕ
  delegatorShares : ℕ
  description : String
  unbondingHeight : Int
  unbondingTime : Int
  commissionRate : ℕ
  minSelfDelegation : ℕ
  deriving DecidableEq

def Validator.getOperator (v : Validator) : ValAddress := v.operatorAddress.bytes

structure Delegation where
  delegatorAddress : AccAddress
  validatorAddress : ValAddress
  shares : ℕ
  deriving DecidableEq

def Delegation.pair (del : Delegation) : AccAddress × ValAddress :=
  (del.delegatorAddress, del.validatorAddress)

structure RedelegationEntry where
  creationHeight : Int
  completionTime : Int
  initialBalance : ℕ
  sharesDst : ℕ

structure Redelegation where
  delegatorAddress : AccAddress
  validatorSrcAddress : ValAddress
  validatorDstAddress : ValAddress
  entries : List RedelegationEntry

structure UnbondingDelegationEntry where
  creationHeight : Int
  completionTime : Int
  initialBalance : ℕ
  balance : ℕ

structure UnbondingDelegation where
  delegatorAddress : AccAddress
  validatorAddress : ValAddress
  entries : List UnbondingDelegationEntry

abbrev StoreKey := List UInt8

/-- `address.LengthPrefix`: one length byte, then the address. -/
def lengthPrefix (a : List UInt8) : List UInt8 := UInt8.ofNat a.length :: a

/-- `GetValidatorKey`. -/
def validatorKey (a : ValAddress) : StoreKey := 0x21 :: lengthPrefix a

/-- `GetUBDKey`. -/
def unbondingDelegationKey (u : UnbondingDelegation) : StoreKey :=
  0x32 :: (lengthPrefix u.delegatorAddress ++ lengthPrefix u.validatorAddress)

/-- `GetREDKey`. -/
def redelegationKey (r : Redelegation) : StoreKey :=
  0x34 :: (lengthPrefix r.delegatorAddress ++ lengthPrefix r.validatorSrcAddress ++
    lengthPrefix r.validatorDstAddress)

def Validator.key (v : Validator) : StoreKey := validatorKey v.getOperator

theorem validatorKey_injective {a b : ValAddress} (h : validatorKey a = validatorKey b) :
    a = b :=
  (List.cons.inj (List.cons.inj h).2).2

/-- The part of the staking store that the export reads or writes. `delegations` lists what
`GetAllDelegations` returns; `powerIndex` lists the operator addresses of the power index in
descending power order. -/
structure StakingStore where
  validators : KeyedStore StoreKey Validator Validator.key
  redelegations : KeyedStore StoreKey Redelegation redelegationKey
  unbondingDelegations : KeyedStore StoreKey UnbondingDelegation unbondingDelegationKey
  delegations : List Delegation
  powerIndex : List ValAddress

namespace StakingStore

def validator (st : StakingStore) (a : ValAddress) : Option Validator :=
  st.validators.get (validatorKey a)

/-- The operator addresses in the order of `IterateValidators`. -/
def operators (st : StakingStore) : List ValAddress :=
  st.validators.values.map Validator.getOperator

theorem keys_eq (st : StakingStore) : st.validators.keys = st.operators.map validatorKey := by
  rw [← st.validators.map_keyOf_values, operators, List.map_map]
  rfl

theorem nodup_operators (st : StakingStore) : st.operators.Nodup := by
  have hkeys := st.validators.nodup_keys
  rw [keys_eq] at hkeys
  exact List.Nodup.of_map validatorKey hkeys

theorem getOperator_of_validator {st : StakingStore} {a : ValAddress} {v : Validator}
    (h : st.validator a = some v) : v.getOperator = a := by
  have hkey : v.key = validatorKey a := st.validators.keyed _ _ h
  exact validatorKey_injective hkey

theorem length_of_mem_operators {st : StakingStore} {a : ValAddress} (h : a ∈ st.operators) :
    a.length ≤ 255 := by
  obtain ⟨v, _, hv⟩ := List.mem_map.mp h
  rw [← hv]
  exact v.operatorAddress.bounded

theorem mem_operators {st : StakingStore} {a : ValAddress} :
    a ∈ st.operators ↔ ∃ v, st.validator a = some v := by
  rw [operators, List.mem_map]
  constructor
  · rintro ⟨v, hv, rfl⟩
    exact ⟨v, KeyedStore.mem_values.mp hv⟩
  · rintro ⟨v, hv⟩
    have ha := getOperator_of_validator hv
    subst ha
    exact ⟨v, KeyedStore.mem_values.mpr hv, rfl⟩

def delegation (st : StakingStore) (d : AccAddress) (v : ValAddress) : Option Delegation :=
  st.delegations.find? fun del => del.delegatorAddress = d ∧ del.validatorAddress = v

theorem exists_delegation {st : StakingStore} {del : Delegation} (h : del ∈ st.delegations) :
    ∃ found, st.delegation del.delegatorAddress del.validatorAddress = some found := by
  rw [← Option.isSome_iff_exists, delegation, List.find?_isSome]
  exact ⟨del, h, by simp⟩

end StakingStore

/-- The delegators of `v` in the order of the delegations. -/
def delegatorsOf (dels : List Delegation) (v : ValAddress) : List AccAddress :=
  (dels.filter fun del => del.validatorAddress = v).map Delegation.delegatorAddress

theorem mem_delegatorsOf {dels : List Delegation} {d : AccAddress} {v : ValAddress} :
    d ∈ delegatorsOf dels v ↔ ∃ del ∈ dels, del.pair = (d, v) := by
  simp only [delegatorsOf, List.mem_map, List.mem_filter, decide_eq_true_eq, Delegation.pair,
    Prod.mk.injEq]
  constructor
  · intro h
    rcases h with ⟨del, hdel, hd⟩
    exact ⟨del, hdel.1, hd, hdel.2⟩
  · intro h
    rcases h with ⟨del, hdel, hd, hv⟩
    exact ⟨del, ⟨hdel, hv⟩, hd⟩

theorem delegatorsOf_concat_self (done : List Delegation) (del : Delegation) :
    delegatorsOf (done ++ [del]) del.validatorAddress =
      delegatorsOf done del.validatorAddress ++ [del.delegatorAddress] := by
  simp [delegatorsOf]

theorem delegatorsOf_concat_of_ne (done : List Delegation) {del : Delegation} {v : ValAddress}
    (hv : v ≠ del.validatorAddress) : delegatorsOf (done ++ [del]) v = delegatorsOf done v := by
  simp [delegatorsOf, Ne.symm hv]

theorem nodup_delegatorsOf {dels : List Delegation} (h : (dels.map Delegation.pair).Nodup)
    (v : ValAddress) : (delegatorsOf dels v).Nodup := by
  apply List.Nodup.map_on
  · intro a ha b hb hab
    have hav : a.validatorAddress = v := by simpa using (List.mem_filter.mp ha).2
    have hbv : b.validatorAddress = v := by simpa using (List.mem_filter.mp hb).2
    have hpair : a.pair = b.pair := by rw [Delegation.pair, Delegation.pair, hab, hav, hbv]
    exact List.inj_on_of_nodup_map h (List.mem_of_mem_filter ha) (List.mem_of_mem_filter hb) hpair
  · exact (List.Nodup.of_map _ h).filter _

/-- Every delegation counts once at its validator. -/
theorem total_delegatorsOf {ops : List ValAddress} (hn : ops.Nodup) (dels : List Delegation)
    (h : ∀ del ∈ dels, del.validatorAddress ∈ ops) :
    (total ops fun v => (delegatorsOf dels v).length) = dels.length := by
  induction dels with
  | nil => exact total_eq_zero fun v _ => rfl
  | cons del dels ih =>
      let counts : ValAddress → ℕ := fun v => (delegatorsOf dels v).length
      have hrest : total ops counts = dels.length :=
        ih fun e he => h e (List.mem_cons_of_mem _ he)
      have hcounts : (fun v => (delegatorsOf (del :: dels) v).length) =
          Function.update counts del.validatorAddress (counts del.validatorAddress + 1) := by
        funext v
        by_cases hv : v = del.validatorAddress
        · subst v
          simp [counts, delegatorsOf]
        · simp [counts, delegatorsOf, Ne.symm hv, Function.update_of_ne hv]
      have hone := total_update_add hn (h del (by simp)) counts (counts del.validatorAddress + 1)
      rw [hcounts, List.length_cons]
      omega

/-- The staking keeper calls of the export. `consensusPower`, `maxValidators` and `unbondingPeriod`
are what the validator set update reads from its parameters. -/
structure StakingKeeper where
  getValidator : StakingStore → ValAddress → Except Abort (Option Validator)
  setValidator : StakingStore → Validator → StakingStore
  setRedelegation : StakingStore → Redelegation → StakingStore
  setUnbondingDelegation : StakingStore → UnbondingDelegation → StakingStore
  applyAndReturnValidatorSetUpdates :
    Context → StakingStore → Except Abort (Option SdkError × StakingStore)
  consensusPower : Validator → ℕ
  maxValidators : ℕ
  unbondingPeriod : Int

/-- The power index entries that the validator set update bonds: the first `n` of non-zero power.
A jailed entry or one without a record aborts. -/
def bondedPrefix (power : Validator → ℕ) (get : ValAddress → Option Validator) :
    ℕ → List ValAddress → Except Abort (List ValAddress)
  | 0, _ => .ok []
  | _ + 1, [] => .ok []
  | n + 1, a :: index =>
      match get a with
      | none => .error (.panic "validator record not found for address")
      | some v =>
          if v.jailed then
            .error (.panic "should never retrieve a jailed validator from the power store")
          else if power v = 0 then .ok []
          else do
            let rest ← bondedPrefix power get n index
            return a :: rest

/-- What the validator set update does to a record: an entry it met is bonded, and a bonded one it
did not meet starts unbonding at the height and time of the context. -/
def updateBond (ctx : Context) (unbondingPeriod : Int) (met : List ValAddress) (v : Validator) :
    Validator :=
  if v.getOperator ∈ met then { v with status := .bonded }
  else if v.status = .bonded then
    { v with
      status := .unbonding
      unbondingHeight := ctx.blockHeight
      unbondingTime := ctx.blockTime + unbondingPeriod }
  else v

/-- The documented behaviour of the staking keeper. -/
structure StakingKeeper.Documented (k : StakingKeeper) : Prop where
  getValidator_eq : ∀ st a, a.length ≤ 255 → k.getValidator st a = .ok (st.validator a)
  getValidator_long : ∀ st a, 255 < a.length →
    k.getValidator st a = .error (.panic "address length should be max 255 bytes")
  setValidator_eq : ∀ st v,
    k.setValidator st v = { st with validators := st.validators.set v }
  setRedelegation_eq : ∀ st r,
    k.setRedelegation st r = { st with redelegations := st.redelegations.set r }
  setUnbondingDelegation_eq : ∀ st u,
    k.setUnbondingDelegation st u =
      { st with unbondingDelegations := st.unbondingDelegations.set u }
  apply_error : ∀ ctx st e,
    bondedPrefix k.consensusPower st.validator k.maxValidators st.powerIndex = .error e →
      k.applyAndReturnValidatorSetUpdates ctx st = .error e
  apply_ok : ∀ ctx st met,
    bondedPrefix k.consensusPower st.validator k.maxValidators st.powerIndex = .ok met →
      ∃ st', k.applyAndReturnValidatorSetUpdates ctx st = .ok (none, st') ∧
        ∀ key, st'.validators.get key =
          (st.validators.get key).map (updateBond ctx k.unbondingPeriod met)

end Mandelbot
