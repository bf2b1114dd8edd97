import Mathlib.Algebra.Order.Group.Nat
import Mathlib.Algebra.Ring.Nat
import Mathlib.Algebra.Group.Pi.Basic
import Mathlib.Order.Basic

/-!
# SDK base types

Addresses, contexts, errors and exact decimals as the export code uses them.
-/

namespace Mandelbot

abbrev ValAddress := List UInt8

abbrev AccAddress := List UInt8

/-- An operator address the staking module can store: its length fits one length byte. -/
structure OperatorAddress where
  bytes : ValAddress
  nonempty : 1 ≤ bytes.length
  bounded : bytes.length ≤ 255
  deriving DecidableEq

def sampleOperator : OperatorAddress := ⟨[1], by decide, by decide⟩

/-- The registered errors that the calls of the export can return. -/
inductive SdkError
  | noValidatorCommission
  | noValidatorDistInfo
  | emptyDelegationDistInfo
  | insufficientFunds
  | invalidAddress (address : String)
  deriving DecidableEq

/-- How the export can end early: a Go panic with a text or an error, or `log.Fatal`. -/
inductive Abort
  | panic (message : String)
  | panicError (err : SdkError)
  | fatal (err : SdkError)
  deriving DecidableEq

structure Context where
  blockHeight : Int
  blockTime : Int

def Context.withBlockHeight (ctx : Context) (height : Int) : Context :=
  { ctx with blockHeight := height }

/-- Coin amounts per denomination. -/
abbrev Coins (Denom : Type) := Denom → ℕ

/-- Decimal coin amounts per denomination, in units of `10⁻¹⁸`. -/
abbrev DecCoins (Denom : Type) := Denom → ℕ

/-- Units of a whole coin in a decimal one. -/
def precision : ℕ := 10 ^ 18

theorem precision_pos : 0 < precision := by decide

section Coins

variable {Denom : Type}

/-- The whole coins of `TruncateDecimal`. -/
def truncate (c : DecCoins Denom) : Coins Denom := fun d => c d / precision

/-- The remainder of `TruncateDecimal`. -/
def remainder (c : DecCoins Denom) : DecCoins Denom := fun d => c d % precision

/-- `NewDecCoinsFromCoins`. -/
def toDec (c : Coins Denom) : DecCoins Denom := fun d => c d * precision

theorem toDec_truncate_add_remainder (c : DecCoins Denom) :
    toDec (truncate c) + remainder c = c := by
  funext d
  exact Nat.div_add_mod' (c d) precision

theorem toDec_truncate_le (c : DecCoins Denom) : toDec (truncate c) ≤ c :=
  fun d => Nat.div_mul_le_self (c d) precision

end Coins

end Mandelbot
