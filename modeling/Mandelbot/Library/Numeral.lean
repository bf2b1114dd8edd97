import Mathlib.Algebra.Order.Ring.Nat
import Mathlib.Data.List.Induction

/-!
# Fixed-length numerals

Words of `w` bits as the digits of a number, most significant first. Numbers below `2 ^ (w * k)`
and words of `k` digits are in bijection.
-/

namespace Mandelbot

variable {w : ℕ}

def number (ds : List (BitVec w)) : ℕ := ds.foldl (fun n d => n * 2 ^ w + d.toNat) 0

/-- The last `k` digits of `n`. -/
def numeral (w : ℕ) : ℕ → ℕ → List (BitVec w)
  | 0, _ => []
  | k + 1, n => numeral w k (n / 2 ^ w) ++ [BitVec.ofNat w n]

@[simp] theorem number_nil : number ([] : List (BitVec w)) = 0 := rfl

@[simp] theorem number_concat (ds : List (BitVec w)) (d : BitVec w) :
    number (ds ++ [d]) = number ds * 2 ^ w + d.toNat := by
  simp [number]

@[simp] theorem length_numeral (k n : ℕ) : (numeral w k n).length = k := by
  induction k generalizing n with
  | zero => rfl
  | succ k ih => simp [numeral, ih]

theorem number_lt (ds : List (BitVec w)) : number ds < 2 ^ (w * ds.length) := by
  induction ds using List.reverseRecOn with
  | nil => simp
  | append_singleton ds d ih =>
      have hd := d.isLt
      rw [number_concat, List.length_append, List.length_singleton, Nat.mul_add, Nat.mul_one,
        Nat.pow_add]
      calc
        number ds * 2 ^ w + d.toNat < (number ds + 1) * 2 ^ w := by
          rw [Nat.add_mul]
          omega
        _ ≤ 2 ^ (w * ds.length) * 2 ^ w := Nat.mul_le_mul_right _ ih

theorem number_numeral {k n : ℕ} (h : n < 2 ^ (w * k)) : number (numeral w k n) = n := by
  induction k generalizing n with
  | zero =>
      have hzero : n = 0 := by simpa using h
      subst n
      rfl
  | succ k ih =>
      have hrest : n / 2 ^ w < 2 ^ (w * k) := by
        apply Nat.div_lt_of_lt_mul
        rwa [← Nat.pow_add, Nat.add_comm, ← Nat.mul_succ]
      rw [numeral, number_concat, ih hrest, BitVec.toNat_ofNat]
      exact Nat.div_add_mod' n (2 ^ w)

theorem numeral_number (ds : List (BitVec w)) : numeral w ds.length (number ds) = ds := by
  induction ds using List.reverseRecOn with
  | nil => rfl
  | append_singleton ds d ih =>
      have hpos : 0 < 2 ^ w := Nat.two_pow_pos w
      have hrest : (number ds * 2 ^ w + d.toNat) / 2 ^ w = number ds := by
        rw [Nat.mul_comm, Nat.mul_add_div hpos, Nat.div_eq_of_lt d.isLt, Nat.add_zero]
      have hlast : BitVec.ofNat w (number ds * 2 ^ w + d.toNat) = d := by
        apply BitVec.eq_of_toNat_eq
        rw [BitVec.toNat_ofNat, Nat.mul_comm, Nat.mul_add_mod, Nat.mod_eq_of_lt d.isLt]
      rw [List.length_append, List.length_singleton, numeral, number_concat, hrest, hlast, ih]

section Hexadecimal

def hexDigit (c : Char) : Option ℕ :=
  if c.isDigit then some (c.toNat - '0'.toNat)
  else if 'a' ≤ c ∧ c ≤ 'f' then some (c.toNat - 'a'.toNat + 10)
  else if 'A' ≤ c ∧ c ≤ 'F' then some (c.toNat - 'A'.toNat + 10)
  else none

theorem hexDigit_digitChar : ∀ n < 16, hexDigit (Nat.digitChar n) = some n := by decide

theorem hexDigit_upper : ∀ n < 16, hexDigit (Nat.digitChar n).toUpper = some n := by decide

end Hexadecimal

end Mandelbot
