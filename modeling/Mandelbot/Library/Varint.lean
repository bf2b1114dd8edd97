import Mathlib.Algebra.Order.Ring.Nat
import Mathlib.Data.List.Infix
import Mathlib.Tactic.Ring

/-!
# Base-128 varints

Numbers written in seven-bit digits, lowest first, with the high bit of a byte set while more
digits follow. A reader takes ten digits at most and keeps the low 64 bits of their value, so
longer spellings of a number than its own are read too.
-/

namespace Mandelbot.Wire

abbrev Bytes := List UInt8

/-- The value of seven-bit digits, lowest first. -/
def digitsValue : Bytes → ℕ
  | [] => 0
  | b :: bs => b.toNat % 128 + 128 * digitsValue bs

/-- Continued digits and one that ends them. -/
inductive IsDigits : Bytes → Prop
  | last {b : UInt8} : b.toNat < 128 → IsDigits [b]
  | more {b : UInt8} {bs : Bytes} : 128 ≤ b.toNat → IsDigits bs → IsDigits (b :: bs)

/-- A varint of at most ten bytes and the 64 bits it stands for. -/
structure IsVarint (bs : Bytes) (v : BitVec 64) : Prop where
  digits : IsDigits bs
  short : bs.length ≤ 10
  value : v = BitVec.ofNat 64 (digitsValue bs)

/-- Why no digits start here: the bytes end, or too many of them continue. -/
inductive Stop where
  | truncated
  | overlong
  deriving DecidableEq

/-- The digits at the start of the bytes, `n` at most, and what follows them. -/
def readDigits : ℕ → Bytes → Except Stop (Bytes × Bytes)
  | 0, _ => .error .overlong
  | _ + 1, [] => .error .truncated
  | n + 1, b :: bs =>
      if b.toNat < 128 then .ok ([b], bs)
      else (readDigits n bs).map fun (ds, rest) => (b :: ds, rest)

/-- The digits of a number, without leading zeros. -/
def varint (v : ℕ) : Bytes :=
  if v < 128 then [UInt8.ofNat v] else UInt8.ofNat (v % 128 + 128) :: varint (v / 128)

section Digits

variable {bs ds rest p q : Bytes} {n : ℕ}

@[simp] theorem digitsValue_nil : digitsValue [] = 0 := rfl

@[simp] theorem digitsValue_cons (b : UInt8) (bs : Bytes) :
    digitsValue (b :: bs) = b.toNat % 128 + 128 * digitsValue bs := rfl

theorem digitsValue_append (bs ds : Bytes) :
    digitsValue (bs ++ ds) = digitsValue bs + 2 ^ (7 * bs.length) * digitsValue ds := by
  induction bs with
  | nil => simp
  | cons b bs ih =>
      rw [List.cons_append, digitsValue_cons, digitsValue_cons, ih, List.length_cons,
        Nat.mul_succ, Nat.pow_add]
      ring

theorem digitsValue_lt (bs : Bytes) : digitsValue bs < 2 ^ (7 * bs.length) := by
  induction bs with
  | nil => simp
  | cons b bs ih =>
      have hdigit : b.toNat % 128 < 128 := Nat.mod_lt _ (by omega)
      rw [digitsValue_cons, List.length_cons, Nat.mul_succ, Nat.pow_add]
      omega

theorem IsDigits.ne_nil (h : IsDigits bs) : bs ≠ [] := by
  cases h <;> simp

theorem IsDigits.length_pos (h : IsDigits bs) : 0 < bs.length :=
  List.length_pos_iff.mpr h.ne_nil

/-- Reading yields the digits that start the bytes. -/
theorem readDigits_eq_ok :
    readDigits n bs = .ok (ds, rest) ↔ bs = ds ++ rest ∧ IsDigits ds ∧ ds.length ≤ n := by
  induction n generalizing bs ds with
  | zero =>
      constructor
      · intro h
        cases h
      · intro h
        have hpos := h.2.1.length_pos
        omega
  | succ n ih =>
      cases bs with
      | nil =>
          constructor
          · intro h
            cases h
          · intro h
            have hnil : ds = [] := (List.append_eq_nil_iff.mp h.1.symm).1
            exact absurd hnil h.2.1.ne_nil
      | cons b bs =>
          rw [readDigits]
          constructor
          · intro h
            split at h
            case isTrue hb =>
              cases h
              exact ⟨rfl, .last hb, by simp⟩
            case isFalse hb =>
              cases hrest : readDigits n bs with
              | error e =>
                  rw [hrest] at h
                  cases h
              | ok r =>
                  rw [hrest] at h
                  cases h
                  obtain ⟨hbs, hds, hlen⟩ := ih.mp hrest
                  refine ⟨?_, .more (by omega) hds, by simpa using hlen⟩
                  rw [hbs, List.cons_append]
          · intro h
            rcases h with ⟨hbs, hds, hlen⟩
            cases hds with
            | last hb =>
                obtain ⟨rfl, rfl⟩ := List.cons.inj hbs
                rw [if_pos hb]
            | @more _ ds hb hds =>
                obtain ⟨rfl, htail⟩ := List.cons.inj hbs
                have hread : readDigits n bs = .ok (ds, rest) :=
                  ih.mpr ⟨htail, hds, by simpa using hlen⟩
                rw [if_neg (by omega), hread]
                rfl

/-- A cut either leaves the digits whole or leaves the reader wanting bytes. -/
theorem readDigits_cut (h : readDigits n (p ++ q) = .ok (ds, rest)) :
    (ds.length ≤ p.length ∧ ∃ rest', readDigits n p = .ok (ds, rest') ∧ rest = rest' ++ q) ∨
      p.length < ds.length ∧ readDigits n p = .error .truncated := by
  induction n generalizing p ds with
  | zero => cases h
  | succ n ih =>
      cases p with
      | nil =>
          right
          have hpos := (readDigits_eq_ok.mp h).2.1.length_pos
          exact ⟨hpos, rfl⟩
      | cons b p =>
          rw [List.cons_append, readDigits] at h
          rw [readDigits]
          split at h
          case isTrue hb =>
            cases h
            left
            exact ⟨by simp, p, by rw [if_pos hb], rfl⟩
          case isFalse hb =>
            rw [if_neg hb]
            cases hrest : readDigits n (p ++ q) with
            | error e =>
                rw [hrest] at h
                cases h
            | ok r =>
                rw [hrest] at h
                cases h
                obtain ⟨hlen, rest', hp, hr⟩ | ⟨hlen, hp⟩ := ih hrest
                · left
                  refine ⟨by simpa using hlen, rest', ?_, hr⟩
                  rw [hp]
                  rfl
                · right
                  refine ⟨by simpa using hlen, ?_⟩
                  rw [hp]
                  rfl

end Digits

section Varint

theorem varint_of_lt {v : ℕ} (h : v < 128) : varint v = [UInt8.ofNat v] := by
  rw [varint, if_pos h]

theorem varint_of_ge {v : ℕ} (h : 128 ≤ v) :
    varint v = UInt8.ofNat (v % 128 + 128) :: varint (v / 128) := by
  rw [varint, if_neg (by omega)]

theorem digitsValue_varint (v : ℕ) : digitsValue (varint v) = v := by
  induction v using Nat.strongRecOn with
  | ind v ih =>
      by_cases h : v < 128
      · rw [varint_of_lt h, digitsValue_cons, digitsValue_nil, UInt8.toNat_ofNat']
        omega
      · rw [varint_of_ge (by omega), digitsValue_cons, ih (v / 128) (by omega),
          UInt8.toNat_ofNat']
        omega

theorem isDigits_varint (v : ℕ) : IsDigits (varint v) := by
  induction v using Nat.strongRecOn with
  | ind v ih =>
      by_cases h : v < 128
      · rw [varint_of_lt h]
        apply IsDigits.last
        rw [UInt8.toNat_ofNat']
        omega
      · rw [varint_of_ge (by omega)]
        refine .more ?_ (ih (v / 128) (by omega))
        rw [UInt8.toNat_ofNat']
        omega

/-- `k + 1` digits are enough for the numbers of `7 (k + 1)` bits. -/
theorem length_varint_le {v k : ℕ} (h : v < 2 ^ (7 * (k + 1))) : (varint v).length ≤ k + 1 := by
  induction k generalizing v with
  | zero => rw [varint_of_lt (by simpa using h), List.length_singleton]
  | succ k ih =>
      by_cases hv : v < 128
      · rw [varint_of_lt hv, List.length_singleton]
        omega
      · have hrest : v / 128 < 2 ^ (7 * (k + 1)) := by
          apply Nat.div_lt_of_lt_mul
          rwa [Nat.mul_succ, Nat.pow_add, Nat.mul_comm] at h
        have hlen := ih hrest
        rw [varint_of_ge (by omega), List.length_cons]
        omega

theorem length_varint_le_iff {v k : ℕ} : (varint v).length ≤ k + 1 ↔ v < 2 ^ (7 * (k + 1)) := by
  refine ⟨fun h => ?_, length_varint_le⟩
  calc
    v = digitsValue (varint v) := (digitsValue_varint v).symm
    _ < 2 ^ (7 * (varint v).length) := digitsValue_lt _
    _ ≤ 2 ^ (7 * (k + 1)) := Nat.pow_le_pow_right (by omega) (by omega)

/-- Every 64-bit number is read back from its digits. -/
theorem isVarint_varint (v : BitVec 64) : IsVarint (varint v.toNat) v where
  digits := isDigits_varint _
  short := by
    have hv := v.isLt
    exact length_varint_le (k := 9) (by omega)
  value := by rw [digitsValue_varint, BitVec.ofNat_toNat, BitVec.setWidth_eq]

end Varint

end Mandelbot.Wire
