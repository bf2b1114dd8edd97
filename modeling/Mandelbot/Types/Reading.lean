import Mathlib.Data.List.GetD
import Mandelbot.Library.Loop
import Mandelbot.Types.Codec

/-!
# Reading varints

The indexed loops of the generated code read what `Wire.readDigits` reads from the rest of the
bytes: the same digits, and the same reason when there are none.
-/

namespace Mandelbot.Types

open Wire

variable {file : PbFile} {dAtA p q : Bytes} {i j : ℤ} {w : BitVec 64}

/-- A call that ends in its result or in an error of its own. -/
def Orderly {α : Type} (x : Except Failure α) : Prop := ∀ f, x = .error f → ∃ e, f = .err e

theorem orderly_ok {α : Type} (a : α) : Orderly (.ok a : Except Failure α) := by
  intro f h
  cases h

theorem orderly_err {α : Type} (e : ProtoError) : Orderly (.error (.err e) : Except Failure α) := by
  intro f h
  cases h
  exact ⟨e, rfl⟩

theorem Orderly.bind {α β : Type} {x : Except Failure α} {f : α → Except Failure β}
    (hx : Orderly x) (hf : ∀ a, x = .ok a → Orderly (f a)) : Orderly (x >>= f) := by
  cases x with
  | error e =>
      intro e' he'
      cases he'
      exact hx e rfl
  | ok a => exact hf a rfl

/-- The byte at an index is the head of the bytes from there on. -/
theorem byteAt_of_drop {b : UInt8} {tail : Bytes} (hi : 0 ≤ i)
    (h : dAtA.drop i.toNat = b :: tail) :
    i < dAtA.length ∧ byteAt dAtA i = .ok b ∧ dAtA.drop (i + 1).toNat = tail := by
  have hlt : i.toNat < dAtA.length := by
    by_contra hge
    rw [List.drop_eq_nil_of_le (by omega)] at h
    cases h
  have hin : i < dAtA.length := by omega
  rw [List.drop_eq_getElem_cons hlt] at h
  obtain ⟨hb, htail⟩ := List.cons.inj h
  have hnext : (i + 1).toNat = i.toNat + 1 := by omega
  refine ⟨hin, ?_, by rw [hnext, htail]⟩
  rw [byteAt, if_pos ⟨hi, hin⟩, List.getD_eq_getElem _ _ hlt, hb]

/-- The digit lands above the bits that are there; what passes the 64th is lost. -/
private theorem orDigit_ofNat {n shift : ℕ} (b : UInt8) (hn : n < 2 ^ shift) (hs : shift < 64) :
    orDigit (BitVec.ofNat 64 n) b shift =
      BitVec.ofNat 64 (n + 2 ^ shift * (b.toNat % 128)) := by
  apply BitVec.eq_of_toNat_eq
  have hpow : 2 ^ 64 = 2 ^ shift * 2 ^ (64 - shift) := by
    rw [← Nat.pow_add]
    congr 1
    omega
  have hle : 2 ^ shift ≤ 2 ^ 64 := Nat.pow_le_pow_right (by omega) hs.le
  have hdigit : (b.toBitVec &&& 0x7f#8).toNat = b.toNat % 128 := by
    rw [BitVec.toNat_and]
    exact Nat.and_two_pow_sub_one_eq_mod b.toNat 7
  have hwide : b.toNat % 128 % 2 ^ 64 = b.toNat % 128 := Nat.mod_eq_of_lt (by omega)
  have hmod : (n + 2 ^ shift * (b.toNat % 128)) % 2 ^ 64 =
      n + 2 ^ shift * (b.toNat % 128 % 2 ^ (64 - shift)) := by
    rw [hpow, Nat.mod_mul, Nat.add_mul_mod_self_left, Nat.mod_eq_of_lt hn,
      Nat.add_mul_div_left _ _ (Nat.two_pow_pos shift), Nat.div_eq_of_lt hn, Nat.zero_add]
  rw [orDigit, BitVec.toNat_or, BitVec.toNat_ofNat, BitVec.toNat_shiftLeft, BitVec.toNat_setWidth,
    hdigit, hwide, BitVec.toNat_ofNat, hmod, Nat.mod_eq_of_lt (by omega), Nat.shiftLeft_eq,
    Nat.mul_comm, hpow, Nat.mul_mod_mul_left, Nat.or_comm, ← Nat.two_pow_add_eq_or_of_lt hn,
    Nat.add_comm]

/-- A stop of the reader as the error of the generated code. -/
def stopError (file : PbFile) : Stop → ProtoError
  | .truncated => .unexpectedEOF
  | .overlong => .intOverflow file

/-- The outcome of a reading loop that has read `done` already. -/
def varintOutcome (file : PbFile) (i : ℤ) (done : Bytes) :
    Except Stop (Bytes × Bytes) → Except Failure (BitVec 64 × ℤ)
  | .error e => .error (.err (stopError file e))
  | .ok (ds, _) => .ok (BitVec.ofNat 64 (digitsValue (done ++ ds)), i + ds.length)

private theorem falling_varint (file : PbFile) (dAtA : Bytes) :
    Falling (varintRound file dAtA) (fun _ => True) fun s => 70 - s.shift where
  keeps _ _ := trivial
  falls {s s'} _ h := by
    rw [varintRound] at h
    split at h
    · cases h
    split at h
    · cases h
    split at h
    · cases h
    split at h
    · cases h
    cases h
    change 70 - (s.shift + 7) < 70 - s.shift
    omega

/-- Every round reads one more of the digits; the sum of those read is below the next shift. -/
private theorem readVarint_from (n : ℕ) (done : Bytes) (hdone : done.length + n = 10) (hi : 0 ≤ i) :
    loop (varintRound file dAtA) (.error .unfinished) (fun s => 70 - s.shift)
        ⟨7 * done.length, i, BitVec.ofNat 64 (digitsValue done)⟩ =
      varintOutcome file i done (readDigits n (dAtA.drop i.toNat)) := by
  induction n generalizing done i with
  | zero =>
      rw [readDigits]
      apply loop_leave
      rw [varintRound, if_pos (by change 64 ≤ 7 * done.length; omega)]
      rfl
  | succ n ih =>
      have hshift : ¬ 64 ≤ 7 * done.length := by omega
      cases hrest : dAtA.drop i.toNat with
      | nil =>
          have hend : (dAtA.length : ℤ) ≤ i := by
            have hlen := List.drop_eq_nil_iff.mp hrest
            omega
          rw [readDigits]
          apply loop_leave
          rw [varintRound, if_neg hshift, if_pos hend]
          rfl
      | cons b tail =>
          obtain ⟨hin, hbyte, htail⟩ := byteAt_of_drop hi hrest
          have hdigit := orDigit_ofNat b (digitsValue_lt done) (by omega)
          have hnext : digitsValue (done ++ [b]) =
              digitsValue done + 2 ^ (7 * done.length) * (b.toNat % 128) := by
            rw [digitsValue_append, digitsValue_cons, digitsValue_nil, Nat.mul_zero, Nat.add_zero]
          rw [readDigits]
          split
          case isTrue hb =>
            apply loop_leave
            rw [varintRound, if_neg hshift, if_neg (not_le.mpr hin), hbyte]
            change (if b.toNat < 0x80 then _ else _) = _
            rw [if_pos hb, hdigit, varintOutcome, hnext]
            rfl
          case isFalse hb =>
            have hround : varintRound file dAtA
                ⟨7 * done.length, i, BitVec.ofNat 64 (digitsValue done)⟩ =
                .next ⟨7 * (done ++ [b]).length, i + 1,
                  BitVec.ofNat 64 (digitsValue (done ++ [b]))⟩ := by
              rw [varintRound, if_neg hshift, if_neg (not_le.mpr hin), hbyte]
              change (if b.toNat < 0x80 then _ else _) = _
              rw [if_neg hb, hdigit, hnext, List.length_append, List.length_singleton, Nat.mul_add]
            rw [loop_next (falling_varint file dAtA) trivial hround,
              ih (done ++ [b]) (by rw [List.length_append, List.length_singleton]; omega)
                (by omega), htail]
            cases readDigits n tail with
            | error e => rfl
            | ok r =>
                simp only [varintOutcome, Except.map, List.append_assoc, List.singleton_append,
                  List.length_cons, Nat.cast_add, Nat.cast_one]
                rw [Int.add_assoc, Int.add_comm 1]

theorem readVarint_eq (hi : 0 ≤ i) : readVarint file dAtA i =
    varintOutcome file i [] (readDigits 10 (dAtA.drop i.toNat)) :=
  readVarint_from 10 [] rfl hi

/-- A varint is read where one stands. -/
theorem readVarint_eq_ok (hi : 0 ≤ i) : readVarint file dAtA i = .ok (w, j) ↔
    ∃ ds rest, dAtA.drop i.toNat = ds ++ rest ∧ IsVarint ds w ∧ j = i + ds.length := by
  rw [readVarint_eq hi]
  constructor
  · intro h
    cases hread : readDigits 10 (dAtA.drop i.toNat) with
    | error e =>
        rw [hread] at h
        cases h
    | ok r =>
        rw [hread] at h
        cases h
        obtain ⟨hbytes, hds, hlen⟩ := readDigits_eq_ok.mp hread
        exact ⟨r.1, r.2, hbytes, ⟨hds, hlen, rfl⟩, rfl⟩
  · intro h
    rcases h with ⟨ds, rest, hbytes, hds, hj⟩
    rw [readDigits_eq_ok.mpr ⟨hbytes, hds.digits, hds.short⟩, varintOutcome, List.nil_append,
      ← hds.value, hj]

/-- A loop over unknown digits ends where the one that reads them ends. -/
theorem passVarint_eq : passVarint file dAtA i = (readVarint file dAtA i).map Prod.snd := by
  refine loop_map (fun s : VarintState => (s.shift, s.iNdEx)) (Except.map Prod.snd) ?_
    (fun _ => rfl) (.error Failure.unfinished) ⟨0, i, 0⟩
  intro s
  rw [passRound, varintRound]
  split
  · rfl
  split
  · rfl
  cases byteAt dAtA s.iNdEx with
  | error e => rfl
  | ok b =>
      change (if b.toNat < 0x80 then _ else _) = Round.map _ _ (if b.toNat < 0x80 then _ else _)
      split <;> rfl

theorem passVarint_eq_ok (hi : 0 ≤ i) : passVarint file dAtA i = .ok j ↔
    ∃ ds rest, dAtA.drop i.toNat = ds ++ rest ∧ IsDigits ds ∧ ds.length ≤ 10 ∧
      j = i + ds.length := by
  rw [passVarint_eq]
  constructor
  · intro h
    cases hread : readVarint file dAtA i with
    | error e =>
        rw [hread] at h
        cases h
    | ok r =>
        rw [hread] at h
        cases h
        obtain ⟨ds, rest, hbytes, hds, hj⟩ := (readVarint_eq_ok hi).mp hread
        exact ⟨ds, rest, hbytes, hds.digits, hds.short, hj⟩
  · intro h
    rcases h with ⟨ds, rest, hbytes, hds, hlen, hj⟩
    rw [(readVarint_eq_ok hi).mpr ⟨ds, rest, hbytes, ⟨hds, hlen, rfl⟩, hj⟩]
    rfl

theorem orderly_readVarint (hi : 0 ≤ i) : Orderly (readVarint file dAtA i) := by
  rw [readVarint_eq hi]
  cases readDigits 10 (dAtA.drop i.toNat) with
  | error e => exact orderly_err _
  | ok r => exact orderly_ok _

theorem orderly_passVarint (hi : 0 ≤ i) : Orderly (passVarint file dAtA i) := by
  rw [passVarint_eq]
  have hread : Orderly (readVarint file dAtA i) := orderly_readVarint hi
  cases hres : readVarint file dAtA i with
  | error e =>
      intro f hf
      cases hf
      exact hread e hres
  | ok r => exact orderly_ok _

/-- Cutting the bytes leaves a varint before the cut as it is, and one across it unread. -/
theorem readVarint_cut (hi : 0 ≤ i) (hip : i ≤ p.length)
    (h : readVarint file (p ++ q) i = .ok (w, j)) :
    (j ≤ p.length ∧ readVarint file p i = .ok (w, j)) ∨
      (p.length < j ∧ readVarint file p i = .error (.err .unexpectedEOF)) := by
  obtain ⟨ds, rest, hbytes, hds, hj⟩ := (readVarint_eq_ok hi).mp h
  have hread : readDigits 10 (p.drop i.toNat ++ q) = .ok (ds, rest) := by
    rw [← List.drop_append_of_le_length (by omega)]
    exact readDigits_eq_ok.mpr ⟨hbytes, hds.digits, hds.short⟩
  have hlen : (p.drop i.toNat).length = p.length - i.toNat := List.length_drop
  rw [readVarint_eq hi]
  obtain ⟨hle, rest', hcut, _⟩ | ⟨hgt, hcut⟩ := readDigits_cut hread
  · left
    rw [hcut, varintOutcome, List.nil_append, ← hds.value, hj]
    exact ⟨by omega, rfl⟩
  · right
    rw [hcut]
    exact ⟨by omega, rfl⟩

theorem passVarint_cut (hi : 0 ≤ i) (hip : i ≤ p.length) (h : passVarint file (p ++ q) i = .ok j) :
    passVarint file p i = .ok j ∨ passVarint file p i = .error (.err .unexpectedEOF) := by
  obtain ⟨ds, rest, hbytes, hds, hlen, hj⟩ := (passVarint_eq_ok hi).mp h
  have hread : readVarint file (p ++ q) i = .ok (_, j) :=
    (readVarint_eq_ok hi).mpr ⟨ds, rest, hbytes, ⟨hds, hlen, rfl⟩, hj⟩
  rw [passVarint_eq]
  obtain ⟨_, hcut⟩ | ⟨_, hcut⟩ := readVarint_cut hi hip hread
  · exact .inl (by rw [hcut]; rfl)
  · exact .inr (by rw [hcut]; rfl)

end Mandelbot.Types
