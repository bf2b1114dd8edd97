import Mandelbot.Library.Bech32
import Mandelbot.Sdk.Basic

/-!
# Operator address texts

The bech32 codec of operator addresses is a parameter; `AddressCodec.Documented` is what the SDK
promises about it. `bech32Codec` is the codec of the chain's own prefix.
-/

namespace Mandelbot

def lowerCase (s : String) : String := String.ofList (Bech32.lowerCase s.toList)

def upperCase (s : String) : String := String.ofList (Bech32.upperCase s.toList)

structure AddressCodec where
  string : ValAddress → String
  valAddressFromBech32 : String → Except SdkError ValAddress

namespace AddressCodec

/-- The decoder accepts one letter case, the same bytes in either; the encoder spells an accepted
address in lower case. -/
structure Documented (c : AddressCodec) : Prop where
  decode_string : ∀ a : OperatorAddress, c.valAddressFromBech32 (c.string a.bytes) = .ok a.bytes
  length : ∀ s a, c.valAddressFromBech32 s = .ok a → 1 ≤ a.length ∧ a.length ≤ 255
  oneCase : ∀ s a, c.valAddressFromBech32 s = .ok a → s = lowerCase s ∨ s = upperCase s
  decode_upperCase : ∀ s a, c.valAddressFromBech32 s = .ok a →
    c.valAddressFromBech32 (upperCase s) = .ok a
  string_of_decode : ∀ s a, c.valAddressFromBech32 s = .ok a → c.string a = lowerCase s

variable {c : AddressCodec} {s : String} {a : ValAddress}

theorem Documented.lowerCase_string (hc : c.Documented) (a : OperatorAddress) :
    lowerCase (c.string a.bytes) = c.string a.bytes :=
  (hc.string_of_decode _ _ (hc.decode_string a)).symm

/-- Different addresses are spelled differently. -/
theorem Documented.string_injective (hc : c.Documented) {a b : OperatorAddress}
    (h : c.string a.bytes = c.string b.bytes) : a.bytes = b.bytes := by
  have ha := hc.decode_string a
  rw [h, hc.decode_string b] at ha
  exact (Except.ok.inj ha).symm

end AddressCodec

section Bech32Codec

def validatorHrp : List Char := "mandelbotvaloper".toList

/-- The codec of operator addresses under the chain's prefix. -/
def bech32Codec : AddressCodec where
  string a :=
    if a = [] then "" else String.ofList (Bech32.encode validatorHrp (a.map UInt8.toBitVec))
  valAddressFromBech32 s :=
    match Bech32.decode s.toList with
    | none => .error (.invalidAddress s)
    | some (hrp, bytes) =>
        if hrp = validatorHrp ∧ 1 ≤ bytes.length ∧ bytes.length ≤ 255 then
          .ok (bytes.map UInt8.ofBitVec)
        else .error (.invalidAddress s)

private theorem toBitVec_ofBitVec (bytes : List (BitVec 8)) :
    (bytes.map UInt8.ofBitVec).map UInt8.toBitVec = bytes := by
  rw [List.map_map]
  exact (List.map_congr_left fun _ _ => rfl).trans (List.map_id bytes)

private theorem ofBitVec_toBitVec (a : ValAddress) :
    (a.map UInt8.toBitVec).map UInt8.ofBitVec = a := by
  rw [List.map_map]
  exact (List.map_congr_left fun _ _ => rfl).trans (List.map_id a)

private theorem eq_lowerCase_iff {s : String} :
    s = lowerCase s ↔ s.toList = Bech32.lowerCase s.toList := by
  rw [← String.toList_inj, lowerCase, String.toList_ofList]

private theorem eq_upperCase_iff {s : String} :
    s = upperCase s ↔ s.toList = Bech32.upperCase s.toList := by
  rw [← String.toList_inj, upperCase, String.toList_ofList]

private theorem bech32Codec_string {a : ValAddress} (ha : 1 ≤ a.length) :
    bech32Codec.string a =
      String.ofList (Bech32.encode validatorHrp (a.map UInt8.toBitVec)) := by
  have hne : a ≠ [] := List.length_pos_iff.mp ha
  simp [bech32Codec, hne]

/-- An accepted text has one letter case, and its lower-case form is the spelling of the result. -/
theorem bech32Codec_decode {s : String} {a : ValAddress} :
    bech32Codec.valAddressFromBech32 s = .ok a ↔
      (s = lowerCase s ∨ s = upperCase s) ∧ 1 ≤ a.length ∧ a.length ≤ 255 ∧
        lowerCase s = bech32Codec.string a := by
  rw [eq_lowerCase_iff, eq_upperCase_iff]
  constructor
  · intro h
    simp only [bech32Codec] at h
    split at h
    case h_1 => cases h
    rename_i hrp bytes hdecode
    split at h
    case isFalse => cases h
    rename_i hvalid
    rcases hvalid with ⟨hhrp, hmin, hmax⟩
    cases h
    obtain ⟨hcase, _, hspelling⟩ := Bech32.decode_eq_some.mp hdecode
    have hlen : 1 ≤ (bytes.map UInt8.ofBitVec).length := by rwa [List.length_map]
    refine ⟨hcase, hlen, by rwa [List.length_map], ?_⟩
    rw [bech32Codec_string hlen, toBitVec_ofBitVec, lowerCase, hspelling, hhrp]
  · intro h
    rcases h with ⟨hcase, hmin, hmax, hspelling⟩
    rw [bech32Codec_string hmin, lowerCase, String.ofList_inj] at hspelling
    have hdecode : Bech32.decode s.toList = some (validatorHrp, a.map UInt8.toBitVec) :=
      Bech32.decode_eq_some.mpr ⟨hcase, by decide, hspelling⟩
    simp only [bech32Codec, hdecode, List.length_map, hmin, hmax, and_self, if_true,
      ofBitVec_toBitVec]

theorem bech32Codec_documented : bech32Codec.Documented where
  decode_string a := by
    have hlower : lowerCase (bech32Codec.string a.bytes) = bech32Codec.string a.bytes := by
      rw [bech32Codec_string a.nonempty, lowerCase, String.toList_ofList,
        Bech32.lowerCase_encode (by decide)]
    exact bech32Codec_decode.mpr ⟨.inl hlower.symm, a.nonempty, a.bounded, hlower⟩
  length s a h := by
    obtain ⟨_, hmin, hmax, _⟩ := bech32Codec_decode.mp h
    exact ⟨hmin, hmax⟩
  oneCase s a h := (bech32Codec_decode.mp h).1
  decode_upperCase s a h := by
    obtain ⟨_, hmin, hmax, hspelling⟩ := bech32Codec_decode.mp h
    have hupper : upperCase s = upperCase (upperCase s) := by
      simp [upperCase, Bech32.upperCase_idem]
    have hlower : lowerCase (upperCase s) = lowerCase s := by
      simp [lowerCase, upperCase, Bech32.lowerCase_upperCase]
    exact bech32Codec_decode.mpr ⟨.inr hupper, hmin, hmax, hlower.trans hspelling⟩
  string_of_decode s a h := (bech32Codec_decode.mp h).2.2.2.symm

example : bech32Codec.valAddressFromBech32 "MANDELBOTVALOPER1QYTVQ5FM" = .ok [1] := by
  decide +kernel

end Bech32Codec

end Mandelbot
