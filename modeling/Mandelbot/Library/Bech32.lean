import Mathlib
import Mandelbot.Library.Numeral

/-!
# Bech32

The checksummed base-32 text encoding of byte strings under a human-readable prefix. The checksum
code is linear, so the six groups that complete a word to remainder one are unique; together with
the rejected non-zero padding this makes the lower-case spelling of accepted data unique.
-/

namespace Mandelbot.Bech32

/-- Five bits of data. -/
abbrev Group := BitVec 5

def charset : List Char := "qpzry9x8gf2tvdw0s3jn54khce6mua7l".toList

def groups : List Group := (List.range 32).map (BitVec.ofNat 5)

def groupChar (g : Group) : Char := charset.getD g.toNat 'q'

def charGroup (c : Char) : Option Group := groups.find? fun g => groupChar g = c

theorem charGroup_groupChar (g : Group) : charGroup (groupChar g) = some g := by
  revert g
  decide

theorem groupChar_ne_separator (g : Group) : groupChar g ≠ '1' := by
  revert g
  decide

theorem groupChar_lower (g : Group) : (groupChar g).toLower = groupChar g := by
  revert g
  decide

theorem charGroup_eq_some {c : Char} {g : Group} : charGroup c = some g ↔ c = groupChar g := by
  constructor
  · intro h
    have hg := List.find?_some (p := fun g => decide (groupChar g = c)) h
    exact (of_decide_eq_true hg).symm
  · intro h
    rw [h, charGroup_groupChar]

theorem mapM_charGroup {cs : List Char} {word : List Group} :
    cs.mapM charGroup = some word ↔ cs = word.map groupChar := by
  induction cs generalizing word with
  | nil => cases word <;> simp
  | cons c cs ih =>
      cases word with
      | nil => simp [List.mapM_cons, Option.bind_eq_some_iff]
      | cons g word => simp [List.mapM_cons, Option.bind_eq_some_iff, charGroup_eq_some, ih]

section Checksum

/-- One generator of the checksum code, taken when the bit is set. -/
def generator (bit : Bool) (g : BitVec 30) : BitVec 30 := if bit then g else 0

def feedback (top : Group) : BitVec 30 :=
  generator (top.getLsbD 0) 0x3b6a57b2 ^^^ generator (top.getLsbD 1) 0x26508e6d ^^^
    generator (top.getLsbD 2) 0x1ea119fa ^^^ generator (top.getLsbD 3) 0x3d4233dd ^^^
    generator (top.getLsbD 4) 0x2a1462b3

def polymodStep (chk : BitVec 30) (v : Group) : BitVec 30 :=
  (chk.extractLsb' 0 25 ++ v : BitVec 30) ^^^ feedback (chk.extractLsb' 25 5)

def polymod (chk : BitVec 30) (vs : List Group) : BitVec 30 := vs.foldl polymodStep chk

private theorem generator_xor (a b : Bool) (g : BitVec 30) :
    generator (a ^^ b) g = generator a g ^^^ generator b g := by
  cases a <;> cases b <;> simp [generator]

private theorem feedback_xor (a b : Group) : feedback (a ^^^ b) = feedback a ^^^ feedback b := by
  simp only [feedback, BitVec.getLsbD_xor, generator_xor]
  ac_rfl

private theorem polymodStep_xor (x y : BitVec 30) (v u : Group) :
    polymodStep (x ^^^ y) (v ^^^ u) = polymodStep x v ^^^ polymodStep y u := by
  simp only [polymodStep, BitVec.extractLsb'_xor, feedback_xor, ← BitVec.xor_append]
  ac_rfl

/-- The remainder of a word is the remainder of zeros in its place plus the word's own. -/
theorem polymod_eq_xor (chk : BitVec 30) (vs : List Group) :
    polymod chk vs = polymod chk (List.replicate vs.length 0) ^^^ polymod 0 vs := by
  induction vs using List.reverseRecOn with
  | nil => simp [polymod]
  | append_singleton vs v ih =>
      have hzeros : List.replicate (vs ++ [v]).length (0 : Group) =
          List.replicate vs.length 0 ++ [0] := by
        rw [List.length_append, List.length_singleton, List.replicate_succ']
      simp only [polymod] at ih
      rw [hzeros]
      simp only [polymod, List.foldl_append, List.foldl_cons, List.foldl_nil]
      rw [ih, ← polymodStep_xor]
      simp

/-- Six groups shifted into an empty remainder are the remainder. -/
theorem toNat_polymod_zero {vs : List Group} (h : vs.length ≤ 6) :
    (polymod 0 vs).toNat = number vs := by
  induction vs using List.reverseRecOn with
  | nil => rfl
  | append_singleton vs v ih =>
      rw [List.length_append, List.length_singleton] at h
      have hrest := ih (by omega)
      have hlt : number vs < 2 ^ 25 := by
        have hnumber := number_lt vs
        have hle : 2 ^ (5 * vs.length) ≤ 2 ^ 25 := Nat.pow_le_pow_right (by omega) (by omega)
        omega
      have hv := v.isLt
      let x := polymod 0 vs
      have hx : x.toNat < 2 ^ 25 := hrest ▸ hlt
      have htop : x.extractLsb' 25 5 = 0 := by
        apply BitVec.eq_of_toNat_eq
        rw [BitVec.extractLsb'_toNat, Nat.shiftRight_eq_div_pow, Nat.div_eq_of_lt hx]
        rfl
      have hlow : (x.extractLsb' 0 25).toNat = x.toNat := by
        rw [BitVec.extractLsb'_toNat, Nat.shiftRight_zero, Nat.mod_eq_of_lt hx]
      have hstep : polymodStep x v = (x.extractLsb' 0 25 ++ v : BitVec 30) := by
        rw [polymodStep, htop]
        simp [feedback, generator]
      have hrun : polymod 0 (vs ++ [v]) = polymodStep x v := by simp [polymod, x]
      rw [hrun, hstep, BitVec.toNat_append, hlow, number_concat, ← hrest,
        ← Nat.shiftLeft_add_eq_or_of_lt hv, Nat.shiftLeft_eq]

/-- The six groups of a remainder. -/
def remainderGroups (chk : BitVec 30) : List Group := numeral 5 6 chk.toNat

theorem polymod_zero_eq_iff {vs : List Group} (h : vs.length = 6) (chk : BitVec 30) :
    polymod 0 vs = chk ↔ vs = remainderGroups chk := by
  constructor
  · intro hrun
    rw [remainderGroups, ← hrun, toNat_polymod_zero (by omega), ← h, numeral_number]
  · intro hvs
    apply BitVec.eq_of_toNat_eq
    rw [toNat_polymod_zero (by omega), hvs, remainderGroups, number_numeral chk.isLt]

def hrpExpand (hrp : List Char) : List Group :=
  hrp.map (fun c => BitVec.ofNat 5 (c.toNat / 32)) ++ 0 ::
    hrp.map fun c => BitVec.ofNat 5 (c.toNat % 32)

def checksum (hrp : List Char) (data : List Group) : List Group :=
  remainderGroups (polymod 1 (hrpExpand hrp ++ data ++ List.replicate 6 0) ^^^ 1)

def verifyChecksum (hrp : List Char) (word : List Group) : Bool :=
  polymod 1 (hrpExpand hrp ++ word) = 1

/-- Exactly one checksum completes the data. -/
theorem verifyChecksum_iff {hrp : List Char} {data chk : List Group} (h : chk.length = 6) :
    verifyChecksum hrp (data ++ chk) = true ↔ chk = checksum hrp data := by
  have hsplit : polymod 1 (hrpExpand hrp ++ (data ++ chk)) =
      polymod 1 (hrpExpand hrp ++ data ++ List.replicate 6 0) ^^^ polymod 0 chk := by
    have hrun : ∀ vs, polymod 1 (hrpExpand hrp ++ data ++ vs) =
        polymod (polymod 1 (hrpExpand hrp ++ data)) vs := by
      intro vs
      simp [polymod, List.foldl_append]
    rw [← List.append_assoc, hrun, polymod_eq_xor, h, ← hrun]
  have hcomplete : ∀ p q : BitVec 30, p ^^^ q = 1 ↔ q = p ^^^ 1 := by
    intro p q
    constructor
    · intro hone
      rw [← hone, ← BitVec.xor_assoc, BitVec.xor_self, BitVec.zero_xor]
    · intro hq
      rw [hq, ← BitVec.xor_assoc, BitVec.xor_self, BitVec.zero_xor]
  rw [verifyChecksum, decide_eq_true_eq, hsplit, checksum, ← polymod_zero_eq_iff h]
  exact hcomplete _ _

@[simp] theorem length_checksum (hrp : List Char) (data : List Group) :
    (checksum hrp data).length = 6 := by
  simp [checksum, remainderGroups]

end Checksum

section Regroup

/-- Bytes as groups of five bits, padded with zero bits. -/
def toGroups (bytes : List (BitVec 8)) : List Group :=
  let m := (8 * bytes.length + 4) / 5
  numeral 5 m (number bytes * 2 ^ (5 * m - 8 * bytes.length))

/-- Groups as bytes; an incomplete byte must be shorter than a group and zero. -/
def ofGroups (gs : List Group) : Option (List (BitVec 8)) :=
  let k := 5 * gs.length / 8
  let pad := 5 * gs.length - 8 * k
  if pad < 5 ∧ number gs % 2 ^ pad = 0 then some (numeral 8 k (number gs / 2 ^ pad)) else none

theorem ofGroups_toGroups (bytes : List (BitVec 8)) : ofGroups (toGroups bytes) = some bytes := by
  let n := bytes.length
  let m := (8 * n + 4) / 5
  let pad := 5 * m - 8 * n
  have hpad : pad < 5 := by omega
  have hbits : 5 * m = 8 * n + pad := by omega
  have hk : 5 * m / 8 = n := by omega
  have hlt : number bytes * 2 ^ pad < 2 ^ (5 * m) := by
    rw [hbits, Nat.pow_add]
    exact Nat.mul_lt_mul_of_pos_right (number_lt bytes) (Nat.two_pow_pos pad)
  have hlen : (toGroups bytes).length = m := length_numeral _ _
  have hnumber : number (toGroups bytes) = number bytes * 2 ^ pad := number_numeral hlt
  simp only [ofGroups]
  rw [hlen, hk, hnumber, if_pos ⟨hpad, Nat.mul_mod_left _ _⟩,
    Nat.mul_div_cancel _ (Nat.two_pow_pos pad), numeral_number]

theorem toGroups_of_ofGroups {gs : List Group} {bytes : List (BitVec 8)}
    (h : ofGroups gs = some bytes) : toGroups bytes = gs := by
  let m := gs.length
  let k := 5 * m / 8
  let pad := 5 * m - 8 * k
  have hbits : 5 * m = 8 * k + pad := by omega
  rw [ofGroups] at h
  split at h
  case isFalse => cases h
  rename_i hpad
  rcases hpad with ⟨hsmall, hzero⟩
  cases h
  have hm : (8 * k + 4) / 5 = m := by
    change pad < 5 at hsmall
    omega
  have hlt : number gs / 2 ^ pad < 2 ^ (8 * k) := by
    apply Nat.div_lt_of_lt_mul
    have hnumber := number_lt gs
    change number gs < 2 ^ (5 * m) at hnumber
    rwa [hbits, Nat.add_comm, Nat.pow_add] at hnumber
  have hwhole : number gs / 2 ^ pad * 2 ^ pad = number gs :=
    Nat.div_mul_cancel (Nat.dvd_of_mod_eq_zero hzero)
  simp only [toGroups, length_numeral]
  change numeral 5 ((8 * k + 4) / 5) (number (numeral 8 k (number gs / 2 ^ pad)) *
    2 ^ (5 * ((8 * k + 4) / 5) - 8 * k)) = gs
  rw [hm, number_numeral hlt]
  change numeral 5 m (number gs / 2 ^ pad * 2 ^ pad) = gs
  rw [hwhole, numeral_number]

end Regroup

section Text

/-- The text before the last separator and after it. -/
def splitSeparator (s : List Char) : Option (List Char × List Char) :=
  match s.reverse.dropWhile (· ≠ '1') with
  | [] => none
  | _ :: front => some (front.reverse, (s.reverse.takeWhile (· ≠ '1')).reverse)

theorem splitSeparator_eq_some {s hrp tail : List Char} :
    splitSeparator s = some (hrp, tail) ↔ s = hrp ++ '1' :: tail ∧ '1' ∉ tail := by
  have hjoin := List.takeWhile_append_dropWhile (p := (· ≠ '1')) (l := s.reverse)
  constructor
  · intro h
    rw [splitSeparator] at h
    split at h
    case h_1 => cases h
    rename_i c front hdrop
    cases h
    have hsome : s.reverse.dropWhile (· ≠ '1') ≠ [] := by
      rw [hdrop]
      exact List.cons_ne_nil c front
    have hc : c = '1' := by
      have hhead := List.head_dropWhile_not (· ≠ '1') hsome
      simpa only [hdrop, List.head_cons, decide_eq_false_iff_not, not_not] using hhead
    rw [hdrop, hc] at hjoin
    have hs := congrArg List.reverse hjoin
    refine ⟨?_, ?_⟩
    · simpa using hs.symm
    · intro hmem
      have htaken := List.mem_takeWhile_imp (List.mem_reverse.mp hmem)
      simp at htaken
  · intro h
    rcases h with ⟨hs, htail⟩
    have hkeep : ∀ c ∈ tail.reverse, (decide (c ≠ '1')) = true := by
      intro c hc
      have hne : c ≠ '1' := fun he => htail (he ▸ List.mem_reverse.mp hc)
      simpa using hne
    have hreverse : s.reverse = tail.reverse ++ '1' :: hrp.reverse := by simp [hs]
    rw [splitSeparator, hreverse, List.dropWhile_append_of_pos hkeep,
      List.takeWhile_append_of_pos hkeep]
    simp

def encode (hrp : List Char) (bytes : List (BitVec 8)) : List Char :=
  hrp ++ '1' :: (toGroups bytes ++ checksum hrp (toGroups bytes)).map groupChar

def decodeLower (s : List Char) : Option (List Char × List (BitVec 8)) := do
  let (hrp, tail) ← splitSeparator s
  let word ← tail.mapM charGroup
  if hrp = [] ∨ word.length < 6 ∨ verifyChecksum hrp word = false then none
  let bytes ← ofGroups (word.take (word.length - 6))
  return (hrp, bytes)

def lowerCase (s : List Char) : List Char := s.map Char.toLower

def upperCase (s : List Char) : List Char := s.map Char.toUpper

/-- A text in one letter case. -/
def decode (s : List Char) : Option (List Char × List (BitVec 8)) :=
  if s ≠ lowerCase s ∧ s ≠ upperCase s then none else decodeLower (lowerCase s)

/-- The accepted lower-case texts are exactly the encodings. -/
theorem decodeLower_eq_some {s hrp : List Char} {bytes : List (BitVec 8)} :
    decodeLower s = some (hrp, bytes) ↔ hrp ≠ [] ∧ s = encode hrp bytes := by
  constructor
  · intro h
    simp only [decodeLower, Option.bind_eq_bind, Option.bind_eq_some_iff, Prod.exists,
      mapM_charGroup, splitSeparator_eq_some] at h
    rcases h with ⟨front, tail, ⟨hs, _⟩, word, htail, h⟩
    split at h
    case isTrue => simp at h
    rename_i hvalid
    simp only [not_or, Bool.not_eq_false] at hvalid
    rcases hvalid with ⟨hne, hlen, hverify⟩
    simp only [Option.pure_def, Option.bind_eq_some_iff, Option.some.injEq, Prod.mk.injEq] at h
    rcases h with ⟨data, hdata, hfront, hbytes⟩
    subst front
    subst data
    have hjoin := List.take_append_drop (word.length - 6) word
    have hchk : (word.drop (word.length - 6)).length = 6 := by
      rw [List.length_drop]
      omega
    rw [← hjoin, verifyChecksum_iff hchk] at hverify
    refine ⟨hne, ?_⟩
    rw [hs, htail, encode, toGroups_of_ofGroups hdata, ← hverify, hjoin]
  · intro h
    rcases h with ⟨hne, hs⟩
    let data := toGroups bytes
    let word := data ++ checksum hrp data
    have hsplit : splitSeparator s = some (hrp, word.map groupChar) := by
      refine splitSeparator_eq_some.mpr ⟨hs, ?_⟩
      intro hmem
      obtain ⟨g, _, hg⟩ := List.mem_map.mp hmem
      exact groupChar_ne_separator g hg
    have hword : (word.map groupChar).mapM charGroup = some word := mapM_charGroup.mpr rfl
    have hlen : word.length = data.length + 6 := by
      rw [List.length_append, length_checksum]
    have hverify : verifyChecksum hrp word = true :=
      (verifyChecksum_iff (length_checksum hrp data)).mpr rfl
    have hdata : word.take (word.length - 6) = data := by
      rw [hlen, Nat.add_sub_cancel]
      exact List.take_left
    rw [decodeLower, hsplit]
    have hvalid : ¬ (hrp = [] ∨ word.length < 6 ∨ verifyChecksum hrp word = false) := by
      rw [hverify]
      simp only [hne, Bool.true_eq_false, or_false, false_or]
      omega
    simp only [Option.bind_eq_bind, Option.bind_some, hword, hdata, data, ofGroups_toGroups]
    rw [if_neg hvalid]
    rfl

theorem lowerCase_upperCase (s : List Char) : lowerCase (upperCase s) = lowerCase s := by
  simp [lowerCase, upperCase]

theorem upperCase_idem (s : List Char) : upperCase (upperCase s) = upperCase s := by
  simp [upperCase]

/-- The groups are written in lower case. -/
theorem lowerCase_encode {hrp : List Char} (h : lowerCase hrp = hrp) (bytes : List (BitVec 8)) :
    lowerCase (encode hrp bytes) = encode hrp bytes := by
  have hgroups : ∀ word : List Group, lowerCase (word.map groupChar) = word.map groupChar := by
    intro word
    rw [lowerCase, List.map_map]
    exact List.map_congr_left fun g _ => groupChar_lower g
  have hseparator : ('1' : Char).toLower = '1' := by decide
  have hparts := hgroups (toGroups bytes ++ checksum hrp (toGroups bytes))
  rw [lowerCase] at h hparts
  rw [encode, lowerCase, List.map_append, List.map_cons, h, hseparator, hparts]

/-- An accepted text has one letter case and spells the encoding. -/
theorem decode_eq_some {s hrp : List Char} {bytes : List (BitVec 8)} :
    decode s = some (hrp, bytes) ↔ (s = lowerCase s ∨ s = upperCase s) ∧ hrp ≠ [] ∧
      lowerCase s = encode hrp bytes := by
  rw [decode]
  split
  · rename_i hmixed
    simp [hmixed.1, hmixed.2]
  · rename_i hcase
    rw [decodeLower_eq_some]
    have hone : s = lowerCase s ∨ s = upperCase s := by
      by_contra hmixed
      exact hcase (not_or.mp hmixed)
    simp [hone]

example : decode "A12UEL5L".toList = some (['a'], []) := by decide

end Text

end Mandelbot.Bech32
