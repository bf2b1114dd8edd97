import Mandelbot.Types.Skip

/-!
# Decoding messages

The generated `Unmarshal` accepts exactly the sequences of records with a legal tag, where an
embedded message carries a length and is accepted by its own `Unmarshal`. Concatenation merges
messages, and a message cut off inside a record is reported as such.
-/

namespace Mandelbot.Types

open Wire

section Messages

structure Params where
  deriving DecidableEq

structure GenesisState where
  params : Params
  deriving DecidableEq

structure QueryParamsRequest where
  deriving DecidableEq

structure QueryParamsResponse where
  params : Params
  deriving DecidableEq

def paramsMessage : Message Params where
  file := .params
  name := "Params"
  field _ := none

def Params.unmarshal : Params → Bytes → Except Failure Params := Types.unmarshal paramsMessage

/-- `m.Params.Unmarshal(dAtA)`. -/
def mergeParams {σ : Type} (params : σ → Params) (withParams : σ → Params → σ) (m : σ)
    (dAtA : Bytes) : Except Failure σ := do
  let p ← (params m).unmarshal dAtA
  return withParams m p

/-- The switch of a message whose one field, number 1, holds parameters. -/
def paramsField {σ : Type} (params : σ → Params) (withParams : σ → Params → σ) (fieldNum : ℤ) :
    Option (String × (σ → Bytes → Except Failure σ)) :=
  if fieldNum = 1 then some ("Params", mergeParams params withParams) else none

def genesisStateMessage : Message GenesisState where
  file := .genesis
  name := "GenesisState"
  field := paramsField GenesisState.params fun m params => { m with params }

def GenesisState.unmarshal : GenesisState → Bytes → Except Failure GenesisState :=
  Types.unmarshal genesisStateMessage

def queryParamsRequestMessage : Message QueryParamsRequest where
  file := .query
  name := "QueryParamsRequest"
  field _ := none

def QueryParamsRequest.unmarshal :
    QueryParamsRequest → Bytes → Except Failure QueryParamsRequest :=
  Types.unmarshal queryParamsRequestMessage

def queryParamsResponseMessage : Message QueryParamsResponse where
  file := .query
  name := "QueryParamsResponse"
  field := paramsField QueryParamsResponse.params fun m params => { m with params }

def QueryParamsResponse.unmarshal :
    QueryParamsResponse → Bytes → Except Failure QueryParamsResponse :=
  Types.unmarshal queryParamsResponseMessage

end Messages

variable {σ : Type} {msg : Message σ} {m m' m₁ m₂ : σ} {dAtA a b p q : Bytes} {i j : ℤ}

/-- One record as the message takes it in. -/
inductive ReadsField (msg : Message σ) (m : σ) : Bytes → σ → Prop
  | embedded {tag ds body : Bytes} {w len : BitVec 64} {name : String}
      {merge : σ → Bytes → Except Failure σ} {m' : σ} :
      IsVarint tag w → wireType w = 2 → 0 < fieldNumber w →
        msg.field (fieldNumber w) = some (name, merge) → IsVarint ds len →
        (body.length : ℤ) = len.toInt → merge m body = .ok m' →
        ReadsField msg m (tag ++ (ds ++ body)) m'
  | unknown {r : Bytes} {w : BitVec 64} :
      IsRecord w r → 0 < fieldNumber w → msg.field (fieldNumber w) = none → ReadsField msg m r m

/-- The records of the bytes, taken in one after the other. -/
inductive Reads (msg : Message σ) : σ → Bytes → σ → Prop
  | nil {m : σ} : Reads msg m [] m
  | cons {m m₁ m₂ : σ} {r rest : Bytes} :
      ReadsField msg m r m₁ → Reads msg m₁ rest m₂ → Reads msg m (r ++ rest) m₂

theorem ReadsField.length_pos {r : Bytes} (h : ReadsField msg m r m') : 0 < r.length := by
  cases h with
  | embedded htag _ _ _ _ _ _ =>
      have hpos := htag.length_pos
      rw [List.length_append]
      omega
  | unknown hr _ _ =>
      obtain ⟨tag, rest, hr, htag⟩ := hr.tag
      have hpos := htag.length_pos
      rw [hr, List.length_append]
      omega

section Field

theorem slice_eq_ok (hi : 0 ≤ i) (hij : i ≤ j) (hj : j ≤ dAtA.length) :
    slice dAtA i j = .ok ((dAtA.take j.toNat).drop i.toNat) :=
  if_pos ⟨hi, hij, hj⟩

private theorem slice_rest (hi : 0 ≤ i) (hil : i ≤ dAtA.length) :
    slice dAtA i dAtA.length = .ok (dAtA.drop i.toNat) := by
  rw [slice_eq_ok hi hil le_rfl, Int.toNat_natCast, List.take_length]

/-- The bytes between two indices. -/
private theorem slice_part {t rest : Bytes} (hi : 0 ≤ i) (hil : i ≤ dAtA.length)
    (h : dAtA.drop i.toNat = t ++ rest) : slice dAtA i (i + t.length) = .ok t := by
  have hall := length_of_drop hi hil h
  rw [slice_eq_ok hi (by omega) (by omega), take_past hi h]
  congr 1
  exact List.drop_left' (by rw [List.length_take]; omega)

private theorem fits_drop (hfit : Fits dAtA) (n : ℕ) : Fits (dAtA.drop n) := by
  rw [Fits] at hfit ⊢
  rw [List.length_drop]
  omega

/-- The bytes that the length announces are handed to the embedded message. -/
theorem unmarshalEmbedded_eq {file : PbFile} {merge : σ → Bytes → Except Failure σ}
    {ds body rest : Bytes} {len : BitVec 64} (hfit : Fits dAtA) (hi : 0 ≤ i)
    (hil : i ≤ dAtA.length) (hbytes : dAtA.drop i.toNat = ds ++ (body ++ rest))
    (hds : IsVarint ds len) (hlen : (body.length : ℤ) = len.toInt) :
    unmarshalEmbedded file merge dAtA m i = (do
      let m ← merge m body
      return (m, i + ds.length + body.length)) := by
  have hall := length_of_drop hi hil hbytes
  have hbody := drop_past hi hbytes
  rw [List.length_append] at hall
  rw [Fits] at hfit
  have hend : wrapInt (i + ds.length + len.toInt) = i + ds.length + body.length := by
    rw [← hlen]
    exact wrapInt_of_lt (by omega) (by omega)
  rw [unmarshalEmbedded, (readVarint_eq_ok hi).mpr ⟨ds, _, hbytes, hds, rfl⟩]
  change (if len.toInt < 0 then _ else _) = _
  rw [if_neg (by omega), hend, if_neg (by omega), if_neg (by omega),
    slice_part (by omega) (by omega) hbody]
  rfl

theorem unmarshalEmbedded_eq_ok_iff {file : PbFile} {merge : σ → Bytes → Except Failure σ}
    (hfit : Fits dAtA) (hi : 0 ≤ i) (hil : i ≤ dAtA.length) :
    unmarshalEmbedded file merge dAtA m i = .ok (m', j) ↔
      ∃ ds body rest len, dAtA.drop i.toNat = ds ++ (body ++ rest) ∧ IsVarint ds len ∧
        (body.length : ℤ) = len.toInt ∧ merge m body = .ok m' ∧
        j = i + ds.length + body.length := by
  constructor
  · intro h
    rw [Fits] at hfit
    obtain ⟨⟨len, k⟩, hread, hcase⟩ := bind_eq_ok.mp h
    obtain ⟨ds, tail, hbytes, hds, rfl⟩ := (readVarint_eq_ok hi).mp hread
    change (if len.toInt < 0 then _ else _) = _ at hcase
    split at hcase
    · cases hcase
    split at hcase
    · cases hcase
    split at hcase
    · cases hcase
    have hlt : len.toInt < 2 ^ 63 := by simpa using BitVec.toInt_lt (x := len)
    have hall := length_of_drop hi hil hbytes
    obtain hsum | hneg := wrapInt_add (x := i + ds.length) (y := len.toInt) (by omega) (by omega)
      (by omega) hlt
    · rw [hsum] at hcase
      obtain ⟨k, hk⟩ := Int.eq_ofNat_of_zero_le (a := len.toInt) (by omega)
      have hend : i + ds.length + k ≤ dAtA.length := by omega
      obtain ⟨body, rest, hbody, hlen⟩ := exists_take (by omega) hend
      have hpart := slice_part (by omega) (by omega) hbody
      rw [hlen, ← hk] at hpart
      rw [hpart] at hcase
      change (merge m body >>= _) = _ at hcase
      obtain ⟨m₁, hmerge, hm⟩ := bind_eq_ok.mp hcase
      cases hm
      rw [drop_past hi hbytes] at hbody
      exact ⟨ds, body, rest, len, by rw [hbytes, hbody], hds, by omega, hmerge, by omega⟩
    · omega
  · intro h
    rcases h with ⟨ds, body, rest, len, hbytes, hds, hlen, hmerge, hj⟩
    rw [unmarshalEmbedded_eq hfit hi hil hbytes hds hlen, hmerge, hj]
    rfl

theorem unmarshalUnknown_eq_ok_iff {file : PbFile} (hfit : Fits dAtA) (hi : 0 ≤ i)
    (hil : i ≤ dAtA.length) :
    unmarshalUnknown file dAtA m i = .ok (m', j) ↔
      ∃ w r rest, dAtA.drop i.toNat = r ++ rest ∧ IsRecord w r ∧ m' = m ∧ j = i + r.length := by
  have hfit' := fits_drop hfit i.toNat
  have hlen : ((dAtA.drop i.toNat).length : ℤ) = dAtA.length - i := by
    rw [List.length_drop]
    omega
  rw [unmarshalUnknown, slice_rest hi hil]
  change (skip file (dAtA.drop i.toNat) >>= _) = _ ↔ _
  rw [Fits] at hfit
  constructor
  · intro h
    obtain ⟨n, hskip, hcase⟩ := bind_eq_ok.mp h
    split at hcase
    · cases hcase
    rename_i hneg
    split at hcase
    · cases hcase
    rename_i hend
    cases hcase
    rw [not_or, not_lt, not_lt] at hneg
    have hn : n ≤ (dAtA.drop i.toNat).length := by
      by_contra hgt
      have hlt := skip_lt hfit' hskip
      obtain hsum | hwrapped := wrapInt_add hi (by omega) hneg.1 hlt
      · omega
      · omega
    obtain ⟨w, r, rest, hbytes, hr, hnr⟩ := (skip_eq_ok_iff hfit').mp ⟨hskip, hn⟩
    refine ⟨w, r, rest, hbytes, hr, rfl, ?_⟩
    rw [hnr]
    exact wrapInt_of_lt (by omega) (by omega)
  · intro h
    rcases h with ⟨w, r, rest, hbytes, hr, hm, hj⟩
    have hall := length_of_drop hi hil hbytes
    have hend : wrapInt (i + r.length) = i + r.length := wrapInt_of_lt (by omega) (by omega)
    rw [((skip_eq_ok_iff hfit').mpr ⟨w, r, rest, hbytes, hr, rfl⟩).1]
    change (if (r.length : ℤ) < 0 ∨ wrapInt (i + r.length) < 0 then _ else _) = _
    rw [hend, if_neg (by omega), if_neg (by omega), hm, hj]
    rfl

theorem unmarshalField_eq_ok_iff (hfit : Fits dAtA) (hi : 0 ≤ i) (hil : i ≤ dAtA.length) :
    unmarshalField msg dAtA m i = .ok (m', j) ↔
      ∃ r rest, dAtA.drop i.toNat = r ++ rest ∧ ReadsField msg m r m' ∧ j = i + r.length := by
  constructor
  · intro h
    obtain ⟨⟨w, k⟩, hread, hcase⟩ := bind_eq_ok.mp h
    obtain ⟨tag, tail, hbytes, htag, rfl⟩ := (readVarint_eq_ok hi).mp hread
    have hall := length_of_drop hi hil hbytes
    change unmarshalCase msg dAtA m i w (i + tag.length) = _ at hcase
    rw [unmarshalCase] at hcase
    split at hcase
    · cases hcase
    split at hcase
    · cases hcase
    rename_i hnum
    split at hcase
    · rename_i name merge hfield
      split at hcase
      · cases hcase
      rename_i hw
      obtain ⟨ds, body, rest, len, htail, hds, hlen, hmerge, hj⟩ :=
        (unmarshalEmbedded_eq_ok_iff hfit (by omega) (by omega)).mp hcase
      rw [drop_past hi hbytes] at htail
      refine ⟨tag ++ (ds ++ body), rest, ?_, .embedded htag (not_not.mp hw) (not_le.mp hnum)
        hfield hds hlen hmerge, ?_⟩
      · rw [hbytes, htail, List.append_assoc, List.append_assoc]
      · rw [List.length_append, List.length_append]
        omega
    · rename_i hfield
      obtain ⟨w', r, rest, hrest, hr, rfl, hj⟩ :=
        (unmarshalUnknown_eq_ok_iff hfit hi hil).mp hcase
      -- The record is read from its tag on again.
      obtain ⟨tag', more, hrtag, htag'⟩ := hr.tag
      have hagain : readVarint msg.file dAtA i = .ok (w', i + tag'.length) :=
        (readVarint_eq_ok hi).mpr
          ⟨tag', more ++ rest, by rw [hrest, hrtag, List.append_assoc], htag', rfl⟩
      obtain ⟨rfl, _⟩ := Prod.mk.inj (Except.ok.inj (hread.symm.trans hagain))
      exact ⟨r, rest, hrest, .unknown hr (not_le.mp hnum) hfield, hj⟩
  · intro h
    rcases h with ⟨r, rest, hbytes, hr, hj⟩
    cases hr with
    | @embedded tag ds body w len name merge m' htag hw hnum hfield hds hlen hmerge =>
        have hstart : dAtA.drop i.toNat = tag ++ (ds ++ (body ++ rest)) := by
          simpa only [List.append_assoc] using hbytes
        have hall := length_of_drop hi hil hstart
        have hcase : unmarshalEmbedded msg.file merge dAtA m (i + tag.length) = .ok (m', j) := by
          refine (unmarshalEmbedded_eq_ok_iff hfit (by omega) (by omega)).mpr
            ⟨ds, body, rest, len, drop_past hi hstart, hds, hlen, hmerge, ?_⟩
          rw [hj, List.length_append, List.length_append]
          omega
        rw [unmarshalField, (readVarint_eq_ok hi).mpr ⟨tag, _, hstart, htag, rfl⟩]
        change unmarshalCase msg dAtA m i w (i + tag.length) = _
        rw [unmarshalCase, if_neg (by omega), if_neg (by omega), hfield]
        change (if wireType w ≠ 2 then _ else _) = _
        rw [if_neg (not_not.mpr hw), hcase]
    | @unknown _ w hr hnum hfield =>
        obtain ⟨tag, more, hrtag, htag⟩ := hr.tag
        have hstart : dAtA.drop i.toNat = tag ++ (more ++ rest) := by
          rw [hbytes, hrtag, List.append_assoc]
        have hcase : unmarshalUnknown msg.file dAtA m i = .ok (m, j) :=
          (unmarshalUnknown_eq_ok_iff hfit hi hil).mpr ⟨w, r, rest, hbytes, hr, rfl, hj⟩
        rw [unmarshalField, (readVarint_eq_ok hi).mpr ⟨tag, _, hstart, htag, rfl⟩]
        change unmarshalCase msg dAtA m i w (i + tag.length) = _
        rw [unmarshalCase, if_neg hr.wireType_ne_four, if_neg (by omega), hfield]
        exact hcase

end Field

section Records

private abbrev unmarshalFrom (msg : Message σ) (dAtA : Bytes) : σ × ℤ → Except Failure σ :=
  loop (unmarshalRound msg dAtA) (.error .unfinished) fun s => (dAtA.length - s.2).toNat

private theorem unmarshalRound_next {s s' : σ × ℤ} (h : unmarshalRound msg dAtA s = .next s') :
    s.2 < dAtA.length ∧ unmarshalField msg dAtA s.1 s.2 = .ok s' := by
  rw [unmarshalRound] at h
  split at h
  · cases h
  rename_i hin
  split at h
  · cases h
  rename_i hfield
  cases h
  exact ⟨not_le.mp hin, hfield⟩

theorem falling_unmarshal (msg : Message σ) (hfit : Fits dAtA) :
    Falling (unmarshalRound msg dAtA) (fun s => 0 ≤ s.2 ∧ s.2 ≤ dAtA.length)
      fun s => (dAtA.length - s.2).toNat where
  keeps {s s'} hs h := by
    obtain ⟨hin, hfield⟩ := unmarshalRound_next h
    obtain ⟨r, rest, hbytes, _, hj⟩ := (unmarshalField_eq_ok_iff hfit hs.1 hs.2).mp hfield
    have hall := length_of_drop hs.1 hs.2 hbytes
    omega
  falls {s s'} hs h := by
    obtain ⟨hin, hfield⟩ := unmarshalRound_next h
    obtain ⟨r, rest, _, hr, hj⟩ := (unmarshalField_eq_ok_iff hfit hs.1 hs.2).mp hfield
    have hpos := hr.length_pos
    omega

private theorem unmarshalFrom_eq_ok_iff (hfit : Fits dAtA) (hi : 0 ≤ i)
    (hil : i ≤ dAtA.length) :
    unmarshalFrom msg dAtA (m, i) = .ok m' ↔ Reads msg m (dAtA.drop i.toNat) m' := by
  constructor
  · intro h
    refine (falling_unmarshal msg hfit).induction
      (P := fun s => unmarshalFrom msg dAtA s = .ok m' → Reads msg s.1 (dAtA.drop s.2.toNat) m')
      ?_ (s := (m, i)) ⟨hi, hil⟩ h
    intro s hs ih hrun
    cases hround : unmarshalRound msg dAtA s with
    | leave r =>
        have hr : r = .ok m' := (loop_leave hround).symm.trans hrun
        subst hr
        rw [unmarshalRound] at hround
        split at hround
        · rename_i hend
          split at hround
          · cases hround
          cases hround
          rw [List.drop_eq_nil_of_le (by omega)]
          exact .nil
        split at hround
        · cases hround
        · cases hround
    | next s' =>
        obtain ⟨hin, hfield⟩ := unmarshalRound_next hround
        obtain ⟨r, rest, hbytes, hr, hj⟩ := (unmarshalField_eq_ok_iff hfit hs.1 hs.2).mp hfield
        have hrest := ih s' hround
          ((loop_next (falling_unmarshal msg hfit) hs hround).symm.trans hrun)
        rw [hj, drop_past hs.1 hbytes] at hrest
        rw [hbytes]
        exact .cons hr hrest
  · intro h
    generalize hbytes : dAtA.drop i.toNat = bytes at h
    induction h generalizing i with
    | @nil m =>
        have hend := List.drop_eq_nil_iff.mp hbytes
        apply loop_leave
        rw [unmarshalRound, if_pos (by change (dAtA.length : ℤ) ≤ i; omega),
          if_neg (by change ¬ (dAtA.length : ℤ) < i; omega)]
    | @cons m m₁ m₂ r rest hr _ ih =>
        have hpos := hr.length_pos
        have hall := length_of_drop hi hil hbytes
        have hfield : unmarshalField msg dAtA m i = .ok (m₁, i + r.length) :=
          (unmarshalField_eq_ok_iff hfit hi hil).mpr ⟨r, rest, hbytes, hr, rfl⟩
        have hround : unmarshalRound msg dAtA (m, i) = .next (m₁, i + r.length) := by
          rw [unmarshalRound, if_neg (by change ¬ (dAtA.length : ℤ) ≤ i; omega), hfield]
        rw [unmarshalFrom, loop_next (falling_unmarshal msg hfit) ⟨hi, hil⟩ hround]
        exact ih (by omega) (by omega) (drop_past hi hbytes)

/-- The accepted bytes are the sequences of records that the message takes in. -/
theorem unmarshal_eq_ok_iff (hfit : Fits dAtA) :
    unmarshal msg m dAtA = .ok m' ↔ Reads msg m dAtA m' :=
  unmarshalFrom_eq_ok_iff (i := 0) hfit le_rfl (by omega)

/-- Messages merge by concatenation: what follows an accepted part is read into its result. -/
theorem unmarshal_append (hfit : Fits (a ++ b)) (ha : unmarshal msg m a = .ok m₁) :
    unmarshal msg m (a ++ b) = .ok m₂ ↔ unmarshal msg m₁ b = .ok m₂ := by
  have hlen : (a ++ b).length = a.length + b.length := List.length_append
  have hfita : Fits a := by
    rw [Fits] at hfit ⊢
    omega
  have hfitb : Fits b := by
    rw [Fits] at hfit ⊢
    omega
  rw [unmarshal_eq_ok_iff hfita] at ha
  rw [unmarshal_eq_ok_iff hfit, unmarshal_eq_ok_iff hfitb]
  clear hlen hfita hfitb
  induction ha with
  | nil => rfl
  | @cons m m₁ m₃ r rest hr _ ih =>
      rw [List.append_assoc] at hfit ⊢
      have hfit' : Fits (rest ++ b) := by
        have hlen : (r ++ (rest ++ b)).length = r.length + (rest ++ b).length :=
          List.length_append
        rw [Fits] at hfit ⊢
        omega
      have hzero : (0 : ℤ) ≤ (r ++ (rest ++ b)).length := by omega
      refine Iff.trans ?_ (ih hfit')
      constructor
      · intro h
        -- Both readings start with the same record, since a round reads one record only.
        generalize hbytes : r ++ (rest ++ b) = bytes at h hfit hzero
        cases h with
        | nil =>
            have hpos := hr.length_pos
            rw [(List.append_eq_nil_iff.mp hbytes).1] at hpos
            cases hpos
        | @cons _ m' _ r' rest' hr' hrest' =>
            have h₁ : unmarshalField msg (r' ++ rest') m 0 = .ok (m₁, 0 + r.length) :=
              (unmarshalField_eq_ok_iff hfit le_rfl hzero).mpr
                ⟨r, rest ++ b, hbytes.symm, hr, rfl⟩
            have h₂ : unmarshalField msg (r' ++ rest') m 0 = .ok (m', 0 + r'.length) :=
              (unmarshalField_eq_ok_iff hfit le_rfl hzero).mpr ⟨r', rest', rfl, hr', rfl⟩
            obtain ⟨rfl, hsame⟩ := Prod.mk.inj (Except.ok.inj (h₁.symm.trans h₂))
            obtain ⟨_, hrest⟩ := List.append_inj hbytes (by omega)
            exact hrest ▸ hrest'
      · intro h
        exact .cons hr h

end Records

section Cut

private theorem unmarshalField_cut (hfit : Fits (p ++ q)) (hi : 0 ≤ i) (hip : i ≤ p.length)
    (h : unmarshalField msg (p ++ q) m i = .ok (m', j)) (hj : p.length < j) :
    unmarshalField msg p m i = .error (.err .unexpectedEOF) := by
  obtain ⟨⟨w, k⟩, hread, hcase⟩ := bind_eq_ok.mp h
  rw [unmarshalField]
  obtain ⟨hk, hcut⟩ | ⟨_, hcut⟩ := readVarint_cut hi hip hread
  case inr =>
    rw [hcut]
    rfl
  have hkpos : 0 ≤ k := by
    obtain ⟨ds, rest, _, _, hj⟩ := (readVarint_eq_ok hi).mp hread
    omega
  rw [hcut]
  change unmarshalCase msg p m i w k = _
  change unmarshalCase msg (p ++ q) m i w k = _ at hcase
  rw [unmarshalCase] at hcase
  split at hcase
  · cases hcase
  rename_i hw
  split at hcase
  · cases hcase
  rename_i hnum
  rw [unmarshalCase, if_neg hw, if_neg hnum]
  split at hcase
  · split at hcase
    · cases hcase
    rename_i hw
    obtain ⟨⟨len, k₂⟩, hread₂, hcase⟩ := bind_eq_ok.mp hcase
    change (if len.toInt < 0 then _ else _) = _ at hcase
    split at hcase
    · cases hcase
    rename_i hlen
    split at hcase
    · cases hcase
    rename_i hend
    split at hcase
    · cases hcase
    obtain ⟨bytes, _, hmerge⟩ := bind_eq_ok.mp hcase
    obtain ⟨m₁, _, hres⟩ := bind_eq_ok.mp hmerge
    cases hres
    rw [if_neg hw, unmarshalEmbedded]
    obtain ⟨_, hcut₂⟩ | ⟨_, hcut₂⟩ := readVarint_cut hkpos hk hread₂
    · rw [hcut₂]
      change (if len.toInt < 0 then _ else _) = _
      rw [if_neg hlen, if_neg hend, if_pos hj]
    · rw [hcut₂]
      rfl
  · have hlen : (p ++ q).length = p.length + q.length := List.length_append
    obtain ⟨w', r, rest, hbytes, hr, _, hjr⟩ :=
      (unmarshalUnknown_eq_ok_iff hfit hi (by omega)).mp hcase
    have hall := length_of_drop hi (by omega) hbytes
    have hdrop : (p ++ q).drop i.toNat = p.drop i.toNat ++ q :=
      List.drop_append_of_le_length (by omega)
    have hplen : (p.drop i.toNat).length = p.length - i.toNat := List.length_drop
    have hfit' : Fits (p.drop i.toNat ++ q) := by
      rw [← hdrop]
      exact fits_drop hfit i.toNat
    obtain ⟨hskip, hle⟩ : skip msg.file (p.drop i.toNat ++ q) = .ok r.length ∧ _ :=
      (skip_eq_ok_iff hfit').mpr ⟨w', r, rest, by rw [← hdrop, hbytes], hr, rfl⟩
    rw [unmarshalUnknown, slice_rest hi hip]
    change (skip msg.file (p.drop i.toNat) >>= _) = _
    obtain ⟨hbefore, _⟩ | ⟨_, hp | hp⟩ := skip_cut hfit' hskip hle
    · omega
    · rw [Fits] at hfit
      have hend : wrapInt (i + r.length) = i + r.length := wrapInt_of_lt (by omega) (by omega)
      rw [hp]
      change (if (r.length : ℤ) < 0 ∨ wrapInt (i + r.length) < 0 then _ else _) = _
      rw [hend, if_neg (by omega), if_pos (by omega)]
    · rw [hp]
      rfl

/-- An accepted message cut in two: either the cut stands between two records and both parts are
accepted one after the other, or the first part is reported as ending unexpectedly. -/
theorem unmarshal_cut (hfit : Fits (p ++ q)) (h : unmarshal msg m (p ++ q) = .ok m') :
    (∃ m₁, unmarshal msg m p = .ok m₁ ∧ unmarshal msg m₁ q = .ok m') ∨
      unmarshal msg m p = .error (.err .unexpectedEOF) := by
  have hlen : (p ++ q).length = p.length + q.length := List.length_append
  have hfitp : Fits p := by
    rw [Fits] at hfit ⊢
    omega
  have hends : (∃ m₁, unmarshal msg m p = .ok m₁) ∨
      unmarshal msg m p = .error (.err .unexpectedEOF) := by
    refine (falling_unmarshal msg hfitp).induction
      (P := fun s => unmarshalFrom msg (p ++ q) s = .ok m' →
        (∃ m₁, unmarshalFrom msg p s = .ok m₁) ∨
          unmarshalFrom msg p s = .error (.err .unexpectedEOF))
      ?_ (s := (m, 0)) ⟨le_rfl, by omega⟩ h
    intro s hs ih hrun
    by_cases hend : p.length ≤ s.2
    · left
      exact ⟨s.1, loop_leave (by rw [unmarshalRound, if_pos hend, if_neg (by omega)])⟩
    have hs' : 0 ≤ s.2 ∧ s.2 ≤ (p ++ q).length := by omega
    cases hround : unmarshalRound msg (p ++ q) s with
    | leave r =>
        have hr : r = .ok m' := (loop_leave hround).symm.trans hrun
        subst hr
        rw [unmarshalRound, if_neg (by omega)] at hround
        split at hround
        · cases hround
        · cases hround
    | next s' =>
        obtain ⟨_, hfield⟩ := unmarshalRound_next hround
        obtain ⟨r, rest, hbytes, hr, hj⟩ :=
          (unmarshalField_eq_ok_iff hfit hs'.1 hs'.2).mp hfield
        by_cases hcut : s'.2 ≤ p.length
        · have hdrop : (p ++ q).drop s.2.toNat = p.drop s.2.toNat ++ q :=
            List.drop_append_of_le_length (by omega)
          rw [hdrop] at hbytes
          have hplen : (p.drop s.2.toNat).length = p.length - s.2.toNat := List.length_drop
          obtain ⟨rest', hrest⟩ : r <+: p.drop s.2.toNat :=
            List.prefix_of_prefix_length_le ⟨rest, hbytes.symm⟩ (List.prefix_append _ q) (by omega)
          have hfieldp : unmarshalField msg p s.1 s.2 = .ok s' :=
            (unmarshalField_eq_ok_iff hfitp hs.1 hs.2).mpr ⟨r, rest', hrest.symm, hr, hj⟩
          have hnext : unmarshalRound msg p s = .next s' := by
            rw [unmarshalRound, if_neg hend, hfieldp]
          rw [unmarshalFrom, loop_next (falling_unmarshal msg hfitp) hs hnext]
          exact ih s' hnext ((loop_next (falling_unmarshal msg hfit) hs' hround).symm.trans hrun)
        · right
          have hfieldp := unmarshalField_cut hfit hs.1 hs.2 hfield (not_le.mp hcut)
          exact loop_leave (by rw [unmarshalRound, if_neg hend, hfieldp])
  obtain ⟨m₁, hp⟩ | hp := hends
  · exact .inl ⟨m₁, hp, (unmarshal_append hfit hp).mp h⟩
  · exact .inr hp

theorem unmarshal_cut_genesis :
    (∃ m₁, unmarshal genesisStateMessage ⟨⟨⟩⟩ [0x0a] = .ok m₁ ∧
        unmarshal genesisStateMessage m₁ [0x00] = .ok ⟨⟨⟩⟩) ∨
      unmarshal genesisStateMessage ⟨⟨⟩⟩ [0x0a] = .error (.err .unexpectedEOF) := by
  have h : unmarshal genesisStateMessage ⟨⟨⟩⟩ ([0x0a] ++ [0x00]) = .ok ⟨⟨⟩⟩ := by decide
  exact unmarshal_cut (by rw [Fits]; decide) h

end Cut

section Orderly

/-- The embedded messages of a message end in order, too. -/
def Message.EmbedsOrderly (msg : Message σ) : Prop :=
  ∀ k name merge, msg.field k = some (name, merge) →
    ∀ m bytes, Fits bytes → Orderly (merge m bytes)

private theorem orderly_unmarshalEmbedded {file : PbFile} {merge : σ → Bytes → Except Failure σ}
    (hmerge : ∀ m bytes, Fits bytes → Orderly (merge m bytes)) (hfit : Fits dAtA) (hi : 0 ≤ i)
    (hil : i ≤ dAtA.length) : Orderly (unmarshalEmbedded file merge dAtA m i) := by
  apply (orderly_readVarint hi).bind
  intro r hread
  obtain ⟨ds, rest, hbytes, _, hj⟩ := (readVarint_eq_ok hi).mp hread
  have hall := length_of_drop hi hil hbytes
  change Orderly (if r.1.toInt < 0 then _ else _)
  split
  · exact orderly_err _
  rename_i hlen
  split
  · exact orderly_err _
  split
  · exact orderly_err _
  rename_i hneg hend
  have hlt : r.1.toInt < 2 ^ 63 := by simpa using BitVec.toInt_lt (x := r.1)
  rw [Fits] at hfit
  obtain hsum | hwrapped := wrapInt_add (x := r.2) (y := r.1.toInt) (by omega) (by omega)
    (by omega) hlt
  · rw [slice_eq_ok (by omega) (by omega) (not_lt.mp hend)]
    refine (hmerge m _ (fits_drop ?_ _)).bind fun _ _ => orderly_ok _
    rw [Fits, List.length_take]
    omega
  · omega

private theorem orderly_unmarshalUnknown {file : PbFile} (hfit : Fits dAtA) (hi : 0 ≤ i)
    (hil : i ≤ dAtA.length) : Orderly (unmarshalUnknown file dAtA m i) := by
  rw [unmarshalUnknown, slice_rest hi hil]
  apply (orderly_skip (fits_drop hfit i.toNat)).bind
  intro n _
  split
  · exact orderly_err _
  split
  · exact orderly_err _
  · exact orderly_ok _

private theorem orderly_unmarshalField (hmsg : msg.EmbedsOrderly) (hfit : Fits dAtA) (hi : 0 ≤ i)
    (hil : i ≤ dAtA.length) : Orderly (unmarshalField msg dAtA m i) := by
  apply (orderly_readVarint hi).bind
  intro r hread
  obtain ⟨ds, rest, hbytes, _, hj⟩ := (readVarint_eq_ok hi).mp hread
  have hall := length_of_drop hi hil hbytes
  change Orderly (unmarshalCase msg dAtA m i r.1 r.2)
  rw [unmarshalCase]
  split
  · exact orderly_err _
  split
  · exact orderly_err _
  split
  · rename_i name merge hfield
    split
    · exact orderly_err _
    · exact orderly_unmarshalEmbedded (hmsg _ name merge hfield) hfit (by omega) (by omega)
  · exact orderly_unmarshalUnknown hfit hi hil

/-- No bytes make `Unmarshal` index or slice out of them, or run on without end. -/
theorem orderly_unmarshal (hmsg : msg.EmbedsOrderly) (hfit : Fits dAtA) :
    Orderly (unmarshal msg m dAtA) := by
  refine loop_result (falling_unmarshal msg hfit) (Q := Orderly) ?_ (s := (m, 0))
    ⟨le_rfl, by omega⟩
  intro s r hs h
  rw [unmarshalRound] at h
  split at h
  · cases h
    split
    · exact orderly_err _
    · exact orderly_ok _
  split at h
  · rename_i e hfield
    cases h
    intro f hf
    cases hf
    exact orderly_unmarshalField hmsg hfit hs.1 hs.2 e hfield
  · cases h

end Orderly

section Accepted

/-- Whatever the bytes are, the module's messages are decoded or refused with an error. -/
theorem module_orderly (hfit : Fits dAtA) :
    (∀ m : Params, Orderly (m.unmarshal dAtA)) ∧
      (∀ m : QueryParamsRequest, Orderly (m.unmarshal dAtA)) ∧
      (∀ m : GenesisState, Orderly (m.unmarshal dAtA)) ∧
      ∀ m : QueryParamsResponse, Orderly (m.unmarshal dAtA) := by
  have hnone : ∀ {σ : Type} {msg : Message σ}, (∀ k, msg.field k = none) → msg.EmbedsOrderly := by
    intro σ msg h k name merge hfield
    rw [h] at hfield
    cases hfield
  have hparams : ∀ (m : Params) {bytes : Bytes}, Fits bytes → Orderly (m.unmarshal bytes) :=
    fun m _ hbytes => orderly_unmarshal (hnone fun _ => rfl) hbytes
  have hembeds : ∀ {σ : Type} {msg : Message σ} {params : σ → Params}
      {withParams : σ → Params → σ}, msg.field = paramsField params withParams →
        msg.EmbedsOrderly := by
    intro σ msg params withParams h k name merge hfield m bytes hbytes
    rw [h, paramsField] at hfield
    split at hfield
    · cases hfield
      exact (hparams (params m) hbytes).bind fun _ _ => orderly_ok _
    · cases hfield
  exact ⟨fun m => hparams m hfit, fun m => orderly_unmarshal (hnone fun _ => rfl) hfit,
    fun m => orderly_unmarshal (hembeds rfl) hfit, fun m => orderly_unmarshal (hembeds rfl) hfit⟩

theorem module_orderly_sample :
    (∀ m : Params, Orderly (m.unmarshal [0x0a, 0xff])) ∧
      (∀ m : QueryParamsRequest, Orderly (m.unmarshal [0x0a, 0xff])) ∧
      (∀ m : GenesisState, Orderly (m.unmarshal [0x0a, 0xff])) ∧
      ∀ m : QueryParamsResponse, Orderly (m.unmarshal [0x0a, 0xff]) :=
  module_orderly (by rw [Fits]; decide)

end Accepted

end Mandelbot.Types
