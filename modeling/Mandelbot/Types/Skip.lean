import Mandelbot.Types.Reading

/-!
# Skipping unknown fields

`skip` passes over exactly one record of the wire format, with all groups opened in it closed
again; it never indexes out of the bytes, and bytes cut off inside a record are reported as such.
-/

namespace Mandelbot.Types

open Wire

variable {file : PbFile} {dAtA p q : Bytes} {i j n : ℤ} {w : BitVec 64} {d d' : ℕ}

/-- The lengths of slices fit an `int`. -/
def Fits (dAtA : Bytes) : Prop := dAtA.length < 2 ^ 63

theorem wrapInt_of_lt {x : ℤ} (h : 0 ≤ x) (hlt : x < 2 ^ 63) : wrapInt x = x := by
  rw [wrapInt, Int.bmod_def, Int.emod_eq_of_lt h (by push_cast; omega)]
  rw [if_pos (by push_cast; omega)]

theorem wrapInt_neg {x : ℤ} (h : 2 ^ 63 ≤ x) (hlt : x < 2 ^ 64) : wrapInt x < 0 := by
  rw [wrapInt, Int.bmod_def, Int.emod_eq_of_lt (by omega) (by push_cast; omega)]
  rw [if_neg (by push_cast; omega)]
  push_cast
  omega

/-- A sum of two `int`s that are not negative is right or negative. -/
theorem wrapInt_add {x y : ℤ} (hx : 0 ≤ x) (hxlt : x < 2 ^ 63) (hy : 0 ≤ y) (hylt : y < 2 ^ 63) :
    wrapInt (x + y) = x + y ∨ wrapInt (x + y) < 0 := by
  by_cases h : x + y < 2 ^ 63
  · exact .inl (wrapInt_of_lt (by omega) h)
  · exact .inr (wrapInt_neg (by omega) (by omega))

section Drop

theorem length_of_drop {t rest : Bytes} (hi : 0 ≤ i) (hil : i ≤ dAtA.length)
    (h : dAtA.drop i.toNat = t ++ rest) : i + t.length + rest.length = dAtA.length := by
  have hlen := congrArg List.length h
  rw [List.length_drop, List.length_append] at hlen
  omega

theorem drop_past {t rest : Bytes} (hi : 0 ≤ i) (h : dAtA.drop i.toNat = t ++ rest) :
    dAtA.drop (i + t.length).toNat = rest := by
  have hnat : (i + t.length).toNat = i.toNat + t.length := by omega
  rw [hnat, ← List.drop_drop, h, List.drop_left]

theorem take_past {t rest : Bytes} (hi : 0 ≤ i) (h : dAtA.drop i.toNat = t ++ rest) :
    dAtA.take (i + t.length).toNat = dAtA.take i.toNat ++ t := by
  have hnat : (i + t.length).toNat = i.toNat + t.length := by omega
  rw [hnat, List.take_add, h, List.take_left]

/-- There are `k` bytes left to take when the end is not passed. -/
theorem exists_take {k : ℕ} (hi : 0 ≤ i) (h : i + k ≤ dAtA.length) :
    ∃ t rest, dAtA.drop i.toNat = t ++ rest ∧ t.length = k := by
  refine ⟨(dAtA.drop i.toNat).take k, (dAtA.drop i.toNat).drop k,
    (List.take_append_drop _ _).symm, ?_⟩
  rw [List.length_take, List.length_drop]
  omega

end Drop

section Field

/-- The bytes that a wire type of fixed size takes. -/
private theorem fixed_iff {k : ℕ} (hfit : Fits dAtA) (hk : k < 2 ^ 63) (hi : 0 ≤ i)
    (hil : i ≤ dAtA.length) :
    (wrapInt (i + k) = j ∧ 0 ≤ j ∧ j ≤ dAtA.length) ↔
      ∃ t rest, dAtA.drop i.toNat = t ++ rest ∧ t.length = k ∧ j = i + t.length := by
  rw [Fits] at hfit
  constructor
  · intro h
    rcases h with ⟨hj, hpos, hle⟩
    obtain hsum | hneg := wrapInt_add hi (by omega) (Int.natCast_nonneg k) (by omega)
    · have hend : i + k ≤ dAtA.length := by omega
      obtain ⟨t, rest, hbytes, hlen⟩ := exists_take hi hend
      exact ⟨t, rest, hbytes, hlen, by omega⟩
    · omega
  · intro h
    rcases h with ⟨t, rest, hbytes, hlen, hj⟩
    have hall := length_of_drop hi hil hbytes
    rw [wrapInt_of_lt (by omega) (by omega)]
    omega

/-- What the switch passes over: the payload of a tag, or nothing after a bracket. -/
private inductive PayloadStep (dAtA : Bytes) (k : ℕ) (i : ℤ) : ℕ → ℤ → ℕ → Prop
  | payload {d : ℕ} {t rest : Bytes} : dAtA.drop i.toNat = t ++ rest → IsPayload k t →
      PayloadStep dAtA k i d (i + t.length) d
  | start {d : ℕ} : k = 3 → PayloadStep dAtA k i d i (d + 1)
  | stop {d : ℕ} : k = 4 → PayloadStep dAtA k i (d + 1) i d

private theorem payloadStep_of_skipPayload (hfit : Fits dAtA) (hi : 0 ≤ i)
    (hil : i ≤ dAtA.length) (h : skipPayload file dAtA w i d = .ok (j, d')) (hpos : 0 ≤ j)
    (hle : j ≤ dAtA.length) : PayloadStep dAtA (wireType w) i d j d' := by
  rw [skipPayload] at h
  split at h
  case h_1 hk =>
    obtain ⟨k, hpass, hk'⟩ := bind_eq_ok.mp h
    cases hk'
    obtain ⟨ds, rest, hbytes, hds, hlen, rfl⟩ := (passVarint_eq_ok hi).mp hpass
    exact hk ▸ .payload hbytes (.varint hds hlen)
  case h_2 hk =>
    cases h
    obtain ⟨t, rest, hbytes, hlen, hj⟩ :=
      (fixed_iff (k := 8) hfit (by omega) hi hil).mp ⟨rfl, hpos, hle⟩
    have hj' : wrapInt (i + 8) = i + t.length := hj
    rw [hk, hj']
    exact .payload hbytes (.fixed64 hlen)
  case h_3 hk =>
    obtain ⟨⟨len, k⟩, hread, hlen⟩ := bind_eq_ok.mp h
    obtain ⟨ds, rest, hbytes, hds, rfl⟩ := (readVarint_eq_ok hi).mp hread
    change (if len.toInt < 0 then _ else _) = _ at hlen
    split at hlen
    · cases hlen
    cases hlen
    have hall := length_of_drop hi hil hbytes
    have hlt : len.toInt < 2 ^ 63 := by simpa using BitVec.toInt_lt (x := len)
    obtain ⟨k, hk'⟩ := Int.eq_ofNat_of_zero_le (a := len.toInt) (by omega)
    rw [hk'] at hpos hle ⊢
    obtain ⟨t, rest', hbody, htlen, hj⟩ :=
      (fixed_iff hfit (by omega) (by omega) (by omega)).mp ⟨rfl, hpos, hle⟩
    rw [drop_past hi hbytes] at hbody
    have hwhole : dAtA.drop i.toNat = (ds ++ t) ++ rest' := by
      rw [hbytes, hbody, List.append_assoc]
    have hstep : PayloadStep dAtA 2 i d _ d := .payload hwhole (.delimited hds (by omega))
    rw [hk, hj, Int.add_assoc, ← Nat.cast_add, ← List.length_append]
    exact hstep
  case h_4 hk =>
    cases h
    exact .start hk
  case h_5 hk =>
    split at h
    · cases h
    rename_i hd
    cases h
    obtain ⟨e, rfl⟩ := Nat.exists_eq_succ_of_ne_zero hd
    exact .stop hk
  case h_6 hk =>
    cases h
    obtain ⟨t, rest, hbytes, hlen, hj⟩ :=
      (fixed_iff (k := 4) hfit (by omega) hi hil).mp ⟨rfl, hpos, hle⟩
    have hj' : wrapInt (i + 4) = i + t.length := hj
    rw [hk, hj']
    exact .payload hbytes (.fixed32 hlen)
  case h_7 => cases h

private theorem skipPayload_of_payload {t rest : Bytes} (hfit : Fits dAtA) (hi : 0 ≤ i)
    (hil : i ≤ dAtA.length) (hbytes : dAtA.drop i.toNat = t ++ rest)
    (ht : IsPayload (wireType w) t) :
    skipPayload file dAtA w i d = .ok (i + t.length, d) := by
  have hall := length_of_drop hi hil hbytes
  rw [skipPayload]
  generalize wireType w = k at ht
  cases ht with
  | varint hds hlen =>
      rw [(passVarint_eq_ok hi).mpr ⟨_, _, hbytes, hds, hlen, rfl⟩]
      rfl
  | fixed64 hlen =>
      have hend : wrapInt (i + 8) = i + t.length :=
        ((fixed_iff (k := 8) hfit (by omega) hi hil).mpr ⟨_, _, hbytes, hlen, rfl⟩).1
      change Except.ok (wrapInt (i + 8), d) = _
      rw [hend]
  | @delimited ds body len hds hlen =>
      have hstart : dAtA.drop i.toNat = ds ++ (body ++ rest) := by
        rw [hbytes, List.append_assoc]
      have hbody := drop_past hi hstart
      rw [List.length_append] at hall
      have hend := ((fixed_iff (k := body.length) hfit (by rw [Fits] at hfit; omega) (by omega)
        (by omega)).mpr ⟨_, _, hbody, rfl, rfl⟩).1
      rw [(readVarint_eq_ok hi).mpr ⟨ds, _, hstart, hds, rfl⟩]
      change (if len.toInt < 0 then _ else _) = _
      rw [if_neg (by omega), ← hlen, hend, List.length_append, Nat.cast_add, ← Int.add_assoc]
      rfl
  | fixed32 hlen =>
      have hend : wrapInt (i + 4) = i + t.length :=
        ((fixed_iff (k := 4) hfit (by omega) hi hil).mpr ⟨_, _, hbytes, hlen, rfl⟩).1
      change Except.ok (wrapInt (i + 4), d) = _
      rw [hend]

/-- A round passes over one token. -/
theorem skipField_eq_ok_iff (hfit : Fits dAtA) (hi : 0 ≤ i) (hil : i ≤ dAtA.length) :
    (skipField file dAtA i d = .ok (j, d') ∧ 0 ≤ j ∧ j ≤ dAtA.length) ↔
      ∃ t rest, dAtA.drop i.toNat = t ++ rest ∧ IsToken d t d' ∧ j = i + t.length := by
  constructor
  · intro h
    rcases h with ⟨hfield, hpos, hle⟩
    obtain ⟨⟨w, k⟩, hread, hpayload⟩ := bind_eq_ok.mp hfield
    obtain ⟨tag, rest, hbytes, htag, rfl⟩ := (readVarint_eq_ok hi).mp hread
    have hall := length_of_drop hi hil hbytes
    have hrest := drop_past hi hbytes
    generalize hwt : wireType w = wt
    have hstep := payloadStep_of_skipPayload hfit (by omega) (by omega) hpayload hpos hle
    cases hstep with
    | @payload _ t rest' hdrop ht =>
        refine ⟨tag ++ t, rest', ?_, .field htag ht, ?_⟩
        · rw [hbytes, List.append_assoc, ← hdrop, hrest]
        · rw [List.length_append]
          omega
    | start hw => exact ⟨tag, rest, hbytes, .start htag hw, rfl⟩
    | stop hw => exact ⟨tag, rest, hbytes, .stop htag hw, rfl⟩
  · intro h
    rcases h with ⟨t, rest, hbytes, ht, hj⟩
    have hall := length_of_drop hi hil hbytes
    refine ⟨?_, by omega, by omega⟩
    cases ht with
    | @field _ tag payload w htag hpayload =>
        have hstart : dAtA.drop i.toNat = tag ++ (payload ++ rest) := by
          rw [hbytes, List.append_assoc]
        have hdrop := drop_past hi hstart
        rw [List.length_append] at hall hj
        rw [skipField, (readVarint_eq_ok hi).mpr ⟨tag, _, hstart, htag, rfl⟩]
        change skipPayload file dAtA w (i + tag.length) d = _
        rw [skipPayload_of_payload hfit (by omega) (by omega) hdrop hpayload, hj, Nat.cast_add,
          Int.add_assoc]
    | start htag hw =>
        rw [skipField, (readVarint_eq_ok hi).mpr ⟨t, rest, hbytes, htag, rfl⟩, hj]
        change skipPayload file dAtA _ _ d = _
        rw [skipPayload, hw]
        rfl
    | stop htag hw =>
        rw [skipField, (readVarint_eq_ok hi).mpr ⟨t, rest, hbytes, htag, rfl⟩, hj]
        change skipPayload file dAtA _ _ (d' + 1) = _
        rw [skipPayload, hw]
        rfl

/-- An index after a round is an `int` again. -/
private theorem skipField_lt (hfit : Fits dAtA) (hi : 0 ≤ i) (hil : i ≤ dAtA.length)
    (h : skipField file dAtA i d = .ok (j, d')) : j < 2 ^ 63 := by
  have hwrap : ∀ x, wrapInt x < 2 ^ 63 := by
    intro x
    have hlt := Int.bmod_lt (x := x) (m := 2 ^ 64) (by omega)
    rw [wrapInt]
    omega
  have hin : ∀ {t rest : Bytes} {k : ℤ}, 0 ≤ k → k ≤ dAtA.length →
      dAtA.drop k.toNat = t ++ rest → k + t.length ≤ dAtA.length ∧ k + t.length < 2 ^ 63 := by
    intro t rest k hk hkl hbytes
    have hall := length_of_drop hk hkl hbytes
    rw [Fits] at hfit
    omega
  obtain ⟨⟨w, k⟩, hread, hpayload⟩ := bind_eq_ok.mp h
  obtain ⟨tag, rest, hbytes, _, rfl⟩ := (readVarint_eq_ok hi).mp hread
  obtain ⟨hle, hlt⟩ := hin hi hil hbytes
  change skipPayload file dAtA w (i + tag.length) d = _ at hpayload
  rw [skipPayload] at hpayload
  split at hpayload
  · obtain ⟨k, hpass, hk⟩ := bind_eq_ok.mp hpayload
    cases hk
    obtain ⟨ds, rest', hds, _, _, rfl⟩ := (passVarint_eq_ok (by omega)).mp hpass
    exact (hin (by omega) hle hds).2
  · cases hpayload
    exact hwrap _
  · obtain ⟨⟨len, k⟩, _, hlen⟩ := bind_eq_ok.mp hpayload
    change (if len.toInt < 0 then _ else _) = _ at hlen
    split at hlen
    · cases hlen
    cases hlen
    exact hwrap _
  · cases hpayload
    exact hlt
  · split at hpayload
    · cases hpayload
    cases hpayload
    exact hlt
  · cases hpayload
    exact hwrap _
  · cases hpayload

theorem orderly_skipField (hi : 0 ≤ i) : Orderly (skipField file dAtA i d) := by
  apply (orderly_readVarint hi).bind
  intro r hread
  obtain ⟨ds, rest, hbytes, hds, hj⟩ := (readVarint_eq_ok hi).mp hread
  have hnext : 0 ≤ r.2 := by omega
  change Orderly (skipPayload file dAtA r.1 r.2 d)
  rw [skipPayload]
  split
  · exact (orderly_passVarint hnext).bind fun _ _ => orderly_ok _
  · exact orderly_ok _
  · apply (orderly_readVarint hnext).bind
    intro r' _
    change Orderly (if r'.1.toInt < 0 then _ else _)
    split
    · exact orderly_err _
    · exact orderly_ok _
  · exact orderly_ok _
  · split
    · exact orderly_err _
    · exact orderly_ok _
  · exact orderly_ok _
  · exact orderly_err _

end Field

section Record

private abbrev skipFrom (file : PbFile) (dAtA : Bytes) : ℤ × ℕ → Except Failure ℤ :=
  loop (skipRound file dAtA) (.error .unfinished) fun s => (dAtA.length - s.1).toNat

private theorem skipRound_next {s s' : ℤ × ℕ} (h : skipRound file dAtA s = .next s') :
    s.1 < dAtA.length ∧ skipField file dAtA s.1 s.2 = .ok s' ∧ 0 ≤ s'.1 ∧ s'.2 ≠ 0 := by
  rw [skipRound] at h
  split at h
  · cases h
  rename_i hin
  split at h
  · cases h
  rename_i j k hfield
  split at h
  · cases h
  rename_i hpos
  split at h
  · cases h
  rename_i hk
  cases h
  exact ⟨not_le.mp hin, hfield, not_lt.mp hpos, hk⟩

private theorem skipRound_leave {s : ℤ × ℕ} (h : skipRound file dAtA s = .leave (.ok n)) :
    s.1 < dAtA.length ∧ skipField file dAtA s.1 s.2 = .ok (n, 0) ∧ 0 ≤ n := by
  rw [skipRound] at h
  split at h
  · cases h
  rename_i hin
  split at h
  · cases h
  rename_i j k hfield
  split at h
  · cases h
  rename_i hpos
  split at h
  case isFalse => cases h
  rename_i hk
  cases h
  exact ⟨not_le.mp hin, hk ▸ hfield, not_lt.mp hpos⟩

private theorem falling_skip (file : PbFile) (hfit : Fits dAtA) :
    Falling (skipRound file dAtA) (fun s => 0 ≤ s.1) fun s => (dAtA.length - s.1).toNat where
  keeps _ h := (skipRound_next h).2.2.1
  falls {s s'} hs h := by
    obtain ⟨hin, hfield, hpos, _⟩ := skipRound_next h
    by_cases hend : s'.1 ≤ dAtA.length
    · obtain ⟨t, rest, _, ht, hj⟩ :=
        (skipField_eq_ok_iff hfit hs hin.le).mp ⟨hfield, hpos, hend⟩
      have hlen := ht.length_pos
      omega
    · omega

/-- A token is passed over in one round. -/
private theorem skipFrom_token {t rest : Bytes} (hfit : Fits dAtA) (hi : 0 ≤ i)
    (hil : i ≤ dAtA.length) (hbytes : dAtA.drop i.toNat = t ++ rest) (ht : IsToken d t d') :
    skipFrom file dAtA (i, d) =
      if d' = 0 then .ok (i + t.length) else skipFrom file dAtA (i + t.length, d') := by
  have hpos := ht.length_pos
  have hall := length_of_drop hi hil hbytes
  have hfield : skipField file dAtA i d = .ok (i + t.length, d') :=
    ((skipField_eq_ok_iff hfit hi hil).mpr ⟨t, rest, hbytes, ht, rfl⟩).1
  have hround : skipRound file dAtA (i, d) =
      if d' = 0 then .leave (.ok (i + t.length)) else .next (i + t.length, d') := by
    rw [skipRound, if_neg (by change ¬ (dAtA.length : ℤ) ≤ i; omega), hfield]
    change (if i + (t.length : ℤ) < 0 then _ else _) = _
    rw [if_neg (by omega)]
  split
  · rename_i hd
    rw [if_pos hd] at hround
    exact loop_leave hround
  · rename_i hd
    rw [if_neg hd] at hround
    exact loop_next (falling_skip file hfit) hi hround

/-- Records inside an open group are passed over, however deep they nest. -/
private theorem skipFrom_records {body rest : Bytes} (hfit : Fits dAtA) (hbody : IsRecords body)
    (hi : 0 ≤ i) (hil : i ≤ dAtA.length) (hbytes : dAtA.drop i.toNat = body ++ rest) :
    skipFrom file dAtA (i, d + 1) = skipFrom file dAtA (i + body.length, d + 1) := by
  induction hbody generalizing i d rest with
  | nil => simp
  | @field tag payload more w htag hpayload _ ih =>
      have hstart : dAtA.drop i.toNat = (tag ++ payload) ++ (more ++ rest) := by
        simpa only [List.append_assoc] using hbytes
      have hall := length_of_drop hi hil hstart
      rw [skipFrom_token hfit hi hil hstart (.field htag hpayload), if_neg (by omega),
        ih (by omega) (by omega) (drop_past hi hstart)]
      simp only [List.length_append, Nat.cast_add, Int.add_assoc]
  | @group start body stop more w w' hstart hw _ hstop hw' _ ihbody ihmore =>
      have h₁ : dAtA.drop i.toNat = start ++ (body ++ (stop ++ (more ++ rest))) := by
        simpa only [List.append_assoc] using hbytes
      have hall := length_of_drop hi hil h₁
      simp only [List.length_append, Nat.cast_add] at hall
      have h₂ := drop_past hi h₁
      have h₃ := drop_past (by omega) h₂
      have h₄ := drop_past (by omega) h₃
      rw [skipFrom_token hfit hi hil h₁ (.start hstart hw), if_neg (by omega),
        ihbody (by omega) (by omega) h₂,
        skipFrom_token hfit (by omega) (by omega) h₃ (.stop hstop hw'), if_neg (by omega),
        ihmore (by omega) (by omega) h₄]
      simp only [List.length_append, Nat.cast_add, Int.add_assoc]

private theorem skip_record {r rest : Bytes} (hfit : Fits dAtA) (hr : IsRecord w r)
    (hbytes : dAtA = r ++ rest) : skip file dAtA = .ok r.length := by
  have hzero : (0 : ℤ) ≤ dAtA.length := by omega
  change skipFrom file dAtA (0, 0) = _
  cases hr with
  | field htag hpayload =>
      have hstart : dAtA.drop (0 : ℤ).toNat = _ ++ rest := hbytes
      rw [skipFrom_token hfit le_rfl hzero hstart (.field htag hpayload), if_pos rfl, Int.zero_add]
  | @group start body stop w' hstart hw hbody hstop hw' =>
      have h₁ : dAtA.drop (0 : ℤ).toNat = start ++ (body ++ (stop ++ rest)) := by
        simpa only [List.append_assoc, Int.toNat_zero, List.drop_zero] using hbytes
      have hall := length_of_drop le_rfl hzero h₁
      simp only [List.length_append, Nat.cast_add] at hall
      have h₂ := drop_past le_rfl h₁
      have h₃ := drop_past (by omega) h₂
      rw [skipFrom_token hfit le_rfl hzero h₁ (.start hstart hw), if_neg (by omega),
        skipFrom_records hfit hbody (by omega) (by omega) h₂,
        skipFrom_token hfit (by omega) (by omega) h₃ (.stop hstop hw'), if_pos rfl]
      simp only [List.length_append, Nat.cast_add, Int.add_assoc, Int.zero_add]

/-- What has been passed over is open at the current depth until a record is complete. -/
private theorem record_of_skipFrom (hfit : Fits dAtA) {s : ℤ × ℕ} (hs : 0 ≤ s.1)
    (hopened : s.1 ≤ dAtA.length → Opened s.2 (dAtA.take s.1.toNat))
    (h : skipFrom file dAtA s = .ok n) (hn : n ≤ dAtA.length) :
    0 ≤ n ∧ ∃ w, IsRecord w (dAtA.take n.toNat) := by
  refine (falling_skip file hfit).induction
    (P := fun s => (s.1 ≤ dAtA.length → Opened s.2 (dAtA.take s.1.toNat)) →
      skipFrom file dAtA s = .ok n → 0 ≤ n ∧ ∃ w, IsRecord w (dAtA.take n.toNat)) ?_ hs hopened h
  intro s hs ih hopened hrun
  cases hround : skipRound file dAtA s with
  | leave r =>
      have hr : r = .ok n := (loop_leave hround).symm.trans hrun
      subst hr
      obtain ⟨hin, hfield, hpos⟩ := skipRound_leave hround
      obtain ⟨t, rest, hbytes, ht, hj⟩ :=
        (skipField_eq_ok_iff hfit hs hin.le).mp ⟨hfield, hpos, hn⟩
      obtain ⟨w, hw⟩ := (hopened hin.le).complete ht
      refine ⟨hpos, w, ?_⟩
      rw [hj, take_past hs hbytes]
      exact hw
  | next s' =>
      obtain ⟨hin, hfield, hpos, hk⟩ := skipRound_next hround
      refine ih s' hround ?_ ((loop_next (falling_skip file hfit) hs hround).symm.trans hrun)
      intro hend
      obtain ⟨t, rest, hbytes, ht, hj⟩ :=
        (skipField_eq_ok_iff hfit hs hin.le).mp ⟨hfield, hpos, hend⟩
      obtain ⟨e, he⟩ := Nat.exists_eq_succ_of_ne_zero hk
      rw [he] at ht ⊢
      rw [hj, take_past hs hbytes]
      exact (hopened hin.le).token ht

/-- `skip` ends inside the bytes exactly when they start with a record, and then at its end. -/
theorem skip_eq_ok_iff (hfit : Fits dAtA) : (skip file dAtA = .ok n ∧ n ≤ dAtA.length) ↔
    ∃ w r rest, dAtA = r ++ rest ∧ IsRecord w r ∧ n = r.length := by
  constructor
  · intro h
    obtain ⟨hpos, w, hr⟩ := record_of_skipFrom hfit le_rfl (fun _ => .none) h.1 h.2
    refine ⟨w, _, _, (List.take_append_drop n.toNat dAtA).symm, hr, ?_⟩
    rw [List.length_take]
    omega
  · intro h
    rcases h with ⟨w, r, rest, hbytes, hr, hn⟩
    have hlen := congrArg List.length hbytes
    rw [List.length_append] at hlen
    exact ⟨hn ▸ skip_record hfit hr hbytes, by omega⟩

theorem skip_lt (hfit : Fits dAtA) (h : skip file dAtA = .ok n) : n < 2 ^ 63 := by
  refine loop_result (falling_skip file hfit) (Q := fun r => r = .ok n → n < 2 ^ 63) ?_
    (s := (0, 0)) le_rfl h
  intro s r hs hround hr
  subst hr
  obtain ⟨hin, hfield, _⟩ := skipRound_leave hround
  exact skipField_lt hfit hs hin.le hfield

theorem orderly_skip (hfit : Fits dAtA) : Orderly (skip file dAtA) := by
  refine loop_result (falling_skip file hfit) (Q := Orderly) ?_ (s := (0, 0)) le_rfl
  intro s r hs h
  rw [skipRound] at h
  split at h
  · cases h
    exact orderly_err _
  split at h
  · rename_i e hfield
    cases h
    intro f hf
    cases hf
    exact orderly_skipField hs e hfield
  split at h
  · cases h
    exact orderly_err _
  split at h
  · cases h
    exact orderly_ok _
  · cases h

end Record

section Cut

private theorem skipField_cut {s : ℤ × ℕ} (hi : 0 ≤ i) (hip : i ≤ p.length)
    (h : skipField file (p ++ q) i d = .ok s) :
    skipField file p i d = .ok s ∨ skipField file p i d = .error (.err .unexpectedEOF) := by
  obtain ⟨⟨w, k⟩, hread, hpayload⟩ := bind_eq_ok.mp h
  rw [skipField]
  obtain ⟨hk, hcut⟩ | ⟨_, hcut⟩ := readVarint_cut hi hip hread
  case inr =>
    rw [hcut]
    exact .inr rfl
  have hkpos : 0 ≤ k := by
    obtain ⟨ds, rest, _, _, hj⟩ := (readVarint_eq_ok hi).mp hread
    omega
  rw [hcut]
  change skipPayload file p w k d = _ ∨ skipPayload file p w k d = _
  change skipPayload file (p ++ q) w k d = _ at hpayload
  rw [skipPayload] at hpayload
  rw [skipPayload]
  split at hpayload
  case h_1 =>
    obtain ⟨j, hpass, hj⟩ := bind_eq_ok.mp hpayload
    obtain hpass | hpass := passVarint_cut hkpos hk hpass
    · exact .inl (by rw [hpass]; exact hj)
    · exact .inr (by rw [hpass]; rfl)
  case h_3 =>
    obtain ⟨⟨len, j⟩, hlen, hj⟩ := bind_eq_ok.mp hpayload
    obtain ⟨_, hlen⟩ | ⟨_, hlen⟩ := readVarint_cut hkpos hk hlen
    · exact .inl (by rw [hlen]; exact hj)
    · exact .inr (by rw [hlen]; rfl)
  all_goals exact .inl hpayload

/-- A record cut off is reported as an unexpected end; one before the cut is passed over. -/
theorem skip_cut (hfit : Fits (p ++ q)) (h : skip file (p ++ q) = .ok n)
    (hn : n ≤ (p ++ q).length) :
    (n ≤ p.length ∧ skip file p = .ok n) ∨
      p.length < n ∧ (skip file p = .ok n ∨ skip file p = .error (.err .unexpectedEOF)) := by
  have hlen : (p ++ q).length = p.length + q.length := List.length_append
  have hfitp : Fits p := by
    rw [Fits] at hfit ⊢
    omega
  by_cases hnp : n ≤ p.length
  · left
    obtain ⟨w, r, rest, hbytes, hr, hnr⟩ := (skip_eq_ok_iff hfit).mp ⟨h, hn⟩
    have htake : p.take r.length = r := by
      have hcut := congrArg (List.take r.length) hbytes
      rwa [List.take_append_of_le_length (by omega), List.take_left] at hcut
    have hprefix : p = r ++ p.drop r.length := by
      calc p = p.take r.length ++ p.drop r.length := (List.take_append_drop _ _).symm
        _ = r ++ p.drop r.length := by rw [htake]
    exact ⟨hnp, ((skip_eq_ok_iff hfitp).mpr ⟨w, r, _, hprefix, hr, hnr⟩).1⟩
  · refine .inr ⟨not_le.mp hnp, ?_⟩
    -- The two loops go through the same states until the shorter bytes end.
    refine (falling_skip file hfitp).induction
      (P := fun s => skipFrom file (p ++ q) s = .ok n →
        skipFrom file p s = .ok n ∨ skipFrom file p s = .error (.err .unexpectedEOF))
      ?_ (s := (0, 0)) le_rfl h
    intro s hs ih hrun
    by_cases hin : p.length ≤ s.1
    · right
      exact loop_leave (by rw [skipRound, if_pos hin])
    have hcut : ∀ s', skipField file (p ++ q) s.1 s.2 = .ok s' →
        skipFrom file p s = .error (.err .unexpectedEOF) ∨
          skipRound file p s = skipRound file (p ++ q) s := by
      intro s' hfield
      rw [skipRound, skipRound, if_neg hin, if_neg (by omega), hfield]
      obtain hp | hp := skipField_cut hs (by omega) hfield
      · exact .inr (by rw [hp])
      · exact .inl (loop_leave (by rw [skipRound, if_neg hin, hp]))
    cases hround : skipRound file (p ++ q) s with
    | leave r =>
        have hr : r = .ok n := (loop_leave hround).symm.trans hrun
        subst hr
        obtain hend | hsame := hcut _ (skipRound_leave hround).2.1
        · exact .inr hend
        · exact .inl (loop_leave (hsame.trans hround))
    | next s' =>
        have hrest := (loop_next (falling_skip file hfit) hs hround).symm.trans hrun
        obtain hend | hsame := hcut _ (skipRound_next hround).2.1
        · exact .inr hend
        · have hnext := hsame.trans hround
          rw [skipFrom, loop_next (falling_skip file hfitp) hs hnext]
          exact ih s' hnext hrest

end Cut

end Mandelbot.Types
