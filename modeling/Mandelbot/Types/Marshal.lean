import Mandelbot.Types.Messages

/-!
# Encoding messages

The generated code sizes a buffer first and fills it from its end. Every varint takes the bytes
that were set aside for it and no others, and what `Marshal` writes `Unmarshal` reads.
-/

namespace Mandelbot.Types

open Wire

variable {σ : Type} {dAtA front back body : Bytes} {v : BitVec 64}

section Varint

/-- `sov` counts the digits that the encoder writes. -/
theorem sov_eq (v : BitVec 64) : sov v = (varint v.toNat).length := by
  have hpos := (isDigits_varint v.toNat).length_pos
  have hor : (v ||| 1).toNat = v.toNat ||| 1 := by simp [BitVec.toNat_or]
  have hne : v.toNat ||| 1 ≠ 0 := by
    have hle : 1 ≤ v.toNat ||| 1 := Nat.right_le_or
    omega
  have hle : ∀ k, sov v ≤ k + 1 ↔ (varint v.toNat).length ≤ k + 1 := by
    intro k
    have hlog : sov v ≤ k + 1 ↔ (v.toNat ||| 1).log2 < 7 * (k + 1) := by
      rw [sov, hor]
      omega
    rw [hlog, length_varint_le_iff, Nat.log2_lt hne]
    constructor
    · intro h
      exact Nat.left_le_or.trans_lt h
    · intro h
      exact Nat.or_lt_two_pow h (Nat.one_lt_two_pow (by omega))
  have hsov : 0 < sov v := by
    rw [sov]
    omega
  have h₁ := (hle (sov v - 1)).mp (by omega)
  have h₂ := (hle ((varint v.toNat).length - 1)).mpr (by omega)
  omega

private theorem falling_encode : Falling encodeRound (fun _ => True) fun s => s.2.2.toNat where
  keeps _ _ := trivial
  falls {s s'} _ h := by
    obtain ⟨dAtA, offset, v⟩ := s
    rw [encodeRound] at h
    split at h
    case isFalse => cases h
    rename_i hv
    split at h
    · cases h
    cases h
    change (v >>> 7).toNat < v.toNat
    rw [BitVec.toNat_ushiftRight, Nat.shiftRight_eq_div_pow]
    omega

private theorem setByte_middle {b old : UInt8} {i : ℤ} (h : i = front.length) :
    setByte (front ++ old :: back) i b = .ok (front ++ b :: back) := by
  have hnat : i.toNat = front.length := by omega
  have hlen : (front ++ old :: back).length = front.length + (back.length + 1) := by simp
  rw [setByte, if_pos (by omega), hnat, List.set_append_right _ _ le_rfl, Nat.sub_self]
  rfl

/-- The loop overwrites as many bytes as the number has digits. -/
private theorem encode_loop (v : BitVec 64) (front room back : Bytes) (offset : ℤ)
    (hroom : room.length = (varint v.toNat).length) (hoffset : offset = front.length) :
    loop encodeRound (.error .unfinished) (fun s => s.2.2.toNat)
      (front ++ (room ++ back), offset, v) = .ok (front ++ (varint v.toNat ++ back)) := by
  induction hn : v.toNat using Nat.strongRecOn generalizing v front room offset with
  | ind n ih =>
      subst hn
      obtain ⟨old, room', rfl⟩ : ∃ old room', room = old :: room' := by
        have hpos := (isDigits_varint v.toNat).length_pos
        exact List.exists_cons_of_length_pos (by omega)
      by_cases hv : v.toNat < 128
      · rw [varint_of_lt hv] at hroom ⊢
        obtain rfl : room' = [] := by simpa using hroom
        have hbyte : UInt8.ofBitVec (v.setWidth 8) = UInt8.ofNat v.toNat := by
          apply UInt8.toNat_inj.mp
          rw [UInt8.toNat_ofBitVec, BitVec.toNat_setWidth, UInt8.toNat_ofNat']
        rw [loop_leave (r := .ok (front ++ UInt8.ofNat v.toNat :: back))]
        · rfl
        · rw [encodeRound, if_neg (by omega), hbyte]
          exact congrArg Round.leave (setByte_middle hoffset)
      · have hshift : (v >>> 7).toNat = v.toNat / 128 := by
          rw [BitVec.toNat_ushiftRight, Nat.shiftRight_eq_div_pow]
        have hbyte : UInt8.ofBitVec ((v &&& 0x7f ||| 0x80).setWidth 8) =
            UInt8.ofNat (v.toNat % 128 + 128) := by
          apply UInt8.toNat_inj.mp
          have hand : v.toNat &&& 127 = v.toNat % 128 := Nat.and_two_pow_sub_one_eq_mod v.toNat 7
          have hor : v.toNat % 128 ||| 128 = v.toNat % 128 + 128 := by
            have hsum := Nat.two_pow_add_eq_or_of_lt (i := 7) (b := v.toNat % 128) (by omega) 1
            rw [Nat.or_comm, Nat.add_comm]
            exact hsum.symm
          rw [UInt8.toNat_ofBitVec, BitVec.toNat_setWidth, BitVec.toNat_or, BitVec.toNat_and,
            UInt8.toNat_ofNat']
          change ((v.toNat &&& 127) ||| 128) % 2 ^ 8 = _
          rw [hand, hor]
        rw [varint_of_ge (by omega)] at hroom ⊢
        have hround : encodeRound (front ++ (old :: room' ++ back), offset, v) =
            .next ((front ++ [UInt8.ofNat (v.toNat % 128 + 128)]) ++ (room' ++ back),
              offset + 1, v >>> 7) := by
          have hset : setByte (front ++ (old :: room' ++ back)) offset
              (UInt8.ofBitVec ((v &&& 0x7f ||| 0x80).setWidth 8)) =
              .ok (front ++ UInt8.ofNat (v.toNat % 128 + 128) :: (room' ++ back)) := by
            rw [hbyte]
            exact setByte_middle hoffset
          rw [encodeRound, if_pos (by omega), hset]
          simp
        have hrest := ih (v >>> 7).toNat (by omega) (v >>> 7)
          (front ++ [UInt8.ofNat (v.toNat % 128 + 128)]) room' (offset + 1)
          (by rw [hshift]; simpa using hroom) (by simp [hoffset]) rfl
        rw [loop_next falling_encode trivial hround, hrest, hshift]
        simp

/-- The digits end at the offset; every other byte of the buffer stays as it is. -/
theorem encodeVarint_eq (dAtA : Bytes) (offset : ℕ) (v : BitVec 64) (hroom : sov v ≤ offset)
    (hoffset : offset ≤ dAtA.length) :
    encodeVarint dAtA offset v =
      .ok (dAtA.take (offset - sov v) ++ (varint v.toNat ++ dAtA.drop offset),
        ((offset - sov v : ℕ) : ℤ)) := by
  have hsov := sov_eq v
  have hparts : dAtA = dAtA.take (offset - sov v) ++
      ((dAtA.take offset).drop (offset - sov v) ++ dAtA.drop offset) := by
    have htake : dAtA.take (offset - sov v) = (dAtA.take offset).take (offset - sov v) := by
      rw [List.take_take, Nat.min_eq_left (by omega)]
    rw [htake, ← List.append_assoc, List.take_append_drop, List.take_append_drop]
  have hbase : (offset : ℤ) - sov v = ((offset - sov v : ℕ) : ℤ) := by omega
  have hloop := encode_loop v (dAtA.take (offset - sov v))
    ((dAtA.take offset).drop (offset - sov v)) (dAtA.drop offset) ((offset - sov v : ℕ) : ℤ)
    (by rw [List.length_drop, List.length_take]; omega) (by rw [List.length_take]; omega)
  rw [← hparts] at hloop
  rw [encodeVarint]
  change (loop encodeRound _ _ (dAtA, (offset : ℤ) - sov v, v) >>= _) = _
  rw [hbase, hloop]
  rfl

end Varint

section Embedded

variable {inner : Bytes → Except Failure (Bytes × ℕ)}

/-- The writer puts these bytes at the end of every buffer that has room for them. -/
def Writes (inner : Bytes → Except Failure (Bytes × ℕ)) (body : Bytes) : Prop :=
  ∀ dAtA, body.length ≤ dAtA.length →
    inner dAtA = .ok (dAtA.take (dAtA.length - body.length) ++ body, body.length)

/-- An embedded message under field 1. -/
def embedded (body : Bytes) : Bytes := 0xa :: (varint body.length ++ body)

private theorem sov_length (hbody : Fits body) :
    sov (BitVec.ofNat 64 body.length) = (varint body.length).length ∧
      (BitVec.ofNat 64 body.length).toNat = body.length := by
  have hnat : (BitVec.ofNat 64 body.length).toNat = body.length := by
    rw [BitVec.toNat_ofNat]
    apply Nat.mod_eq_of_lt
    rw [Fits] at hbody
    omega
  rw [sov_eq, hnat]
  exact ⟨rfl, rfl⟩

theorem sizeEmbedded_eq (hbody : Fits body) :
    sizeEmbedded body.length = (embedded body).length := by
  rw [sizeEmbedded, (sov_length hbody).1, embedded, List.length_cons, List.length_append]
  omega

/-- Room for the embedded message, its length and its tag is enough, and all of it is used. -/
theorem writes_marshalEmbedded (hinner : Writes inner body) (hbody : Fits body) :
    Writes (marshalEmbedded inner) (embedded body) := by
  intro dAtA hlen
  obtain ⟨hsov, hnat⟩ := sov_length hbody
  have hsize := sizeEmbedded_eq hbody
  rw [sizeEmbedded, hsov] at hsize
  let i := dAtA.length - body.length
  let k := (varint body.length).length
  have hi : (dAtA.take i).length = i := by
    rw [List.length_take]
    omega
  have hwritten : (dAtA.take i ++ body).length = dAtA.length := by
    rw [List.length_append, hi]
    omega
  have hoffset : ((dAtA.take i ++ body).length : ℤ) - body.length = (i : ℕ) := by omega
  have hencode := encodeVarint_eq (dAtA.take i ++ body) i (BitVec.ofNat 64 body.length)
    (by omega) (by omega)
  rw [hsov, hnat, List.take_append_of_le_length (by omega), List.take_take,
    Nat.min_eq_left (by omega), List.drop_append_of_le_length (by omega),
    List.drop_eq_nil_of_le (by omega), List.nil_append] at hencode
  obtain ⟨old, hold⟩ : ∃ old, dAtA.take (i - k) = dAtA.take (i - k - 1) ++ [old] := by
    have hlt : i - k - 1 < dAtA.length := by omega
    refine ⟨dAtA[i - k - 1], ?_⟩
    have hsucc : i - k = i - k - 1 + 1 := by omega
    rw [List.take_append_getElem, ← hsucc]
  have hset : setByte (dAtA.take (i - k) ++ (varint body.length ++ body)) (((i - k : ℕ) : ℤ) - 1)
      0xa = .ok (dAtA.take (i - k - 1) ++ embedded body) := by
    rw [hold, List.append_assoc, List.singleton_append]
    apply setByte_middle
    rw [List.length_take]
    omega
  have hfront : dAtA.length - (embedded body).length = i - k - 1 := by omega
  have hcount : (((dAtA.take (i - k - 1) ++ embedded body).length : ℤ) -
      (((i - k : ℕ) : ℤ) - 1)).toNat = (embedded body).length := by
    rw [List.length_append, List.length_take]
    omega
  rw [marshalEmbedded, hinner dAtA (by omega)]
  change (encodeVarint (dAtA.take i ++ body) ((dAtA.take i ++ body).length - body.length)
    (BitVec.ofNat 64 body.length) >>= _) = _
  rw [hoffset, hencode]
  change (setByte (dAtA.take (i - k) ++ (varint body.length ++ body)) (((i - k : ℕ) : ℤ) - 1)
    0xa >>= _) = _
  rw [hset, hfront]
  change Except.ok (dAtA.take (i - k - 1) ++ embedded body, _) = _
  rw [hcount]

/-- `Marshal` returns what its writer writes, when its size is right. -/
theorem marshal_eq {size : ℕ} (h : Writes inner body) (hsize : size = body.length) :
    marshal size inner = .ok body := by
  have hlen : (List.replicate size (0 : UInt8)).length = body.length := by
    rw [List.length_replicate, hsize]
  rw [marshal, h _ hlen.ge, hlen, Nat.sub_self, List.take_zero, List.nil_append]
  change slice body 0 body.length = _
  rw [slice_eq_ok le_rfl (by omega) le_rfl, Int.toNat_natCast, List.take_length]
  rfl

/-- An embedded message is handed back to the message around it, whatever that makes of it. -/
theorem unmarshal_embedded {msg : Message σ} {name : String}
    {merge : σ → Bytes → Except Failure σ} (m : σ) (hfield : msg.field 1 = some (name, merge))
    (hfit : Fits (embedded body)) : unmarshal msg m (embedded body) = merge m body := by
  have hlen : (embedded body).length = 1 + ((varint body.length).length + body.length) := by
    rw [embedded, List.length_cons, List.length_append]
    omega
  have hbody : Fits body := by
    rw [Fits] at hfit ⊢
    omega
  have htag : IsVarint [0xa] 10 := by
    have hten := isVarint_varint 10
    rwa [varint_of_lt (by decide)] at hten
  have hds := isVarint_varint (BitVec.ofNat 64 body.length)
  have hint : (body.length : ℤ) = (BitVec.ofNat 64 body.length).toInt := by
    rw [BitVec.toInt_eq_toNat_of_lt, (sov_length hbody).2]
    rw [(sov_length hbody).2]
    rw [Fits] at hbody
    omega
  rw [(sov_length hbody).2] at hds
  have hrest : (embedded body).drop (1 : ℤ).toNat = varint body.length ++ (body ++ []) := by
    rw [List.append_nil]
    rfl
  have hread : readVarint msg.file (embedded body) 0 = .ok (10, 1) :=
    (readVarint_eq_ok le_rfl).mpr ⟨[0xa], _, rfl, htag, rfl⟩
  have hend : (1 : ℤ) + (varint body.length).length + body.length = (embedded body).length := by
    omega
  have hone : unmarshalField msg (embedded body) m 0 = (do
      let m ← merge m body
      return (m, ((embedded body).length : ℤ))) := by
    rw [unmarshalField, hread]
    change unmarshalCase msg (embedded body) m 0 10 1 = _
    rw [unmarshalCase, if_neg (by decide), if_neg (by decide),
      (by decide : fieldNumber 10 = 1), hfield]
    change (if wireType 10 ≠ 2 then _ else _) = _
    rw [if_neg (by decide), unmarshalEmbedded_eq hfit (by omega) (by omega) hrest hds hint, hend]
  have hin : ¬ ((embedded body).length : ℤ) ≤ 0 := by omega
  cases hmerge : merge m body with
  | error e =>
      rw [hmerge] at hone
      apply loop_leave
      rw [unmarshalRound, if_neg hin, hone]
      rfl
  | ok m' =>
      rw [hmerge] at hone
      have hround : unmarshalRound msg (embedded body) (m, 0) =
          .next (m', ((embedded body).length : ℤ)) := by
        rw [unmarshalRound, if_neg hin, hone]
        rfl
      rw [unmarshal, loop_next (falling_unmarshal msg hfit) ⟨le_rfl, by omega⟩ hround]
      apply loop_leave
      rw [unmarshalRound, if_pos le_rfl, if_neg (lt_irrefl _)]

end Embedded

section Messages

def Params.size (_ : Params) : ℕ := 0

def Params.marshalToSizedBuffer (_ : Params) (dAtA : Bytes) : Except Failure (Bytes × ℕ) :=
  .ok (dAtA, 0)

def Params.marshal (m : Params) : Except Failure Bytes :=
  Types.marshal m.size m.marshalToSizedBuffer

def GenesisState.size (m : GenesisState) : ℕ := sizeEmbedded m.params.size

def GenesisState.marshalToSizedBuffer (m : GenesisState) : Bytes → Except Failure (Bytes × ℕ) :=
  marshalEmbedded m.params.marshalToSizedBuffer

def GenesisState.marshal (m : GenesisState) : Except Failure Bytes :=
  Types.marshal m.size m.marshalToSizedBuffer

def QueryParamsRequest.size (_ : QueryParamsRequest) : ℕ := 0

def QueryParamsRequest.marshalToSizedBuffer (_ : QueryParamsRequest) (dAtA : Bytes) :
    Except Failure (Bytes × ℕ) :=
  .ok (dAtA, 0)

def QueryParamsRequest.marshal (m : QueryParamsRequest) : Except Failure Bytes :=
  Types.marshal m.size m.marshalToSizedBuffer

def QueryParamsResponse.size (m : QueryParamsResponse) : ℕ := sizeEmbedded m.params.size

def QueryParamsResponse.marshalToSizedBuffer (m : QueryParamsResponse) :
    Bytes → Except Failure (Bytes × ℕ) :=
  marshalEmbedded m.params.marshalToSizedBuffer

def QueryParamsResponse.marshal (m : QueryParamsResponse) : Except Failure Bytes :=
  Types.marshal m.size m.marshalToSizedBuffer

end Messages

section RoundTrip

variable {inner : Bytes → Except Failure (Bytes × ℕ)}

theorem writes_params (m : Params) : Writes m.marshalToSizedBuffer [] := by
  intro dAtA _
  rw [Params.marshalToSizedBuffer, List.length_nil, Nat.sub_zero, List.take_length,
    List.append_nil]

/-- A message around another, encoded and decoded: whatever the embedded message writes comes back
to it, and the buffer had exactly the size of what was written. -/
theorem unmarshal_marshalEmbedded {msg : Message σ} {name : String}
    {merge : σ → Bytes → Except Failure σ} (m : σ) (hfield : msg.field 1 = some (name, merge))
    (hinner : Writes inner body) (hfit : Fits (embedded body)) :
    ∃ bytes, marshal (sizeEmbedded body.length) (marshalEmbedded inner) = .ok bytes ∧
      bytes.length = sizeEmbedded body.length ∧ unmarshal msg m bytes = merge m body := by
  have hbody : Fits body := by
    have hlen : (embedded body).length = (varint body.length ++ body).length + 1 :=
      List.length_cons
    rw [List.length_append] at hlen
    rw [Fits] at hfit ⊢
    omega
  have hsize := sizeEmbedded_eq hbody
  exact ⟨embedded body, marshal_eq (writes_marshalEmbedded hinner hbody) hsize, hsize.symm,
    unmarshal_embedded m hfield hfit⟩

private theorem fits_embedded_nil : Fits (embedded []) := by
  rw [Fits, embedded, List.length_nil, varint_of_lt (by decide)]
  decide

theorem unmarshal_marshalEmbedded_genesis :
    ∃ bytes, marshal (sizeEmbedded ([] : Bytes).length)
        (marshalEmbedded Params.mk.marshalToSizedBuffer) = .ok bytes ∧
      bytes.length = sizeEmbedded ([] : Bytes).length ∧
      unmarshal genesisStateMessage ⟨⟨⟩⟩ bytes =
        mergeParams GenesisState.params (fun m params => { m with params }) ⟨⟨⟩⟩ [] := by
  have hfield : genesisStateMessage.field 1 =
      some ("Params", mergeParams GenesisState.params fun m params => { m with params }) :=
    rfl
  have h := unmarshal_marshalEmbedded (⟨⟨⟩⟩ : GenesisState) hfield (writes_params ⟨⟩)
    fits_embedded_nil
  exact h

end RoundTrip

end Mandelbot.Types
