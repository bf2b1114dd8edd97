import Mandelbot.Library.While
import Mandelbot.Library.Wire

/-!
# The generated message codecs

`Marshal`, `Size` and `Unmarshal` of the module's messages, and `skip` over unknown fields, with
the 64-bit `int` of the target platform and every index of a byte slice checked as Go checks it.
-/

namespace Mandelbot.Types

open Wire (Bytes wireType)

/-- The generated files; each declares error values of its own. -/
inductive PbFile where
  | genesis
  | params
  | query
  deriving DecidableEq

inductive ProtoError where
  | intOverflow (file : PbFile)
  | invalidLength (file : PbFile)
  | unexpectedEndOfGroup (file : PbFile)
  | unexpectedEOF
  | illegalWireType (wireType : ℕ)
  | endGroupForNonGroup (message : String)
  | illegalTag (message : String) (fieldNum : ℤ) (wire : BitVec 64)
  | wrongWireType (wireType : ℕ) (field : String)
  deriving DecidableEq

def ProtoError.text : ProtoError → String
  | .intOverflow _ => "proto: integer overflow"
  | .invalidLength _ => "proto: negative length found during unmarshaling"
  | .unexpectedEndOfGroup _ => "proto: unexpected end of group"
  | .unexpectedEOF => "unexpected EOF"
  | .illegalWireType wireType => s!"proto: illegal wireType {wireType}"
  | .endGroupForNonGroup message => s!"proto: {message}: wiretype end group for non-group"
  | .illegalTag message fieldNum wire =>
      s!"proto: {message}: illegal tag {fieldNum} (wire type {wire.toNat})"
  | .wrongWireType wireType field => s!"proto: wrong wireType = {wireType} for field {field}"

/-- How a call ends otherwise than with its result: an error, a failed bounds check, or never. -/
inductive Failure where
  | err (e : ProtoError)
  | panic
  | unfinished
  deriving DecidableEq

/-- The value of a 64-bit `int` after an addition. -/
def wrapInt (x : ℤ) : ℤ := x.bmod (2 ^ 64)

/-- `int32(wire >> 3)`. -/
def fieldNumber (wire : BitVec 64) : ℤ := ((wire >>> 3).setWidth 32).toInt

/-- `dAtA[i]`. -/
def byteAt (dAtA : Bytes) (i : ℤ) : Except Failure UInt8 :=
  if 0 ≤ i ∧ i < dAtA.length then .ok (dAtA.getD i.toNat 0) else .error .panic

/-- `dAtA[i:j]`. -/
def slice (dAtA : Bytes) (i j : ℤ) : Except Failure Bytes :=
  if 0 ≤ i ∧ i ≤ j ∧ j ≤ dAtA.length then .ok ((dAtA.take j.toNat).drop i.toNat)
  else .error .panic

section Reading

structure VarintState where
  shift : ℕ
  iNdEx : ℤ
  value : BitVec 64

/-- `value |= uint64(b&0x7F) << shift`. -/
def orDigit (value : BitVec 64) (b : UInt8) (shift : ℕ) : BitVec 64 :=
  value ||| (b.toBitVec &&& 0x7f#8).setWidth 64 <<< shift

/-- A round of the loops that read a varint. -/
def varintRound (file : PbFile) (dAtA : Bytes) (s : VarintState) :
    Round VarintState (Except Failure (BitVec 64 × ℤ)) :=
  if 64 ≤ s.shift then .leave (.error (.err (.intOverflow file)))
  else if dAtA.length ≤ s.iNdEx then .leave (.error (.err .unexpectedEOF))
  else
    match byteAt dAtA s.iNdEx with
    | .error e => .leave (.error e)
    | .ok b =>
        if b.toNat < 0x80 then .leave (.ok (orDigit s.value b s.shift, s.iNdEx + 1))
        else .next ⟨s.shift + 7, s.iNdEx + 1, orDigit s.value b s.shift⟩

def readVarint (file : PbFile) (dAtA : Bytes) (iNdEx : ℤ) : Except Failure (BitVec 64 × ℤ) :=
  loop (varintRound file dAtA) (.error .unfinished) (fun s => 70 - s.shift) ⟨0, iNdEx, 0⟩

/-- The value of an unknown varint field is passed over, not assembled. -/
def passRound (file : PbFile) (dAtA : Bytes) (s : ℕ × ℤ) : Round (ℕ × ℤ) (Except Failure ℤ) :=
  if 64 ≤ s.1 then .leave (.error (.err (.intOverflow file)))
  else if dAtA.length ≤ s.2 then .leave (.error (.err .unexpectedEOF))
  else
    match byteAt dAtA s.2 with
    | .error e => .leave (.error e)
    | .ok b => if b.toNat < 0x80 then .leave (.ok (s.2 + 1)) else .next (s.1 + 7, s.2 + 1)

def passVarint (file : PbFile) (dAtA : Bytes) (iNdEx : ℤ) : Except Failure ℤ :=
  loop (passRound file dAtA) (.error .unfinished) (fun s => 70 - s.1) (0, iNdEx)

end Reading

section Skip

/-- The switch of `skip` on the wire type: the index and the depth after it. -/
def skipPayload (file : PbFile) (dAtA : Bytes) (wire : BitVec 64) (iNdEx : ℤ) (depth : ℕ) :
    Except Failure (ℤ × ℕ) :=
  match wireType wire with
  | 0 => do
      let iNdEx ← passVarint file dAtA iNdEx
      return (iNdEx, depth)
  | 1 => .ok (wrapInt (iNdEx + 8), depth)
  | 2 => do
      let (length, iNdEx) ← readVarint file dAtA iNdEx
      if length.toInt < 0 then .error (.err (.invalidLength file))
      else return (wrapInt (iNdEx + length.toInt), depth)
  | 3 => .ok (iNdEx, depth + 1)
  | 4 =>
      if depth = 0 then .error (.err (.unexpectedEndOfGroup file)) else .ok (iNdEx, depth - 1)
  | 5 => .ok (wrapInt (iNdEx + 4), depth)
  | wireType => .error (.err (.illegalWireType wireType))

def skipField (file : PbFile) (dAtA : Bytes) (iNdEx : ℤ) (depth : ℕ) :
    Except Failure (ℤ × ℕ) := do
  let (wire, iNdEx) ← readVarint file dAtA iNdEx
  skipPayload file dAtA wire iNdEx depth

def skipRound (file : PbFile) (dAtA : Bytes) (s : ℤ × ℕ) : Round (ℤ × ℕ) (Except Failure ℤ) :=
  if dAtA.length ≤ s.1 then .leave (.error (.err .unexpectedEOF))
  else
    match skipField file dAtA s.1 s.2 with
    | .error e => .leave (.error e)
    | .ok (iNdEx, depth) =>
        if iNdEx < 0 then .leave (.error (.err (.invalidLength file)))
        else if depth = 0 then .leave (.ok iNdEx)
        else .next (iNdEx, depth)

def skip (file : PbFile) (dAtA : Bytes) : Except Failure ℤ :=
  loop (skipRound file dAtA) (.error .unfinished) (fun s => (dAtA.length - s.1).toNat) (0, 0)

def skipGenesis : Bytes → Except Failure ℤ := skip .genesis

def skipParams : Bytes → Except Failure ℤ := skip .params

def skipQuery : Bytes → Except Failure ℤ := skip .query

end Skip

section Unmarshal

/-- What the generated `Unmarshal` of a message has of its own: the names in its errors and the
cases of its switch, each an embedded message with its own `Unmarshal`. -/
structure Message (σ : Type) where
  file : PbFile
  name : String
  field : ℤ → Option (String × (σ → Bytes → Except Failure σ))

variable {σ : Type}

/-- The case of an embedded message, after its tag. -/
def unmarshalEmbedded (file : PbFile) (merge : σ → Bytes → Except Failure σ) (dAtA : Bytes) (m : σ)
    (iNdEx : ℤ) : Except Failure (σ × ℤ) := do
  let (msglen, iNdEx) ← readVarint file dAtA iNdEx
  if msglen.toInt < 0 then .error (.err (.invalidLength file))
  else if wrapInt (iNdEx + msglen.toInt) < 0 then .error (.err (.invalidLength file))
  else if dAtA.length < wrapInt (iNdEx + msglen.toInt) then .error (.err .unexpectedEOF)
  else
    let bytes ← slice dAtA iNdEx (wrapInt (iNdEx + msglen.toInt))
    let m ← merge m bytes
    return (m, wrapInt (iNdEx + msglen.toInt))

/-- The default case: the field is passed over from its tag on. -/
def unmarshalUnknown (file : PbFile) (dAtA : Bytes) (m : σ) (preIndex : ℤ) :
    Except Failure (σ × ℤ) := do
  let rest ← slice dAtA preIndex dAtA.length
  let skippy ← skip file rest
  if skippy < 0 ∨ wrapInt (preIndex + skippy) < 0 then .error (.err (.invalidLength file))
  else if dAtA.length < wrapInt (preIndex + skippy) then .error (.err .unexpectedEOF)
  else return (m, wrapInt (preIndex + skippy))

/-- What follows a tag: the checks of the tag and the switch on the field number. -/
def unmarshalCase (msg : Message σ) (dAtA : Bytes) (m : σ) (preIndex : ℤ) (wire : BitVec 64)
    (iNdEx : ℤ) : Except Failure (σ × ℤ) :=
  if wireType wire = 4 then .error (.err (.endGroupForNonGroup msg.name))
  else if fieldNumber wire ≤ 0 then
    .error (.err (.illegalTag msg.name (fieldNumber wire) wire))
  else
    match msg.field (fieldNumber wire) with
    | some (name, merge) =>
        if wireType wire ≠ 2 then .error (.err (.wrongWireType (wireType wire) name))
        else unmarshalEmbedded msg.file merge dAtA m iNdEx
    | none => unmarshalUnknown msg.file dAtA m preIndex

def unmarshalField (msg : Message σ) (dAtA : Bytes) (m : σ) (preIndex : ℤ) :
    Except Failure (σ × ℤ) := do
  let (wire, iNdEx) ← readVarint msg.file dAtA preIndex
  unmarshalCase msg dAtA m preIndex wire iNdEx

def unmarshalRound (msg : Message σ) (dAtA : Bytes) (s : σ × ℤ) :
    Round (σ × ℤ) (Except Failure σ) :=
  if dAtA.length ≤ s.2 then
    .leave (if dAtA.length < s.2 then .error (.err .unexpectedEOF) else .ok s.1)
  else
    match unmarshalField msg dAtA s.1 s.2 with
    | .error e => .leave (.error e)
    | .ok s' => .next s'

def unmarshal (msg : Message σ) (m : σ) (dAtA : Bytes) : Except Failure σ :=
  loop (unmarshalRound msg dAtA) (.error .unfinished) (fun s => (dAtA.length - s.2).toNat) (m, 0)

end Unmarshal

section Marshal

/-- `(math_bits.Len64(x|1) + 6) / 7`. -/
def sov (x : BitVec 64) : ℕ := ((x ||| 1).toNat.log2 + 1 + 6) / 7

/-- `dAtA[i] = b`. -/
def setByte (dAtA : Bytes) (i : ℤ) (b : UInt8) : Except Failure Bytes :=
  if 0 ≤ i ∧ i < dAtA.length then .ok (dAtA.set i.toNat b) else .error .panic

/-- A round of the loop that writes a varint. -/
def encodeRound (s : Bytes × ℤ × BitVec 64) :
    Round (Bytes × ℤ × BitVec 64) (Except Failure Bytes) :=
  let (dAtA, offset, v) := s
  if 0x80 ≤ v.toNat then
    match setByte dAtA offset (UInt8.ofBitVec ((v &&& 0x7f ||| 0x80).setWidth 8)) with
    | .error e => .leave (.error e)
    | .ok dAtA => .next (dAtA, offset + 1, v >>> 7)
  else .leave (setByte dAtA offset (UInt8.ofBitVec (v.setWidth 8)))

/-- The buffer and the base of the written varint. -/
def encodeVarint (dAtA : Bytes) (offset : ℤ) (v : BitVec 64) : Except Failure (Bytes × ℤ) := do
  let base := offset - sov v
  let dAtA ← loop encodeRound (.error .unfinished) (fun s => s.2.2.toNat) (dAtA, base, v)
  return (dAtA, base)

/-- `MarshalToSizedBuffer` of a message whose one field, number 1, is an embedded message: the
buffer is filled from its end, and the number of bytes written is returned. -/
def marshalEmbedded (inner : Bytes → Except Failure (Bytes × ℕ)) (dAtA : Bytes) :
    Except Failure (Bytes × ℕ) := do
  let (dAtA, size) ← inner dAtA
  let (dAtA, i) ← encodeVarint dAtA (dAtA.length - size) (BitVec.ofNat 64 size)
  let dAtA ← setByte dAtA (i - 1) 0xa
  return (dAtA, (dAtA.length - (i - 1)).toNat)

def sizeEmbedded (l : ℕ) : ℕ := 1 + l + sov (BitVec.ofNat 64 l)

/-- `Marshal`: a buffer of the message's size, and what was written into it. -/
def marshal (size : ℕ) (marshalToSizedBuffer : Bytes → Except Failure (Bytes × ℕ)) :
    Except Failure Bytes := do
  let (dAtA, n) ← marshalToSizedBuffer (List.replicate size 0)
  slice dAtA 0 n

end Marshal

end Mandelbot.Types
