import CqlWire.Format
import CqlWire.Version

/-!
This module contains the nine bytes that stand in front of the body of a frame.
-/

namespace CqlWire

inductive HeaderFlag
  | compressed
  | tracing
  | customPayload
  | warning
  | useBeta
deriving Repr, DecidableEq

namespace HeaderFlag

def bit : HeaderFlag → UInt8
  | .compressed => 0x01
  | .tracing => 0x02
  | .customPayload => 0x04
  | .warning => 0x08
  | .useBeta => 0x10

def all : List HeaderFlag := [.compressed, .tracing, .customPayload, .warning, .useBeta]

def bitIf (flag : HeaderFlag) (isSet : Bool) : UInt8 :=
  if isSet then flag.bit else 0

end HeaderFlag

structure FrameHeader where
  version : Version
  isResponse : Bool
  flags : UInt8
  streamId : Int16
  opcode : UInt8
  bodyLength : Int32
deriving Repr, DecidableEq

namespace FrameHeader

def size : Nat := 9

def bodyLengthOffset : Nat := 5

def directionBit : UInt8 := 0x80

def versionBits : UInt8 := 0x7F

def has (header : FrameHeader) (flag : HeaderFlag) : Bool :=
  header.flags &&& flag.bit ≠ 0

def firstByte (header : FrameHeader) : UInt8 :=
  (if header.isResponse then directionBit else 0) ||| (header.version &&& versionBits)

def encode (header : FrameHeader) : Bytes :=
  header.firstByte :: header.flags
    :: (Bytes.bigEndian 2 header.streamId.toUInt16.toNat
        ++ header.opcode
        :: Bytes.bigEndian 4 header.bodyLength.toUInt32.toNat)

def writeOver (header : FrameHeader) (bytes : Bytes) : Bytes :=
  header.encode ++ bytes.drop size

def decode? : Bytes → Option FrameHeader
  | first :: flags :: s₀ :: s₁ :: opcode :: b₀ :: b₁ :: b₂ :: b₃ :: _ =>
    some {
      version := first &&& versionBits
      isResponse := first &&& directionBit ≠ 0
      flags := flags
      streamId := Int16.ofNat (Bytes.ofBigEndian [s₀, s₁])
      opcode := opcode
      bodyLength := Int32.ofNat (Bytes.ofBigEndian [b₀, b₁, b₂, b₃])
    }
  | _ => none

def declaredLength? (bytes : Bytes) : Option Int32 :=
  match Bytes.split? 4 (bytes.drop bodyLengthOffset) with
  | some (length, _) => some (Int32.ofNat (Bytes.ofBigEndian length))
  | none => none

def frameLength? (bytes : Bytes) : Option (Except Failure Nat) :=
  (declaredLength? bytes).map fun length =>
    if length < 0 then
      .error (.protocol (.negativeFrameBody length))
    else
      .ok (size + length.toNatClampNeg)

theorem declaredLength?_eq_none_iff {bytes : Bytes} :
    declaredLength? bytes = none ↔ bytes.length < size := by
  unfold declaredLength?
  have : Bytes.split? 4 (bytes.drop bodyLengthOffset) = none ↔ _ := Bytes.split?_eq_none_iff
  simp only [List.length_drop, bodyLengthOffset, size] at *
  split
  · next h =>
    rw [h] at this
    simp only [reduceCtorEq, false_iff] at *
    omega
  · next h =>
    rw [h] at this
    simp only [true_iff] at *
    omega

theorem size_le_of_declaredLength? {bytes : Bytes} {length : Int32}
    (h : declaredLength? bytes = some length) : size ≤ bytes.length := by
  apply Nat.le_of_not_lt
  rw [← declaredLength?_eq_none_iff]
  simp [h]

theorem declaredLength?_append {bytes : Bytes} (h : size ≤ bytes.length) (more : Bytes) :
    declaredLength? (bytes ++ more) = declaredLength? bytes := by
  unfold declaredLength?
  simp only [size, bodyLengthOffset] at *
  rw [List.drop_append_of_le_length (by omega)]
  cases hsplit : Bytes.split? 4 (bytes.drop 5) with
  | none =>
    rw [Bytes.split?_eq_none_iff] at hsplit
    simp only [List.length_drop] at hsplit
    omega
  | some parts => rw [Bytes.split?_append_of_some hsplit]

theorem frameLength?_append {bytes : Bytes} (h : size ≤ bytes.length) (more : Bytes) :
    frameLength? (bytes ++ more) = frameLength? bytes := by
  unfold frameLength?
  rw [declaredLength?_append h]

theorem frameLength?_eq_none_iff {bytes : Bytes} :
    frameLength? bytes = none ↔ bytes.length < size := by
  unfold frameLength?
  rw [Option.map_eq_none_iff]
  apply declaredLength?_eq_none_iff

theorem length_encode (header : FrameHeader) : header.encode.length = size := by
  simp [encode, size]

theorem drop_encode_append (header : FrameHeader) (rest : Bytes) :
    (header.encode ++ rest).drop size = rest :=
  List.drop_left' header.length_encode

theorem decode?_encode_append_eq (header : FrameHeader) (rest : Bytes) :
    decode? (header.encode ++ rest)
      =
    some {
      version := header.firstByte &&& versionBits
      isResponse := header.firstByte &&& directionBit ≠ 0
      flags := header.flags
      streamId :=
        Int16.ofNat (Bytes.ofBigEndian (Bytes.bigEndian 2 header.streamId.toUInt16.toNat))
      opcode := header.opcode
      bodyLength :=
        Int32.ofNat (Bytes.ofBigEndian (Bytes.bigEndian 4 header.bodyLength.toUInt32.toNat))
    } := rfl

theorem declaredLength?_encode_append (header : FrameHeader) (rest : Bytes) :
    declaredLength? (header.encode ++ rest) = some header.bodyLength := by
  have hdeclared : declaredLength? (header.encode ++ rest)
      = some (Int32.ofNat
          (Bytes.ofBigEndian (Bytes.bigEndian 4 header.bodyLength.toUInt32.toNat))) := rfl
  have hlt : header.bodyLength.toUInt32.toNat < Bytes.valueCount 4 :=
    header.bodyLength.toUInt32.toNat_lt
  rw [hdeclared]
  rw [Bytes.ofBigEndian_bigEndian]
  rw [Nat.mod_eq_of_lt hlt]
  congr 1
  exact Int32.ofNat_bitVecToNat header.bodyLength.toBitVec

theorem firstByte_and (header : FrameHeader) (mask : UInt8) :
    header.firstByte &&& mask
      =
    (if header.isResponse then directionBit else 0) &&& mask
      ||| header.version &&& (versionBits &&& mask) := by
  unfold firstByte
  apply UInt8.toNat_inj.1
  simp only [UInt8.toNat_and, UInt8.toNat_or]
  rw [Nat.and_or_distrib_right]
  rw [Nat.and_assoc]

theorem firstByte_and_versionBits (header : FrameHeader) :
    header.firstByte &&& versionBits = header.version &&& versionBits := by
  have hdirection : (if header.isResponse then directionBit else 0) &&& versionBits = 0 := by
    cases header.isResponse <;> decide
  have hversion : versionBits &&& versionBits = versionBits := by decide
  rw [firstByte_and]
  rw [hdirection, hversion]
  apply UInt8.zero_or

theorem firstByte_and_directionBit (header : FrameHeader) :
    header.firstByte &&& directionBit = if header.isResponse then directionBit else 0 := by
  have hdirection : (if header.isResponse then directionBit else 0) &&& directionBit
      = if header.isResponse then directionBit else 0 := by
    cases header.isResponse <;> decide
  have hversion : versionBits &&& directionBit = 0 := by decide
  rw [firstByte_and]
  rw [hdirection, hversion]
  rw [UInt8.and_zero, UInt8.or_zero]

theorem decode?_encode_append_masked (header : FrameHeader) (rest : Bytes) :
    decode? (header.encode ++ rest)
      =
    some { header with version := header.version &&& versionBits } := by
  have hstreamId : header.streamId.toUInt16.toNat < Bytes.valueCount 2 :=
    header.streamId.toUInt16.toNat_lt
  have hlength : header.bodyLength.toUInt32.toNat < Bytes.valueCount 4 :=
    header.bodyLength.toUInt32.toNat_lt
  rw [decode?_encode_append_eq]
  rw [firstByte_and_versionBits]
  rw [firstByte_and_directionBit]
  rw [Bytes.ofBigEndian_bigEndian, Bytes.ofBigEndian_bigEndian]
  rw [Nat.mod_eq_of_lt hstreamId]
  rw [Nat.mod_eq_of_lt hlength]
  obtain ⟨version, isResponse, flags, streamId, opcode, bodyLength⟩ := header
  congr
  · cases isResponse <;> rfl
  · exact Int16.ofNat_bitVecToNat streamId.toBitVec
  · exact Int32.ofNat_bitVecToNat bodyLength.toBitVec

theorem decode?_encode_append {header : FrameHeader}
    (h : header.version &&& versionBits = header.version) (rest : Bytes) :
    decode? (header.encode ++ rest) = some header := by
  rw [decode?_encode_append_masked]
  rw [h]

theorem encode_masked (header : FrameHeader) :
    ({ header with version := header.version &&& versionBits } : FrameHeader).encode
      =
    header.encode := by
  unfold encode firstByte
  rw [UInt8.and_assoc, UInt8.and_self]

end FrameHeader

end CqlWire
