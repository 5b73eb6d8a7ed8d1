import CqlWire.Text.Hex
import CqlWire.Text.Utf8

/-!
This module contains the causes for which reading or writing fails, and their wording.
-/

namespace CqlWire

inductive ValueKind
  | string
  | longString
  | bytes
  | stringList
  | stringMap
  | stringMultimap
  | bytesMap
deriving Repr, DecidableEq

def ValueKind.name : ValueKind → String
  | .string => "string"
  | .longString => "long string"
  | .bytes => "bytes"
  | .stringList => "string list"
  | .stringMap => "string map"
  | .stringMultimap => "string multimap"
  | .bytesMap => "bytes map"

inductive ProtocolFault
  | notText (fault : Utf8.Fault)
  | negativeLength (kind : ValueKind) (length : Int32)
  | overShort (kind : ValueKind) (length : Nat)
  | overInt (kind : ValueKind) (length : Nat)
  | foreignMessage (codec message : UInt8)
  | responseAsRequest (opcode : UInt8)
  | requestAsResponse (opcode : UInt8)
  | customPayload (version : UInt8)
  | warnings (version : UInt8)
  | bodyTooLong (length : Nat)
  | bodySize (opcode : UInt8) (written expected : Nat)
  | negativeBody (length : Int32)
  | bodyLength (declared actual : Nat)
  | negativeFrameBody (length : Int32)
  | frameBodyOverLimit (length limit : Nat)
  | segmentPayloadOverLimit (length limit : Nat)
  | segmentBody (expected actual : Nat)
  | insideSlicedFrame (pending : Nat)
  | endsInFrameHeader (left : Nat)
  | endsInFrame (needed left : Nat)
  | slicesOverrun (declared excess : Nat)
  | packingLimit (most limit : Nat)
  | unsegmented (version : UInt8)
  | stateParts (parts expected : Nat)
  | settingsLimit (most limit : Nat)
  | refused (reason : String)
deriving Repr, DecidableEq

private def opcodeText (opcode : UInt8) : String :=
  s!"0x{Hex.upper 2 opcode.toNat}"

def ProtocolFault.message : ProtocolFault → String
  | .notText fault => s!"invalid UTF-8 in string: {fault.message}"
  | .negativeLength kind length => s!"negative {kind.name} length {length.toInt}"
  | .overShort kind length => s!"{kind.name} length {length} exceeds 65535"
  | .overInt kind length => s!"{kind.name} length {length} exceeds i32::MAX"
  | .foreignMessage codec message =>
    s!"codec for opcode {opcodeText codec} cannot handle message with opcode {opcodeText message}"
  | .responseAsRequest opcode =>
    s!"opcode {opcodeText opcode} is a response and cannot be sent as a request"
  | .requestAsResponse opcode =>
    s!"opcode {opcodeText opcode} is a request and cannot be sent as a response"
  | .customPayload version =>
    s!"custom payload is not supported in protocol v{version.toNat}"
  | .warnings version => s!"warnings are not supported in protocol v{version.toNat}"
  | .bodyTooLong length => s!"frame body of {length} bytes"
  | .bodySize opcode written expected =>
    s!"encoded body of opcode {opcodeText opcode} is {written} bytes, expected {expected}"
  | .negativeBody length => s!"negative body length {length.toInt}"
  | .bodyLength declared actual =>
    s!"declared length in header ({declared}) does not match actual length ({actual})"
  | .negativeFrameBody length => s!"negative frame body length {length.toInt}"
  | .frameBodyOverLimit length limit => s!"frame body length {length} exceeds maximum {limit}"
  | .segmentPayloadOverLimit length limit =>
    s!"segment payload of {length} bytes exceeds maximum {limit}"
  | .segmentBody expected actual =>
    s!"segment payload and trailer should be {expected} bytes, got {actual}"
  | .insideSlicedFrame pending =>
    s!"self-contained segment received with {pending} bytes of a sliced frame pending"
  | .endsInFrameHeader left =>
    s!"self-contained segment ends inside a frame header ({left} bytes left)"
  | .endsInFrame needed left =>
    s!"self-contained segment ends inside a frame: need {needed} bytes, {left} left"
  | .slicesOverrun declared excess =>
    s!"frame slices overrun declared frame length {declared} by {excess} bytes"
  | .packingLimit most limit =>
    s!"segment payload limit must be between 1 and {most}, got {limit}"
  | .unsegmented version => s!"protocol v{version.toNat} does not use segments"
  | .stateParts parts expected => s!"state split into {parts} parts, expected {expected}"
  | .settingsLimit most limit =>
    s!"max_segment_payload_length must be between 1 and {most}, got {limit}"
  | .refused reason => reason

inductive BlockFault
  | missingByte
  | literalsOutOfBounds
  | outputTooSmall (capacity needed : Nat)
  | zeroOffset
  | offsetOutOfBounds
deriving Repr, DecidableEq

def BlockFault.message : BlockFault → String
  | .missingByte => "expected another byte, found none"
  | .literalsOutOfBounds => "literal is out of bounds of the input"
  | .outputTooSmall capacity needed =>
    s!"provided output is too small for the decompressed data, actual {capacity}, expected {needed}"
  | .zeroOffset => "0 is not a valid match offset"
  | .offsetOutOfBounds => "the offset to copy is not contained in the decompressed buffer"

inductive CompressionFault
  | block (fault : BlockFault)
  | wrongLength (produced expected : Nat)
  | tooLong (length : Nat)
  | negativeLength (length : Int32)
  | overLimit (length limit : Nat)
  | refused (reason : String)
deriving Repr, DecidableEq

def CompressionFault.message : CompressionFault → String
  | .block fault => s!"LZ4 decompression failed: {fault.message}"
  | .wrongLength produced expected => s!"LZ4 produced {produced} bytes, expected {expected}"
  | .tooLong length => s!"{length} bytes is too large for LZ4"
  | .negativeLength length => s!"negative uncompressed length {length.toInt}"
  | .overLimit length limit => s!"uncompressed length {length} exceeds {limit}"
  | .refused reason => reason

inductive Direction
  | encode
  | decode
deriving Repr, DecidableEq

def Direction.name : Direction → String
  | .encode => "encode"
  | .decode => "decode"

inductive CheckedPart
  | header
  | payload
deriving Repr, DecidableEq

def CheckedPart.name : CheckedPart → String
  | .header => "header CRC-24"
  | .payload => "payload CRC-32"

inductive Failure
  | protocol (fault : ProtocolFault)
  | noCodec (version opcode : UInt8) (direction : Direction)
  | truncated (needed available : Nat)
  | checksum (target : CheckedPart) (expected actual : UInt32)
  | compression (fault : CompressionFault)
deriving Repr, DecidableEq

namespace Failure

def message : Failure → String
  | .protocol fault => s!"Protocol error: {fault.message}"
  | .noCodec version opcode direction =>
    let name := direction.name
    s!"Unsupported opcode {opcodeText opcode} for protocol version {version.toNat} ({name})"
  | .truncated needed available =>
    s!"Truncated input: needed {needed} bytes, {available} available"
  | .checksum target expected actual =>
    let expected := Hex.lower 6 expected.toNat
    let actual := Hex.lower 6 actual.toNat
    s!"Checksum mismatch in {target.name}: expected 0x{expected}, computed 0x{actual}"
  | .compression fault => s!"Compression error: {fault.message}"

def isChecksum : Failure → Bool
  | .checksum .. => true
  | _ => false

def isProtocol (error : Failure) : Bool :=
  !error.isChecksum

end Failure

theorem exists_of_bind_eq_ok {α β : Type} {result : Except Failure α}
    {next : α → Except Failure β} {b : β} (h : result >>= next = .ok b) :
    ∃ a, result = .ok a ∧ next a = .ok b := by
  cases result with
  | error error => exact absurd h (by simp [bind, Except.bind])
  | ok a => exact ⟨a, rfl, h⟩

theorem mapM_cons_eq_ok_iff {α β : Type} {f : α → Except Failure β} {a : α} {rest : List α}
    {results : List β} :
    (a :: rest).mapM f = .ok results
      ↔
    ∃ b more, f a = .ok b ∧ rest.mapM f = .ok more ∧ results = b :: more := by
  rw [List.mapM_cons]
  constructor
  · intro h
    obtain ⟨b, hb, h⟩ := exists_of_bind_eq_ok h
    obtain ⟨more, hmore, h⟩ := exists_of_bind_eq_ok h
    cases h
    exact ⟨b, more, hb, hmore, rfl⟩
  · rintro ⟨b, more, hb, hmore, rfl⟩
    rw [hb, hmore]
    rfl

end CqlWire
