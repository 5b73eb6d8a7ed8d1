import CqlWire.Checksum.Crc32
import CqlWire.Segment.Header

/-!
This module contains segments: pieces of a stream of frames that travel on their own, between a
header and a checksum.
-/

namespace CqlWire

structure Segment where
  payload : Bytes
  selfContained : Bool
deriving Repr, DecidableEq

structure SegmentParts where
  header : Bytes
  payload : Bytes
  trailer : Bytes
deriving Repr, DecidableEq

namespace SegmentParts

def length (encoded : SegmentParts) : Nat :=
  encoded.header.length + encoded.payload.length + encoded.trailer.length

def toBytes (encoded : SegmentParts) : Bytes :=
  encoded.header ++ encoded.payload ++ encoded.trailer

end SegmentParts

namespace Segment

def maxPayload : Nat := 131071

def trailerSize : Nat := 4

def shrink (compressor : Compressor) (payload : Bytes) : Bytes × Option Nat :=
  if compressor.isNone then (payload, none)
  else
    let compressed := compressor.compressPayload payload
    if compressed.length < payload.length then (compressed, some payload.length)
    else (payload, some 0)

def encode (compressor : Compressor) (segment : Segment) : Except Failure SegmentParts :=
  if segment.payload.length ≤ maxPayload then
    let (payload, expandedLength) := shrink compressor segment.payload
    let header : SegmentHeader := ⟨payload.length, expandedLength, segment.selfContained⟩
    .ok {
      header := header.encode compressor
      payload
      trailer := Bytes.littleEndian trailerSize (crc32 payload).toNat
    }
  else
    .error (.protocol (.segmentPayloadOverLimit segment.payload.length maxPayload))

def expand (compressor : Compressor) (header : SegmentHeader) (payload : Bytes) :
    Except Failure Bytes :=
  match header.expandedLength with
  | none => .ok payload
  | some length =>
    if compressor.isNone || length = 0 then .ok payload
    else compressor.decompressPayload payload length

def decode (compressor : Compressor) (header : SegmentHeader) (body : Bytes) :
    Except Failure Segment :=
  let expectedLength := header.payloadLength + trailerSize
  if body.length ≠ expectedLength then
    .error (.protocol (.segmentBody expectedLength body.length))
  else
    let payload := body.take header.payloadLength
    let expected := UInt32.ofNat (Bytes.ofLittleEndian (body.drop header.payloadLength))
    let actual := crc32 payload
    if expected = actual then do
      let payload ← expand compressor header payload
      .ok ⟨payload, header.selfContained⟩
    else
      .error (.checksum .payload expected actual)

end Segment

end CqlWire
