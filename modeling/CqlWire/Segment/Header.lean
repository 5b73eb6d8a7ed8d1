import CqlWire.Checksum.Crc24
import CqlWire.Compressor

/-!
This module contains segment headers. Their fields are packed into bits, from the lowest: the length
of the payload in 17 bits, with compression its expanded length in as many, and whether it holds
whole frames. Little endian bytes of these bits and their checksum make up the header.
-/

namespace CqlWire

/--
The header of a segment. The expanded length is absent without compression, and zero where a payload
was not compressed since that would not have made it shorter.
-/
structure SegmentHeader where
  payloadLength : Nat
  expandedLength : Option Nat
  selfContained : Bool
deriving Repr, DecidableEq

namespace SegmentHeader

def lengthRange : Nat := 1 <<< 17

def checksumSize : Nat := 3

def dataSize (compressor : Compressor) : Nat :=
  if compressor.isNone then 3 else 5

def size (compressor : Compressor) : Nat :=
  dataSize compressor + checksumSize

def pack (compressor : Compressor) (header : SegmentHeader) : Nat :=
  let flag := if header.selfContained then 1 else 0
  let rest :=
    if compressor.isNone then flag
    else header.expandedLength.getD 0 % lengthRange + lengthRange * flag
  header.payloadLength % lengthRange + lengthRange * rest

def unpack (compressor : Compressor) (data : Nat) : SegmentHeader :=
  let rest := data / lengthRange
  if compressor.isNone then
    ⟨data % lengthRange, none, rest % 2 = 1⟩
  else
    ⟨data % lengthRange, some (rest % lengthRange), rest / lengthRange % 2 = 1⟩

def encode (compressor : Compressor) (header : SegmentHeader) : Bytes :=
  let data := header.pack compressor
  let length := dataSize compressor
  Bytes.littleEndian length data
    ++ Bytes.littleEndian checksumSize (crc24 data length).toNat

def read (compressor : Compressor) : Reader SegmentHeader := do
  let bytes ← Reader.take (size compressor)
  let length := dataSize compressor
  let data := Bytes.ofLittleEndian (bytes.take length)
  let expected := UInt32.ofNat (Bytes.ofLittleEndian (bytes.drop length))
  let actual := crc24 data length
  if expected = actual then
    pure (unpack compressor data)
  else
    -- A header that is damaged is taken all the same.
    Reader.fail (.checksum .header expected actual)

end SegmentHeader

end CqlWire
