import CqlWire.Bytes

/-!
This module contains the checksum of segment payloads: a division by the polynomial of degree 32 in
common use, in which the bits of a byte count from the lowest.
-/

namespace CqlWire

namespace Crc32

def divisor : UInt32 := 0xEDB88320

def shift (register : UInt32) : UInt32 :=
  if register &&& 1 = 0 then register >>> 1 else register >>> 1 ^^^ divisor

def shifts : Nat → UInt32 → UInt32
  | 0, register => register
  | n + 1, register => shifts n (shift register)

def step (register : UInt32) (b : UInt8) : UInt32 :=
  shifts 8 (register ^^^ b.toUInt32)

def checksum (bytes : Bytes) : UInt32 :=
  bytes.foldl step 0xFFFFFFFF ^^^ 0xFFFFFFFF

/-- The bytes that are checked in front of a payload, so that zeros do not sum up to zero. -/
def seed : Bytes := [0xFA, 0x2D, 0x55, 0xCA]

end Crc32

def crc32 (payload : Bytes) : UInt32 :=
  Crc32.checksum (Crc32.seed ++ payload)

end CqlWire
