import CqlWire.Bytes

/-!
This module contains the checksum of segment headers: the remainder of a division by a polynomial of
degree 24, in which the bits of a byte count from the highest.
-/

namespace CqlWire

namespace Crc24

def init : UInt32 := 0x875060

def divisor : UInt32 := 0x1974F0B

def mask : UInt32 := 0xFFFFFF

def shift (register : UInt32) : UInt32 :=
  let register := register <<< 1
  if register &&& 0x1000000 = 0 then register else register ^^^ divisor

def shifts : Nat → UInt32 → UInt32
  | 0, register => register
  | n + 1, register => shifts n (shift register)

def step (register : UInt32) (b : UInt8) : UInt32 :=
  shifts 8 (register ^^^ b.toUInt32 <<< 16)

def checksum (bytes : Bytes) : UInt32 :=
  bytes.foldl step init &&& mask

end Crc24

/-- The checksum of the low `length` bytes of a number, least significant first. -/
def crc24 (value length : Nat) : UInt32 :=
  Crc24.checksum (Bytes.littleEndian length value)

end CqlWire
