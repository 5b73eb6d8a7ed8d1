import CqlWire.Bytes

/-!
This module contains LZ4 blocks: sequences of literals and copies, and how they are written.
-/

namespace CqlWire

namespace Lz4

def minCopy : Nat := 4

/-- Some literals, and then `length` bytes that repeat those from `offset` bytes back. -/
structure Sequence where
  literals : Bytes
  offset : Nat
  length : Nat
deriving Repr, DecidableEq

structure Block where
  sequences : List Sequence
  last : Bytes
deriving Repr, DecidableEq

def nibble (length : Nat) : Nat := min length 15

/--
The bytes that hold what is over fifteen of a length: they add up, and less than 255 ends them.
-/
def overflow (length : Nat) : Bytes :=
  if length < 15 then []
  else List.replicate ((length - 15) / 255) 255 ++ [UInt8.ofNat ((length - 15) % 255)]

def token (literals copied : Nat) : UInt8 :=
  UInt8.ofNat (nibble literals * 16 + nibble copied)

def Sequence.render (sequence : Sequence) : Bytes :=
  let copied := sequence.length - minCopy
  token sequence.literals.length copied
    :: (overflow sequence.literals.length
        ++ sequence.literals
        ++ Bytes.littleEndian 2 sequence.offset
        ++ overflow copied)

def renderLast (literals : Bytes) : Bytes :=
  token literals.length 0 :: (overflow literals.length ++ literals)

def Block.render (block : Block) : Bytes :=
  block.sequences.flatMap Sequence.render ++ renderLast block.last

end Lz4

end CqlWire
