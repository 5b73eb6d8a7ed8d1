import CqlWire.Format

/-!
This module contains the compressions that two sides can agree on. Each works in two forms: bodies
of frames tell their expanded length themselves, payloads of segments have it in the segment header.
-/

namespace CqlWire

/--
An implementation of a compression of single blocks. A block does not tell how long it was before;
if that is told right when the block is expanded, the bytes come back.
-/
structure BlockCodec where
  compress : Bytes → Bytes
  expand : Nat → Bytes → Except BlockFault Bytes
  expand_compress : ∀ bytes, expand bytes.length (compress bytes) = .ok bytes

inductive Compressor
  | none
  | lz4With (blocks : BlockCodec)

namespace Compressor

def algorithm : Compressor → String
  | .none => ""
  | .lz4With _ => "lz4"

def isNone : Compressor → Bool
  | .none => true
  | .lz4With _ => false

def maxExpanded : Nat := 268435456

def expandBlock (blocks : BlockCodec) (block : Bytes) (length : Nat) : Except Failure Bytes :=
  match blocks.expand length block with
  | .error fault => .error (.compression (.block fault))
  | .ok expanded =>
    if expanded.length = length then
      .ok expanded
    else
      .error (.compression (.wrongLength expanded.length length))

def compress : Compressor → Bytes → Except Failure Bytes
  | .none, bytes => .ok bytes
  | .lz4With blocks, bytes =>
    if bytes.length ≤ Format.maxInt then
      .ok (Bytes.bigEndian 4 bytes.length ++ blocks.compress bytes)
    else
      .error (.compression (.tooLong bytes.length))

def decompress : Compressor → Bytes → Except Failure Bytes
  | .none, bytes => .ok bytes
  | .lz4With blocks, bytes =>
    match Format.i32.read bytes with
    | (.error error, _) => .error error
    | (.ok length, block) =>
      if length < 0 then
        .error (.compression (.negativeLength length))
      else if maxExpanded < length.toNatClampNeg then
        .error (.compression (.overLimit length.toNatClampNeg maxExpanded))
      else
        expandBlock blocks block length.toNatClampNeg

def compressPayload : Compressor → Bytes → Bytes
  | .none, bytes => bytes
  | .lz4With blocks, bytes => blocks.compress bytes

def decompressPayload : Compressor → Bytes → Nat → Except Failure Bytes
  | .none, bytes, _ => .ok bytes
  | .lz4With blocks, bytes, length => expandBlock blocks bytes length

end Compressor

end CqlWire
