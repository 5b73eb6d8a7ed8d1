import CqlWire.Compressor
import CqlWire.Lz4.Repeats
import CqlWire.Proofs.Lz4.Expand

/-!
This module contains LZ4 as a compression of blocks.
-/

namespace CqlWire

def Lz4.blocks : BlockCodec where
  compress := Lz4.compress
  expand := Lz4.expand
  expand_compress := Lz4.expand_compress

def Compressor.lz4 : Compressor := .lz4With Lz4.blocks

end CqlWire
