import CqlWire.Compressor
import CqlWire.Proofs.Format

/-!
This module contains why compressed bytes expand to the bytes that they were made of.
-/

namespace CqlWire

namespace Compressor

theorem expandBlock_compress (blocks : BlockCodec) (bytes : Bytes) :
    expandBlock blocks (blocks.compress bytes) bytes.length = .ok bytes := by
  unfold expandBlock
  rw [blocks.expand_compress]
  dsimp only
  rw [if_pos rfl]

theorem decompressPayload_compressPayload (compressor : Compressor) (bytes : Bytes) :
    compressor.decompressPayload (compressor.compressPayload bytes) bytes.length = .ok bytes := by
  cases compressor with
  | none => rfl
  | lz4With blocks => apply expandBlock_compress

theorem length_le_of_compress {compressor : Compressor} {bytes compressed : Bytes}
    (hisNone : compressor.isNone = false) (h : compressor.compress bytes = .ok compressed) :
    bytes.length ≤ Format.maxInt := by
  cases compressor with
  | none => simp [isNone] at hisNone
  | lz4With blocks =>
    simp only [compress] at h
    split at h
    · assumption
    · simp at h

theorem decompress_of_compress {compressor : Compressor} {bytes compressed : Bytes}
    (hisNone : compressor.isNone = false) (h : compressor.compress bytes = .ok compressed) :
    compressor.decompress compressed
      =
    if maxExpanded < bytes.length then
      .error (.compression (.overLimit bytes.length maxExpanded))
    else
      .ok bytes := by
  cases compressor with
  | none => simp [isNone] at hisNone
  | lz4With blocks =>
    simp only [compress] at h
    split at h
    · next hle =>
      simp only [Except.ok.injEq] at h
      subst h
      obtain ⟨length, hlength, hneg, hreads⟩ := Format.reads_intLength hle
      have hread := hreads (blocks.compress bytes)
      rw [Format.intWidth] at hread
      simp only [decompress, hread]
      rw [if_neg hneg]
      rw [hlength]
      rw [expandBlock_compress]
    · simp at h

theorem length_of_expandBlock {blocks : BlockCodec} {block expanded : Bytes} {length : Nat}
    (h : expandBlock blocks block length = .ok expanded) : expanded.length = length := by
  unfold expandBlock at h
  split at h
  · cases h
  · split at h
    · next hlength =>
      cases h
      exact hlength
    · cases h

theorem length_le_of_decompress {compressor : Compressor} {bytes expanded : Bytes}
    (h : compressor.decompress bytes = .ok expanded) (hle : bytes.length ≤ Format.maxInt) :
    expanded.length ≤ Format.maxInt := by
  cases compressor with
  | none =>
    cases h
    exact hle
  | lz4With blocks =>
    simp only [decompress] at h
    split at h
    · cases h
    · split at h
      · cases h
      · split at h
        · cases h
        · next hlimit =>
          rw [length_of_expandBlock h]
          apply Nat.le_trans (Nat.le_of_not_lt hlimit)
          decide

end Compressor

end CqlWire
