import CqlWire.Lz4.Expand
import CqlWire.Proofs.Lz4.Retells

/-!
This module contains why a block expands to the input that it was made of: expanding the bytes of a
sequence goes on from the position in front of it to the one behind it.
-/

namespace CqlWire

namespace Lz4

variable {input : Array UInt8}

theorem copyBack_extract {offset position : Nat} (n : Nat) (hpos : 0 < offset)
    (hoffset : offset ≤ position) (hsize : position + n ≤ input.size)
    (hrepeats : Repeats input offset position n) :
    copyBack offset n (input.extract 0 position) = input.extract 0 (position + n) := by
  -- A copy may take in bytes that it has just written, so it is followed byte by byte.
  induction n generalizing position with
  | zero => rfl
  | succ n ih =>
    have hbyte : (input.extract 0 position).getD (position - offset) 0 = input.getD position 0 := by
      have := hrepeats 0 (by omega)
      rw [Nat.add_zero] at this
      rw [this]
      rw [Array.getD_eq_getD_getElem?, Array.getD_eq_getD_getElem?]
      rw [Array.getElem?_extract]
      rw [Nat.zero_add]
      rw [if_pos (by omega)]
    rw [copyBack]
    rw [Array.size_extract_of_le (by omega)]
    rw [Nat.sub_zero]
    rw [hbyte]
    have hpush : (input.extract 0 position).push (input.getD position 0)
        = input.extract 0 (position + 1) := by
      rw [Array.extract_succ_right (by omega) (by omega)]
      rw [Array.getD_eq_getD_getElem?]
      rw [Array.getElem?_eq_getElem]
      rfl
    rw [hpush]
    rw [ih (by omega) (by omega)]
    · congr 1
      omega
    · intro k hk
      have := hrepeats (k + 1) (by omega)
      rw [show position + 1 + k = position + (k + 1) by omega]
      exact this

theorem lengthOf.go_overflow (length count last : Nat) (hlast : last < 255) (rest : Bytes) :
    lengthOf.go length (List.replicate count 255 ++ UInt8.ofNat last :: rest)
      =
    some (length + 255 * count + last, rest) := by
  induction count generalizing length with
  | zero =>
    have hlastNat : (UInt8.ofNat last).toNat = last := by
      rw [UInt8.toNat_ofNat']
      omega
    have hne : UInt8.ofNat last ≠ 255 := by
      intro heq
      rw [heq] at hlastNat
      change 255 = last at hlastNat
      omega
    rw [List.replicate_zero, List.nil_append]
    rw [go]
    rw [if_neg hne]
    rw [hlastNat]
    rfl
  | succ count ih =>
    rw [List.replicate_succ, List.cons_append]
    rw [go]
    rw [if_pos rfl]
    rw [ih]
    congr 2
    omega

theorem lengthOf_nibble (length : Nat) (rest : Bytes) :
    lengthOf (nibble length) (overflow length ++ rest) = some (length, rest) := by
  unfold lengthOf nibble overflow
  by_cases hlt : length < 15
  · rw [if_pos hlt]
    rw [if_neg (by omega)]
    rw [Nat.min_eq_left (by omega)]
    rfl
  · rw [if_neg hlt]
    rw [if_pos (by omega)]
    rw [List.append_assoc, List.singleton_append]
    rw [lengthOf.go_overflow _ _ _ (by omega)]
    congr 2
    omega

theorem toNat_token (literals copied : Nat) :
    (token literals copied).toNat = nibble literals * 16 + nibble copied := by
  unfold token nibble
  rw [UInt8.toNat_ofNat']
  omega

theorem token_div (literals copied : Nat) :
    (token literals copied).toNat / 16 = nibble literals := by
  rw [toNat_token]
  unfold nibble
  omega

theorem token_mod (literals copied : Nat) :
    (token literals copied).toNat % 16 = nibble copied := by
  rw [toNat_token]
  unfold nibble
  omega

theorem expand.go_last {capacity : Nat} {out : Array UInt8} {literals : Bytes}
    (hcapacity : out.size + literals.length ≤ capacity) :
    expand.go capacity (renderLast literals) out = .ok (out ++ literals) := by
  have hlength := lengthOf_nibble literals.length literals
  rw [← token_div literals.length 0] at hlength
  have hsplit := Bytes.split?_append literals []
  rw [List.append_nil] at hsplit
  rw [renderLast]
  rw [go]
  split
  · next h => simp [hlength] at h
  · next h =>
    simp only [hlength, Option.some.injEq, Prod.mk.injEq] at h
    obtain ⟨rfl, rfl⟩ := h
    split
    · next h => simp [hsplit] at h
    · next h =>
      simp only [hsplit, Option.some.injEq, Prod.mk.injEq] at h
      obtain ⟨rfl, rfl⟩ := h
      rw [if_neg (by omega)]

theorem extract_append_toList {start stop : Nat} (hle : start ≤ stop) :
    input.extract 0 start ++ (input.extract start stop).toList = input.extract 0 stop := by
  apply Array.ext'
  rw [Array.toList_appendList]
  rw [← Array.toList_append]
  rw [Array.extract_append_extract]
  rw [Nat.zero_min]
  rw [Nat.max_eq_right hle]

theorem expand.go_step {capacity copied : Nat} {out : Array UInt8} {literals back : Bytes}
    {low high : UInt8}
    (hpos : 0 < Bytes.ofLittleEndian [low, high])
    (hoffset : Bytes.ofLittleEndian [low, high] ≤ out.size + literals.length)
    (hcapacity : out.size + literals.length + (minCopy + copied) ≤ capacity) :
    expand.go capacity
      (token literals.length copied
        :: (overflow literals.length ++ (literals ++ low :: high :: (overflow copied ++ back)))) out
      =
    expand.go capacity back
      (copyBack (Bytes.ofLittleEndian [low, high]) (minCopy + copied) (out ++ literals)) := by
  have hlength := lengthOf_nibble literals.length
    (literals ++ low :: high :: (overflow copied ++ back))
  rw [← token_div literals.length copied] at hlength
  have hsplit := Bytes.split?_append literals (low :: high :: (overflow copied ++ back))
  have hcopied := lengthOf_nibble copied back
  rw [← token_mod literals.length copied] at hcopied
  have hsize : (out ++ literals).size = out.size + literals.length := by
    rw [← Array.length_toList, Array.toList_appendList, List.length_append, Array.length_toList]
  rw [go]
  split
  · next h => simp [hlength] at h
  · next h =>
    simp only [hlength, Option.some.injEq, Prod.mk.injEq] at h
    obtain ⟨rfl, rfl⟩ := h
    split
    · next h => simp [hsplit] at h
    · next h =>
      simp only [hsplit, Option.some.injEq, Prod.mk.injEq] at h
      obtain ⟨rfl, rfl⟩ := h
      rw [if_neg (by omega)]
      dsimp only
      rw [if_neg (by omega)]
      split
      · next h => simp [hcopied] at h
      · next h =>
        simp only [hcopied, Option.some.injEq, Prod.mk.injEq] at h
        obtain ⟨rfl, rfl⟩ := h
        rw [if_neg (by omega)]
        rw [if_neg (by omega)]

theorem expand.go_sequence {start : Nat} {sequence : Sequence} (hfits : sequence.Fits input start)
    (rest : Bytes) :
    expand.go input.size (sequence.render ++ rest) (input.extract 0 start)
      =
    expand.go input.size rest
      (input.extract 0 (start + sequence.literals.length + sequence.length)) := by
  have hend := hfits.end_le
  have hlength := hfits.minCopy_le
  have hmax := hfits.offset_le_maxOffset
  have hpos := hfits.offset_pos
  have hle := hfits.offset_le
  have hsize : (input.extract 0 start).size = start := by
    rw [Array.size_extract_of_le (by omega)]
    rfl
  have hliterals : input.extract 0 start ++ sequence.literals
      = input.extract 0 (start + sequence.literals.length) := by
    rw [← extract_append_toList (Nat.le_add_right start sequence.literals.length)]
    rw [← hfits.literals_eq]
  obtain ⟨low, high, hbytes⟩ : ∃ low high, Bytes.littleEndian 2 sequence.offset = [low, high] :=
    ⟨_, _, rfl⟩
  have hoffset : Bytes.ofLittleEndian [low, high] = sequence.offset := by
    rw [← hbytes]
    rw [Bytes.ofLittleEndian_littleEndian]
    apply Nat.mod_eq_of_lt
    simp only [maxOffset, Bytes.valueCount] at *
    omega
  have hrender : sequence.render ++ rest
      = token sequence.literals.length (sequence.length - minCopy)
        :: (overflow sequence.literals.length
          ++ (sequence.literals
            ++ low :: high :: (overflow (sequence.length - minCopy) ++ rest))) := by
    simp [Sequence.render, hbytes]
  rw [hrender]
  rw [expand.go_step (by omega) (by omega) (by omega)]
  rw [hliterals]
  rw [hoffset]
  rw [Nat.add_sub_cancel' hlength]
  rw [copyBack_extract _ hpos hle hend hfits.repeats]

theorem expand.go_retells {start stop : Nat} {sequences : List Sequence}
    (h : Retells input start sequences stop) (rest : Bytes) :
    expand.go input.size (sequences.flatMap Sequence.render ++ rest) (input.extract 0 start)
      =
    expand.go input.size rest (input.extract 0 stop) := by
  induction h with
  | nil hle => rfl
  | cons hfits _ ih =>
    rw [List.flatMap_cons]
    rw [List.append_assoc]
    rw [expand.go_sequence hfits]
    rw [ih]

theorem expand_compress (bytes : Bytes) : expand bytes.length (compress bytes) = .ok bytes := by
  have hretells := sequencesOf_retells bytes.toArray
  have hgo := expand.go_retells hretells
    (renderLast (bytes.toArray.extract (sequencesOf bytes.toArray).2 bytes.toArray.size).toList)
  rw [expand.go_last] at hgo
  · rw [extract_append_toList hretells.stop_le] at hgo
    rw [Array.extract_eq_self_of_le (Nat.le_refl _)] at hgo
    rw [Array.extract_zero] at hgo
    unfold expand compress Block.render Block.ofInput
    rw [List.size_toArray] at hgo
    dsimp only
    rw [List.size_toArray]
    rw [hgo]
    rfl
  · simp only [Array.size_extract, Array.length_toList]
    have := hretells.stop_le
    omega

end Lz4

end CqlWire
