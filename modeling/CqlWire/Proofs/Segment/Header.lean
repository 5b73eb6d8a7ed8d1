import CqlWire.Proofs.Segment
import Mathlib.Data.Nat.Bitwise

/-!
This module contains that segment headers lose nothing: one that is written is read as it was, and
one that is read is written as it was, but for the bits of its data that stand for nothing.
-/

namespace CqlWire

namespace SegmentHeader

/-- What a reader learns of a header: there is an expanded length exactly with compression. -/
def carriedBy (compressor : Compressor) (header : SegmentHeader) : SegmentHeader :=
  { header with
    expandedLength := if compressor.isNone then none else some (header.expandedLength.getD 0) }

/-- The bit that tells whether there are whole frames. The bits above it are padding. -/
def flagBit (compressor : Compressor) : Nat :=
  if compressor.isNone then 17 else 34

variable {compressor : Compressor} {header : SegmentHeader} {src : Bytes}

theorem encode_carriedBy (compressor : Compressor) (header : SegmentHeader) :
    (header.carriedBy compressor).encode compressor = header.encode compressor := by
  have hpack : (header.carriedBy compressor).pack compressor = header.pack compressor := by
    unfold pack carriedBy
    cases compressor.isNone <;> rfl
  unfold encode
  rw [hpack]

theorem fits_carriedBy (hpayload : header.payloadLength < lengthRange)
    (hexpanded : ∀ length ∈ header.expandedLength, length < lengthRange) :
    (header.carriedBy compressor).Fits compressor where
  payloadLength_lt := hpayload
  expandedLength_eq h := if_pos h
  expandedLength_lt h := by
    refine ⟨header.expandedLength.getD 0, ?_, ?_⟩
    · unfold carriedBy
      rw [if_neg (by rw [h]; exact Bool.false_ne_true)]
    · cases hlength : header.expandedLength with
      | none => decide
      | some length => exact hexpanded length hlength

theorem carriedBy_eq_self (h : header.expandedLength.isSome = !compressor.isNone) :
    header.carriedBy compressor = header := by
  obtain ⟨payloadLength, expandedLength, selfContained⟩ := header
  unfold carriedBy
  cases hisNone : compressor.isNone with
  | true =>
    rw [hisNone] at h
    have hexpanded : expandedLength = none :=
      Option.isNone_iff_eq_none.1 (Option.isSome_eq_false_iff.1 h)
    subst hexpanded
    rfl
  | false =>
    rw [hisNone] at h
    obtain ⟨length, rfl⟩ := Option.isSome_iff_exists.1 h
    rfl

theorem Fits.expandedLength_lt_of_mem (h : header.Fits compressor) :
    ∀ length ∈ header.expandedLength, length < lengthRange := by
  intro length hlength
  cases hisNone : compressor.isNone with
  | true =>
    rw [h.expandedLength_eq hisNone] at hlength
    cases hlength
  | false =>
    obtain ⟨length', hlength', hlt⟩ := h.expandedLength_lt hisNone
    rw [hlength'] at hlength
    cases hlength
    exact hlt

theorem Fits.isSome_expandedLength (h : header.Fits compressor) :
    header.expandedLength.isSome = !compressor.isNone := by
  cases hisNone : compressor.isNone with
  | true =>
    rw [h.expandedLength_eq hisNone]
    rfl
  | false =>
    obtain ⟨length, hlength, _⟩ := h.expandedLength_lt hisNone
    rw [hlength]
    rfl

theorem pack_unpack (compressor : Compressor) (data : Nat) :
    (unpack compressor data).pack compressor = data % 2 ^ (flagBit compressor + 1) := by
  have hrange : lengthRange = 131072 := rfl
  unfold pack unpack flagBit
  rw [hrange]
  cases compressor.isNone with
  | true =>
    simp only [if_true, decide_eq_true_eq]
    split <;> omega
  | false =>
    simp only [Bool.false_eq_true, if_false, Option.getD_some, decide_eq_true_eq]
    split <;> omega

theorem dataOf_lt (h : size compressor ≤ src.length) :
    dataOf compressor src < Bytes.valueCount (dataSize compressor) := by
  have hlt := Bytes.ofLittleEndian_lt (src.take (dataSize compressor))
  rw [(length_of_size_le h).1] at hlt
  exact hlt

theorem encode_unpack_eq_iff (h : size compressor ≤ src.length)
    (hsum : checksumOf compressor src
      = (crc24 (dataOf compressor src) (dataSize compressor)).toNat) :
    (unpack compressor (dataOf compressor src)).encode compressor = src.take (size compressor)
      ↔
    dataOf compressor src < 2 ^ (flagBit compressor + 1) := by
  rw [take_size_eq h]
  unfold encode
  rw [pack_unpack]
  constructor
  · intro heq
    have hdata := (List.append_inj heq (by
      rw [Bytes.length_littleEndian, Bytes.length_littleEndian])).1
    have hvalue := congrArg Bytes.ofLittleEndian hdata
    rw [Bytes.ofLittleEndian_littleEndian, Bytes.ofLittleEndian_littleEndian] at hvalue
    rw [Nat.mod_eq_of_lt (dataOf_lt h)] at hvalue
    -- What is written has nothing in its padding.
    calc dataOf compressor src
      _ = dataOf compressor src % 2 ^ (flagBit compressor + 1)
          % Bytes.valueCount (dataSize compressor) := hvalue.symm
      _ ≤ dataOf compressor src % 2 ^ (flagBit compressor + 1) := Nat.mod_le _ _
      _ < 2 ^ (flagBit compressor + 1) := Nat.mod_lt _ (Nat.two_pow_pos _)
  · intro hlt
    rw [Nat.mod_eq_of_lt hlt]
    rw [hsum]

theorem dataOf_lt_iff :
    dataOf compressor src < 2 ^ (flagBit compressor + 1)
      ↔
    ∀ i > flagBit compressor, (dataOf compressor src).testBit i = false := by
  constructor
  · intro hlt i hi
    apply Nat.testBit_lt_two_pow
    apply Nat.lt_of_lt_of_le hlt
    exact Nat.pow_le_pow_right (by decide) hi
  · intro hzero
    exact Nat.lt_pow_two_of_testBit _ hzero

/--
Headers are written and read without loss. A header is read as it was written, and bytes that are
long enough are a header exactly if their checksum is right, and then the one that is written as
these bytes if there is nothing in its padding.
-/
theorem read_exact (compressor : Compressor) :
    (∀ header : SegmentHeader, header.payloadLength < 2 ^ 17 →
      (∀ length ∈ header.expandedLength, length < 2 ^ 17) →
        (read compressor).Reads (header.encode compressor) (header.carriedBy compressor)
          ∧ (header.expandedLength.isSome = !compressor.isNone →
            header.carriedBy compressor = header))
      ∧ (∀ src : Bytes, dataSize compressor + 3 ≤ src.length →
        ((∃ header, (read compressor src).1 = .ok header)
            ↔
          checksumOf compressor src
            = (crc24 (dataOf compressor src) (dataSize compressor)).toNat)
          ∧ (read compressor src).2 = src.drop (dataSize compressor + 3)
          ∧ (∀ failure, (read compressor src).1 = .error failure →
            failure = .checksum .header (UInt32.ofNat (checksumOf compressor src))
              (crc24 (dataOf compressor src) (dataSize compressor)))
          ∧ ∀ header, (read compressor src).1 = .ok header →
            header.payloadLength < 2 ^ 17
              ∧ (∀ length ∈ header.expandedLength, length < 2 ^ 17)
              ∧ header.expandedLength.isSome = !compressor.isNone
              ∧ (header.encode compressor = src.take (dataSize compressor + 3)
                  ↔
                ∀ i > flagBit compressor, (dataOf compressor src).testBit i = false))
      ∧ ∀ src : Bytes, src.length < dataSize compressor + 3 →
        read compressor src
          =
        (.error (.truncated (dataSize compressor + 3) src.length), src) := by
  refine ⟨?_, ?_, fun src => read_of_lt⟩
  · intro header hpayload hexpanded
    refine ⟨?_, carriedBy_eq_self⟩
    rw [← encode_carriedBy]
    apply reads_encode
    exact fits_carriedBy hpayload hexpanded
  · intro src hle
    refine ⟨?_, ?_, ?_, ?_⟩
    · simp only [read_eq_ok_iff]
      constructor
      · rintro ⟨_, _, hsum, _⟩
        exact hsum
      · intro hsum
        exact ⟨_, hle, hsum, rfl⟩
    · rw [read_of_size_le hle]
      rfl
    · intro failure hfailure
      rw [read_of_size_le hle] at hfailure
      dsimp only at hfailure
      split at hfailure
      · cases hfailure
      · cases hfailure
        rfl
    · intro header hheader
      have hfits := fits_of_read hheader
      obtain ⟨_, hsum, rfl⟩ := read_eq_ok_iff.1 hheader
      refine ⟨hfits.payloadLength_lt, hfits.expandedLength_lt_of_mem,
        hfits.isSome_expandedLength, ?_⟩
      rw [← dataOf_lt_iff]
      exact encode_unpack_eq_iff hle hsum

theorem read_exact_padded :
    let padded := Bytes.littleEndian 3 0x800005
      ++ Bytes.littleEndian 3 (crc24 0x800005 3).toNat
    let header : SegmentHeader := ⟨5, none, false⟩
    read .none padded = (.ok header, [])
      ∧ header.encode .none ≠ padded
      ∧ read .none (padded.take 5) = (.error (.truncated 6 5), padded.take 5) := by
  intro padded header
  have hheader : (read .none padded).1 = .ok header := by decide +kernel
  obtain ⟨_, hlong, hshort⟩ := read_exact .none
  obtain ⟨_, hrest, _, hok⟩ := hlong padded (by decide)
  obtain ⟨_, _, _, hencode⟩ := hok header hheader
  refine ⟨Prod.ext hheader hrest, ?_, hshort (padded.take 5) (by decide)⟩
  intro heq
  have hzero := hencode.1 heq 23 (by decide)
  have hone : (dataOf .none padded).testBit 23 = true := by decide +kernel
  rw [hone] at hzero
  cases hzero

end SegmentHeader

end CqlWire
