import CqlWire.Lz4.Codec
import CqlWire.Proofs.Compressor
import CqlWire.Segment.Basic

/-!
This module contains why a segment is decoded as it was encoded: its header is read as it was
written, and its payload, which travels in the shorter of two forms, is restored by what the header
says about it.
-/

namespace CqlWire

theorem toNat_crc24_lt (value length : Nat) :
    (crc24 value length).toNat < Bytes.valueCount SegmentHeader.checksumSize := by
  unfold crc24 Crc24.checksum
  rw [UInt32.toNat_and]
  have : Crc24.mask.toNat < Bytes.valueCount SegmentHeader.checksumSize := by decide
  apply Nat.lt_of_le_of_lt _ this
  apply Nat.and_le_right

theorem ofNat_ofLittleEndian (width : Nat) (sum : UInt32)
    (h : sum.toNat < Bytes.valueCount width) :
    UInt32.ofNat (Bytes.ofLittleEndian (Bytes.littleEndian width sum.toNat)) = sum := by
  rw [Bytes.ofLittleEndian_littleEndian]
  rw [Nat.mod_eq_of_lt h]
  apply UInt32.ofNat_toNat

namespace SegmentHeader

structure Fits (compressor : Compressor) (header : SegmentHeader) : Prop where
  payloadLength_lt : header.payloadLength < lengthRange
  expandedLength_eq : compressor.isNone = true → header.expandedLength = none
  expandedLength_lt : compressor.isNone = false →
    ∃ length, header.expandedLength = some length ∧ length < lengthRange

theorem pack_lt (compressor : Compressor) (header : SegmentHeader) :
    header.pack compressor < Bytes.valueCount (dataSize compressor) := by
  unfold pack dataSize lengthRange
  cases header.selfContained <;> cases compressor <;>
    simp [Compressor.isNone, Bytes.valueCount] <;> omega

theorem unpack_pack {compressor : Compressor} {header : SegmentHeader}
    (h : header.Fits compressor) : unpack compressor (header.pack compressor) = header := by
  obtain ⟨payloadLength, expandedLength, selfContained⟩ := header
  have hpayload := h.payloadLength_lt
  unfold unpack pack
  cases hisNone : compressor.isNone with
  | true =>
    have hexpanded := h.expandedLength_eq hisNone
    simp only [lengthRange] at *
    subst hexpanded
    cases selfContained <;> simp <;> omega
  | false =>
    obtain ⟨length, hexpanded, hlength⟩ := h.expandedLength_lt hisNone
    simp only [lengthRange] at *
    subst hexpanded
    cases selfContained <;> simp <;> omega

theorem fits_unpack (compressor : Compressor) (data : Nat) :
    (unpack compressor data).Fits compressor := by
  have hpos : 0 < lengthRange := by decide
  unfold unpack
  cases hisNone : compressor.isNone with
  | true =>
    refine ⟨Nat.mod_lt _ hpos, fun _ => rfl, ?_⟩
    intro h
    rw [hisNone] at h
    cases h
  | false =>
    refine ⟨Nat.mod_lt _ hpos, ?_, fun _ => ⟨_, rfl, Nat.mod_lt _ hpos⟩⟩
    intro h
    rw [hisNone] at h
    cases h

def dataOf (compressor : Compressor) (src : Bytes) : Nat :=
  Bytes.ofLittleEndian (src.take (dataSize compressor))

def checksumOf (compressor : Compressor) (src : Bytes) : Nat :=
  Bytes.ofLittleEndian ((src.drop (dataSize compressor)).take checksumSize)

section Read

variable {compressor : Compressor} {src : Bytes}

theorem length_of_size_le (h : size compressor ≤ src.length) :
    (src.take (dataSize compressor)).length = dataSize compressor
      ∧ ((src.drop (dataSize compressor)).take checksumSize).length = checksumSize := by
  unfold size at h
  rw [List.length_take, List.length_take, List.length_drop]
  omega

theorem take_size_eq (h : size compressor ≤ src.length) :
    src.take (size compressor)
      =
    Bytes.littleEndian (dataSize compressor) (dataOf compressor src)
      ++ Bytes.littleEndian checksumSize (checksumOf compressor src) := by
  obtain ⟨hdata, hchecksum⟩ := length_of_size_le h
  have hdataOf := Bytes.littleEndian_ofLittleEndian (src.take (dataSize compressor))
  have hchecksumOf := Bytes.littleEndian_ofLittleEndian
    ((src.drop (dataSize compressor)).take checksumSize)
  rw [hdata] at hdataOf
  rw [hchecksum] at hchecksumOf
  unfold dataOf checksumOf
  rw [hdataOf, hchecksumOf]
  apply List.take_add

theorem ofNat_checksumOf_eq_iff (h : size compressor ≤ src.length) (sum : UInt32) :
    UInt32.ofNat (checksumOf compressor src) = sum ↔ checksumOf compressor src = sum.toNat := by
  have hlt := Bytes.ofLittleEndian_lt ((src.drop (dataSize compressor)).take checksumSize)
  rw [(length_of_size_le h).2] at hlt
  have hlt : checksumOf compressor src < 2 ^ 32 := Nat.lt_trans hlt (by decide)
  rw [← UInt32.toNat_inj]
  rw [UInt32.toNat_ofNat_of_lt' hlt]

/-- Bytes of the length of a header are taken, whatever their checksum. -/
theorem read_of_size_le (h : size compressor ≤ src.length) :
    read compressor src
      =
    (if checksumOf compressor src
        = (crc24 (dataOf compressor src) (dataSize compressor)).toNat then
      .ok (unpack compressor (dataOf compressor src))
    else
      .error (.checksum .header (UInt32.ofNat (checksumOf compressor src))
        (crc24 (dataOf compressor src) (dataSize compressor))),
      src.drop (size compressor)) := by
  have hle : dataSize compressor ≤ size compressor := Nat.le_add_right _ _
  have hdata : (src.take (size compressor)).take (dataSize compressor)
      = src.take (dataSize compressor) := by
    rw [List.take_take]
    rw [Nat.min_eq_left hle]
  have hchecksum : (src.take (size compressor)).drop (dataSize compressor)
      = (src.drop (dataSize compressor)).take checksumSize := by
    rw [List.drop_take]
    unfold size
    rw [Nat.add_sub_cancel_left]
  simp only [← ofNat_checksumOf_eq_iff h]
  unfold read dataOf checksumOf
  rw [Reader.bind_apply]
  rw [Reader.take_apply]
  rw [if_pos h]
  dsimp only
  rw [hdata, hchecksum]
  split <;> rfl

theorem read_of_lt (h : src.length < size compressor) :
    read compressor src = (.error (.truncated (size compressor) src.length), src) := by
  unfold read
  rw [Reader.bind_apply]
  rw [Reader.take_apply]
  rw [if_neg (Nat.not_le_of_lt h)]

theorem read_eq_ok_iff {header : SegmentHeader} :
    (read compressor src).1 = .ok header
      ↔
    size compressor ≤ src.length
      ∧ checksumOf compressor src = (crc24 (dataOf compressor src) (dataSize compressor)).toNat
      ∧ header = unpack compressor (dataOf compressor src) := by
  by_cases h : size compressor ≤ src.length
  · rw [read_of_size_le h]
    rw [and_iff_right h]
    dsimp only
    split
    · next hsum =>
      rw [Except.ok.injEq]
      rw [and_iff_right hsum]
      exact eq_comm
    · next hsum => simp [hsum]
  · rw [read_of_lt (Nat.lt_of_not_le h)]
    simp [h]

end Read

theorem fits_of_read {compressor : Compressor} {src : Bytes} {header : SegmentHeader}
    (h : (read compressor src).1 = .ok header) : header.Fits compressor := by
  obtain ⟨_, _, rfl⟩ := read_eq_ok_iff.1 h
  apply fits_unpack

theorem length_encode (compressor : Compressor) (header : SegmentHeader) :
    (header.encode compressor).length = size compressor := by
  unfold encode size
  dsimp only
  rw [List.length_append, Bytes.length_littleEndian, Bytes.length_littleEndian]

theorem reads_encode {compressor : Compressor} {header : SegmentHeader}
    (h : header.Fits compressor) :
    (read compressor).Reads (header.encode compressor) header := by
  intro rest
  have hdata : dataOf compressor (header.encode compressor ++ rest) = header.pack compressor := by
    unfold dataOf encode
    dsimp only
    rw [List.append_assoc]
    rw [List.take_left' (Bytes.length_littleEndian _ _)]
    rw [Bytes.ofLittleEndian_littleEndian]
    apply Nat.mod_eq_of_lt
    apply pack_lt
  have hchecksum : checksumOf compressor (header.encode compressor ++ rest)
      = (crc24 (header.pack compressor) (dataSize compressor)).toNat := by
    unfold checksumOf encode
    dsimp only
    rw [List.append_assoc]
    rw [List.drop_left' (Bytes.length_littleEndian _ _)]
    rw [List.take_left' (Bytes.length_littleEndian _ _)]
    rw [Bytes.ofLittleEndian_littleEndian]
    apply Nat.mod_eq_of_lt
    apply toNat_crc24_lt
  have hsize : size compressor ≤ (header.encode compressor ++ rest).length := by
    rw [List.length_append, length_encode]
    apply Nat.le_add_right
  rw [read_of_size_le hsize]
  rw [hdata, hchecksum]
  rw [if_pos rfl]
  rw [unpack_pack h]
  rw [← length_encode compressor header, List.drop_left]

end SegmentHeader

namespace Segment

def headerOf (compressor : Compressor) (segment : Segment) : SegmentHeader where
  payloadLength := (shrink compressor segment.payload).1.length
  expandedLength := (shrink compressor segment.payload).2
  selfContained := segment.selfContained

def bodyOf (compressor : Compressor) (segment : Segment) : Bytes :=
  (shrink compressor segment.payload).1
    ++ Bytes.littleEndian trailerSize (crc32 (shrink compressor segment.payload).1).toNat

theorem shrink_of_isNone {compressor : Compressor} (h : compressor.isNone = true)
    (payload : Bytes) : shrink compressor payload = (payload, none) := by
  unfold shrink
  rw [if_pos h]

theorem shrink_of_not_isNone {compressor : Compressor} (h : compressor.isNone = false)
    (payload : Bytes) :
    shrink compressor payload
      =
    if (compressor.compressPayload payload).length < payload.length then
      (compressor.compressPayload payload, some payload.length)
    else (payload, some 0) := by
  unfold shrink
  rw [if_neg (by rw [h]; exact Bool.false_ne_true)]

theorem length_shrink_le (compressor : Compressor) (payload : Bytes) :
    (shrink compressor payload).1.length ≤ payload.length := by
  cases h : compressor.isNone with
  | true =>
    apply Nat.le_of_eq
    rw [shrink_of_isNone h]
  | false =>
    rw [shrink_of_not_isNone h]
    split
    · next hlt => exact Nat.le_of_lt hlt
    · apply Nat.le_refl

theorem expand_shrink (compressor : Compressor) (segment : Segment) :
    expand compressor (headerOf compressor segment) (shrink compressor segment.payload).1
      =
    .ok segment.payload := by
  unfold expand headerOf
  cases h : compressor.isNone with
  | true => rw [shrink_of_isNone h]
  | false =>
    rw [shrink_of_not_isNone h]
    by_cases hlt : (compressor.compressPayload segment.payload).length < segment.payload.length
    · -- A payload that became shorter is not empty, so its length does not stand for itself.
      have hne : segment.payload.length ≠ 0 := by omega
      rw [if_pos hlt]
      simp only [Bool.false_or, decide_eq_true_eq, if_neg hne]
      apply Compressor.decompressPayload_compressPayload
    · rw [if_neg hlt]
      rfl

theorem fits_headerOf (compressor : Compressor) {segment : Segment}
    (hle : segment.payload.length ≤ maxPayload) :
    (headerOf compressor segment).Fits compressor where
  payloadLength_lt := by
    have := length_shrink_le compressor segment.payload
    simp only [headerOf, SegmentHeader.lengthRange, maxPayload] at *
    omega
  expandedLength_eq h := by
    unfold headerOf
    rw [shrink_of_isNone h]
  expandedLength_lt h := by
    unfold headerOf
    rw [shrink_of_not_isNone h]
    simp only [SegmentHeader.lengthRange, maxPayload] at *
    split
    · exact ⟨_, rfl, by omega⟩
    · exact ⟨_, rfl, by omega⟩

def partsOf (compressor : Compressor) (segment : Segment) : SegmentParts where
  header := (headerOf compressor segment).encode compressor
  payload := (shrink compressor segment.payload).1
  trailer := Bytes.littleEndian trailerSize (crc32 (shrink compressor segment.payload).1).toNat

theorem encode_of_le (compressor : Compressor) {segment : Segment}
    (hle : segment.payload.length ≤ maxPayload) :
    segment.encode compressor = .ok (partsOf compressor segment) := by
  unfold encode
  rw [if_pos hle]
  rfl

theorem encode_of_lt (compressor : Compressor) {segment : Segment}
    (hlt : maxPayload < segment.payload.length) :
    segment.encode compressor
      =
    .error (.protocol (.segmentPayloadOverLimit segment.payload.length maxPayload)) := by
  unfold encode
  rw [if_neg (Nat.not_le_of_lt hlt)]

theorem encode_eq (compressor : Compressor) {segment : Segment}
    (hle : segment.payload.length ≤ maxPayload) :
    ∃ parts, segment.encode compressor = .ok parts
      ∧ parts.toBytes
        = (headerOf compressor segment).encode compressor ++ bodyOf compressor segment := by
  refine ⟨_, encode_of_le compressor hle, ?_⟩
  apply List.append_assoc

theorem length_bodyOf (compressor : Compressor) (segment : Segment) :
    (bodyOf compressor segment).length
      =
    (headerOf compressor segment).payloadLength + trailerSize := by
  unfold bodyOf
  rw [List.length_append, Bytes.length_littleEndian]
  rfl

theorem decode_bodyOf (compressor : Compressor) (segment : Segment) :
    decode compressor (headerOf compressor segment) (bodyOf compressor segment) = .ok segment := by
  have htake : (bodyOf compressor segment).take (headerOf compressor segment).payloadLength
      = (shrink compressor segment.payload).1 := List.take_left' rfl
  have hsum : UInt32.ofNat (Bytes.ofLittleEndian
      ((bodyOf compressor segment).drop (headerOf compressor segment).payloadLength))
      = crc32 (shrink compressor segment.payload).1 := by
    unfold bodyOf
    rw [List.drop_left' (show _ = (headerOf compressor segment).payloadLength from rfl)]
    apply ofNat_ofLittleEndian
    exact (crc32 _).toNat_lt
  unfold decode
  dsimp only
  rw [if_neg (by rw [length_bodyOf]; simp)]
  rw [htake, hsum]
  rw [if_pos rfl]
  rw [expand_shrink]
  rfl

theorem expandedLength_headerOf (compressor : Compressor) (segment : Segment) :
    (headerOf compressor segment).expandedLength
      =
    if compressor.isNone then none
    else if (compressor.compressPayload segment.payload).length < segment.payload.length then
      some segment.payload.length
    else some 0 := by
  unfold headerOf
  cases h : compressor.isNone with
  | true =>
    rw [shrink_of_isNone h]
    rfl
  | false =>
    rw [shrink_of_not_isNone h]
    rw [if_neg Bool.false_ne_true]
    split <;> rfl

theorem expandedLength_headerOf_eq_zero_iff (compressor : Compressor) (segment : Segment) :
    (headerOf compressor segment).expandedLength = some 0
      ↔
    compressor.isNone = false
      ∧ segment.payload.length ≤ (compressor.compressPayload segment.payload).length := by
  rw [expandedLength_headerOf]
  cases compressor.isNone with
  | true => simp
  | false =>
    rw [if_neg Bool.false_ne_true]
    -- Nothing is shorter than an empty payload, so its length never stands here.
    split
    · simp only [Option.some.injEq, true_and]
      omega
    · simp only [true_and, true_iff]
      omega

/--
A segment that is not too long is encoded, and reads back as it was: its header from any bytes that
start with it, and the segment from what its header stands in front of.
-/
theorem reads_back_of_encode (compressor : Compressor) (segment : Segment) :
    (segment.payload.length ≤ maxPayload →
      ∃ parts header,
        segment.encode compressor = .ok parts
          ∧ parts.header.length = SegmentHeader.dataSize compressor + 3
          ∧ (SegmentHeader.read compressor).Reads parts.header header
          ∧ header.payloadLength = parts.payload.length
          ∧ header.selfContained = segment.selfContained
          ∧ header.expandedLength
              =
            (if compressor.isNone then none
            else if
              (compressor.compressPayload segment.payload).length < segment.payload.length
            then some segment.payload.length
            else some 0)
          ∧ (header.expandedLength = some 0
              ↔
            compressor.isNone = false
              ∧ segment.payload.length ≤ (compressor.compressPayload segment.payload).length)
          ∧ parts.payload.length ≤ segment.payload.length
          ∧ decode compressor header (parts.payload ++ parts.trailer) = .ok segment)
      ∧ (maxPayload < segment.payload.length →
        segment.encode compressor
          =
        .error (.protocol (.segmentPayloadOverLimit segment.payload.length maxPayload))) := by
  constructor
  · intro hle
    refine ⟨partsOf compressor segment, headerOf compressor segment, ?_⟩
    refine ⟨encode_of_le compressor hle, ?_, ?_, rfl, rfl, ?_, ?_, ?_, ?_⟩
    · apply SegmentHeader.length_encode
    · apply SegmentHeader.reads_encode
      apply fits_headerOf compressor hle
    · apply expandedLength_headerOf
    · apply expandedLength_headerOf_eq_zero_iff
    · apply length_shrink_le
    · apply decode_bodyOf
  · apply encode_of_lt

theorem reads_back_of_encode_zeros :
    let zeros : Segment := ⟨List.replicate 40 0, true⟩
    let long : Segment := ⟨List.replicate 131072 0, true⟩
    (∃ parts header,
      zeros.encode .lz4 = .ok parts
        ∧ (SegmentHeader.read .lz4).Reads parts.header header
        ∧ header.payloadLength = parts.payload.length
        ∧ header.expandedLength = some 40
        ∧ decode .lz4 header (parts.payload ++ parts.trailer) = .ok zeros)
      ∧ long.encode .lz4 = .error (.protocol (.segmentPayloadOverLimit 131072 131071)) := by
  intro zeros long
  have hzeros : zeros.payload.length ≤ maxPayload := by decide
  have hlong : maxPayload < long.payload.length := by
    rw [List.length_replicate]
    decide
  have hshorter : (Compressor.lz4.compressPayload zeros.payload).length < zeros.payload.length := by
    decide +kernel
  obtain ⟨parts, header, hencode, _, hreads, hpayload, _, hexpanded, _, _, hdecode⟩ :=
    (reads_back_of_encode .lz4 zeros).1 hzeros
  refine ⟨⟨parts, header, hencode, hreads, hpayload, ?_, hdecode⟩, ?_⟩
  · rw [hexpanded]
    rw [if_neg (by decide)]
    rw [if_pos hshorter]
    rfl
  · rw [(reads_back_of_encode .lz4 long).2 hlong]
    rw [List.length_replicate]
    rfl

end Segment

end CqlWire
