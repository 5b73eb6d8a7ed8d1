import CqlWire.Frame.Header
import Mathlib.Data.Nat.Bitwise
import Mathlib.Data.Set.Function

/-!
This module contains that the headers of frames and the strings of nine bytes are the same thing,
as long as the version leaves room for the direction.
-/

namespace CqlWire

namespace FrameHeader

variable {bytes : Bytes} {header : FrameHeader}

theorem exists_of_size_le (h : size ≤ bytes.length) :
    ∃ first flags s₀ s₁ opcode b₀ b₁ b₂ b₃ rest,
      bytes = first :: flags :: s₀ :: s₁ :: opcode :: b₀ :: b₁ :: b₂ :: b₃ :: rest := by
  match bytes, h with
  | first :: flags :: s₀ :: s₁ :: opcode :: b₀ :: b₁ :: b₂ :: b₃ :: rest, _ =>
    exact ⟨first, flags, s₀, s₁, opcode, b₀, b₁, b₂, b₃, rest, rfl⟩

theorem decode?_eq_none_iff : decode? bytes = none ↔ bytes.length < size := by
  constructor
  · intro hnone
    apply Nat.lt_of_not_le
    intro hle
    obtain ⟨_, _, _, _, _, _, _, _, _, _, rfl⟩ := exists_of_size_le hle
    cases hnone
  · intro hlt
    unfold decode?
    split
    · simp only [List.length_cons, size] at hlt
      omega
    · rfl

theorem size_le_of_decode? (h : decode? bytes = some header) : size ≤ bytes.length := by
  apply Nat.le_of_not_lt
  rw [← decode?_eq_none_iff]
  simp [h]

theorem declaredLength?_eq_map (bytes : Bytes) :
    declaredLength? bytes = (decode? bytes).map (·.bodyLength) := by
  by_cases h : size ≤ bytes.length
  · obtain ⟨_, _, _, _, _, _, _, _, _, _, rfl⟩ := exists_of_size_le h
    rfl
  · rw [declaredLength?_eq_none_iff.2 (Nat.lt_of_not_le h)]
    rw [decode?_eq_none_iff.2 (Nat.lt_of_not_le h)]
    rfl

theorem and_versionBits (version : Version) : version &&& versionBits = version % 128 := by
  rw [← UInt8.toNat_inj]
  rw [UInt8.toNat_and, UInt8.toNat_mod]
  exact Nat.and_two_pow_sub_one_eq_mod _ 7

theorem and_directionBit (first : UInt8) :
    first &&& directionBit = if first &&& directionBit ≠ 0 then directionBit else 0 := by
  have hbit : first.toNat &&& directionBit.toNat = (first.toNat.testBit 7).toNat * 2 ^ 7 :=
    Nat.and_two_pow _ 7
  rw [← UInt8.toNat_and] at hbit
  by_cases h : first &&& directionBit = 0
  · simp [h]
  · rw [if_pos h]
    rw [← UInt8.toNat_inj] at h ⊢
    cases hdirection : first.toNat.testBit 7 with
    | false =>
      rw [hdirection] at hbit
      exact absurd hbit h
    | true =>
      rw [hdirection] at hbit
      exact hbit

theorem and_directionBit_or_and_versionBits (first : UInt8) :
    first &&& directionBit ||| first &&& versionBits = first := by
  have hall : directionBit.toNat ||| versionBits.toNat = 2 ^ 8 - 1 := rfl
  rw [← UInt8.toNat_inj]
  rw [UInt8.toNat_or, UInt8.toNat_and, UInt8.toNat_and]
  rw [← Nat.and_or_distrib_left]
  rw [hall]
  exact Nat.and_two_pow_sub_one_of_lt_two_pow first.toNat_lt

theorem encode_of_decode? (h : decode? bytes = some header) : header.encode = bytes.take size := by
  obtain ⟨first, flags, s₀, s₁, opcode, b₀, b₁, b₂, b₃, rest, rfl⟩ :=
    exists_of_size_le (size_le_of_decode? h)
  have hstreamId : Bytes.bigEndian 2
      (Int16.ofNat (Bytes.ofBigEndian [s₀, s₁])).toUInt16.toNat = [s₀, s₁] :=
    Bytes.bigEndian_field (fun a : Int16 => a.toUInt16.toNat) Int16.ofNat [s₀, s₁]
      (fun _ hlt => UInt16.toNat_ofNat_of_lt hlt)
  have hlength : Bytes.bigEndian 4
      (Int32.ofNat (Bytes.ofBigEndian [b₀, b₁, b₂, b₃])).toUInt32.toNat = [b₀, b₁, b₂, b₃] :=
    Bytes.bigEndian_field (fun a : Int32 => a.toUInt32.toNat) Int32.ofNat [b₀, b₁, b₂, b₃]
      (fun _ hlt => UInt32.toNat_ofNat_of_lt hlt)
  cases h
  unfold encode firstByte
  simp only [decide_eq_true_eq]
  rw [← and_directionBit]
  rw [UInt8.and_assoc, UInt8.and_self]
  rw [and_directionBit_or_and_versionBits]
  rw [hstreamId, hlength]
  rfl

theorem version_lt_of_decode? (h : decode? bytes = some header) : header.version < 128 := by
  obtain ⟨_, _, _, _, _, _, _, _, _, _, rfl⟩ := exists_of_size_le (size_le_of_decode? h)
  cases h
  rw [and_versionBits]
  apply UInt8.mod_lt
  decide

theorem decode?_encode_append_eq_some_iff (header : FrameHeader) (rest : Bytes) :
    decode? (header.encode ++ rest) = some header ↔ header.version < 128 := by
  constructor
  · exact version_lt_of_decode?
  · intro hlt
    apply decode?_encode_append
    rw [and_versionBits]
    exact UInt8.mod_eq_of_lt hlt

theorem exists_of_decode? (h : size ≤ bytes.length) : ∃ header, decode? bytes = some header := by
  obtain ⟨_, _, _, _, _, _, _, _, _, _, rfl⟩ := exists_of_size_le h
  exact ⟨_, rfl⟩

theorem encode_bijOn :
    Set.BijOn encode {header | header.version < 128} {bytes | bytes.length = size} := by
  refine ⟨?_, ?_, ?_⟩
  · intro header _
    apply length_encode
  · intro header hheader header' hheader' heq
    have hdecode := (decode?_encode_append_eq_some_iff header []).2 hheader
    rw [heq] at hdecode
    rw [(decode?_encode_append_eq_some_iff header' []).2 hheader'] at hdecode
    exact (Option.some.inj hdecode).symm
  · intro bytes hlength
    obtain ⟨header, hheader⟩ := exists_of_decode? (Nat.le_of_eq hlength.symm)
    refine ⟨header, version_lt_of_decode? hheader, ?_⟩
    rw [encode_of_decode? hheader]
    exact List.take_of_length_le (Nat.le_of_eq hlength)

/--
Reading undoes writing, but for what a version has above its low seven bits, and writing undoes
reading. What is told of the body's length without reading the header is what the header says.
-/
theorem encode_decode_exact :
    (∀ (header : FrameHeader) (rest : Bytes),
      decode? (header.encode ++ rest) = some { header with version := header.version % 128 }
        ∧ (decode? (header.encode ++ rest) = some header ↔ header.version < 128))
      ∧ (∀ bytes : Bytes, 9 ≤ bytes.length →
        ∃ header, decode? bytes = some header ∧ header.encode = bytes.take 9)
      ∧ (∀ bytes : Bytes,
        declaredLength? bytes = (decode? bytes).map (·.bodyLength)
          ∧ (decode? bytes = none ↔ bytes.length < 9)
          ∧ (declaredLength? bytes = none ↔ bytes.length < 9))
      ∧ Set.BijOn encode {header | header.version < 128} {bytes | bytes.length = 9} := by
  refine ⟨?_, ?_, ?_, encode_bijOn⟩
  · intro header rest
    refine ⟨?_, decode?_encode_append_eq_some_iff header rest⟩
    rw [← and_versionBits]
    apply decode?_encode_append_masked
  · intro bytes hle
    obtain ⟨header, hheader⟩ := exists_of_decode? hle
    exact ⟨header, hheader, encode_of_decode? hheader⟩
  · intro bytes
    exact ⟨declaredLength?_eq_map bytes, decode?_eq_none_iff, declaredLength?_eq_none_iff⟩

theorem encode_decode_exact_negative :
    let bytes : Bytes := [0x84, 0x0A, 0x80, 0x01, 0x08, 0xFF, 0xFF, 0xFF, 0xFE, 0x2A]
    ∃ header, decode? bytes = some header
      ∧ header.encode = bytes.take 9
      ∧ header.streamId = -32767
      ∧ header.bodyLength = -2 := by
  intro bytes
  obtain ⟨_, hread, _, _⟩ := encode_decode_exact
  obtain ⟨header, hheader, hencode⟩ := hread bytes (by decide)
  refine ⟨header, hheader, hencode, ?_⟩
  cases hheader
  decide

end FrameHeader

end CqlWire
