import CqlWire.Proofs.Dialect

/-!
This module contains that it does not matter in which way a frame is encoded. The length that is
told ahead is that of the body, so it is never found wrong, and compression changes the header in
two places and nothing else.
-/

namespace CqlWire

/-- The header of a frame whose body is compressed to some length. -/
def FrameHeader.compressedTo (header : FrameHeader) (length : Nat) : FrameHeader :=
  { header with
    flags := header.flags ||| HeaderFlag.compressed.bit
    bodyLength := Int32.ofNat length }

namespace Dialect

variable {dialect : Dialect} {frame : Frame} {codec : BodyCodec}

theorem handles_of_encoder (h : dialect.encoder frame = .ok codec) :
    codec.Handles frame.message := by
  unfold encoder at h
  rw [Registry.encoder_eq_ok_iff] at h
  apply BodyCodec.handles_of_opcode_eq
  exact Opcode.code_injective (CodecTable.mem_of_find? h).2

theorem exists_bodySizeWith (h : codec.Handles frame.message) :
    ∃ bodySize, bodySizeWith codec frame = .ok bodySize := by
  obtain ⟨size, hsize⟩ := h.exists_size
  unfold bodySizeWith
  rw [hsize]
  exact ⟨_, rfl⟩

theorem writeBody_refusedFor (dialect : Dialect) (h : codec.Handles frame.message) :
    (dialect.writeBody codec frame).RefusedFor Format.Overlong := by
  unfold writeBody
  apply Written.RefusedFor.append
  · apply Written.RefusedFor.append
    · apply Written.RefusedFor.append
      · cases frame.tracingId with
        | none => exact .of_whole rfl
        | some id => exact .of_whole rfl
      · split
        · exact .of_whole rfl
        · exact Format.entries_refusesOverlong Format.presentBytes_refusesOverlong _ _
    · split
      · exact .of_whole rfl
      · exact Format.stringList_refusesOverlong _
  · exact h.write_refusedFor

theorem checkBodySize_of_bodySizeWith {bodySize : Nat}
    (h : bodySizeWith codec frame = .ok bodySize) :
    checkBodySize frame bodySize
        (writeHeader frame (plainFlags frame) bodySize ++ dialect.writeBody codec frame)
      =
    writeHeader frame (plainFlags frame) bodySize ++ dialect.writeBody codec frame := by
  by_cases hwhole :
      (writeHeader frame (plainFlags frame) bodySize ++ dialect.writeBody codec frame).Whole
  · obtain ⟨bytes, hbytes⟩ := Written.whole_iff.1 hwhole
    rw [hbytes]
    rw [plainFlags_eq] at hbytes
    obtain ⟨_, body, hbody, rfl⟩ := writeHeader_append_eq_ofBytes_iff.1 hbytes
    rw [bodySizeWith_of_writeBody hbody, Except.ok.injEq] at h
    apply checkBodySize_eq_ofBytes_iff.2
    rw [List.length_append, FrameHeader.length_encode, Nat.add_sub_cancel_left]
    exact ⟨rfl, h⟩
  · unfold checkBodySize
    apply if_neg
    rw [Option.isNone_eq_false_iff.2 (Option.isSome_iff_ne_none.2 hwhole)]
    simp

theorem write_none {bodySize : Nat} (hvalidate : frame.validate = .ok ())
    (hencoder : dialect.encoder frame = .ok codec)
    (hsize : bodySizeWith codec frame = .ok bodySize) :
    dialect.write frame none
      =
    writeHeader frame (plainFlags frame) bodySize ++ dialect.writeBody codec frame := by
  unfold write
  rw [hvalidate, hencoder]
  dsimp only [Option.map_none, Option.getD_none]
  rw [hsize]
  exact checkBodySize_of_bodySizeWith hsize

theorem write_eq_refuse {error : Failure} {bodySize? : Option Nat}
    (h : frame.validate = .error error
      ∨ frame.validate = .ok () ∧ dialect.encoder frame = .error error) :
    dialect.write frame bodySize? = Written.refuse error := by
  unfold write
  rcases h with hvalidate | ⟨hvalidate, hencoder⟩
  · rw [hvalidate]
  · rw [hvalidate, hencoder]

/-- All reasons for which a frame is not written. -/
inductive Unwritable (dialect : Dialect) (frame : Frame) : Failure → Prop
  | invalid {error : Failure} (h : frame.validate = .error error) : Unwritable dialect frame error
  | noEncoder {error : Failure} (h : dialect.encoder frame = .error error) :
    Unwritable dialect frame error
  | bodyTooLong {bodySize : Nat} (h : Format.maxInt < bodySize) :
    Unwritable dialect frame (.protocol (.bodyTooLong bodySize))
  | overlong {error : Failure} (h : Format.Overlong error) : Unwritable dialect frame error

theorem writeHeader_refusedFor (frame : Frame) (flags : UInt8) (bodySize : Nat) :
    (writeHeader frame flags bodySize).RefusedFor (Unwritable dialect frame) := by
  apply Written.RefusedFor.guarded
  · exact .of_whole rfl
  · exact fun hlt => .bodyTooLong (Nat.lt_of_not_le hlt)

theorem writeHeader_append_refusedFor (dialect : Dialect) (frame : Frame) (flags : UInt8)
    (bodySize : Nat) {rest : Written} (hrest : rest.RefusedFor Format.Overlong) :
    (writeHeader frame flags bodySize ++ rest).RefusedFor (Unwritable dialect frame) := by
  apply Written.RefusedFor.append
  · apply writeHeader_refusedFor
  · exact hrest.imp fun _ => .overlong

theorem write_refusedFor (dialect : Dialect) (frame : Frame) :
    (dialect.write frame none).RefusedFor (Unwritable dialect frame) := by
  cases hvalidate : frame.validate with
  | error error =>
    rw [write_eq_refuse (.inl hvalidate)]
    exact .refuse (.invalid hvalidate)
  | ok _ =>
    cases hencoder : dialect.encoder frame with
    | error error =>
      rw [write_eq_refuse (.inr ⟨hvalidate, hencoder⟩)]
      exact .refuse (.noEncoder hencoder)
    | ok codec =>
      have hhandles := handles_of_encoder hencoder
      obtain ⟨bodySize, hsize⟩ := exists_bodySizeWith hhandles
      rw [write_none hvalidate hencoder hsize]
      apply writeHeader_append_refusedFor
      apply writeBody_refusedFor dialect hhandles

/-- Failures that are not about the frame, but about what the codec does with it. -/
inductive BlamesCodec : Failure → Prop
  | foreignMessage (codec message : UInt8) :
    BlamesCodec (.protocol (.foreignMessage codec message))
  | bodySize (opcode : UInt8) (written expected : Nat) :
    BlamesCodec (.protocol (.bodySize opcode written expected))

theorem Unwritable.not_blamesCodec {error : Failure} (h : Unwritable dialect frame error) :
    ¬ BlamesCodec error := by
  intro hblames
  cases h with
  | invalid h =>
    unfold Frame.validate at h
    split at h
    · cases h
    · split at h
      · cases h
        cases hblames
      · split at h
        · cases h
          cases hblames
        · cases h
  | noEncoder h =>
    unfold encoder Registry.encoder at h
    split at h
    · cases h
    · cases h
      cases hblames
  | bodyTooLong => cases hblames
  | overlong h => cases h <;> cases hblames

theorem ne_bodySize_of_unwritable {error : Failure} (h : Unwritable dialect frame error)
    (opcode : UInt8) (written expected : Nat) :
    error ≠ .protocol (.bodySize opcode written expected) := by
  rintro rfl
  exact h.not_blamesCodec (.bodySize opcode written expected)

theorem length_of_write_none {bytes : Bytes}
    (h : dialect.write frame none = Written.ofBytes bytes) :
    ∃ bodySize, dialect.bodySize frame = .ok bodySize
      ∧ bytes.length = FrameHeader.size + bodySize := by
  obtain ⟨bodySize, hsize⟩ := bodySize_of_write h
  refine ⟨bodySize, hsize, ?_⟩
  rw [← write_some hsize] at h
  exact length_of_write h

theorem write_some_eq_ofBytes_iff {bodySize : Nat} {bytes : Bytes} :
    dialect.write frame (some bodySize) = Written.ofBytes bytes
      ↔
    dialect.write frame none = Written.ofBytes bytes ∧ dialect.bodySize frame = .ok bodySize := by
  constructor
  · intro h
    obtain ⟨hvalidate, codec, body, hencoder, hbody, hsize, hle, hbytes⟩ :=
      write_eq_ofBytes_iff.1 h
    constructor
    · exact write_eq_ofBytes_iff.2 ⟨hvalidate, codec, body, hencoder, hbody, rfl, hle, hbytes⟩
    · rw [bodySize_eq_bodySizeWith hencoder]
      rw [bodySizeWith_of_writeBody hbody]
      exact congrArg Except.ok hsize.symm
  · rintro ⟨h, hsize⟩
    rw [write_some hsize]
    exact h

theorem compresses_iff :
    dialect.flags frame &&& HeaderFlag.compressed.bit ≠ 0 ↔ dialect.compresses frame = true := by
  have hhas := has_headerOf frame (dialect.compresses frame) 0 .compressed
  unfold FrameHeader.has at hhas
  rw [Bool.eq_iff_iff, decide_eq_true_iff] at hhas
  exact hhas

theorem encode_eq {bodySize : Nat} (hvalidate : frame.validate = .ok ())
    (hencoder : dialect.encoder frame = .ok codec)
    (hsize : bodySizeWith codec frame = .ok bodySize) :
    dialect.encode frame
      =
    if dialect.compresses frame then do
      let body ← (dialect.writeBody codec frame).toExcept
      let compressed ← dialect.compressor.compress body
      (writeHeader frame (dialect.flags frame) compressed.length
        ++ Written.ofBytes compressed).toExcept
    else
      (writeHeader frame (dialect.flags frame) bodySize
        ++ dialect.writeBody codec frame).toExcept := by
  unfold encode
  rw [hvalidate, hencoder]
  change (bodySizeWith codec frame >>= _) = _
  rw [hsize]
  rfl

theorem encode_eq_error {error : Failure} (h : frame.validate = .error error
      ∨ frame.validate = .ok () ∧ dialect.encoder frame = .error error) :
    dialect.encode frame = .error error := by
  unfold encode
  rcases h with hvalidate | ⟨hvalidate, hencoder⟩
  · rw [hvalidate]
    rfl
  · rw [hvalidate, hencoder]
    rfl

theorem encode_of_not_compresses (h : dialect.compresses frame = false) :
    dialect.encode frame = (dialect.write frame none).toExcept := by
  cases hvalidate : frame.validate with
  | error error =>
    rw [encode_eq_error (.inl hvalidate), write_eq_refuse (.inl hvalidate)]
    rfl
  | ok _ =>
    cases hencoder : dialect.encoder frame with
    | error error =>
      rw [encode_eq_error (.inr ⟨hvalidate, hencoder⟩)]
      rw [write_eq_refuse (.inr ⟨hvalidate, hencoder⟩)]
      rfl
    | ok codec =>
      obtain ⟨bodySize, hsize⟩ := exists_bodySizeWith (handles_of_encoder hencoder)
      rw [encode_eq hvalidate hencoder hsize]
      rw [write_none hvalidate hencoder hsize]
      rw [plainFlags_eq]
      rw [flags, h]
      rfl

theorem validate_of_encode {bytes : Bytes} (h : dialect.encode frame = .ok bytes) :
    frame.validate = .ok () := by
  unfold encode at h
  obtain ⟨_, hvalidate, _⟩ := exists_of_bind_eq_ok h
  exact hvalidate

theorem encode_eq_ok_iff_of_compresses (hcompresses : dialect.compresses frame = true)
    {bytes : Bytes} :
    dialect.encode frame = .ok bytes
      ↔
    frame.validate = .ok ()
      ∧ ∃ codec body compressed, dialect.encoder frame = .ok codec
        ∧ dialect.writeBody codec frame = Written.ofBytes body
        ∧ dialect.compressor.compress body = .ok compressed
        ∧ compressed.length ≤ Format.maxInt
        ∧ bytes = (headerOf frame true compressed.length).encode ++ compressed := by
  constructor
  · intro h
    obtain ⟨codec, body, _, hencoder, _, hbody, hbytes⟩ := exists_of_encode h
    rw [if_pos hcompresses] at hbytes
    obtain ⟨compressed, hcompressed, hle, hbytes⟩ := hbytes
    exact ⟨validate_of_encode h, codec, body, compressed, hencoder, hbody, hcompressed, hle, hbytes⟩
  · rintro ⟨hvalidate, codec, body, compressed, hencoder, hbody, hcompressed, hle, rfl⟩
    rw [encode_eq hvalidate hencoder (bodySizeWith_of_writeBody hbody)]
    rw [if_pos hcompresses]
    rw [hbody]
    change (dialect.compressor.compress body >>= _) = _
    rw [hcompressed]
    apply Written.toExcept_eq_ok_iff.2
    rw [flags, hcompresses]
    exact writeHeader_append_eq_ofBytes_iff.2 ⟨hle, compressed, rfl, rfl⟩

theorem encode_compressedTo (frame : Frame) (plainLength length : Nat) (rest : Bytes) :
    ∃ header, FrameHeader.decode? ((headerOf frame false plainLength).encode ++ rest) = some header
      ∧ (header.compressedTo length).encode = (headerOf frame true length).encode := by
  refine ⟨_, FrameHeader.decode?_encode_append_masked _ rest, ?_⟩
  rw [← FrameHeader.encode_masked (headerOf frame true length)]
  unfold FrameHeader.compressedTo headerOf
  congr 2
  change (0 ||| plainFlags frame) ||| HeaderFlag.compressed.bit = _
  rw [UInt8.zero_or]
  exact UInt8.or_comm _ _

theorem encode_eq_ok_iff_of_write (hcompresses : dialect.compresses frame = true)
    {bytes : Bytes} :
    dialect.encode frame = .ok bytes
      ↔
    ∃ plain header compressed, dialect.write frame none = Written.ofBytes plain
      ∧ FrameHeader.decode? plain = some header
      ∧ dialect.compressor.compress (plain.drop FrameHeader.size) = .ok compressed
      ∧ compressed.length ≤ Format.maxInt
      ∧ bytes = (header.compressedTo compressed.length).encode ++ compressed := by
  rw [encode_eq_ok_iff_of_compresses hcompresses]
  constructor
  · rintro ⟨hvalidate, codec, body, compressed, hencoder, hbody, hcompressed, hle, rfl⟩
    have hlength := Compressor.length_le_of_compress (isNone_of_compresses hcompresses) hcompressed
    obtain ⟨header, hheader, hencode⟩ :=
      encode_compressedTo frame body.length compressed.length body
    refine ⟨_, header, compressed, ?_, hheader, ?_, hle, ?_⟩
    · exact write_eq_ofBytes_iff.2 ⟨hvalidate, codec, body, hencoder, hbody, rfl, hlength, rfl⟩
    · rw [FrameHeader.drop_encode_append]
      exact hcompressed
    · rw [hencode]
  · rintro ⟨plain, header, compressed, hwrite, hheader, hcompressed, hle, rfl⟩
    obtain ⟨hvalidate, codec, body, hencoder, hbody, _, _, rfl⟩ := write_eq_ofBytes_iff.1 hwrite
    rw [FrameHeader.drop_encode_append] at hcompressed
    obtain ⟨header', hheader', hencode⟩ :=
      encode_compressedTo frame body.length compressed.length body
    rw [hheader', Option.some.injEq] at hheader
    subst hheader
    refine ⟨hvalidate, codec, body, compressed, hencoder, hbody, hcompressed, hle, ?_⟩
    rw [hencode]

/--
A frame that is not compressed is encoded as it is written, and what is written is as long as is
told. A caller who tells a length has the same written if it is the right one, and no frame
otherwise. A frame that is compressed is encoded exactly if it is written and its body can be
compressed to a length that a header can tell, and is then what is written with another header and
the body compressed.
-/
theorem encode_agrees_with_write (dialect : Dialect) (frame : Frame) :
    (∀ opcode written expected,
        (dialect.write frame none).fault ≠ some (.protocol (.bodySize opcode written expected)))
      ∧ (∀ bytes, dialect.write frame none = Written.ofBytes bytes →
          ∃ bodySize, dialect.bodySize frame = .ok bodySize
            ∧ bytes.length = FrameHeader.size + bodySize)
      ∧ (∀ bodySize bytes, dialect.write frame (some bodySize) = Written.ofBytes bytes
          ↔
        dialect.write frame none = Written.ofBytes bytes ∧ dialect.bodySize frame = .ok bodySize)
      ∧ (dialect.flags frame &&& HeaderFlag.compressed.bit = 0 →
          dialect.encode frame = (dialect.write frame none).toExcept)
      ∧ (dialect.flags frame &&& HeaderFlag.compressed.bit ≠ 0 →
          ∀ bytes, dialect.encode frame = .ok bytes
            ↔
          ∃ plain header compressed, dialect.write frame none = Written.ofBytes plain
            ∧ FrameHeader.decode? plain = some header
            ∧ dialect.compressor.compress (plain.drop FrameHeader.size) = .ok compressed
            ∧ compressed.length ≤ Format.maxInt
            ∧ bytes = (header.compressedTo compressed.length).encode ++ compressed) := by
  refine ⟨?_, ?_, ?_, ?_, ?_⟩
  · intro opcode written expected hfault
    have hunwritable := write_refusedFor dialect frame _ hfault
    exact ne_bodySize_of_unwritable hunwritable opcode written expected rfl
  · intro bytes hwrite
    exact length_of_write_none hwrite
  · intro bodySize bytes
    exact write_some_eq_ofBytes_iff
  · intro hflags
    apply encode_of_not_compresses
    rw [← Bool.not_eq_true, ← compresses_iff]
    exact not_not_intro hflags
  · intro hflags bytes
    exact encode_eq_ok_iff_of_write (compresses_iff.1 hflags)

theorem encode_agrees_with_write_plain_and_compressed :
    let dialect := ofRole .client .lz4
    let plain : Frame := { tracedRequest with customPayload := .empty, message := .options }
    let plainBytes : Bytes := [4, 2, 0, 7, 5, 0, 0, 0, 0]
    let written : Bytes := [4, 6, 0, 7, 15, 0, 0, 0, 12, 0, 1, 0, 0, 0, 0, 0, 0, 255, 255, 255, 255]
    let compressed : Bytes := [0, 0, 0, 12, 192, 0, 1, 0, 0, 0, 0, 0, 0, 255, 255, 255, 255]
    dialect.write plain none = Written.ofBytes plainBytes
      ∧ dialect.write plain (some 0) = Written.ofBytes plainBytes
      ∧ dialect.encode plain = .ok plainBytes
      ∧ dialect.write tracedRequest none = Written.ofBytes written
      ∧ dialect.write tracedRequest (some 12) = Written.ofBytes written
      ∧ dialect.encode tracedRequest = .ok ([4, 7, 0, 7, 15, 0, 0, 0, 17] ++ compressed) := by
  intro dialect plain plainBytes written compressed
  have hplain : dialect.write plain none = Written.ofBytes plainBytes := by decide +kernel
  have hwritten : dialect.write tracedRequest none = Written.ofBytes written := by decide +kernel
  have hbody : written.drop FrameHeader.size = [0, 1, 0, 0, 0, 0, 0, 0, 255, 255, 255, 255] := rfl
  have hcompressed : dialect.compressor.compress (written.drop FrameHeader.size)
      = .ok compressed := by
    rw [hbody]
    rfl
  obtain ⟨_, _, hplainTold, hplainEncode, _⟩ := encode_agrees_with_write dialect plain
  obtain ⟨_, _, htold, _, hencode⟩ := encode_agrees_with_write dialect tracedRequest
  refine ⟨hplain, ?_, ?_, hwritten, ?_, ?_⟩
  · exact (hplainTold 0 plainBytes).2 ⟨hplain, rfl⟩
  · rw [hplainEncode (by decide +kernel)]
    rw [hplain]
    rfl
  · exact (htold 12 written).2 ⟨hwritten, rfl⟩
  · apply (hencode (by decide +kernel) _).2
    exact ⟨written, ⟨.v4, false, 6, 7, 15, 12⟩, compressed, hwritten, rfl, hcompressed, by decide,
      by decide⟩

end Dialect

end CqlWire
