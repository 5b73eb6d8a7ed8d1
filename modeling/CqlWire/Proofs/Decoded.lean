import CqlWire.Proofs.Dialect

/-!
This module contains what is known of a frame that was read, whoever wrote it, which of the frames
that are read a side can make, and which of the frames that are written come back.
-/

namespace CqlWire

namespace Frame

/-- The frame without what only reading tells of it. -/
def unsized (frame : Frame) : Frame :=
  { frame with size := unknownSize, compressedSize := unknownSize }

@[simp]
theorem wellFormed_unsized_iff {frame : Frame} : frame.unsized.WellFormed ↔ frame.WellFormed :=
  ⟨fun ⟨h₁, h₂, h₃⟩ => ⟨h₁, h₂, h₃⟩, fun ⟨h₁, h₂, h₃⟩ => ⟨h₁, h₂, h₃⟩⟩

theorem unsized_madeBy_iff {sender : Role} {frame : Frame} :
    frame.unsized.MadeBy sender
      ↔
    frame.isResponse = sender.responds ∧ frame.WellFormed ∧ frame.validate = .ok () := by
  rw [madeBy_iff]
  rw [wellFormed_unsized_iff]
  constructor
  · rintro ⟨hresponse, hframe, hvalidate, _⟩
    exact ⟨hresponse, hframe, hvalidate⟩
  · rintro ⟨hresponse, hframe, hvalidate⟩
    exact ⟨hresponse, hframe, hvalidate, rfl, rfl⟩

theorem MadeBy.unsized_eq {sender : Role} {frame : Frame} (h : frame.MadeBy sender) :
    frame.unsized = frame := by
  obtain ⟨_, _, _, hsize, hcompressedSize⟩ := madeBy_iff.1 h
  obtain ⟨version, streamId, tracing, tracingId, size, compressedSize, customPayload, warnings,
    message⟩ := frame
  unfold unsized
  congr
  · exact hsize.symm
  · exact hcompressedSize.symm

end Frame

namespace Dialect

/-- What the header says that a frame was read behind, and what it leaves to the body. -/
structure ReadBehind (header : FrameHeader) (frame : Frame) : Prop where
  version_eq : frame.version = header.version
  streamId_eq : frame.streamId = header.streamId
  opcode_eq : frame.opcode = header.opcode
  tracing_eq : frame.tracing = header.has .tracing
  isSome_tracingId : frame.tracingId.isSome = (header.isResponse && header.has .tracing)
  customPayload_eq : header.has .customPayload = false → frame.customPayload = .empty
  warnings_eq : (header.isResponse && header.has .warning) = false → frame.warnings = []

theorem eq_of_no_section {α : Type} {present : Bool} {read : Reader α} {a blank : α}
    {src rest : Bytes} (h : (if present then read else pure blank) src = (.ok a, rest))
    (hpresent : present = false) : a = blank := by
  subst hpresent
  cases h
  rfl

theorem isSome_of_tracingId {present : Bool} {id? : Option Uuid} {src rest : Bytes}
    (h : (if present then some <$> Format.uuid.read else pure none : Reader (Option Uuid)) src
      = (.ok id?, rest)) : id?.isSome = present := by
  cases present with
  | false =>
    cases h
    rfl
  | true =>
    obtain ⟨id, _, rfl⟩ := Reader.exists_of_map h
    rfl

variable {dialect : Dialect} {frame : Frame}

/-- The sections of a body are read one behind the other, as far as the header tells of them. -/
structure SectionsRead (header : FrameHeader) (codec : BodyCodec) (frame : Frame)
    (src afterId afterPayload afterWarnings rest : Bytes) : Prop where
  version_eq : frame.version = header.version
  streamId_eq : frame.streamId = header.streamId
  tracing_eq : frame.tracing = header.has .tracing
  tracingId :
    (if header.isResponse && header.has .tracing then some <$> Format.uuid.read
      else pure none : Reader (Option Uuid)) src = (.ok frame.tracingId, afterId)
  payload :
    (if header.has .customPayload then Format.bytesMap.read else pure .empty) afterId
      = (.ok frame.customPayload, afterPayload)
  warnings :
    (if header.isResponse && header.has .warning then Format.stringList.read else pure [])
        afterPayload
      = (.ok frame.warnings, afterWarnings)
  message : codec.read afterWarnings = (.ok frame.message, rest)

theorem exists_sections_of_readBody {header : FrameHeader} {size compressedSize : Int32}
    {src rest : Bytes} (h : dialect.readBody header size compressedSize src = (.ok frame, rest)) :
    ∃ codec afterId afterPayload afterWarnings,
      dialect.registry.decoder header.version header.opcode = .ok codec
        ∧ SectionsRead header codec frame src afterId afterPayload afterWarnings rest := by
  rw [readBody_eq] at h
  obtain ⟨tracingId, _, htracingId, h⟩ := Reader.exists_of_bind h
  obtain ⟨customPayload, _, hcustomPayload, h⟩ := Reader.exists_of_bind h
  obtain ⟨warnings, _, hwarnings, h⟩ := Reader.exists_of_bind h
  cases hcodec : dialect.registry.decoder header.version header.opcode with
  | error error =>
    rw [hcodec] at h
    cases h
  | ok codec =>
    rw [hcodec] at h
    obtain ⟨message, _, hmessage, h⟩ := Reader.exists_of_bind h
    cases h
    exact ⟨codec, _, _, _, rfl, rfl, rfl, rfl, htracingId, hcustomPayload, hwarnings, hmessage⟩

theorem SectionsRead.readBehind {header : FrameHeader} {codec : BodyCodec}
    {src afterId afterPayload afterWarnings rest : Bytes}
    (h : SectionsRead header codec frame src afterId afterPayload afterWarnings rest)
    (hcodec : dialect.registry.decoder header.version header.opcode = .ok codec) :
    ReadBehind header frame where
  version_eq := h.version_eq
  streamId_eq := h.streamId_eq
  opcode_eq := by
    unfold Frame.opcode
    rw [BodyCodec.opcode_of_read h.message]
    rw [Registry.decoder_eq_ok_iff] at hcodec
    exact (CodecTable.mem_of_find? hcodec).2
  tracing_eq := h.tracing_eq
  isSome_tracingId := isSome_of_tracingId h.tracingId
  customPayload_eq := eq_of_no_section h.payload
  warnings_eq := eq_of_no_section h.warnings

theorem exists_of_readBody {header : FrameHeader} {size compressedSize : Int32}
    {body rest : Bytes}
    (h : dialect.readBody header size compressedSize body = (.ok frame, rest)) :
    ∃ codec, dialect.registry.decoder header.version header.opcode = .ok codec
      ∧ frame.message.opcode = codec.opcode
      ∧ ReadBehind header frame := by
  obtain ⟨codec, _, _, _, hcodec, hsections⟩ := exists_sections_of_readBody h
  exact ⟨codec, hcodec, BodyCodec.opcode_of_read hsections.message, hsections.readBehind hcodec⟩

/-- The body behind a header, before it was compressed. -/
def expandedBody (dialect : Dialect) (header : FrameHeader) (bytes : Bytes) :
    Except Failure Bytes :=
  if header.has .compressed then dialect.compressor.decompress (bytes.drop FrameHeader.size)
  else .ok (bytes.drop FrameHeader.size)

theorem exists_expandedBody_of_decode {bytes : Bytes} (h : dialect.decode bytes = .ok frame) :
    ∃ header size compressedSize expanded rest,
      FrameHeader.decode? bytes = some header
        ∧ dialect.expandedBody header bytes = .ok expanded
        ∧ expanded.length ≤ Format.maxInt
        ∧ dialect.readBody header size compressedSize expanded = (.ok frame, rest) := by
  unfold decode at h
  split at h
  · cases h
  · next header hheader =>
    dsimp only at h
    split at h
    · cases h
    · split at h
      · cases h
      · next hlength =>
        have hle := Format.toNatClampNeg_le_maxInt header.bodyLength
        rw [← Decidable.not_not.1 hlength] at hle
        unfold expandedBody
        split at h
        · next hcompressed =>
          obtain ⟨expanded, hexpanded, h⟩ := exists_of_bind_eq_ok h
          refine ⟨header, _, _, expanded, _, hheader, ?_, ?_, Prod.ext h rfl⟩
          · rw [if_pos hcompressed]
            exact hexpanded
          · exact Compressor.length_le_of_decompress hexpanded hle
        · next hplain => exact ⟨header, _, _, _, _, hheader, if_neg hplain, hle, Prod.ext h rfl⟩

theorem exists_of_decode {bytes : Bytes} (h : dialect.decode bytes = .ok frame) :
    ∃ header size compressedSize body rest,
      FrameHeader.decode? bytes = some header
        ∧ dialect.readBody header size compressedSize body = (.ok frame, rest) := by
  obtain ⟨header, size, compressedSize, expanded, rest, hheader, _, _, hbody⟩ :=
    exists_expandedBody_of_decode h
  exact ⟨header, size, compressedSize, expanded, rest, hheader, hbody⟩

theorem wellFormed_iff_of_readBehind {header : FrameHeader} (h : ReadBehind header frame) :
    frame.WellFormed
      ↔
    header.isResponse = frame.isResponse ∨ frame.tracing = false ∧ frame.warnings = [] := by
  have htracingId := h.isSome_tracingId
  have hwarnings := h.warnings_eq
  rw [← h.tracing_eq] at htracingId
  cases hframe : frame.isResponse with
  | false =>
    rw [Frame.wellFormed_of_request hframe]
    rw [← Option.isNone_iff_eq_none, ← Option.not_isSome, htracingId]
    cases hheader : header.isResponse with
    | false => simp [hwarnings, hheader]
    | true => simp
  | true =>
    rw [Frame.wellFormed_of_response hframe]
    rw [htracingId]
    cases hheader : header.isResponse with
    | false => simp [hwarnings, hheader]
    | true => simp

/--
The message of a frame that is read is one that the peer sends. The peer can make the frame itself
exactly if its version allows all that it carries and its header tells the direction, or else the
body has no section that depends on the direction.
-/
theorem madeBy_iff_of_decode {role : Role} {compressor : Compressor} {bytes : Bytes}
    (h : (ofRole role compressor).decode bytes = .ok frame) :
    ∃ header, FrameHeader.decode? bytes = some header
      ∧ ReadBehind header frame
      ∧ header.version ∈ Version.supported
      ∧ frame.isResponse = role.peer.responds
      ∧ (frame.unsized.MadeBy role.peer
          ↔
        frame.validate = .ok ()
          ∧ (header.isResponse = frame.isResponse
            ∨ frame.tracing = false ∧ frame.warnings = [])) := by
  obtain ⟨header, size, compressedSize, body, rest, hheader, hbody⟩ := exists_of_decode h
  obtain ⟨codec, hcodec, hopcode, hframe⟩ := exists_of_readBody hbody
  obtain ⟨hversion, hsent, _⟩ := Registry.sent_of_encoder (Registry.encoder_of_decoder hcodec)
  have hresponse : frame.isResponse = role.peer.responds := by
    unfold Frame.isResponse Message.isResponse
    rw [hopcode]
    exact Registry.isResponse_of_sent hsent
  refine ⟨header, hheader, hframe, hversion, hresponse, ?_⟩
  rw [← wellFormed_iff_of_readBehind hframe]
  rw [Frame.unsized_madeBy_iff]
  rw [and_iff_right hresponse]
  rw [And.comm]

def warnedReady : Frame where
  version := .v3
  streamId := 1
  tracing := false
  tracingId := none
  size := 14
  compressedSize := Frame.unknownSize
  customPayload := .empty
  warnings := ["w"]
  message := .ready

def tracedOptions : Frame where
  version := .v4
  streamId := 1
  tracing := true
  tracingId := some ⟨0⟩
  size := 25
  compressedSize := Frame.unknownSize
  customPayload := .empty
  warnings := []
  message := .options

theorem madeBy_iff_of_decode_ready :
    let ready : Frame := { warnedReady with version := .v4 }
    (ofRole .client .lz4).decode [0x84, 8, 0, 1, 2, 0, 0, 0, 5, 0, 1, 0, 1, 0x77] = .ok ready
      ∧ ready.unsized.MadeBy .server := by
  intro ready
  have hdecode : (ofRole .client .lz4).decode [0x84, 8, 0, 1, 2, 0, 0, 0, 5, 0, 1, 0, 1, 0x77]
      = .ok ready := rfl
  obtain ⟨header, hheader, _, _, _, hmadeBy⟩ := madeBy_iff_of_decode hdecode
  cases hheader
  exact ⟨hdecode, hmadeBy.2 ⟨rfl, .inl rfl⟩⟩

/-- Two frames that are read though no side can make them. -/
theorem not_madeBy_of_decode :
    let warned : Bytes := [0x83, 8, 0, 1, 2, 0, 0, 0, 5, 0, 1, 0, 1, 0x77]
    let traced : Bytes := [0x84, 2, 0, 1, 5, 0, 0, 0, 16] ++ List.replicate 16 0
    ((ofRole .client .none).decode warned = .ok warnedReady
      ∧ warnedReady.validate = .error (.protocol (.warnings Version.v3))
      ∧ ∀ sender, ¬ warnedReady.unsized.MadeBy sender)
      ∧ (ofRole .server .none).decode traced = .ok tracedOptions
      ∧ (FrameHeader.decode? traced).map (·.isResponse) = some true
      ∧ tracedOptions.isResponse = false
      ∧ ∀ sender, ¬ tracedOptions.unsized.MadeBy sender := by
  intro warned traced
  refine ⟨⟨rfl, rfl, ?_⟩, rfl, rfl, rfl, ?_⟩
  · intro sender hmade
    have hvalidate := (Frame.unsized_madeBy_iff.1 hmade).2.2
    cases hvalidate
  · intro sender hmade
    have hnone := (Frame.unsized_madeBy_iff.1 hmade).2.1.tracingId_eq rfl
    cases hnone

theorem wellFormed_of_decode_headerOf {bodySize : Nat} {body : Bytes} {frame' : Frame}
    (hversion : frame.version ∈ Version.supported)
    (h : dialect.decode ((headerOf frame false bodySize).encode ++ body) = .ok frame')
    (hunsized : frame'.unsized = frame.unsized) : frame.WellFormed := by
  obtain ⟨header, _, _, _, _, hheader, hbody⟩ := exists_of_decode h
  obtain ⟨_, _, _, hbehind⟩ := exists_of_readBody hbody
  have hencoded : FrameHeader.decode? _ = some (headerOf frame false bodySize) :=
    FrameHeader.decode?_encode_append (and_versionBits_of_supported hversion) body
  rw [hencoded, Option.some.injEq] at hheader
  subst hheader
  -- The header tells the direction of the message, and that is the direction that was read.
  have hresponse : (headerOf frame false bodySize).isResponse = frame'.isResponse :=
    (congrArg Frame.isResponse hunsized).symm
  rw [← Frame.wellFormed_unsized_iff]
  rw [← hunsized]
  rw [Frame.wellFormed_unsized_iff]
  exact (wellFormed_iff_of_readBehind hbehind).2 (.inl hresponse)

/--
A frame that is written, whether or not a side can make it, has a message of the side that writes
it. It comes back on the other side exactly if it is well formed.
-/
theorem wellFormed_iff_of_write {sender : Role} {compressor compressor' : Compressor}
    {order : PayloadOrder} {bytes : Bytes}
    (h : ((ofRole sender compressor).inOrder order).write frame none = Written.ofBytes bytes) :
    frame.isResponse = sender.responds
      ∧ ((∃ frame', (ofRole sender.peer compressor').decode bytes = .ok frame'
            ∧ frame'.unsized = frame.unsized)
          ↔
        frame.WellFormed) := by
  obtain ⟨_, codec, body, hcodec, hbody, _, hle, rfl⟩ := write_eq_ofBytes_iff.1 h
  obtain ⟨hversion, hsent, hopcode⟩ := Registry.sent_of_encoder hcodec
  constructor
  · have hmessage : frame.message.opcode = codec.opcode := Opcode.code_injective hopcode.symm
    unfold Frame.isResponse Message.isResponse
    rw [hmessage]
    exact Registry.isResponse_of_sent hsent
  · constructor
    · rintro ⟨frame', hdecode, hunsized⟩
      exact wellFormed_of_decode_headerOf hversion hdecode hunsized
    · intro hwellFormed
      exact ⟨_, decode_wellFormed hwellFormed hcodec hbody hle, rfl⟩

/-- Without a tracing id behind the flag, the front of the token is read as one. -/
def idlessSuccess : Frame where
  version := .v4
  streamId := 1
  tracing := true
  tracingId := none
  size := 0
  compressedSize := 0
  customPayload := .empty
  warnings := []
  message := .authSuccess (some (List.replicate 16 0))

theorem wellFormed_iff_of_write_idlessSuccess :
    let bytes := [0x84, 2, 0, 1, 16, 0, 0, 0, 20] ++ [0, 0, 0, 16] ++ List.replicate 16 0
    ((ofRole .server .lz4).inOrder .byKey).write idlessSuccess none = Written.ofBytes bytes
      ∧ ((ofRole .client .lz4).decode bytes).map (·.message) = .ok (.authSuccess (some []))
      ∧ ¬ ∃ frame', (ofRole .client .lz4).decode bytes = .ok frame'
          ∧ frame'.unsized = idlessSuccess.unsized := by
  intro bytes
  have hwrite : ((ofRole .server .lz4).inOrder .byKey).write idlessSuccess none
      = Written.ofBytes bytes := rfl
  refine ⟨hwrite, rfl, ?_⟩
  intro hback
  have hwellFormed := (wellFormed_iff_of_write hwrite).2.1 hback
  have htracing := hwellFormed.tracing_eq rfl
  cases htracing

end Dialect

end CqlWire
