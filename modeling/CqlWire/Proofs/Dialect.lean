import CqlWire.Frame.Dialect
import CqlWire.Lz4.Codec
import CqlWire.Proofs.Compressor
import CqlWire.Proofs.Delimited
import CqlWire.Proofs.Frame
import CqlWire.Proofs.Message
import CqlWire.Proofs.Registry

/-!
This module contains why frames are read as they were written: what one side writes of a frame that
it can make, with or without compression, reads as that frame on the other side.
-/

namespace CqlWire

namespace Dialect

variable {dialect dialect' : Dialect} {frame : Frame}

def inOrder (dialect : Dialect) (order : PayloadOrder) : Dialect :=
  { dialect with payloadOrder := order }

def sets (frame : Frame) (compressed : Bool) : HeaderFlag → Bool
  | .compressed => compressed
  | .tracing => frame.tracing || frame.tracingId.isSome
  | .customPayload => !frame.customPayload.isEmpty
  | .warning => !frame.warnings.isEmpty
  | .useBeta => frame.isBeta

def headerOf (frame : Frame) (compressed : Bool) (bodySize : Nat) : FrameHeader where
  version := frame.version
  isResponse := frame.isResponse
  flags := HeaderFlag.compressed.bitIf compressed ||| plainFlags frame
  streamId := frame.streamId
  opcode := frame.opcode
  bodyLength := Int32.ofNat bodySize

theorem has_bits (flag : HeaderFlag) : ∀ compressed tracing customPayload warning useBeta : Bool,
    ((HeaderFlag.compressed.bitIf compressed
      ||| (HeaderFlag.tracing.bitIf tracing
        ||| HeaderFlag.customPayload.bitIf customPayload
        ||| HeaderFlag.warning.bitIf warning
        ||| HeaderFlag.useBeta.bitIf useBeta)) &&& flag.bit ≠ 0)
      ↔
    (match flag with
      | .compressed => compressed
      | .tracing => tracing
      | .customPayload => customPayload
      | .warning => warning
      | .useBeta => useBeta) = true := by
  cases flag <;> decide

theorem has_headerOf (frame : Frame) (compressed : Bool) (bodySize : Nat) (flag : HeaderFlag) :
    (headerOf frame compressed bodySize).has flag = sets frame compressed flag := by
  unfold FrameHeader.has headerOf plainFlags
  rw [Bool.eq_iff_iff, decide_eq_true_iff]
  rw [has_bits]
  cases flag <;> rfl

theorem plainFlags_eq (frame : Frame) :
    plainFlags frame = HeaderFlag.compressed.bitIf false ||| plainFlags frame :=
  UInt8.zero_or.symm

theorem writeHeader_append_eq_ofBytes_iff {compressed : Bool} {bodySize : Nat} {rest : Written}
    {bytes : Bytes} :
    writeHeader frame (HeaderFlag.compressed.bitIf compressed ||| plainFlags frame) bodySize ++ rest
        = Written.ofBytes bytes
      ↔
    bodySize ≤ Format.maxInt ∧ ∃ body, rest = Written.ofBytes body
      ∧ bytes = (headerOf frame compressed bodySize).encode ++ body := by
  rw [Written.append_eq_ofBytes_iff]
  constructor
  · rintro ⟨front, body, hfront, hbody, rfl⟩
    obtain ⟨hle, hheader⟩ := Written.guarded_eq_ofBytes_iff.1 hfront
    rw [Written.ofBytes_inj] at hheader
    exact ⟨hle, body, hbody, by rw [← hheader]; rfl⟩
  · rintro ⟨hle, body, hbody, rfl⟩
    exact ⟨_, body, Written.guarded_eq_ofBytes_iff.2 ⟨hle, rfl⟩, hbody, rfl⟩

theorem reads_section {α : Type} {absent : Bool} {written : Written} {read : Reader α} {a blank : α}
    {size : Nat} {bytes : Bytes} (habsent : absent = true → a = blank)
    (hpresent : ∀ {bytes}, written = Written.ofBytes bytes →
      read.Reads bytes a ∧ bytes.length = size)
    (h : (if absent then Written.ofBytes [] else written) = Written.ofBytes bytes) :
    Reader.Reads (if !absent then read else pure blank) bytes a
      ∧ bytes.length = if absent then 0 else size := by
  cases absent with
  | false => exact hpresent h
  | true =>
    have : [] = bytes := Written.ofBytes_inj.1 h
    subst this
    rw [habsent rfl]
    exact ⟨.pure blank, rfl⟩

theorem reads_tracingId {id? : Option Uuid} {bytes : Bytes}
    (h : (match id? with
      | none => Written.ofBytes []
      | some id => Format.uuid.write id) = Written.ofBytes bytes) :
    Reader.Reads (if id?.isSome then some <$> Format.uuid.read else pure none) bytes id?
      ∧ bytes.length = if id?.isSome then Format.uuidWidth else 0 := by
  cases id? with
  | none =>
    have : [] = bytes := Written.ofBytes_inj.1 h
    subst this
    exact ⟨.pure none, rfl⟩
  | some id =>
    constructor
    · apply ((Format.uuid_roundTrips id).reads h).map
    · apply (Format.uuid_roundTrips id).length_eq h

theorem readBody_eq (dialect : Dialect) (header : FrameHeader) (size compressedSize : Int32) :
    dialect.readBody header size compressedSize
      =
    ((if header.isResponse && header.has .tracing then some <$> Format.uuid.read else pure none)
      >>= fun tracingId =>
      (if header.has .customPayload then Format.bytesMap.read else pure .empty)
        >>= fun customPayload =>
        (if header.isResponse && header.has .warning then Format.stringList.read else pure [])
          >>= fun warnings =>
          match dialect.registry.decoder header.version header.opcode with
          | .error error => Reader.fail error
          | .ok codec =>
            codec.read >>= fun message =>
              pure {
                version := header.version
                streamId := header.streamId
                tracing := header.has .tracing
                tracingId, size, compressedSize, customPayload, warnings, message
              }) := by
  unfold readBody
  dsimp only
  cases header.isResponse && header.has .tracing
    <;> cases header.has .customPayload
    <;> cases header.isResponse && header.has .warning
    <;> rfl

/-- The sections of a body are read as they were written, and are as long as is told. -/
structure Sections (codec : BodyCodec) (frame : Frame)
    (tracingId payload warnings message : Bytes) : Prop where
  tracingId : Reader.Reads
      (if frame.tracingId.isSome then some <$> Format.uuid.read else pure none) tracingId
        frame.tracingId
    ∧ tracingId.length = if frame.tracingId.isSome then Format.uuidWidth else 0
  payload : Reader.Reads
      (if !frame.customPayload.isEmpty then Format.bytesMap.read else pure .empty) payload
        frame.customPayload
    ∧ payload.length
        = if frame.customPayload.isEmpty then 0 else Format.bytesMap.size frame.customPayload
  warnings : Reader.Reads
      (if !frame.warnings.isEmpty then Format.stringList.read else pure []) warnings frame.warnings
    ∧ warnings.length = if frame.warnings.isEmpty then 0 else Format.stringList.size frame.warnings
  message : codec.read.Reads message frame.message
    ∧ codec.size frame.message = .ok message.length

theorem exists_sections {codec : BodyCodec} {body : Bytes}
    (h : dialect.writeBody codec frame = Written.ofBytes body) :
    ∃ tracingId payload warnings message,
      body = tracingId ++ payload ++ warnings ++ message
        ∧ Sections codec frame tracingId payload warnings message := by
  obtain ⟨sections, message, hsections, hmessage, rfl⟩ := Written.append_eq_ofBytes_iff.1 h
  obtain ⟨sections', warnings, hsections', hwarnings, rfl⟩ :=
    Written.append_eq_ofBytes_iff.1 hsections
  obtain ⟨tracingId, payload, htracingId, hpayload, rfl⟩ :=
    Written.append_eq_ofBytes_iff.1 hsections'
  refine ⟨tracingId, payload, warnings, message, rfl, ?_, ?_, ?_, ?_⟩
  · apply reads_tracingId htracingId
  · apply reads_section _ _ hpayload
    · apply StringMap.eq_empty_of_isEmpty
    · intro bytes hbytes
      apply Format.bytesMap_of_perm _ hbytes
      apply dialect.payloadOrder.perm
  · apply reads_section _ _ hwarnings
    · apply List.isEmpty_iff.1
    · intro bytes hbytes
      have hroundTrips := Format.stringList_roundTrips frame.warnings
      exact ⟨hroundTrips.reads hbytes, hroundTrips.length_eq hbytes⟩
  · apply BodyCodec.reads_of_write hmessage

theorem reads_body {codec : BodyCodec} {body : Bytes} (hwellFormed : frame.WellFormed)
    (hdecoder : dialect'.registry.decoder frame.version frame.opcode = .ok codec)
    (h : dialect.writeBody codec frame = Written.ofBytes body)
    (compressed : Bool) (bodySize : Nat) (size compressedSize : Int32) :
    (dialect'.readBody (headerOf frame compressed bodySize) size compressedSize).Reads body
      { frame with size, compressedSize } := by
  obtain ⟨tracingId, payload, warnings, message, rfl, hsections⟩ := exists_sections h
  rw [readBody_eq]
  simp only [has_headerOf, sets]
  simp only [headerOf, hwellFormed.isResponse_and_tracing, hwellFormed.isResponse_and_warnings]
  rw [hwellFormed.tracing_or]
  rw [hdecoder]
  rw [List.append_assoc, List.append_assoc]
  apply hsections.tracingId.1.bind
  apply hsections.payload.1.bind
  apply hsections.warnings.1.bind
  apply hsections.message.1.map

theorem writeBody_whole_iff {codec : BodyCodec} :
    (dialect.writeBody codec frame).Whole
      ↔
    (if frame.customPayload.isEmpty then Written.ofBytes []
        else (Format.entries .bytesMap Format.presentBytes).write
          (dialect.payloadOrder.arrange frame.customPayload.entries)).Whole
      ∧ (if frame.warnings.isEmpty then Written.ofBytes []
          else Format.stringList.write frame.warnings).Whole
      ∧ (codec.write frame.message).Whole := by
  unfold writeBody
  rw [Written.whole_append_iff, Written.whole_append_iff, Written.whole_append_iff]
  rw [and_assoc, and_assoc]
  apply and_iff_right
  cases frame.tracingId <;> rfl

theorem bodySize_eq_bodySizeWith {codec : BodyCodec} (h : dialect.encoder frame = .ok codec) :
    dialect.bodySize frame = bodySizeWith codec frame := by
  unfold bodySize
  rw [h]
  rfl

theorem bodySizeWith_of_writeBody {codec : BodyCodec} {body : Bytes}
    (h : dialect.writeBody codec frame = Written.ofBytes body) :
    bodySizeWith codec frame = .ok body.length := by
  obtain ⟨tracingId, payload, warnings, message, rfl, hsections⟩ := exists_sections h
  unfold bodySizeWith
  rw [hsections.message.2]
  rw [List.length_append, List.length_append, List.length_append]
  rw [hsections.tracingId.2, hsections.payload.2, hsections.warnings.2]
  rfl

theorem and_versionBits_of_supported {version : Version} (h : version ∈ Version.supported) :
    version &&& FrameHeader.versionBits = version := by
  have hall : Version.supported.all (fun version => version &&& FrameHeader.versionBits = version)
      = true := rfl
  exact of_decide_eq_true (List.all_eq_true.1 hall version h)

theorem toNatClampNeg_bodyLength (compressed : Bool) {bodySize : Nat}
    (hle : bodySize ≤ Format.maxInt) :
    (headerOf frame compressed bodySize).bodyLength.toNatClampNeg = bodySize := by
  simp only [Format.maxInt] at hle
  apply Int32.toNatClampNeg_ofNat_of_lt
  omega

theorem not_bodyLength_lt (compressed : Bool) {bodySize : Nat} (hle : bodySize ≤ Format.maxInt) :
    ¬ (headerOf frame compressed bodySize).bodyLength < 0 := by
  simp only [Format.maxInt] at hle
  rw [Int32.lt_iff_toInt_lt]
  change ¬ (Int32.ofNat bodySize).toInt < _
  rw [Int32.toInt_ofNat_of_lt (by omega)]
  simp

theorem delimited_headerOf (compressed : Bool) {body : Bytes}
    (hle : body.length ≤ Format.maxInt) :
    Delimited ((headerOf frame compressed body.length).encode ++ body) := by
  apply delimited_encode_append
  · apply not_bodyLength_lt compressed hle
  · apply toNatClampNeg_bodyLength compressed hle

theorem decode_headerOf (hversion : frame.version ∈ Version.supported) (compressed : Bool)
    {body : Bytes} (hle : body.length ≤ Format.maxInt) :
    dialect'.decode ((headerOf frame compressed body.length).encode ++ body)
      =
    if compressed then do
      let expanded ← dialect'.compressor.decompress body
      (dialect'.readBody (headerOf frame compressed body.length) (sizeWith expanded.length)
        (sizeWith body.length) expanded).1
    else
      (dialect'.readBody (headerOf frame compressed body.length) (sizeWith body.length)
        Frame.unknownSize body).1 := by
  have hheader : FrameHeader.decode? ((headerOf frame compressed body.length).encode ++ body)
      = some (headerOf frame compressed body.length) :=
    FrameHeader.decode?_encode_append (and_versionBits_of_supported hversion) body
  unfold decode
  rw [hheader]
  dsimp only
  rw [if_neg (not_bodyLength_lt compressed hle)]
  rw [FrameHeader.drop_encode_append]
  rw [toNatClampNeg_bodyLength compressed hle]
  rw [if_neg (by simp)]
  rw [has_headerOf]
  rfl

theorem exists_of_encode {bytes : Bytes} (h : dialect.encode frame = .ok bytes) :
    ∃ codec body bodySize,
      dialect.encoder frame = .ok codec
        ∧ bodySizeWith codec frame = .ok bodySize
        ∧ dialect.writeBody codec frame = Written.ofBytes body
        ∧ if dialect.compresses frame then
            ∃ compressed, dialect.compressor.compress body = .ok compressed
              ∧ compressed.length ≤ Format.maxInt
              ∧ bytes = (headerOf frame true compressed.length).encode ++ compressed
          else
            bodySize ≤ Format.maxInt ∧ bytes = (headerOf frame false bodySize).encode ++ body := by
  unfold encode at h
  obtain ⟨_, _, h⟩ := exists_of_bind_eq_ok h
  obtain ⟨codec, hcodec, h⟩ := exists_of_bind_eq_ok h
  obtain ⟨bodySize, hsize, h⟩ := exists_of_bind_eq_ok h
  split at h
  · next hcompresses =>
    obtain ⟨body, hbody, h⟩ := exists_of_bind_eq_ok h
    obtain ⟨compressed, hcompressed, h⟩ := exists_of_bind_eq_ok h
    rw [Written.toExcept_eq_ok_iff] at hbody h
    rw [flags, hcompresses] at h
    obtain ⟨hle, back, hback, hbytes⟩ := writeHeader_append_eq_ofBytes_iff.1 h
    rw [Written.ofBytes_inj] at hback
    subst hback
    refine ⟨codec, body, bodySize, hcodec, hsize, hbody, ?_⟩
    rw [if_pos hcompresses]
    exact ⟨compressed, hcompressed, hle, hbytes⟩
  · next hcompresses =>
    rw [Written.toExcept_eq_ok_iff] at h
    rw [flags, Bool.eq_false_iff.2 hcompresses] at h
    obtain ⟨hle, body, hbody, hbytes⟩ := writeHeader_append_eq_ofBytes_iff.1 h
    refine ⟨codec, body, bodySize, hcodec, hsize, hbody, ?_⟩
    rw [if_neg hcompresses]
    exact ⟨hle, hbytes⟩

theorem isNone_of_compresses (h : dialect.compresses frame = true) :
    dialect.compressor.isNone = false := by
  unfold compresses at h
  rw [Bool.and_eq_true, Bool.not_eq_true'] at h
  exact h.1

theorem write_some {bodySize : Nat} (h : dialect.bodySize frame = .ok bodySize) :
    dialect.write frame (some bodySize) = dialect.write frame none := by
  obtain ⟨codec, hcodec, hsize⟩ := exists_of_bind_eq_ok h
  unfold write
  rw [hcodec]
  cases frame.validate with
  | error error => rfl
  | ok _ =>
    simp only [Option.map_some, Option.map_none, Option.getD_some, Option.getD_none]
    rw [hsize]

theorem checkBodySize_eq_ofBytes_iff {expected : Nat} {written : Written} {bytes : Bytes} :
    checkBodySize frame expected written = Written.ofBytes bytes
      ↔
    written = Written.ofBytes bytes ∧ bytes.length - FrameHeader.size = expected := by
  unfold checkBodySize
  dsimp only
  constructor
  · intro h
    split at h
    · simp [Written.ofBytes] at h
    · next hlength =>
      subst h
      rw [Written.ofBytes, Option.isNone_none, Bool.true_and, decide_eq_true_iff] at hlength
      exact ⟨rfl, Decidable.not_not.1 hlength⟩
  · rintro ⟨rfl, rfl⟩
    apply if_neg
    simp [Written.ofBytes]

theorem write_eq_ofBytes_iff {bodySize? : Option Nat} {bytes : Bytes} :
    dialect.write frame bodySize? = Written.ofBytes bytes
      ↔
    frame.validate = .ok ()
      ∧ ∃ codec body, dialect.encoder frame = .ok codec
        ∧ dialect.writeBody codec frame = Written.ofBytes body
        ∧ bodySize?.getD body.length = body.length
        ∧ body.length ≤ Format.maxInt
        ∧ bytes = (headerOf frame false body.length).encode ++ body := by
  unfold write
  constructor
  · intro h
    split at h
    · exact absurd h (Written.refuse_ne_ofBytes _ _)
    · exact absurd h (Written.refuse_ne_ofBytes _ _)
    · next codec hvalidate hcodec =>
      split at h
      · exact absurd h (Written.refuse_ne_ofBytes _ _)
      · next bodySize hsize =>
        obtain ⟨hwritten, hlength⟩ := checkBodySize_eq_ofBytes_iff.1 h
        rw [plainFlags_eq] at hwritten
        obtain ⟨hle, body, hbody, rfl⟩ := writeHeader_append_eq_ofBytes_iff.1 hwritten
        rw [List.length_append, FrameHeader.length_encode, Nat.add_sub_cancel_left] at hlength
        subst hlength
        refine ⟨hvalidate, codec, body, hcodec, hbody, ?_, hle, rfl⟩
        cases bodySize? with
        | none => rfl
        | some bodySize => exact Except.ok.inj hsize
  · rintro ⟨hvalidate, codec, body, hcodec, hbody, hsize, hle, rfl⟩
    rw [hvalidate, hcodec]
    have hexpected : (bodySize?.map .ok).getD (bodySizeWith codec frame) = .ok body.length := by
      cases bodySize? with
      | none => exact bodySizeWith_of_writeBody hbody
      | some bodySize => exact congrArg Except.ok hsize
    dsimp only
    rw [hexpected]
    apply checkBodySize_eq_ofBytes_iff.2
    constructor
    · rw [plainFlags_eq]
      exact writeHeader_append_eq_ofBytes_iff.2 ⟨hle, body, hbody, rfl⟩
    · rw [List.length_append, FrameHeader.length_encode, Nat.add_sub_cancel_left]

theorem length_of_write {bodySize : Nat} {bytes : Bytes}
    (h : dialect.write frame (some bodySize) = Written.ofBytes bytes) :
    bytes.length = FrameHeader.size + bodySize := by
  obtain ⟨_, codec, body, _, _, hsize, _, rfl⟩ := write_eq_ofBytes_iff.1 h
  rw [List.length_append, FrameHeader.length_encode]
  rw [← hsize]
  rfl

theorem bodySize_of_write {bytes : Bytes} (h : dialect.write frame none = Written.ofBytes bytes) :
    ∃ bodySize, dialect.bodySize frame = .ok bodySize := by
  obtain ⟨_, codec, body, hcodec, hbody, _⟩ := write_eq_ofBytes_iff.1 h
  refine ⟨body.length, ?_⟩
  rw [bodySize_eq_bodySizeWith hcodec]
  exact bodySizeWith_of_writeBody hbody

section RoundTrip

variable {sender : Role} {compressor : Compressor} {order : PayloadOrder}

theorem decode_wellFormed {codec : BodyCodec} {body : Bytes} (hwellFormed : frame.WellFormed)
    (hcodec : (Registry.ofRole sender).encoder frame.version frame.opcode = .ok codec)
    (hbody : dialect.writeBody codec frame = Written.ofBytes body)
    (hle : body.length ≤ Format.maxInt) :
    (ofRole sender.peer compressor).decode ((headerOf frame false body.length).encode ++ body)
      =
    .ok { frame with size := sizeWith body.length, compressedSize := Frame.unknownSize } := by
  rw [decode_headerOf (Registry.supported_of_encoder hcodec) false hle]
  rw [if_neg Bool.false_ne_true]
  apply Reader.Reads.fst_eq
  apply reads_body hwellFormed _ hbody
  exact Registry.decoder_of_encoder hcodec

theorem decode_plain {codec : BodyCodec} {body : Bytes} (hmade : frame.MadeBy sender)
    (hcodec : (Registry.ofRole sender).encoder frame.version frame.opcode = .ok codec)
    (hbody : dialect.writeBody codec frame = Written.ofBytes body)
    (hle : body.length ≤ Format.maxInt) :
    (ofRole sender.peer compressor).decode ((headerOf frame false body.length).encode ++ body)
      =
    .ok { frame with size := sizeWith body.length, compressedSize := Frame.unknownSize } :=
  decode_wellFormed hmade.wellFormed hcodec hbody hle

theorem decode_compressed {codec : BodyCodec} {body compressed : Bytes}
    (hmade : frame.MadeBy sender)
    (hcodec : (Registry.ofRole sender).encoder frame.version frame.opcode = .ok codec)
    (hbody : dialect.writeBody codec frame = Written.ofBytes body)
    (hisNone : compressor.isNone = false) (hcompressed : compressor.compress body = .ok compressed)
    (hle : compressed.length ≤ Format.maxInt) :
    (ofRole sender.peer compressor).decode
        ((headerOf frame true compressed.length).encode ++ compressed)
      =
    if Compressor.maxExpanded < body.length then
      .error (.compression (.overLimit body.length Compressor.maxExpanded))
    else
      .ok { frame with
        size := sizeWith body.length
        compressedSize := sizeWith compressed.length } := by
  rw [decode_headerOf (Registry.supported_of_encoder hcodec) true hle]
  rw [if_pos rfl]
  change (compressor.decompress compressed >>= _) = _
  rw [Compressor.decompress_of_compress hisNone hcompressed]
  split
  · rfl
  · apply Reader.Reads.fst_eq
    apply reads_body hmade.wellFormed _ hbody
    exact Registry.decoder_of_encoder hcodec

theorem decode_of_encode {bytes : Bytes} (hmade : frame.MadeBy sender)
    (hencode : ((ofRole sender compressor).inOrder order).encode frame = .ok bytes) :
    ∃ bodySize header,
      (ofRole sender compressor).bodySize frame = .ok bodySize
        ∧ FrameHeader.decode? bytes = some header
        ∧ (ofRole sender.peer compressor).decode bytes
            =
          (if header.has .compressed ∧ Compressor.maxExpanded < bodySize then
            .error (.compression (.overLimit bodySize Compressor.maxExpanded))
          else
            .ok { frame with
              size := sizeWith bodySize
              compressedSize :=
                if header.has .compressed then Int32.ofNat bytes.length else Frame.unknownSize })
        ∧ (FrameHeader.size + bodySize ≤ Format.maxInt →
            (sizeWith bodySize).toInt = FrameHeader.size + bodySize)
        ∧ (bytes.length ≤ Format.maxInt → (Int32.ofNat bytes.length).toInt = bytes.length) := by
  have htoInt {n : Nat} (hle : n ≤ Format.maxInt) : (Int32.ofNat n).toInt = n := by
    simp only [Format.maxInt] at hle
    apply Int32.toInt_ofNat_of_lt
    omega
  obtain ⟨codec, body, bodySize, hcodec, hsize, hbody, hbytes⟩ := exists_of_encode hencode
  have hversion := and_versionBits_of_supported (Registry.supported_of_encoder hcodec)
  have hbodySize : (ofRole sender compressor).bodySize frame = .ok bodySize := by
    change ((ofRole sender compressor).inOrder order).encoder frame >>= (bodySizeWith · frame) = _
    rw [hcodec]
    exact hsize
  -- The size that was told is the length of the body.
  rw [bodySizeWith_of_writeBody hbody, Except.ok.injEq] at hsize
  subst hsize
  split at hbytes
  · next hcompresses =>
    obtain ⟨compressed, hcompressed, hle, rfl⟩ := hbytes
    refine ⟨body.length, headerOf frame true compressed.length, hbodySize, ?_, ?_, htoInt, htoInt⟩
    · exact FrameHeader.decode?_encode_append hversion compressed
    · -- The compressed length is that of all bytes, since the header is never compressed.
      unfold compresses at hcompresses
      rw [Bool.and_eq_true, Bool.not_eq_true'] at hcompresses
      have hdecode := decode_compressed hmade hcodec hbody hcompresses.1 hcompressed hle
      simp only [has_headerOf, sets, true_and, if_true]
      rw [List.length_append, FrameHeader.length_encode]
      exact hdecode
  · next hcompresses =>
    obtain ⟨hle, rfl⟩ := hbytes
    refine ⟨body.length, headerOf frame false body.length, hbodySize, ?_, ?_, htoInt, htoInt⟩
    · exact FrameHeader.decode?_encode_append hversion body
    · rw [decode_plain hmade hcodec hbody hle]
      simp only [has_headerOf, sets]
      rfl

def tracedRequest : Frame where
  version := .v4
  streamId := 7
  tracing := true
  tracingId := none
  size := Frame.unknownSize
  compressedSize := Frame.unknownSize
  customPayload := ⟨[("", [])], by decide⟩
  warnings := []
  message := .authResponse none

theorem decode_of_encode_tracedRequest :
    ∃ bytes, tracedRequest.MadeBy .client
      ∧ ((ofRole .client .lz4).inOrder .byKey).encode tracedRequest = .ok bytes
      ∧ (ofRole .server .lz4).decode bytes
          =
        .ok { tracedRequest with size := 21, compressedSize := 26 } := by
  have hmade : tracedRequest.MadeBy .client :=
    ⟨.v4, 7, true, ⟨[("", [])], by decide⟩, .authResponse none, rfl⟩
  have hencode : ((ofRole .client .lz4).inOrder .byKey).encode tracedRequest
      = .ok [4, 7, 0, 7, 15, 0, 0, 0, 17, 0, 0, 0, 12, 192, 0, 1, 0, 0, 0, 0, 0, 0, 255, 255, 255,
          255] := rfl
  obtain ⟨bodySize, header, hsize, hheader, hdecode, _⟩ := decode_of_encode hmade hencode
  cases hsize
  cases hheader
  exact ⟨_, hmade, hencode, hdecode⟩

end RoundTrip

end Dialect

end CqlWire
