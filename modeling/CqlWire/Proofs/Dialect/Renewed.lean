import CqlWire.Proofs.Decoded

/-!
This module contains why reading, writing and reading again is stable. Whatever a reader puts up
with is gone once the frame is written, in no more bytes, and the frame is still the same.
-/

namespace CqlWire

namespace Dialect

variable {dialect : Dialect} {frame : Frame} {src rest : Bytes}

theorem condenses_section {α : Type} (isEmpty : α → Bool) {format : Format α} {written : Written}
    {present : Bool} {a blank : α} (hformat : format.Condenses) (hblank : isEmpty blank = true)
    (hwritten : (format.write a).Whole → written.Whole)
    (h : (if present then format.read else pure blank) src = (.ok a, rest)) :
    (if isEmpty a then Written.ofBytes [] else written).Whole
      ∧ (if isEmpty a then 0 else format.size a) + rest.length ≤ src.length := by
  cases present with
  | false =>
    cases h
    rw [hblank]
    exact ⟨rfl, Nat.le_of_eq (Nat.zero_add _)⟩
  | true =>
    obtain ⟨hwhole, hle⟩ := hformat h
    cases isEmpty a with
    | false => exact ⟨hwritten hwhole, hle⟩
    | true =>
      -- A section that is announced but empty is left out.
      refine ⟨rfl, ?_⟩
      rw [if_pos rfl]
      omega

theorem condenses_tracingId {present : Bool} {id? : Option Uuid}
    (h : (if present then some <$> Format.uuid.read else pure none : Reader (Option Uuid)) src
      = (.ok id?, rest)) :
    (if id?.isSome then Format.uuidWidth else 0) + rest.length ≤ src.length := by
  cases present with
  | false =>
    cases h
    exact Nat.le_of_eq (Nat.zero_add _)
  | true =>
    obtain ⟨id, hid, rfl⟩ := Reader.exists_of_map h
    exact (Format.fixed_condenses _ _ _ hid).2

theorem SectionsRead.exists_body {header : FrameHeader} {codec : BodyCodec}
    {afterId afterPayload afterWarnings : Bytes} (dialect : Dialect)
    (h : SectionsRead header codec frame src afterId afterPayload afterWarnings rest) :
    ∃ body, dialect.writeBody codec frame = Written.ofBytes body
      ∧ body.length + rest.length ≤ src.length := by
  have hperm := dialect.payloadOrder.perm frame.customPayload.entries
  have hidLength := condenses_tracingId h.tracingId
  obtain ⟨hpayload, hpayloadLength⟩ := condenses_section StringMap.isEmpty
    Format.bytesMap_condenses rfl
    (Format.counted_whole_of_subset (Nat.le_of_eq hperm.length_eq) hperm.subset) h.payload
  obtain ⟨hwarnings, hwarningsLength⟩ := condenses_section List.isEmpty
    Format.stringList_condenses rfl id h.warnings
  obtain ⟨hmessage, messageSize, hmessageSize, hmessageLength⟩ := BodyCodec.condenses h.message
  have hwhole : (dialect.writeBody codec frame).Whole :=
    writeBody_whole_iff.2 ⟨hpayload, hwarnings, hmessage⟩
  obtain ⟨body, hbody⟩ := Written.whole_iff.1 hwhole
  refine ⟨body, hbody, ?_⟩
  -- The body is as long as is told ahead, which is section by section.
  have hsize := bodySizeWith_of_writeBody hbody
  unfold bodySizeWith at hsize
  rw [hmessageSize] at hsize
  have hlength : _ + _ + _ + messageSize = body.length := Except.ok.inj hsize
  rw [← hlength]
  omega

/--
A frame that is read behind a header that tells its direction, and whose version allows all that it
carries, can be written by the peer of the side that read it. The body is no longer than the one
that it was read off, and reads as the same frame again.
-/
theorem decode_renewed {role : Role} {compressor compressor' : Compressor} {bytes : Bytes}
    {header : FrameHeader} (order : PayloadOrder)
    (h : (ofRole role compressor).decode bytes = .ok frame)
    (hheader : FrameHeader.decode? bytes = some header)
    (hdirection : header.isResponse = frame.isResponse) (hvalidate : frame.validate = .ok ()) :
    ∃ expanded renewed frame',
      (ofRole role compressor).expandedBody header bytes = .ok expanded
        ∧ ((ofRole role.peer compressor').inOrder order).write frame none = Written.ofBytes renewed
        ∧ (renewed.drop FrameHeader.size).length ≤ expanded.length
        ∧ (ofRole role compressor).decode renewed = .ok frame'
        ∧ frame'.unsized = frame.unsized := by
  obtain ⟨header', _, _, expanded, rest, hheader', hexpanded, hle, hbody⟩ :=
    exists_expandedBody_of_decode h
  rw [hheader, Option.some.injEq] at hheader'
  subst hheader'
  obtain ⟨codec, _, _, _, hdecoder, hsections⟩ := exists_sections_of_readBody hbody
  have hbehind := hsections.readBehind hdecoder
  obtain ⟨body, hwritten, hlength⟩ :=
    hsections.exists_body ((ofRole role.peer compressor').inOrder order)
  have hcodec := Registry.encoder_of_decoder hdecoder
  rw [← hbehind.version_eq, ← hbehind.opcode_eq] at hcodec
  have hbodyLe : body.length ≤ Format.maxInt := by omega
  have hwellFormed := (wellFormed_iff_of_readBehind hbehind).2 (.inl hdirection)
  have hdecode : (ofRole role.peer.peer compressor).decode _ = _ :=
    decode_wellFormed hwellFormed hcodec hwritten hbodyLe
  rw [Role.peer_peer] at hdecode
  refine ⟨expanded, _, _, hexpanded, ?_, ?_, hdecode, rfl⟩
  · exact write_eq_ofBytes_iff.2 ⟨hvalidate, codec, body, hcodec, hwritten, rfl, hbodyLe, rfl⟩
  · rw [FrameHeader.drop_encode_append]
    omega

/--
Flags without a meaning, keys out of order and one of them twice, lengths below zero, and a byte
behind the message.
-/
def looseBytes : Bytes :=
  [4, 0xE4, 0, 7, 15, 0, 0, 0, 30]
    ++ [0, 3]
    ++ [0, 1, 0x62, 0xFF, 0xFF, 0xFF, 0xFE]
    ++ [0, 1, 0x61, 0, 0, 0, 1, 9]
    ++ [0, 1, 0x61, 0x80, 0, 0, 0]
    ++ [0x80, 0, 0, 0, 1, 1]

def looseFrame : Frame where
  version := .v4
  streamId := 7
  tracing := false
  tracingId := none
  size := 39
  compressedSize := Frame.unknownSize
  customPayload := .ofList [("b", []), ("a", [9]), ("a", [])]
  warnings := []
  message := .authResponse none

theorem decode_renewed_looseFrame :
    (ofRole .server .lz4).decode looseBytes = .ok looseFrame
      ∧ (FrameHeader.decode? looseBytes).map (·.isResponse) = some looseFrame.isResponse
      ∧ looseFrame.validate = .ok ()
      ∧ ∃ renewed frame',
        ((ofRole .client .none).inOrder .byKey).write looseFrame none = Written.ofBytes renewed
          ∧ (renewed.drop FrameHeader.size).length ≤ 30
          ∧ (ofRole .server .lz4).decode renewed = .ok frame'
          ∧ frame'.unsized = looseFrame.unsized := by
  have hdecode : (ofRole .server .lz4).decode looseBytes = .ok looseFrame := rfl
  obtain ⟨expanded, renewed, frame', hexpanded, hrenewed⟩ :=
    decode_renewed .byKey hdecode rfl rfl rfl
  cases hexpanded
  exact ⟨hdecode, rfl, rfl, renewed, frame', hrenewed⟩

end Dialect

end CqlWire
