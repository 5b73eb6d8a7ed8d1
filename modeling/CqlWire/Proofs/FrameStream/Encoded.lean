import CqlWire.Proofs.Decoded
import CqlWire.Proofs.FrameStream

/-!
This module contains that frames which are encoded by one side come out of a stream on the other
side, into whatever pieces the stream is cut on its way.
-/

namespace CqlWire

namespace Dialect

variable {dialect : Dialect} {frame : Frame} {bytes : Bytes}

theorem exists_body_of_encode (h : dialect.encode frame = .ok bytes) :
    ∃ codec body,
      dialect.encoder frame = .ok codec
        ∧ dialect.writeBody codec frame = Written.ofBytes body
        ∧ dialect.bodySize frame = .ok body.length
        ∧ if dialect.compresses frame then
            ∃ compressed, dialect.compressor.compress body = .ok compressed
              ∧ compressed.length ≤ Format.maxInt
              ∧ bytes = (headerOf frame true compressed.length).encode ++ compressed
          else
            body.length ≤ Format.maxInt
              ∧ bytes = (headerOf frame false body.length).encode ++ body := by
  obtain ⟨codec, body, bodySize, hcodec, hsize, hbody, hbytes⟩ := exists_of_encode h
  rw [bodySizeWith_of_writeBody hbody, Except.ok.injEq] at hsize
  subst hsize
  refine ⟨codec, body, hcodec, hbody, ?_, hbytes⟩
  rw [bodySize_eq_bodySizeWith hcodec]
  exact bodySizeWith_of_writeBody hbody

theorem delimited_of_encode (h : dialect.encode frame = .ok bytes) : Delimited bytes := by
  obtain ⟨_, body, _, _, _, hbytes⟩ := exists_body_of_encode h
  split at hbytes
  · obtain ⟨compressed, _, hle, rfl⟩ := hbytes
    apply delimited_headerOf true hle
  · obtain ⟨hle, rfl⟩ := hbytes
    apply delimited_headerOf false hle

theorem exists_frame_of_encode {sender : Role} {compressor : Compressor} {order : PayloadOrder}
    (hmade : frame.MadeBy sender)
    (h : ((ofRole sender compressor).inOrder order).encode frame = .ok bytes)
    (hsize : ∀ bodySize, (ofRole sender compressor).bodySize frame = .ok bodySize →
      bodySize ≤ Compressor.maxExpanded) :
    ∃ frame', (ofRole sender.peer compressor).decode bytes = .ok frame'
      ∧ frame'.unsized = frame.unsized := by
  obtain ⟨codec, body, hcodec, hbody, hbodySize, hbytes⟩ := exists_body_of_encode h
  split at hbytes
  · next hcompresses =>
    obtain ⟨compressed, hcompressed, hle, rfl⟩ := hbytes
    have hdecode := decode_compressed hmade hcodec hbody (isNone_of_compresses hcompresses)
      hcompressed hle
    rw [if_neg (Nat.not_lt.2 (hsize _ hbodySize))] at hdecode
    exact ⟨_, hdecode, rfl⟩
  · obtain ⟨hle, rfl⟩ := hbytes
    exact ⟨_, decode_plain hmade hcodec hbody hle, rfl⟩

end Dialect

namespace FrameStream

theorem Frames.of_accepted {limit : Nat} {frames : List Bytes}
    (h : ∀ frame ∈ frames, Accepted limit frame) : Frames limit frames.flatten frames [] where
  bytes_eq := by simp
  accepted := h
  rest_ne := by
    intro frame more hrest haccepted
    have hsize := haccepted.1.size_le
    rw [List.append_eq_nil_iff.1 hrest.symm |>.1] at hsize
    simp [FrameHeader.size] at hsize

theorem feed_of_accepted {limit : Nat} {frames pieces : List Bytes}
    (h : ∀ frame ∈ frames, Accepted limit frame) (hpieces : pieces.flatten = frames.flatten) :
    feed push (ofLimit limit) pieces = (.ok frames, ofLimit limit) := by
  apply feed_ofLimit_of_ok
  rw [hpieces]
  exact push_ofLimit (Frames.of_accepted h)

/-- A frame that a side makes, and what it is encoded as, small enough for the other side. -/
structure SentAs (sender : Role) (compressor : Compressor) (limit : Nat) (frame : Frame)
    (bytes : Bytes) : Prop where
  madeBy : frame.MadeBy sender
  encode_eq : ∃ order, ((Dialect.ofRole sender compressor).inOrder order).encode frame = .ok bytes
  bodySize_le : ∀ bodySize, (Dialect.ofRole sender compressor).bodySize frame = .ok bodySize →
    bodySize ≤ Compressor.maxExpanded
  length_le : (bytes.drop FrameHeader.size).length ≤ limit

namespace SentAs

variable {sender : Role} {compressor : Compressor} {limit : Nat} {frame : Frame} {bytes : Bytes}

theorem accepted (h : SentAs sender compressor limit frame bytes) : Accepted limit bytes := by
  obtain ⟨order, hencode⟩ := h.encode_eq
  have hlength := h.length_le
  rw [List.length_drop] at hlength
  constructor
  · exact Dialect.delimited_of_encode hencode
  · omega

theorem exists_frame (h : SentAs sender compressor limit frame bytes) :
    ∃ frame', (Dialect.ofRole sender.peer compressor).decode bytes = .ok frame'
      ∧ frame'.unsized = frame := by
  obtain ⟨order, hencode⟩ := h.encode_eq
  rw [← h.madeBy.unsized_eq]
  exact Dialect.exists_frame_of_encode h.madeBy hencode h.bodySize_le

end SentAs

/--
Frames that are sent one behind the other come out of the stream as they were encoded, in their
order, and are read as they were made. Nothing is held back.
-/
theorem feed_sent {sender : Role} {compressor : Compressor} {limit : Nat}
    {sent : List (Frame × Bytes)} {pieces : List Bytes}
    (hsent : ∀ pair ∈ sent, SentAs sender compressor limit pair.1 pair.2)
    (hpieces : pieces.flatten = (sent.map (·.2)).flatten) :
    feed push (ofLimit limit) pieces = (.ok (sent.map (·.2)), ofLimit limit)
      ∧ ∀ pair ∈ sent, ∃ frame, (Dialect.ofRole sender.peer compressor).decode pair.2 = .ok frame
        ∧ frame.unsized = pair.1 := by
  constructor
  · apply feed_of_accepted _ hpieces
    intro bytes hmem
    obtain ⟨pair, hpair, rfl⟩ := List.mem_map.1 hmem
    exact (hsent pair hpair).accepted
  · intro pair hpair
    exact (hsent pair hpair).exists_frame

def plainAndCompressed : List (Frame × Bytes) := [
  ({ Dialect.tracedRequest with message := .options },
    [4, 6, 0, 7, 5, 0, 0, 0, 8, 0, 1, 0, 0, 0, 0, 0, 0]),
  (Dialect.tracedRequest,
    [4, 7, 0, 7, 15, 0, 0, 0, 17, 0, 0, 0, 12, 192, 0, 1, 0, 0, 0, 0, 0, 0, 255, 255, 255, 255])
]

theorem feed_sent_plain_and_compressed :
    let bytes := (plainAndCompressed.map (·.2)).flatten
    (∀ pair ∈ plainAndCompressed, SentAs .client .lz4 17 pair.1 pair.2)
      ∧ feed push (ofLimit 17) [bytes.take 5, [], bytes.drop 5]
          = (.ok (plainAndCompressed.map (·.2)), ofLimit 17)
      ∧ ∀ pair ∈ plainAndCompressed,
        ∃ frame, (Dialect.ofRole .server .lz4).decode pair.2 = .ok frame
          ∧ frame.unsized = pair.1 := by
  intro bytes
  have hsent : ∀ pair ∈ plainAndCompressed, SentAs .client .lz4 17 pair.1 pair.2 := by
    rw [plainAndCompressed, List.forall_mem_cons, List.forall_mem_singleton]
    constructor
    · refine ⟨⟨.v4, 7, true, Dialect.tracedRequest.customPayload, .options, rfl⟩, ⟨.byKey, rfl⟩,
        ?_, by decide⟩
      intro bodySize hsize
      cases hsize
      decide
    · refine ⟨⟨.v4, 7, true, Dialect.tracedRequest.customPayload, .authResponse none, rfl⟩,
        ⟨.byKey, rfl⟩, ?_, by decide⟩
      intro bodySize hsize
      cases hsize
      decide
  have hpieces : [bytes.take 5, [], bytes.drop 5].flatten = bytes := rfl
  have hfeed := feed_sent hsent hpieces
  exact ⟨hsent, hfeed⟩

end FrameStream

end CqlWire
