import CqlWire.Proofs.Cutter
import CqlWire.Proofs.Segment
import CqlWire.Stream.Segments

/-!
This module contains why segments arrive as they were sent: a stream of them is cut where they were
put together.
-/

namespace CqlWire

namespace SegmentStream

theorem nextPayload_of_some {compressor : Compressor} {header : SegmentHeader}
    {held body rest : Bytes}
    (h : held.split? (header.payloadLength + Segment.trailerSize) = some (body, rest)) :
    nextPayload compressor header held
      =
    match Segment.decode compressor header body with
    | .ok segment => .item segment .header rest
    | .error error => .fail error .header rest := by
  cases hdecode : Segment.decode compressor header body <;> simp [nextPayload, h, hdecode]

theorem next_of_some {compressor : Compressor} {held front rest : Bytes}
    (h : held.split? (SegmentHeader.size compressor) = some (front, rest)) :
    next compressor .header held
      =
    match (SegmentHeader.read compressor front).1 with
    | .ok header => nextPayload compressor header rest
    | .error error => .fail error .header rest := by
  cases hread : (SegmentHeader.read compressor front).1 <;> simp [next, h, hread]

theorem nextPayload_continues (compressor : Compressor) (header : SegmentHeader)
    (held more : Bytes) :
    (cutter compressor).Continues more (nextPayload compressor header (held ++ more))
      (nextPayload compressor header held) := by
  cases hsplit : held.split? (header.payloadLength + Segment.trailerSize) with
  | none =>
    have : nextPayload compressor header held = .wait (.payload header) held := by
      unfold nextPayload
      rw [hsplit]
    rw [this]
    rfl
  | some parts =>
    rw [nextPayload_of_some hsplit]
    rw [nextPayload_of_some (Bytes.split?_append_of_some hsplit more)]
    cases Segment.decode compressor header parts.1 <;> rfl

theorem cutter_local (compressor : Compressor) : (cutter compressor).Local := by
  apply Cutter.Local.of_continues
  intro state held more
  cases state with
  | header =>
    change (cutter compressor).Continues more (next compressor .header (held ++ more))
      (next compressor .header held)
    cases hsplit : held.split? (SegmentHeader.size compressor) with
    | none =>
      have : next compressor .header held = .wait .header held := by
        rw [next]
        rw [hsplit]
      rw [this]
      rfl
    | some parts =>
      rw [next_of_some hsplit]
      rw [next_of_some (Bytes.split?_append_of_some hsplit more)]
      cases (SegmentHeader.read compressor parts.1).1 with
      | error error => rfl
      | ok header => apply nextPayload_continues
  | payload header => apply nextPayload_continues

theorem settled_fresh (compressor : Compressor) : (cutter compressor).Settled ⟨.header, []⟩ := by
  cases compressor <;> rfl

theorem next_encoded (compressor : Compressor) {segment : Segment}
    (hle : segment.payload.length ≤ Segment.maxPayload) (rest : Bytes) :
    next compressor .header
      ((segment.headerOf compressor).encode compressor ++ segment.bodyOf compressor ++ rest)
      =
    .item segment .header rest := by
  have hheader := Bytes.split?_append ((segment.headerOf compressor).encode compressor)
    (segment.bodyOf compressor ++ rest)
  rw [SegmentHeader.length_encode] at hheader
  have hread := (SegmentHeader.reads_encode (Segment.fits_headerOf compressor hle)).fst_eq
  have hbody := Bytes.split?_append (segment.bodyOf compressor) rest
  rw [Segment.length_bodyOf] at hbody
  rw [List.append_assoc]
  rw [next_of_some hheader]
  rw [hread]
  dsimp only
  rw [nextPayload_of_some hbody]
  rw [Segment.decode_bodyOf]

theorem drain_encoded (compressor : Compressor) {segments : List Segment}
    (hle : ∀ segment ∈ segments, segment.payload.length ≤ Segment.maxPayload) :
    (cutter compressor).drain ⟨.header, segments.flatMap fun segment =>
      (segment.headerOf compressor).encode compressor ++ segment.bodyOf compressor⟩
      =
    (.ok segments, ⟨.header, []⟩) := by
  induction segments with
  | nil =>
    apply Cutter.drain_of_settled (settled_fresh compressor)
  | cons segment rest ih =>
    rw [List.flatMap_cons]
    rw [Cutter.drain_of_item (next_encoded compressor (hle segment (by simp)) _)]
    rw [ih (by intro segment' hmem; apply hle; simp [hmem])]
    rfl

theorem feed_push (stream : SegmentStream) (pieces : List Bytes) :
    feed push stream pieces
      =
    ((feed (cutter stream.compressor).push stream.held pieces).1,
      { stream with held := (feed (cutter stream.compressor).push stream.held pieces).2 }) := by
  apply feed_of_push_eq fun held => ({ stream with held } : SegmentStream)
  intro held piece
  rfl

theorem feed_encoded (compressor : Compressor) {segments : List Segment} {pieces : List Bytes}
    (hle : ∀ segment ∈ segments, segment.payload.length ≤ Segment.maxPayload)
    (hpieces : pieces.flatten = segments.flatMap fun segment =>
      (segment.headerOf compressor).encode compressor ++ segment.bodyOf compressor) :
    feed push (ofCompressor compressor) pieces = (.ok segments, ofCompressor compressor) := by
  have hwhole : (cutter compressor).push ⟨.header, []⟩ pieces.flatten
      = (.ok segments, ⟨.header, []⟩) := by
    rw [hpieces]
    exact drain_encoded compressor hle
  rw [feed_push]
  rw [ofCompressor]
  rw [(cutter_local compressor).feed_of_push_ok (settled_fresh compressor) hwhole]

end SegmentStream

end CqlWire
