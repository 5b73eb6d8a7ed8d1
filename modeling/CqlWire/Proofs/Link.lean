import CqlWire.Link
import CqlWire.Proofs.Packer.Conserved
import CqlWire.Proofs.SegmentStream
import CqlWire.Proofs.Unpacker.Conserved

/-!
This module contains that what is packed on the one end of a connection comes out on the other end,
into whatever pieces the stream is cut on its way.
-/

namespace CqlWire

namespace Link

namespace Receiver

theorem foldl_takeSegment {receiver : Receiver} {segments : List Segment} {frames : List Bytes}
    {unpacker : Unpacker} (hfault : receiver.fault = none)
    (h : feed Unpacker.push receiver.unpacker segments = (.ok frames, unpacker)) :
    segments.foldl takeSegment receiver
      =
    { receiver with
      unpacker
      received := receiver.received ++ frames.map receiver.dialect.decode } := by
  induction segments generalizing receiver frames with
  | nil =>
    simp only [feed_nil, Prod.mk.injEq, Except.ok.injEq] at h
    obtain ⟨rfl, rfl⟩ := h
    simp
  | cons segment rest ih =>
    obtain ⟨first, second, next, hpush, hrest, rfl⟩ := exists_of_feed_cons_ok h
    have htake : receiver.takeSegment segment
        = { receiver with
            unpacker := next
            received := receiver.received ++ first.map receiver.dialect.decode } := by
      unfold takeSegment
      rw [hfault, hpush]
      rfl
    rw [List.foldl_cons]
    rw [htake]
    rw [ih _ hrest]
    · simp
    · exact hfault

theorem foldl_take {receiver : Receiver} {pieces : List Bytes} {segments : List Segment}
    {frames : List Bytes} {stream : SegmentStream} {unpacker : Unpacker}
    (hfault : receiver.fault = none)
    (hstream : feed SegmentStream.push receiver.stream pieces = (.ok segments, stream))
    (hunpacker : feed Unpacker.push receiver.unpacker segments = (.ok frames, unpacker)) :
    pieces.foldl take receiver
      =
    { receiver with
      stream
      unpacker
      received := receiver.received ++ frames.map receiver.dialect.decode } := by
  induction pieces generalizing receiver segments frames with
  | nil =>
    simp only [feed_nil, Prod.mk.injEq, Except.ok.injEq] at hstream
    obtain ⟨rfl, rfl⟩ := hstream
    simp only [feed_nil, Prod.mk.injEq, Except.ok.injEq] at hunpacker
    obtain ⟨rfl, rfl⟩ := hunpacker
    simp
  | cons piece rest ih =>
    obtain ⟨first, second, next, hpush, hrest, rfl⟩ := exists_of_feed_cons_ok hstream
    obtain ⟨frames, later, middle, hfirst, hsecond, rfl⟩ := exists_of_feed_append_ok hunpacker
    have htake : receiver.take piece
        = { receiver with
            stream := next
            unpacker := middle
            received := receiver.received ++ frames.map receiver.dialect.decode } := by
      have hnext : ({ receiver with stream := next } : Receiver).fault = none := hfault
      unfold take
      rw [if_neg (by rw [hfault]; exact Bool.false_ne_true)]
      rw [hpush]
      exact foldl_takeSegment hnext hfirst
    rw [List.foldl_cons]
    rw [htake]
    rw [ih _ hrest hsecond]
    · simp
    · exact hfault

end Receiver

section Pipeline

open Packer

variable {S : Type}

theorem delimited_bytes {dialect : Dialect} {item : Item S} (h : item.Writable dialect) :
    Delimited (item.bytes dialect) := by
  obtain ⟨_, _, _, _, _, _, hle, hbytes⟩ := Dialect.write_eq_ofBytes_iff.1 h.written_eq
  rw [hbytes]
  apply Dialect.delimited_headerOf false hle

def arrival (dialect : Dialect) (item : Item S) : Frame :=
  { item.frame with
    size := Int32.ofNat (item.bytes dialect).length
    compressedSize := Frame.unknownSize }

theorem decode_bytes {sender : Role} {compressor : Compressor} {item : Item S}
    (hmade : item.frame.MadeBy sender) (h : item.Writable (.ofRole sender compressor)) :
    (Dialect.ofRole sender.peer compressor).decode (item.bytes (.ofRole sender compressor))
      =
    .ok (arrival (.ofRole sender compressor) item) := by
  obtain ⟨_, codec, body, hcodec, hbody, _, hle, hbytes⟩ :=
    Dialect.write_eq_ofBytes_iff.1 h.written_eq
  unfold arrival
  rw [hbytes]
  rw [Dialect.decode_plain hmade hcodec hbody hle]
  rw [List.length_append, FrameHeader.length_encode]
  rfl

theorem carries_parcel {packer : Packer S} {parcel : Parcel S} (h : parcel.Sound packer)
    {segments : List Segment} {frames : List Bytes} (hrest : Unpacker.Carries segments frames) :
    Unpacker.Carries ((parcel.segments packer).map (·.1) ++ segments)
      (parcel.items.map (·.bytes packer.dialect) ++ frames) := by
  cases parcel with
  | batch batch =>
    rw [Parcel.segments, Parcel.items, List.map_singleton]
    rw [List.flatMap_def]
    exact .whole _ hrest
  | slices item =>
    obtain ⟨_, hlong, hparts⟩ := h
    have hsegments : (packer.sliced item).map (·.1)
        = (packer.slices item).map fun slice => ⟨slice, false⟩ := by
      unfold sliced
      apply List.map_fst_zip
      apply Nat.le_of_eq
      rw [List.length_map, hparts]
    rw [Parcel.segments, Parcel.items, List.map_singleton]
    rw [hsegments]
    rw [← (cutInto_slices hlong).flatten_eq]
    exact .sliced _ hrest

theorem carries_parcels {packer : Packer S} {parcels : List (Parcel S)}
    (h : ∀ parcel ∈ parcels, parcel.Sound packer) :
    Unpacker.Carries ((parcels.flatMap (·.segments packer)).map (·.1))
      ((parcels.flatMap Parcel.items).map (·.bytes packer.dialect)) := by
  induction parcels with
  | nil => exact .nothing
  | cons parcel rest ih =>
    rw [List.forall_mem_cons] at h
    rw [List.flatMap_cons, List.flatMap_cons, List.map_append, List.map_append]
    exact carries_parcel h.1 (ih h.2)

theorem feed_parcels {packer : Packer S} {parcels : List (Parcel S)}
    (h : ∀ parcel ∈ parcels, parcel.Sound packer) :
    feed Unpacker.push .empty ((parcels.flatMap (·.segments packer)).map (·.1))
      =
    (.ok ((parcels.flatMap Parcel.items).map (·.bytes packer.dialect)), .empty) := by
  apply Unpacker.feed_of_carries (carries_parcels h)
  intro frame hmem
  obtain ⟨item, hitems, rfl⟩ := List.mem_map.1 hmem
  obtain ⟨parcel, hparcel, hitem⟩ := List.mem_flatMap.1 hitems
  apply delimited_bytes
  apply Parcel.writable_of_mem (h parcel hparcel) hitem

theorem length_payload_le {packer : Packer S} {parcels : List (Parcel S)}
    (h : ∀ parcel ∈ parcels, parcel.Sound packer) :
    ∀ segment ∈ (parcels.flatMap (·.segments packer)).map (·.1),
      segment.payload.length ≤ Segment.maxPayload := by
  intro segment hmem
  obtain ⟨segment', hsegment', rfl⟩ := List.mem_map.1 hmem
  obtain ⟨parcel, hparcel, hsegment'⟩ := List.mem_flatMap.1 hsegment'
  apply Nat.le_trans _ packer.limit.le
  apply Parcel.length_payload_le (h parcel hparcel) hsegment'

theorem exists_sent (compressor : Compressor) {segments : List Segment}
    (hle : ∀ segment ∈ segments, segment.payload.length ≤ Segment.maxPayload) :
    ∃ sent, (segments.mapM fun segment => do pure (segment, ← segment.encode compressor))
        = (.ok sent : Except Failure (List (Segment × SegmentParts)))
      ∧ wire sent = segments.flatMap fun segment =>
          (segment.headerOf compressor).encode compressor ++ segment.bodyOf compressor := by
  induction segments with
  | nil => exact ⟨[], rfl, rfl⟩
  | cons segment rest ih =>
    obtain ⟨sent, hsent, hwire⟩ := ih fun segment hmem => hle segment (List.mem_cons_of_mem _ hmem)
    obtain ⟨parts, hparts, hbytes⟩ := Segment.encode_eq compressor (hle segment List.mem_cons_self)
    refine ⟨(segment, parts) :: sent, ?_, ?_⟩
    · apply mapM_cons_eq_ok_iff.2
      refine ⟨_, sent, ?_, hsent, rfl⟩
      rw [hparts]
      rfl
    · unfold wire at *
      rw [List.flatMap_cons, List.flatMap_cons]
      rw [hwire, hbytes]

theorem receive_of_parcels {sender : Role} {compressor : Compressor} {start : Packer S}
    {parcels : List (Parcel S)} (hdialect : start.dialect = .ofRole sender compressor)
    (hsound : ∀ parcel ∈ parcels, parcel.Sound start)
    (hmade : ∀ item ∈ parcels.flatMap Parcel.items, item.frame.MadeBy sender) :
    ∃ sent, (((parcels.flatMap (·.segments start)).map (·.1)).mapM fun segment => do
        pure (segment, ← segment.encode compressor))
        = (.ok sent : Except Failure (List (Segment × SegmentParts)))
      ∧ ∀ pieces : List Bytes, pieces.flatten = wire sent →
        receive sender.peer compressor pieces
          =
        { Receiver.ofRole sender.peer compressor with
          received := (parcels.flatMap Parcel.items).map fun item =>
            .ok (arrival start.dialect item) } := by
  -- All segments fit the wire, and arrive as they were sent.
  have hle := length_payload_le hsound
  obtain ⟨sent, hsent, hwire⟩ := exists_sent compressor hle
  refine ⟨sent, hsent, ?_⟩
  intro pieces hpieces
  have hfault : (Receiver.ofRole sender.peer compressor).fault = none := rfl
  have hstream := SegmentStream.feed_encoded compressor hle (hpieces.trans hwire)
  have hreceived : ((parcels.flatMap Parcel.items).map (·.bytes start.dialect)).map
        (Dialect.ofRole sender.peer compressor).decode
      = (parcels.flatMap Parcel.items).map fun item => .ok (arrival start.dialect item) := by
    rw [List.map_map]
    apply List.map_congr_left
    intro item hmem
    obtain ⟨parcel, hparcel, hitem⟩ := List.mem_flatMap.1 hmem
    have hwritable := Parcel.writable_of_mem (hsound parcel hparcel) hitem
    rw [hdialect] at hwritable ⊢
    exact decode_bytes (hmade item hmem) hwritable
  unfold receive
  rw [Receiver.foldl_take hfault hstream (feed_parcels hsound)]
  rw [← hreceived]
  rfl

/-- Items that come out in two rows are all there if each row is. -/
theorem perm_of_filter_eq {items items' : List (Item S)} {p : Item S → Bool}
    (h : items.filter p = items'.filter p) (h' : items.filter (!p ·) = items'.filter (!p ·)) :
    items.Perm items' := by
  have hitems := List.filter_append_perm p items
  rw [h, h'] at hitems
  apply hitems.symm.trans
  apply List.filter_append_perm

theorem receive_of_run {sender : Role} (compressor : Compressor) (limit : PayloadLimit)
    (policy : StatePolicy S) (hasListener : Bool) (calls : List (Call S))
    (hmade : ∀ item ∈ submitted calls, item.frame.MadeBy sender)
    (hok : ∀ step ∈ ((ofLimit (.ofRole sender compressor) policy limit hasListener).run
      (calls ++ [.flush])).1, ∃ segments, step.packed.segments = .ok segments) :
    let start := ofLimit (.ofRole sender compressor) policy limit hasListener
    let segments := (emitted (start.run (calls ++ [.flush])).1).map (·.1)
    ∃ sent, (segments.mapM fun segment => do pure (segment, ← segment.encode compressor))
        = (.ok sent : Except Failure (List (Segment × SegmentParts)))
      ∧ ∀ pieces : List Bytes, pieces.flatten = wire sent →
        let receiver := receive sender.peer compressor pieces
        receiver.fault = none
          ∧ receiver.stream = SegmentStream.ofCompressor compressor
          ∧ receiver.unpacker = .empty
          ∧ ∃ arrived : List (Item S),
            receiver.received = arrived.map (fun item => .ok (arrival start.dialect item))
              ∧ arrived.Perm (submitted calls)
              ∧ arrived.filter start.fits = (submitted calls).filter start.fits
              ∧ arrived.filter (!start.fits ·) = (submitted calls).filter (!start.fits ·) := by
  intro start segments
  obtain ⟨parcels, hemitted, hsound, hshort, hlong⟩ :=
    exists_parcels_of_run (.ofRole sender compressor) policy limit hasListener calls hok
  have hsegments : segments = (parcels.flatMap (·.segments start)).map (·.1) := by
    unfold segments
    rw [hemitted]
  have hperm := perm_of_filter_eq hshort hlong
  obtain ⟨sent, hsent, hreceive⟩ := receive_of_parcels rfl hsound
    fun item hmem => hmade item (hperm.subset hmem)
  rw [← hsegments] at hsent
  refine ⟨sent, hsent, ?_⟩
  intro pieces hpieces receiver
  have hreceiver : receiver = _ := hreceive pieces hpieces
  rw [hreceiver]
  exact ⟨rfl, rfl, rfl, parcels.flatMap Parcel.items, rfl, hperm, hshort, hlong⟩

theorem receive_of_run_short_and_long :
    let calls := [.add shortItem, .add longItem, .flush, .add shortItem]
    let start := ofLimit (.ofRole .client .lz4) .trivial ⟨10, by decide, by decide⟩ false
    let steps := (start.run (calls ++ [.flush])).1
    let short : Segment := ⟨[5, 2, 0, 7, 5, 0, 0, 0, 0], true⟩
    let segments : List Segment :=
      [⟨[5, 6, 0, 7, 15, 0, 0, 0, 12, 0], false⟩, ⟨[1, 0, 0, 0, 0, 0, 0, 255, 255, 255], false⟩,
        ⟨[255], false⟩, short, short]
    (∀ item ∈ submitted calls, item.frame.MadeBy .client)
      ∧ (∀ step ∈ steps, ∃ segments, step.packed.segments = .ok segments)
      ∧ (emitted steps).map (·.1) = segments
      ∧ ∃ sent, (segments.mapM fun segment => do pure (segment, ← segment.encode .lz4))
          = (.ok sent : Except Failure (List (Segment × SegmentParts)))
        ∧ ∀ pieces : List Bytes, pieces.flatten = wire sent →
          let receiver := receive .server .lz4 pieces
          receiver.fault = none ∧ receiver.received.length = 3 := by
  intro calls start steps short segments
  have hmade : ∀ item ∈ submitted calls, item.frame.MadeBy .client := by
    have hshort : shortItem.frame.MadeBy .client := ⟨.v5, 7, true, .empty, .options, rfl⟩
    have hlong : longItem.frame.MadeBy .client :=
      ⟨.v5, 7, true, Dialect.tracedRequest.customPayload, .authResponse none, rfl⟩
    simp [calls, submitted, Call.item?, hshort, hlong]
  have hok : ∀ step ∈ steps, ∃ segments, step.packed.segments = .ok segments :=
    forall_ok_of_all (by decide +kernel)
  have hemitted : (emitted steps).map (·.1) = segments := by decide +kernel
  obtain ⟨sent, hsent, hreceive⟩ := receive_of_run .lz4 ⟨10, by decide, by decide⟩ .trivial false
    calls hmade hok
  rw [← hemitted]
  refine ⟨hmade, hok, rfl, sent, hsent, ?_⟩
  intro pieces hpieces
  obtain ⟨hfault, _, _, arrived, hreceived, hperm, _⟩ := hreceive pieces hpieces
  change (receive .server .lz4 pieces).received = _ at hreceived
  refine ⟨hfault, ?_⟩
  rw [hreceived]
  rw [List.length_map]
  rw [hperm.length_eq]
  rfl

end Pipeline

end Link

end CqlWire
