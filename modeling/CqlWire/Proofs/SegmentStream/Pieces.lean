import CqlWire.Proofs.SegmentStream.Portions

/-!
This module contains why it does not matter into which pieces a stream of segments is cut on its way,
up to the first error, and how the stream goes on behind any error.
-/

namespace CqlWire

namespace SegmentStream

variable {compressor : Compressor}

/-- A stream that waits goes on as one that has just begun, and has these bytes ahead of it. -/
inductive Awaits (compressor : Compressor) : Bytes → Held State → Prop
  | header {held : Bytes} : Awaits compressor held ⟨.header, held⟩
  | payload {front held : Bytes} {header : SegmentHeader}
      (hfront : front.length = SegmentHeader.size compressor)
      (hread : (SegmentHeader.read compressor front).1 = .ok header) :
      Awaits compressor (front ++ held) ⟨.payload header, held⟩

theorem Awaits.push_eq {tail : Bytes} {held : Held State} (h : Awaits compressor tail held)
    (data : Bytes) :
    (cutter compressor).push held data = (cutter compressor).drain ⟨.header, tail ++ data⟩ := by
  cases h with
  | header => rfl
  | @payload front held header hfront hread =>
    have hsplit := Bytes.split?_append front (held ++ data)
    rw [hfront] at hsplit
    apply Cutter.drain_congr
    change next compressor (.payload header) (held ++ data) = next compressor .header _
    rw [List.append_assoc]
    rw [next_of_some hsplit]
    rw [hread]
    rfl

theorem awaits_waitingAt (compressor : Compressor) (rest : Bytes) :
    Awaits compressor rest (waitingAt compressor rest) := by
  unfold waitingAt
  split
  · exact .header
  · next front body hsplit =>
    split
    · next header hread =>
      rw [← Bytes.append_of_split? hsplit]
      exact .payload (Bytes.length_of_split? hsplit).1 hread
    · exact .header

/-- Bytes that make up portions, one behind the other. -/
inductive Taken (compressor : Compressor) : Bytes → Prop
  | nil : Taken compressor []
  | append {bytes portion : Bytes} {outcome : Except Failure Segment}
      (h : Taken compressor bytes) (hportion : Portion compressor portion outcome) :
      Taken compressor (bytes ++ portion)

theorem Taken.append_sent {taken : Bytes} {sent : List (Bytes × Segment)}
    (h : Taken compressor taken)
    (hsent : ∀ segment ∈ sent, Portion compressor segment.1 (.ok segment.2)) :
    Taken compressor (taken ++ sent.flatMap (·.1)) := by
  induction sent generalizing taken with
  | nil =>
    rw [List.flatMap_nil, List.append_nil]
    apply h
  | cons segment sent ih =>
    rw [List.forall_mem_cons] at hsent
    rw [List.flatMap_cons, ← List.append_assoc]
    apply ih (h.append hsent.1) hsent.2

/-- A stream that has just begun, but holds bytes already. -/
def holding (compressor : Compressor) (bytes : Bytes) : SegmentStream where
  compressor := compressor
  held := ⟨.header, bytes⟩

theorem push_holding (bytes data : Bytes) :
    (holding compressor bytes).push data = (ofCompressor compressor).push (bytes ++ data) := rfl

theorem push_of_intact {bytes rest : Bytes} {sent : List (Bytes × Segment)}
    (h : Segments compressor bytes sent rest) (hintact : Intact compressor rest) :
    (ofCompressor compressor).push bytes
      =
    (.ok (sent.map (·.2)), ⟨compressor, waitingAt compressor rest⟩) := by
  have hdrain : (cutter compressor).push ⟨.header, []⟩ bytes = _ := h.drain_of_intact hintact
  rw [push, ofCompressor, hdrain]

theorem push_of_damaged {bytes portion behind : Bytes} {sent : List (Bytes × Segment)}
    {error : Failure} (h : Segments compressor bytes sent (portion ++ behind))
    (hportion : Portion compressor portion (.error error)) :
    (ofCompressor compressor).push bytes = (.error error, holding compressor behind) := by
  have hdrain : (cutter compressor).push ⟨.header, []⟩ bytes = _ := h.drain_of_damaged hportion
  rw [push, ofCompressor, hdrain]
  rfl

/-- The stream after some pushes, whether they failed or not. -/
def after (compressor : Compressor) (pieces : List Bytes) : SegmentStream :=
  pieces.foldl (fun stream piece => (stream.push piece).2) (ofCompressor compressor)

/-- Some bytes have gone into a stream: portions that it is done with, and a rest that it holds. -/
structure Behind (compressor : Compressor) (bytes : Bytes) (stream : SegmentStream) : Prop where
  compressor_eq : stream.compressor = compressor
  exists_tail : ∃ taken tail,
    bytes = taken ++ tail ∧ Taken compressor taken ∧ Awaits compressor tail stream.held

namespace Behind

variable {bytes : Bytes} {stream : SegmentStream}

/-- Such a stream goes on as one that has just begun, and has the rest ahead of it. -/
theorem push_eq (h : Behind compressor bytes stream) :
    ∃ taken tail, bytes = taken ++ tail
      ∧ Taken compressor taken
      ∧ ∀ data, stream.push data = (ofCompressor compressor).push (tail ++ data) := by
  obtain ⟨rfl, taken, tail, rfl, htaken, hawaits⟩ := h
  refine ⟨taken, tail, rfl, htaken, fun data => ?_⟩
  rw [push, hawaits.push_eq data]
  rfl

theorem push_cases (h : Behind compressor bytes stream) (data : Bytes) :
    (∃ segments held, stream.push data = (.ok segments, ⟨compressor, held⟩)
        ∧ Behind compressor (bytes ++ data) ⟨compressor, held⟩)
      ∨ ∃ taken portion behind error,
        stream.push data = (.error error, holding compressor behind)
          ∧ bytes ++ data = taken ++ portion ++ behind
          ∧ Taken compressor taken
          ∧ Portion compressor portion (.error error) := by
  obtain ⟨taken, tail, rfl, htaken, hpush⟩ := h.push_eq
  rw [hpush]
  rcases Segments.intact_or_damaged compressor (tail ++ data) with
    ⟨sent, rest, hsent, hintact⟩ | ⟨sent, portion, behind, error, hsent, hportion⟩
  · left
    refine ⟨sent.map (·.2), waitingAt compressor rest, push_of_intact hsent hintact, rfl, ?_⟩
    refine ⟨taken ++ sent.flatMap (·.1), rest, ?_, htaken.append_sent hsent.portion, ?_⟩
    · rw [List.append_assoc, List.append_assoc]
      rw [hsent.bytes_eq]
    · apply awaits_waitingAt
  · right
    refine ⟨taken ++ sent.flatMap (·.1), portion, behind, error, ?_, ?_, ?_, hportion⟩
    · exact push_of_damaged hsent hportion
    · rw [List.append_assoc, List.append_assoc, List.append_assoc]
      rw [hsent.bytes_eq]
    · apply htaken.append_sent hsent.portion

theorem after_push (h : Behind compressor bytes stream) (data : Bytes) :
    Behind compressor (bytes ++ data) (stream.push data).2 := by
  rcases h.push_cases data with ⟨segments, held, hpush, hbehind⟩ | hdamaged
  · rw [hpush]
    apply hbehind
  · obtain ⟨taken, portion, behind, error, hpush, hbytes, htaken, hportion⟩ := hdamaged
    rw [hpush]
    exact ⟨rfl, taken ++ portion, behind, hbytes, htaken.append hportion, .header⟩

theorem foldl_push (h : Behind compressor bytes stream) (pieces : List Bytes) :
    Behind compressor (bytes ++ pieces.flatten)
      (pieces.foldl (fun stream piece => (stream.push piece).2) stream) := by
  induction pieces generalizing bytes stream with
  | nil =>
    rw [List.flatten_nil, List.append_nil]
    apply h
  | cons piece rest ih =>
    rw [List.flatten_cons, ← List.append_assoc]
    rw [List.foldl_cons]
    apply ih
    apply h.after_push

end Behind

theorem behind_after (compressor : Compressor) (pieces : List Bytes) :
    Behind compressor pieces.flatten (after compressor pieces) := by
  have hbegin : Behind compressor [] (ofCompressor compressor) := ⟨rfl, [], [], rfl, .nil, .header⟩
  apply hbegin.foldl_push

theorem feed_ofCompressor_fst (compressor : Compressor) (pieces : List Bytes) :
    (feed push (ofCompressor compressor) pieces).1
      =
    ((ofCompressor compressor).push pieces.flatten).1 := by
  rw [feed_push]
  apply (cutter_local compressor).feed_fst (settled_fresh compressor)

theorem push_of_feed_ok {front : List Bytes} {segments : List Segment} {stream : SegmentStream}
    (h : feed push (ofCompressor compressor) front = (.ok segments, stream)) (data : Bytes) :
    (ofCompressor compressor).push (front.flatten ++ data)
      =
    prepend segments (stream.push data) := by
  rw [feed_push] at h
  rcases hfeed : feed (cutter compressor).push ⟨.header, []⟩ front with ⟨error | items, held⟩
  · simp [ofCompressor, hfeed] at h
  · simp only [ofCompressor, hfeed, Prod.mk.injEq, Except.ok.injEq] at h
    obtain ⟨rfl, rfl⟩ := h
    have hpush := (cutter_local compressor).push_append ⟨.header, []⟩ front.flatten data
    rw [(cutter_local compressor).push_of_feed_ok (settled_fresh compressor) hfeed] at hpush
    rw [push, ofCompressor, hpush]
    rfl

theorem feed_of_push_ok {pieces : List Bytes} {segments : List Segment} {stream : SegmentStream}
    (h : (ofCompressor compressor).push pieces.flatten = (.ok segments, stream)) :
    feed push (ofCompressor compressor) pieces = (.ok segments, stream) := by
  rcases hpush : (cutter compressor).push ⟨.header, []⟩ pieces.flatten with ⟨error | items, held⟩
  · simp [push, ofCompressor, hpush] at h
  · simp only [push, ofCompressor, hpush, Prod.mk.injEq, Except.ok.injEq] at h
    obtain ⟨rfl, rfl⟩ := h
    rw [feed_push]
    rw [ofCompressor]
    rw [(cutter_local compressor).feed_of_push_ok (settled_fresh compressor) hpush]

theorem completedWithin_of_feed_ok {front : List Bytes} {back rest : Bytes}
    {sent : List (Bytes × Segment)} {segments : List Segment} {stream : SegmentStream}
    (h : Segments compressor (front.flatten ++ back) sent rest)
    (hfeed : feed push (ofCompressor compressor) front = (.ok segments, stream)) :
    segments = completedWithin front.flatten.length sent := by
  have hfst := feed_ofCompressor_fst compressor front
  rw [hfeed] at hfst
  rcases Segments.intact_or_damaged compressor front.flatten with
    ⟨sent', rest', hfront, hintact⟩ | ⟨sent', portion, behind, error, hfront, hportion⟩
  · rw [push_of_intact hfront hintact, Except.ok.injEq] at hfst
    rw [hfst]
    rw [h.completedWithin_front hfront]
  · rw [push_of_damaged hfront hportion] at hfst
    simp at hfst

theorem length_lt_of_feed_ok {front : List Bytes} {piece portion behind : Bytes}
    {sent : List (Bytes × Segment)} {segments : List Segment} {stream : SegmentStream}
    {error : Failure} (h : Segments compressor (front.flatten ++ piece) sent (portion ++ behind))
    (hportion : Portion compressor portion (.error error))
    (hfeed : feed push (ofCompressor compressor) front = (.ok segments, stream)) :
    front.flatten.length < (sent.flatMap (·.1) ++ portion).length := by
  apply Nat.lt_of_not_le
  intro hle
  -- All of the damaged portion is there already, so one of these pushes fails.
  have hprefix : sent.flatMap (·.1) ++ portion <+: front.flatten ++ piece := by
    rw [h.bytes_eq, ← List.append_assoc]
    apply List.prefix_append
  have hprefix' : front.flatten <+: front.flatten ++ piece := List.prefix_append _ _
  obtain ⟨more, hmore⟩ := List.prefix_of_prefix_length_le hprefix hprefix' hle
  rw [List.append_assoc] at hmore
  have hfront := Segments.of_damaged h.portion hportion hmore.symm
  have hfst := feed_ofCompressor_fst compressor front
  rw [hfeed] at hfst
  rw [push_of_damaged hfront hportion] at hfst
  simp at hfst

theorem exists_of_feed_error {pieces : List Bytes} {error : Failure} {last : SegmentStream}
    (h : feed push (ofCompressor compressor) pieces = (.error error, last)) :
    ∃ front piece back middle sent portion behind,
      pieces = front ++ piece :: back
        ∧ Segments compressor (front.flatten ++ piece) sent (portion ++ behind)
        ∧ Portion compressor portion (.error error)
        ∧ feed push (ofCompressor compressor) front
            = (.ok (completedWithin front.flatten.length sent), middle)
        ∧ middle.push piece = (.error error, holding compressor behind)
        ∧ front.flatten.length < (sent.flatMap (·.1) ++ portion).length := by
  obtain ⟨front, piece, back, segments, middle, rfl, hfront, hpiece⟩ :=
    CqlWire.exists_of_feed_error h
  have hpush := push_of_feed_ok hfront piece
  rw [hpiece, prepend_error] at hpush
  rcases Segments.intact_or_damaged compressor (front.flatten ++ piece) with
    ⟨sent, rest, hsent, hintact⟩ | ⟨sent, portion, behind, error', hsent, hportion⟩
  · rw [push_of_intact hsent hintact] at hpush
    simp at hpush
  · rw [push_of_damaged hsent hportion] at hpush
    simp only [Prod.mk.injEq, Except.error.injEq] at hpush
    obtain ⟨rfl, rfl⟩ := hpush
    have hlength := length_lt_of_feed_ok hsent hportion hfront
    rw [completedWithin_of_feed_ok hsent hfront] at hfront
    exact ⟨front, piece, back, middle, sent, portion, behind, rfl, hsent, hportion, hfront, hpiece,
      hlength⟩

theorem exists_segments_of_feed (compressor : Compressor) (pieces : List Bytes) :
    ∃ sent rest,
      Segments compressor pieces.flatten sent rest
        ∧ (∀ segments, ((ofCompressor compressor).push pieces.flatten).1 = .ok segments →
            Intact compressor rest
              ∧ (ofCompressor compressor).push pieces.flatten
                  = (.ok (sent.map (·.2)), ⟨compressor, waitingAt compressor rest⟩))
        ∧ ∀ error, (feed push (ofCompressor compressor) pieces).1 = .error error →
          ∃ front piece back middle portion behind,
            pieces = front ++ piece :: back
              ∧ rest = portion ++ (behind ++ back.flatten)
              ∧ Portion compressor portion (.error error)
              ∧ feed push (ofCompressor compressor) front
                  = (.ok (completedWithin front.flatten.length sent), middle)
              ∧ middle.push piece = (.error error, holding compressor behind)
              ∧ front.flatten.length < (sent.flatMap (·.1) ++ portion).length := by
  have hfst := feed_ofCompressor_fst compressor pieces
  rcases hfeed : feed push (ofCompressor compressor) pieces with ⟨error | segments, last⟩
  · obtain ⟨front, piece, back, middle, sent, portion, behind, rfl, hsent, hportion, hfront,
      hpiece, hlength⟩ := exists_of_feed_error hfeed
    have hbytes : (front ++ piece :: back).flatten
        = sent.flatMap (·.1) ++ (portion ++ (behind ++ back.flatten)) := by
      rw [List.flatten_append, List.flatten_cons, ← List.append_assoc]
      rw [hsent.bytes_eq]
      simp only [List.append_assoc]
    refine ⟨sent, portion ++ (behind ++ back.flatten),
      Segments.of_damaged hsent.portion hportion hbytes, ?_, ?_⟩
    · intro segments hok
      rw [← hfst, hfeed] at hok
      simp at hok
    · intro error' herror
      simp only [Except.error.injEq] at herror
      subst herror
      exact ⟨front, piece, back, middle, portion, behind, rfl, rfl, hportion, hfront, hpiece,
        hlength⟩
  · rw [hfeed] at hfst
    rcases Segments.intact_or_damaged compressor pieces.flatten with
      ⟨sent, rest, hsent, hintact⟩ | ⟨sent, portion, behind, error, hsent, hportion⟩
    · refine ⟨sent, rest, hsent, ?_, ?_⟩
      · intro _ _
        exact ⟨hintact, push_of_intact hsent hintact⟩
      · intro error herror
        simp at herror
    · rw [push_of_damaged hsent hportion] at hfst
      simp at hfst

/--
In whatever pieces a stream arrives, its segments, what is left of it and its first error are those
of the stream as a whole. The pushes before the first that fails give the segments that end within
their pieces. Each push that fails, also behind others, ends the stream there and begins another one
with the bytes behind the damage.
-/
theorem feed_flatten (compressor : Compressor) (pieces : List Bytes) :
    let fed := feed push (ofCompressor compressor) pieces
    let whole := (ofCompressor compressor).push pieces.flatten
    fed.1 = whole.1
      ∧ (∀ segments, whole.1 = .ok segments → fed = whole)
      ∧ (∃ sent rest,
        Segments compressor pieces.flatten sent rest
          ∧ (∀ segments, whole.1 = .ok segments →
              Intact compressor rest
                ∧ whole = (.ok (sent.map (·.2)), ⟨compressor, waitingAt compressor rest⟩))
          ∧ ∀ error, fed.1 = .error error →
            ∃ front piece back middle portion behind,
              pieces = front ++ piece :: back
                ∧ rest = portion ++ (behind ++ back.flatten)
                ∧ Portion compressor portion (.error error)
                ∧ feed push (ofCompressor compressor) front
                    = (.ok (completedWithin front.flatten.length sent), middle)
                ∧ middle.push piece = (.error error, holding compressor behind)
                ∧ front.flatten.length < (sent.flatMap (·.1) ++ portion).length)
      ∧ ∀ piece error, ((after compressor pieces).push piece).1 = .error error →
        ∃ taken portion behind,
          pieces.flatten ++ piece = taken ++ portion ++ behind
            ∧ Taken compressor taken
            ∧ Portion compressor portion (.error error)
            ∧ EndsAt compressor portion error
            ∧ ((after compressor pieces).push piece).2 = holding compressor behind
            ∧ ∀ data, (holding compressor behind).push data
                = (ofCompressor compressor).push (behind ++ data) := by
  intro fed whole
  refine ⟨feed_ofCompressor_fst compressor pieces, ?_, exists_segments_of_feed compressor pieces, ?_⟩
  · intro segments hok
    have hwhole : whole = (.ok segments, whole.2) := Prod.ext hok rfl
    rw [hwhole]
    apply feed_of_push_ok hwhole
  · intro piece error herror
    rcases (behind_after compressor pieces).push_cases piece with
      ⟨segments, held, hpush, _⟩ | ⟨taken, portion, behind, error', hpush, hbytes, htaken, hportion⟩
    · rw [hpush] at herror
      simp at herror
    · rw [hpush] at herror ⊢
      simp only [Except.error.injEq] at herror
      subst herror
      exact ⟨taken, portion, behind, hbytes, htaken, hportion, hportion.endsAt, rfl,
        push_holding behind⟩

end SegmentStream

end CqlWire
