import CqlWire.Proofs.SegmentStream.Pieces

/-!
This module contains why a stream of segments never holds much, whatever arrives and also behind
errors: the lengths that a header announces are within the limit on payloads, and so is the payload
that is restored.
-/

namespace CqlWire

/-- The length of the payload behind a header, once it is expanded. -/
def SegmentHeader.restoredLength (header : SegmentHeader) : Nat :=
  match header.expandedLength with
  | none => header.payloadLength
  | some length => if length = 0 then header.payloadLength else length

theorem SegmentHeader.Fits.restoredLength_le {compressor : Compressor} {header : SegmentHeader}
    (h : header.Fits compressor) : header.restoredLength ≤ Segment.maxPayload := by
  have hpayload := h.payloadLength_lt
  unfold restoredLength
  cases hisNone : compressor.isNone with
  | true =>
    rw [h.expandedLength_eq hisNone]
    exact Nat.le_of_lt_succ hpayload
  | false =>
    obtain ⟨length, hexpanded, hlength⟩ := h.expandedLength_lt hisNone
    rw [hexpanded]
    dsimp only
    split
    · exact Nat.le_of_lt_succ hpayload
    · exact Nat.le_of_lt_succ hlength

namespace Segment

variable {compressor : Compressor} {header : SegmentHeader} {payload body : Bytes}

theorem length_of_expand {expanded : Bytes} (hfits : header.Fits compressor)
    (hpayload : payload.length = header.payloadLength)
    (h : expand compressor header payload = .ok expanded) :
    expanded.length = header.restoredLength := by
  cases hexpanded : header.expandedLength with
  | none =>
    rw [expand, hexpanded] at h
    rw [SegmentHeader.restoredLength, hexpanded]
    cases h
    exact hpayload
  | some length =>
    rw [expand, hexpanded] at h
    rw [SegmentHeader.restoredLength, hexpanded]
    dsimp only at h ⊢
    cases compressor with
    | none =>
      rw [hfits.expandedLength_eq rfl] at hexpanded
      cases hexpanded
    | lz4With blocks =>
      rw [Compressor.isNone, Bool.false_or] at h
      by_cases hzero : length = 0
      · rw [if_pos (decide_eq_true hzero)] at h
        cases h
        rw [if_pos hzero]
        exact hpayload
      · rw [if_neg (by simpa using hzero)] at h
        rw [if_neg hzero]
        exact Compressor.length_of_expandBlock h

theorem length_of_decode {segment : Segment} (hfits : header.Fits compressor)
    (hbody : body.length = header.payloadLength + trailerSize)
    (h : decode compressor header body = .ok segment) :
    segment.payload.length = header.restoredLength := by
  unfold decode at h
  dsimp only at h
  rw [if_neg (by rw [hbody]; simp)] at h
  split at h
  · obtain ⟨expanded, hexpand, hsegment⟩ := exists_of_bind_eq_ok h
    cases hsegment
    refine length_of_expand hfits ?_ hexpand
    apply List.length_take_of_le
    omega
  · cases h

end Segment

namespace SegmentStream

/-- There is less than a header, or less than the payload and trailer that a header announces. -/
inductive Waiting (compressor : Compressor) : SegmentStream → Prop
  | header {held : Bytes} (hlt : held.length < SegmentHeader.size compressor) :
      Waiting compressor ⟨compressor, .header, held⟩
  | payload {header : SegmentHeader} {held : Bytes}
      (hle : header.payloadLength ≤ Segment.maxPayload)
      (hlt : held.length < header.payloadLength + Segment.trailerSize) :
      Waiting compressor ⟨compressor, .payload header, held⟩

/-- A segment whose payload is as long as the header in front of it announces. -/
def Announced (compressor : Compressor) (portion : Bytes) (segment : Segment) : Prop :=
  ∃ front body header,
    portion = front ++ body
      ∧ front.length = SegmentHeader.size compressor
      ∧ (SegmentHeader.read compressor front).1 = .ok header
      ∧ body.length = header.payloadLength + Segment.trailerSize
      ∧ segment.payload.length = header.restoredLength

variable {compressor : Compressor}

theorem waiting_of_next {held rest : Bytes} {state : State}
    (h : next compressor .header held = .wait state rest) :
    Waiting compressor ⟨compressor, state, rest⟩ := by
  rw [next] at h
  split at h
  · next hsplit =>
    cases h
    exact .header (Bytes.split?_eq_none_iff.1 hsplit)
  · split at h
    · next header hread =>
      unfold nextPayload at h
      split at h
      · next hsplit =>
        cases h
        apply Waiting.payload
        · exact Nat.le_of_lt_succ (SegmentHeader.fits_of_read hread).payloadLength_lt
        · exact Bytes.split?_eq_none_iff.1 hsplit
      · split at h
        · cases h
        · cases h
    · cases h

theorem Segments.waiting {bytes rest : Bytes} {sent : List (Bytes × Segment)}
    (h : Segments compressor bytes sent rest) (hintact : Intact compressor rest) :
    Waiting compressor ⟨compressor, waitingAt compressor rest⟩ :=
  waiting_of_next (next_of_no_portion (h.not_portion hintact))

theorem Portion.announced {portion : Bytes} {segment : Segment}
    (h : Portion compressor portion (.ok segment)) : Announced compressor portion segment := by
  generalize hresult : (.ok segment : Except Failure Segment) = result at h
  cases h with
  | header hfront hread => cases hresult
  | @segment front body header hfront hread hbody =>
    refine ⟨front, body, header, rfl, hfront, hread, hbody, ?_⟩
    exact Segment.length_of_decode (SegmentHeader.fits_of_read hread) hbody hresult.symm

theorem Announced.length_le {portion : Bytes} {segment : Segment}
    (h : Announced compressor portion segment) : segment.payload.length ≤ Segment.maxPayload := by
  obtain ⟨front, body, header, _, _, hread, _, hlength⟩ := h
  rw [hlength]
  exact (SegmentHeader.fits_of_read hread).restoredLength_le

/--
Whatever went into a stream, a push that does not fail leaves it with less than it waits for, and
gives segments that were announced at their length, are within the limit and can be encoded.
-/
theorem waits_within_limit {pieces : List Bytes} {piece : Bytes} {segments : List Segment}
    {stream : SegmentStream}
    (h : (after compressor pieces).push piece = (.ok segments, stream)) :
    Waiting compressor stream
      ∧ ∃ (taken : Bytes) (sent : List (Bytes × Segment)) (rest : Bytes),
        pieces.flatten ++ piece = taken ++ sent.flatMap (·.1) ++ rest
          ∧ Taken compressor taken
          ∧ segments = sent.map (·.2)
          ∧ ∀ segment ∈ sent,
            Announced compressor segment.1 segment.2
              ∧ segment.2.payload.length ≤ Segment.maxPayload
              ∧ ∃ parts, segment.2.encode compressor = .ok parts := by
  obtain ⟨taken, tail, hbytes, htaken, hpush⟩ := (behind_after compressor pieces).push_eq
  rw [hpush] at h
  rcases Segments.intact_or_damaged compressor (tail ++ piece) with
    ⟨sent, rest, hsent, hintact⟩ | ⟨sent, portion, behind, error, hsent, hportion⟩
  · rw [push_of_intact hsent hintact] at h
    cases h
    refine ⟨hsent.waiting hintact, taken, sent, rest, ?_, htaken, rfl, ?_⟩
    · rw [hbytes, List.append_assoc, List.append_assoc]
      rw [hsent.bytes_eq]
    · intro segment hmem
      have hannounced := (hsent.portion segment hmem).announced
      have hle := hannounced.length_le
      exact ⟨hannounced, hle, _, Segment.encode_of_le compressor hle⟩
  · rw [push_of_damaged hsent hportion] at h
    cases h

/-- Behind a damaged header come a compressed segment and a part of the next header. -/
theorem waits_within_limit_compressed :
    let zeros : Segment := ⟨List.replicate 40 0, true⟩
    let damaged : Bytes := List.replicate 8 0
    let encoded := (zeros.headerOf .lz4).encode .lz4 ++ zeros.bodyOf .lz4
    let stream : SegmentStream := ⟨.lz4, .header, [1, 2, 3]⟩
    encoded.length < zeros.payload.length
      ∧ (after .lz4 [damaged]).push (encoded ++ [1, 2, 3]) = (.ok [zeros], stream)
      ∧ Waiting .lz4 stream
      ∧ ∃ portion, Announced .lz4 portion zeros := by
  intro zeros damaged encoded stream
  obtain ⟨error, hread⟩ : ∃ error, (SegmentHeader.read .lz4 damaged).1 = .error error := by
    have hrefused : (SegmentHeader.read .lz4 damaged).1.isOk = false := by decide +kernel
    cases h : (SegmentHeader.read .lz4 damaged).1 with
    | error error => exact ⟨error, rfl⟩
    | ok header =>
      rw [h] at hrefused
      cases hrefused
  have hafter : after .lz4 [damaged] = ofCompressor .lz4 := by
    have hportion : Portion .lz4 damaged (.error error) := .header (by decide) hread
    have hsegments : Segments .lz4 damaged [] (damaged ++ []) :=
      .of_damaged (by simp) hportion (by simp)
    exact congrArg Prod.snd (push_of_damaged hsegments hportion)
  have hpush : (after .lz4 [damaged]).push (encoded ++ [1, 2, 3]) = (.ok [zeros], stream) := by
    have hle : zeros.payload.length ≤ Segment.maxPayload := by decide
    have hdrain : (cutter .lz4).push ⟨.header, []⟩ (encoded ++ [1, 2, 3])
        = (.ok [zeros], ⟨.header, [1, 2, 3]⟩) := by
      rw [Cutter.push, List.nil_append]
      rw [Cutter.drain_of_item (next_encoded .lz4 hle [1, 2, 3])]
      rw [Cutter.drain_of_wait (rfl : next .lz4 .header [1, 2, 3] = .wait .header [1, 2, 3])]
      rfl
    rw [hafter, push, ofCompressor, hdrain]
  obtain ⟨hwaiting, taken, sent, rest, _, _, hsegments, hsent⟩ := waits_within_limit hpush
  have hmem : zeros ∈ sent.map (·.2) := by
    rw [← hsegments]
    exact List.mem_singleton_self zeros
  obtain ⟨segment, hmem, hzeros⟩ := List.mem_map.1 hmem
  refine ⟨by decide +kernel, hpush, hwaiting, segment.1, ?_⟩
  rw [← hzeros]
  exact (hsent segment hmem).1

end SegmentStream

end CqlWire
