import CqlWire.Proofs.Unpacker.Conserved

/-!
This module contains what becomes of an unpacker that has refused a segment: one of whole frames
leaves no trace, while behind a slice that does not fit there is nothing but errors.
-/

namespace CqlWire

namespace Unpacker

/-- The slices that are there can not become a frame, which is what the error says of them. -/
inductive Spoilt : Unpacker → Failure → Prop
  | negative {pending : Bytes} {bodyLength : Int32}
      (hdeclared : FrameHeader.declaredLength? pending = some bodyLength) (hneg : bodyLength < 0) :
      Spoilt ⟨pending, none⟩ (.protocol (.negativeFrameBody bodyLength))
  | overrun {pending : Bytes} {length : Nat} (hdeclares : FrameHeader.Declares pending length)
      (hlt : length < pending.length) :
      Spoilt ⟨pending, some length⟩ (.protocol (.slicesOverrun length (pending.length - length)))

variable {unpacker next : Unpacker} {segment : Segment} {error : Failure} {pending : Bytes}
  {length : Nat}

theorem knows_unknown (pending : Bytes) : Knows ⟨pending, none⟩ := by
  intro length h
  cases h

theorem knows_known (h : FrameHeader.Declares pending length) : Knows ⟨pending, some length⟩ := by
  rintro _ ⟨⟩
  exact h

theorem knows_slicesOf (h : FrameHeader.Declares pending length) :
    Knows (slicesOf length pending).2 := by
  unfold slicesOf
  split
  · exact knows_known h
  · split
    · apply knows_unknown
    · exact knows_known h

theorem knows_ofSlices (pending : Bytes) : Knows (ofSlices pending).2 := by
  unfold ofSlices
  split
  · apply knows_unknown
  · apply knows_unknown
  · next hlength => exact knows_slicesOf (FrameHeader.frameLength?_eq_ok_iff.1 hlength)

theorem snd_push_whole (unpacker : Unpacker) (payload : Bytes) :
    (push unpacker ⟨payload, true⟩).2 = unpacker := by
  unfold push
  rw [if_pos rfl]
  split
  · rfl
  · rfl

theorem Knows.push (h : Knows unpacker) (segment : Segment) :
    Knows (unpacker.push segment).2 := by
  obtain ⟨payload, selfContained⟩ := segment
  cases selfContained with
  | false =>
    rw [h.push_slice]
    apply knows_ofSlices
  | true =>
    rw [snd_push_whole]
    exact h

theorem knows_final (segments : List Segment) : Knows (final push empty segments) :=
  kept_final (fun _ segment h => h.push segment) (knows_unknown []) segments

theorem spoilt_of_slicesOf (hdeclares : FrameHeader.Declares pending length)
    (h : slicesOf length pending = (.error error, next)) : Spoilt next error := by
  unfold slicesOf at h
  split at h
  · next hlt =>
    cases h
    exact .overrun hdeclares hlt
  · split at h
    · cases h
    · cases h

theorem spoilt_of_ofSlices (h : ofSlices pending = (.error error, next)) : Spoilt next error := by
  unfold ofSlices at h
  split at h
  · cases h
  · next hlength =>
    cases h
    obtain ⟨bodyLength, hdeclared, hneg, rfl⟩ := FrameHeader.frameLength?_eq_error_iff.1 hlength
    exact .negative hdeclared hneg
  · next hlength => exact spoilt_of_slicesOf (FrameHeader.frameLength?_eq_ok_iff.1 hlength) h

namespace Spoilt

theorem ofSlices_eq (h : Spoilt unpacker error) :
    ofSlices unpacker.pending = (.error error, unpacker) := by
  unfold ofSlices
  cases h with
  | negative hdeclared hneg =>
    rw [FrameHeader.frameLength?_eq_error_iff.2 ⟨_, hdeclared, hneg, rfl⟩]
  | overrun hdeclares hlt =>
    rw [FrameHeader.frameLength?_eq_ok_iff.2 hdeclares]
    dsimp only [slicesOf]
    rw [if_pos hlt]

theorem knows (h : Spoilt unpacker error) : Knows unpacker := by
  have hknows := knows_ofSlices unpacker.pending
  rw [h.ofSlices_eq] at hknows
  exact hknows

theorem size_le (h : Spoilt unpacker error) : FrameHeader.size ≤ unpacker.pending.length := by
  cases h with
  | negative hdeclared _ => exact FrameHeader.size_le_of_declaredLength? hdeclared
  | overrun hdeclares _ =>
    obtain ⟨_, hdeclared, _⟩ := hdeclares
    exact FrameHeader.size_le_of_declaredLength? hdeclared

theorem insideFrame (h : Spoilt unpacker error) : unpacker.insideFrame = true := by
  have hsize := h.size_le
  unfold Unpacker.insideFrame
  cases hpending : unpacker.pending with
  | nil =>
    rw [hpending] at hsize
    cases hsize
  | cons => rfl

/-- No slice repairs those that are there. -/
theorem append (h : Spoilt unpacker error) (slice : Bytes) :
    ∃ error', Spoilt ⟨unpacker.pending ++ slice, unpacker.expected⟩ error' := by
  have hsize := h.size_le
  cases h with
  | negative hdeclared hneg =>
    rw [← FrameHeader.declaredLength?_append hsize slice] at hdeclared
    exact ⟨_, .negative hdeclared hneg⟩
  | overrun hdeclares hlt =>
    refine ⟨_, .overrun (hdeclares.append slice) ?_⟩
    rw [List.length_append]
    exact Nat.lt_add_right _ hlt

theorem push (h : Spoilt unpacker error) (segment : Segment) :
    (∃ error, (unpacker.push segment).1 = .error error)
      ∧ ∃ error, Spoilt (unpacker.push segment).2 error := by
  obtain ⟨payload, selfContained⟩ := segment
  cases selfContained with
  | false =>
    obtain ⟨error', hmore⟩ := h.append payload
    rw [h.knows.push_slice]
    rw [hmore.ofSlices_eq]
    exact ⟨⟨error', rfl⟩, error', hmore⟩
  | true =>
    constructor
    · unfold Unpacker.push
      rw [if_pos rfl, if_pos h.insideFrame]
      exact ⟨_, rfl⟩
    · rw [snd_push_whole]
      exact ⟨error, h⟩

theorem outcomes_error (h : Spoilt unpacker error) (later : List Segment) :
    ∀ outcome ∈ outcomes Unpacker.push unpacker later, ∃ error, outcome = .error error := by
  have hkept : ∀ unpacker segment, (∃ error, Spoilt unpacker error) →
      ∃ error, Spoilt (Unpacker.push unpacker segment).2 error := by
    rintro unpacker segment ⟨error, h⟩
    exact (h.push segment).2
  refine forall_outcomes hkept ?_ ⟨error, h⟩ later
  rintro unpacker segment ⟨error, h⟩
  exact (h.push segment).1

end Spoilt

/--
Whatever went into an unpacker, a segment of whole frames that is refused changes nothing. A slice
is refused if the frame declares a negative length or less than there is of it, and then everything
that follows is refused too.
-/
theorem failure_harmless_or_final {segments : List Segment}
    (h : push (final push empty segments) segment = (.error error, next)) :
    (segment.selfContained = true →
      next = final push empty segments
        ∧ ∀ later, outcomes push next later = outcomes push (final push empty segments) later)
      ∧ (segment.selfContained = false →
        Spoilt next error
          ∧ ∀ later, ∀ outcome ∈ outcomes push next later, ∃ error, outcome = .error error) := by
  obtain ⟨payload, selfContained⟩ := segment
  constructor
  · rintro ⟨⟩
    have hnext := snd_push_whole (final push empty segments) payload
    rw [h] at hnext
    cases hnext
    exact ⟨rfl, fun _ => rfl⟩
  · rintro ⟨⟩
    rw [(knows_final segments).push_slice] at h
    have hspoilt := spoilt_of_ofSlices h
    exact ⟨hspoilt, hspoilt.outcomes_error⟩

/-- A slice of a frame, whole frames in between, and then one slice or another. -/
theorem failure_harmless_or_final_between_slices :
    let front : List Segment := [⟨[5, 0, 0, 1, 7, 0, 0, 0, 2, 8], false⟩]
    let unpacker : Unpacker := ⟨[5, 0, 0, 1, 7, 0, 0, 0, 2, 8], some 11⟩
    let bare : Segment := ⟨[5, 0, 0, 0, 5, 0, 0, 0, 0], true⟩
    let overrun : Segment := ⟨[9, 9], false⟩
    let spoilt : Unpacker := ⟨[5, 0, 0, 1, 7, 0, 0, 0, 2, 8, 9, 9], some 11⟩
    final push empty front = unpacker
      ∧ push unpacker bare = (.error (.protocol (.insideSlicedFrame 10)), unpacker)
      ∧ outcomes push (push unpacker bare).2 [⟨[9], false⟩]
          = [.ok [[5, 0, 0, 1, 7, 0, 0, 0, 2, 8, 9]]]
      ∧ push unpacker overrun = (.error (.protocol (.slicesOverrun 11 1)), spoilt)
      ∧ Spoilt spoilt (.protocol (.slicesOverrun 11 1))
      ∧ ∀ outcome ∈ outcomes push spoilt [⟨[], false⟩, bare], ∃ error, outcome = .error error := by
  intro front unpacker bare overrun spoilt
  have hbare : push (final push empty front) bare
      = (.error (.protocol (.insideSlicedFrame 10)), unpacker) := rfl
  have hoverrun : push (final push empty front) overrun
      = (.error (.protocol (.slicesOverrun 11 1)), spoilt) := rfl
  obtain ⟨hspoilt, hlater⟩ := (failure_harmless_or_final hoverrun).2 rfl
  refine ⟨rfl, hbare, ?_, hoverrun, hspoilt, hlater _⟩
  have hnext := ((failure_harmless_or_final hbare).1 rfl).2 [⟨[9], false⟩]
  change outcomes push unpacker _ = _ at hnext
  change outcomes push unpacker _ = _
  rw [hnext]
  rfl

end Unpacker

end CqlWire
