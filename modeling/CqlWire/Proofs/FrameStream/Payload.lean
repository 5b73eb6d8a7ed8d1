import CqlWire.Proofs.FrameStream.Encoded
import CqlWire.Proofs.Unpacker.Conserved

/-!
This module contains why it does not matter which of the two ways frames are cut out of bytes: those
that make up a payload of whole frames are those that a stream takes to the last byte.
-/

namespace CqlWire

namespace FrameStream

/-- All bytes went into frames: no push failed, and nothing is held. -/
structure Consumed (result : Except Failure (List Bytes) × FrameStream) (frames : List Bytes) :
    Prop where
  frames_eq : result.1 = .ok frames
  length_eq : result.2.length = 0

variable {limit : Nat} {payload : Bytes} {frames pieces : List Bytes}

theorem consumed_push_iff :
    Consumed ((ofLimit limit).push payload) frames
      ↔
    frames.flatten = payload ∧ ∀ frame ∈ frames, Accepted limit frame := by
  constructor
  · rintro ⟨hpush, hlength⟩
    obtain ⟨frames', rest, hframes⟩ := Frames.exists_of_bytes limit payload
    rw [push_ofLimit hframes] at hpush hlength
    split at hpush
    · cases hpush
    · next hnone =>
      cases hpush
      rw [hnone] at hlength
      have hrest : rest = [] := List.length_eq_zero_iff.1 hlength
      refine ⟨?_, hframes.accepted⟩
      rw [hframes.bytes_eq, hrest]
      rw [List.append_nil]
  · rintro ⟨rfl, haccepted⟩
    rw [push_ofLimit (Frames.of_accepted haccepted)]
    exact ⟨rfl, rfl⟩

theorem consumed_feed_iff (hpieces : pieces.flatten = payload) :
    Consumed (feed push (ofLimit limit) pieces) frames
      ↔
    Consumed ((ofLimit limit).push payload) frames := by
  subst hpieces
  have hfst := feed_ofLimit_fst limit pieces
  constructor
  · rintro ⟨hframes, hlength⟩
    rw [hfst] at hframes
    have hpush : (ofLimit limit).push pieces.flatten = (.ok frames, _) := Prod.ext hframes rfl
    rw [feed_ofLimit_of_ok hpush] at hlength
    exact ⟨hframes, hlength⟩
  · rintro ⟨hframes, hlength⟩
    have hpush : (ofLimit limit).push pieces.flatten = (.ok frames, _) := Prod.ext hframes rfl
    rw [feed_ofLimit_of_ok hpush]
    exact ⟨rfl, hlength⟩

/-- A frame is not longer than what it is part of, so no limit is in its way. -/
theorem accepted_iff_of_length_le (hlength : frames.flatten.length ≤ limit + FrameHeader.size) :
    (∀ frame ∈ frames, Accepted limit frame) ↔ ∀ frame ∈ frames, Delimited frame := by
  constructor
  · intro h frame hmem
    exact (h frame hmem).1
  · intro h frame hmem
    have hle : frame.length ≤ frames.flatten.length :=
      (List.sublist_flatten_of_mem hmem).length_le
    refine ⟨h frame hmem, ?_⟩
    omega

/--
A payload that is no longer than a frame may be comes apart into frames exactly if a stream consumes
it, whole or in any pieces, and then into the same frames.
-/
theorem push_whole_iff_consumed (hlength : payload.length ≤ limit + FrameHeader.size)
    (frames : List Bytes) :
    ((Unpacker.empty.push ⟨payload, true⟩).1 = .ok frames
        ↔
      Consumed ((ofLimit limit).push payload) frames)
      ∧ ∀ pieces : List Bytes, pieces.flatten = payload →
        ((Unpacker.empty.push ⟨payload, true⟩).1 = .ok frames
          ↔
        Consumed (feed push (ofLimit limit) pieces) frames) := by
  have hwhole : (Unpacker.empty.push ⟨payload, true⟩).1 = .ok frames
      ↔ Consumed ((ofLimit limit).push payload) frames := by
    change Unpacker.wholeFrames payload = .ok frames ↔ _
    rw [Unpacker.wholeFrames_eq_ok_iff]
    rw [consumed_push_iff]
    apply and_congr_right
    rintro rfl
    exact (accepted_iff_of_length_le hlength).symm
  refine ⟨hwhole, ?_⟩
  intro pieces hpieces
  rw [hwhole]
  exact (consumed_feed_iff hpieces).symm

/-- A frame without a body and one with the longest body that fits, in pieces that end in between. -/
theorem push_whole_iff_consumed_longest :
    let bare : Bytes := [4, 0, 0, 2, 5, 0, 0, 0, 0]
    let full : Bytes := [4, 0, 0, 1, 7, 0, 0, 0, 2, 8, 9]
    let payload := bare ++ full
    payload.length = 11 + FrameHeader.size
      ∧ Consumed (feed push (ofLimit 11) [bare.take 4, bare.drop 4 ++ full.take 10, [], [9]])
          [bare, full]
      ∧ ∀ frames, ¬ Consumed ((ofLimit 11).push (payload.dropLast)) frames := by
  intro bare full payload
  have hpayload : Unpacker.wholeFrames payload = .ok [bare, full] := by
    rw [Unpacker.wholeFrames_eq_ok_iff]
    refine ⟨rfl, ?_⟩
    intro frame hmem
    simp only [List.mem_cons, List.not_mem_nil, or_false] at hmem
    rcases hmem with rfl | rfl
    · rfl
    · rfl
  have hcut : (Unpacker.empty.push ⟨payload.dropLast, true⟩).1
      = .error (.protocol (.endsInFrame 11 10)) := by
    cbv
  refine ⟨rfl, ?_, ?_⟩
  · have hle : payload.length ≤ 11 + FrameHeader.size := Nat.le_refl _
    exact ((push_whole_iff_consumed hle [bare, full]).2 _ rfl).1 hpayload
  · intro frames hconsumed
    have hle : payload.dropLast.length ≤ 11 + FrameHeader.size := by decide
    have hpush := (push_whole_iff_consumed hle frames).1.2 hconsumed
    rw [hcut] at hpush
    cases hpush

end FrameStream

end CqlWire
