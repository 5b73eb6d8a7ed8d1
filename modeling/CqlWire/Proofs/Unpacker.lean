import CqlWire.Proofs.Delimited
import CqlWire.Proofs.Feed

/-!
This module contains why frames come back out of segments: a payload of whole frames is taken apart
where they were put together, and the slices of a frame are joined when the last of them is there.
-/

namespace CqlWire

namespace Unpacker

theorem wholeFrames.go_flatten {frames : List Bytes} (h : ∀ frame ∈ frames, Delimited frame)
    (done : List Bytes) : wholeFrames.go done frames.flatten = .ok (done.reverse ++ frames) := by
  induction frames generalizing done with
  | nil =>
    rw [go]
    rw [List.append_nil]
    rfl
  | cons frame rest ih =>
    have hframe := h frame (by simp)
    have hlength := hframe.frameLength?_append rest.flatten
    have hsplit := Bytes.split?_append frame rest.flatten
    have hsize := hframe.size_le
    rw [List.flatten_cons]
    rw [go]
    rw [if_neg (by simp [FrameHeader.size] at *; intro hnil; simp [hnil] at hsize)]
    split
    · next hnone => simp [hlength] at hnone
    · next herror => simp [hlength] at herror
    · next length hsome =>
      simp only [hlength, Option.some.injEq, Except.ok.injEq] at hsome
      subst hsome
      split
      · next hnone => simp [hsplit] at hnone
      · next hsome =>
        simp only [hsplit, Option.some.injEq, Prod.mk.injEq] at hsome
        obtain ⟨rfl, rfl⟩ := hsome
        rw [ih (by intro frame' hmem; apply h; simp [hmem])]
        rw [List.reverse_cons, List.append_assoc]
        rfl

theorem push_whole {frames : List Bytes} (h : ∀ frame ∈ frames, Delimited frame) :
    push empty ⟨frames.flatten, true⟩ = (.ok frames, empty) := by
  have hframes : wholeFrames frames.flatten = .ok frames := wholeFrames.go_flatten h []
  unfold push
  rw [if_pos rfl]
  rw [if_neg (by simp [insideFrame, empty])]
  rw [hframes]

def waiting (frame done : Bytes) : Unpacker where
  pending := done
  expected := if FrameHeader.size ≤ done.length then some frame.length else none

theorem slicesOf_front (front more : Bytes) :
    slicesOf (front ++ more).length front
      =
    if more = [] then (.ok [front], empty)
    else (.ok [], ⟨front, some (front ++ more).length⟩) := by
  unfold slicesOf
  rw [List.length_append]
  rw [if_neg (by omega)]
  split
  · next heq =>
    have : more = [] := List.length_eq_zero_iff.1 (by omega)
    rw [if_pos this]
  · next hne =>
    rw [if_neg]
    intro hnil
    rw [hnil] at hne
    exact hne rfl

theorem waiting_of_size_le {frame done : Bytes} (h : FrameHeader.size ≤ done.length) :
    waiting frame done = ⟨done, some frame.length⟩ := by
  unfold waiting
  rw [if_pos h]

theorem waiting_of_lt {frame done : Bytes} (h : done.length < FrameHeader.size) :
    waiting frame done = ⟨done, none⟩ := by
  unfold waiting
  rw [if_neg (Nat.not_le_of_lt h)]

/-- The length that is expected is the one that the header in front of the slices declares. -/
def Knows (unpacker : Unpacker) : Prop :=
  ∀ length, unpacker.expected = some length → FrameHeader.Declares unpacker.pending length

/-- What the slices that are there come to, by the header in front of them. -/
def ofSlices (pending : Bytes) : Except Failure (List Bytes) × Unpacker :=
  match FrameHeader.frameLength? pending with
  | none => (.ok [], ⟨pending, none⟩)
  | some (.error error) => (.error error, ⟨pending, none⟩)
  | some (.ok length) => slicesOf length pending

theorem Knows.push_slice {unpacker : Unpacker} (h : Knows unpacker) (slice : Bytes) :
    push unpacker ⟨slice, false⟩ = ofSlices (unpacker.pending ++ slice) := by
  unfold push
  rw [if_neg Bool.false_ne_true]
  dsimp only
  cases hexpected : unpacker.expected with
  | none => rfl
  | some length =>
    have hdeclares := (h length hexpected).append slice
    unfold ofSlices
    rw [FrameHeader.frameLength?_eq_ok_iff.2 hdeclares]

theorem knows_waiting {done more : Bytes} (h : Delimited (done ++ more)) :
    Knows (waiting (done ++ more) done) := by
  intro length hexpected
  dsimp only [waiting] at hexpected
  split at hexpected
  · next hsize =>
    cases hexpected
    exact FrameHeader.frameLength?_eq_ok_iff.1 (h.frameLength?_front hsize)
  · cases hexpected

theorem push_slice {done slice more : Bytes} (h : Delimited (done ++ slice ++ more)) :
    push (waiting (done ++ slice ++ more) done) ⟨slice, false⟩
      =
    if more = [] then (.ok [done ++ slice], empty)
    else (.ok [], waiting (done ++ slice ++ more) (done ++ slice)) := by
  have hknows : Knows (waiting (done ++ slice ++ more) done) := by
    rw [List.append_assoc] at h ⊢
    exact knows_waiting h
  rw [hknows.push_slice]
  change ofSlices (done ++ slice) = _
  unfold ofSlices
  by_cases hslice : FrameHeader.size ≤ (done ++ slice).length
  · rw [h.frameLength?_front hslice]
    rw [waiting_of_size_le hslice]
    apply slicesOf_front
  · -- Not even the header is there, so the frame is not.
    rw [waiting_of_lt (Nat.lt_of_not_le hslice)]
    rw [FrameHeader.frameLength?_eq_none_iff.2 (Nat.lt_of_not_le hslice)]
    rw [if_neg]
    intro hnil
    have := h.size_le
    rw [hnil, List.append_nil] at this
    exact hslice this

theorem feed_nothing {slices : List Bytes} (h : slices.flatten = []) :
    feed push empty (slices.map fun slice => ⟨slice, false⟩) = (.ok [], empty) := by
  induction slices with
  | nil => rfl
  | cons slice rest ih =>
    rw [List.flatten_cons, List.append_eq_nil_iff] at h
    obtain ⟨rfl, hrest⟩ := h
    have hpush : push empty ⟨[], false⟩ = (.ok [], empty) := rfl
    rw [List.map_cons]
    rw [feed_cons_of_ok hpush]
    rw [ih hrest]
    rfl

theorem feed_waiting {done : Bytes} {slices : List Bytes} (h : Delimited (done ++ slices.flatten))
    (hmore : slices.flatten ≠ []) :
    feed push (waiting (done ++ slices.flatten) done) (slices.map fun slice => ⟨slice, false⟩)
      =
    (.ok [done ++ slices.flatten], empty) := by
  -- By induction on the slices; the frame is complete once nothing more is to come.
  induction slices generalizing done with
  | nil => exact absurd rfl hmore
  | cons slice rest ih =>
    rw [List.flatten_cons, ← List.append_assoc] at h ⊢
    have hpush := push_slice h
    rw [List.map_cons]
    by_cases hrest : rest.flatten = []
    · rw [if_pos hrest] at hpush
      rw [feed_cons_of_ok hpush]
      rw [feed_nothing hrest]
      rw [hrest]
      simp
    · rw [if_neg hrest] at hpush
      rw [feed_cons_of_ok hpush]
      rw [ih h hrest]
      rfl

theorem feed_slices {slices : List Bytes} {frame : Bytes} (h : Delimited frame)
    (hframe : slices.flatten = frame) :
    feed push empty (slices.map fun slice => ⟨slice, false⟩) = (.ok [frame], empty) := by
  have hne : slices.flatten ≠ [] := by
    intro hnil
    have hsize := h.size_le
    rw [← hframe, hnil] at hsize
    simp [FrameHeader.size] at hsize
  rw [← hframe, ← List.nil_append slices.flatten] at h
  rw [← hframe]
  apply feed_waiting h hne

end Unpacker

end CqlWire
