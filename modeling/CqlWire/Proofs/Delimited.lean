import CqlWire.Segment.Unpacker

/-!
This module contains bytes that are as long as the frame header in front of them declares.
-/

namespace CqlWire

namespace FrameHeader

/-- The header in front of `bytes` is that of a frame of `length` bytes. -/
def Declares (bytes : Bytes) (length : Nat) : Prop :=
  ∃ bodyLength, declaredLength? bytes = some bodyLength
    ∧ 0 ≤ bodyLength.toInt ∧ length = size + bodyLength.toInt

theorem frameLength?_eq_ok_iff {bytes : Bytes} {length : Nat} :
    frameLength? bytes = some (.ok length) ↔ Declares bytes length := by
  unfold frameLength? Declares
  rw [Option.map_eq_some_iff]
  constructor
  · rintro ⟨bodyLength, hdeclared, hlength⟩
    refine ⟨bodyLength, hdeclared, ?_⟩
    split at hlength
    · simp at hlength
    · next hneg =>
      rw [Int32.lt_iff_toInt_lt] at hneg
      simp only [Except.ok.injEq, Int32.toNatClampNeg, Int32.toInt_zero] at hlength hneg
      omega
  · rintro ⟨bodyLength, hdeclared, hpos, hlength⟩
    refine ⟨bodyLength, hdeclared, ?_⟩
    rw [if_neg]
    · simp only [Except.ok.injEq, Int32.toNatClampNeg]
      omega
    · rw [Int32.lt_iff_toInt_lt, Int32.toInt_zero]
      omega

theorem frameLength?_eq_error_iff {bytes : Bytes} {error : Failure} :
    frameLength? bytes = some (.error error)
      ↔
    ∃ bodyLength, declaredLength? bytes = some bodyLength ∧ bodyLength < 0
      ∧ error = .protocol (.negativeFrameBody bodyLength) := by
  unfold frameLength?
  rw [Option.map_eq_some_iff]
  constructor
  · rintro ⟨bodyLength, hdeclared, herror⟩
    refine ⟨bodyLength, hdeclared, ?_⟩
    split at herror
    · next hneg =>
      cases herror
      exact ⟨hneg, rfl⟩
    · cases herror
  · rintro ⟨bodyLength, hdeclared, hneg, rfl⟩
    exact ⟨bodyLength, hdeclared, if_pos hneg⟩

theorem Declares.append {bytes : Bytes} {length : Nat} (h : Declares bytes length)
    (more : Bytes) : Declares (bytes ++ more) length := by
  obtain ⟨bodyLength, hdeclared, hlength⟩ := h
  refine ⟨bodyLength, ?_, hlength⟩
  rw [declaredLength?_append (size_le_of_declaredLength? hdeclared)]
  exact hdeclared

end FrameHeader

/-- A frame as it travels: it is as long as its header declares. -/
def Delimited (frame : Bytes) : Prop :=
  FrameHeader.frameLength? frame = some (.ok frame.length)

theorem delimited_iff {frame : Bytes} :
    Delimited frame ↔ FrameHeader.size ≤ frame.length ∧ FrameHeader.Declares frame frame.length := by
  unfold Delimited
  rw [FrameHeader.frameLength?_eq_ok_iff]
  constructor
  · intro h
    obtain ⟨bodyLength, _, hpos, hlength⟩ := id h
    refine ⟨?_, h⟩
    omega
  · exact And.right

theorem delimited_encode_append {header : FrameHeader} {body : Bytes}
    (hneg : ¬ header.bodyLength < 0) (hlength : header.bodyLength.toNatClampNeg = body.length) :
    Delimited (header.encode ++ body) := by
  unfold Delimited FrameHeader.frameLength?
  rw [FrameHeader.declaredLength?_encode_append]
  rw [Option.map_some]
  rw [if_neg hneg]
  rw [List.length_append, FrameHeader.length_encode]
  rw [hlength]

theorem delimited_of_append {front back : Bytes} (hsize : FrameHeader.size ≤ front.length)
    (h : FrameHeader.frameLength? (front ++ back) = some (.ok front.length)) : Delimited front := by
  rw [FrameHeader.frameLength?_append hsize] at h
  exact h

namespace Delimited

theorem size_le {frame : Bytes} (h : Delimited frame) : FrameHeader.size ≤ frame.length :=
  Unpacker.size_le_of_frameLength? h

theorem frameLength?_append {frame : Bytes} (h : Delimited frame) (more : Bytes) :
    FrameHeader.frameLength? (frame ++ more) = some (.ok frame.length) := by
  rw [FrameHeader.frameLength?_append h.size_le]
  apply h

theorem frameLength?_front {front back : Bytes} (h : Delimited (front ++ back))
    (hsize : FrameHeader.size ≤ front.length) :
    FrameHeader.frameLength? front = some (.ok (front ++ back).length) := by
  rw [← FrameHeader.frameLength?_append hsize back]
  apply h

theorem eq_of_append_eq {frame frame' more more' : Bytes} (h : Delimited frame)
    (h' : Delimited frame') (heq : frame ++ more = frame' ++ more') :
    frame = frame' ∧ more = more' := by
  have hlength := h.frameLength?_append more
  rw [heq] at hlength
  rw [h'.frameLength?_append] at hlength
  simp only [Option.some.injEq, Except.ok.injEq] at hlength
  apply List.append_inj heq
  exact hlength.symm

end Delimited

end CqlWire
