import CqlWire.Frame.Header
import CqlWire.Segment.Basic

/-!
This module contains the way back from segments to frames: payloads of whole frames are taken apart,
and slices are put together until they are as long as the header of their frame declares.
-/

namespace CqlWire

/-- The slices of a frame that are there so far, and how long the frame is once that is known. -/
structure Unpacker where
  pending : Bytes
  expected : Option Nat
deriving Repr, DecidableEq

namespace Unpacker

def empty : Unpacker := ⟨[], none⟩

def insideFrame (unpacker : Unpacker) : Bool := !unpacker.pending.isEmpty

theorem size_le_of_frameLength? {bytes : Bytes} {length : Nat}
    (h : FrameHeader.frameLength? bytes = some (.ok length)) : FrameHeader.size ≤ length := by
  simp only [FrameHeader.frameLength?, Option.map_eq_some_iff] at h
  obtain ⟨_, _, h⟩ := h
  split at h
  · simp at h
  · simp only [Except.ok.injEq] at h
    omega

def wholeFrames.go (done : List Bytes) (payload : Bytes) : Except Failure (List Bytes) :=
  if payload.isEmpty then .ok done.reverse
  else
    match hlength : FrameHeader.frameLength? payload with
    | none => .error (.protocol (.endsInFrameHeader payload.length))
    | some (.error error) => .error error
    | some (.ok length) =>
      match hsplit : payload.split? length with
      | none => .error (.protocol (.endsInFrame length payload.length))
      | some (frame, rest) =>
        have : rest.length < payload.length := by
          have h₁ := size_le_of_frameLength? hlength
          have h₂ := (Bytes.length_of_split? hsplit).2
          simp only [FrameHeader.size] at h₁
          omega
        go (frame :: done) rest
termination_by payload.length

def wholeFrames (payload : Bytes) : Except Failure (List Bytes) :=
  wholeFrames.go [] payload

def slicesOf (length : Nat) (pending : Bytes) : Except Failure (List Bytes) × Unpacker :=
  if length < pending.length then
    (.error (.protocol (.slicesOverrun length (pending.length - length))), ⟨pending, some length⟩)
  else if pending.length = length then
    (.ok [pending], empty)
  else
    (.ok [], ⟨pending, some length⟩)

def push (unpacker : Unpacker) (segment : Segment) :
    Except Failure (List Bytes) × Unpacker :=
  if segment.selfContained then
    if unpacker.insideFrame then
      (.error (.protocol (.insideSlicedFrame unpacker.pending.length)), unpacker)
    else
      (wholeFrames segment.payload, unpacker)
  else
    let pending := unpacker.pending ++ segment.payload
    match unpacker.expected with
    | some length => slicesOf length pending
    | none =>
      match FrameHeader.frameLength? pending with
      | none => (.ok [], ⟨pending, none⟩)
      | some (.error error) => (.error error, ⟨pending, none⟩)
      | some (.ok length) => slicesOf length pending

end Unpacker

end CqlWire
