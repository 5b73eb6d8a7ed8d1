import CqlWire.Segment.Basic
import CqlWire.Stream.Cutter

/-!
This module contains the cutting of streams into segments.
-/

namespace CqlWire

namespace SegmentStream

inductive State
  | header
  | payload (header : SegmentHeader)
deriving Repr, DecidableEq

def nextPayload (compressor : Compressor) (header : SegmentHeader) (held : Bytes) :
    Cut State Segment :=
  match held.split? (header.payloadLength + Segment.trailerSize) with
  | none => .wait (.payload header) held
  | some (body, rest) =>
    match Segment.decode compressor header body with
    | .ok segment => .item segment .header rest
    | .error error => .fail error .header rest

def next (compressor : Compressor) : State → Bytes → Cut State Segment
  | .header, held =>
    match held.split? (SegmentHeader.size compressor) with
    | none => .wait .header held
    | some (front, rest) =>
      match (SegmentHeader.read compressor front).1 with
      | .ok header => nextPayload compressor header rest
      | .error error => .fail error .header rest
  | .payload header, held => nextPayload compressor header held

theorem length_lt_of_nextPayload {compressor : Compressor} {header : SegmentHeader}
    {held rest : Bytes} {segment : Segment} {state : State}
    (h : nextPayload compressor header held = .item segment state rest) :
    rest.length < held.length := by
  unfold nextPayload at h
  split at h
  · simp at h
  · rename_i hsplit
    have := (Bytes.length_of_split? hsplit).2
    split at h
    · simp only [Cut.item.injEq] at h
      simp only [← h.2.2, Segment.trailerSize] at *
      omega
    · simp at h

theorem length_lt_of_next {compressor : Compressor} {held rest : Bytes} {segment : Segment}
    {state state' : State} (h : next compressor state held = .item segment state' rest) :
    rest.length < held.length := by
  cases state with
  | header =>
    simp only [next] at h
    split at h
    · simp at h
    · rename_i hsplit
      have := (Bytes.length_of_split? hsplit).2
      split at h
      · have := length_lt_of_nextPayload h
        omega
      · simp at h
  | payload header => exact length_lt_of_nextPayload h

def cutter (compressor : Compressor) : Cutter State Segment where
  next := next compressor
  length_lt := length_lt_of_next

end SegmentStream

structure SegmentStream where
  compressor : Compressor
  held : Held SegmentStream.State

namespace SegmentStream

def ofCompressor (compressor : Compressor) : SegmentStream := ⟨compressor, ⟨.header, []⟩⟩

def push (stream : SegmentStream) (data : Bytes) :
    Except Failure (List Segment) × SegmentStream :=
  let (segments, held) := (cutter stream.compressor).push stream.held data
  (segments, { stream with held })

def length (stream : SegmentStream) : Nat := stream.held.bytes.length

end SegmentStream

end CqlWire
