import CqlWire.Frame.Header
import CqlWire.Stream.Cutter

/-!
This module contains the cutting of streams without segments into frames.
-/

namespace CqlWire

namespace FrameStream

inductive State
  | header
  | body (length : Nat)
deriving Repr, DecidableEq

def nextFrame (length : Nat) (held : Bytes) : Cut State Bytes :=
  match held.split? (FrameHeader.size + length) with
  | some (frame, rest) => .item frame .header rest
  | none => .wait (.body length) held

def next (limit : Nat) : State → Bytes → Cut State Bytes
  | .header, held =>
    match FrameHeader.declaredLength? held with
    | none => .wait .header held
    | some length =>
      if length < 0 then
        .fail (.protocol (.negativeFrameBody length)) .header held
      else if limit < length.toNatClampNeg then
        .fail (.protocol (.frameBodyOverLimit length.toNatClampNeg limit)) .header held
      else
        nextFrame length.toNatClampNeg held
  | .body length, held => nextFrame length held

theorem length_lt_of_nextFrame {length : Nat} {held rest frame : Bytes} {state : State}
    (h : nextFrame length held = .item frame state rest) : rest.length < held.length := by
  unfold nextFrame at h
  split at h
  · rename_i hsplit
    have := (Bytes.length_of_split? hsplit).2
    simp only [Cut.item.injEq] at h
    simp only [← h.2.2, FrameHeader.size] at *
    omega
  · simp at h

theorem length_lt_of_next {limit : Nat} {held rest frame : Bytes} {state state' : State}
    (h : next limit state held = .item frame state' rest) : rest.length < held.length := by
  cases state with
  | header =>
    simp only [next] at h
    split at h
    · simp at h
    · split at h
      · simp at h
      · split at h
        · simp at h
        · exact length_lt_of_nextFrame h
  | body length => exact length_lt_of_nextFrame h

def cutter (limit : Nat) : Cutter State Bytes where
  next := next limit
  length_lt := length_lt_of_next

end FrameStream

structure FrameStream where
  limit : Nat
  held : Held FrameStream.State
deriving Repr, DecidableEq

namespace FrameStream

def defaultLimit : Nat := 268435456

def ofLimit (limit : Nat) : FrameStream := ⟨limit, ⟨.header, []⟩⟩

def push (stream : FrameStream) (data : Bytes) :
    Except Failure (List Bytes) × FrameStream :=
  let (frames, held) := (cutter stream.limit).push stream.held data
  (frames, { stream with held })

def clear (stream : FrameStream) : FrameStream := ofLimit stream.limit

def length (stream : FrameStream) : Nat := stream.held.bytes.length

end FrameStream

end CqlWire
