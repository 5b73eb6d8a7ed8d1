import CqlWire.Frame.Dialect
import CqlWire.Segment.Basic

/-!
This module contains the packing of frames into segments. Short frames are collected and travel
together; a frame too long for a segment is cut into slices at once. Each frame comes with a state
of the caller's, and each segment goes with the states of what is in it.
-/

namespace CqlWire

structure StatePolicy (S : Type) where
  merge : List S → S
  split : S → Nat → List S

def StatePolicy.trivial : StatePolicy Unit where
  merge _ := ()
  split _ count := List.replicate count ()

structure PayloadLimit where
  value : Nat
  pos : 0 < value
  le : value ≤ Segment.maxPayload
deriving Repr, DecidableEq

namespace PayloadLimit

def greatest : PayloadLimit := ⟨Segment.maxPayload, by decide, Nat.le_refl _⟩

def ofNat? (value : Nat) : Option PayloadLimit :=
  if h : 0 < value ∧ value ≤ Segment.maxPayload then some ⟨value, h.1, h.2⟩ else none

def cut (limit : PayloadLimit) (bytes : Bytes) : List Bytes :=
  bytes.chunks limit.value limit.pos

end PayloadLimit

inductive PackingEvent
  | split (frame : Frame) (frameLength slices : Nat)
  | full (frame : Frame) (frameLength payloadLength frameCount : Nat)
  | added (frame : Frame) (frameLength payloadLength frameCount : Nat)
  | flushed (payloadLength frameCount : Nat)
deriving DecidableEq

structure Packer (S : Type) where
  dialect : Dialect
  policy : StatePolicy S
  limit : PayloadLimit
  hasListener : Bool
  payload : Bytes
  states : List S

structure Packed (S : Type) where
  segments : Except Failure (List (Segment × S))
  events : List PackingEvent
  packer : Packer S

namespace Packer

variable {S : Type}

def ofLimit (dialect : Dialect) (policy : StatePolicy S) (limit : PayloadLimit)
    (hasListener : Bool) : Packer S :=
  ⟨dialect, policy, limit, hasListener, [], []⟩

def ofLimit? (dialect : Dialect) (policy : StatePolicy S) (limit : Nat) (hasListener : Bool) :
    Except Failure (Packer S) :=
  match PayloadLimit.ofNat? limit with
  | some limit => .ok (ofLimit dialect policy limit hasListener)
  | none => .error (.protocol (.packingLimit Segment.maxPayload limit))

def heard (packer : Packer S) (events : List PackingEvent) : List PackingEvent :=
  if packer.hasListener then events else []

def flush (packer : Packer S) : Option (Segment × S) × List PackingEvent × Packer S :=
  if packer.states.isEmpty then (none, [], packer)
  else
    let segment : Segment := ⟨packer.payload, true⟩
    (some (segment, packer.policy.merge packer.states),
      packer.heard [.flushed packer.payload.length packer.states.length],
      { packer with payload := [], states := [] })

def collect (packer : Packer S) (frame : Frame) (encoded : Bytes) (state : S) :
    List PackingEvent × Packer S :=
  let packer := { packer with
    payload := packer.payload ++ encoded
    states := packer.states ++ [state] }
  (packer.heard
    [.added frame encoded.length packer.payload.length packer.states.length],
    packer)

def addShort (packer : Packer S) (frame : Frame) (bodySize : Nat) (state : S) : Packed S :=
  match (packer.dialect.write frame (some bodySize)).toExcept with
  | .error error => ⟨.error error, [], packer⟩
  | .ok encoded =>
    if packer.limit.value < packer.payload.length + encoded.length then
      let full := packer.heard
        [.full frame encoded.length packer.payload.length packer.states.length]
      let (segment?, flushed, packer) := packer.flush
      let (added, packer) := packer.collect frame encoded state
      ⟨.ok segment?.toList, full ++ flushed ++ added, packer⟩
    else
      let (added, packer) := packer.collect frame encoded state
      ⟨.ok [], added, packer⟩

def addLong (packer : Packer S) (frame : Frame) (bodySize : Nat) (state : S) : Packed S :=
  let limit := packer.limit.value
  let length := FrameHeader.size + bodySize
  let count := (length + limit - 1) / limit
  let events := packer.heard [.split frame length count]
  match (packer.dialect.write frame (some bodySize)).toExcept with
  | .error error => ⟨.error error, events, packer⟩
  | .ok encoded =>
    let parts := packer.policy.split state count
    if parts.length = count then
      -- The frames that were collected stay.
      let slices := (packer.limit.cut encoded).map (fun payload => ⟨payload, false⟩)
      ⟨.ok (slices.zip parts), events, packer⟩
    else
      ⟨.error (.protocol (.stateParts parts.length count)), events, packer⟩

def add (packer : Packer S) (frame : Frame) (state : S) : Packed S :=
  if frame.version.hasSegments then
    match packer.dialect.bodySize frame with
    | .error error => ⟨.error error, [], packer⟩
    | .ok bodySize =>
      if packer.limit.value < FrameHeader.size + bodySize then
        packer.addLong frame bodySize state
      else
        packer.addShort frame bodySize state
  else
    ⟨.error (.protocol (.unsegmented frame.version)), [], packer⟩

def description (packer : Packer S) : String :=
  let limit := packer.limit.value
  let count := packer.states.length
  let length := packer.payload.length
  let listening := packer.hasListener
  s!"SegmentBuilder \x7b max_payload_length: {limit}, current_frame_count: {count}, "
    ++ s!"current_payload_length: {length}, has_listener: {listening} \x7d"

end Packer

end CqlWire
