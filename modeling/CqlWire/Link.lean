import CqlWire.Segment.Unpacker
import CqlWire.Settings
import CqlWire.Stream.Segments

/-!
This module contains both ends of a connection that uses segments: frames are packed into segments
on the one, and on the other pieces of the stream are turned back into frames.
-/

namespace CqlWire

namespace Link

inductive Order
  | send (frame : Except Failure Frame)
  | flush

def Order.run (packer : Packer Unit) : Order → Except Failure (List Segment × Packer Unit)
  | .send frame? => do
    let packed := packer.add (← frame?) ()
    let segments ← packed.segments
    pure (segments.map (·.1), packed.packer)
  | .flush =>
    let (segment?, _, packer) := packer.flush
    pure (segment?.toList.map (·.1), packer)

def pack.go (packer : Packer Unit) (done : List Segment) :
    List Order → Except Failure (List Segment)
  | [] => do
    -- In the end all is sent that is collected.
    let (segments, _) ← Order.flush.run packer
    pure (done ++ segments)
  | order :: rest => do
    let (segments, packer) ← order.run packer
    go packer (done ++ segments) rest

def pack (settings : Settings) (sender : Role) (orders : List Order) :
    Except Failure (List Segment) := do
  let packer ← settings.packer (settings.dialect sender) StatePolicy.trivial
  pack.go packer [] orders

def send (settings : Settings) (sender : Role) (orders : List Order) :
    Except Failure (List (Segment × SegmentParts)) := do
  let segments ← pack settings sender orders
  segments.mapM fun segment => do
    pure (segment, ← segment.encode settings.compressor)

def wire (sent : List (Segment × SegmentParts)) : Bytes :=
  sent.flatMap (·.2.toBytes)

structure Receiver where
  dialect : Dialect
  stream : SegmentStream
  unpacker : Unpacker
  received : List (Except Failure Frame)
  fault : Option Failure

namespace Receiver

def ofRole (receiver : Role) (compressor : Compressor) : Receiver where
  dialect := Dialect.ofRole receiver compressor
  stream := SegmentStream.ofCompressor compressor
  unpacker := .empty
  received := []
  fault := none

def takeSegment (receiver : Receiver) (segment : Segment) : Receiver :=
  if receiver.fault.isSome then receiver
  else
    let (frames, unpacker) := receiver.unpacker.push segment
    match frames with
    | .error error => { receiver with unpacker, fault := some error }
    | .ok frames =>
      { receiver with
        unpacker
        received := receiver.received ++ frames.map receiver.dialect.decode }

def take (receiver : Receiver) (piece : Bytes) : Receiver :=
  if receiver.fault.isSome then receiver
  else
    let (segments, stream) := receiver.stream.push piece
    match segments with
    | .error error => { receiver with stream, fault := some error }
    | .ok segments => segments.foldl takeSegment { receiver with stream }

end Receiver

def receive (receiver : Role) (compressor : Compressor) (pieces : List Bytes) : Receiver :=
  pieces.foldl Receiver.take (.ofRole receiver compressor)

end Link

end CqlWire
