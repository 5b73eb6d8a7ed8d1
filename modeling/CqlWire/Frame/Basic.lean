import CqlWire.Failure
import CqlWire.Format
import CqlWire.Message.Basic
import CqlWire.Version

/-!
This module contains frames: messages with all that travels along with them.
-/

namespace CqlWire

/--
A message on a stream. The two sizes tell how long a received frame was, header included: `size`
with its body expanded, `compressedSize` as it came if its body was compressed.
-/
structure Frame where
  version : Version
  streamId : Int16
  tracing : Bool
  tracingId : Option Uuid
  size : Int32
  compressedSize : Int32
  customPayload : StringMap Bytes
  warnings : List String
  message : Message
deriving DecidableEq

namespace Frame

def unknownSize : Int32 := -1

def isBeta (frame : Frame) : Bool := frame.version.isBeta

def isResponse (frame : Frame) : Bool := frame.message.isResponse

def opcode (frame : Frame) : UInt8 := frame.message.opcode.code

def validate (frame : Frame) : Except Failure Unit :=
  if frame.version.hasCustomPayload then .ok ()
  else if !frame.customPayload.isEmpty then
    .error (.protocol (.customPayload frame.version))
  else if !frame.warnings.isEmpty then
    .error (.protocol (.warnings frame.version))
  else .ok ()

def validated (frame : Frame) : Except Failure Frame :=
  frame.validate.map fun _ => frame

def request (version : Version) (streamId : Int16) (tracing : Bool)
    (customPayload : StringMap Bytes) (message : Message) : Except Failure Frame :=
  if message.isResponse then
    .error (.protocol (.responseAsRequest message.opcode.code))
  else
    validated {
      version, streamId, tracing, customPayload, message
      tracingId := none
      size := unknownSize
      compressedSize := unknownSize
      warnings := []
    }

def response (version : Version) (streamId : Int16) (tracingId : Option Uuid)
    (customPayload : StringMap Bytes) (warnings : List String) (message : Message) :
    Except Failure Frame :=
  if message.isResponse then
    validated {
      version, streamId, tracingId, customPayload, warnings, message
      tracing := tracingId.isSome
      size := unknownSize
      compressedSize := unknownSize
    }
  else
    .error (.protocol (.requestAsResponse message.opcode.code))

end Frame

end CqlWire
