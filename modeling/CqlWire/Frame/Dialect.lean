import CqlWire.Compressor
import CqlWire.Frame.Basic
import CqlWire.Frame.Header
import CqlWire.Registry

/-!
This module contains dialects, which write and read frames. A body is, in this order, the tracing
id, the custom payload and the warnings as far as they are there, and the message.
-/

namespace CqlWire

/-- An order in which to write the entries of custom payloads. All orders read as the same map. -/
structure PayloadOrder where
  arrange : List (String × Bytes) → List (String × Bytes)
  perm : ∀ entries, (arrange entries).Perm entries

def PayloadOrder.byKey : PayloadOrder := ⟨id, fun _ => .refl _⟩

structure Dialect where
  registry : Registry
  compressor : Compressor
  payloadOrder : PayloadOrder := .byKey

namespace Dialect

def ofRole (role : Role) (compressor : Compressor) : Dialect where
  registry := Registry.ofRole role
  compressor := compressor

def default : Dialect := ofRole .client .none

instance : Inhabited Dialect := ⟨default⟩

def plainFlags (frame : Frame) : UInt8 :=
  HeaderFlag.tracing.bitIf (frame.tracing || frame.tracingId.isSome)
    ||| HeaderFlag.customPayload.bitIf (!frame.customPayload.isEmpty)
    ||| HeaderFlag.warning.bitIf (!frame.warnings.isEmpty)
    ||| HeaderFlag.useBeta.bitIf frame.isBeta

def compresses (dialect : Dialect) (frame : Frame) : Bool :=
  !dialect.compressor.isNone && !Opcode.neverCompressed frame.opcode

def flags (dialect : Dialect) (frame : Frame) : UInt8 :=
  HeaderFlag.compressed.bitIf (dialect.compresses frame) ||| plainFlags frame

def encoder (dialect : Dialect) (frame : Frame) : Except Failure BodyCodec :=
  dialect.registry.encoder frame.version frame.opcode

def bodySizeWith (codec : BodyCodec) (frame : Frame) : Except Failure Nat := do
  let tracingId := if frame.tracingId.isSome then Format.uuidWidth else 0
  let customPayload :=
    if frame.customPayload.isEmpty then 0 else Format.bytesMap.size frame.customPayload
  let warnings := if frame.warnings.isEmpty then 0 else Format.stringList.size frame.warnings
  let message ← codec.size frame.message
  pure (tracingId + customPayload + warnings + message)

def bodySize (dialect : Dialect) (frame : Frame) : Except Failure Nat := do
  bodySizeWith (← dialect.encoder frame) frame

def writeHeader (frame : Frame) (flags : UInt8) (bodySize : Nat) : Written :=
  if bodySize ≤ Format.maxInt then
    Written.ofBytes <| FrameHeader.encode {
      version := frame.version
      isResponse := frame.isResponse
      flags
      streamId := frame.streamId
      opcode := frame.opcode
      bodyLength := Int32.ofNat bodySize
    }
  else
    Written.refuse (.protocol (.bodyTooLong bodySize))

def writeBody (dialect : Dialect) (codec : BodyCodec) (frame : Frame) : Written :=
  (match frame.tracingId with
    | none => Written.ofBytes []
    | some id => Format.uuid.write id)
  ++ (if frame.customPayload.isEmpty then Written.ofBytes []
      else (Format.entries .bytesMap Format.presentBytes).write
        (dialect.payloadOrder.arrange frame.customPayload.entries))
  ++ (if frame.warnings.isEmpty then Written.ofBytes []
      else Format.stringList.write frame.warnings)
  ++ codec.write frame.message

def checkBodySize (frame : Frame) (expected : Nat) (written : Written) : Written :=
  let size := written.bytes.length - FrameHeader.size
  if written.fault.isNone && size ≠ expected then
    ⟨written.bytes, some (.protocol (.bodySize frame.opcode size expected))⟩
  else
    written

/--
Writes a frame without compression. Where the caller says how long the body is, a body of another
length is an error.
-/
def write (dialect : Dialect) (frame : Frame) (bodySize? : Option Nat) : Written :=
  match frame.validate, dialect.encoder frame with
  | .error error, _ => Written.refuse error
  | .ok (), .error error => Written.refuse error
  | .ok (), .ok codec =>
    match bodySize?.map .ok |>.getD (bodySizeWith codec frame) with
    | .error error => Written.refuse error
    | .ok size =>
      checkBodySize frame size
        (writeHeader frame (plainFlags frame) size ++ dialect.writeBody codec frame)

def encode (dialect : Dialect) (frame : Frame) : Except Failure Bytes := do
  frame.validate
  let codec ← dialect.encoder frame
  let size ← bodySizeWith codec frame
  if dialect.compresses frame then
    let body ← (dialect.writeBody codec frame).toExcept
    let compressed ← dialect.compressor.compress body
    (writeHeader frame (dialect.flags frame) compressed.length
      ++ Written.ofBytes compressed).toExcept
  else
    (writeHeader frame (dialect.flags frame) size ++ dialect.writeBody codec frame).toExcept

def readBody (dialect : Dialect) (header : FrameHeader) (size compressedSize : Int32) :
    Reader Frame := do
  let tracing := header.has .tracing
  let tracingId ←
    if header.isResponse && tracing then some <$> Format.uuid.read else pure none
  let customPayload ←
    if header.has .customPayload then Format.bytesMap.read else pure .empty
  let warnings ←
    if header.isResponse && header.has .warning then Format.stringList.read else pure []
  match dialect.registry.decoder header.version header.opcode with
  | .error error => Reader.fail error
  | .ok codec =>
    -- Bytes behind the message are left alone.
    let message ← codec.read
    pure {
      version := header.version
      streamId := header.streamId
      tracing, tracingId, size, compressedSize, customPayload, warnings, message
    }

def sizeWith (bodyLength : Nat) : Int32 :=
  Int32.ofNat (FrameHeader.size + bodyLength)

def decode (dialect : Dialect) (bytes : Bytes) : Except Failure Frame :=
  match FrameHeader.decode? bytes with
  | none => .error (.truncated FrameHeader.size bytes.length)
  | some header =>
    let body := bytes.drop FrameHeader.size
    if header.bodyLength < 0 then
      .error (.protocol (.negativeBody header.bodyLength))
    else
      let declared := header.bodyLength.toNatClampNeg
      if body.length ≠ declared then
        .error (.protocol (.bodyLength declared body.length))
      else if header.has .compressed then do
        let expanded ← dialect.compressor.decompress body
        (dialect.readBody header (sizeWith expanded.length) (sizeWith declared) expanded).1
      else
        (dialect.readBody header (sizeWith declared) Frame.unknownSize body).1

end Dialect

end CqlWire
