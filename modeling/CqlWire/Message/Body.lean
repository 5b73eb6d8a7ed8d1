import CqlWire.Format
import CqlWire.Message.Basic
import CqlWire.Version

/-!
This module contains the wire formats of messages, and the codecs that choose among them.
-/

namespace CqlWire

namespace Query

def pagingFlag : UInt32 := 0x04

def flags (query : Query) : UInt32 :=
  if query.pageSize.isSome then pagingFlag else 0

def flagsFormat (wide : Bool) : Format UInt32 :=
  if wide then Format.u32 else Format.u8.imap UInt8.toUInt32 UInt32.toUInt8

def format (wide : Bool) : Format Query where
  read := do
    let text ← Format.longString.read
    let consistency ← Format.u16.read
    let flags ← (flagsFormat wide).read
    if flags &&& pagingFlag = 0 then
      pure ⟨text, consistency, none⟩
    else
      let pageSize ← Format.i32.read
      pure ⟨text, consistency, some pageSize⟩
  write query :=
    Format.longString.write query.text
      ++ Format.u16.write query.consistency
      ++ (flagsFormat wide).write query.flags
      ++ (match query.pageSize with
          | none => Written.ofBytes []
          | some pageSize => Format.i32.write pageSize)
  size query :=
    Format.longString.size query.text
      + Format.u16.size query.consistency
      + (flagsFormat wide).size query.flags
      + (match query.pageSize with
          | none => 0
          | some pageSize => Format.i32.size pageSize)

end Query

inductive BodyCodec
  | error
  | startup
  | ready
  | authenticate
  | options
  | supported
  | query (wideFlags : Bool)
  | authResponse
  | authSuccess
deriving Repr, DecidableEq

namespace BodyCodec

def queryFor (version : Version) : BodyCodec :=
  .query version.hasWideQueryFlags

def opcode : BodyCodec → Opcode
  | .error => .error
  | .startup => .startup
  | .ready => .ready
  | .authenticate => .authenticate
  | .options => .options
  | .supported => .supported
  | .query _ => .query
  | .authResponse => .authResponse
  | .authSuccess => .authSuccess

def description : BodyCodec → String
  | .error => "ErrorCodec"
  | .startup => "StartupCodec"
  | .ready => "ReadyCodec"
  | .authenticate => "AuthenticateCodec"
  | .options => "OptionsCodec"
  | .supported => "SupportedCodec"
  | .query wideFlags => s!"QueryCodec \x7b int_flags: {wideFlags} \x7d"
  | .authResponse => "AuthResponseCodec"
  | .authSuccess => "AuthSuccessCodec"

def foreign (codec : BodyCodec) (message : Message) : Failure :=
  .protocol (.foreignMessage codec.opcode.code message.opcode.code)

def errorBody : Format (Int32 × String) :=
  Format.i32.pair Format.string

def write : BodyCodec → Message → Written
  | .error, .error code text => errorBody.write (code, text)
  | .startup, .startup chosen => Format.stringMap.write chosen
  | .ready, .ready => Written.ofBytes []
  | .authenticate, .authenticate authenticator => Format.string.write authenticator
  | .options, .options => Written.ofBytes []
  | .supported, .supported offered => Format.stringMultimap.write offered
  | .query wideFlags, .query asked => (Query.format wideFlags).write asked
  | .authResponse, .authResponse token => Format.bytes.write token
  | .authSuccess, .authSuccess token => Format.bytes.write token
  | codec, message => Written.refuse (codec.foreign message)

def size : BodyCodec → Message → Except Failure Nat
  | .error, .error code text => .ok (errorBody.size (code, text))
  | .startup, .startup chosen => .ok (Format.stringMap.size chosen)
  | .ready, .ready => .ok 0
  | .authenticate, .authenticate authenticator => .ok (Format.string.size authenticator)
  | .options, .options => .ok 0
  | .supported, .supported offered => .ok (Format.stringMultimap.size offered)
  | .query wideFlags, .query asked => .ok ((Query.format wideFlags).size asked)
  | .authResponse, .authResponse token => .ok (Format.bytes.size token)
  | .authSuccess, .authSuccess token => .ok (Format.bytes.size token)
  | codec, message => .error (codec.foreign message)

def read : BodyCodec → Reader Message
  | .error => (fun (code, text) => .error code text) <$> errorBody.read
  | .startup => .startup <$> Format.stringMap.read
  | .ready => pure .ready
  | .authenticate => .authenticate <$> Format.string.read
  | .options => pure .options
  | .supported => .supported <$> Format.stringMultimap.read
  | .query wideFlags => .query <$> (Query.format wideFlags).read
  | .authResponse => .authResponse <$> Format.bytes.read
  | .authSuccess => .authSuccess <$> Format.bytes.read

end BodyCodec

end CqlWire
