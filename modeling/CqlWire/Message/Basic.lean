import CqlWire.StringMap
import CqlWire.Bytes

/-!
This module contains the messages that frames carry, and the opcodes that stand for them.
-/

namespace CqlWire

inductive Opcode
  | error
  | startup
  | ready
  | authenticate
  | options
  | supported
  | query
  | authResponse
  | authSuccess
deriving Repr, DecidableEq

namespace Opcode

def code : Opcode → UInt8
  | .error => 0x00
  | .startup => 0x01
  | .ready => 0x02
  | .authenticate => 0x03
  | .options => 0x05
  | .supported => 0x06
  | .query => 0x07
  | .authResponse => 0x0F
  | .authSuccess => 0x10

def all : List Opcode :=
  [.error, .startup, .ready, .authenticate, .options, .supported, .query, .authResponse,
    .authSuccess]

def isResponse : Opcode → Bool
  | .error | .ready | .authenticate | .supported | .authSuccess => true
  | .startup | .options | .query | .authResponse => false

theorem code_injective {first second : Opcode} (h : first.code = second.code) :
    first = second := by
  cases first <;> cases second <;> first | rfl | exact absurd h (by decide)

/-- The opcodes that travel before a compression is agreed on, and are never compressed. -/
def neverCompressed (opcode : UInt8) : Bool :=
  opcode = startup.code || opcode = options.code

end Opcode

structure Query where
  text : String
  consistency : UInt16 := 0x0001
  pageSize : Option Int32 := none
deriving DecidableEq

inductive Message
  | error (code : Int32) (text : String)
  | startup (options : StringMap String)
  | ready
  | authenticate (authenticator : String)
  | options
  | supported (options : StringMap (List String))
  | query (query : Query)
  | authResponse (token : Option Bytes)
  | authSuccess (token : Option Bytes)
deriving DecidableEq

namespace Message

def opcode : Message → Opcode
  | .error .. => .error
  | .startup _ => .startup
  | .ready => .ready
  | .authenticate _ => .authenticate
  | .options => .options
  | .supported _ => .supported
  | .query _ => .query
  | .authResponse _ => .authResponse
  | .authSuccess _ => .authSuccess

def isResponse (message : Message) : Bool :=
  message.opcode.isResponse

end Message

end CqlWire
