import CqlWire.Json.Basic
import CqlWire.Lz4.Codec
import CqlWire.Segment.Packer

/-!
This module contains the settings of a connection: its compression, and the limit for the payloads
of the segments that it packs.
-/

namespace CqlWire

inductive Compression
  | none
  | lz4
deriving Repr, DecidableEq

namespace Compression

def name : Compression → String
  | .none => "none"
  | .lz4 => "lz4"

def ofName? (name : String) : Option Compression :=
  [Compression.none, .lz4].find? (·.name = name)

def compressor : Compression → Compressor
  | .none => .none
  | .lz4 => .lz4

end Compression

/-- The limit is as it was given and may be out of range. -/
structure Settings where
  compression : Compression := .none
  maxSegmentPayload : Nat := Segment.maxPayload
deriving Repr, DecidableEq

namespace Settings

def default : Settings := {}

instance : Inhabited Settings := ⟨default⟩

def compressionKey : String := "compression"

def maxSegmentPayloadKey : String := "max_segment_payload_length"

def compression? : Json → Option Compression
  | .string (some name) => Compression.ofName? name
  | .object [(some name, .null)] => Compression.ofName? name
  | _ => none

def maxSegmentPayload? : Json → Option Nat
  | .natural value => if value < UInt64.size then some value else none
  | _ => none

def field (members : List (Option String × Json)) (key : String) {α : Type} (default : α)
    (ofJson? : Json → Option α) : Option α :=
  match members.filter (·.1 = some key) with
  | [] => some default
  | [(_, value)] => ofJson? value
  | _ => none

/--
Settings are an object or, in order, the items of an array. What is left out has its default, and
other keys count for nothing.
-/
def ofJson? : Json → Option Settings
  | .object members =>
    if members.all (·.1.isSome) then do
      let compression ← field members compressionKey default.compression compression?
      let limit ← field members maxSegmentPayloadKey default.maxSegmentPayload maxSegmentPayload?
      some ⟨compression, limit⟩
    else none
  | .array [] => some default
  | .array [first] => do some { default with compression := ← compression? first }
  | .array [first, second] => do some ⟨← compression? first, ← maxSegmentPayload? second⟩
  | _ => none

def parse? (text : String) : Option Settings := do
  ofJson? (← Json.parse? text)

def validate (settings : Settings) : Except Failure Unit :=
  match PayloadLimit.ofNat? settings.maxSegmentPayload with
  | some _ => .ok ()
  | none =>
    .error (.protocol (.settingsLimit Segment.maxPayload settings.maxSegmentPayload))

def compressor (settings : Settings) : Compressor := settings.compression.compressor

def dialect (settings : Settings) (role : Role) : Dialect :=
  Dialect.ofRole role settings.compressor

def packer {S : Type} (settings : Settings) (dialect : Dialect) (policy : StatePolicy S) :
    Except Failure (Packer S) := do
  settings.validate
  Packer.ofLimit? dialect policy settings.maxSegmentPayload false

end Settings

end CqlWire
