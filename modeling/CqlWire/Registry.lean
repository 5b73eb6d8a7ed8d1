import CqlWire.Message.Body

/-!
This module contains registries: they hold the codecs for messages, apart for either direction,
under the version and opcode that each serves.
-/

namespace CqlWire

structure CodecEntry where
  version : Version
  codec : BodyCodec
deriving Repr, DecidableEq

def CodecEntry.serves (entry : CodecEntry) (version : Version) (opcode : UInt8) : Bool :=
  entry.version = version && entry.codec.opcode.code = opcode

/-- The codecs of one direction, no two of which serve one opcode in one version. -/
structure CodecTable where
  entries : List CodecEntry
  distinct : entries.Pairwise
    (fun first second => !second.serves first.version first.codec.opcode.code)

namespace CodecTable

def empty : CodecTable := ⟨[], .nil⟩

def size (table : CodecTable) : Nat := table.entries.length

def insert (table : CodecTable) (version : Version) (codec : BodyCodec) : CodecTable where
  entries := ⟨version, codec⟩ :: table.entries.filter (!·.serves version codec.opcode.code)
  distinct := by
    refine List.pairwise_cons.2 ⟨fun entry h => ?_, table.distinct.filter _⟩
    exact (List.mem_filter.1 h).2

def find? (table : CodecTable) (version : Version) (opcode : UInt8) : Option BodyCodec :=
  (table.entries.find? (·.serves version opcode)).map (·.codec)

@[simp]
theorem find?_empty (version : Version) (opcode : UInt8) : empty.find? version opcode = none := rfl

theorem find?_insert (table : CodecTable) (version version' : Version) (codec : BodyCodec)
    (opcode : UInt8) :
    (table.insert version codec).find? version' opcode
      =
    if version = version' ∧ codec.opcode.code = opcode then some codec
    else table.find? version' opcode := by
  simp only [find?, insert, List.find?_cons, List.find?_filter, CodecEntry.serves]
  split
  · next h => simp_all
  · next h =>
    have hne : ¬ (version = version' ∧ codec.opcode.code = opcode) := by simpa using h
    rw [if_neg hne]
    congr 2
    funext entry
    by_cases hversion : entry.version = version'
    · by_cases hopcode : entry.codec.opcode.code = opcode
      · subst hversion hopcode
        have hother : ¬ (entry.version = version ∧ entry.codec.opcode.code = codec.opcode.code) :=
          fun h => hne ⟨h.1.symm, h.2.symm⟩
        simpa using Decidable.not_and_iff_not_or_not.1 hother
      · simp [hopcode]
    · simp [hversion]

end CodecTable

inductive Role
  | client
  | server
deriving Repr, DecidableEq

namespace Role

def requests (version : Version) : List BodyCodec :=
  [.startup, .options, .queryFor version, .authResponse]

def responses : List BodyCodec :=
  [.error, .ready, .authenticate, .supported, .authSuccess]

def sent (version : Version) : Role → List BodyCodec
  | .client => requests version
  | .server => responses

def received (version : Version) : Role → List BodyCodec
  | .client => responses
  | .server => requests version

def peer : Role → Role
  | .client => .server
  | .server => .client

end Role

structure Registry where
  encoders : CodecTable
  decoders : CodecTable

inductive Registration
  | encoder (version : Version) (codec : BodyCodec)
  | decoder (version : Version) (codec : BodyCodec)
  | codec (version : Version) (codec : BodyCodec)
  | role (version : Version) (role : Role)
deriving Repr, DecidableEq

namespace Registry

def empty : Registry := ⟨.empty, .empty⟩

def addEncoder (registry : Registry) (version : Version) (codec : BodyCodec) : Registry :=
  { registry with encoders := registry.encoders.insert version codec }

def addDecoder (registry : Registry) (version : Version) (codec : BodyCodec) : Registry :=
  { registry with decoders := registry.decoders.insert version codec }

def addCodec (registry : Registry) (version : Version) (codec : BodyCodec) : Registry :=
  (registry.addEncoder version codec).addDecoder version codec

def addRole (registry : Registry) (version : Version) (role : Role) : Registry :=
  let registry := (role.sent version).foldl (addEncoder · version ·) registry
  (role.received version).foldl (addDecoder · version ·) registry

def add (registry : Registry) : Registration → Registry
  | .encoder version codec => registry.addEncoder version codec
  | .decoder version codec => registry.addDecoder version codec
  | .codec version codec => registry.addCodec version codec
  | .role version role => registry.addRole version role

def ofRegistrations (registrations : List Registration) : Registry :=
  registrations.foldl add empty

def ofRole (role : Role) : Registry :=
  ofRegistrations (Version.supported.map (.role · role))

def encoder (registry : Registry) (version : Version) (opcode : UInt8) :
    Except Failure BodyCodec :=
  match registry.encoders.find? version opcode with
  | some codec => .ok codec
  | none => .error (.noCodec version opcode .encode)

def decoder (registry : Registry) (version : Version) (opcode : UInt8) :
    Except Failure BodyCodec :=
  match registry.decoders.find? version opcode with
  | some codec => .ok codec
  | none => .error (.noCodec version opcode .decode)

def description (registry : Registry) : String :=
  let encoders := registry.encoders.size
  let decoders := registry.decoders.size
  s!"CodecRegistry \x7b encoders: {encoders}, decoders: {decoders} \x7d"

end Registry

end CqlWire
