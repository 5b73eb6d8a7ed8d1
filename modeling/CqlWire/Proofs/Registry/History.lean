import CqlWire.Proofs.Registry
import Mathlib.Data.List.Nodup

/-!
This module contains what registries find after any row of registrations: for each direction the
codec that was registered last, whatever was registered for the other.
-/

namespace CqlWire

namespace CodecTable

def insertEntry (table : CodecTable) (entry : CodecEntry) : CodecTable :=
  table.insert entry.version entry.codec

theorem find?_insertEntry (table : CodecTable) (entry : CodecEntry) (version : Version)
    (opcode : UInt8) :
    (table.insertEntry entry).find? version opcode
      =
    if entry.serves version opcode then some entry.codec else table.find? version opcode := by
  unfold insertEntry CodecEntry.serves
  rw [find?_insert]
  simp only [Bool.and_eq_true, decide_eq_true_eq]

theorem find?_foldl_insertEntry (table : CodecTable) (entries : List CodecEntry)
    (version : Version) (opcode : UInt8) :
    (entries.foldl insertEntry table).find? version opcode
      =
    ((entries.reverse.find? (·.serves version opcode)).map (·.codec)).or
      (table.find? version opcode) := by
  induction entries generalizing table with
  | nil => rfl
  | cons entry rest ih =>
    rw [List.foldl_cons]
    rw [ih]
    rw [find?_insertEntry]
    rw [List.reverse_cons, List.find?_append]
    rw [Option.map_or, Option.or_assoc]
    rw [List.find?_singleton]
    split <;> rfl

end CodecTable

/-- The one who sends what a role encodes or decodes. -/
def Direction.sender (direction : Direction) (side : Role) : Role :=
  match direction with
  | .encode => side
  | .decode => side.peer

namespace Registration

variable {registration : Registration} {direction : Direction} {version : Version} {opcode : UInt8}
  {codec codec' : BodyCodec}

def entries (direction : Direction) : Registration → List CodecEntry
  | .encoder version bodyCodec =>
    match direction with
    | .encode => [⟨version, bodyCodec⟩]
    | .decode => []
  | .decoder version bodyCodec =>
    match direction with
    | .encode => []
    | .decode => [⟨version, bodyCodec⟩]
  | .codec version bodyCodec => [⟨version, bodyCodec⟩]
  | .role version side =>
    match direction with
    | .encode => (side.sent version).map (⟨version, ·⟩)
    | .decode => (side.received version).map (⟨version, ·⟩)

def Covers (registration : Registration) (direction : Direction) (version : Version)
    (opcode : UInt8) (codec : BodyCodec) : Prop :=
  ⟨version, codec⟩ ∈ registration.entries direction ∧ codec.opcode.code = opcode

theorem entries_role (direction : Direction) (version : Version) (side : Role) :
    (Registration.role version side).entries direction
      =
    ((direction.sender side).sent version).map (⟨version, ·⟩) := by
  cases direction with
  | encode => rfl
  | decode =>
    unfold entries Direction.sender
    rw [← Registry.received_peer, side.peer_peer]

/-- For one version, clients encode requests and decode responses, and servers the reverse. -/
theorem exists_covers_role_iff {version' : Version} {side : Role} :
    (∃ codec, (Registration.role version' side).Covers direction version opcode codec)
      ↔
    version = version' ∧ ∃ covered : Opcode, covered.code = opcode
      ∧ covered.isResponse = (direction.sender side).responds := by
  unfold Covers
  rw [entries_role]
  constructor
  · rintro ⟨codec, hmem, hopcode⟩
    obtain ⟨codec', hsent, heq⟩ := List.mem_map.1 hmem
    cases heq
    exact ⟨rfl, codec.opcode, hopcode, Role.exists_sent_iff.1 ⟨codec, hsent, rfl⟩⟩
  · rintro ⟨rfl, covered, rfl, hcovered⟩
    obtain ⟨codec, hsent, rfl⟩ := Role.exists_sent_iff.2 hcovered
    exact ⟨codec, List.mem_map_of_mem hsent, rfl⟩

def codec? (registration : Registration) (direction : Direction) (version : Version)
    (opcode : UInt8) : Option BodyCodec :=
  ((registration.entries direction).reverse.find? (·.serves version opcode)).map (·.codec)

theorem nodup_sent (version : Version) (side : Role) :
    ((side.sent version).map (·.opcode.code)).Nodup := by
  cases side with
  | client =>
    have : ((Role.client.sent version).map (·.opcode.code)) = [0x01, 0x05, 0x07, 0x0F] := rfl
    rw [this]
    decide
  | server =>
    change (Role.responses.map (·.opcode.code)).Nodup
    decide

theorem nodup_received (version : Version) (side : Role) :
    ((side.received version).map (·.opcode.code)).Nodup := by
  rw [← side.peer_peer]
  rw [Registry.received_peer]
  apply nodup_sent

/-- A registration is for one version, and no two of its codecs share an opcode. -/
theorem exists_entries (registration : Registration) (direction : Direction) :
    ∃ (version : Version) (codecs : List BodyCodec),
      registration.entries direction = codecs.map (⟨version, ·⟩)
      ∧ (codecs.map (·.opcode.code)).Nodup := by
  cases registration with
  | encoder version codec =>
    cases direction with
    | encode => exact ⟨version, [codec], rfl, List.nodup_singleton _⟩
    | decode => exact ⟨version, [], rfl, List.nodup_nil⟩
  | decoder version codec =>
    cases direction with
    | encode => exact ⟨version, [], rfl, List.nodup_nil⟩
    | decode => exact ⟨version, [codec], rfl, List.nodup_singleton _⟩
  | codec version codec => exact ⟨version, [codec], rfl, List.nodup_singleton _⟩
  | role version side =>
    cases direction with
    | encode => exact ⟨version, _, rfl, nodup_sent version side⟩
    | decode => exact ⟨version, _, rfl, nodup_received version side⟩

theorem Covers.unique (h : registration.Covers direction version opcode codec)
    (h' : registration.Covers direction version opcode codec') : codec = codec' := by
  obtain ⟨hmem, rfl⟩ := h
  obtain ⟨hmem', hopcode⟩ := h'
  obtain ⟨_, codecs, hentries, hnodup⟩ := registration.exists_entries direction
  rw [hentries, List.mem_map] at hmem hmem'
  obtain ⟨_, hcodec, heq⟩ := hmem
  obtain ⟨_, hcodec', heq'⟩ := hmem'
  cases heq
  cases heq'
  exact List.inj_on_of_nodup_map hnodup hcodec hcodec' hopcode.symm

theorem codec?_eq_none_iff :
    registration.codec? direction version opcode = none
      ↔
    ∀ codec, ¬ registration.Covers direction version opcode codec := by
  unfold codec? Covers CodecEntry.serves
  rw [Option.map_eq_none_iff]
  rw [List.find?_eq_none]
  simp only [List.mem_reverse, Bool.and_eq_true, decide_eq_true_eq, not_and]
  constructor
  · intro h codec hmem
    exact h _ hmem rfl
  · rintro h ⟨_, codec⟩ hmem rfl
    exact h codec hmem

theorem covers_of_codec? (h : registration.codec? direction version opcode = some codec) :
    registration.Covers direction version opcode codec := by
  unfold codec? at h
  rw [Option.map_eq_some_iff] at h
  obtain ⟨⟨version', _⟩, hfind, rfl⟩ := h
  have hserves := List.find?_some hfind
  unfold CodecEntry.serves at hserves
  rw [Bool.and_eq_true, decide_eq_true_eq, decide_eq_true_eq] at hserves
  obtain ⟨rfl, hopcode⟩ := hserves
  exact ⟨List.mem_reverse.1 (List.mem_of_find?_eq_some hfind), hopcode⟩

theorem codec?_eq_some_iff :
    registration.codec? direction version opcode = some codec
      ↔
    registration.Covers direction version opcode codec := by
  constructor
  · apply covers_of_codec?
  · intro h
    cases hcodec : registration.codec? direction version opcode with
    | none => exact absurd h (codec?_eq_none_iff.1 hcodec codec)
    | some codec' => rw [(covers_of_codec? hcodec).unique h]

end Registration

namespace Registry

variable {version : Version} {opcode : UInt8} {direction : Direction}

def table (direction : Direction) (registry : Registry) : CodecTable :=
  match direction with
  | .encode => registry.encoders
  | .decode => registry.decoders

def lookup (registry : Registry) : Direction → Version → UInt8 → Except Failure BodyCodec
  | .encode => registry.encoder
  | .decode => registry.decoder

theorem lookup_eq (registry : Registry) (direction : Direction) (version : Version)
    (opcode : UInt8) :
    registry.lookup direction version opcode
      =
    match (registry.table direction).find? version opcode with
    | some codec => .ok codec
    | none => .error (.noCodec version opcode direction) := by
  cases direction <;> rfl

theorem lookup_eq_ok_iff {registry : Registry} {codec : BodyCodec} :
    registry.lookup direction version opcode = .ok codec
      ↔
    (registry.table direction).find? version opcode = some codec := by
  rw [lookup_eq]
  cases (registry.table direction).find? version opcode <;> simp

theorem lookup_eq_error_iff {registry : Registry} {error : Failure} :
    registry.lookup direction version opcode = .error error
      ↔
    (registry.table direction).find? version opcode = none
      ∧ error = .noCodec version opcode direction := by
  rw [lookup_eq]
  cases (registry.table direction).find? version opcode with
  | none =>
    rw [Except.error.injEq]
    rw [and_iff_right rfl]
    apply eq_comm
  | some codec => simp

theorem table_add (registry : Registry) (registration : Registration) (direction : Direction) :
    (registry.add registration).table direction
      =
    (registration.entries direction).foldl CodecTable.insertEntry (registry.table direction) := by
  cases registration with
  | encoder => cases direction <;> rfl
  | decoder => cases direction <;> rfl
  | codec => cases direction <;> rfl
  | role version side =>
    rw [add, addRole_eq]
    cases direction with
    | encode =>
      dsimp only [table, Registration.entries]
      rw [List.foldl_map]
      rfl
    | decode =>
      dsimp only [table, Registration.entries]
      rw [List.foldl_map]
      rfl

theorem table_foldl_add (registry : Registry) (registrations : List Registration)
    (direction : Direction) :
    (registrations.foldl add registry).table direction
      =
    (registrations.flatMap (·.entries direction)).foldl CodecTable.insertEntry
      (registry.table direction) := by
  induction registrations generalizing registry with
  | nil => rfl
  | cons registration rest ih =>
    rw [List.foldl_cons]
    rw [ih]
    rw [table_add]
    rw [List.flatMap_cons, List.foldl_append]

theorem find?_ofRegistrations (registrations : List Registration) (direction : Direction)
    (version : Version) (opcode : UInt8) :
    ((ofRegistrations registrations).table direction).find? version opcode
      =
    registrations.reverse.findSome? (·.codec? direction version opcode) := by
  have hempty : (empty.table direction).find? version opcode = none := by
    cases direction <;> apply CodecTable.find?_empty
  unfold ofRegistrations
  rw [table_foldl_add]
  rw [CodecTable.find?_foldl_insertEntry]
  rw [hempty, Option.or_none]
  rw [List.reverse_flatMap]
  rw [List.find?_flatMap]
  rw [List.map_findSome?]
  rfl

section OfRegistrations

variable {registrations registrations' : List Registration} {codec : BodyCodec} {error : Failure}

/-- A lookup finds the codec of the last registration that covers it. -/
theorem lookup_ofRegistrations_eq_ok_iff :
    (ofRegistrations registrations).lookup direction version opcode = .ok codec
      ↔
    ∃ front registration back, registrations = front ++ registration :: back
      ∧ registration.Covers direction version opcode codec
      ∧ ∀ later ∈ back, ∀ codec', ¬ later.Covers direction version opcode codec' := by
  rw [lookup_eq_ok_iff]
  rw [find?_ofRegistrations]
  rw [List.findSome?_eq_some_iff]
  simp only [Registration.codec?_eq_some_iff, Registration.codec?_eq_none_iff]
  constructor
  · rintro ⟨back, registration, front, heq, hcovers, hlater⟩
    refine ⟨front.reverse, registration, back.reverse, ?_, hcovers, ?_⟩
    · rw [List.reverse_eq_append_iff, List.reverse_cons, List.append_assoc] at heq
      exact heq
    · intro later hmem
      apply hlater later (List.mem_reverse.1 hmem)
  · rintro ⟨front, registration, back, rfl, hcovers, hlater⟩
    refine ⟨back.reverse, registration, front.reverse, ?_, hcovers, ?_⟩
    · rw [List.reverse_append, List.reverse_cons, List.append_assoc]
      rfl
    · intro later hmem
      apply hlater later (List.mem_reverse.1 hmem)

theorem lookup_ofRegistrations_eq_error_iff :
    (ofRegistrations registrations).lookup direction version opcode = .error error
      ↔
    (∀ registration ∈ registrations, ∀ codec,
        ¬ registration.Covers direction version opcode codec)
      ∧ error = .noCodec version opcode direction := by
  rw [lookup_eq_error_iff]
  rw [find?_ofRegistrations]
  rw [List.findSome?_eq_none_iff]
  simp only [Registration.codec?_eq_none_iff, List.mem_reverse]

theorem exists_lookup_ofRegistrations_iff :
    (∃ codec, (ofRegistrations registrations).lookup direction version opcode = .ok codec)
      ↔
    ∃ registration ∈ registrations, ∃ codec,
      registration.Covers direction version opcode codec := by
  simp only [lookup_eq_ok_iff]
  rw [← Option.isSome_iff_exists]
  rw [find?_ofRegistrations]
  rw [List.findSome?_isSome_iff]
  simp only [List.mem_reverse, Option.isSome_iff_exists, Registration.codec?_eq_some_iff]

/-- What is registered for one direction has no part in what is found for the other. -/
theorem lookup_ofRegistrations_congr
    (h : registrations'.flatMap (·.entries direction) = registrations.flatMap (·.entries direction)) :
    (ofRegistrations registrations').lookup direction
      =
    (ofRegistrations registrations).lookup direction := by
  have htable : (ofRegistrations registrations').table direction
      = (ofRegistrations registrations).table direction := by
    unfold ofRegistrations
    rw [table_foldl_add, table_foldl_add]
    rw [h]
  funext version opcode
  rw [lookup_eq, lookup_eq]
  rw [htable]

end OfRegistrations

/-- By default a role has its codecs in all versions that are supported, and in no others. -/
theorem exists_lookup_ofRole_iff {side : Role} :
    (∃ codec, (ofRole side).lookup direction version opcode = .ok codec)
      ↔
    version ∈ Version.supported ∧ ∃ covered : Opcode, covered.code = opcode
      ∧ covered.isResponse = (direction.sender side).responds := by
  unfold ofRole
  rw [exists_lookup_ofRegistrations_iff]
  simp only [List.mem_map, exists_exists_and_eq_and, Registration.exists_covers_role_iff]
  constructor
  · rintro ⟨_, hmem, rfl, hcovered⟩
    exact ⟨hmem, hcovered⟩
  · rintro ⟨hmem, hcovered⟩
    exact ⟨version, hmem, rfl, hcovered⟩

end Registry

end CqlWire
