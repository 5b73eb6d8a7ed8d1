import CqlWire.Registry

/-!
This module contains what the registries of the two sides of a connection have to do with each
other: the one reads with the codecs with which the other writes.
-/

namespace CqlWire

theorem CodecTable.mem_of_find? {table : CodecTable} {version : Version} {opcode : UInt8}
    {codec : BodyCodec} (h : table.find? version opcode = some codec) :
    ⟨version, codec⟩ ∈ table.entries ∧ codec.opcode.code = opcode := by
  unfold find? at h
  rw [Option.map_eq_some_iff] at h
  obtain ⟨entry, hfind, rfl⟩ := h
  have hserves := List.find?_some hfind
  simp only [CodecEntry.serves, Bool.and_eq_true, decide_eq_true_eq] at hserves
  obtain ⟨rfl, hopcode⟩ := hserves
  exact ⟨List.mem_of_find?_eq_some hfind, hopcode⟩

def Role.responds : Role → Bool
  | .client => false
  | .server => true

/-- What a role sends has all opcodes of requests, or all of responses, and no others. -/
theorem Role.exists_sent_iff {role : Role} {version : Version} {opcode : Opcode} :
    (∃ codec ∈ role.sent version, codec.opcode = opcode) ↔ opcode.isResponse = role.responds := by
  cases role with
  | client =>
    unfold sent requests
    cases opcode <;> simp [BodyCodec.opcode, BodyCodec.queryFor, Opcode.isResponse, responds]
  | server =>
    unfold sent responses
    cases opcode <;> simp [BodyCodec.opcode, Opcode.isResponse, responds]

@[simp]
theorem Role.peer_peer (role : Role) : role.peer.peer = role := by
  cases role <;> rfl

namespace Registry

theorem foldl_addEncoder (registry : Registry) (version : Version) (codecs : List BodyCodec) :
    codecs.foldl (addEncoder · version ·) registry
      =
    { registry with
      encoders := codecs.foldl (CodecTable.insert · version ·) registry.encoders } := by
  induction codecs generalizing registry with
  | nil => rfl
  | cons codec rest ih => apply ih

theorem foldl_addDecoder (registry : Registry) (version : Version) (codecs : List BodyCodec) :
    codecs.foldl (addDecoder · version ·) registry
      =
    { registry with
      decoders := codecs.foldl (CodecTable.insert · version ·) registry.decoders } := by
  induction codecs generalizing registry with
  | nil => rfl
  | cons codec rest ih => apply ih

theorem addRole_eq (registry : Registry) (version : Version) (role : Role) :
    registry.addRole version role
      =
    ⟨(role.sent version).foldl (CodecTable.insert · version ·) registry.encoders,
      (role.received version).foldl (CodecTable.insert · version ·) registry.decoders⟩ := by
  unfold addRole
  rw [foldl_addEncoder]
  rw [foldl_addDecoder]

theorem received_peer (version : Version) (role : Role) :
    role.peer.received version = role.sent version := by
  cases role <;> rfl

theorem decoders_foldl_peer (versions : List Version) (role : Role)
    {registry registry' : Registry} (h : registry'.decoders = registry.encoders) :
    ((versions.map (.role · role.peer)).foldl add registry').decoders
      =
    ((versions.map (.role · role)).foldl add registry).encoders := by
  -- A version adds the same codecs to both tables, in the same order.
  induction versions generalizing registry registry' with
  | nil => exact h
  | cons version rest ih =>
    apply ih
    rw [add, add]
    rw [addRole_eq, addRole_eq]
    dsimp only
    rw [received_peer]
    rw [h]

theorem decoders_ofRole_peer (role : Role) :
    (ofRole role.peer).decoders = (ofRole role).encoders := by
  apply decoders_foldl_peer
  rfl

theorem encoder_eq_ok_iff {registry : Registry} {version : Version} {opcode : UInt8}
    {codec : BodyCodec} :
    registry.encoder version opcode = .ok codec
      ↔
    registry.encoders.find? version opcode = some codec := by
  unfold encoder
  cases registry.encoders.find? version opcode <;> simp

theorem decoder_eq_ok_iff {registry : Registry} {version : Version} {opcode : UInt8}
    {codec : BodyCodec} :
    registry.decoder version opcode = .ok codec
      ↔
    registry.decoders.find? version opcode = some codec := by
  unfold decoder
  cases registry.decoders.find? version opcode <;> simp

section OfRole

variable {role : Role} {version : Version} {opcode : UInt8} {codec : BodyCodec}

theorem decoder_of_encoder (h : (ofRole role).encoder version opcode = .ok codec) :
    (ofRole role.peer).decoder version opcode = .ok codec := by
  rw [decoder_eq_ok_iff]
  rw [decoders_ofRole_peer]
  rw [encoder_eq_ok_iff] at h
  exact h

theorem encoder_of_decoder (h : (ofRole role).decoder version opcode = .ok codec) :
    (ofRole role.peer).encoder version opcode = .ok codec := by
  rw [encoder_eq_ok_iff]
  rw [← decoders_ofRole_peer]
  rw [decoder_eq_ok_iff] at h
  cases role <;> exact h

theorem ofRole_entries (role : Role) :
    ∀ entry ∈ (ofRole role).encoders.entries,
      entry.version ∈ Version.supported ∧ entry.codec ∈ role.sent entry.version := by
  cases role <;> decide +kernel

theorem sent_of_encoder (h : (ofRole role).encoder version opcode = .ok codec) :
    version ∈ Version.supported ∧ codec ∈ role.sent version ∧ codec.opcode.code = opcode := by
  rw [encoder_eq_ok_iff] at h
  obtain ⟨hmem, hopcode⟩ := CodecTable.mem_of_find? h
  obtain ⟨hversion, hsent⟩ := ofRole_entries role _ hmem
  exact ⟨hversion, hsent, hopcode⟩

theorem supported_of_encoder (h : (ofRole role).encoder version opcode = .ok codec) :
    version ∈ Version.supported :=
  (sent_of_encoder h).1

theorem isResponse_of_sent (h : codec ∈ role.sent version) :
    codec.opcode.isResponse = role.responds := by
  cases role with
  | client =>
    simp only [Role.sent, Role.requests, List.mem_cons, List.not_mem_nil, or_false] at h
    rcases h with rfl | rfl | rfl | rfl <;> rfl
  | server =>
    simp only [Role.sent, Role.responses, List.mem_cons, List.not_mem_nil, or_false] at h
    rcases h with rfl | rfl | rfl | rfl | rfl <;> rfl

end OfRole

end Registry

end CqlWire
