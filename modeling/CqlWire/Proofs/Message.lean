import CqlWire.Message.Body
import CqlWire.Proofs.Format.Condenses
import CqlWire.Proofs.Format.Refused

/-!
This module contains why messages are read as they were written, each by the codec of its opcode,
for which reasons they are not written, and why those that were read can be written again.
-/

namespace CqlWire

namespace Query

theorem flagsFormat_roundTrips (wide : Bool) (query : Query) :
    (flagsFormat wide).RoundTrips query.flags := by
  cases wide with
  | true => apply Format.u32_roundTrips
  | false =>
    apply Format.imap_roundTrips
    · apply Format.u8_roundTrips
    · -- Both values that the flags can have fit one byte.
      unfold flags
      split <;> rfl

theorem pagingFlag_iff (query : Query) :
    query.flags &&& pagingFlag = 0 ↔ query.pageSize = none := by
  unfold flags
  cases query.pageSize <;> simp [pagingFlag]

theorem exists_of_write {wide : Bool} {query : Query} {bytes : Bytes}
    (h : (format wide).write query = Written.ofBytes bytes) :
    ∃ text consistency flags paging,
      bytes = text ++ (consistency ++ (flags ++ paging))
        ∧ Format.longString.write query.text = Written.ofBytes text
        ∧ Format.u16.write query.consistency = Written.ofBytes consistency
        ∧ (flagsFormat wide).write query.flags = Written.ofBytes flags
        ∧ (match query.pageSize with
            | none => Written.ofBytes []
            | some pageSize => Format.i32.write pageSize) = Written.ofBytes paging := by
  obtain ⟨front, paging, hfront, hpaging, rfl⟩ := Written.append_eq_ofBytes_iff.1 h
  obtain ⟨front', flags, hfront', hflags, rfl⟩ := Written.append_eq_ofBytes_iff.1 hfront
  obtain ⟨text, consistency, htext, hconsistency, rfl⟩ := Written.append_eq_ofBytes_iff.1 hfront'
  refine ⟨text, consistency, flags, paging, ?_, htext, hconsistency, hflags, hpaging⟩
  rw [List.append_assoc, List.append_assoc]

theorem format_roundTrips (wide : Bool) (query : Query) : (format wide).RoundTrips query where
  reads h := by
    obtain ⟨text, consistency, flags, paging, rfl, htext, hconsistency, hflags, hpaging⟩ :=
      exists_of_write h
    apply ((Format.longString_roundTrips _).reads htext).bind
    apply ((Format.u16_roundTrips _).reads hconsistency).bind
    apply ((flagsFormat_roundTrips wide query).reads hflags).bind
    obtain ⟨queryText, level, pageSize⟩ := query
    cases pageSize with
    | none =>
      rw [Written.ofBytes_inj] at hpaging
      subst hpaging
      rw [if_pos ((pagingFlag_iff _).2 rfl)]
      apply Reader.Reads.pure
    | some pageSize =>
      rw [if_neg (by rw [pagingFlag_iff]; simp)]
      apply ((Format.i32_roundTrips pageSize).reads hpaging).map
  length_eq h := by
    obtain ⟨text, consistency, flags, paging, rfl, htext, hconsistency, hflags, hpaging⟩ :=
      exists_of_write h
    rw [List.length_append, List.length_append, List.length_append]
    rw [(Format.longString_roundTrips _).length_eq htext]
    rw [(Format.u16_roundTrips _).length_eq hconsistency]
    rw [(flagsFormat_roundTrips wide query).length_eq hflags]
    rw [← Nat.add_assoc, ← Nat.add_assoc]
    rw [format]
    congr 1
    obtain ⟨queryText, level, pageSize⟩ := query
    cases pageSize with
    | none =>
      rw [Written.ofBytes_inj] at hpaging
      subst hpaging
      rfl
    | some pageSize => apply (Format.i32_roundTrips pageSize).length_eq hpaging

theorem whole_flags (wide : Bool) (query : Query) :
    ((flagsFormat wide).write query.flags).Whole := by
  cases wide <;> rfl

theorem format_refusesOverlong (wide : Bool) : (format wide).RefusesOverlong := by
  intro query
  unfold format
  dsimp only
  apply Written.RefusedFor.append
  · apply Written.RefusedFor.append
    · apply Written.RefusedFor.append
      · apply Format.longString_refusesOverlong
      · exact .of_whole rfl
    · exact .of_whole (whole_flags wide query)
  · cases query.pageSize with
    | none => exact .of_whole rfl
    | some pageSize => exact .of_whole rfl

theorem format_whole_iff {wide : Bool} {query : Query} :
    ((format wide).write query).Whole ↔ (Format.longString.write query.text).Whole := by
  unfold format
  dsimp only
  rw [Written.whole_append_iff, Written.whole_append_iff, Written.whole_append_iff]
  constructor
  · exact fun h => h.1.1.1
  · intro htext
    refine ⟨⟨⟨htext, rfl⟩, whole_flags wide query⟩, ?_⟩
    cases query.pageSize <;> rfl

theorem flagsFormat_condenses (wide : Bool) : (flagsFormat wide).Condenses := by
  cases wide with
  | true => apply Format.fixed_condenses
  | false =>
    apply Format.imap_condenses (Format.fixed_condenses _ _ _)
    intro flags _
    exact ⟨rfl, Nat.le_refl _⟩

theorem size_flagsFormat (wide : Bool) (flags flags' : UInt32) :
    (flagsFormat wide).size flags = (flagsFormat wide).size flags' := by
  cases wide <;> rfl

theorem format_condenses (wide : Bool) : (format wide).Condenses := by
  intro src rest query h
  obtain ⟨text, afterText, htext, h⟩ := Reader.exists_of_bind h
  obtain ⟨level, afterLevel, hlevel, h⟩ := Reader.exists_of_bind h
  obtain ⟨flags, afterFlags, hflags, h⟩ := Reader.exists_of_bind h
  obtain ⟨hwhole, htext⟩ := Format.longString_condenses htext
  obtain ⟨_, hlevel⟩ := Format.fixed_condenses _ _ _ hlevel
  obtain ⟨_, hflags⟩ := flagsFormat_condenses wide hflags
  rw [format_whole_iff]
  -- Bits of the flags that nothing follows are lost, but the flags stay as wide as they are.
  rw [size_flagsFormat wide flags query.flags] at hflags
  split at h
  · cases h
    refine ⟨hwhole, ?_⟩
    unfold format
    dsimp only
    change Format.u16.size level + _ ≤ _ at hlevel
    omega
  · obtain ⟨pageSize, hpaging, h⟩ := Reader.exists_of_map h
    subst h
    obtain ⟨_, hpaging⟩ := Format.fixed_condenses _ _ _ hpaging
    refine ⟨hwhole, ?_⟩
    unfold format
    dsimp only
    change Format.u16.size level + _ ≤ _ at hlevel
    change Format.i32.size pageSize + _ ≤ _ at hpaging
    omega

end Query

namespace BodyCodec

/-- The messages that a codec is for: those of its opcode. -/
inductive Handles : BodyCodec → Message → Prop
  | error (code : Int32) (text : String) : Handles .error (.error code text)
  | startup (options : StringMap String) : Handles .startup (.startup options)
  | ready : Handles .ready .ready
  | authenticate (authenticator : String) : Handles .authenticate (.authenticate authenticator)
  | options : Handles .options .options
  | supported (options : StringMap (List String)) : Handles .supported (.supported options)
  | query (wideFlags : Bool) (query : Query) : Handles (.query wideFlags) (.query query)
  | authResponse (token : Option Bytes) : Handles .authResponse (.authResponse token)
  | authSuccess (token : Option Bytes) : Handles .authSuccess (.authSuccess token)

theorem handles_of_opcode_eq {codec : BodyCodec} {message : Message}
    (h : codec.opcode = message.opcode) : codec.Handles message := by
  cases codec <;> cases message <;> cases h <;> constructor

theorem Handles.write_refusedFor {codec : BodyCodec} {message : Message}
    (h : codec.Handles message) : (codec.write message).RefusedFor Format.Overlong := by
  cases h with
  | error code text =>
    exact Format.pair_refusesOverlong (Format.fixed_refusesOverlong _ _ _)
      Format.string_refusesOverlong (code, text)
  | startup options => exact Format.map_refusesOverlong Format.string_refusesOverlong _ options
  | ready => exact .of_whole rfl
  | authenticate authenticator => exact Format.string_refusesOverlong authenticator
  | options => exact .of_whole rfl
  | supported options =>
    exact Format.map_refusesOverlong Format.stringList_refusesOverlong _ options
  | query wideFlags query => exact Query.format_refusesOverlong wideFlags query
  | authResponse token => exact Format.bytes_refusesOverlong token
  | authSuccess token => exact Format.bytes_refusesOverlong token

theorem Handles.exists_size {codec : BodyCodec} {message : Message} (h : codec.Handles message) :
    ∃ size, codec.size message = .ok size := by
  cases h <;> exact ⟨_, rfl⟩

theorem errorBody_roundTrips (code : Int32) (text : String) :
    errorBody.RoundTrips (code, text) :=
  Format.pair_roundTrips (Format.i32_roundTrips code) (Format.string_roundTrips text)

theorem reads_of_format {α : Type} {format : Format α} {a : α} {bytes : Bytes}
    (hformat : format.RoundTrips a) (h : format.write a = Written.ofBytes bytes)
    (toMessage : α → Message) :
    (toMessage <$> format.read).Reads bytes (toMessage a)
      ∧ (.ok (format.size a) : Except Failure Nat) = .ok bytes.length := by
  constructor
  · apply (hformat.reads h).map
  · rw [hformat.length_eq h]

theorem reads_of_write {codec : BodyCodec} {message : Message} {bytes : Bytes}
    (h : codec.write message = Written.ofBytes bytes) :
    codec.read.Reads bytes message ∧ codec.size message = .ok bytes.length := by
  unfold write at h
  split at h
  · next code text => exact reads_of_format (errorBody_roundTrips code text) h _
  · next chosen => exact reads_of_format (Format.stringMap_roundTrips chosen) h _
  · rw [Written.ofBytes_inj] at h
    subst h
    exact ⟨.pure _, rfl⟩
  · next authenticator => exact reads_of_format (Format.string_roundTrips authenticator) h _
  · rw [Written.ofBytes_inj] at h
    subst h
    exact ⟨.pure _, rfl⟩
  · next offered => exact reads_of_format (Format.stringMultimap_roundTrips offered) h _
  · next wide asked => exact reads_of_format (Query.format_roundTrips wide asked) h _
  · next token => exact reads_of_format (Format.bytes_roundTrips token) h _
  · next token => exact reads_of_format (Format.bytes_roundTrips token) h _
  · exact absurd h (Written.refuse_ne_ofBytes _ _)

theorem write_eq_refuse {codec : BodyCodec} {message : Message}
    (h : message.opcode ≠ codec.opcode) :
    codec.write message = Written.refuse (codec.foreign message) := by
  unfold write
  split <;> first | rfl | exact absurd rfl h

theorem size_eq_error {codec : BodyCodec} {message : Message}
    (h : message.opcode ≠ codec.opcode) : codec.size message = .error (codec.foreign message) := by
  unfold size
  split <;> first | rfl | exact absurd rfl h

/--
A message of the opcode of a codec is refused only where a length does not fit its field. What is
appended for it otherwise is as long as is told and reads as the message, whatever follows it. Any
other message is refused as foreign, and nothing is appended for it.
-/
theorem write_onto (codec : BodyCodec) (message : Message) (dst : Bytes) :
    (message.opcode.code = codec.opcode.code →
        (∀ error, (Written.ofBytes dst ++ codec.write message).fault = some error →
          Format.Overlong error)
          ∧ ∀ bytes, Written.ofBytes dst ++ codec.write message = Written.ofBytes bytes →
            ∃ appended, bytes = dst ++ appended
              ∧ codec.size message = .ok appended.length
              ∧ ∀ rest, codec.read (appended ++ rest) = (.ok message, rest))
      ∧ (message.opcode.code ≠ codec.opcode.code →
          let error := .protocol (.foreignMessage codec.opcode.code message.opcode.code)
          Written.ofBytes dst ++ codec.write message = ⟨dst, some error⟩
            ∧ codec.size message = .error error) := by
  constructor
  · intro hopcode
    have hhandles : codec.Handles message :=
      handles_of_opcode_eq (Opcode.code_injective hopcode.symm)
    constructor
    · exact Written.RefusedFor.append (.of_whole rfl) hhandles.write_refusedFor
    · intro bytes h
      obtain ⟨front, appended, hdst, happended, rfl⟩ := Written.append_eq_ofBytes_iff.1 h
      obtain rfl := Written.ofBytes_inj.1 hdst
      obtain ⟨hreads, hsize⟩ := reads_of_write happended
      exact ⟨appended, rfl, hsize, hreads⟩
  · intro hopcode error
    have hforeign : message.opcode ≠ codec.opcode := by
      intro heq
      exact hopcode (congrArg Opcode.code heq)
    constructor
    · rw [write_eq_refuse hforeign]
      rw [Written.append_of_none rfl]
      exact congrArg (Written.mk · (some error)) (List.append_nil dst)
    · exact size_eq_error hforeign

theorem write_onto_pagedQuery :
    let codec := queryFor .v5
    let message : Message := .query { text := "q", pageSize := some 7 }
    let appended : Bytes := [0, 0, 0, 1, 113, 0, 1, 0, 0, 0, 4, 0, 0, 0, 7]
    Written.ofBytes [1, 2] ++ codec.write message = Written.ofBytes ([1, 2] ++ appended)
      ∧ codec.size message = .ok appended.length
      ∧ codec.read (appended ++ [9]) = (.ok message, [9])
      ∧ Written.ofBytes [1, 2] ++ codec.write (.authResponse none)
        = ⟨[1, 2], some (.protocol (.foreignMessage 0x07 0x0F))⟩ := by
  intro codec message appended
  have hwrite : Written.ofBytes [1, 2] ++ codec.write message
      = Written.ofBytes ([1, 2] ++ appended) := by decide
  obtain ⟨_, hwhole⟩ := (write_onto codec message [1, 2]).1 rfl
  obtain ⟨_, happended, hsize, hread⟩ := hwhole _ hwrite
  obtain rfl := List.append_cancel_left happended
  refine ⟨hwrite, hsize, hread [9], ?_⟩
  exact ((write_onto codec (.authResponse none) [1, 2]).2 (by decide)).1

theorem opcode_of_read {codec : BodyCodec} {message : Message} {src rest : Bytes}
    (h : codec.read src = (.ok message, rest)) : message.opcode = codec.opcode := by
  cases codec with
  | ready | options =>
    cases h
    rfl
  | error | startup | authenticate | supported | query | authResponse | authSuccess =>
    obtain ⟨_, _, rfl⟩ := Reader.exists_of_map h
    rfl

theorem exists_of_format {α : Type} {format : Format α} (hformat : format.Condenses)
    {toMessage : α → Message} {src rest : Bytes} {message : Message}
    (h : (toMessage <$> format.read) src = (.ok message, rest)) :
    ∃ a, toMessage a = message ∧ (format.write a).Whole
      ∧ format.size a + rest.length ≤ src.length := by
  obtain ⟨a, hread, hmessage⟩ := Reader.exists_of_map h
  exact ⟨a, hmessage, hformat hread⟩

theorem condenses {codec : BodyCodec} {message : Message} {src rest : Bytes}
    (h : codec.read src = (.ok message, rest)) :
    (codec.write message).Whole
      ∧ ∃ size, codec.size message = .ok size ∧ size + rest.length ≤ src.length := by
  cases codec with
  | error =>
    have herrorBody : errorBody.Condenses :=
      Format.pair_condenses (Format.fixed_condenses _ _ _) Format.string_condenses
    obtain ⟨_, rfl, hwhole, hle⟩ := exists_of_format herrorBody h
    exact ⟨hwhole, _, rfl, hle⟩
  | startup =>
    obtain ⟨_, rfl, hwhole, hle⟩ :=
      exists_of_format (Format.map_condenses Format.string_condenses _) h
    exact ⟨hwhole, _, rfl, hle⟩
  | ready =>
    cases h
    exact ⟨rfl, 0, rfl, Nat.le_of_eq (Nat.zero_add _)⟩
  | authenticate =>
    obtain ⟨_, rfl, hwhole, hle⟩ := exists_of_format Format.string_condenses h
    exact ⟨hwhole, _, rfl, hle⟩
  | options =>
    cases h
    exact ⟨rfl, 0, rfl, Nat.le_of_eq (Nat.zero_add _)⟩
  | supported =>
    obtain ⟨_, rfl, hwhole, hle⟩ :=
      exists_of_format (Format.map_condenses Format.stringList_condenses _) h
    exact ⟨hwhole, _, rfl, hle⟩
  | query wideFlags =>
    obtain ⟨_, rfl, hwhole, hle⟩ := exists_of_format (Query.format_condenses wideFlags) h
    exact ⟨hwhole, _, rfl, hle⟩
  | authResponse =>
    obtain ⟨_, rfl, hwhole, hle⟩ := exists_of_format Format.bytes_condenses h
    exact ⟨hwhole, _, rfl, hle⟩
  | authSuccess =>
    obtain ⟨_, rfl, hwhole, hle⟩ := exists_of_format Format.bytes_condenses h
    exact ⟨hwhole, _, rfl, hle⟩

end BodyCodec

end CqlWire
