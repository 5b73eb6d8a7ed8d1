import CqlWire.Proofs.Dialect.Paths
import CqlWire.Proofs.Format.Limits

/-!
This module contains which frames are written, and what is left behind by those that are not.
-/

namespace CqlWire

theorem Version.hasSegments_iff {version : Version} :
    version.hasSegments = true ↔ version = v5 ∨ version = v6 := by
  unfold hasSegments
  rw [Bool.or_eq_true, decide_eq_true_iff, decide_eq_true_iff]

/-- The limits of a message. Long texts and tokens have none of their own. -/
def Message.WithinLimits : Message → Prop
  | .error _ text => ShortText text
  | .startup chosen => ShortEntries ShortText chosen.entries
  | .authenticate authenticator => ShortText authenticator
  | .supported offered => ShortEntries (ShortList ShortText) offered.entries
  | .ready | .options | .query _ | .authResponse _ | .authSuccess _ => True

theorem BodyCodec.Handles.whole_iff {codec : BodyCodec} {message : Message} {size : Nat}
    (h : codec.Handles message) (hsize : codec.size message = .ok size)
    (hle : size ≤ Format.maxInt) : (codec.write message).Whole ↔ message.WithinLimits := by
  cases h <;> cases hsize
  case error code text =>
    have hbody : errorBody.LimitedTo _ :=
      Format.pair_limitedTo (Format.fixed_limitedTo _ _ _) Format.string_limitedTo
    exact (hbody (code, text) hle).trans (and_iff_right trivial)
  case startup options => exact Format.map_limitedTo Format.string_limitedTo _ options hle
  case ready => exact iff_of_true rfl trivial
  case authenticate authenticator => exact Format.string_limitedTo authenticator hle
  case options => exact iff_of_true rfl trivial
  case supported options => exact Format.map_limitedTo Format.stringList_limitedTo _ options hle
  case query wideFlags query =>
    change _ + _ + _ + _ ≤ _ at hle
    refine Query.format_whole_iff.trans (Format.longString_limitedTo query.text ?_)
    omega
  case authResponse token => exact Format.bytes_limitedTo token hle
  case authSuccess token => exact Format.bytes_limitedTo token hle

namespace Frame

structure WithinLimits (frame : Frame) : Prop where
  customPayload : ShortEntries (fun _ => True) frame.customPayload.entries
  warnings : ShortList ShortText frame.warnings
  message : frame.message.WithinLimits

theorem validate_eq_ok_iff {frame : Frame} :
    frame.validate = .ok ()
      ↔
    Version.v4 ≤ frame.version ∨ frame.customPayload = .empty ∧ frame.warnings = [] := by
  unfold validate Version.hasCustomPayload
  by_cases hversion : Version.v4 ≤ frame.version
  · simp [hversion]
  · simp only [hversion, decide_false, Bool.false_eq_true, if_false, false_or]
    constructor
    · intro h
      split at h
      · cases h
      · next hpayload =>
        split at h
        · cases h
        · next hwarnings =>
          rw [Bool.not_eq_true', Bool.not_eq_false] at hpayload hwarnings
          exact ⟨StringMap.eq_empty_of_isEmpty hpayload, List.isEmpty_iff.1 hwarnings⟩
    · rintro ⟨hpayload, hwarnings⟩
      rw [hpayload, hwarnings]
      rfl

theorem validate_of_hasSegments {frame : Frame} (h : frame.version.hasSegments = true) :
    frame.validate = .ok () := by
  rw [validate_eq_ok_iff]
  left
  rcases Version.hasSegments_iff.1 h with hversion | hversion
  · rw [hversion]
    decide
  · rw [hversion]
    decide

end Frame

namespace Dialect

variable {dialect : Dialect} {frame : Frame} {codec : BodyCodec} {bodySize : Nat}

theorem exists_encoder_iff :
    (∃ codec, dialect.encoder frame = .ok codec)
      ↔
    ∃ bodySize, dialect.bodySize frame = .ok bodySize := by
  constructor
  · rintro ⟨codec, hcodec⟩
    rw [bodySize_eq_bodySizeWith hcodec]
    exact exists_bodySizeWith (handles_of_encoder hcodec)
  · rintro ⟨bodySize, hsize⟩
    obtain ⟨codec, hcodec, _⟩ := exists_of_bind_eq_ok hsize
    exact ⟨codec, hcodec⟩

theorem section_whole_iff {absent : Bool} {written : Written} {size : Nat} {limits : Prop}
    (habsent : absent = true → limits) (hpresent : size ≤ Format.maxInt → (written.Whole ↔ limits))
    (hle : (if absent then 0 else size) ≤ Format.maxInt) :
    (if absent then Written.ofBytes [] else written).Whole ↔ limits := by
  cases absent with
  | true => exact iff_of_true rfl (habsent rfl)
  | false => exact hpresent hle

theorem payload_whole_iff (dialect : Dialect) (payload : StringMap Bytes)
    (hle : Format.bytesMap.size payload ≤ Format.maxInt) :
    ((Format.entries .bytesMap Format.presentBytes).write
        (dialect.payloadOrder.arrange payload.entries)).Whole
      ↔
    ShortEntries (fun _ => True) payload.entries := by
  have hperm := dialect.payloadOrder.perm payload.entries
  have hpairs := Format.entries_limitedTo Format.presentBytes_limitedTo .bytesMap
  rw [hpairs]
  · exact shortList_perm hperm
  · change Format.shortWidth + _ ≤ _
    rw [Format.totalSize_perm hperm]
    exact hle

theorem writeBody_whole_iff_withinLimits (dialect : Dialect) (h : codec.Handles frame.message)
    (hsize : bodySizeWith codec frame = .ok bodySize) (hle : bodySize ≤ Format.maxInt) :
    (dialect.writeBody codec frame).Whole ↔ frame.WithinLimits := by
  obtain ⟨size, hmessage, hsum⟩ := exists_of_bind_eq_ok hsize
  have hsum := Except.ok.inj hsum
  rw [writeBody_whole_iff]
  rw [h.whole_iff hmessage (by omega)]
  rw [section_whole_iff _ (payload_whole_iff dialect frame.customPayload) (by omega)]
  rw [section_whole_iff _ (Format.stringList_limitedTo frame.warnings) (by omega)]
  · constructor
    · rintro ⟨hpayload, hwarnings, hmessage⟩
      exact ⟨hpayload, hwarnings, hmessage⟩
    · rintro ⟨hpayload, hwarnings, hmessage⟩
      exact ⟨hpayload, hwarnings, hmessage⟩
  · intro hempty
    rw [List.isEmpty_iff.1 hempty]
    exact .nil _
  · intro hempty
    rw [StringMap.eq_empty_of_isEmpty hempty]
    exact .nil _

theorem writeHeader_whole_of_le (frame : Frame) (flags : UInt8) (hle : bodySize ≤ Format.maxInt) :
    (writeHeader frame flags bodySize).Whole := by
  unfold writeHeader
  rw [if_pos hle]
  rfl

theorem write_whole_iff (dialect : Dialect) (frame : Frame) :
    (dialect.write frame none).Whole
      ↔
    frame.validate = .ok ()
      ∧ (∃ codec, dialect.encoder frame = .ok codec)
      ∧ (∀ bodySize, dialect.bodySize frame = .ok bodySize → bodySize ≤ Format.maxInt)
      ∧ frame.WithinLimits := by
  constructor
  · intro h
    obtain ⟨bytes, hbytes⟩ := Written.whole_iff.1 h
    obtain ⟨hvalidate, codec, body, hencoder, hbody, _, hle, _⟩ := write_eq_ofBytes_iff.1 hbytes
    have hsize := bodySizeWith_of_writeBody hbody
    refine ⟨hvalidate, ⟨codec, hencoder⟩, ?_, ?_⟩
    · intro bodySize h
      rw [bodySize_eq_bodySizeWith hencoder, hsize] at h
      cases h
      exact hle
    · rw [← writeBody_whole_iff_withinLimits dialect (handles_of_encoder hencoder) hsize hle]
      exact Written.whole_iff.2 ⟨body, hbody⟩
  · rintro ⟨hvalidate, ⟨codec, hencoder⟩, hle, hlimits⟩
    have hhandles := handles_of_encoder hencoder
    obtain ⟨bodySize, hsize⟩ := exists_bodySizeWith hhandles
    have hle := hle bodySize ((bodySize_eq_bodySizeWith hencoder).trans hsize)
    rw [write_none hvalidate hencoder hsize]
    rw [Written.whole_append_iff]
    constructor
    · exact writeHeader_whole_of_le frame _ hle
    · exact (writeBody_whole_iff_withinLimits dialect hhandles hsize hle).2 hlimits

/--
A frame whose body is not too long is written, behind any bytes, exactly if it is valid, has an
encoder and keeps to all limits. Those bytes stay in front of what is written, and nothing is
written of a frame that is not valid or has no encoder.
-/
theorem write_behind_iff (dialect : Dialect) (frame : Frame) (dst : Bytes)
    (hle : ∀ bodySize, dialect.bodySize frame = .ok bodySize → bodySize ≤ Format.maxInt) :
    ((Written.ofBytes dst ++ dialect.write frame none).fault = none
        ↔
      (Version.v4 ≤ frame.version ∨ frame.customPayload = .empty ∧ frame.warnings = [])
        ∧ (∃ codec, dialect.registry.encoder frame.version frame.opcode = .ok codec)
        ∧ frame.WithinLimits)
      ∧ dst <+: (Written.ofBytes dst ++ dialect.write frame none).bytes
      ∧ ∀ error, frame.validate = .error error
            ∨ frame.validate = .ok ()
              ∧ dialect.registry.encoder frame.version frame.opcode = .error error →
          Written.ofBytes dst ++ dialect.write frame none = ⟨dst, some error⟩ := by
  refine ⟨?_, ?_, ?_⟩
  · change (Written.ofBytes dst ++ dialect.write frame none).Whole ↔ _
    rw [Written.whole_append_iff]
    rw [and_iff_right (Written.whole_ofBytes dst)]
    rw [write_whole_iff]
    rw [Frame.validate_eq_ok_iff]
    rw [and_iff_right hle]
    rfl
  · rw [Written.append_of_none rfl]
    exact List.prefix_append _ _
  · intro error h
    rw [write_eq_refuse h]
    rw [Written.append_of_none rfl]
    congr 1
    exact List.append_nil dst

theorem write_behind_iff_tracedRequest :
    let client := ofRole .client .none
    let tooEarly : Frame := { tracedRequest with version := .v3 }
    (Written.ofBytes [1, 2] ++ client.write tracedRequest none).fault = none
      ∧ Written.ofBytes [1, 2] ++ client.write tooEarly none
        = ⟨[1, 2], some (.protocol (.customPayload 3))⟩ := by
  intro client tooEarly
  have hle : ∀ bodySize, client.bodySize tracedRequest = .ok bodySize →
      bodySize ≤ Format.maxInt := by
    intro bodySize h
    cases h
    decide
  have hle' : ∀ bodySize, client.bodySize tooEarly = .ok bodySize → bodySize ≤ Format.maxInt := by
    intro bodySize h
    cases h
    decide
  constructor
  · apply (write_behind_iff client tracedRequest [1, 2] hle).1.2
    exact ⟨Or.inl (by decide), ⟨.authResponse, rfl⟩, ⟨by decide, by decide, trivial⟩⟩
  · exact (write_behind_iff client tooEarly [1, 2] hle').2.2 _ (Or.inl rfl)

end Dialect

end CqlWire
