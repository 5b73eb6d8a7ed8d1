import CqlWire.Proofs.Dialect.Paths
import CqlWire.Proofs.Registry.History

/-!
This module contains that each message comes to a codec that can handle it, in whatever way the
registry was put together.
-/

namespace CqlWire

theorem Compressor.exists_of_compress_eq_error {compressor : Compressor} {bytes : Bytes}
    {error : Failure} (h : compressor.compress bytes = .error error) :
    ∃ fault, error = .compression fault := by
  unfold compress at h
  split at h
  · cases h
  · split at h
    · cases h
    · cases h
      exact ⟨_, rfl⟩

namespace Dialect

variable {dialect : Dialect} {frame : Frame} {codec : BodyCodec} {error : Failure}

theorem encoder_of_bodySize_eq_error (h : dialect.bodySize frame = .error error) :
    dialect.encoder frame = .error error := by
  cases hencoder : dialect.encoder frame with
  | error error' =>
    unfold bodySize at h
    rw [hencoder] at h
    cases h
    rfl
  | ok codec =>
    obtain ⟨bodySize, hsize⟩ := exists_bodySizeWith (handles_of_encoder hencoder)
    rw [bodySize_eq_bodySizeWith hencoder, hsize] at h
    cases h

/-- Where a length is told, it can be the only thing wrong with a frame. -/
theorem write_told_refusedFor (dialect : Dialect) (frame : Frame) (bodySize? : Option Nat) :
    (dialect.write frame bodySize?).RefusedFor fun error =>
      Unwritable dialect frame error
        ∨ ∃ opcode written expected, error = .protocol (.bodySize opcode written expected) := by
  cases bodySize? with
  | none => exact (write_refusedFor dialect frame).imp fun _ => .inl
  | some bodySize =>
    cases hvalidate : frame.validate with
    | error error =>
      rw [write_eq_refuse (.inl hvalidate)]
      exact .refuse (.inl (.invalid hvalidate))
    | ok _ =>
      cases hencoder : dialect.encoder frame with
      | error error =>
        rw [write_eq_refuse (.inr ⟨hvalidate, hencoder⟩)]
        exact .refuse (.inl (.noEncoder hencoder))
      | ok codec =>
        unfold write
        rw [hvalidate, hencoder]
        dsimp only [Option.map_some, Option.getD_some]
        unfold checkBodySize
        dsimp only
        split
        · intro error hmem
          cases hmem
          exact .inr ⟨_, _, _, rfl⟩
        · have hbody := writeBody_refusedFor dialect (handles_of_encoder hencoder)
          exact (writeHeader_append_refusedFor dialect frame _ _ hbody).imp fun _ => .inl

theorem unwritable_of_compress {body : Written} {flags : UInt8}
    (hbody : body.RefusedFor Format.Overlong)
    (h : (do
        let bytes ← body.toExcept
        let compressed ← dialect.compressor.compress bytes
        (writeHeader frame flags compressed.length ++ Written.ofBytes compressed).toExcept)
      = .error error) :
    Unwritable dialect frame error ∨ ∃ fault, error = .compression fault := by
  rcases hbytes : body.toExcept with error' | bytes
  · rw [hbytes] at h
    cases h
    exact .inl (.overlong (hbody.of_toExcept hbytes))
  · rw [hbytes] at h
    change (dialect.compressor.compress bytes >>= _) = _ at h
    rcases hcompress : dialect.compressor.compress bytes with error' | compressed
    · rw [hcompress] at h
      cases h
      exact .inr (Compressor.exists_of_compress_eq_error hcompress)
    · rw [hcompress] at h
      have hwhole : (Written.ofBytes compressed).RefusedFor Format.Overlong := .of_whole rfl
      exact .inl ((writeHeader_append_refusedFor dialect frame _ _ hwhole).of_toExcept h)

theorem unwritable_of_encode (h : dialect.encode frame = .error error) :
    Unwritable dialect frame error ∨ ∃ fault, error = .compression fault := by
  cases hvalidate : frame.validate with
  | error error' =>
    rw [encode_eq_error (.inl hvalidate)] at h
    cases h
    exact .inl (.invalid hvalidate)
  | ok _ =>
    cases hencoder : dialect.encoder frame with
    | error error' =>
      rw [encode_eq_error (.inr ⟨hvalidate, hencoder⟩)] at h
      cases h
      exact .inl (.noEncoder hencoder)
    | ok codec =>
      have hhandles := handles_of_encoder hencoder
      have hbody := writeBody_refusedFor dialect hhandles
      obtain ⟨bodySize, hsize⟩ := exists_bodySizeWith hhandles
      rw [encode_eq hvalidate hencoder hsize] at h
      split at h
      · exact unwritable_of_compress hbody h
      · exact .inl ((writeHeader_append_refusedFor dialect frame _ _ hbody).of_toExcept h)

theorem ne_foreignMessage (dialect : Dialect) (frame : Frame) (codec message : UInt8) :
    dialect.bodySize frame ≠ .error (.protocol (.foreignMessage codec message))
      ∧ dialect.encode frame ≠ .error (.protocol (.foreignMessage codec message))
      ∧ ∀ bodySize?, (dialect.write frame bodySize?).fault
          ≠ some (.protocol (.foreignMessage codec message)) := by
  have hnot : ¬ Unwritable dialect frame (.protocol (.foreignMessage codec message)) := fun h =>
    h.not_blamesCodec (.foreignMessage codec message)
  refine ⟨?_, ?_, ?_⟩
  · intro h
    exact hnot (.noEncoder (encoder_of_bodySize_eq_error h))
  · intro h
    rcases unwritable_of_encode h with h | ⟨_, h⟩
    · exact hnot h
    · cases h
  · intro bodySize? h
    rcases write_told_refusedFor dialect frame bodySize? _ h with h | ⟨_, _, _, h⟩
    · exact hnot h
    · cases h

/--
However a registry was put together, it finds the codec that was registered last for a direction, a
version and an opcode, whatever was registered for the other direction. A frame never comes to a
codec that cannot handle its message.
-/
theorem dispatch_ofRegistrations (registrations : List Registration) :
    let registry := Registry.ofRegistrations registrations
    (∀ direction version opcode codec,
        registry.lookup direction version opcode = .ok codec
          ↔
        ∃ front registration back, registrations = front ++ registration :: back
          ∧ registration.Covers direction version opcode codec
          ∧ ∀ later ∈ back, ∀ codec', ¬ later.Covers direction version opcode codec')
      ∧ (∀ direction version opcode error,
        registry.lookup direction version opcode = .error error
          ↔
        (∀ registration ∈ registrations, ∀ codec,
            ¬ registration.Covers direction version opcode codec)
          ∧ error = .noCodec version opcode direction)
      ∧ (∀ direction registrations',
        registrations'.flatMap (·.entries direction) = registrations.flatMap (·.entries direction) →
          (Registry.ofRegistrations registrations').lookup direction = registry.lookup direction)
      ∧ ∀ compressor payloadOrder frame codec message,
        let dialect : Dialect := ⟨registry, compressor, payloadOrder⟩
        dialect.bodySize frame ≠ .error (.protocol (.foreignMessage codec message))
          ∧ dialect.encode frame ≠ .error (.protocol (.foreignMessage codec message))
          ∧ ∀ bodySize?, (dialect.write frame bodySize?).fault
              ≠ some (.protocol (.foreignMessage codec message)) := by
  intro registry
  refine ⟨?_, ?_, ?_, ?_⟩
  · intro direction version opcode codec
    apply Registry.lookup_ofRegistrations_eq_ok_iff
  · intro direction version opcode error
    apply Registry.lookup_ofRegistrations_eq_error_iff
  · intro direction registrations'
    apply Registry.lookup_ofRegistrations_congr
  · intro compressor payloadOrder frame codec message
    apply ne_foreignMessage

theorem dispatch_ofRegistrations_replaced :
    let replaced : List Registration :=
      [.role .v4 .client, .encoder .v4 (.queryFor .v3), .encoder .v4 (.queryFor .v5)]
    let decoded := replaced ++ [.decoder .v4 (.queryFor .v3)]
    (Registry.ofRegistrations decoded).lookup .encode .v4 0x07 = .ok (.queryFor .v5)
      ∧ (Registry.ofRegistrations replaced).lookup .decode .v4 0x07
          = .error (.noCodec Version.v4 0x07 .decode)
      ∧ (Registry.ofRegistrations decoded).lookup .encode
          = (Registry.ofRegistrations replaced).lookup .encode := by
  intro replaced decoded
  obtain ⟨hok, _, _, _⟩ := dispatch_ofRegistrations decoded
  obtain ⟨_, herror, hcongr, _⟩ := dispatch_ofRegistrations replaced
  refine ⟨(hok _ _ _ _).2 ?_, (herror _ _ _ _).2 ⟨?_, rfl⟩, hcongr _ _ rfl⟩
  · refine ⟨replaced.take 2, .encoder .v4 (.queryFor .v5), [.decoder .v4 (.queryFor .v3)], rfl,
      ⟨List.mem_cons_self, rfl⟩, ?_⟩
    intro later hmem
    rw [List.mem_singleton.1 hmem]
    apply Registration.codec?_eq_none_iff.1
    rfl
  · have hnone : ∀ registration ∈ replaced, registration.codec? .decode .v4 0x07 = none := by
      decide
    intro registration hmem
    exact Registration.codec?_eq_none_iff.1 (hnone registration hmem)

end Dialect

end CqlWire
