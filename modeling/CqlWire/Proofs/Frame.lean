import CqlWire.Frame.Basic
import CqlWire.Proofs.Registry

/-!
This module contains which frames a side can make, and what the parts of such a frame say about each
other.
-/

namespace CqlWire

namespace Frame

/-- Frames that a side can make: clients make requests, and servers make responses. -/
def MadeBy (sender : Role) (frame : Frame) : Prop :=
  match sender with
  | .client => ∃ version streamId tracing customPayload message,
    request version streamId tracing customPayload message = .ok frame
  | .server => ∃ version streamId tracingId customPayload warnings message,
    response version streamId tracingId customPayload warnings message = .ok frame

structure WellFormed (frame : Frame) : Prop where
  tracingId_eq : frame.isResponse = false → frame.tracingId = none
  warnings_eq : frame.isResponse = false → frame.warnings = []
  tracing_eq : frame.isResponse = true → frame.tracing = frame.tracingId.isSome

namespace WellFormed

variable {frame : Frame}

theorem tracing_or (h : frame.WellFormed) :
    (frame.tracing || frame.tracingId.isSome) = frame.tracing := by
  cases hresponse : frame.isResponse with
  | false =>
    rw [h.tracingId_eq hresponse]
    apply Bool.or_false
  | true =>
    rw [h.tracing_eq hresponse]
    apply Bool.or_self

theorem isResponse_and_tracing (h : frame.WellFormed) :
    (frame.isResponse && (frame.tracing || frame.tracingId.isSome)) = frame.tracingId.isSome := by
  rw [h.tracing_or]
  cases hresponse : frame.isResponse with
  | false =>
    rw [h.tracingId_eq hresponse]
    rfl
  | true =>
    rw [h.tracing_eq hresponse]
    apply Bool.true_and

theorem isResponse_and_warnings (h : frame.WellFormed) :
    (frame.isResponse && !frame.warnings.isEmpty) = !frame.warnings.isEmpty := by
  cases hresponse : frame.isResponse with
  | false =>
    rw [h.warnings_eq hresponse]
    rfl
  | true => apply Bool.true_and

end WellFormed

theorem validated_eq_ok_iff {frame frame' : Frame} :
    frame.validated = .ok frame' ↔ frame.validate = .ok () ∧ frame = frame' := by
  unfold validated
  cases frame.validate with
  | error error => simp [Except.map]
  | ok _ => simp [Except.map]

theorem wellFormed_of_request {frame : Frame} (h : frame.isResponse = false) :
    frame.WellFormed ↔ frame.tracingId = none ∧ frame.warnings = [] := by
  constructor
  · intro hframe
    exact ⟨hframe.tracingId_eq h, hframe.warnings_eq h⟩
  · rintro ⟨htracingId, hwarnings⟩
    constructor
    · exact fun _ => htracingId
    · exact fun _ => hwarnings
    · simp [h]

theorem wellFormed_of_response {frame : Frame} (h : frame.isResponse = true) :
    frame.WellFormed ↔ frame.tracing = frame.tracingId.isSome := by
  constructor
  · intro hframe
    exact hframe.tracing_eq h
  · intro htracing
    constructor
    · simp [h]
    · simp [h]
    · exact fun _ => htracing

theorem madeBy_client_iff {frame : Frame} :
    frame.MadeBy .client
      ↔
    frame.isResponse = false
      ∧ frame.tracingId = none ∧ frame.warnings = []
      ∧ frame.validate = .ok ()
      ∧ frame.size = unknownSize ∧ frame.compressedSize = unknownSize := by
  constructor
  · rintro ⟨version, streamId, tracing, customPayload, message, h⟩
    unfold request at h
    split at h
    · simp at h
    · next hrequest =>
      obtain ⟨hvalidate, rfl⟩ := validated_eq_ok_iff.1 h
      exact ⟨Bool.eq_false_iff.2 hrequest, rfl, rfl, hvalidate, rfl, rfl⟩
  · obtain ⟨version, streamId, tracing, tracingId, size, compressedSize, customPayload, warnings,
      message⟩ := frame
    rintro ⟨hrequest, rfl, rfl, hvalidate, rfl, rfl⟩
    have hmessage : ¬ message.isResponse = true := Bool.eq_false_iff.1 hrequest
    refine ⟨version, streamId, tracing, customPayload, message, ?_⟩
    unfold request
    rw [if_neg hmessage]
    exact validated_eq_ok_iff.2 ⟨hvalidate, rfl⟩

theorem madeBy_server_iff {frame : Frame} :
    frame.MadeBy .server
      ↔
    frame.isResponse = true
      ∧ frame.tracing = frame.tracingId.isSome
      ∧ frame.validate = .ok ()
      ∧ frame.size = unknownSize ∧ frame.compressedSize = unknownSize := by
  constructor
  · rintro ⟨version, streamId, tracingId, customPayload, warnings, message, h⟩
    unfold response at h
    split at h
    · next hresponse =>
      obtain ⟨hvalidate, rfl⟩ := validated_eq_ok_iff.1 h
      exact ⟨hresponse, rfl, hvalidate, rfl, rfl⟩
    · simp at h
  · obtain ⟨version, streamId, tracing, tracingId, size, compressedSize, customPayload, warnings,
      message⟩ := frame
    rintro ⟨hresponse, htracing, hvalidate, rfl, rfl⟩
    dsimp only at htracing
    subst htracing
    have hmessage : message.isResponse = true := hresponse
    refine ⟨version, streamId, tracingId, customPayload, warnings, message, ?_⟩
    unfold response
    rw [if_pos hmessage]
    exact validated_eq_ok_iff.2 ⟨hvalidate, rfl⟩

theorem madeBy_iff {sender : Role} {frame : Frame} :
    frame.MadeBy sender
      ↔
    frame.isResponse = sender.responds
      ∧ frame.WellFormed
      ∧ frame.validate = .ok ()
      ∧ frame.size = unknownSize ∧ frame.compressedSize = unknownSize := by
  cases sender with
  | client =>
    rw [madeBy_client_iff]
    apply and_congr_right
    intro hrequest
    rw [wellFormed_of_request hrequest, and_assoc]
  | server =>
    rw [madeBy_server_iff]
    apply and_congr_right
    intro hresponse
    rw [wellFormed_of_response hresponse]

theorem MadeBy.wellFormed {sender : Role} {frame : Frame} (h : frame.MadeBy sender) :
    frame.WellFormed :=
  (madeBy_iff.1 h).2.1

end Frame

end CqlWire
