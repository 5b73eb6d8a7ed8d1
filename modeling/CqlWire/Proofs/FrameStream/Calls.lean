import CqlWire.Proofs.FrameStream

/-!
This module contains what holds of a stream of frames after any calls: it holds less than a frame,
or a header that was refused, which it goes on refusing until it is cleared.
-/

namespace CqlWire

namespace FrameStream

inductive Call
  | push (data : Bytes)
  | clear
deriving Repr, DecidableEq

def call (stream : FrameStream) : Call → Except Failure (List Bytes) × FrameStream
  | .push data => stream.push data
  | .clear => (.ok [], stream.clear)

/-- There is less than a header, or less than the frame whose header is there. -/
inductive Waiting (limit : Nat) : FrameStream → Prop
  | header {held : Bytes} (hlt : held.length < FrameHeader.size) :
      Waiting limit ⟨limit, .header, held⟩
  | body {held : Bytes} {length : Nat}
      (hdeclares : FrameHeader.Declares held (FrameHeader.size + length)) (hlimit : length ≤ limit)
      (hle : FrameHeader.size ≤ held.length) (hlt : held.length < FrameHeader.size + length) :
      Waiting limit ⟨limit, .body length, held⟩

/-- The header in front of what is held is refused. -/
inductive Stuck (limit : Nat) (error : Failure) : FrameStream → Prop
  | header {held : Bytes} (hfault : headerFault? limit held = some error) :
      Stuck limit error ⟨limit, .header, held⟩

variable {limit : Nat} {stream : FrameStream} {error : Failure}

theorem Frames.waiting {bytes rest : Bytes} {frames : List Bytes}
    (h : Frames limit bytes frames rest) (hfault : headerFault? limit rest = none) :
    Waiting limit ⟨limit, stateAt rest, rest⟩ := by
  unfold stateAt
  cases hdeclared : FrameHeader.declaredLength? rest with
  | none => exact .header (FrameHeader.declaredLength?_eq_none_iff.1 hdeclared)
  | some length =>
    obtain ⟨hlength, hlimit⟩ := frameLength?_iff.2 ⟨length, hdeclared, hfault, rfl⟩
    apply Waiting.body
    · exact FrameHeader.frameLength?_eq_ok_iff.1 hlength
    · exact Nat.le_of_add_le_add_left hlimit
    · exact FrameHeader.size_le_of_declaredLength? hdeclared
    · -- Otherwise the rest would start with a frame.
      apply Nat.lt_of_not_le
      intro hle
      obtain ⟨frame, more, hrest, hframe⟩ : ∃ frame more, rest = frame ++ more
          ∧ frame.length = FrameHeader.size + length.toNatClampNeg :=
        ⟨_, _, (List.take_append_drop _ rest).symm, List.length_take_of_le hle⟩
      apply h.rest_ne frame more hrest
      rw [hrest, ← hframe] at hlength
      rw [← hframe] at hlimit
      refine ⟨delimited_of_append ?_ hlength, hlimit⟩
      rw [hframe]
      apply Nat.le_add_right

theorem Waiting.push_eq (h : Waiting limit stream) (data : Bytes) :
    stream.push data = (ofLimit limit).push (stream.held.bytes ++ data) := by
  cases h with
  | header => rfl
  | @body held length hdeclares hlimit hle =>
    obtain ⟨bodyLength, hdeclared, hfault, hlength⟩ :=
      frameLength?_iff.1 ⟨FrameHeader.frameLength?_eq_ok_iff.2 hdeclares, Nat.add_le_add_left hlimit _⟩
    rw [Nat.add_left_cancel hlength]
    have hnext : (cutter limit).next (.body bodyLength.toNatClampNeg) (held ++ data)
        = (cutter limit).next .header (held ++ data) := by
      change _ = next limit .header (held ++ data)
      rw [next_header_append hle]
      rw [hfault, hdeclared]
      rfl
    unfold push
    dsimp only [Cutter.push]
    rw [Cutter.drain_congr hnext]
    rfl

theorem waiting_ofLimit (limit : Nat) : Waiting limit (ofLimit limit) :=
  .header (by decide)

theorem Waiting.push_cases (h : Waiting limit stream) (data : Bytes) :
    (∃ frames next, stream.push data = (.ok frames, next)
        ∧ (∀ frame ∈ frames, Accepted limit frame) ∧ Waiting limit next)
      ∨ ∃ error next, stream.push data = (.error error, next) ∧ Stuck limit error next := by
  obtain ⟨frames, rest, hframes⟩ := Frames.exists_of_bytes limit (stream.held.bytes ++ data)
  rw [h.push_eq]
  rw [push_ofLimit hframes]
  cases hfault : headerFault? limit rest with
  | none => exact .inl ⟨frames, _, rfl, hframes.accepted, hframes.waiting hfault⟩
  | some error => exact .inr ⟨error, _, rfl, .header hfault⟩

theorem Stuck.push_eq (h : Stuck limit error stream) (data : Bytes) :
    stream.push data = (.error error, ⟨limit, .header, stream.held.bytes ++ data⟩)
      ∧ Stuck limit error ⟨limit, .header, stream.held.bytes ++ data⟩ := by
  cases h with
  | @header held hfault =>
    have hmore : headerFault? limit (held ++ data) = some error := by
      rw [headerFault?_append (size_le_of_headerFault? hfault)]
      exact hfault
    have hnext : (cutter limit).next .header (held ++ data) = .fail error .header (held ++ data) := by
      change next limit .header (held ++ data) = _
      rw [next_header]
      rw [hmore]
    refine ⟨?_, .header hmore⟩
    unfold push
    dsimp only [Cutter.push]
    rw [Cutter.drain_of_fail hnext]

def Standing (limit : Nat) (stream : FrameStream) : Prop :=
  Waiting limit stream ∨ ∃ error, Stuck limit error stream

theorem Standing.limit_eq (h : Standing limit stream) : stream.limit = limit := by
  rcases h with h | ⟨error, h⟩
  · cases h <;> rfl
  · cases h
    rfl

theorem Standing.push_cases (h : Standing limit stream) (data : Bytes) :
    (∃ frames next, stream.push data = (.ok frames, next)
        ∧ (∀ frame ∈ frames, Accepted limit frame) ∧ Waiting limit next)
      ∨ ∃ error next, stream.push data = (.error error, next) ∧ Stuck limit error next := by
  rcases h with h | ⟨error, h⟩
  · exact h.push_cases data
  · obtain ⟨hpush, hstuck⟩ := h.push_eq data
    exact .inr ⟨error, _, hpush, hstuck⟩

theorem Standing.stuck_of_push (h : Standing limit stream) {data : Bytes} {next : FrameStream}
    (hpush : stream.push data = (.error error, next)) : Stuck limit error next := by
  rcases h.push_cases data with ⟨frames, next', hok, _⟩ | ⟨error', next', herror, hstuck⟩
  · rw [hpush] at hok
    cases hok
  · rw [hpush] at herror
    cases herror
    exact hstuck

theorem Standing.call (h : Standing limit stream) (c : Call) :
    (∀ frames, (stream.call c).1 = .ok frames → ∀ frame ∈ frames, Accepted limit frame)
      ∧ Standing limit (stream.call c).2 := by
  cases c with
  | clear =>
    constructor
    · rintro _ ⟨⟩
      simp
    · left
      change Waiting limit (ofLimit stream.limit)
      rw [h.limit_eq]
      exact waiting_ofLimit limit
  | push data =>
    change (∀ frames, (stream.push data).1 = .ok frames → _) ∧ Standing limit (stream.push data).2
    rcases h.push_cases data with ⟨frames, next, hpush, haccepted, hwaiting⟩ |
      ⟨error, next, hpush, hstuck⟩
    · rw [hpush]
      refine ⟨?_, .inl hwaiting⟩
      rintro _ ⟨⟩
      exact haccepted
    · rw [hpush]
      refine ⟨?_, .inr ⟨error, hstuck⟩⟩
      rintro _ ⟨⟩

def after (limit : Nat) (calls : List Call) : FrameStream :=
  final call (ofLimit limit) calls

theorem accepted_and_standing (limit : Nat) (calls : List Call) :
    (∀ outcome ∈ outcomes call (ofLimit limit) calls,
      ∀ frames, outcome = .ok frames → ∀ frame ∈ frames, Accepted limit frame)
      ∧ Standing limit (after limit calls) := by
  have hkept : ∀ stream c, Standing limit stream → Standing limit (call stream c).2 :=
    fun _ c h => (h.call c).2
  have hbegin : Standing limit (ofLimit limit) := .inl (waiting_ofLimit limit)
  constructor
  · refine forall_outcomes hkept ?_ hbegin calls
    intro stream c h
    exact (h.call c).1
  · exact kept_final hkept hbegin calls

theorem after_clear (limit : Nat) (calls : List Call) :
    after limit (calls ++ [.clear]) = ofLimit limit := by
  unfold after
  rw [final_append]
  change ofLimit (after limit calls).limit = ofLimit limit
  rw [(accepted_and_standing limit calls).2.limit_eq]

theorem Waiting.pushes (h : Waiting limit stream) {pieces : List Bytes}
    (hok : ∀ outcome ∈ outcomes call stream (pieces.map .push), ∃ frames, outcome = .ok frames) :
    Waiting limit (final call stream (pieces.map .push)) := by
  induction pieces generalizing stream with
  | nil => exact h
  | cons piece rest ih =>
    obtain ⟨⟨frames, hpiece⟩, hrest⟩ := List.forall_mem_cons.1 hok
    refine ih ?_ hrest
    change (stream.push piece).1 = .ok frames at hpiece
    change Waiting limit (stream.push piece).2
    rcases h.push_cases piece with ⟨_, next, hpush, _, hwaiting⟩ | ⟨error, next, hpush, _⟩
    · rw [hpush]
      exact hwaiting
    · rw [hpush] at hpiece
      cases hpiece

theorem Stuck.pushes (h : Stuck limit error stream) (pieces : List Bytes) :
    (∀ outcome ∈ outcomes call stream (pieces.map .push), outcome = .error error)
      ∧ (final call stream (pieces.map .push)).held.bytes
          = stream.held.bytes ++ pieces.flatten := by
  induction pieces generalizing stream with
  | nil => exact ⟨by simp [outcomes], (List.append_nil _).symm⟩
  | cons piece rest ih =>
    obtain ⟨hpush, hstuck⟩ := h.push_eq piece
    have hnext : (stream.call (.push piece)).2 = _ := congrArg Prod.snd hpush
    obtain ⟨hrest, hbytes⟩ := ih hstuck
    constructor
    · rw [List.map_cons, outcomes, List.forall_mem_cons]
      rw [hnext]
      exact ⟨congrArg Prod.fst hpush, hrest⟩
    · change (final call (stream.call (.push piece)).2 (rest.map .push)).held.bytes = _
      rw [hnext, hbytes]
      rw [List.flatten_cons, ← List.append_assoc]

/--
A stream that has refused no header since it was begun or cleared waits, and holds less than it
waits for. One that has refused a header does so again whatever is pushed, and keeps it, until it is
cleared and is as it was in the beginning.
-/
theorem waits_or_refuses (limit : Nat) :
    (∀ (front : List Call) (pieces : List Bytes),
      (front = [] ∨ ∃ earlier, front = earlier ++ [.clear]) →
        (∀ outcome ∈ outcomes call (after limit front) (pieces.map .push),
          ∃ frames, outcome = .ok frames) →
          Waiting limit (after limit (front ++ pieces.map .push)))
      ∧ (∀ calls frames, .ok frames ∈ outcomes call (ofLimit limit) calls →
          ∀ frame ∈ frames, FrameHeader.Declares frame frame.length
            ∧ frame.length ≤ FrameHeader.size + limit)
      ∧ (∀ calls data error, ((after limit calls).push data).1 = .error error →
          ∀ pieces : List Bytes,
            (∀ outcome ∈ outcomes call (after limit (calls ++ [.push data])) (pieces.map .push),
              outcome = .error error)
              ∧ (after limit (calls ++ .push data :: pieces.map .push)).held.bytes
                  = (after limit (calls ++ [.push data])).held.bytes ++ pieces.flatten)
      ∧ ∀ calls later,
          outcomes call (after limit (calls ++ [.clear])) later
              = outcomes call (ofLimit limit) later
            ∧ after limit (calls ++ .clear :: later) = after limit later := by
  refine ⟨?_, ?_, ?_, ?_⟩
  · intro front pieces hfront hok
    have hbegin : after limit front = ofLimit limit := by
      rcases hfront with rfl | ⟨earlier, rfl⟩
      · rfl
      · exact after_clear limit earlier
    rw [hbegin] at hok
    rw [after, final_append]
    rw [← after, hbegin]
    exact (waiting_ofLimit limit).pushes hok
  · intro calls frames hmem frame hframe
    obtain ⟨hdelimited, hle⟩ :=
      (accepted_and_standing limit calls).1 _ hmem frames rfl frame hframe
    exact ⟨(delimited_iff.1 hdelimited).2, hle⟩
  · intro calls data error herror pieces
    have hpush : (after limit calls).push data = (.error error, ((after limit calls).push data).2) :=
      Prod.ext herror rfl
    have hstuck := (accepted_and_standing limit calls).2.stuck_of_push hpush
    have hafter : after limit (calls ++ [.push data]) = ((after limit calls).push data).2 :=
      final_append _ _ _
    rw [← hafter] at hstuck
    obtain ⟨houtcomes, hbytes⟩ := hstuck.pushes pieces
    refine ⟨houtcomes, ?_⟩
    rw [← hbytes]
    rw [List.append_cons, after, final_append]
    rfl
  · intro calls later
    constructor
    · rw [after_clear]
    · rw [List.append_cons, after, final_append]
      rw [← after, after_clear]
      rfl

/-- A frame and a header that is refused, more behind it, and another frame once that is cleared. -/
theorem waits_or_refuses_overLimit :
    let bare : Bytes := [5, 0, 0, 0, 5, 0, 0, 0, 0]
    let overLimit : Bytes := [5, 0, 0, 0, 5, 0, 0, 0, 3]
    let error : Failure := .protocol (.frameBodyOverLimit 3 2)
    let refused : List Call := [.push (bare ++ overLimit)]
    let cleared : List Call := refused ++ [.clear]
    ((after 2 []).push (bare ++ overLimit)).1 = .error error
      ∧ (∀ outcome ∈ outcomes call (after 2 refused) [.push [], .push bare],
          outcome = .error error)
      ∧ outcomes call (after 2 cleared) [.push (bare ++ [5])] = [.ok [bare]]
      ∧ FrameHeader.Declares bare bare.length
      ∧ Waiting 2 (after 2 (cleared ++ [.push (bare ++ [5])])) := by
  intro bare overLimit error refused cleared
  obtain ⟨hwaits, haccepted, hrefuses, hclears⟩ := waits_or_refuses 2
  have hrefused : (cutter 2).drain ⟨.header, bare ++ overLimit⟩
      = (.error error, ⟨.header, overLimit⟩) := by
    have hnext : next 2 .header (bare ++ overLimit) = .item bare .header overLimit := rfl
    rw [Cutter.drain_of_item hnext]
    rw [Cutter.drain_of_fail (rfl : next 2 .header overLimit = .fail error .header overLimit)]
    rfl
  have hbegun : (cutter 2).drain ⟨.header, bare ++ [5]⟩ = (.ok [bare], ⟨.header, [5]⟩) := by
    rw [Cutter.drain_of_item (rfl : next 2 .header (bare ++ [5]) = .item bare .header [5])]
    rw [Cutter.drain_of_wait (rfl : next 2 .header [5] = .wait .header [5])]
    rfl
  have herror : ((after 2 []).push (bare ++ overLimit)).1 = .error error :=
    congrArg Prod.fst hrefused
  have hfresh : outcomes call (ofLimit 2) [.push (bare ++ [5])] = [.ok [bare]] := by
    change [((cutter 2).drain ⟨.header, bare ++ [5]⟩).1] = _
    rw [hbegun]
  have hagain : outcomes call (after 2 cleared) [.push (bare ++ [5])] = [.ok [bare]] := by
    rw [← hfresh]
    exact (hclears refused _).1
  refine ⟨herror, (hrefuses [] _ error herror [[], bare]).1, hagain, ?_, ?_⟩
  · have hmem : .ok [bare] ∈ outcomes call (ofLimit 2) [.push (bare ++ [5])] := by
      rw [hfresh]
      apply List.mem_singleton_self
    exact (haccepted _ _ hmem bare (List.mem_singleton_self bare)).1
  · apply hwaits cleared [bare ++ [5]] (.inr ⟨refused, rfl⟩)
    intro outcome hmem
    change outcome ∈ outcomes call (after 2 cleared) [.push (bare ++ [5])] at hmem
    rw [hagain] at hmem
    exact ⟨[bare], List.mem_singleton.1 hmem⟩

end FrameStream

end CqlWire
