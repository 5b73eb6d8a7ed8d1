import CqlWire.Proofs.Cutter
import CqlWire.Proofs.Delimited
import CqlWire.Stream.Frames

/-!
This module contains what a stream of frames comes to, whatever the pieces in which it arrives: the
frames in front of the first header that is refused, each from the push that brings its last byte.
-/

namespace CqlWire

namespace FrameStream

def Accepted (limit : Nat) (frame : Bytes) : Prop :=
  Delimited frame ∧ frame.length ≤ FrameHeader.size + limit

def headerFault? (limit : Nat) (bytes : Bytes) : Option Failure :=
  match FrameHeader.declaredLength? bytes with
  | none => none
  | some length =>
    if length < 0 then some (.protocol (.negativeFrameBody length))
    else if limit < length.toNatClampNeg then
      some (.protocol (.frameBodyOverLimit length.toNatClampNeg limit))
    else none

/-- Bytes are frames, one behind the other, and a rest that does not start with a whole one. -/
structure Frames (limit : Nat) (bytes : Bytes) (frames : List Bytes) (rest : Bytes) : Prop where
  bytes_eq : bytes = frames.flatten ++ rest
  accepted : ∀ frame ∈ frames, Accepted limit frame
  rest_ne : ∀ frame more, rest = frame ++ more → ¬ Accepted limit frame

def endingWithin : (length : Nat) → List Bytes → List Bytes
  | _, [] => []
  | length, frame :: rest =>
    if frame.length ≤ length then frame :: endingWithin (length - frame.length) rest else []

def stateAt (bytes : Bytes) : State :=
  match FrameHeader.declaredLength? bytes with
  | none => .header
  | some length => .body length.toNatClampNeg

theorem next_header (limit : Nat) (held : Bytes) :
    next limit .header held
      =
    match headerFault? limit held, FrameHeader.declaredLength? held with
    | some error, _ => .fail error .header held
    | none, none => .wait .header held
    | none, some length => nextFrame length.toNatClampNeg held := by
  unfold headerFault?
  rw [next]
  cases FrameHeader.declaredLength? held with
  | none => rfl
  | some length =>
    dsimp only
    by_cases hneg : length < 0
    · simp only [if_pos hneg]
    · simp only [if_neg hneg]
      by_cases hlimit : limit < length.toNatClampNeg
      · simp only [if_pos hlimit]
      · simp only [if_neg hlimit]

theorem headerFault?_append {limit : Nat} {bytes : Bytes}
    (h : FrameHeader.size ≤ bytes.length) (more : Bytes) :
    headerFault? limit (bytes ++ more) = headerFault? limit bytes := by
  unfold headerFault?
  rw [FrameHeader.declaredLength?_append h]

theorem headerFault?_of_short {limit : Nat} {bytes : Bytes}
    (h : bytes.length < FrameHeader.size) : headerFault? limit bytes = none := by
  unfold headerFault?
  rw [FrameHeader.declaredLength?_eq_none_iff.2 h]

theorem size_le_of_headerFault? {limit : Nat} {bytes : Bytes} {error : Failure}
    (h : headerFault? limit bytes = some error) : FrameHeader.size ≤ bytes.length := by
  apply Nat.le_of_not_lt
  intro hlt
  rw [headerFault?_of_short hlt] at h
  simp at h

theorem next_header_append {limit : Nat} {bytes : Bytes}
    (h : FrameHeader.size ≤ bytes.length) (more : Bytes) :
    next limit .header (bytes ++ more)
      =
    match headerFault? limit bytes, FrameHeader.declaredLength? bytes with
    | some error, _ => .fail error .header (bytes ++ more)
    | none, none => .wait .header (bytes ++ more)
    | none, some length => nextFrame length.toNatClampNeg (bytes ++ more) := by
  rw [next_header]
  rw [headerFault?_append h]
  rw [FrameHeader.declaredLength?_append h]

theorem nextFrame_continues (limit length : Nat) (held more : Bytes) :
    (cutter limit).Continues more (nextFrame length (held ++ more)) (nextFrame length held) := by
  cases hsplit : held.split? (FrameHeader.size + length) with
  | none =>
    have : nextFrame length held = .wait (.body length) held := by
      unfold nextFrame
      rw [hsplit]
    rw [this]
    rfl
  | some parts =>
    unfold nextFrame
    rw [hsplit]
    rw [Bytes.split?_append_of_some hsplit more]
    rfl

theorem cutter_local (limit : Nat) : (cutter limit).Local := by
  apply Cutter.Local.of_continues
  intro state held more
  cases state with
  | header =>
    change (cutter limit).Continues more (next limit .header (held ++ more))
      (next limit .header held)
    rw [next_header limit held]
    -- Once the header is there, more bytes do not change what it says.
    cases hfault : headerFault? limit held with
    | some error =>
      rw [next_header_append (size_le_of_headerFault? hfault)]
      rw [hfault]
      rfl
    | none =>
      cases hlength : FrameHeader.declaredLength? held with
      | none => rfl
      | some length =>
        rw [next_header_append (FrameHeader.size_le_of_declaredLength? hlength)]
        rw [hfault, hlength]
        apply nextFrame_continues
  | body length => apply nextFrame_continues

theorem settled_fresh (limit : Nat) : (cutter limit).Settled ⟨.header, []⟩ := rfl

theorem frameLength?_iff {limit : Nat} {bytes : Bytes} {frameLength : Nat} :
    FrameHeader.frameLength? bytes = some (.ok frameLength)
        ∧ frameLength ≤ FrameHeader.size + limit
      ↔
    ∃ length, FrameHeader.declaredLength? bytes = some length
      ∧ headerFault? limit bytes = none
      ∧ frameLength = FrameHeader.size + length.toNatClampNeg := by
  unfold FrameHeader.frameLength? headerFault?
  cases hlength : FrameHeader.declaredLength? bytes with
  | none => simp
  | some length =>
    simp only [Option.map_some, Option.some.injEq]
    by_cases hneg : length < 0
    · simp [hneg]
    · simp [hneg]
      omega

theorem accepted_iff {limit : Nat} {frame : Bytes} :
    Accepted limit frame
      ↔
    ∃ length, FrameHeader.declaredLength? frame = some length
      ∧ headerFault? limit frame = none
      ∧ frame.length = FrameHeader.size + length.toNatClampNeg :=
  frameLength?_iff

theorem nextFrame_of_length_eq {length : Nat} {frame : Bytes}
    (h : frame.length = FrameHeader.size + length) (more : Bytes) :
    nextFrame length (frame ++ more) = .item frame .header more := by
  unfold nextFrame
  rw [← h]
  rw [Bytes.split?_append]

theorem next_of_accepted {limit : Nat} {frame : Bytes} (h : Accepted limit frame) (more : Bytes) :
    next limit .header (frame ++ more) = .item frame .header more := by
  obtain ⟨length, hdeclared, hfault, hlength⟩ := accepted_iff.1 h
  rw [next_header_append (FrameHeader.size_le_of_declaredLength? hdeclared)]
  rw [hfault, hdeclared]
  apply nextFrame_of_length_eq hlength

theorem next_of_no_frame {limit : Nat} {rest : Bytes}
    (h : ∀ frame more, rest = frame ++ more → ¬ Accepted limit frame) :
    next limit .header rest
      =
    match headerFault? limit rest with
    | some error => .fail error .header rest
    | none => .wait (stateAt rest) rest := by
  rw [next_header]
  unfold stateAt
  cases hfault : headerFault? limit rest with
  | some error => rfl
  | none =>
    cases hdeclared : FrameHeader.declaredLength? rest with
    | none => rfl
    | some length =>
      dsimp only
      unfold nextFrame
      split
      · next frame more hsplit =>
        -- A frame that can be split off is accepted: its header is that of `rest`.
        have hrest := Bytes.append_of_split? hsplit
        have hlength := (Bytes.length_of_split? hsplit).1
        exfalso
        apply h frame more hrest.symm
        rw [accepted_iff]
        have hsize : FrameHeader.size ≤ frame.length := by omega
        rw [← hrest] at hdeclared hfault
        rw [FrameHeader.declaredLength?_append hsize] at hdeclared
        rw [headerFault?_append hsize] at hfault
        exact ⟨length, hdeclared, hfault, hlength⟩
      · rfl

theorem headerFault?_of_inside {limit : Nat} {front back : Bytes}
    (h : Accepted limit (front ++ back)) :
    headerFault? limit front = none := by
  by_cases hsize : FrameHeader.size ≤ front.length
  · obtain ⟨_, _, hfault, _⟩ := accepted_iff.1 h
    rw [← headerFault?_append hsize back]
    apply hfault
  · apply headerFault?_of_short
    omega

theorem endingWithin_append (frame front : Bytes) (frames : List Bytes) :
    endingWithin (frame ++ front).length (frame :: frames)
      =
    frame :: endingWithin front.length frames := by
  rw [endingWithin]
  rw [List.length_append, Nat.add_sub_cancel_left]
  apply if_pos
  omega

namespace Frames

variable {limit : Nat} {bytes frame front back rest : Bytes} {frames : List Bytes}

theorem cons (haccepted : Accepted limit frame) (h : Frames limit bytes frames rest) :
    Frames limit (frame ++ bytes) (frame :: frames) rest where
  bytes_eq := by
    rw [List.flatten_cons, List.append_assoc]
    rw [← h.bytes_eq]
  accepted := List.forall_mem_cons.2 ⟨haccepted, h.accepted⟩
  rest_ne := h.rest_ne

theorem tail (h : Frames limit (frame ++ bytes) (frame :: frames) rest) :
    Frames limit bytes frames rest where
  bytes_eq := by
    have hbytes := h.bytes_eq
    rw [List.flatten_cons, List.append_assoc] at hbytes
    apply List.append_cancel_left hbytes
  accepted := (List.forall_mem_cons.1 h.accepted).2
  rest_ne := h.rest_ne

theorem exists_of_bytes (limit : Nat) (bytes : Bytes) :
    ∃ frames rest, Frames limit bytes frames rest := by
  generalize hn : bytes.length = n
  induction n using Nat.strongRecOn generalizing bytes with
  | ind n ih =>
    by_cases h : ∃ frame more, bytes = frame ++ more ∧ Accepted limit frame
    · obtain ⟨frame, more, rfl, haccepted⟩ := h
      have hsize := haccepted.1.size_le
      simp only [FrameHeader.size, List.length_append] at hsize hn
      obtain ⟨frames, rest, hframes⟩ := ih more.length (by omega) more rfl
      exact ⟨frame :: frames, rest, hframes.cons haccepted⟩
    · refine ⟨[], bytes, by simp, by simp, ?_⟩
      intro frame more hbytes haccepted
      exact h ⟨frame, more, hbytes, haccepted⟩

theorem drain (h : Frames limit bytes frames rest) :
    (cutter limit).drain ⟨.header, bytes⟩
      =
    match headerFault? limit rest with
    | some error => (.error error, ⟨.header, rest⟩)
    | none => (.ok frames, ⟨stateAt rest, rest⟩) := by
  obtain ⟨rfl, haccepted, hrest⟩ := h
  induction frames with
  | nil =>
    have hnext := next_of_no_frame hrest
    rw [List.flatten_nil, List.nil_append]
    cases hfault : headerFault? limit rest with
    | some error =>
      rw [hfault] at hnext
      apply Cutter.drain_of_fail hnext
    | none =>
      rw [hfault] at hnext
      apply Cutter.drain_of_wait hnext
  | cons frame frames ih =>
    have hnext := next_of_accepted (haccepted frame (by simp)) (frames.flatten ++ rest)
    rw [List.flatten_cons, List.append_assoc]
    rw [Cutter.drain_of_item hnext]
    rw [ih (by intro frame' h; apply haccepted; simp [h])]
    cases headerFault? limit rest <;> rfl

theorem of_inside (h : Accepted limit (front ++ back)) (hne : back ≠ []) :
    Frames limit front [] front where
  bytes_eq := by simp
  accepted := by simp
  rest_ne := by
    intro frame more hfront haccepted
    have heq : (front ++ back) ++ [] = frame ++ (more ++ back) := by
      rw [List.append_nil, ← List.append_assoc, ← hfront]
    have hlength := congrArg List.length (h.1.eq_of_append_eq haccepted.1 heq).1
    have hback := List.length_pos_iff.2 hne
    have := congrArg List.length hfront
    simp only [List.length_append] at *
    omega

theorem exists_front (h : Frames limit (front ++ back) frames rest) :
    ∃ rest', Frames limit front (endingWithin front.length frames) rest'
      ∧ headerFault? limit rest'
          =
        if frames.flatten.length + FrameHeader.size ≤ front.length then headerFault? limit rest
        else none := by
  induction frames generalizing front with
  | nil =>
    have hrest : rest = front ++ back := h.bytes_eq.symm
    subst hrest
    refine ⟨front, ⟨by simp [endingWithin], by simp [endingWithin], ?_⟩, ?_⟩
    · intro frame more hfront
      apply h.rest_ne frame (more ++ back)
      rw [← List.append_assoc, ← hfront]
    · simp only [List.flatten_nil, List.length_nil, Nat.zero_add]
      split
      · next hsize => rw [headerFault?_append hsize]
      · next hsize => exact headerFault?_of_short (by omega)
  | cons frame frames ih =>
    have haccepted := h.accepted frame (by simp)
    have hfrontPrefix : front <+: front ++ back := List.prefix_append _ _
    have hframePrefix : frame <+: front ++ back := by
      rw [h.bytes_eq, List.flatten_cons, List.append_assoc]
      apply List.prefix_append
    by_cases hle : frame.length ≤ front.length
    · -- The first frame ends in front of the cut, and the others are cut as before.
      obtain ⟨front, rfl⟩ := List.prefix_of_prefix_length_le hframePrefix hfrontPrefix hle
      rw [List.append_assoc] at h
      obtain ⟨rest', hfront, hfault⟩ := ih h.tail
      refine ⟨rest', ?_, ?_⟩
      · rw [endingWithin_append]
        apply hfront.cons haccepted
      · rw [hfault]
        simp only [List.flatten_cons, List.length_append, Nat.add_assoc, Nat.add_le_add_iff_left]
    · -- The cut lies inside the first frame, so no frame is there and no header is refused.
      obtain ⟨back', rfl⟩ := List.prefix_of_prefix_length_le hfrontPrefix hframePrefix (by omega)
      refine ⟨front, ?_, ?_⟩
      · rw [endingWithin, if_neg hle]
        apply of_inside haccepted
        rintro rfl
        simp at hle
      · rw [headerFault?_of_inside haccepted]
        rw [if_neg]
        simp only [List.flatten_cons, List.length_append] at *
        omega

end Frames

theorem feed_push (stream : FrameStream) (pieces : List Bytes) :
    feed push stream pieces
      =
    ((feed (cutter stream.limit).push stream.held pieces).1,
      { stream with held := (feed (cutter stream.limit).push stream.held pieces).2 }) := by
  apply feed_of_push_eq fun held => ({ stream with held } : FrameStream)
  intro held piece
  rfl

theorem push_ofLimit {limit : Nat} {bytes rest : Bytes} {frames : List Bytes}
    (h : Frames limit bytes frames rest) :
    (ofLimit limit).push bytes
      =
    match headerFault? limit rest with
    | some error => (.error error, ⟨limit, .header, rest⟩)
    | none => (.ok frames, ⟨limit, stateAt rest, rest⟩) := by
  have hdrain : (cutter limit).push ⟨.header, []⟩ bytes = _ := h.drain
  rw [push, ofLimit, hdrain]
  cases headerFault? limit rest <;> rfl

theorem feed_ofLimit_fst (limit : Nat) (pieces : List Bytes) :
    (feed push (ofLimit limit) pieces).1 = ((ofLimit limit).push pieces.flatten).1 := by
  rw [feed_push]
  apply (cutter_local limit).feed_fst (settled_fresh limit)

theorem feed_ofLimit_of_ok {limit : Nat} {pieces frames : List Bytes} {stream : FrameStream}
    (h : (ofLimit limit).push pieces.flatten = (.ok frames, stream)) :
    feed push (ofLimit limit) pieces = (.ok frames, stream) := by
  rcases hpush : (cutter limit).push ⟨.header, []⟩ pieces.flatten with ⟨error | items, held⟩
  · simp [push, ofLimit, hpush] at h
  · simp only [push, ofLimit, hpush, Prod.mk.injEq, Except.ok.injEq] at h
    obtain ⟨rfl, rfl⟩ := h
    rw [feed_push]
    rw [ofLimit]
    rw [(cutter_local limit).feed_of_push_ok (settled_fresh limit) hpush]

theorem feed_front {limit : Nat} {front frames : List Bytes} {back rest : Bytes}
    (h : Frames limit (front.flatten ++ back) frames rest) :
    (feed push (ofLimit limit) front).1
      =
    match
      if frames.flatten.length + FrameHeader.size ≤ front.flatten.length then
        headerFault? limit rest
      else none
    with
    | some error => .error error
    | none => .ok (endingWithin front.flatten.length frames) := by
  obtain ⟨rest', hfront, hfault⟩ := h.exists_front
  rw [feed_ofLimit_fst]
  rw [push_ofLimit hfront]
  rw [← hfault]
  cases headerFault? limit rest' <;> rfl

theorem outputs_of_feed_front {limit : Nat} {front frames outputs : List Bytes}
    {back rest : Bytes} (h : Frames limit (front.flatten ++ back) frames rest)
    (hok : (feed push (ofLimit limit) front).1 = .ok outputs) :
    outputs = endingWithin front.flatten.length frames
      ∧ (frames.flatten.length + FrameHeader.size ≤ front.flatten.length →
          headerFault? limit rest = none) := by
  rw [feed_front h] at hok
  split at hok
  · simp at hok
  · next hfault =>
    rw [Except.ok.injEq] at hok
    refine ⟨hok.symm, ?_⟩
    intro hle
    rw [if_pos hle] at hfault
    apply hfault

theorem fault_of_feed_front {limit : Nat} {front frames : List Bytes} {back rest : Bytes}
    {error : Failure} (h : Frames limit (front.flatten ++ back) frames rest)
    (herror : (feed push (ofLimit limit) front).1 = .error error) :
    headerFault? limit rest = some error
      ∧ frames.flatten.length + FrameHeader.size ≤ front.flatten.length := by
  rw [feed_front h] at herror
  split at herror
  · next hfault =>
    rw [Except.error.injEq] at herror
    rw [herror] at hfault
    split at hfault
    · next hle => exact ⟨hfault, hle⟩
    · simp at hfault
  · simp at herror

/--
In whatever pieces a stream arrives, its frames, what is left of it and its error are those of the
stream as a whole. The first push to fail is the one that completes the header that is refused, and
the pushes before it give the frames that end within their pieces.
-/
theorem feed_pieces (limit : Nat) (pieces : List Bytes) :
    let fed := feed push (ofLimit limit) pieces
    let whole := (ofLimit limit).push pieces.flatten
    fed.1 = whole.1
      ∧ (∀ items, whole.1 = .ok items → fed = whole)
      ∧ ∃ frames rest,
        Frames limit pieces.flatten frames rest
          ∧ (headerFault? limit rest = none →
              whole = (.ok frames, ⟨limit, stateAt rest, rest⟩))
          ∧ ∀ error, fed.1 = .error error →
            headerFault? limit rest = some error
              ∧ ∃ front piece back middle,
                pieces = front ++ piece :: back
                  ∧ feed push (ofLimit limit) front
                      = (.ok (endingWithin front.flatten.length frames), middle)
                  ∧ (middle.push piece).1 = .error error
                  ∧ front.flatten.length < frames.flatten.length + FrameHeader.size
                  ∧ frames.flatten.length + FrameHeader.size
                      ≤ front.flatten.length + piece.length := by
  intro fed whole
  obtain ⟨frames, rest, hframes⟩ := Frames.exists_of_bytes limit pieces.flatten
  refine ⟨feed_ofLimit_fst limit pieces, ?_, frames, rest, hframes, ?_, ?_⟩
  · intro items hok
    have hwhole : whole = (.ok items, whole.2) := Prod.ext hok rfl
    rw [hwhole]
    exact feed_ofLimit_of_ok hwhole
  · intro hfault
    have hwhole := push_ofLimit hframes
    rw [hfault] at hwhole
    exact hwhole
  · intro error herror
    obtain ⟨front, piece, back, outputs, middle, rfl, hfront, hpiece⟩ :=
      exists_of_feed_error (Prod.ext herror rfl : fed = (.error error, fed.2))
    have hbefore : Frames limit (front.flatten ++ (piece :: back).flatten) frames rest := by
      rw [← List.flatten_append]
      exact hframes
    have hbehind : Frames limit ((front ++ [piece]).flatten ++ back.flatten) frames rest := by
      rw [← List.flatten_append, List.append_assoc]
      exact hframes
    -- Up to the piece there is no error, and with it there is one.
    obtain ⟨rfl, hnone⟩ := outputs_of_feed_front hbefore (congrArg Prod.fst hfront)
    have hpieces : (feed push (ofLimit limit) (front ++ [piece])).1 = .error error := by
      rw [feed_append_of_ok hfront]
      rw [feed_cons_of_error hpiece]
      rfl
    obtain ⟨hfault, hle⟩ := fault_of_feed_front hbehind hpieces
    simp only [List.flatten_append, List.length_append, List.flatten_singleton] at hle
    refine ⟨hfault, front, piece, back, middle, rfl, hfront, by rw [hpiece], ?_, hle⟩
    apply Nat.lt_of_not_le
    intro hearly
    rw [hnone hearly] at hfault
    simp at hfault

end FrameStream

end CqlWire
