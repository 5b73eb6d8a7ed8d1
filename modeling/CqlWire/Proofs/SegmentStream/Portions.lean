import CqlWire.Proofs.SegmentStream

/-!
This module contains what a stream of segments comes to, whatever the pieces in which it arrives. It
is taken in portions, each a segment or something damaged in its place, and what follows a damaged
portion is read as if the stream began there.
-/

namespace CqlWire

namespace SegmentStream

variable {compressor : Compressor}

/--
What is taken off a stream at once: a header that is damaged, or an intact one with the payload and
the trailer that it announces.
-/
inductive Portion (compressor : Compressor) : Bytes → Except Failure Segment → Prop
  | header {front : Bytes} {error : Failure}
      (hfront : front.length = SegmentHeader.size compressor)
      (hread : (SegmentHeader.read compressor front).1 = .error error) :
      Portion compressor front (.error error)
  | segment {front body : Bytes} {header : SegmentHeader}
      (hfront : front.length = SegmentHeader.size compressor)
      (hread : (SegmentHeader.read compressor front).1 = .ok header)
      (hbody : body.length = header.payloadLength + Segment.trailerSize) :
      Portion compressor (front ++ body) (Segment.decode compressor header body)

/-- Where a damaged portion ends: behind the header, or behind the trailer that it leads to. -/
def EndsAt (compressor : Compressor) (portion : Bytes) : Failure → Prop
  | .checksum .header _ _ => portion.length = SegmentHeader.size compressor
  | .checksum .payload _ _ | .compression _ =>
    ∃ front body header,
      portion = front ++ body
        ∧ front.length = SegmentHeader.size compressor
        ∧ (SegmentHeader.read compressor front).1 = .ok header
        ∧ body.length = header.payloadLength + Segment.trailerSize
  | _ => False

def cutOf (outcome : Except Failure Segment) (rest : Bytes) : Cut State Segment :=
  match outcome with
  | .ok segment => .item segment .header rest
  | .error error => .fail error .header rest

theorem header_of_read_error {front : Bytes} {error : Failure}
    (hfront : front.length = SegmentHeader.size compressor)
    (h : (SegmentHeader.read compressor front).1 = .error error) :
    ∃ expected actual, error = .checksum .header expected actual := by
  unfold SegmentHeader.read at h
  rw [Reader.bind_apply, Reader.take_apply] at h
  rw [if_pos (Nat.le_of_eq hfront.symm)] at h
  dsimp only at h
  split at h
  · cases h
  · simp only [Reader.fail, Except.error.injEq] at h
    exact ⟨_, _, h.symm⟩

theorem compression_of_expand_error {header : SegmentHeader} {payload : Bytes} {error : Failure}
    (h : Segment.expand compressor header payload = .error error) :
    ∃ fault, error = .compression fault := by
  unfold Segment.expand at h
  split at h
  · simp at h
  · split at h
    · simp at h
    · cases compressor with
      | none => simp [Compressor.decompressPayload] at h
      | lz4With blocks =>
        simp only [Compressor.decompressPayload, Compressor.expandBlock] at h
        split at h
        · simp only [Except.error.injEq] at h
          exact ⟨_, h.symm⟩
        · split at h
          · simp at h
          · simp only [Except.error.injEq] at h
            exact ⟨_, h.symm⟩

theorem payload_of_decode_error {header : SegmentHeader} {body : Bytes} {error : Failure}
    (hbody : body.length = header.payloadLength + Segment.trailerSize)
    (h : Segment.decode compressor header body = .error error) :
    (∃ expected actual, error = .checksum .payload expected actual)
      ∨ ∃ fault, error = .compression fault := by
  unfold Segment.decode at h
  dsimp only at h
  rw [if_neg (by rw [hbody]; simp)] at h
  split at h
  · right
    cases hexpand : Segment.expand compressor header (body.take header.payloadLength) with
    | error failure =>
      rw [hexpand] at h
      simp only [bind, Except.bind, Except.error.injEq] at h
      rw [← h]
      apply compression_of_expand_error hexpand
    | ok payload => simp [hexpand, bind, Except.bind] at h
  · left
    simp only [Except.error.injEq] at h
    exact ⟨_, _, h.symm⟩

namespace Portion

variable {portion portion' more more' : Bytes} {outcome outcome' : Except Failure Segment}

theorem endsAt {error : Failure} (h : Portion compressor portion (.error error)) :
    EndsAt compressor portion error := by
  generalize hresult : (.error error : Except Failure Segment) = result at h
  cases h with
  | header hfront hread =>
    simp only [Except.error.injEq] at hresult
    subst hresult
    obtain ⟨expected, actual, rfl⟩ := header_of_read_error hfront hread
    exact hfront
  | @segment front body header hfront hread hbody =>
    rcases payload_of_decode_error hbody hresult.symm with ⟨expected, actual, rfl⟩ | ⟨fault, rfl⟩
    · exact ⟨front, body, header, rfl, hfront, hread, hbody⟩
    · exact ⟨front, body, header, rfl, hfront, hread, hbody⟩

theorem next_eq (h : Portion compressor portion outcome) (more : Bytes) :
    next compressor .header (portion ++ more) = cutOf outcome more := by
  cases h with
  | header hfront hread =>
    have hsplit := Bytes.split?_append portion more
    rw [hfront] at hsplit
    rw [next_of_some hsplit]
    rw [hread]
    rfl
  | @segment front body header hfront hread hbody =>
    have hsplit := Bytes.split?_append front (body ++ more)
    rw [hfront] at hsplit
    have hsplit' := Bytes.split?_append body more
    rw [hbody] at hsplit'
    rw [List.append_assoc]
    rw [next_of_some hsplit]
    rw [hread]
    dsimp only
    rw [nextPayload_of_some hsplit']
    rfl

theorem eq_of_append_eq (h : Portion compressor portion outcome)
    (h' : Portion compressor portion' outcome') (heq : portion ++ more = portion' ++ more') :
    portion = portion' ∧ outcome = outcome' ∧ more = more' := by
  have hnext := h.next_eq more
  rw [heq] at hnext
  rw [h'.next_eq more'] at hnext
  have hboth : outcome = outcome' ∧ more = more' := by
    cases outcome <;> cases outcome' <;> simp_all [cutOf]
  obtain ⟨rfl, rfl⟩ := hboth
  exact ⟨List.append_cancel_right heq, rfl, rfl⟩

end Portion

/-- What is held of bytes in front of which no portion is whole. -/
def waitingAt (compressor : Compressor) (bytes : Bytes) : Held State :=
  match bytes.split? (SegmentHeader.size compressor) with
  | none => ⟨.header, bytes⟩
  | some (front, body) =>
    match (SegmentHeader.read compressor front).1 with
    | .ok header => ⟨.payload header, body⟩
    | .error _ => ⟨.header, bytes⟩

theorem next_of_no_portion {rest : Bytes}
    (h : ∀ portion more outcome, rest = portion ++ more → ¬ Portion compressor portion outcome) :
    next compressor .header rest
      =
    .wait (waitingAt compressor rest).state (waitingAt compressor rest).bytes := by
  cases hsplit : rest.split? (SegmentHeader.size compressor) with
  | none => simp only [next, waitingAt, hsplit]
  | some parts =>
    obtain ⟨front, body⟩ := parts
    have hrest := Bytes.append_of_split? hsplit
    have hfront := (Bytes.length_of_split? hsplit).1
    rw [next_of_some hsplit]
    simp only [waitingAt, hsplit]
    cases hread : (SegmentHeader.read compressor front).1 with
    | error error => exact absurd (.header hfront hread) (h front body _ hrest.symm)
    | ok header =>
      dsimp only
      cases hsplit' : body.split? (header.payloadLength + Segment.trailerSize) with
      | none => simp only [nextPayload, hsplit']
      | some parts' =>
        obtain ⟨body', more⟩ := parts'
        have hbody := (Bytes.length_of_split? hsplit').1
        exfalso
        apply h (front ++ body') more _ _ (.segment hfront hread hbody)
        rw [List.append_assoc, Bytes.append_of_split? hsplit', hrest]

/-- Bytes are segments, one behind the other, and a rest that does not start with a whole one. -/
structure Segments (compressor : Compressor) (bytes : Bytes) (sent : List (Bytes × Segment))
    (rest : Bytes) : Prop where
  bytes_eq : bytes = sent.flatMap (·.1) ++ rest
  portion : ∀ segment ∈ sent, Portion compressor segment.1 (.ok segment.2)
  rest_ne : ∀ portion more segment, rest = portion ++ more →
    ¬ Portion compressor portion (.ok segment)

def Intact (compressor : Compressor) (rest : Bytes) : Prop :=
  ∀ portion more error, rest = portion ++ more → ¬ Portion compressor portion (.error error)

def completedWithin : (length : Nat) → List (Bytes × Segment) → List Segment
  | _, [] => []
  | length, segment :: rest =>
    if segment.1.length ≤ length then
      segment.2 :: completedWithin (length - segment.1.length) rest
    else []

theorem completedWithin_append (segment : Bytes × Segment) (front : Bytes)
    (sent : List (Bytes × Segment)) :
    completedWithin (segment.1 ++ front).length (segment :: sent)
      =
    segment.2 :: completedWithin front.length sent := by
  rw [completedWithin]
  rw [List.length_append, Nat.add_sub_cancel_left]
  apply if_pos
  omega

namespace Segments

variable {bytes rest portion behind : Bytes} {sent : List (Bytes × Segment)}

theorem cons {segment : Segment} (hportion : Portion compressor portion (.ok segment))
    (h : Segments compressor bytes sent rest) :
    Segments compressor (portion ++ bytes) ((portion, segment) :: sent) rest where
  bytes_eq := by
    rw [List.flatMap_cons, List.append_assoc]
    rw [← h.bytes_eq]
  portion := List.forall_mem_cons.2 ⟨hportion, h.portion⟩
  rest_ne := h.rest_ne

theorem tail {segment : Bytes × Segment}
    (h : Segments compressor (segment.1 ++ bytes) (segment :: sent) rest) :
    Segments compressor bytes sent rest where
  bytes_eq := by
    have hbytes := h.bytes_eq
    rw [List.flatMap_cons, List.append_assoc] at hbytes
    apply List.append_cancel_left hbytes
  portion := (List.forall_mem_cons.1 h.portion).2
  rest_ne := h.rest_ne

theorem exists_of_bytes (compressor : Compressor) (bytes : Bytes) :
    ∃ sent rest, Segments compressor bytes sent rest := by
  generalize hn : bytes.length = n
  induction n using Nat.strongRecOn generalizing bytes with
  | ind n ih =>
    by_cases h : ∃ portion more segment, bytes = portion ++ more
        ∧ Portion compressor portion (.ok segment)
    · obtain ⟨portion, more, segment, rfl, hportion⟩ := h
      have hlt := length_lt_of_next (hportion.next_eq more)
      obtain ⟨sent, rest, hsent⟩ := ih more.length (by omega) more rfl
      exact ⟨(portion, segment) :: sent, rest, hsent.cons hportion⟩
    · refine ⟨[], bytes, by simp, by simp, ?_⟩
      intro portion more segment hbytes hportion
      apply h
      exact ⟨portion, more, segment, hbytes, hportion⟩

theorem drain_eq (h : Segments compressor bytes sent rest) :
    (cutter compressor).drain ⟨.header, bytes⟩
      =
    prepend (sent.map (·.2)) ((cutter compressor).drain ⟨.header, rest⟩) := by
  obtain ⟨rfl, hportion, -⟩ := h
  induction sent with
  | nil => simp
  | cons segment sent ih =>
    have hnext := (hportion segment (by simp)).next_eq (sent.flatMap (·.1) ++ rest)
    rw [List.flatMap_cons, List.append_assoc]
    rw [Cutter.drain_of_item hnext]
    rw [ih (by intro segment' hmem; apply hportion; simp [hmem])]
    rw [prepend_prepend]
    rfl

theorem not_portion (h : Segments compressor bytes sent rest) (hintact : Intact compressor rest)
    (portion more : Bytes) (outcome : Except Failure Segment) (hrest : rest = portion ++ more) :
    ¬ Portion compressor portion outcome := by
  cases outcome with
  | ok segment => exact h.rest_ne portion more segment hrest
  | error error => exact hintact portion more error hrest

theorem drain_of_intact (h : Segments compressor bytes sent rest)
    (hintact : Intact compressor rest) :
    (cutter compressor).drain ⟨.header, bytes⟩
      =
    (.ok (sent.map (·.2)), waitingAt compressor rest) := by
  rw [h.drain_eq]
  rw [Cutter.drain_of_wait (next_of_no_portion (h.not_portion hintact))]
  simp

theorem drain_of_damaged {error : Failure}
    (h : Segments compressor bytes sent (portion ++ behind))
    (hportion : Portion compressor portion (.error error)) :
    (cutter compressor).drain ⟨.header, bytes⟩ = (.error error, ⟨.header, behind⟩) := by
  rw [h.drain_eq]
  rw [Cutter.drain_of_fail (hportion.next_eq behind)]
  rfl

theorem intact_or_damaged (compressor : Compressor) (bytes : Bytes) :
    (∃ sent rest, Segments compressor bytes sent rest ∧ Intact compressor rest)
      ∨ ∃ sent portion behind error,
        Segments compressor bytes sent (portion ++ behind)
          ∧ Portion compressor portion (.error error) := by
  obtain ⟨sent, rest, hsent⟩ := exists_of_bytes compressor bytes
  by_cases h : ∃ portion behind error, rest = portion ++ behind
      ∧ Portion compressor portion (.error error)
  · right
    obtain ⟨portion, behind, error, rfl, hportion⟩ := h
    exact ⟨sent, portion, behind, error, hsent, hportion⟩
  · left
    refine ⟨sent, rest, hsent, ?_⟩
    intro portion behind error hrest hportion
    apply h
    exact ⟨portion, behind, error, hrest, hportion⟩

theorem of_damaged {error : Failure}
    (hsent : ∀ segment ∈ sent, Portion compressor segment.1 (.ok segment.2))
    (hportion : Portion compressor portion (.error error))
    (hbytes : bytes = sent.flatMap (·.1) ++ (portion ++ behind)) :
    Segments compressor bytes sent (portion ++ behind) where
  bytes_eq := hbytes
  portion := hsent
  rest_ne := by
    intro portion' more segment hrest hportion'
    have houtcome := (hportion.eq_of_append_eq hportion' hrest).2.1
    simp at houtcome

theorem completedWithin_front {front back rest' : Bytes} {sent' : List (Bytes × Segment)}
    (h : Segments compressor (front ++ back) sent rest)
    (h' : Segments compressor front sent' rest') :
    completedWithin front.length sent = sent'.map (·.2) := by
  -- By induction on the segments in front of the cut, which are the first of all segments.
  induction sent' generalizing front sent with
  | nil =>
    have hfront : front = rest' := h'.bytes_eq
    cases sent with
    | nil => rfl
    | cons segment sent =>
      rw [completedWithin]
      apply if_neg
      intro hle
      have hprefix : segment.1 <+: front ++ back := by
        rw [h.bytes_eq, List.flatMap_cons, List.append_assoc]
        apply List.prefix_append
      have hprefix' : front <+: front ++ back := List.prefix_append _ _
      obtain ⟨more, hmore⟩ := List.prefix_of_prefix_length_le hprefix hprefix' hle
      apply h'.rest_ne segment.1 more segment.2
      · rw [← hfront, hmore]
      · apply h.portion segment (by simp)
  | cons segment' sent' ih =>
    have hsegment' := h'.portion segment' (by simp)
    have hfront := h'.bytes_eq
    rw [List.flatMap_cons, List.append_assoc] at hfront
    cases sent with
    | nil =>
      have hrest : rest = front ++ back := h.bytes_eq.symm
      exfalso
      apply h.rest_ne segment'.1 _ segment'.2 _ hsegment'
      · exact sent'.flatMap (·.1) ++ rest' ++ back
      · rw [hrest, hfront]
        rw [List.append_assoc]
    | cons segment sent =>
      have hbytes := h.bytes_eq
      rw [List.flatMap_cons, List.append_assoc] at hbytes
      rw [hfront, List.append_assoc] at hbytes
      obtain ⟨hportion, houtcome, -⟩ :=
        hsegment'.eq_of_append_eq (h.portion segment (by simp)) hbytes
      have hsegment : segment' = segment := Prod.ext hportion (Except.ok.inj houtcome)
      subst hsegment
      subst hfront
      rw [List.append_assoc] at h
      rw [completedWithin_append]
      rw [ih h.tail h'.tail]
      rfl

end Segments

end SegmentStream

end CqlWire
