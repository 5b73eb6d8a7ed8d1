import CqlWire.Proofs.Dialect
import CqlWire.Segment.Packer

/-!
This module contains what can come of a single call to a packer, and what a listener hears of it.
-/

namespace CqlWire

structure Item (S : Type) where
  frame : Frame
  state : S
  order : PayloadOrder

namespace Item

variable {S : Type}

def written (dialect : Dialect) (item : Item S) : Written :=
  (dialect.inOrder item.order).write item.frame none

def bytes (dialect : Dialect) (item : Item S) : Bytes :=
  (item.written dialect).bytes

def Writable (dialect : Dialect) (item : Item S) : Prop :=
  item.frame.version.hasSegments = true ∧ (item.written dialect).fault = none

theorem Writable.written_eq {dialect : Dialect} {item : Item S} (h : item.Writable dialect) :
    item.written dialect = Written.ofBytes (item.bytes dialect) := by
  unfold Written.ofBytes bytes
  rw [← h.2]

end Item

def StatePolicy.Exact {S : Type} (policy : StatePolicy S) : Prop :=
  ∀ state count, (policy.split state count).length = count

namespace Packer

variable {S : Type}

inductive Call (S : Type)
  | add (item : Item S)
  | flush

def holding (packer : Packer S) (payload : Bytes) (states : List S) : Packer S :=
  { packer with payload, states }

def whole (packer : Packer S) : List (Segment × S) :=
  if packer.states.isEmpty then []
  else [(⟨packer.payload, true⟩, packer.policy.merge packer.states)]

def slices (packer : Packer S) (item : Item S) : List Bytes :=
  packer.limit.cut (item.bytes packer.dialect)

def parts (packer : Packer S) (item : Item S) : List S :=
  packer.policy.split item.state (packer.slices item).length

def sliced (packer : Packer S) (item : Item S) : List (Segment × S) :=
  ((packer.slices item).map (fun slice => ⟨slice, false⟩)).zip (packer.parts item)

def withDialect (packer : Packer S) (dialect : Dialect) : Packer S :=
  { packer with dialect }

theorem selfContained_of_mem_sliced {packer : Packer S} {item : Item S} {segment : Segment × S}
    (h : segment ∈ packer.sliced item) : segment.1.selfContained = false := by
  have := (List.of_mem_zip h).1
  rw [List.mem_map] at this
  obtain ⟨slice, _, hsegment⟩ := this
  rw [← hsegment]

def inOrder (packer : Packer S) (order : PayloadOrder) : Packer S :=
  packer.withDialect (packer.dialect.inOrder order)

def call (packer : Packer S) : Call S → Packed S
  | .add item =>
    let packed := (packer.inOrder item.order).add item.frame item.state
    ⟨packed.segments, packed.events, packed.packer.withDialect packer.dialect⟩
  | .flush =>
    let (segment?, events, packer) := packer.flush
    ⟨.ok segment?.toList, events, packer⟩

/-- What can come of a call: the segments that are ready, and the packer behind it. -/
inductive Outcome (packer : Packer S) :
    Call S → Except Failure (List (Segment × S)) → Packer S → Prop
  | refused {item : Item S} {error : Failure}
      (hwhy : item.Writable packer.dialect →
        ∃ count, (packer.policy.split item.state count).length ≠ count) :
      Outcome packer (.add item) (.error error) packer
  | sliced {item : Item S} (hwritable : item.Writable packer.dialect)
      (hlong : packer.limit.value < (item.bytes packer.dialect).length)
      (hparts : (packer.parts item).length = (packer.slices item).length) :
      Outcome packer (.add item) (.ok (packer.sliced item)) packer
  | collected {item : Item S} (hwritable : item.Writable packer.dialect)
      (hroom : packer.payload.length + (item.bytes packer.dialect).length ≤ packer.limit.value) :
      Outcome packer (.add item) (.ok [])
        (packer.holding (packer.payload ++ item.bytes packer.dialect)
          (packer.states ++ [item.state]))
  | overflowed {item : Item S} (hwritable : item.Writable packer.dialect)
      (hshort : (item.bytes packer.dialect).length ≤ packer.limit.value) :
      Outcome packer (.add item) (.ok packer.whole)
        (packer.holding (item.bytes packer.dialect) [item.state])
  | flushed : Outcome packer .flush (.ok packer.whole) (packer.holding [] [])

/-- Why an item is refused. At most, a listener has heard by then that it would be cut. -/
inductive Refuses (packer : Packer S) (item : Item S) : Failure → List PackingEvent → Prop
  | unsegmented (h : item.frame.version.hasSegments = false) :
      Refuses packer item (.protocol (.unsegmented item.frame.version)) []
  | unsized {error : Failure} (hsegments : item.frame.version.hasSegments = true)
      (h : packer.dialect.bodySize item.frame = .error error) :
      Refuses packer item error []
  | short {error : Failure} {bodySize : Nat}
      (hsegments : item.frame.version.hasSegments = true)
      (hsize : packer.dialect.bodySize item.frame = .ok bodySize)
      (hshort : FrameHeader.size + bodySize ≤ packer.limit.value)
      (h : (item.written packer.dialect).toExcept = .error error) :
      Refuses packer item error []
  | long {error : Failure} {bodySize : Nat}
      (hsegments : item.frame.version.hasSegments = true)
      (hsize : packer.dialect.bodySize item.frame = .ok bodySize)
      (hlong : packer.limit.value < FrameHeader.size + bodySize)
      (h : (item.written packer.dialect).toExcept = .error error) :
      Refuses packer item error
        [.split item.frame (FrameHeader.size + bodySize)
          ((FrameHeader.size + bodySize + packer.limit.value - 1) / packer.limit.value)]
  | parts (hwritable : item.Writable packer.dialect)
      (hlong : packer.limit.value < (item.bytes packer.dialect).length)
      (h : (packer.parts item).length ≠ (packer.slices item).length) :
      Refuses packer item
        (.protocol (.stateParts (packer.parts item).length (packer.slices item).length))
        [.split item.frame (item.bytes packer.dialect).length
          (packer.slices item).length]

/-- What a packer answers a call: segments that are ready, or why not, and what a listener hears. -/
inductive Answer (packer : Packer S) :
    Call S → Except Failure (List (Segment × S)) → List PackingEvent → Packer S → Prop
  | refused {item : Item S} {error : Failure} {events : List PackingEvent}
      (h : Refuses packer item error events) :
      Answer packer (.add item) (.error error) events packer
  | sliced {item : Item S} (hwritable : item.Writable packer.dialect)
      (hlong : packer.limit.value < (item.bytes packer.dialect).length)
      (hparts : (packer.parts item).length = (packer.slices item).length) :
      Answer packer (.add item) (.ok (packer.sliced item))
        [.split item.frame (item.bytes packer.dialect).length
          (packer.sliced item).length]
        packer
  | collected {item : Item S} (hwritable : item.Writable packer.dialect)
      (hroom : packer.payload.length + (item.bytes packer.dialect).length ≤ packer.limit.value) :
      Answer packer (.add item) (.ok [])
        [.added item.frame (item.bytes packer.dialect).length
          (packer.payload.length + (item.bytes packer.dialect).length) (packer.states.length + 1)]
        (packer.holding (packer.payload ++ item.bytes packer.dialect)
          (packer.states ++ [item.state]))
  | overflowed {item : Item S} (hwritable : item.Writable packer.dialect)
      (hshort : (item.bytes packer.dialect).length ≤ packer.limit.value)
      (hfull : packer.limit.value < packer.payload.length + (item.bytes packer.dialect).length)
      (hpending : 0 < packer.states.length) :
      Answer packer (.add item)
        (.ok [(⟨packer.payload, true⟩, packer.policy.merge packer.states)])
        [.full item.frame (item.bytes packer.dialect).length packer.payload.length
            packer.states.length,
          .flushed packer.payload.length packer.states.length,
          .added item.frame (item.bytes packer.dialect).length
            (item.bytes packer.dialect).length 1]
        (packer.holding (item.bytes packer.dialect) [item.state])
  | flushed (hpending : 0 < packer.states.length) :
      Answer packer .flush (.ok [(⟨packer.payload, true⟩, packer.policy.merge packer.states)])
        [.flushed packer.payload.length packer.states.length] (packer.holding [] [])
  | idle (hidle : packer.states = []) : Answer packer .flush (.ok []) [] packer

theorem Outcome.packer_eq_of_error {packer packer' : Packer S} {call : Call S} {error : Failure}
    (h : Outcome packer call (.error error) packer') : packer' = packer := by
  cases h
  rfl

theorem Outcome.empty_of_flush {packer packer' : Packer S}
    {segments : Except Failure (List (Segment × S))} (h : Outcome packer .flush segments packer') :
    packer'.payload = [] ∧ packer'.states = [] := by
  cases h
  exact ⟨rfl, rfl⟩

theorem whole_of_pending {packer : Packer S} (h : 0 < packer.states.length) :
    packer.whole = [(⟨packer.payload, true⟩, packer.policy.merge packer.states)] := by
  unfold whole
  rw [if_neg]
  rw [List.isEmpty_iff]
  exact List.length_pos_iff.1 h

theorem whole_of_idle {packer : Packer S} (h : packer.states = []) : packer.whole = [] := by
  unfold whole
  rw [if_pos (List.isEmpty_iff.2 h)]

theorem flush_of_pending {packer : Packer S} (h : 0 < packer.states.length) :
    packer.flush
      =
    (some (⟨packer.payload, true⟩, packer.policy.merge packer.states),
      packer.heard [.flushed packer.payload.length packer.states.length],
      packer.holding [] []) := by
  unfold flush
  rw [if_neg]
  · rfl
  · rw [List.isEmpty_iff]
    exact List.length_pos_iff.1 h

theorem flush_of_idle {packer : Packer S} (h : packer.states = []) :
    packer.flush = (none, [], packer) := by
  unfold flush
  rw [if_pos (List.isEmpty_iff.2 h)]

theorem heard_nil (packer : Packer S) : packer.heard [] = [] := by
  unfold heard
  split <;> rfl

theorem heard_append (packer : Packer S) (events events' : List PackingEvent) :
    packer.heard events ++ packer.heard events' = packer.heard (events ++ events') := by
  unfold heard
  split <;> rfl

theorem collect_eq (packer : Packer S) (frame : Frame) (encoded : Bytes) (state : S) :
    packer.collect frame encoded state
      =
    (packer.heard [.added frame encoded.length
        (packer.payload.length + encoded.length) (packer.states.length + 1)],
      packer.holding (packer.payload ++ encoded) (packer.states ++ [state])) := by
  unfold collect
  dsimp only
  rw [List.length_append, List.length_append]
  rfl

theorem length_sliced {packer : Packer S} {item : Item S}
    (h : (packer.parts item).length = (packer.slices item).length) :
    (packer.sliced item).length = (packer.slices item).length := by
  unfold sliced
  rw [List.length_zip, List.length_map]
  rw [h]
  apply Nat.min_self

theorem written_eq_write {dialect : Dialect} {item : Item S} {bodySize : Nat}
    (hsize : (dialect.inOrder item.order).bodySize item.frame = .ok bodySize) :
    (dialect.inOrder item.order).write item.frame (some bodySize) = item.written dialect :=
  Dialect.write_some hsize

theorem length_bytes {dialect : Dialect} {item : Item S} {bodySize : Nat}
    (hsize : (dialect.inOrder item.order).bodySize item.frame = .ok bodySize)
    (hwritable : item.Writable dialect) :
    (item.bytes dialect).length = FrameHeader.size + bodySize := by
  have hwritten := hwritable.written_eq
  rw [← written_eq_write hsize] at hwritten
  exact Dialect.length_of_write hwritten

theorem length_bytes_pos {dialect : Dialect} {item : Item S} (h : item.Writable dialect) :
    0 < (item.bytes dialect).length := by
  obtain ⟨_, _, _, _, _, _, _, heq⟩ := Dialect.write_eq_ofBytes_iff.1 h.written_eq
  rw [heq]
  rw [List.length_append, FrameHeader.length_encode]
  simp only [FrameHeader.size]
  omega

theorem writable_of_toExcept {dialect : Dialect} {item : Item S} {encoded : Bytes}
    (hsegments : item.frame.version.hasSegments = true)
    (h : (item.written dialect).toExcept = .ok encoded) :
    item.Writable dialect ∧ encoded = item.bytes dialect := by
  rw [Written.toExcept_eq_ok_iff] at h
  unfold Item.Writable Item.bytes
  rw [h]
  exact ⟨⟨hsegments, rfl⟩, rfl⟩

theorem not_writable_of_toExcept {dialect : Dialect} {item : Item S} {error : Failure}
    (h : (item.written dialect).toExcept = .error error) : ¬ item.Writable dialect := by
  intro hwritable
  rw [hwritable.written_eq] at h
  simp [Written.toExcept, Written.ofBytes] at h

section Answer

variable {packer : Packer S} {item : Item S} {bodySize : Nat} {packed : Packed S}

theorem answer_addLong (hsegments : item.frame.version.hasSegments = true)
    (hsize : packer.dialect.bodySize item.frame = .ok bodySize)
    (hlong : packer.limit.value < FrameHeader.size + bodySize)
    (hpacked : (packer.inOrder item.order).addLong item.frame bodySize item.state = packed) :
    ∃ events, packed.events = packer.heard events
      ∧ Answer packer (.add item) packed.segments events
          (packed.packer.withDialect packer.dialect) := by
  unfold addLong inOrder withDialect at hpacked
  dsimp only at hpacked
  rw [written_eq_write hsize] at hpacked
  split at hpacked
  · next error herror =>
    subst hpacked
    exact ⟨_, rfl, .refused (.long hsegments hsize hlong herror)⟩
  · next encoded hencoded =>
    obtain ⟨hwritable, rfl⟩ := writable_of_toExcept hsegments hencoded
    have hlength := length_bytes hsize hwritable
    have hcount : (FrameHeader.size + bodySize + packer.limit.value - 1) / packer.limit.value
        = (packer.slices item).length := by
      rw [slices, PayloadLimit.cut, Bytes.length_chunks, hlength]
    rw [hcount] at hpacked
    rw [← hlength] at hpacked hlong
    split at hpacked
    · next hparts =>
      subst hpacked
      refine ⟨_, ?_, .sliced hwritable hlong hparts⟩
      rw [length_sliced hparts]
      rfl
    · next hparts =>
      subst hpacked
      exact ⟨_, rfl, .refused (.parts hwritable hlong hparts)⟩

theorem answer_addShort (hsegments : item.frame.version.hasSegments = true)
    (hsize : packer.dialect.bodySize item.frame = .ok bodySize)
    (hshort : FrameHeader.size + bodySize ≤ packer.limit.value)
    (hpile : packer.states = [] → packer.payload = [])
    (hpacked : (packer.inOrder item.order).addShort item.frame bodySize item.state = packed) :
    ∃ events, packed.events = packer.heard events
      ∧ Answer packer (.add item) packed.segments events
          (packed.packer.withDialect packer.dialect) := by
  have hdialect : (packer.inOrder item.order).dialect = packer.dialect.inOrder item.order := rfl
  unfold addShort at hpacked
  rw [hdialect] at hpacked
  rw [written_eq_write hsize] at hpacked
  split at hpacked
  · next error herror =>
    subst hpacked
    exact ⟨[], (heard_nil packer).symm, .refused (.short hsegments hsize hshort herror)⟩
  · next encoded hencoded =>
    obtain ⟨hwritable, rfl⟩ := writable_of_toExcept hsegments hencoded
    rw [← length_bytes hsize hwritable] at hshort
    split at hpacked
    · next hfull =>
      -- An item that is too long only for what is left finds others there.
      have hpending : 0 < packer.states.length := by
        apply List.length_pos_iff.2
        intro hidle
        change packer.limit.value < packer.payload.length + _ at hfull
        rw [hpile hidle, List.length_nil, Nat.zero_add] at hfull
        exact Nat.not_lt_of_le hshort hfull
      rw [flush_of_pending (show 0 < (packer.inOrder item.order).states.length from hpending)]
        at hpacked
      simp only [collect_eq] at hpacked
      subst hpacked
      refine ⟨_, ?_, .overflowed hwritable hshort hfull hpending⟩
      change packer.heard _ ++ packer.heard _ ++ packer.heard _ = _
      rw [heard_append, heard_append]
      dsimp only [holding]
      rw [List.length_nil, Nat.zero_add]
      rfl
    · next hroom =>
      rw [collect_eq] at hpacked
      subst hpacked
      exact ⟨_, rfl, .collected hwritable (Nat.le_of_not_lt hroom)⟩

end Answer

theorem answer_add (packer : Packer S) (item : Item S)
    (h : packer.states = [] → packer.payload = []) :
    ∃ events, (packer.call (.add item)).events = packer.heard events
      ∧ Answer packer (.add item) (packer.call (.add item)).segments events
          (packer.call (.add item)).packer := by
  unfold call
  dsimp only
  generalize hpacked : (packer.inOrder item.order).add item.frame item.state = packed
  unfold add at hpacked
  split at hpacked
  · next hsegments =>
    -- The order of the payload makes no difference to the size.
    have hunordered : (packer.inOrder item.order).dialect.bodySize item.frame
        = packer.dialect.bodySize item.frame := rfl
    rw [hunordered] at hpacked
    split at hpacked
    · next error hsize =>
      subst hpacked
      exact ⟨[], (heard_nil packer).symm, .refused (.unsized hsegments hsize)⟩
    · next bodySize hsize =>
      split at hpacked
      · next hlong => exact answer_addLong hsegments hsize hlong hpacked
      · next hlong => exact answer_addShort hsegments hsize (Nat.le_of_not_lt hlong) h hpacked
  · next hsegments =>
    subst hpacked
    exact ⟨[], (heard_nil packer).symm, .refused (.unsegmented (Bool.eq_false_iff.2 hsegments))⟩

theorem answer_call (packer : Packer S) (call : Call S)
    (h : packer.states = [] → packer.payload = []) :
    ∃ events, (packer.call call).events = packer.heard events
      ∧ Answer packer call (packer.call call).segments events (packer.call call).packer := by
  cases call with
  | add item => exact answer_add packer item h
  | flush =>
    unfold Packer.call
    dsimp only
    rcases Nat.eq_zero_or_pos packer.states.length with hidle | hpending
    · have hidle := List.length_eq_zero_iff.1 hidle
      rw [flush_of_idle hidle]
      exact ⟨[], (heard_nil packer).symm, .idle hidle⟩
    · rw [flush_of_pending hpending]
      exact ⟨_, rfl, .flushed hpending⟩

theorem Refuses.exists_parts {packer : Packer S} {item : Item S} {error : Failure}
    {events : List PackingEvent} (h : Refuses packer item error events)
    (hwritable : item.Writable packer.dialect) :
    ∃ count, (packer.policy.split item.state count).length ≠ count := by
  cases h with
  | unsegmented h =>
    rw [hwritable.1] at h
    cases h
  | unsized _ h =>
    obtain ⟨bodySize, hbodySize⟩ := Dialect.bodySize_of_write hwritable.written_eq
    cases h.symm.trans hbodySize
  | short _ _ _ h => exact absurd hwritable (not_writable_of_toExcept h)
  | long _ _ _ h => exact absurd hwritable (not_writable_of_toExcept h)
  | parts _ _ h => exact ⟨_, h⟩

theorem Answer.outcome {packer packer' : Packer S} {call : Call S}
    {segments : Except Failure (List (Segment × S))} {events : List PackingEvent}
    (h : Answer packer call segments events packer')
    (hpile : packer.states = [] → packer.payload = []) :
    Outcome packer call segments packer' := by
  cases h with
  | refused h => exact .refused h.exists_parts
  | sliced hwritable hlong hparts => exact .sliced hwritable hlong hparts
  | collected hwritable hroom => exact .collected hwritable hroom
  | overflowed hwritable hshort _ hpending =>
    rw [← whole_of_pending hpending]
    exact .overflowed hwritable hshort
  | flushed hpending =>
    rw [← whole_of_pending hpending]
    exact .flushed
  | idle hidle =>
    have hholding : packer.holding [] [] = packer := by
      unfold holding
      rw [← hidle]
      rw [← hpile hidle]
    have houtcome : Outcome packer .flush (.ok packer.whole) (packer.holding [] []) := .flushed
    rw [whole_of_idle hidle, hholding] at houtcome
    exact houtcome

theorem outcome_call (packer : Packer S) (call : Call S)
    (h : packer.states = [] → packer.payload = []) :
    Outcome packer call (packer.call call).segments (packer.call call).packer := by
  obtain ⟨_, _, hanswer⟩ := answer_call packer call h
  exact hanswer.outcome h

theorem dialect_flush (packer : Packer S) : packer.flush.2.2.dialect = packer.dialect := by
  unfold flush
  split <;> rfl

theorem dialect_addShort (packer : Packer S) (frame : Frame) (bodySize : Nat) (state : S) :
    (packer.addShort frame bodySize state).packer.dialect = packer.dialect := by
  unfold addShort
  split
  · rfl
  · split
    · exact packer.dialect_flush
    · rfl

theorem dialect_addLong (packer : Packer S) (frame : Frame) (bodySize : Nat) (state : S) :
    (packer.addLong frame bodySize state).packer.dialect = packer.dialect := by
  unfold addLong
  split
  · rfl
  · dsimp only
    split <;> rfl

theorem dialect_add (packer : Packer S) (frame : Frame) (state : S) :
    (packer.add frame state).packer.dialect = packer.dialect := by
  unfold add
  split
  · split
    · rfl
    · split
      · apply dialect_addLong
      · apply dialect_addShort
  · rfl

theorem dialect_call (packer : Packer S) (call : Call S) :
    (packer.call call).packer.dialect = packer.dialect := by
  cases call with
  | add item => rfl
  | flush => exact packer.dialect_flush

theorem call_add_of_order {packer : Packer S} {item : Item S}
    (h : packer.dialect.payloadOrder = item.order) :
    packer.call (.add item) = packer.add item.frame item.state := by
  have horder : packer.inOrder item.order = packer := by
    unfold inOrder withDialect Dialect.inOrder
    rw [← h]
  unfold call
  dsimp only
  rw [horder]
  unfold withDialect
  rw [← packer.dialect_add item.frame item.state]

end Packer

end CqlWire
