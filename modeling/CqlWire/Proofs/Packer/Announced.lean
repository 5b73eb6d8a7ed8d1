import CqlWire.Proofs.Packer.Books
import Mathlib.Algebra.Ring.Nat

/-!
This module contains that a listener can keep the books of a packer: what it hears accounts for each
frame that is collected and each segment that leaves, however the calls are mixed.
-/

namespace CqlWire

/-- What a listener can know of the frames that are being collected. -/
structure Pile where
  length : Nat
  count : Nat
deriving Repr, DecidableEq

namespace PackingEvent

def added? : PackingEvent → Option Nat
  | .added _ frameLength _ _ => some frameLength
  | _ => none

def flushed? : PackingEvent → Option Pile
  | .flushed payloadLength frameCount => some ⟨payloadLength, frameCount⟩
  | _ => none

/-- An event tells of a pile as it is, or of what it becomes. -/
inductive Tells : Pile → PackingEvent → Pile → Prop
  | split {pile : Pile} {frame : Frame} {frameLength slices : Nat} :
      Tells pile (.split frame frameLength slices) pile
  | full {pile : Pile} {frame : Frame} {frameLength : Nat} (h : 0 < pile.count) :
      Tells pile (.full frame frameLength pile.length pile.count) pile
  | added {pile : Pile} {frame : Frame} {frameLength length count : Nat}
      (hlength : length = pile.length + frameLength) (hcount : count = pile.count + 1) :
      Tells pile (.added frame frameLength length count) ⟨length, count⟩
  | flushed {pile : Pile} (h : 0 < pile.count) :
      Tells pile (.flushed pile.length pile.count) ⟨0, 0⟩

/-- Each event tells of the pile that is left by the one before. -/
inductive Retell : Pile → List PackingEvent → Pile → Prop
  | nil (pile : Pile) : Retell pile [] pile
  | cons {pile middle pile' : Pile} {event : PackingEvent} {events : List PackingEvent}
      (h : Tells pile event middle) (hrest : Retell middle events pile') :
      Retell pile (event :: events) pile'

variable {pile middle pile' : Pile} {event : PackingEvent} {events events' : List PackingEvent}

theorem Tells.retell (h : Tells pile event pile') : Retell pile [event] pile' :=
  .cons h (.nil pile')

theorem Retell.append (h : Retell pile events middle) (h' : Retell middle events' pile') :
    Retell pile (events ++ events') pile' := by
  induction h with
  | nil => exact h'
  | cons hevent _ ih => exact .cons hevent (ih h')

def addedCount (events : List PackingEvent) : Nat := (events.filterMap added?).length

def addedLength (events : List PackingEvent) : Nat := (events.filterMap added?).sum

def flushedCount (events : List PackingEvent) : Nat :=
  ((events.filterMap flushed?).map (·.count)).sum

def flushedLength (events : List PackingEvent) : Nat :=
  ((events.filterMap flushed?).map (·.length)).sum

theorem Retell.balanced (h : Retell pile events pile') :
    pile.count + addedCount events = flushedCount events + pile'.count
      ∧ pile.length + addedLength events = flushedLength events + pile'.length := by
  unfold addedCount addedLength flushedCount flushedLength
  induction h with
  | nil => simp
  | cons hevent _ ih =>
    cases hevent with
    | split => exact ih
    | full => exact ih
    | added =>
      simp only [List.filterMap_cons, added?, flushed?, List.length_cons, List.sum_cons] at ih ⊢
      omega
    | flushed =>
      simp only [List.filterMap_cons, added?, flushed?, List.map_cons, List.sum_cons] at ih ⊢
      omega

end PackingEvent

namespace Packer

open PackingEvent (Tells Retell added? flushed?)

variable {S : Type}

def pile (packer : Packer S) : Pile := ⟨packer.payload.length, packer.states.length⟩

def heardIn (steps : List (Step S)) : List PackingEvent := steps.flatMap (·.packed.events)

def wholeLengths (segments : List (Segment × S)) : List Nat :=
  (segments.filter (·.1.selfContained)).map (·.1.payload.length)

theorem wholeLengths_append (segments segments' : List (Segment × S)) :
    wholeLengths (segments ++ segments') = wholeLengths segments ++ wholeLengths segments' := by
  unfold wholeLengths
  rw [List.filter_append]
  rw [List.map_append]

theorem wholeLengths_sliced (packer : Packer S) (item : Item S) :
    wholeLengths (packer.sliced item) = [] := by
  unfold wholeLengths
  rw [List.map_eq_nil_iff]
  rw [List.filter_eq_nil_iff]
  intro segment hmem
  rw [selfContained_of_mem_sliced hmem]
  exact Bool.false_ne_true

variable {packer packer' : Packer S} {call : Call S}
  {segments : Except Failure (List (Segment × S))} {events : List PackingEvent}

theorem Refuses.retell {item : Item S} {error : Failure} (h : Refuses packer item error events)
    (pile : Pile) : Retell pile events pile := by
  cases h with
  | unsegmented => apply Retell.nil
  | unsized => apply Retell.nil
  | short => apply Retell.nil
  | long => exact Tells.split.retell
  | parts => exact Tells.split.retell

theorem Answer.retell (h : Answer packer call segments events packer') :
    Retell packer.pile events packer'.pile := by
  cases h with
  | refused h => apply h.retell
  | sliced => exact Tells.split.retell
  | collected =>
    unfold pile holding
    dsimp only
    rw [List.length_append, List.length_append]
    exact (Tells.added rfl rfl).retell
  | overflowed _ _ _ hpending =>
    -- The pile is told as it is, then that it is gone, and then of the item that took its place.
    apply Retell.cons (.full hpending)
    apply Retell.cons (.flushed hpending)
    exact (Tells.added (Nat.zero_add _).symm rfl).retell
  | flushed hpending => exact (Tells.flushed hpending).retell
  | idle => apply Retell.nil

theorem Refuses.flushed_eq {item : Item S} {error : Failure} (h : Refuses packer item error events) :
    events.filterMap flushed? = [] := by
  cases h <;> rfl

theorem Answer.wholeLengths_eq (h : Answer packer call segments events packer') :
    wholeLengths (Step.emitted ⟨packer, call, ⟨segments, events, packer'⟩⟩)
      =
    (events.filterMap flushed?).map (·.length) := by
  cases h with
  | refused h =>
    rw [h.flushed_eq]
    rfl
  | sliced => apply wholeLengths_sliced
  | collected => rfl
  | overflowed => rfl
  | flushed => rfl
  | idle => rfl

def Step.Answered (step : Step S) : Prop :=
  Answer step.before step.call step.packed.segments step.packed.events step.packed.packer

theorem answered_of_mem_run {start : Packer S} {pending : List (Item S)}
    (hholds : Holds start packer pending) (hlistener : start.hasListener = true)
    {calls : List (Call S)} {step : Step S} (hmem : step ∈ (packer.run calls).1) :
    step.Answered := by
  obtain ⟨hpacked, pending', hbefore⟩ := holds_of_mem_run hholds hmem
  obtain ⟨events, hevents, hanswer⟩ := answer_call step.before step.call hbefore.payload_eq_nil
  have hheard : step.before.heard events = events := by
    unfold heard
    rw [hbefore.packer_eq]
    apply if_pos hlistener
  unfold Step.Answered
  rw [hpacked]
  rw [hevents, hheard]
  apply hanswer

theorem retell_run {calls : List (Call S)} (h : ∀ step ∈ (packer.run calls).1, step.Answered) :
    Retell packer.pile (heardIn (packer.run calls).1) (packer.run calls).2.pile := by
  induction calls generalizing packer with
  | nil => apply Retell.nil
  | cons call rest ih =>
    have hcall := h _ List.mem_cons_self
    have hrest := ih fun step hmem => h step (List.mem_cons_of_mem _ hmem)
    exact hcall.retell.append hrest

theorem wholeLengths_emitted {steps : List (Step S)} (h : ∀ step ∈ steps, step.Answered) :
    wholeLengths (emitted steps) = ((heardIn steps).filterMap flushed?).map (·.length) := by
  induction steps with
  | nil => rfl
  | cons step rest ih =>
    have hstep := (h step List.mem_cons_self).wholeLengths_eq
    have hrest := ih fun step hmem => h step (List.mem_cons_of_mem _ hmem)
    unfold emitted heardIn at hrest ⊢
    rw [List.flatMap_cons, List.flatMap_cons]
    rw [wholeLengths_append, List.filterMap_append, List.map_append]
    rw [hrest]
    rw [← hstep]

/--
A listener hears of each call exactly what came of it. So at any time the items that were collected
are those of the segments of which it heard and those that are still pending, and the same holds of
their bytes.
-/
theorem run_announced (dialect : Dialect) (policy : StatePolicy S) (limit : PayloadLimit)
    (calls : List (Call S)) :
    let start := ofLimit dialect policy limit true
    let steps := (start.run calls).1
    let last := (start.run calls).2
    let events := heardIn steps
    (∀ step ∈ steps,
        Answer step.before step.call step.packed.segments step.packed.events step.packed.packer)
      ∧ Retell ⟨0, 0⟩ events ⟨last.payload.length, last.states.length⟩
      ∧ PackingEvent.addedCount events = PackingEvent.flushedCount events + last.states.length
      ∧ PackingEvent.addedLength events
        = PackingEvent.flushedLength events + last.payload.length
      ∧ wholeLengths (emitted steps) = (events.filterMap flushed?).map (·.length) := by
  intro start steps last events
  have hanswered : ∀ step ∈ steps, step.Answered := fun step hmem =>
    answered_of_mem_run (Holds.ofLimit dialect policy limit true) rfl hmem
  have hretell : Retell ⟨0, 0⟩ events last.pile := retell_run hanswered
  obtain ⟨hcount, hlength⟩ := hretell.balanced
  rw [Nat.zero_add] at hcount hlength
  exact ⟨hanswered, hretell, hcount, hlength, wholeLengths_emitted hanswered⟩

theorem run_announced_overflow :
    let request : Frame := { Dialect.tracedRequest with version := .v5 }
    let long : Frame := { request with message := .authResponse (some (List.replicate 40 0)) }
    let start := ofLimit (Dialect.ofRole .client .none) .trivial ⟨50, by decide, by decide⟩ true
    let calls := [request, request, Dialect.tracedRequest, long, request].map fun frame =>
      Call.add ⟨frame, (), .byKey⟩
    let events : List PackingEvent :=
      [.added request 21 21 1, .added request 21 42 2, .split long 61 2, .full request 21 42 2,
        .flushed 42 2, .added request 21 21 1]
    heardIn (start.run calls).1 = events
      ∧ (start.run calls).2.states.length = 1
      ∧ (start.run calls).2.payload.length = 21 := by
  intro request long start calls events
  have hevents : heardIn (start.run calls).1 = events := by decide +kernel
  obtain ⟨_, _, hcount, hlength, _⟩ := run_announced (Dialect.ofRole .client .none) .trivial
    ⟨50, by decide, by decide⟩ calls
  have hadded : PackingEvent.addedCount events = 3 ∧ PackingEvent.addedLength events = 63 :=
    ⟨rfl, rfl⟩
  have hflushed : PackingEvent.flushedCount events = 2 ∧ PackingEvent.flushedLength events = 42 :=
    ⟨rfl, rfl⟩
  refine ⟨hevents, ?_, ?_⟩
  · have hcount : PackingEvent.addedCount (heardIn (start.run calls).1)
        = PackingEvent.flushedCount (heardIn (start.run calls).1)
          + (start.run calls).2.states.length := hcount
    rw [hevents, hadded.1, hflushed.1] at hcount
    omega
  · have hlength : PackingEvent.addedLength (heardIn (start.run calls).1)
        = PackingEvent.flushedLength (heardIn (start.run calls).1)
          + (start.run calls).2.payload.length := hlength
    rw [hevents, hadded.2, hflushed.2] at hlength
    omega

end Packer

end CqlWire
