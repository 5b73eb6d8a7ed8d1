import CqlWire.Proofs.Packer.Outcome

/-!
This module contains the books of a packer: of what it was given, what left it in which segments,
and what it still holds. A call keeps them, and so does a run of calls.
-/

namespace CqlWire

namespace Packer

variable {S : Type}

inductive Parcel (S : Type)
  | batch (items : List (Item S))
  | slices (item : Item S)

namespace Parcel

def short : Parcel S → List (Item S)
  | .batch items => items
  | .slices _ => []

def long : Parcel S → List (Item S)
  | .batch _ => []
  | .slices item => [item]

def items : Parcel S → List (Item S)
  | .batch items => items
  | .slices item => [item]

def segments (packer : Packer S) : Parcel S → List (Segment × S)
  | .batch items =>
    [(⟨items.flatMap (·.bytes packer.dialect), true⟩, packer.policy.merge (items.map (·.state)))]
  | .slices item => packer.sliced item

def Sound (packer : Packer S) : Parcel S → Prop
  | .batch items =>
    items ≠ [] ∧ (∀ item ∈ items, item.Writable packer.dialect)
      ∧ (items.flatMap (·.bytes packer.dialect)).length ≤ packer.limit.value
  | .slices item =>
    item.Writable packer.dialect ∧ packer.limit.value < (item.bytes packer.dialect).length
      ∧ (packer.parts item).length = (packer.slices item).length

def batch? : Parcel S → Option (List (Item S))
  | .batch items => some items
  | .slices _ => none

def ofPending : List (Item S) → List (Parcel S)
  | [] => []
  | item :: rest => [.batch (item :: rest)]

theorem short_ofPending (pending : List (Item S)) :
    (ofPending pending).flatMap short = pending := by
  cases pending with
  | nil => rfl
  | cons item rest => simp [ofPending, short]

theorem long_ofPending (pending : List (Item S)) : (ofPending pending).flatMap long = [] := by
  cases pending with
  | nil => rfl
  | cons item rest => rfl

theorem flatten_batches (parcels : List (Parcel S)) :
    (parcels.filterMap batch?).flatten = parcels.flatMap short := by
  induction parcels with
  | nil => rfl
  | cons parcel rest ih =>
    rw [List.flatMap_cons]
    rw [← ih]
    cases parcel with
    | batch items => rfl
    | slices item => rfl

theorem wholes_eq (packer : Packer S) (parcels : List (Parcel S)) :
    (parcels.flatMap (·.segments packer)).filter (·.1.selfContained)
      =
    (parcels.filterMap batch?).map fun batch =>
      (⟨batch.flatMap (·.bytes packer.dialect), true⟩,
        packer.policy.merge (batch.map (·.state))) := by
  induction parcels with
  | nil => rfl
  | cons parcel rest ih =>
    rw [List.flatMap_cons]
    rw [List.filter_append]
    rw [ih]
    cases parcel with
    | batch items => rfl
    | slices item =>
      have : (packer.sliced item).filter (·.1.selfContained) = [] := by
        rw [List.filter_eq_nil_iff]
        intro segment hmem
        simp [selfContained_of_mem_sliced hmem]
      rw [segments, this]
      rfl

end Parcel

structure Holds (start packer : Packer S) (pending : List (Item S)) : Prop where
  packer_eq : packer
    = start.holding (pending.flatMap (·.bytes start.dialect)) (pending.map (·.state))
  writable : ∀ item ∈ pending, item.Writable start.dialect
  length_le : (pending.flatMap (·.bytes start.dialect)).length ≤ start.limit.value

structure Step (S : Type) where
  before : Packer S
  call : Call S
  packed : Packed S

def Step.accepted? (step : Step S) : Option (Item S) :=
  match step.call, step.packed.segments with
  | .add item, .ok _ => some item
  | _, _ => none

def Step.emitted (step : Step S) : List (Segment × S) :=
  match step.packed.segments with
  | .ok segments => segments
  | .error _ => []

def run (packer : Packer S) : List (Call S) → List (Step S) × Packer S
  | [] => ([], packer)
  | call :: rest =>
    let packed := packer.call call
    let (steps, last) := run packed.packer rest
    (⟨packer, call, packed⟩ :: steps, last)

def accepted (steps : List (Step S)) : List (Item S) := steps.filterMap Step.accepted?

def emitted (steps : List (Step S)) : List (Segment × S) := steps.flatMap Step.emitted

def fits (packer : Packer S) (item : Item S) : Bool :=
  (item.bytes packer.dialect).length ≤ packer.limit.value

/--
From one row of collected items to another, steps send parcels: nothing is lost, nothing is sent
twice, and neither short items nor long ones overtake their kind.
-/
structure Books (start : Packer S) (pending : List (Item S)) (steps : List (Step S))
    (parcels : List (Parcel S)) (pending' : List (Item S)) : Prop where
  emitted_eq : emitted steps = parcels.flatMap (·.segments start)
  short_eq : pending ++ (accepted steps).filter start.fits
    = parcels.flatMap Parcel.short ++ pending'
  long_eq : (accepted steps).filter (!start.fits ·) = parcels.flatMap Parcel.long
  sound : ∀ parcel ∈ parcels, parcel.Sound start

theorem Books.nil (start : Packer S) (pending : List (Item S)) :
    Books start pending [] [] pending where
  emitted_eq := rfl
  short_eq := by simp [accepted]
  long_eq := rfl
  sound := by simp

theorem emitted_append (steps steps' : List (Step S)) :
    emitted (steps ++ steps') = emitted steps ++ emitted steps' :=
  List.flatMap_append

theorem accepted_append (steps steps' : List (Step S)) :
    accepted (steps ++ steps') = accepted steps ++ accepted steps' :=
  List.filterMap_append

theorem Books.append {start : Packer S} {pending middle pending' : List (Item S)}
    {steps steps' : List (Step S)} {parcels parcels' : List (Parcel S)}
    (h : Books start pending steps parcels middle)
    (h' : Books start middle steps' parcels' pending') :
    Books start pending (steps ++ steps') (parcels ++ parcels') pending' where
  emitted_eq := by
    rw [emitted_append, List.flatMap_append]
    rw [h.emitted_eq, h'.emitted_eq]
  short_eq := by
    rw [accepted_append, List.filter_append, List.flatMap_append]
    rw [← List.append_assoc]
    rw [h.short_eq]
    rw [List.append_assoc, List.append_assoc]
    rw [h'.short_eq]
  long_eq := by
    rw [accepted_append, List.filter_append, List.flatMap_append]
    rw [h.long_eq, h'.long_eq]
  sound := by
    intro parcel hmem
    rcases List.mem_append.1 hmem with hmem | hmem
    · apply h.sound parcel hmem
    · apply h'.sound parcel hmem

namespace Holds

variable {start packer : Packer S} {pending : List (Item S)}

theorem nil (start : Packer S) : Holds start (start.holding [] []) [] where
  packer_eq := rfl
  writable := by simp
  length_le := by simp

theorem ofLimit (dialect : Dialect) (policy : StatePolicy S) (limit : PayloadLimit)
    (hasListener : Bool) :
    Holds (ofLimit dialect policy limit hasListener) (ofLimit dialect policy limit hasListener)
      [] :=
  nil _

theorem collect (h : Holds start packer pending) {item : Item S}
    (hwritable : item.Writable start.dialect)
    (hroom : packer.payload.length + (item.bytes start.dialect).length ≤ start.limit.value) :
    Holds start
      (start.holding (packer.payload ++ item.bytes start.dialect) (packer.states ++ [item.state]))
      (pending ++ [item]) := by
  have hpacker := h.packer_eq
  subst hpacker
  constructor
  · simp [holding]
  · intro item' hmem
    rcases List.mem_append.1 hmem with hmem | hmem
    · apply h.writable item' hmem
    · rw [List.mem_singleton.1 hmem]
      exact hwritable
  · simpa [holding] using hroom

theorem payload_eq_nil (h : Holds start packer pending) (hstates : packer.states = []) :
    packer.payload = [] := by
  rw [h.packer_eq] at hstates ⊢
  have : pending = [] := List.map_eq_nil_iff.1 hstates
  rw [this]
  rfl

theorem states_eq_nil (h : Holds start packer pending) (hpayload : packer.payload = []) :
    packer.states = [] := by
  rw [h.packer_eq] at hpayload ⊢
  cases pending with
  | nil => rfl
  | cons item rest =>
    have hpos := length_bytes_pos (h.writable item (by simp))
    have hnil : item.bytes start.dialect = [] :=
      List.flatMap_eq_nil_iff.1 hpayload item (by simp)
    rw [hnil] at hpos
    exact absurd hpos (Nat.lt_irrefl 0)

theorem whole_eq (h : Holds start packer pending) :
    packer.whole = (Parcel.ofPending pending).flatMap (·.segments start) := by
  rw [h.packer_eq]
  cases pending with
  | nil => rfl
  | cons item rest => rfl

theorem sound_ofPending (h : Holds start packer pending) :
    ∀ parcel ∈ Parcel.ofPending pending, parcel.Sound start := by
  intro parcel hmem
  cases pending with
  | nil => simp [Parcel.ofPending] at hmem
  | cons item rest =>
    simp only [Parcel.ofPending, List.mem_singleton] at hmem
    rw [hmem]
    exact ⟨by simp, h.writable, h.length_le⟩

end Holds

theorem Books.of_whole {start : Packer S} {pending pending' : List (Item S)} {step : Step S}
    (hemitted : step.emitted = (Parcel.ofPending pending).flatMap (·.segments start))
    (hsound : ∀ parcel ∈ Parcel.ofPending pending, parcel.Sound start)
    (hshort : (accepted [step]).filter start.fits = pending')
    (hlong : (accepted [step]).filter (!start.fits ·) = []) :
    Books start pending [step] (Parcel.ofPending pending) pending' where
  emitted_eq := by
    rw [← hemitted]
    simp [emitted]
  short_eq := by
    rw [Parcel.short_ofPending]
    rw [hshort]
  long_eq := by
    rw [Parcel.long_ofPending]
    rw [hlong]
  sound := hsound

theorem exists_books_of_outcome {start packer packer' : Packer S} {pending : List (Item S)}
    {call : Call S} {segments : Except Failure (List (Segment × S))}
    (hholds : Holds start packer pending) (h : Outcome packer call segments packer')
    (events : List PackingEvent) :
    ∃ parcels pending', Holds start packer' pending'
      ∧ Books start pending [⟨packer, call, ⟨segments, events, packer'⟩⟩] parcels pending' := by
  have hwhole := hholds.whole_eq
  have hsound := hholds.sound_ofPending
  have hpacker := hholds.packer_eq
  subst hpacker
  cases h with
  | refused hwhy =>
    -- Nothing was taken and nothing left.
    refine ⟨[], pending, hholds, ?_, ?_, rfl, by simp⟩
    · rfl
    · simp [accepted, Step.accepted?]
  | @sliced item hwritable hlong hparts =>
    -- The item leaves alone, past those that are pending.
    have hfits : start.fits item = false := decide_eq_false (Nat.not_le_of_lt hlong)
    refine ⟨[.slices item], pending, hholds, ?_, ?_, ?_, ?_⟩
    · rfl
    · simp [accepted, Step.accepted?, Parcel.short, hfits]
    · simp [accepted, Step.accepted?, Parcel.long, hfits]
    · intro parcel hmem
      rw [List.mem_singleton] at hmem
      rw [hmem]
      exact ⟨hwritable, hlong, hparts⟩
  | @collected item hwritable hroom =>
    have hfits : start.fits item = true :=
      decide_eq_true (Nat.le_trans (Nat.le_add_left _ _) hroom)
    refine ⟨[], pending ++ [item], hholds.collect hwritable hroom, ?_, ?_, ?_, ?_⟩
    · rfl
    · simp [accepted, Step.accepted?, hfits]
    · simp [accepted, Step.accepted?, hfits]
    · simp
  | @overflowed item hwritable hshort =>
    -- Those that are pending leave, and the item takes their place.
    have hfits : start.fits item = true := decide_eq_true hshort
    have hroom : 0 + (item.bytes start.dialect).length ≤ start.limit.value := by
      rw [Nat.zero_add]
      exact hshort
    refine ⟨Parcel.ofPending pending, [item], (Holds.nil start).collect hwritable hroom,
      Books.of_whole hwhole hsound ?_ ?_⟩
    · simp [accepted, Step.accepted?, hfits]
    · simp [accepted, Step.accepted?, hfits]
  | flushed =>
    refine ⟨Parcel.ofPending pending, [], Holds.nil start, Books.of_whole hwhole hsound ?_ ?_⟩
    · rfl
    · rfl

theorem exists_books_of_run {start packer : Packer S} {pending : List (Item S)}
    (hholds : Holds start packer pending) (calls : List (Call S)) :
    ∃ parcels pending', Holds start (packer.run calls).2 pending'
      ∧ Books start pending (packer.run calls).1 parcels pending' := by
  induction calls generalizing packer pending with
  | nil => exact ⟨[], pending, hholds, .nil start pending⟩
  | cons call rest ih =>
    have hcall := outcome_call packer call hholds.payload_eq_nil
    obtain ⟨parcels, middle, hmiddle, hbooks⟩ :=
      exists_books_of_outcome hholds hcall (packer.call call).events
    obtain ⟨parcels', pending', hpending', hbooks'⟩ := ih hmiddle
    exact ⟨parcels ++ parcels', pending', hpending', hbooks.append hbooks'⟩

theorem holds_of_mem_run {start packer : Packer S} {pending : List (Item S)}
    (hholds : Holds start packer pending) {calls : List (Call S)} {step : Step S}
    (hmem : step ∈ (packer.run calls).1) :
    step.packed = step.before.call step.call ∧ ∃ pending', Holds start step.before pending' := by
  induction calls generalizing packer pending with
  | nil => simp [run] at hmem
  | cons call rest ih =>
    rcases List.mem_cons.1 hmem with rfl | hmem
    · exact ⟨rfl, pending, hholds⟩
    · have hcall := outcome_call packer call hholds.payload_eq_nil
      obtain ⟨_, _, hnext, _⟩ :=
        exists_books_of_outcome hholds hcall (packer.call call).events
      exact ih hnext hmem

theorem outcome_of_mem_run {start packer : Packer S} {pending : List (Item S)}
    (hholds : Holds start packer pending) {calls : List (Call S)} {step : Step S}
    (hmem : step ∈ (packer.run calls).1) :
    ∃ pending', Holds start step.before pending'
      ∧ Outcome step.before step.call step.packed.segments step.packed.packer := by
  obtain ⟨hpacked, pending', hbefore⟩ := holds_of_mem_run hholds hmem
  refine ⟨pending', hbefore, ?_⟩
  rw [hpacked]
  exact outcome_call step.before step.call hbefore.payload_eq_nil

/-- All calls succeed, and these segments are ready by the end. -/
def Delivers (packer : Packer S) (calls : List (Call S)) (segments : List (Segment × S)) : Prop :=
  (∀ step ∈ (packer.run calls).1, ∃ ready, step.packed.segments = .ok ready)
    ∧ segments = emitted (packer.run calls).1

theorem delivers_nil_iff {packer : Packer S} {segments : List (Segment × S)} :
    packer.Delivers [] segments ↔ segments = [] := by
  unfold Delivers
  rw [run]
  simp [emitted]

theorem delivers_cons_iff {packer : Packer S} {call : Call S} {rest : List (Call S)}
    {segments : List (Segment × S)} :
    packer.Delivers (call :: rest) segments
      ↔
    ∃ ready more, (packer.call call).segments = .ok ready
      ∧ (packer.call call).packer.Delivers rest more ∧ segments = ready ++ more := by
  unfold Delivers
  rw [run]
  dsimp only
  rw [List.forall_mem_cons]
  constructor
  · rintro ⟨⟨⟨ready, hready⟩, hrest⟩, rfl⟩
    refine ⟨ready, _, hready, ⟨hrest, rfl⟩, ?_⟩
    unfold emitted
    rw [List.flatMap_cons]
    rw [Step.emitted, hready]
  · rintro ⟨ready, _, hready, ⟨hrest, rfl⟩, rfl⟩
    refine ⟨⟨⟨ready, hready⟩, hrest⟩, ?_⟩
    unfold emitted
    rw [List.flatMap_cons]
    rw [Step.emitted, hready]

end Packer

end CqlWire
