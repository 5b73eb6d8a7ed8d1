import CqlWire.Proofs.Packer.Books

/-!
This module contains what leaves a packer of what it is given: whatever it is told, in whatever
order, each frame that it takes leaves once, short ones with their neighbours and long ones alone.
-/

namespace CqlWire

namespace Packer

variable {S : Type}

/-- Bytes are cut into as few pieces as a limit allows, of which only the last may be shorter. -/
structure CutInto (limit : Nat) (bytes : Bytes) (slices : List Bytes) : Prop where
  flatten_eq : slices.flatten = bytes
  length_eq : slices.length = (bytes.length + limit - 1) / limit
  sizes : ∃ front last, slices = front ++ [last] ∧ (∀ slice ∈ front, slice.length = limit)
    ∧ 0 < last.length ∧ last.length ≤ limit

/--
What steps from an empty packer did with what they were given: the short items left in batches, but
for those that are still pending, and each long item left in slices.
-/
structure Conserved (start : Packer S) (steps : List (Step S)) (last : Packer S)
    (batches : List (List (Item S))) (pending : List (Item S)) : Prop where
  payload_eq : last.payload = pending.flatMap (·.bytes start.dialect)
  states_eq : last.states = pending.map (·.state)
  payload_length_le : last.payload.length ≤ start.limit.value
  payload_eq_nil_iff : last.payload = [] ↔ last.states = []
  short_eq : (accepted steps).filter start.fits = batches.flatten ++ pending
  wholes_eq : (emitted steps).filter (·.1.selfContained)
    = batches.map fun batch =>
      (⟨batch.flatMap (·.bytes start.dialect), true⟩, start.policy.merge (batch.map (·.state)))
  wholes_length : ∀ whole ∈ emitted steps, whole.1.selfContained = true →
    0 < whole.1.payload.length ∧ whole.1.payload.length ≤ start.limit.value
  slices_eq : ∀ step ∈ steps, ∀ item, step.accepted? = some item → start.fits item = false →
    step.packed.packer = step.before
      ∧ ∃ slices, CutInto start.limit.value (item.bytes start.dialect) slices
        ∧ (start.policy.split item.state slices.length).length = slices.length
        ∧ step.packed.segments = .ok ((slices.map fun slice => ⟨slice, false⟩).zip
            (start.policy.split item.state slices.length))
  others_eq : ∀ step ∈ steps,
    (∀ item, step.accepted? = some item → start.fits item = true) →
      ∀ segment ∈ step.emitted, segment.1.selfContained = true
  accepted_iff : ∀ step ∈ steps, ∀ item, step.call = .add item →
    (step.accepted? = some item ↔ item.Writable start.dialect)
  refused_eq : ∀ step ∈ steps, ∀ error, step.packed.segments = .error error →
    step.packed.packer = step.before
  flushed_eq : ∀ step ∈ steps, step.call = .flush →
    step.packed.packer.payload = [] ∧ step.packed.packer.states = []

theorem cutInto_slices {packer : Packer S} {item : Item S}
    (hlong : packer.limit.value < (item.bytes packer.dialect).length) :
    CutInto packer.limit.value (item.bytes packer.dialect) (packer.slices item) where
  flatten_eq := Bytes.flatten_chunks _
  length_eq := Bytes.length_chunks _
  sizes := by
    apply Bytes.exists_of_chunks
    apply List.length_pos_iff.1
    omega

theorem CutInto.length_le {limit : Nat} {bytes slice : Bytes} {slices : List Bytes}
    (h : CutInto limit bytes slices) (hmem : slice ∈ slices) : slice.length ≤ limit := by
  obtain ⟨front, last, rfl, hfront, _, hlast⟩ := h.sizes
  rcases List.mem_append.1 hmem with hmem | hmem
  · apply Nat.le_of_eq
    apply hfront slice hmem
  · rw [List.mem_singleton.1 hmem]
    exact hlast

section Steps

variable {start : Packer S} {pending : List (Item S)} {step : Step S} {item : Item S}

theorem accepted?_eq_some_iff (hexact : start.policy.Exact)
    (hholds : Holds start step.before pending)
    (h : Outcome step.before step.call step.packed.segments step.packed.packer)
    (hcall : step.call = .add item) :
    step.accepted? = some item ↔ item.Writable start.dialect := by
  obtain ⟨before, call, segments, events, packer'⟩ := step
  dsimp only at *
  have hbefore := hholds.packer_eq
  subst hbefore
  subst hcall
  cases h with
  | refused hwhy =>
    constructor
    · intro haccepted
      simp [Step.accepted?] at haccepted
    · intro hwritable
      obtain ⟨count, hcount⟩ := hwhy hwritable
      exact absurd (hexact item.state count) hcount
  | sliced hwritable hlong hparts => exact ⟨fun _ => hwritable, fun _ => rfl⟩
  | collected hwritable hroom => exact ⟨fun _ => hwritable, fun _ => rfl⟩
  | overflowed hwritable hshort => exact ⟨fun _ => hwritable, fun _ => rfl⟩

theorem sliced_of_accepted (hholds : Holds start step.before pending)
    (h : Outcome step.before step.call step.packed.segments step.packed.packer)
    (haccepted : step.accepted? = some item) (hfits : start.fits item = false) :
    step.packed.packer = step.before
      ∧ ∃ slices, CutInto start.limit.value (item.bytes start.dialect) slices
        ∧ (start.policy.split item.state slices.length).length = slices.length
        ∧ step.packed.segments = .ok ((slices.map fun slice => ⟨slice, false⟩).zip
            (start.policy.split item.state slices.length)) := by
  obtain ⟨before, call, segments, events, packer'⟩ := step
  dsimp only at *
  have hbefore := hholds.packer_eq
  subst hbefore
  have hlong := of_decide_eq_false hfits
  cases h with
  | refused hwhy => simp [Step.accepted?] at haccepted
  | sliced hwritable _ hparts =>
    cases haccepted
    exact ⟨rfl, _, cutInto_slices (Nat.lt_of_not_le hlong), hparts, rfl⟩
  | collected hwritable hroom =>
    cases haccepted
    exact absurd (Nat.le_trans (Nat.le_add_left _ _) hroom) hlong
  | overflowed hwritable hshort =>
    cases haccepted
    exact absurd hshort hlong
  | flushed => simp [Step.accepted?] at haccepted

theorem selfContained_of_emitted (hholds : Holds start step.before pending)
    (h : Outcome step.before step.call step.packed.segments step.packed.packer)
    (hshort : ∀ item, step.accepted? = some item → start.fits item = true) :
    ∀ segment ∈ step.emitted, segment.1.selfContained = true := by
  have hwhole : ∀ segment ∈ step.before.whole, segment.1.selfContained = true := by
    unfold whole
    split <;> simp
  obtain ⟨before, call, segments, events, packer'⟩ := step
  dsimp only at *
  cases h with
  | refused hwhy => simp [Step.emitted]
  | sliced hwritable hlong hparts =>
    have hbefore := hholds.packer_eq
    subst hbefore
    have := of_decide_eq_true (hshort _ rfl)
    exact absurd this (Nat.not_le_of_lt hlong)
  | collected hwritable hroom => simp [Step.emitted]
  | overflowed hwritable hshort => exact hwhole
  | flushed => exact hwhole

end Steps

theorem wholes_length {start : Packer S} {parcels : List (Parcel S)}
    (hsound : ∀ parcel ∈ parcels, parcel.Sound start) :
    ∀ whole ∈ parcels.flatMap (·.segments start), whole.1.selfContained = true →
      0 < whole.1.payload.length ∧ whole.1.payload.length ≤ start.limit.value := by
  intro whole hmem hwhole
  rw [List.mem_flatMap] at hmem
  obtain ⟨parcel, hparcel, hmem⟩ := hmem
  cases parcel with
  | batch items =>
    obtain ⟨hne, hwritable, hle⟩ := hsound _ hparcel
    rw [Parcel.segments, List.mem_singleton] at hmem
    rw [hmem]
    refine ⟨?_, hle⟩
    cases items with
    | nil => exact absurd rfl hne
    | cons item rest =>
      have := length_bytes_pos (hwritable item (by simp))
      simp only [List.flatMap_cons, List.length_append]
      omega
  | slices item =>
    rw [selfContained_of_mem_sliced hmem] at hwhole
    simp at hwhole

theorem run_conserved (dialect : Dialect) {policy : StatePolicy S} (hexact : policy.Exact)
    (limit : PayloadLimit) (hasListener : Bool) (calls : List (Call S)) :
    let start := ofLimit dialect policy limit hasListener
    ∃ batches pending, Conserved start (start.run calls).1 (start.run calls).2 batches pending := by
  intro start
  have hholds := Holds.ofLimit dialect policy limit hasListener
  obtain ⟨parcels, pending, hlast, hbooks⟩ := exists_books_of_run hholds calls
  have hlastEq := hlast.packer_eq
  refine ⟨parcels.filterMap Parcel.batch?, pending, {
    payload_eq := ?payload, states_eq := ?states, payload_length_le := ?length
    payload_eq_nil_iff := ?nil, short_eq := ?short, wholes_eq := ?wholes
    wholes_length := ?wholesLength, slices_eq := ?slices, others_eq := ?others
    accepted_iff := ?accepted, refused_eq := ?refused, flushed_eq := ?flushed }⟩
  case payload =>
    rw [hlastEq]
    rfl
  case states =>
    rw [hlastEq]
    rfl
  case length =>
    rw [hlastEq]
    exact hlast.length_le
  case nil => exact ⟨hlast.states_eq_nil, hlast.payload_eq_nil⟩
  case short =>
    rw [Parcel.flatten_batches]
    exact hbooks.short_eq
  case wholes =>
    rw [hbooks.emitted_eq]
    apply Parcel.wholes_eq
  case wholesLength =>
    rw [hbooks.emitted_eq]
    exact wholes_length hbooks.sound
  -- What is left concerns single steps.
  case slices =>
    intro step hmem item haccepted hfits
    obtain ⟨_, hbefore, houtcome⟩ := outcome_of_mem_run hholds hmem
    exact sliced_of_accepted hbefore houtcome haccepted hfits
  case others =>
    intro step hmem hshort
    obtain ⟨_, hbefore, houtcome⟩ := outcome_of_mem_run hholds hmem
    exact selfContained_of_emitted hbefore houtcome hshort
  case accepted =>
    intro step hmem item hcall
    obtain ⟨_, hbefore, houtcome⟩ := outcome_of_mem_run hholds hmem
    exact accepted?_eq_some_iff hexact hbefore houtcome hcall
  case refused =>
    intro step hmem error herror
    obtain ⟨_, hbefore, houtcome⟩ := outcome_of_mem_run hholds hmem
    rw [herror] at houtcome
    exact houtcome.packer_eq_of_error
  case flushed =>
    intro step hmem hcall
    obtain ⟨_, hbefore, houtcome⟩ := outcome_of_mem_run hholds hmem
    rw [hcall] at houtcome
    exact houtcome.empty_of_flush

def Call.item? : Call S → Option (Item S)
  | .add item => some item
  | .flush => none

def submitted (calls : List (Call S)) : List (Item S) := calls.filterMap Call.item?

theorem accepted_run {packer : Packer S} {calls : List (Call S)}
    (h : ∀ step ∈ (packer.run calls).1, ∃ segments, step.packed.segments = .ok segments) :
    accepted (packer.run calls).1 = submitted calls := by
  induction calls generalizing packer with
  | nil => rfl
  | cons call rest ih =>
    obtain ⟨segments, hsegments⟩ := h ⟨packer, call, packer.call call⟩ List.mem_cons_self
    have hrest := ih fun step hmem => h step (List.mem_cons_of_mem _ hmem)
    have haccepted : Step.accepted? ⟨packer, call, packer.call call⟩ = call.item? := by
      unfold Step.accepted?
      rw [hsegments]
      cases call <;> rfl
    unfold accepted submitted at *
    rw [run]
    dsimp only
    rw [List.filterMap_cons, List.filterMap_cons]
    rw [haccepted]
    rw [hrest]

theorem forall_ok_of_all {steps : List (Step S)}
    (h : steps.all (·.packed.segments.isOk) = true) :
    ∀ step ∈ steps, ∃ segments, step.packed.segments = .ok segments := by
  intro step hmem
  have hisOk := List.all_eq_true.1 h step hmem
  cases hsegments : step.packed.segments with
  | error error => simp [hsegments, Except.isOk, Except.toBool] at hisOk
  | ok segments => exact ⟨segments, rfl⟩

theorem states_run_flush (packer : Packer S) (calls : List (Call S)) :
    (packer.run (calls ++ [.flush])).2.states = [] := by
  induction calls generalizing packer with
  | nil =>
    change packer.flush.2.2.states = []
    unfold flush
    split
    · next hempty => exact List.isEmpty_iff.1 hempty
    · rfl
  | cons call rest ih => apply ih

namespace Parcel

variable {packer : Packer S}

theorem fits_of_mem_batch {batch : List (Item S)} (h : (Parcel.batch batch).Sound packer)
    {item : Item S} (hmem : item ∈ batch) : packer.fits item = true := by
  have hle := h.2.2
  obtain ⟨front, back, rfl⟩ := List.append_of_mem hmem
  simp only [List.flatMap_append, List.flatMap_cons, List.length_append] at hle
  apply decide_eq_true
  omega

theorem writable_of_mem {parcel : Parcel S} (h : parcel.Sound packer) {item : Item S}
    (hmem : item ∈ parcel.items) : item.Writable packer.dialect := by
  cases parcel with
  | batch batch => exact h.2.1 item hmem
  | slices item' =>
    rw [items, List.mem_singleton] at hmem
    rw [hmem]
    exact h.1

theorem length_payload_le {parcel : Parcel S} (h : parcel.Sound packer) {segment : Segment × S}
    (hmem : segment ∈ parcel.segments packer) :
    segment.1.payload.length ≤ packer.limit.value := by
  cases parcel with
  | batch batch =>
    rw [segments, List.mem_singleton] at hmem
    rw [hmem]
    exact h.2.2
  | slices item =>
    obtain ⟨slice, hslice, hsegment⟩ := List.mem_map.1 (List.of_mem_zip hmem).1
    rw [← hsegment]
    exact (cutInto_slices h.2.1).length_le hslice

theorem filter_fits {parcels : List (Parcel S)} (h : ∀ parcel ∈ parcels, parcel.Sound packer) :
    (parcels.flatMap items).filter packer.fits = parcels.flatMap short
      ∧ (parcels.flatMap items).filter (!packer.fits ·) = parcels.flatMap long := by
  induction parcels with
  | nil => exact ⟨rfl, rfl⟩
  | cons parcel rest ih =>
    obtain ⟨hshort, hlong⟩ := ih fun parcel hmem => h parcel (List.mem_cons_of_mem _ hmem)
    have hsound := h parcel List.mem_cons_self
    simp only [List.flatMap_cons, List.filter_append]
    rw [hshort, hlong]
    cases parcel with
    | batch batch =>
      have hfits : ∀ item ∈ batch, packer.fits item = true := fun _ => fits_of_mem_batch hsound
      constructor
      · rw [items, List.filter_eq_self.2 hfits]
        rfl
      · rw [items, List.filter_eq_nil_iff.2 (by simpa using hfits)]
        rfl
    | slices item =>
      have hfits : packer.fits item = false := decide_eq_false (Nat.not_le_of_lt hsound.2.1)
      constructor <;> simp [items, short, long, hfits]

end Parcel

theorem exists_parcels_of_run (dialect : Dialect) (policy : StatePolicy S) (limit : PayloadLimit)
    (hasListener : Bool) (calls : List (Call S)) :
    let start := ofLimit dialect policy limit hasListener
    let steps := (start.run (calls ++ [.flush])).1
    (∀ step ∈ steps, ∃ segments, step.packed.segments = .ok segments) →
      ∃ parcels : List (Parcel S), emitted steps = parcels.flatMap (·.segments start)
        ∧ (∀ parcel ∈ parcels, parcel.Sound start)
        ∧ (parcels.flatMap Parcel.items).filter start.fits = (submitted calls).filter start.fits
        ∧ (parcels.flatMap Parcel.items).filter (!start.fits ·)
            = (submitted calls).filter (!start.fits ·) := by
  intro start steps hok
  obtain ⟨parcels, pending, hlast, hbooks⟩ :=
    exists_books_of_run (Holds.ofLimit dialect policy limit hasListener) (calls ++ [.flush])
  -- After a flush nothing is pending.
  have hpending : pending = [] := by
    have hstates := states_run_flush start calls
    rw [hlast.packer_eq] at hstates
    exact List.map_eq_nil_iff.1 hstates
  have hsubmitted : accepted steps = submitted calls := by
    rw [accepted_run hok]
    unfold submitted
    rw [List.filterMap_append]
    apply List.append_nil
  obtain ⟨hshort, hlong⟩ := Parcel.filter_fits hbooks.sound
  refine ⟨parcels, hbooks.emitted_eq, hbooks.sound, ?_, ?_⟩
  · rw [hshort]
    rw [← hsubmitted]
    have := hbooks.short_eq
    rw [hpending, List.append_nil] at this
    exact this.symm
  · rw [hlong]
    rw [← hsubmitted]
    exact hbooks.long_eq.symm

def shortItem : Item Unit where
  frame := { Dialect.tracedRequest with
    version := .v5
    customPayload := .empty
    message := .options }
  state := ()
  order := .byKey

def longItem : Item Unit where
  frame := { Dialect.tracedRequest with version := .v5 }
  state := ()
  order := .byKey

theorem run_conserved_short_and_long :
    let start := ofLimit (.ofRole .client .lz4) .trivial ⟨10, by decide, by decide⟩ false
    let steps := start.run [.add shortItem, .add longItem, .flush, .add shortItem]
    let short : Bytes := [5, 2, 0, 7, 5, 0, 0, 0, 0]
    let sent : List Segment :=
      [⟨[5, 6, 0, 7, 15, 0, 0, 0, 12, 0], false⟩, ⟨[1, 0, 0, 0, 0, 0, 0, 255, 255, 255], false⟩,
        ⟨[255], false⟩, ⟨short, true⟩]
    StatePolicy.trivial.Exact
      ∧ accepted steps.1 = [shortItem, longItem, shortItem]
      ∧ Conserved start steps.1 steps.2 [[shortItem]] [shortItem]
      ∧ (emitted steps.1).map (·.1) = sent
      ∧ steps.2.payload = short := by
  intro start steps short sent
  have hexact : StatePolicy.trivial.Exact := fun _ _ => List.length_replicate
  obtain ⟨batches, pending, hconserved⟩ :
      ∃ batches pending, Conserved start steps.1 steps.2 batches pending :=
    run_conserved (.ofRole .client .lz4) hexact ⟨10, by decide, by decide⟩ false _
  have hemitted : (emitted steps.1).map (·.1) = sent := by decide +kernel
  have hok : ∀ step ∈ steps.1, ∃ segments, step.packed.segments = .ok segments :=
    forall_ok_of_all (by decide +kernel)
  have hshort : start.fits shortItem = true := by decide +kernel
  have hlong : start.fits longItem = false := by decide +kernel
  -- One batch left, and one item is pending.
  have hbatches : batches.length = 1 := by
    have hlength : ((emitted steps.1).filter (·.1.selfContained)).length = 1 := by decide +kernel
    rw [hconserved.wholes_eq, List.length_map] at hlength
    exact hlength
  have hpending : pending.length = 1 := by
    have hlength : steps.2.states.length = 1 := by decide +kernel
    rw [hconserved.states_eq, List.length_map] at hlength
    exact hlength
  obtain ⟨batch, rfl⟩ := List.length_eq_one_iff.1 hbatches
  obtain ⟨item, rfl⟩ := List.length_eq_one_iff.1 hpending
  have haccepted : accepted steps.1 = [shortItem, longItem, shortItem] := accepted_run hok
  have hrows := hconserved.short_eq
  rw [haccepted] at hrows
  have heq : [shortItem] ++ [shortItem] = batch ++ [item] := by simpa [hshort, hlong] using hrows
  obtain ⟨rfl, hitem⟩ := List.append_inj' heq rfl
  cases hitem
  refine ⟨hexact, haccepted, hconserved, hemitted, ?_⟩
  decide +kernel

end Packer

end CqlWire
