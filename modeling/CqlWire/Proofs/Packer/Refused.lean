import CqlWire.Proofs.Dialect.Accepted
import CqlWire.Proofs.Packer.Books

/-!
This module contains for which reasons a packer refuses an item, and that it goes on from there as
if it had never been given the item.
-/

namespace CqlWire

namespace Packer

variable {S : Type}

/-- All reasons for which an item is refused. None of them is about what is being collected. -/
inductive Refusal (dialect : Dialect) (policy : StatePolicy S) (limit : PayloadLimit)
    (item : Item S) : Prop
  | unsegmented (h : item.frame.version ≠ .v5 ∧ item.frame.version ≠ .v6)
  | noEncoder (h : ∀ codec,
      dialect.registry.encoder item.frame.version item.frame.opcode ≠ .ok codec)
  | overLimits (h : ¬ item.frame.WithinLimits)
  | bodyTooLong {bodySize : Nat} (hsize : dialect.bodySize item.frame = .ok bodySize)
      (h : Format.maxInt < bodySize)
  | parts {bodySize count : Nat} (hsize : dialect.bodySize item.frame = .ok bodySize)
      (hlong : limit.value < FrameHeader.size + bodySize)
      (hcount : count = (FrameHeader.size + bodySize + limit.value - 1) / limit.value)
      (h : (policy.split item.state count).length ≠ count)

theorem exists_error_toExcept_iff {written : Written} :
    (∃ error, written.toExcept = .error error) ↔ ¬ written.Whole := by
  unfold Written.toExcept Written.Whole
  cases written.fault <;> simp

theorem exists_error_addShort_iff (packer : Packer S) (frame : Frame) (bodySize : Nat) (state : S) :
    (∃ error, (packer.addShort frame bodySize state).segments = .error error)
      ↔
    ¬ (packer.dialect.write frame (some bodySize)).Whole := by
  rw [← exists_error_toExcept_iff]
  unfold addShort
  cases (packer.dialect.write frame (some bodySize)).toExcept with
  | error error => exact iff_of_true ⟨error, rfl⟩ ⟨error, rfl⟩
  | ok encoded =>
    dsimp only
    split <;> simp

theorem exists_error_addLong_iff (packer : Packer S) (frame : Frame) (bodySize : Nat) (state : S) :
    (∃ error, (packer.addLong frame bodySize state).segments = .error error)
      ↔
    ¬ (packer.dialect.write frame (some bodySize)).Whole
      ∨ ∃ count,
          count = (FrameHeader.size + bodySize + packer.limit.value - 1) / packer.limit.value
            ∧ (packer.policy.split state count).length ≠ count := by
  rw [← exists_error_toExcept_iff]
  rw [exists_eq_left]
  unfold addLong
  cases (packer.dialect.write frame (some bodySize)).toExcept with
  | error error => simp
  | ok encoded =>
    dsimp only
    split
    · next hparts => simp [hparts]
    · next hparts => simp [hparts]

section Refusal

variable {dialect : Dialect} {policy : StatePolicy S} {limit : PayloadLimit} {item : Item S}
  {bodySize : Nat}

theorem not_whole_iff {frame : Frame} (hsegments : frame.version.hasSegments = true)
    (hsize : dialect.bodySize frame = .ok bodySize) :
    ¬ (dialect.write frame (some bodySize)).Whole
      ↔
    Format.maxInt < bodySize ∨ ¬ frame.WithinLimits := by
  rw [Dialect.write_some hsize]
  rw [Dialect.write_whole_iff]
  rw [and_iff_right (Frame.validate_of_hasSegments hsegments)]
  rw [and_iff_right (Dialect.exists_encoder_iff.2 ⟨bodySize, hsize⟩)]
  simp only [hsize, Except.ok.injEq, forall_eq']
  rw [Decidable.not_and_iff_not_or_not, Nat.not_le]

theorem refusal_iff (hsegments : item.frame.version.hasSegments = true)
    (hsize : dialect.bodySize item.frame = .ok bodySize) :
    Refusal dialect policy limit item
      ↔
    (Format.maxInt < bodySize ∨ ¬ item.frame.WithinLimits)
      ∨ limit.value < FrameHeader.size + bodySize
        ∧ ∃ count, count = (FrameHeader.size + bodySize + limit.value - 1) / limit.value
          ∧ (policy.split item.state count).length ≠ count := by
  constructor
  · intro h
    cases h with
    | unsegmented h =>
      rcases Version.hasSegments_iff.1 hsegments with hversion | hversion
      · exact absurd hversion h.1
      · exact absurd hversion h.2
    | noEncoder h =>
      obtain ⟨codec, hcodec⟩ := Dialect.exists_encoder_iff.2 ⟨bodySize, hsize⟩
      exact absurd hcodec (h codec)
    | overLimits h => exact Or.inl (Or.inr h)
    | bodyTooLong hsize' h =>
      cases hsize.symm.trans hsize'
      exact Or.inl (Or.inl h)
    | parts hsize' hlong hcount h =>
      cases hsize.symm.trans hsize'
      exact Or.inr ⟨hlong, _, hcount, h⟩
  · rintro ((h | h) | ⟨hlong, count, hcount, h⟩)
    · exact .bodyTooLong hsize h
    · exact .overLimits h
    · exact .parts hsize hlong hcount h

end Refusal

theorem exists_error_add_iff (packer : Packer S) (item : Item S) :
    (∃ error, (packer.call (.add item)).segments = .error error)
      ↔
    Refusal packer.dialect packer.policy packer.limit item := by
  change (∃ error, ((packer.inOrder item.order).add item.frame item.state).segments = .error error)
    ↔ _
  unfold add
  by_cases hsegments : item.frame.version.hasSegments = true
  · rw [if_pos hsegments]
    cases hsize : (packer.inOrder item.order).dialect.bodySize item.frame with
    | error error =>
      refine iff_of_true ⟨error, rfl⟩ (.noEncoder ?_)
      intro codec hcodec
      obtain ⟨bodySize, hbodySize⟩ := Dialect.exists_encoder_iff.1 ⟨codec, hcodec⟩
      cases hsize.symm.trans hbodySize
    | ok bodySize =>
      -- The order of the payload makes no difference to the size.
      have hunordered : packer.dialect.bodySize item.frame = .ok bodySize := hsize
      dsimp only
      rw [refusal_iff hsegments hunordered]
      rw [← not_whole_iff hsegments hsize]
      split
      · next hlong =>
        rw [exists_error_addLong_iff]
        exact or_congr_right (and_iff_right hlong).symm
      · next hshort =>
        rw [exists_error_addShort_iff]
        exact (or_iff_left fun h => hshort h.1).symm
  · rw [if_neg hsegments]
    refine iff_of_true ⟨_, rfl⟩ (.unsegmented ?_)
    rw [Version.hasSegments_iff, not_or] at hsegments
    exact hsegments

theorem run_append (packer : Packer S) (before after : List (Call S)) :
    packer.run (before ++ after)
      =
    ((packer.run before).1 ++ ((packer.run before).2.run after).1,
      ((packer.run before).2.run after).2) := by
  induction before generalizing packer with
  | nil => rfl
  | cons call rest ih =>
    rw [List.cons_append]
    rw [run, ih]
    rfl

theorem packer_of_run {start packer : Packer S} {pending : List (Item S)}
    (h : Holds start packer pending) :
    packer.dialect = start.dialect ∧ packer.policy = start.policy ∧ packer.limit = start.limit := by
  rw [h.packer_eq]
  exact ⟨rfl, rfl, rfl⟩

/--
At any time an item is refused exactly for these reasons. It changes nothing about the packer, so
all calls behind it come out as in the run in which the item is left out.
-/
theorem refused_add (dialect : Dialect) (policy : StatePolicy S) (limit : PayloadLimit)
    (hasListener : Bool) (before : List (Call S)) (item : Item S) :
    let start := ofLimit dialect policy limit hasListener
    let packer := (start.run before).2
    let packed := packer.call (.add item)
    ((∃ error, packed.segments = .error error) ↔ Refusal dialect policy limit item)
      ∧ ∀ error, packed.segments = .error error →
          packed.packer = packer
            ∧ ∀ after,
              start.run (before ++ after)
                  = ((start.run before).1 ++ (packer.run after).1, (packer.run after).2)
                ∧ start.run (before ++ .add item :: after)
                  = ((start.run before).1 ++ ⟨packer, .add item, packed⟩ :: (packer.run after).1,
                    (packer.run after).2) := by
  intro start packer packed
  obtain ⟨_, pending, hholds, _⟩ :=
    exists_books_of_run (Holds.ofLimit dialect policy limit hasListener) before
  obtain ⟨hdialect, hpolicy, hlimit⟩ := packer_of_run hholds
  constructor
  · rw [exists_error_add_iff]
    rw [hdialect, hpolicy, hlimit]
    rfl
  · intro error herror
    have houtcome := outcome_call packer (.add item) hholds.payload_eq_nil
    have hpacker : packed.packer = packer := by
      rw [herror] at houtcome
      exact houtcome.packer_eq_of_error
    refine ⟨hpacker, ?_⟩
    intro after
    refine ⟨run_append start before after, ?_⟩
    rw [run_append]
    rw [run]
    rw [hpacker]

theorem refused_add_withoutParts :
    let policy : StatePolicy Unit := ⟨fun _ => (), fun _ _ => []⟩
    let start := ofLimit (Dialect.ofRole .client .none) policy ⟨20, by decide, by decide⟩ true
    let long : Frame := { Dialect.tracedRequest with version := .v5 }
    let short : Frame := { long with customPayload := .empty, message := .options }
    let before := [.add ⟨short, (), .byKey⟩]
    let packer := (start.run before).2
    let packed := packer.call (.add ⟨long, (), .byKey⟩)
    let bytes : Bytes := [5, 2, 0, 7, 5, 0, 0, 0, 0]
    packer.payload = bytes
      ∧ packer.states = [()]
      ∧ (∃ error, packed.segments = .error error)
      ∧ packed.packer = packer
      ∧ (start.run (before ++ [.add ⟨long, (), .byKey⟩, .flush])).2
        = (start.run (before ++ [.flush])).2
      ∧ emitted (start.run (before ++ [.add ⟨long, (), .byKey⟩, .flush])).1
        = [(⟨bytes, true⟩, ())] := by
  intro policy start long short before packer packed bytes
  have hsize : (Dialect.ofRole .client .none).bodySize long = .ok 12 := rfl
  have hrefusal : Refusal (Dialect.ofRole .client .none) policy ⟨20, by decide, by decide⟩
      ⟨long, (), .byKey⟩ :=
    .parts hsize (by decide) rfl (by decide)
  obtain ⟨hiff, hrun⟩ := refused_add (Dialect.ofRole .client .none) policy
    ⟨20, by decide, by decide⟩ true before ⟨long, (), .byKey⟩
  obtain ⟨error, herror⟩ := hiff.2 hrefusal
  obtain ⟨hpacker, hafter⟩ := hrun error herror
  obtain ⟨hwithout, hwith⟩ := hafter [.flush]
  refine ⟨?_, ?_, ⟨error, herror⟩, hpacker, ?_, ?_⟩
  · decide +kernel
  · decide +kernel
  · exact (congrArg Prod.snd hwith).trans (congrArg Prod.snd hwithout).symm
  · decide +kernel

end Packer

end CqlWire
