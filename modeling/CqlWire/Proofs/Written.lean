import CqlWire.Written

/-!
This module contains when all of something is written, and for which reasons it is not. What is
written in parts is written as a whole if each part is, and is refused for a reason of one of them.
-/

namespace CqlWire

namespace Written

variable {α : Type} {first second written : Written}

def Whole (written : Written) : Prop :=
  written.fault = none

theorem whole_iff : written.Whole ↔ ∃ bytes, written = ofBytes bytes := by
  obtain ⟨bytes, fault⟩ := written
  simp [Whole, ofBytes]

@[simp]
theorem whole_ofBytes (bytes : Bytes) : (ofBytes bytes).Whole := rfl

@[simp]
theorem not_whole_refuse (error : Failure) : ¬ (refuse error).Whole := by
  simp [Whole, refuse]

@[simp]
theorem whole_append_iff : (first ++ second).Whole ↔ first.Whole ∧ second.Whole := by
  unfold Whole
  cases hfirst : first.fault with
  | none => simp [append_of_none hfirst]
  | some error => simp [append_of_fault hfirst, hfirst]

@[simp]
theorem whole_each_iff {write : α → Written} {items : List α} :
    (each write items).Whole ↔ ∀ a ∈ items, (write a).Whole := by
  induction items with
  | nil => simp [each_nil]
  | cons a rest ih => simp [each_cons, ih]

/-- All reasons for which something can be missing. -/
def RefusedFor (reason : Failure → Prop) (written : Written) : Prop :=
  ∀ error ∈ written.fault, reason error

variable {reason reason' : Failure → Prop}

theorem RefusedFor.of_whole (h : written.Whole) : written.RefusedFor reason := by
  intro error hmem
  rw [h] at hmem
  cases hmem

theorem RefusedFor.refuse {error : Failure} (h : reason error) :
    (Written.refuse error).RefusedFor reason := by
  intro error' hmem
  cases hmem
  exact h

theorem RefusedFor.guarded {condition : Prop} [Decidable condition] {error : Failure}
    (hwritten : written.RefusedFor reason) (hrefused : ¬ condition → reason error) :
    (if condition then written else Written.refuse error).RefusedFor reason := by
  split
  · exact hwritten
  · next h => exact .refuse (hrefused h)

theorem RefusedFor.append (hfirst : first.RefusedFor reason) (hsecond : second.RefusedFor reason) :
    (first ++ second).RefusedFor reason := by
  cases h : first.fault with
  | none =>
    rw [append_of_none h]
    exact hsecond
  | some error =>
    rw [append_of_fault h]
    exact hfirst

theorem RefusedFor.each {write : α → Written} {items : List α}
    (h : ∀ a ∈ items, (write a).RefusedFor reason) :
    (Written.each write items).RefusedFor reason := by
  induction items with
  | nil => exact .of_whole rfl
  | cons a rest ih =>
    rw [List.forall_mem_cons] at h
    rw [each_cons]
    exact .append h.1 (ih h.2)

theorem RefusedFor.imp (h : written.RefusedFor reason)
    (himp : ∀ error, reason error → reason' error) : written.RefusedFor reason' := by
  intro error hmem
  exact himp error (h error hmem)

theorem RefusedFor.of_toExcept {error : Failure} (h : written.RefusedFor reason)
    (herror : written.toExcept = .error error) : reason error := by
  apply h
  unfold toExcept at herror
  split at herror
  · cases herror
  · next hfault =>
    cases herror
    exact hfault

end Written

end CqlWire
