/-!
This module contains maps whose keys are texts. Their entries are held in the order of the keys,
which is the order of their UTF-8 bytes.
-/

namespace CqlWire

structure StringMap (α : Type) where
  entries : List (String × α)
  sorted : entries.Pairwise (fun first second => first.1 < second.1)
deriving DecidableEq

namespace StringMap

variable {α : Type}

def empty : StringMap α := ⟨[], .nil⟩

instance : Inhabited (StringMap α) := ⟨empty⟩

def isEmpty (map : StringMap α) : Bool := map.entries.isEmpty

def size (map : StringMap α) : Nat := map.entries.length

theorem eq_empty_of_isEmpty {map : StringMap α} (h : map.isEmpty = true) : map = empty := by
  obtain ⟨entries, sorted⟩ := map
  have : entries = [] := List.isEmpty_iff.1 h
  subst this
  rfl

def ofList.le (first second : String × α) : Bool := decide (first.1 ≤ second.1)

def ofList.insertFront (entry : String × α) : List (String × α) → List (String × α)
  | [] => [entry]
  | next :: rest => if entry.1 = next.1 then next :: rest else entry :: next :: rest

def ofList.keepLast (entries : List (String × α)) : List (String × α) :=
  entries.foldr insertFront []

theorem ofList.insertFront_sublist (entry : String × α) (entries : List (String × α)) :
    (insertFront entry entries).Sublist (entry :: entries) := by
  cases entries with
  | nil => exact .refl _
  | cons next rest =>
    rw [insertFront]
    split
    · exact .cons _ (.refl _)
    · exact .refl _

theorem ofList.keepLast_sublist (entries : List (String × α)) :
    (keepLast entries).Sublist entries := by
  induction entries with
  | nil => exact .refl _
  | cons entry rest ih =>
    apply (insertFront_sublist entry _).trans
    exact ih.cons_cons entry

theorem ofList.sorted_keepLast {entries : List (String × α)}
    (h : entries.Pairwise (fun first second => first.1 ≤ second.1)) :
    (keepLast entries).Pairwise (fun first second => first.1 < second.1) := by
  induction entries with
  | nil => simp [keepLast]
  | cons first rest ih =>
    rw [List.pairwise_cons] at h
    have ih := ih h.2
    have le : ∀ entry ∈ keepLast rest, first.1 ≤ entry.1 :=
      fun entry hmem => h.1 entry ((keepLast_sublist rest).subset hmem)
    simp only [keepLast, List.foldr_cons] at ih le ⊢
    generalize List.foldr insertFront [] rest = later at ih le
    cases later with
    | nil => simp [insertFront]
    | cons next others =>
      simp only [insertFront]
      split
      · exact ih
      · rename_i hne
        have hlt : first.1 < next.1 := Std.lt_of_le_of_ne (le next (by simp)) hne
        refine List.pairwise_cons.2 ⟨fun entry hmem => ?_, ih⟩
        rcases List.mem_cons.1 hmem with rfl | hmem
        · exact hlt
        · exact String.lt_trans hlt ((List.pairwise_cons.1 ih).1 entry hmem)

theorem ofList.le_trans (first second third : String × α) (h : le first second)
    (h' : le second third) : le first third :=
  decide_eq_true (String.le_trans (of_decide_eq_true h) (of_decide_eq_true h'))

theorem ofList.le_total (first second : String × α) : le first second || le second first := by
  simpa [le] using String.le_total first.1 second.1

theorem ofList.pairwise_mergeSort (entries : List (String × α)) :
    (entries.mergeSort ofList.le).Pairwise (fun first second => first.1 ≤ second.1) :=
  (List.pairwise_mergeSort le_trans le_total entries).imp of_decide_eq_true

/-- The map of some entries. Where a key repeats, its last value counts. -/
def ofList (entries : List (String × α)) : StringMap α where
  entries := ofList.keepLast (entries.mergeSort ofList.le)
  sorted := ofList.sorted_keepLast (ofList.pairwise_mergeSort entries)

def get? (map : StringMap α) (key : String) : Option α :=
  (map.entries.find? (·.1 = key)).map (·.2)

end StringMap

end CqlWire
