import CqlWire.StringMap

/-!
This module contains why a map is known from its entries, in whatever order they come.
-/

namespace CqlWire

namespace StringMap

variable {α : Type}

theorem ofList.insertFront_of_lt {entry : String × α} {entries : List (String × α)}
    (h : ∀ next ∈ entries, entry.1 < next.1) : insertFront entry entries = entry :: entries := by
  cases entries with
  | nil => rfl
  | cons next rest =>
    rw [insertFront]
    rw [if_neg]
    intro heq
    have hlt := h next (by simp)
    rw [heq] at hlt
    exact String.lt_irrefl _ hlt

theorem ofList.keepLast_of_sorted {entries : List (String × α)}
    (h : entries.Pairwise (fun first second => first.1 < second.1)) :
    keepLast entries = entries := by
  induction entries with
  | nil => rfl
  | cons entry rest ih =>
    rw [List.pairwise_cons] at h
    have ih := ih h.2
    rw [keepLast] at ih ⊢
    rw [List.foldr_cons]
    rw [ih]
    apply insertFront_of_lt h.1

/-- A map holds some of the entries that it is made of, in another order. -/
theorem exists_of_ofList (entries : List (String × α)) :
    ∃ sorted : List (String × α), sorted.Perm entries ∧ (ofList entries).entries.Sublist sorted :=
  ⟨entries.mergeSort ofList.le, List.mergeSort_perm _ _, ofList.keepLast_sublist _⟩

theorem eq_of_key_eq (map : StringMap α) {first second : String × α} (hfirst : first ∈ map.entries)
    (hsecond : second ∈ map.entries) (h : first.1 = second.1) : first = second := by
  have hunequal {first second : String × α} (hlt : first.1 < second.1) : first.1 ≠ second.1 := by
    intro heq
    rw [heq] at hlt
    exact String.lt_irrefl _ hlt
  revert h
  apply List.Pairwise.forall_of_forall_of_flip (l := map.entries)
    (R := fun first second => first.1 = second.1 → first = second)
  · intro entry _ _
    rfl
  · apply map.sorted.imp
    intro first second hlt heq
    exact absurd heq (hunequal hlt)
  · apply map.sorted.imp
    intro first second hlt heq
    exact absurd heq.symm (hunequal hlt)
  · exact hfirst
  · exact hsecond

theorem ofList_of_perm {map : StringMap α} {entries : List (String × α)}
    (h : entries.Perm map.entries) : ofList entries = map := by
  -- There is only one sorted order, since no two entries share a key.
  have hsort : entries.mergeSort ofList.le = map.entries := by
    have hantisymm (first second : String × α) (hfirst : first ∈ entries.mergeSort ofList.le)
        (hsecond : second ∈ map.entries) (hle : first.1 ≤ second.1) (hge : second.1 ≤ first.1) :
        first = second := by
      apply map.eq_of_key_eq
      · apply ((List.mergeSort_perm _ _).trans h).subset hfirst
      · exact hsecond
      · apply String.le_antisymm hle hge
    apply List.Perm.eq_of_pairwise hantisymm
    · apply ofList.pairwise_mergeSort
    · apply map.sorted.imp
      intro first second hlt
      exact Std.le_of_lt hlt
    · apply (List.mergeSort_perm _ _).trans h
  cases map with
  | mk sorted hsorted =>
    rw [ofList]
    simp only [hsort, ofList.keepLast_of_sorted hsorted]

theorem ofList_entries (map : StringMap α) : ofList map.entries = map :=
  ofList_of_perm (.refl _)

theorem ofList.find?_insertFront {entry : String × α} {later : List (String × α)}
    (hsorted : later.Pairwise (fun first second => first.1 < second.1))
    (hle : ∀ next ∈ later, entry.1 ≤ next.1) (key : String) :
    (insertFront entry later).find? (·.1 = key)
      =
    if entry.1 = key then some ((later.find? (·.1 = key)).getD entry)
    else later.find? (·.1 = key) := by
  cases later with
  | nil => by_cases hkey : entry.1 = key <;> simp [insertFront, hkey]
  | cons next others =>
    rw [insertFront]
    split
    · next heq =>
      -- The later entry takes the place of the earlier one.
      rw [List.find?_cons]
      by_cases hkey : entry.1 = key <;> simp [← heq, hkey]
    · next hne =>
      have hlt : entry.1 < next.1 := Std.lt_of_le_of_ne (hle next (by simp)) hne
      split
      · next hkey =>
        have hnone : (next :: others).find? (·.1 = key) = none := by
          rw [List.find?_eq_none]
          intro other hmem heq
          rw [decide_eq_true_iff, ← hkey] at heq
          have hother : entry.1 < other.1 := by
            rcases List.mem_cons.1 hmem with rfl | hmem
            · exact hlt
            · exact String.lt_trans hlt ((List.pairwise_cons.1 hsorted).1 other hmem)
          rw [heq] at hother
          exact String.lt_irrefl _ hother
        rw [hnone, List.find?_cons_of_pos (by simpa using hkey)]
        rfl
      · next hkey => rw [List.find?_cons_of_neg (by simpa using hkey)]

theorem ofList.find?_keepLast {entries : List (String × α)}
    (h : entries.Pairwise (fun first second => first.1 ≤ second.1)) (key : String) :
    (keepLast entries).find? (·.1 = key) = (entries.filter (·.1 = key)).getLast? := by
  induction entries with
  | nil => rfl
  | cons entry rest ih =>
    rw [List.pairwise_cons] at h
    have hle : ∀ next ∈ keepLast rest, entry.1 ≤ next.1 :=
      fun next hmem => h.1 next ((keepLast_sublist rest).subset hmem)
    change (insertFront entry (keepLast rest)).find? _ = _
    rw [find?_insertFront (sorted_keepLast h.2) hle]
    rw [ih h.2]
    split
    · next hkey => rw [List.filter_cons_of_pos (by simpa using hkey), List.getLast?_cons]
    · next hkey => rw [List.filter_cons_of_neg (by simpa using hkey)]

theorem ofList.filter_mergeSort (entries : List (String × α)) (key : String) :
    (entries.mergeSort le).filter (·.1 = key) = entries.filter (·.1 = key) := by
  -- Sorting is stable, so entries of one key stay in their order.
  have hpairwise : (entries.filter (·.1 = key)).Pairwise (fun first second => le first second) := by
    rw [List.pairwise_filter]
    apply List.pairwise_of_forall
    intro first second hfirst hsecond
    rw [decide_eq_true_iff] at hfirst hsecond
    have heq : first.1 = second.1 := hfirst.trans hsecond.symm
    exact decide_eq_true (heq ▸ String.le_refl first.1)
  have hsublist := List.sublist_mergeSort le_trans le_total hpairwise List.filter_sublist
  have hfilter := hsublist.filter (·.1 = key)
  rw [List.filter_filter] at hfilter
  simp only [Bool.and_self] at hfilter
  symm
  apply hfilter.eq_of_length
  exact ((List.mergeSort_perm entries le).filter _).length_eq.symm

theorem get?_ofList (entries : List (String × α)) (key : String) :
    (ofList entries).get? key = (entries.filter (·.1 = key)).getLast?.map (·.2) := by
  unfold get? ofList
  dsimp only
  rw [ofList.find?_keepLast (ofList.pairwise_mergeSort entries)]
  rw [ofList.filter_mergeSort]

theorem get?_ofList_eq_some_iff {entries : List (String × α)} {key : String} {a : α} :
    (ofList entries).get? key = some a
      ↔
    ∃ front back, entries = front ++ (key, a) :: back ∧ ∀ entry ∈ back, entry.1 ≠ key := by
  rw [get?_ofList]
  rw [List.getLast?_filter]
  rw [Option.map_eq_some_iff]
  constructor
  · rintro ⟨entry, hfind, rfl⟩
    obtain ⟨hkey, back, front, hreverse, hback⟩ := List.find?_eq_some_iff_append.1 hfind
    rw [List.reverse_eq_append_iff] at hreverse
    refine ⟨front.reverse, back.reverse, ?_, ?_⟩
    · rw [hreverse]
      simp [← of_decide_eq_true hkey]
    · intro other hmem
      simpa using hback other (List.mem_reverse.1 hmem)
  · rintro ⟨front, back, rfl, hback⟩
    refine ⟨(key, a), ?_, rfl⟩
    rw [List.find?_eq_some_iff_append]
    refine ⟨by simp, back.reverse, front.reverse, by simp, ?_⟩
    intro entry hmem
    simpa using hback entry (List.mem_reverse.1 hmem)

end StringMap

end CqlWire
