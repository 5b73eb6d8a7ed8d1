import CqlWire.Lz4.Repeats

/-!
This module contains why the sequences of an input retell it: whatever positions are remembered,
what is copied equals the bytes at its place, and each sequence goes on where the last one ends.
-/

namespace CqlWire

namespace Lz4

variable {input : Array UInt8}

def Repeats (input : Array UInt8) (offset position length : Nat) : Prop :=
  ∀ k, k < length → input.getD (position + k) 0 = input.getD (position + k - offset) 0

namespace Repeats

theorem zero (offset position : Nat) : Repeats input offset position 0 := by
  intro k hk
  omega

theorem one {offset position : Nat}
    (h : input.getD position 0 = input.getD (position - offset) 0) :
    Repeats input offset position 1 := by
  intro k hk
  obtain rfl : k = 0 := by omega
  exact h

theorem append {offset position first second : Nat} (hfirst : Repeats input offset position first)
    (hsecond : Repeats input offset (position + first) second) :
    Repeats input offset position (first + second) := by
  intro k hk
  by_cases hlt : k < first
  · apply hfirst k hlt
  · have := hsecond (k - first) (by omega)
    rw [show position + first + (k - first) = position + k by omega] at this
    exact this

theorem of_le {offset position length length' : Nat} (h : Repeats input offset position length)
    (hle : length' ≤ length) : Repeats input offset position length' := by
  intro k hk
  apply h
  omega

end Repeats

theorem toUInt8_shiftRight_word (position k : Nat) (hk : k < 4) :
    (word input position >>> UInt32.ofNat (8 * k)).toUInt8 = input.getD (position + k) 0 := by
  unfold word
  apply UInt8.toBitVec_inj.1
  match k, hk with
  | 0, _ =>
    ext i hi
    simp
  | 1, _ | 2, _ | 3, _ =>
    ext i hi
    simp
    grind

theorem repeats_of_word_eq {position source : Nat} (hlt : source < position)
    (h : word input source = word input position) :
    Repeats input (position - source) position minCopy := by
  intro k hk
  rw [show position + k - (position - source) = source + k by omega]
  rw [← toUInt8_shiftRight_word position k hk]
  rw [← toUInt8_shiftRight_word source k hk]
  rw [h]

theorem backward_repeats (start position source : Nat) (hlt : source < position) :
    let begins := backward input start position source
    begins.1 + source = begins.2 + position
      ∧ begins.1 ≤ position
      ∧ Repeats input (position - source) begins.1 (position - begins.1) := by
  fun_induction backward input start position source with
  | case1 position source hgo ih =>
    obtain ⟨heq, hle, hrepeats⟩ := ih (by omega)
    refine ⟨by omega, by omega, ?_⟩
    rw [Nat.succ_sub_succ]
    rw [Nat.succ_sub hle]
    rw [Nat.succ_eq_add_one]
    apply hrepeats.append
    rw [Nat.add_sub_cancel' hle]
    apply Repeats.one
    rw [show position - (position - source) = source by omega]
    exact hgo.2
  | case2 position source hstop =>
    refine ⟨by omega, by omega, ?_⟩
    rw [Nat.sub_self]
    apply Repeats.zero
  | case3 position source hstop =>
    refine ⟨by omega, by omega, ?_⟩
    rw [Nat.sub_self]
    apply Repeats.zero

theorem forward_repeats (limit position source : Nat) (hlt : source < position) :
    Repeats input (position - source) position
      (forward input limit position source - position) := by
  fun_induction forward input limit position source with
  | case1 position source hgo ih =>
    have hrest := ih (by omega)
    have hle := le_forward input limit (position + 1) (source + 1)
    rw [Nat.add_sub_add_right] at hrest
    rw [show forward input limit (position + 1) (source + 1) - position
        = 1 + (forward input limit (position + 1) (source + 1) - (position + 1)) by omega]
    apply Repeats.append
    · apply Repeats.one
      rw [show position - (position - source) = source by omega]
      exact hgo.2
    · exact hrest
  | case2 position source hstop =>
    rw [Nat.sub_self]
    apply Repeats.zero

theorem forward_le (limit position source : Nat) :
    forward input limit position source ≤ max limit position := by
  fun_induction forward input limit position source with
  | case1 position source hgo ih => omega
  | case2 position source hstop => omega

/-- Behind the first `start` bytes of an input, a sequence tells how it goes on. -/
structure Sequence.Fits (input : Array UInt8) (start : Nat) (sequence : Sequence) : Prop where
  literals_eq : sequence.literals
    = (input.extract start (start + sequence.literals.length)).toList
  repeats : Repeats input sequence.offset (start + sequence.literals.length) sequence.length
  offset_pos : 0 < sequence.offset
  offset_le_maxOffset : sequence.offset ≤ maxOffset
  offset_le : sequence.offset ≤ start + sequence.literals.length
  minCopy_le : minCopy ≤ sequence.length
  end_le : start + sequence.literals.length + sequence.length ≤ input.size

/-- Sequences tell how an input goes on from one position up to another. -/
inductive Retells (input : Array UInt8) : Nat → List Sequence → Nat → Prop
  | nil {stop : Nat} (hle : stop ≤ input.size) : Retells input stop [] stop
  | cons {start stop : Nat} {sequence : Sequence} {rest : List Sequence}
      (hfits : sequence.Fits input start)
      (hrest : Retells input (start + sequence.literals.length + sequence.length) rest stop) :
      Retells input start (sequence :: rest) stop

theorem Repeat.widened {start : Nat} (found : Repeat input start) :
    let begins := backward input start found.position found.source
    let ends := forward input (input.size - copyMargin) (begins.1 + minCopy) (begins.2 + minCopy)
    begins.1 - begins.2 = found.position - found.source
      ∧ begins.1 ≤ found.position
      ∧ begins.1 + minCopy ≤ ends
      ∧ Repeats input (found.position - found.source) begins.1 (ends - begins.1) := by
  intro begins ends
  obtain ⟨hdiff, hle, hback⟩ : begins.1 + found.source = begins.2 + found.position
      ∧ begins.1 ≤ found.position
      ∧ Repeats input (found.position - found.source) begins.1 (found.position - begins.1) :=
    backward_repeats start found.position found.source found.source_lt
  have hsource := found.source_lt
  have hoffset : begins.1 - begins.2 = found.position - found.source := by omega
  have hends : begins.1 + minCopy ≤ ends := le_forward input _ _ _
  refine ⟨hoffset, hle, hends, ?_⟩
  have hword := repeats_of_word_eq hsource found.word_eq
  have hforth : Repeats input (begins.1 + minCopy - (begins.2 + minCopy)) (begins.1 + minCopy)
      (ends - (begins.1 + minCopy)) :=
    forward_repeats (input.size - copyMargin) (begins.1 + minCopy) (begins.2 + minCopy) (by omega)
  rw [Nat.add_sub_add_right, hoffset] at hforth
  -- The bytes of the repeat and those in front of it make up the least length of a copy.
  have hshort : Repeats input (found.position - found.source) begins.1 minCopy := by
    have hfound : Repeats input (found.position - found.source) begins.1
        (found.position - begins.1 + minCopy) := by
      apply hback.append
      rw [Nat.add_sub_cancel' hle]
      exact hword
    apply hfound.of_le
    omega
  have hlong := hshort.append hforth
  rw [show minCopy + (ends - (begins.1 + minCopy)) = ends - begins.1 by omega] at hlong
  exact hlong

theorem Repeat.fits {start : Nat} (found : Repeat input start) :
    let begins := backward input start found.position found.source
    let ends := forward input (input.size - copyMargin) (begins.1 + minCopy) (begins.2 + minCopy)
    let sequence : Sequence :=
      ⟨(input.extract start begins.1).toList, begins.1 - begins.2, ends - begins.1⟩
    sequence.Fits input start ∧ start + sequence.literals.length + sequence.length = ends := by
  intro begins ends sequence
  obtain ⟨hoffset, hle, hends, hrepeats⟩ : begins.1 - begins.2 = found.position - found.source
      ∧ begins.1 ≤ found.position
      ∧ begins.1 + minCopy ≤ ends
      ∧ Repeats input (found.position - found.source) begins.1 (ends - begins.1) := found.widened
  have hsource := found.source_lt
  have hmargin := found.position_add_le
  have hreach := found.le_source_add
  have hstart : start ≤ begins.1 := start_le_backward input found.source found.start_le
  have hsize : ends ≤ max (input.size - copyMargin) (begins.1 + minCopy) := forward_le _ _ _
  simp only [searchMargin, copyMargin, minCopy] at hmargin hsize hends
  have hliterals : start + sequence.literals.length = begins.1 := by
    simp [sequence]
    omega
  have hlength : sequence.length = ends - begins.1 := rfl
  have hdistance : sequence.offset = found.position - found.source := hoffset
  have hfits : sequence.Fits input start := {
    literals_eq := by rw [hliterals]
    repeats := by
      rw [hliterals, hdistance]
      exact hrepeats
    offset_pos := by omega
    offset_le_maxOffset := by omega
    offset_le := by omega
    minCopy_le := by
      simp only [minCopy]
      omega
    end_le := by omega
  }
  refine ⟨hfits, ?_⟩
  omega

theorem sequencesOf.go_retells (table : Table) (start : Nat) (done : List Sequence)
    (hstart : start ≤ input.size) :
    ∃ sequences stop, sequencesOf.go input table start done = (done.reverse ++ sequences, stop)
      ∧ Retells input start sequences stop := by
  -- The table of positions says where to look only; what is found there is compared.
  fun_induction sequencesOf.go input table start done with
  | case1 table start done table' hsearch =>
    refine ⟨[], start, ?_, .nil hstart⟩
    rw [List.append_nil]
  | case2 table start done found table' hsearch begins ends sequence table'' ih =>
    obtain ⟨hfits, hends⟩ := found.fits
    have hsize := hfits.end_le
    rw [hends] at hsize
    obtain ⟨sequences, stop, heq, hretells⟩ := ih hsize
    refine ⟨sequence :: sequences, stop, ?_, ?_⟩
    · rw [heq]
      rw [List.reverse_cons]
      rw [List.append_assoc]
      rfl
    · apply Retells.cons hfits
      rw [hends]
      exact hretells

theorem sequencesOf_retells (input : Array UInt8) :
    Retells input 0 (sequencesOf input).1 (sequencesOf input).2 := by
  unfold sequencesOf
  split
  · apply Retells.nil
    omega
  · obtain ⟨sequences, stop, heq, hretells⟩ :=
      sequencesOf.go_retells Table.empty 0 [] (Nat.zero_le input.size)
    rw [heq]
    exact hretells

theorem Retells.stop_le {start stop : Nat} {sequences : List Sequence}
    (h : Retells input start sequences stop) : stop ≤ input.size := by
  induction h with
  | nil hle => exact hle
  | cons _ _ ih => exact ih

end Lz4

end CqlWire
