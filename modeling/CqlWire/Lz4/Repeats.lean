import CqlWire.Lz4.Block

/-!
This module contains the search for repeated bytes that turns an input into an LZ4 block. Positions
are remembered by a hash of the bytes at them, one position per hash.
-/

namespace CqlWire

namespace Lz4

def maxOffset : Nat := 65535

/-- No copy starts in the last bytes of an input. -/
def searchMargin : Nat := 12

/-- No copy takes in the last bytes of an input. -/
def copyMargin : Nat := 6

variable (input : Array UInt8)

def word (position : Nat) : UInt32 :=
  (input.getD position 0).toUInt32
    ||| (input.getD (position + 1) 0).toUInt32 <<< 8
    ||| (input.getD (position + 2) 0).toUInt32 <<< 16
    ||| (input.getD (position + 3) 0).toUInt32 <<< 24

def hashOfFour (position : Nat) : Nat :=
  ((word input position * 2654435761) >>> 20).toNat

def hashOfFive (position : Nat) : Nat :=
  let five := (word input position).toUInt64
    ||| (input.getD (position + 4) 0).toUInt64 <<< 32
  (((five <<< 24) * 889523592379) >>> 52).toNat

def hash (position : Nat) : Nat :=
  if input.size < 65535 then hashOfFour input position else hashOfFive input position

abbrev Table := Array Nat

def Table.empty : Table := Array.replicate 4096 0

/-- A position at or behind `start` at which the four bytes at `source` come again. -/
structure Repeat (start : Nat) where
  position : Nat
  source : Nat
  start_le : start ≤ position
  position_add_le : position + searchMargin ≤ input.size
  source_lt : source < position
  le_source_add : position ≤ source + maxOffset
  word_eq : word input source = word input position

/--
The next repeat, from `position` on, and the positions remembered on the way. The more positions
were tried in vain, the farther apart the next ones are.
-/
def search {start : Nat} (table : Table) (tries position : Nat) (h : start ≤ position) :
    Option (Repeat input start) × Table :=
  if hmargin : input.size < position + searchMargin then (none, table)
  else
    let slot := hash input position
    let source := table.getD slot 0
    let table := table.setIfInBounds slot position
    if hsource : source < position ∧ position ≤ source + maxOffset
        ∧ word input source = word input position then
      (some ⟨position, source, h, by omega, hsource.1, hsource.2.1, hsource.2.2⟩, table)
    else
      search table (tries + 1) (position + (1 + tries / 32)) (by omega)
termination_by input.size - position
decreasing_by
  simp only [searchMargin] at hmargin
  omega

def backward (start : Nat) : (position source : Nat) → Nat × Nat
  | position + 1, source + 1 =>
    if start < position + 1 ∧ input.getD position 0 = input.getD source 0 then
      backward start position source
    else
      (position + 1, source + 1)
  | position, source => (position, source)

theorem start_le_backward {start position : Nat} (source : Nat) (h : start ≤ position) :
    start ≤ (backward input start position source).1 := by
  fun_induction backward input start position source with
  | case1 position source hgo ih => exact ih (by omega)
  | case2 => exact h
  | case3 => exact h

def forward (limit position source : Nat) : Nat :=
  if position < limit ∧ input.getD position 0 = input.getD source 0 then
    forward limit (position + 1) (source + 1)
  else
    position
termination_by limit - position

theorem le_forward (limit position source : Nat) :
    position ≤ forward input limit position source := by
  fun_induction forward input limit position source with
  | case1 position source _ ih => omega
  | case2 => exact Nat.le_refl _

def sequencesOf.go (table : Table) (start : Nat) (done : List Sequence) : List Sequence × Nat :=
  match search input table 0 (max start 1) (Nat.le_max_left start 1) with
  | (none, _) => (done.reverse, start)
  | (some found, table) =>
    let begins := backward input start found.position found.source
    let ends := forward input (input.size - copyMargin) (begins.1 + minCopy) (begins.2 + minCopy)
    let sequence : Sequence :=
      ⟨(input.extract start begins.1).toList, begins.1 - begins.2, ends - begins.1⟩
    let table := table.setIfInBounds (hash input (ends - 2)) (ends - 2)
    go table ends (sequence :: done)
termination_by input.size - start
decreasing_by
  have h₁ := found.start_le
  have h₂ := found.position_add_le
  have h₃ := start_le_backward input found.source h₁
  have h₄ := le_forward input (input.size - copyMargin)
    ((backward input start found.position found.source).1 + minCopy)
    ((backward input start found.position found.source).2 + minCopy)
  simp only [searchMargin, minCopy] at h₂ h₄ ⊢
  omega

def sequencesOf : List Sequence × Nat :=
  if input.size < 13 then ([], 0)
  else sequencesOf.go input Table.empty 0 []

def Block.ofInput (bytes : Bytes) : Block :=
  let input := bytes.toArray
  let (done, start) := sequencesOf input
  ⟨done, (input.extract start input.size).toList⟩

def compress (bytes : Bytes) : Bytes :=
  (Block.ofInput bytes).render

end Lz4

end CqlWire
