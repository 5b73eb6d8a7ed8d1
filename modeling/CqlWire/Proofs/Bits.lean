import CqlWire.Bytes
import Mathlib.Data.Finset.Card
import Mathlib.Data.Nat.Bitwise

/-!
This module contains the bits of byte strings, and what sets two strings apart: some bits that were
flipped, or some bytes in a row.
-/

namespace CqlWire

namespace Bytes

variable {bytes bytes' : Bytes} {i : Nat}

/-- The bits of each byte count from the lowest. -/
def bit (bytes : Bytes) (i : Nat) : Bool :=
  (bytes.getD (i / 8) 0).toNat.testBit (i % 8)

def flip (bytes : Bytes) (i : Nat) : Bytes :=
  bytes.modify (i / 8) (· ^^^ UInt8.ofNat (2 ^ (i % 8)))

def differing (bytes bytes' : Bytes) : Finset Nat :=
  (Finset.range (8 * bytes.length)).filter fun i => bit bytes i ≠ bit bytes' i

/-- All that sets two strings apart is in some bytes in a row. -/
structure SameOutside (start count : Nat) (bytes bytes' : Bytes) : Prop where
  length_eq : bytes'.length = bytes.length
  take_eq : bytes'.take start = bytes.take start
  drop_eq : bytes'.drop (start + count) = bytes.drop (start + count)

theorem mem_differing_iff :
    i ∈ differing bytes bytes' ↔ i < 8 * bytes.length ∧ bit bytes i ≠ bit bytes' i := by
  unfold differing
  rw [Finset.mem_filter, Finset.mem_range]

@[simp]
theorem length_flip (bytes : Bytes) (i : Nat) : (flip bytes i).length = bytes.length :=
  List.length_modify _ _ _

theorem exists_of_lt (h : i < 8 * bytes.length) :
    ∃ front b back, bytes = front ++ b :: back
      ∧ front.length = i / 8
      ∧ flip bytes i = front ++ (b ^^^ UInt8.ofNat (2 ^ (i % 8))) :: back := by
  have hlt : i / 8 < bytes.length := by omega
  refine ⟨bytes.take (i / 8), bytes[i / 8], bytes.drop (i / 8 + 1), ?_, ?_, ?_⟩
  · rw [← List.drop_eq_getElem_cons hlt]
    rw [List.take_append_drop]
  · rw [List.length_take]
    omega
  · exact List.modify_eq_take_cons_drop hlt

theorem toNat_ofNat_two_pow {k : Nat} (h : k < 8) : (UInt8.ofNat (2 ^ k)).toNat = 2 ^ k := by
  apply UInt8.toNat_ofNat_of_lt'
  exact Nat.pow_lt_pow_right (by decide) h

theorem bit_flip (h : i < 8 * bytes.length) (j : Nat) :
    bit (flip bytes i) j = (bit bytes j ^^ decide (i = j)) := by
  have hk : i % 8 < 8 := Nat.mod_lt _ (by decide)
  unfold bit flip
  rw [List.getD_eq_getElem?_getD, List.getD_eq_getElem?_getD]
  rw [List.getElem?_modify]
  by_cases hbyte : i / 8 = j / 8
  · simp only [if_pos hbyte]
    have hlt : j / 8 < bytes.length := by omega
    rw [List.getElem?_eq_getElem hlt]
    simp only [Option.map_eq_map, Option.map_some, Option.getD_some]
    rw [UInt8.toNat_xor, Nat.testBit_xor]
    rw [toNat_ofNat_two_pow hk, Nat.testBit_two_pow]
    congr 2
    rw [eq_iff_iff]
    omega
  · have hne : i ≠ j := by
      rintro rfl
      exact hbyte rfl
    simp [hbyte, hne]

theorem flip_ne (h : i < 8 * bytes.length) : flip bytes i ≠ bytes := by
  intro heq
  have hbit := bit_flip h i
  rw [heq] at hbit
  cases hold : bit bytes i <;> simp [hold] at hbit

theorem getD_eq_of_bit_eq {k : Nat} (h : ∀ j < 8, bit bytes' (8 * k + j) = bit bytes (8 * k + j)) :
    bytes'.getD k 0 = bytes.getD k 0 := by
  rw [← UInt8.toNat_inj]
  apply Nat.eq_of_testBit_eq
  intro j
  by_cases hj : j < 8
  · have hbit := h j hj
    unfold bit at hbit
    rw [show (8 * k + j) / 8 = k by omega] at hbit
    rw [show (8 * k + j) % 8 = j by omega] at hbit
    exact hbit
  · have hle : 2 ^ 8 ≤ 2 ^ j := Nat.pow_le_pow_right (by decide) (Nat.le_of_not_lt hj)
    rw [Nat.testBit_lt_two_pow (Nat.lt_of_lt_of_le (UInt8.toNat_lt _) hle)]
    rw [Nat.testBit_lt_two_pow (Nat.lt_of_lt_of_le (UInt8.toNat_lt _) hle)]

theorem getElem_eq_of_bit_eq {k : Nat} (h : k < bytes.length) (h' : k < bytes'.length)
    (hbits : ∀ j < 8, bit bytes' (8 * k + j) = bit bytes (8 * k + j)) : bytes'[k] = bytes[k] := by
  have hgetD := getD_eq_of_bit_eq hbits
  rw [List.getD_eq_getElem?_getD, List.getElem?_eq_getElem h'] at hgetD
  rw [List.getD_eq_getElem?_getD, List.getElem?_eq_getElem h] at hgetD
  exact hgetD

theorem eq_of_bit_eq (hlength : bytes'.length = bytes.length)
    (h : ∀ i < 8 * bytes.length, bit bytes' i = bit bytes i) : bytes' = bytes := by
  apply List.ext_getElem hlength
  intro k h₁ h₂
  apply getElem_eq_of_bit_eq h₂ h₁
  intro j hj
  apply h
  omega

theorem eq_of_differing_eq_empty (hlength : bytes'.length = bytes.length)
    (h : differing bytes bytes' = ∅) : bytes' = bytes := by
  apply eq_of_bit_eq hlength
  intro i hi
  have hmem : i ∉ differing bytes bytes' := by
    rw [h]
    exact Finset.notMem_empty i
  rw [mem_differing_iff] at hmem
  exact (Decidable.not_not.1 fun hne => hmem ⟨hi, Ne.symm hne⟩)

theorem differing_flip (h : i ∈ differing bytes bytes') :
    differing (flip bytes i) bytes' = (differing bytes bytes').erase i := by
  obtain ⟨hi, hne⟩ := mem_differing_iff.1 h
  ext j
  rw [Finset.mem_erase, mem_differing_iff, mem_differing_iff]
  rw [length_flip, bit_flip hi]
  by_cases hij : i = j
  · subst hij
    cases hbit : bit bytes i <;> cases hbit' : bit bytes' i <;> simp_all
  · simp [hij, Ne.symm hij]

theorem differing_self_flip (h : i < 8 * bytes.length) : differing bytes (flip bytes i) = {i} := by
  ext j
  rw [Finset.mem_singleton, mem_differing_iff, bit_flip h]
  by_cases hij : i = j
  · subst hij
    cases bit bytes i <;> simp [h]
  · simp [hij, Ne.symm hij]

theorem eq_flip_of_differing_eq (hlength : bytes'.length = bytes.length)
    (h : differing bytes bytes' = {i}) : bytes' = flip bytes i := by
  apply eq_of_differing_eq_empty
  · rw [length_flip]
    exact hlength
  · rw [differing_flip (h ▸ Finset.mem_singleton_self i)]
    rw [h]
    exact Finset.erase_singleton i

theorem eq_flip_flip_of_differing_eq {j : Nat} (hlength : bytes'.length = bytes.length)
    (hne : i ≠ j) (h : differing bytes bytes' = {i, j}) : bytes' = flip (flip bytes i) j := by
  apply eq_flip_of_differing_eq
  · rw [length_flip]
    exact hlength
  · rw [differing_flip (h ▸ Finset.mem_insert_self i {j})]
    rw [h]
    apply Finset.erase_insert
    rw [Finset.mem_singleton]
    exact hne

/-- What each flip inverts tells from the other string whether the number of flips is odd. -/
theorem eq_xor_odd_of_flip {f : Bytes → Bool} {length : Nat}
    (hflip : ∀ bytes i, bytes.length = length → i < 8 * length → f (flip bytes i) = !f bytes)
    (hbytes : bytes.length = length) (hbytes' : bytes'.length = length) :
    f bytes' = (f bytes ^^ decide ((differing bytes bytes').card % 2 = 1)) := by
  generalize hcard : (differing bytes bytes').card = card
  induction card generalizing bytes with
  | zero =>
    rw [Finset.card_eq_zero] at hcard
    rw [eq_of_differing_eq_empty (hbytes'.trans hbytes.symm) hcard]
    exact (Bool.xor_false _).symm
  | succ card ih =>
    obtain ⟨i, hmem⟩ := Finset.card_pos.1 (by omega : 0 < (differing bytes bytes').card)
    have hi := (mem_differing_iff.1 hmem).1
    have hcard' : (differing (flip bytes i) bytes').card = card := by
      rw [differing_flip hmem, Finset.card_erase_of_mem hmem, hcard]
      rfl
    rw [ih ((length_flip bytes i).trans hbytes) hcard']
    rw [hflip bytes i hbytes (hbytes ▸ hi)]
    have hparity : decide ((card + 1) % 2 = 1) = !decide (card % 2 = 1) := by
      rw [← decide_not, decide_eq_decide]
      omega
    rw [hparity]
    cases f bytes <;> cases decide (card % 2 = 1) <;> rfl

theorem sameOutside_of_differing {start count : Nat} (hlength : bytes'.length = bytes.length)
    (h : ∀ i ∈ differing bytes bytes', 8 * start ≤ i ∧ i < 8 * (start + count)) :
    SameOutside start count bytes bytes' := by
  have hsame : ∀ k (h₁ : k < bytes.length) (h₂ : k < bytes'.length),
      (k < start ∨ start + count ≤ k) → bytes'[k] = bytes[k] := by
    intro k h₁ h₂ hk
    apply getElem_eq_of_bit_eq
    intro j hj
    by_contra hne
    have := h (8 * k + j) (mem_differing_iff.2 ⟨by omega, Ne.symm hne⟩)
    omega
  refine ⟨hlength, ?_, ?_⟩
  · apply List.ext_getElem
    · rw [List.length_take, List.length_take, hlength]
    · intro k h₁ h₂
      rw [List.length_take] at h₁ h₂
      rw [List.getElem_take, List.getElem_take]
      apply hsame
      omega
  · apply List.ext_getElem
    · rw [List.length_drop, List.length_drop, hlength]
    · intro k h₁ h₂
      rw [List.getElem_drop, List.getElem_drop]
      apply hsame
      omega

theorem sameOutside_flip (h : i < 8 * bytes.length) {count : Nat} (hcount : 0 < count) :
    SameOutside (i / 8) count bytes (flip bytes i) := by
  apply sameOutside_of_differing (length_flip bytes i)
  rw [differing_self_flip h]
  intro j hj
  rw [Finset.mem_singleton] at hj
  omega

namespace SameOutside

variable {start count : Nat}

theorem exists_inside (h : SameOutside start count bytes bytes') (hle : count ≤ bytes.length) :
    ∃ start', start' + count ≤ bytes.length ∧ SameOutside start' count bytes bytes' := by
  by_cases hinside : start + count ≤ bytes.length
  · exact ⟨start, hinside, h⟩
  · -- The bytes in a row end with the string.
    refine ⟨bytes.length - count, by omega, h.length_eq, ?_, ?_⟩
    · have htake := congrArg (List.take (bytes.length - count)) h.take_eq
      rw [List.take_take, List.take_take] at htake
      rw [Nat.min_eq_left (by omega)] at htake
      exact htake
    · rw [Nat.sub_add_cancel hle]
      rw [List.drop_length]
      rw [← h.length_eq, List.drop_length]

theorem exists_window (h : SameOutside start count bytes bytes')
    (hle : start + count ≤ bytes.length) :
    ∃ front window window' back, bytes = front ++ window ++ back
      ∧ bytes' = front ++ window' ++ back
      ∧ front.length = start ∧ window.length = count ∧ window'.length = count := by
  have hsplit : ∀ bytes : Bytes,
      bytes = bytes.take start ++ (bytes.drop start).take count ++ bytes.drop (start + count) := by
    intro bytes
    rw [List.append_assoc, ← List.drop_drop, List.take_append_drop, List.take_append_drop]
  refine ⟨bytes.take start, (bytes.drop start).take count, (bytes'.drop start).take count,
    bytes.drop (start + count), hsplit bytes, ?_, ?_, ?_, ?_⟩
  · rw [← h.take_eq, ← h.drop_eq]
    exact hsplit bytes'
  · rw [List.length_take]
    omega
  · rw [List.length_take, List.length_drop]
    omega
  · rw [List.length_take, List.length_drop, h.length_eq]
    omega

end SameOutside

end Bytes

end CqlWire
