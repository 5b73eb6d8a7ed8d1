import Mathlib.Algebra.Field.ZMod
import Mathlib.Algebra.Polynomial.FieldDivision
import Mathlib.Data.Nat.Bitwise
import Mathlib.Data.Nat.Size

/-!
This module contains the polynomials over the field of two elements that numbers stand for. The bits
of a number are the coefficients, so sums without carry are sums of polynomials.
-/

namespace CqlWire

open Polynomial

def bitValue (bit : Bool) : ZMod 2 :=
  if bit then 1 else 0

noncomputable def ofBits (count : Nat) (bit : Nat → Bool) : (ZMod 2)[X] :=
  ∑ i ∈ Finset.range count, C (bitValue (bit i)) * X ^ i

/-- The lowest bit of a number is the constant term. -/
noncomputable def bitPolynomial (n : Nat) : (ZMod 2)[X] :=
  ofBits n.size n.testBit

theorem bitValue_xor (b b' : Bool) : bitValue (b ^^ b') = bitValue b + bitValue b' := by
  cases b <;> cases b' <;> decide

theorem bitValue_injective : Function.Injective bitValue := by
  decide

theorem coeff_ofBits (count : Nat) (bit : Nat → Bool) (i : Nat) :
    (ofBits count bit).coeff i = bitValue (decide (i < count) && bit i) := by
  unfold ofBits
  rw [finsetSum_coeff]
  simp only [coeff_C_mul_X_pow]
  rw [Finset.sum_ite_eq]
  simp only [Finset.mem_range]
  by_cases h : i < count
  · simp [h]
  · simp [h, bitValue]

theorem ofBits_xor (count : Nat) (bit bit' : Nat → Bool) :
    ofBits count (fun i => bit i ^^ bit' i) = ofBits count bit + ofBits count bit' := by
  ext i
  rw [coeff_add]
  rw [coeff_ofBits, coeff_ofBits, coeff_ofBits]
  rw [Bool.and_xor_distrib_left]
  apply bitValue_xor

theorem coeff_bitPolynomial (n i : Nat) : (bitPolynomial n).coeff i = bitValue (n.testBit i) := by
  unfold bitPolynomial
  rw [coeff_ofBits]
  congr 1
  cases hbit : n.testBit i with
  | false => apply Bool.and_false
  | true =>
    have hlt : i < n.size := Nat.lt_size.2 (Nat.ge_two_pow_of_testBit hbit)
    simp [hlt]

theorem bitPolynomial_injective : Function.Injective bitPolynomial := by
  intro m n h
  apply Nat.eq_of_testBit_eq
  intro i
  apply bitValue_injective
  rw [← coeff_bitPolynomial, ← coeff_bitPolynomial]
  rw [h]

theorem bitPolynomial_xor (m n : Nat) :
    bitPolynomial (m ^^^ n) = bitPolynomial m + bitPolynomial n := by
  ext i
  rw [coeff_add]
  rw [coeff_bitPolynomial, coeff_bitPolynomial, coeff_bitPolynomial]
  rw [Nat.testBit_xor]
  apply bitValue_xor

theorem bitPolynomial_two_pow_mul (k n : Nat) :
    bitPolynomial (2 ^ k * n) = X ^ k * bitPolynomial n := by
  ext i
  rw [coeff_X_pow_mul']
  rw [coeff_bitPolynomial, coeff_bitPolynomial]
  rw [Nat.testBit_two_pow_mul]
  by_cases h : k ≤ i
  · simp [h]
  · simp [h, bitValue]

theorem degree_bitPolynomial_lt_iff {n k : Nat} : (bitPolynomial n).degree < k ↔ n < 2 ^ k := by
  rw [degree_lt_iff_coeff_zero]
  simp only [coeff_bitPolynomial]
  constructor
  · intro hzero
    apply Nat.lt_pow_two_of_testBit
    intro i hi
    exact bitValue_injective (hzero i hi)
  · intro hlt i hi
    have hle : 2 ^ k ≤ 2 ^ i := Nat.pow_le_pow_right (by decide) hi
    rw [Nat.testBit_lt_two_pow (Nat.lt_of_lt_of_le hlt hle)]
    rfl

theorem degree_bitPolynomial {n k : Nat} (hle : 2 ^ k ≤ n) (hlt : n < 2 ^ (k + 1)) :
    (bitPolynomial n).degree = k := by
  apply le_antisymm
  · have hzero := (degree_lt_iff_coeff_zero _ _).1 (degree_bitPolynomial_lt_iff.2 hlt)
    rw [degree_le_iff_coeff_zero]
    intro i hi
    apply hzero
    exact Nat.cast_lt.1 hi
  · rw [← not_lt, degree_bitPolynomial_lt_iff]
    exact Nat.not_lt_of_le hle

end CqlWire
