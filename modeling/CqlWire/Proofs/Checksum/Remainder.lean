import CqlWire.Proofs.Checksum.Crc24
import CqlWire.Proofs.Checksum.Polynomial
import Mathlib.RingTheory.AdjoinRoot

/-!
This module contains that the checksum of segment headers is a remainder of polynomials. In the ring
of remainders a shift of the register is a product with the variable, so a run over bytes is a sum of
products there.
-/

namespace CqlWire

namespace Crc24

open Polynomial

noncomputable def modulus : (ZMod 2)[X] :=
  bitPolynomial divisor.toNat

/--
The low bytes of a number as a message: the lowest byte comes first, and in each byte the highest
bit. What comes first has the highest power.
-/
noncomputable def message (value length : Nat) : (ZMod 2)[X] :=
  ofBits (8 * length) fun i => value.testBit (8 * (length - 1 - i / 8) + i % 8)

noncomputable def residue (register : UInt32) : AdjoinRoot modulus :=
  AdjoinRoot.mk modulus (bitPolynomial register.toNat)

variable {register : UInt32}

theorem message_xor (value value' length : Nat) :
    message (value ^^^ value') length = message value length + message value' length := by
  unfold message
  rw [← ofBits_xor]
  simp only [Nat.testBit_xor]

theorem message_zero (length : Nat) : message 0 length = 0 := by
  have hxor := message_xor 0 0 length
  rw [Nat.xor_self] at hxor
  exact left_eq_add.1 hxor

theorem message_succ (value length : Nat) :
    message value (length + 1)
      =
    X ^ (8 * length) * bitPolynomial (value % 2 ^ 8) + message (value / 2 ^ 8) length := by
  ext i
  unfold message
  rw [coeff_add, coeff_X_pow_mul']
  rw [coeff_bitPolynomial, coeff_ofBits, coeff_ofBits]
  rw [Nat.testBit_mod_two_pow, Nat.testBit_div_two_pow]
  by_cases hlt : i < 8 * length
  · -- A byte behind the first.
    have hplace : 8 * (length + 1 - 1 - i / 8) + i % 8 = 8 * (length - 1 - i / 8) + i % 8 + 8 := by
      omega
    have hlt' : i < 8 * (length + 1) := by omega
    rw [hplace]
    rw [if_neg (Nat.not_le_of_lt hlt), zero_add]
    simp [hlt, hlt']
  · -- The first byte.
    have hle : 8 * length ≤ i := Nat.le_of_not_lt hlt
    have hlt' : i < 8 * (length + 1) ↔ i - 8 * length < 8 := by omega
    have hempty : bitValue (decide (i < 8 * length)
        && value.testBit (8 * (length - 1 - i / 8) + i % 8 + 8)) = 0 := by
      simp [hlt, bitValue]
    rw [hempty, add_zero]
    rw [if_pos hle]
    simp only [hlt']
    by_cases hbyte : i - 8 * length < 8
    · have hplace : 8 * (length + 1 - 1 - i / 8) + i % 8 = i - 8 * length := by omega
      rw [hplace]
    · simp [hbyte]

theorem residue_xor (a b : UInt32) : residue (a ^^^ b) = residue a + residue b := by
  unfold residue
  rw [UInt32.toNat_xor, bitPolynomial_xor, map_add]

theorem residue_shift (h : division.Fits register) :
    residue (division.shift register) = AdjoinRoot.root modulus * residue register := by
  have hdouble : AdjoinRoot.mk modulus (bitPolynomial (2 * register.toNat))
      = AdjoinRoot.root modulus * residue register := by
    rw [show 2 * register.toNat = 2 ^ 1 * register.toNat by rw [Nat.pow_one]]
    rw [bitPolynomial_two_pow_mul, map_mul, map_pow, AdjoinRoot.mk_X, pow_one]
    rfl
  rw [← hdouble]
  unfold residue
  change AdjoinRoot.mk modulus (bitPolynomial (shift register).toNat) = _
  rw [toNat_shift h]
  split
  · rfl
  · rw [bitPolynomial_xor, map_add]
    change _ + AdjoinRoot.mk modulus modulus = _
    rw [AdjoinRoot.mk_self, add_zero]

theorem residue_shifts (h : division.Fits register) (n : Nat) :
    residue (division.shift^[n] register) = AdjoinRoot.root modulus ^ n * residue register := by
  induction n with
  | zero => simp
  | succ n ih =>
    rw [Function.iterate_succ_apply']
    rw [residue_shift (h.shifts n)]
    rw [ih]
    ring

theorem residue_place (b : UInt8) :
    residue (division.place b)
      =
    AdjoinRoot.root modulus ^ 16 * AdjoinRoot.mk modulus (bitPolynomial b.toNat) := by
  unfold residue
  change AdjoinRoot.mk modulus (bitPolynomial (place b).toNat) = _
  rw [toNat_place]
  rw [bitPolynomial_two_pow_mul, map_mul, map_pow, AdjoinRoot.mk_X]

theorem residue_step (h : division.Fits register) (b : UInt8) :
    residue (division.step register b)
      =
    AdjoinRoot.root modulus ^ 8
      * (residue register
        + AdjoinRoot.root modulus ^ 16 * AdjoinRoot.mk modulus (bitPolynomial b.toNat)) := by
  unfold Division.step
  rw [residue_shifts (h.xor (division.place_lt b))]
  rw [residue_xor, residue_place]

theorem residue_run (h : division.Fits register) (value length : Nat) :
    residue (division.run register (Bytes.littleEndian length value))
      =
    AdjoinRoot.root modulus ^ (8 * length) * residue register
      + AdjoinRoot.root modulus ^ 24 * AdjoinRoot.mk modulus (message value length) := by
  induction length generalizing register value with
  | zero =>
    have hmessage : message value 0 = 0 := rfl
    rw [hmessage, map_zero]
    rw [Nat.mul_zero, pow_zero, one_mul, mul_zero, add_zero]
    rfl
  | succ length ih =>
    -- What the first byte leaves is what the register starts with for the rest.
    have hrun : division.run register (Bytes.littleEndian (length + 1) value)
        = division.run (division.step register (UInt8.ofNat value))
          (Bytes.littleEndian length (value / 2 ^ 8)) := rfl
    rw [hrun]
    rw [ih (h.step _)]
    rw [residue_step h, UInt8.toNat_ofNat']
    rw [message_succ, map_add, map_mul, map_pow, AdjoinRoot.mk_X]
    ring

theorem degree_modulus : modulus.degree = 24 :=
  degree_bitPolynomial (by decide) (by decide)

theorem eq_mod_of_residue_eq {dividend : (ZMod 2)[X]} (h : division.Fits register)
    (heq : residue register = AdjoinRoot.mk modulus dividend) :
    bitPolynomial register.toNat = dividend % modulus := by
  have hne : modulus ≠ 0 := by
    intro hzero
    have hdegree := degree_modulus
    rw [hzero, degree_zero] at hdegree
    cases hdegree
  have hlt : (bitPolynomial register.toNat).degree < modulus.degree := by
    rw [degree_modulus]
    exact degree_bitPolynomial_lt_iff.2 h
  rw [← mod_eq_of_dvd_sub (AdjoinRoot.mk_eq_mk.1 heq)]
  exact ((mod_eq_self_iff hne).2 hlt).symm

theorem bitPolynomial_crc24 (value length : Nat) :
    bitPolynomial (crc24 value length).toNat
      =
    (bitPolynomial init.toNat * X ^ (8 * length) + message value length * X ^ 24) % modulus := by
  unfold crc24
  rw [checksum_eq]
  apply eq_mod_of_residue_eq (fits_init.run _)
  rw [residue_run fits_init]
  rw [map_add, map_mul, map_mul, map_pow, map_pow, AdjoinRoot.mk_X]
  unfold residue
  ring

theorem crc24_xor (value value' length : Nat) :
    crc24 value length ^^^ crc24 value' length
      =
    crc24 (value ^^^ value') length ^^^ crc24 0 length := by
  rw [← UInt32.toNat_inj]
  apply bitPolynomial_injective
  rw [UInt32.toNat_xor, UInt32.toNat_xor, bitPolynomial_xor, bitPolynomial_xor]
  simp only [bitPolynomial_crc24]
  rw [← add_mod, ← add_mod]
  rw [message_xor, message_zero]
  -- What the register starts with is in both sums twice.
  apply congrArg (· % modulus)
  ring

theorem crc24_mod (value length : Nat) :
    crc24 (value % 2 ^ (8 * length)) length = crc24 value length := by
  have hbytes : Bytes.littleEndian length (value % 2 ^ (8 * length))
      = Bytes.littleEndian length value := by
    apply Bytes.eq_of_ofLittleEndian_eq
    · rw [Bytes.length_littleEndian, Bytes.length_littleEndian]
    · rw [Bytes.ofLittleEndian_littleEndian, Bytes.ofLittleEndian_littleEndian]
      rw [Bytes.valueCount_eq, Nat.mod_mod]
  unfold crc24
  rw [hbytes]

theorem fits_run_init (bytes : Bytes) : division.Fits (bytes.foldl step init) := by
  rw [run_eq]
  exact fits_init.run bytes

theorem fits_shifts (h : division.Fits register) (b : UInt8) (n : Nat) :
    division.Fits (shifts n (register ^^^ b.toUInt32 <<< 16)) := by
  rw [shifts_eq_iterate]
  exact (h.xor (division.place_lt b)).shifts n

/--
The checksum is a remainder of polynomials over the field of two elements. What is divided is the
message, highest bit of the lowest byte first, behind what the register starts with. In the register
no shift loses a bit, so there is nothing to mask at the end.
-/
theorem crc24_affine_remainder (value length : Nat) :
    (∀ count : Nat,
      let register := ((Bytes.littleEndian length value).take count).foldl step init
      register.toNat < 2 ^ 24
        ∧ ∀ (b : UInt8) (n : Nat),
          let shifted := shifts n (register ^^^ b.toUInt32 <<< 16)
          (b.toUInt32 <<< 16).toNat = 2 ^ 16 * b.toNat
            ∧ shifted.toNat < 2 ^ 24
            ∧ (shifted <<< 1).toNat = 2 * shifted.toNat)
      ∧ crc24 value length = (Bytes.littleEndian length value).foldl step init
      ∧ crc24 (value % 2 ^ (8 * length)) length = crc24 value length
      ∧ (∀ value' : Nat, crc24 value length ^^^ crc24 value' length
        = crc24 (value ^^^ value') length ^^^ crc24 0 length)
      ∧ (bitPolynomial 0x1974F0B).degree = 24
      ∧ bitPolynomial (crc24 value length).toNat
        = (bitPolynomial init.toNat * X ^ (8 * length) + message value length * X ^ 24)
          % bitPolynomial 0x1974F0B := by
  refine ⟨?_, ?_, crc24_mod value length, fun value' => crc24_xor value value' length,
    degree_modulus, bitPolynomial_crc24 value length⟩
  · intro count register
    have hregister := fits_run_init ((Bytes.littleEndian length value).take count)
    refine ⟨hregister, ?_⟩
    intro b n shifted
    have hshifted := fits_shifts hregister b n
    exact ⟨toNat_place b, hshifted, toNat_shiftLeft hshifted⟩
  · unfold crc24
    rw [checksum_eq, run_eq]

end Crc24

end CqlWire
