import CqlWire.Checksum.Crc24
import CqlWire.Proofs.Bits
import CqlWire.Proofs.Checksum.Division

/-!
This module contains the checksum of segment headers as a division. Its divisor has an even number
of bits, so a shift does not change whether those of the register are odd in number, and a single
bit does not come back to its place for more shifts than a header has bits.
-/

namespace CqlWire

namespace Crc24

theorem shift_xor (a b : UInt32) : shift (a ^^^ b) = shift a ^^^ shift b := by
  unfold shift
  dsimp only
  rw [UInt32.shiftLeft_xor]
  exact feedback_xor (i := 24) rfl _ _ _ _ _

section Shift

variable {register : UInt32}

theorem toNat_shiftLeft (h : register.toNat < 2 ^ 24) :
    (register <<< 1).toNat = 2 * register.toNat := by
  rw [UInt32.toNat_shiftLeft]
  simp [Nat.shiftLeft_eq]
  omega

theorem toNat_shift (h : register.toNat < 2 ^ 24) :
    (shift register).toNat
      =
    if 2 * register.toNat < 2 ^ 24 then 2 * register.toNat
    else 2 * register.toNat ^^^ divisor.toNat := by
  unfold shift
  dsimp only
  simp only [and_eq_zero_iff (show (0x1000000 : UInt32).toNat = 2 ^ 24 from rfl)]
  rw [toNat_shiftLeft h]
  rw [Nat.testBit_eq_decide_div_mod_eq]
  by_cases hlt : 2 * register.toNat < 2 ^ 24
  · rw [if_pos hlt]
    rw [if_pos (by rw [decide_eq_false_iff_not]; omega)]
    exact toNat_shiftLeft h
  · rw [if_neg hlt]
    rw [if_neg (by rw [decide_eq_false_iff_not]; omega)]
    rw [UInt32.toNat_xor, toNat_shiftLeft h]

theorem shift_lt (h : register.toNat < 2 ^ 24) : (shift register).toNat < 2 ^ 24 := by
  rw [toNat_shift h]
  split
  · next hlt => exact hlt
  · next hlt =>
    -- Both have their highest bit in one place.
    have hdiv : (2 * register.toNat ^^^ divisor.toNat) / 2 ^ 24 = 0 := by
      rw [Nat.xor_div_two_pow]
      rw [show 2 * register.toNat / 2 ^ 24 = 1 by omega]
      rfl
    omega

theorem eq_zero_of_shift (h : register.toNat < 2 ^ 24) (hzero : shift register = 0) :
    register = 0 := by
  rw [← UInt32.toNat_inj] at hzero ⊢
  rw [toNat_shift h] at hzero
  split at hzero
  · change _ = 0 at hzero
    change _ = 0
    omega
  · -- The divisor is odd, and what has been shifted is even.
    have hodd : divisor.toNat % 2 = 1 := rfl
    have := Nat.xor_eq_zero_iff.1 hzero
    omega

theorem shift_ofNat {n : Nat} (h : 2 * n < 2 ^ 24) :
    shift (UInt32.ofNat n) = UInt32.ofNat (2 * n) := by
  have hn : (UInt32.ofNat n).toNat = n := by
    apply UInt32.toNat_ofNat_of_lt'
    simp only [UInt32.size]
    omega
  rw [← UInt32.toNat_inj]
  rw [toNat_shift (by omega)]
  rw [hn]
  rw [if_pos h]
  symm
  apply UInt32.toNat_ofNat_of_lt'
  simp only [UInt32.size]
  omega

theorem shifts_ofNat {k n : Nat} (h : 2 ^ k * n < 2 ^ 24) :
    shift^[k] (UInt32.ofNat n) = UInt32.ofNat (2 ^ k * n) := by
  induction k generalizing n with
  | zero =>
    rw [Nat.pow_zero, Nat.one_mul]
    rfl
  | succ k ih =>
    rw [Nat.pow_succ, Nat.mul_assoc] at h ⊢
    have hle : 2 * n ≤ 2 ^ k * (2 * n) := Nat.le_mul_of_pos_left _ (Nat.two_pow_pos k)
    rw [Function.iterate_succ_apply]
    rw [shift_ofNat (by omega)]
    exact ih h

end Shift

theorem shifts_eq_iterate (n : Nat) (register : UInt32) :
    shifts n register = shift^[n] register := by
  induction n generalizing register with
  | zero => rfl
  | succ n ih => exact ih (shift register)

def place (b : UInt8) : UInt32 :=
  b.toUInt32 <<< 16

def gather (bytes : Bytes) : UInt32 :=
  UInt32.ofNat (2 ^ (8 * (3 - bytes.length)) * Bytes.ofBigEndian bytes)

theorem toNat_place (b : UInt8) : (place b).toNat = 2 ^ 16 * b.toNat := by
  have := b.toNat_lt
  unfold place
  rw [UInt32.toNat_shiftLeft, UInt8.toNat_toUInt32, Nat.shiftLeft_eq]
  change b.toNat * 2 ^ 16 % 2 ^ 32 = _
  omega

theorem toNat_gather {bytes : Bytes} (h : bytes.length ≤ 3) :
    (gather bytes).toNat = 2 ^ (8 * (3 - bytes.length)) * Bytes.ofBigEndian bytes
      ∧ (gather bytes).toNat < 2 ^ 24 := by
  have hlt := Nat.mul_lt_mul_of_pos_left (Bytes.ofBigEndian_lt bytes)
    (Nat.two_pow_pos (8 * (3 - bytes.length)))
  rw [Bytes.valueCount_eq, ← Nat.pow_add] at hlt
  rw [show 8 * (3 - bytes.length) + 8 * bytes.length = 24 by omega] at hlt
  have htoNat : (gather bytes).toNat = 2 ^ (8 * (3 - bytes.length)) * Bytes.ofBigEndian bytes := by
    apply UInt32.toNat_ofNat_of_lt'
    simp only [UInt32.size]
    omega
  refine ⟨htoNat, ?_⟩
  rw [htoNat]
  exact hlt

theorem shifts_gather_cons {b : UInt8} {rest : Bytes} (h : rest.length < 3) :
    shift^[8] (place b ^^^ gather (b :: rest)) = gather rest := by
  generalize hlow : 2 ^ (8 * (2 - rest.length)) * Bytes.ofBigEndian rest = low
  have hlowLt : low < 2 ^ 16 := by
    have := Nat.mul_lt_mul_of_pos_left (Bytes.ofBigEndian_lt rest)
      (Nat.two_pow_pos (8 * (2 - rest.length)))
    rw [Bytes.valueCount_eq, ← Nat.pow_add] at this
    rw [show 8 * (2 - rest.length) + 8 * rest.length = 16 by omega] at this
    omega
  have hcons : (gather (b :: rest)).toNat = 2 ^ 16 * b.toNat + low := by
    have hle : (b :: rest).length ≤ 3 := h
    rw [(toNat_gather hle).1]
    rw [List.length_cons, Bytes.ofBigEndian_cons]
    rw [show 3 - (rest.length + 1) = 2 - rest.length by omega]
    rw [Nat.mul_add, ← Nat.mul_assoc, Bytes.valueCount_eq, ← Nat.pow_add]
    rw [show 8 * (2 - rest.length) + 8 * rest.length = 16 by omega]
    rw [hlow]
  have hrest : place b ^^^ gather (b :: rest) = UInt32.ofNat low := by
    rw [← UInt32.toNat_inj]
    rw [UInt32.toNat_ofNat_of_lt' (Nat.lt_trans hlowLt (by decide))]
    rw [UInt32.toNat_xor, toNat_place, hcons]
    rw [← xor_two_pow_mul_add hlowLt]
    rw [← Nat.xor_assoc, Nat.xor_self, Nat.zero_xor]
  rw [hrest]
  rw [shifts_ofNat (by omega)]
  unfold gather
  rw [← hlow, ← Nat.mul_assoc, ← Nat.pow_add]
  rw [show 8 + 8 * (2 - rest.length) = 8 * (3 - rest.length) by omega]

theorem eq_of_gather_eq {bytes bytes' : Bytes} (hle : bytes.length ≤ 3)
    (hlength : bytes'.length = bytes.length) (h : gather bytes' = gather bytes) :
    bytes' = bytes := by
  apply Bytes.eq_of_ofBigEndian_eq hlength
  rw [← UInt32.toNat_inj] at h
  rw [(toNat_gather hle).1, (toNat_gather (hlength ▸ hle)).1] at h
  rw [hlength] at h
  exact Nat.eq_of_mul_eq_mul_left (Nat.two_pow_pos _) h

def division : Division where
  size := 3
  shift := shift
  place := place
  gather := gather
  shift_xor := shift_xor
  shift_lt := shift_lt
  eq_zero_of_shift := eq_zero_of_shift
  place_xor b b' := by
    unfold place
    rw [UInt8.toUInt32_xor, UInt32.shiftLeft_xor]
  place_lt b := by
    have := b.toNat_lt
    rw [toNat_place]
    change _ < 2 ^ 24
    omega
  gather_nil := rfl
  gather_lt h := (toNat_gather h).2
  gather_cons := shifts_gather_cons
  eq_of_gather_eq := eq_of_gather_eq

theorem fits_init : division.Fits init := by
  change init.toNat < 2 ^ 24
  decide

theorem run_eq (register : UInt32) (bytes : Bytes) :
    bytes.foldl step register = division.run register bytes := by
  have hstep : step = division.step := by
    funext register b
    exact shifts_eq_iterate 8 _
  rw [hstep]
  rfl

theorem checksum_eq (bytes : Bytes) : checksum bytes = division.run init bytes := by
  have hlt : (division.run init bytes).toNat < 2 ^ 24 := fits_init.run bytes
  unfold checksum
  rw [run_eq]
  rw [← UInt32.toNat_inj, UInt32.toNat_and]
  exact Nat.and_two_pow_sub_one_of_lt_two_pow hlt

/-- Behind bytes and their checksum, highest byte first, nothing remains. -/
theorem eq_checksum_iff {bytes trailer : Bytes} (h : trailer.length = 3) :
    UInt32.ofNat (Bytes.ofLittleEndian trailer) = checksum bytes
      ↔
    division.run init (bytes ++ trailer.reverse) = 0 := by
  have hlength : trailer.reverse.length = 3 := by
    rw [List.length_reverse]
    exact h
  have hgather : division.gather trailer.reverse = UInt32.ofNat (Bytes.ofLittleEndian trailer) := by
    change gather _ = _
    unfold gather Bytes.ofBigEndian
    rw [hlength, List.reverse_reverse, Nat.sub_self, Nat.mul_zero, Nat.pow_zero, Nat.one_mul]
  have hsum := (fits_init.run bytes).xor (division.gather_lt (Nat.le_of_eq hlength))
  rw [Division.run_append]
  rw [Division.run_eq_shifts _ (Nat.le_of_eq hlength)]
  rw [hgather] at hsum ⊢
  rw [checksum_eq]
  constructor
  · intro heq
    rw [heq, UInt32.xor_self]
    apply Division.shifts_zero
  · intro hzero
    have := Division.eq_zero_of_shifts hsum hzero
    exact (UInt32.xor_eq_zero_iff.1 this).symm

/-- Whether those of the lowest `width` bits that are set are odd in number. -/
def odd : (width : Nat) → Nat → Bool
  | 0, _ => false
  | width + 1, n => n.testBit 0 ^^ odd width (n / 2)

theorem odd_xor (width m n : Nat) : odd width (m ^^^ n) = (odd width m ^^ odd width n) := by
  induction width generalizing m n with
  | zero => rfl
  | succ width ih =>
    unfold odd
    rw [Nat.testBit_xor, Nat.xor_div_two, ih]
    rw [Bool.xor_assoc, Bool.xor_assoc]
    rw [Bool.xor_left_comm (n.testBit 0)]

theorem odd_succ_two_mul (width n : Nat) : odd (width + 1) (2 * n) = odd width n := by
  rw [odd]
  rw [Nat.testBit_zero, Nat.mul_mod_right, Nat.mul_div_cancel_left n (by decide)]
  exact Bool.false_xor _

theorem odd_succ_of_lt {width n : Nat} (h : n < 2 ^ width) : odd (width + 1) n = odd width n := by
  induction width generalizing n with
  | zero =>
    rw [Nat.lt_one_iff.1 h]
    rfl
  | succ width ih =>
    rw [odd, ih (by omega)]
    rfl

theorem odd_shift {register : UInt32} (h : division.Fits register) :
    odd 24 (shift register).toNat = odd 24 register.toNat := by
  have heven : odd 25 divisor.toNat = false := by decide
  rw [← odd_succ_of_lt (division.shift_lt h)]
  change register.toNat < 2 ^ 24 at h
  rw [toNat_shift h]
  split
  · apply odd_succ_two_mul
  · rw [odd_xor, heven, Bool.xor_false]
    apply odd_succ_two_mul

theorem fits_one : division.Fits 1 := by
  change (1 : UInt32).toNat < 2 ^ 24
  decide

theorem odd_shifts_one (n : Nat) : odd 24 (division.shift^[n] 1).toNat = true := by
  induction n with
  | zero => rfl
  | succ n ih =>
    rw [Function.iterate_succ_apply']
    rw [← ih]
    apply odd_shift
    exact fits_one.shifts n

theorem shifts_one_ne_one : ∀ n < 64, 0 < n → shifts n 1 ≠ 1 := by
  decide +kernel

theorem shifts_one_ne {m n : Nat} (hlt : m < n) (h : n < 64) :
    division.shift^[n] 1 ≠ division.shift^[m] 1 := by
  intro heq
  apply shifts_one_ne_one (n - m) (by omega) (by omega)
  rw [shifts_eq_iterate]
  apply Division.eq_of_shifts_eq (n := m) (fits_one.shifts _) fits_one
  rw [← Function.iterate_add_apply]
  rw [Nat.add_sub_cancel' (Nat.le_of_lt hlt)]
  exact heq

theorem eq_of_shifts_one_eq {m n : Nat} (hm : m < 64) (hn : n < 64)
    (h : division.shift^[m] 1 = division.shift^[n] 1) : m = n := by
  rcases Nat.lt_trichotomy m n with hlt | heq | hlt
  · exact absurd h.symm (shifts_one_ne hlt hn)
  · exact heq
  · exact absurd h (shifts_one_ne hlt hm)

theorem place_two_pow {k : Nat} (h : k < 8) :
    place (UInt8.ofNat (2 ^ k)) = division.shift^[16 + k] 1 := by
  have hlt : 2 ^ (16 + k) * 1 < 2 ^ 24 := by
    rw [Nat.mul_one]
    apply Nat.pow_lt_pow_right (by decide)
    omega
  have hone := shifts_ofNat hlt
  rw [Nat.mul_one] at hone hlt
  change place _ = shift^[16 + k] (UInt32.ofNat 1)
  rw [hone]
  rw [← UInt32.toNat_inj]
  rw [toNat_place, Bytes.toNat_ofNat_two_pow h]
  rw [← Nat.pow_add]
  symm
  apply UInt32.toNat_ofNat_of_lt'
  exact Nat.lt_trans hlt (by decide)

end Crc24

end CqlWire
