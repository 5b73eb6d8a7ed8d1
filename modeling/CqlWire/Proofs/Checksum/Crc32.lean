import CqlWire.Checksum.Crc32
import CqlWire.Proofs.Checksum.Division

/-!
This module contains the checksum of segment payloads as a division, and what its register holds
once the checksum itself has been taken in behind the bytes.
-/

namespace CqlWire

namespace Crc32

theorem shift_xor (a b : UInt32) : shift (a ^^^ b) = shift a ^^^ shift b := by
  unfold shift
  rw [UInt32.shiftRight_xor]
  exact feedback_xor (i := 0) rfl _ a b _ _

theorem eq_zero_of_shift {a : UInt32} (h : shift a = 0) : a = 0 := by
  have ha := a.toNat_lt
  unfold shift at h
  split at h
  · next hbit =>
    rw [← UInt32.toNat_inj] at h hbit ⊢
    simp [Nat.shiftRight_one] at h hbit ⊢
    omega
  · -- The divisor is longer than what has been shifted.
    rw [UInt32.xor_eq_zero_iff, ← UInt32.toNat_inj] at h
    simp [Nat.shiftRight_one, divisor] at h
    omega

theorem shifts_eq_iterate (n : Nat) (register : UInt32) :
    shifts n register = shift^[n] register := by
  induction n generalizing register with
  | zero => rfl
  | succ n ih => exact ih (shift register)

theorem shift_ofNat_two_mul {n : Nat} (h : 2 * n < 2 ^ 32) :
    shift (UInt32.ofNat (2 * n)) = UInt32.ofNat n := by
  have hbit : UInt32.ofNat (2 * n) &&& 1 = 0 := by
    rw [← UInt32.toNat_inj]
    simp
  unfold shift
  rw [if_pos hbit]
  rw [← UInt32.toNat_inj]
  simp [Nat.shiftRight_one]
  omega

theorem shifts_ofNat_two_pow_mul {k n : Nat} (h : 2 ^ k * n < 2 ^ 32) :
    shift^[k] (UInt32.ofNat (2 ^ k * n)) = UInt32.ofNat n := by
  induction k with
  | zero =>
    rw [Nat.pow_zero, Nat.one_mul]
    rfl
  | succ k ih =>
    rw [Nat.pow_succ', Nat.mul_assoc] at h ⊢
    rw [Function.iterate_succ_apply]
    rw [shift_ofNat_two_mul h]
    apply ih
    omega

def gather (bytes : Bytes) : UInt32 :=
  UInt32.ofNat (Bytes.ofLittleEndian bytes)

theorem toNat_gather {bytes : Bytes} (h : bytes.length ≤ 4) :
    (gather bytes).toNat = Bytes.ofLittleEndian bytes := by
  apply UInt32.toNat_ofNat_of_lt'
  apply Nat.lt_of_lt_of_le (Bytes.ofLittleEndian_lt bytes)
  exact Bytes.valueCount_le h

theorem shifts_gather_cons {b : UInt8} {rest : Bytes} (h : rest.length < 4) :
    shift^[8] (b.toUInt32 ^^^ gather (b :: rest)) = gather rest := by
  have hcons : (gather (b :: rest)).toNat = b.toNat + 2 ^ 8 * Bytes.ofLittleEndian rest :=
    toNat_gather h
  have hlt : 2 ^ 8 * Bytes.ofLittleEndian rest < 2 ^ 32 := by
    have := (gather (b :: rest)).toNat_lt
    omega
  have hrest : b.toUInt32 ^^^ gather (b :: rest)
      = UInt32.ofNat (2 ^ 8 * Bytes.ofLittleEndian rest) := by
    rw [← UInt32.toNat_inj]
    rw [UInt32.toNat_ofNat_of_lt' hlt]
    rw [UInt32.toNat_xor, hcons]
    rw [UInt8.toNat_toUInt32]
    rw [Nat.add_comm]
    rw [← xor_two_pow_mul_add b.toNat_lt]
    rw [Nat.xor_comm, Nat.xor_assoc, Nat.xor_self, Nat.xor_zero]
  rw [hrest]
  exact shifts_ofNat_two_pow_mul hlt

def division : Division where
  size := 4
  shift := shift
  place := UInt8.toUInt32
  gather := gather
  shift_xor := shift_xor
  shift_lt _ := (shift _).toNat_lt
  eq_zero_of_shift _ := eq_zero_of_shift
  place_xor _ _ := UInt8.toUInt32_xor _ _
  place_lt b := b.toUInt32.toNat_lt
  gather_nil := rfl
  gather_lt _ := (gather _).toNat_lt
  gather_cons := shifts_gather_cons
  eq_of_gather_eq hle hlength h := by
    apply Bytes.eq_of_ofLittleEndian_eq hlength
    rw [← toNat_gather hle, ← h]
    apply (toNat_gather _).symm
    rw [hlength]
    exact hle

theorem fits (register : UInt32) : division.Fits register := register.toNat_lt

theorem run_eq (register : UInt32) (bytes : Bytes) :
    bytes.foldl step register = division.run register bytes := by
  have hstep : step = division.step := by
    funext register b
    exact shifts_eq_iterate 8 _
  rw [hstep]
  rfl

/-- What the register holds behind bytes and their checksum, whatever they are. -/
def residue : UInt32 := shift^[32] 0xFFFFFFFF

theorem eq_checksum_iff {bytes trailer : Bytes} (h : trailer.length = 4) :
    UInt32.ofNat (Bytes.ofLittleEndian trailer) = checksum bytes
      ↔
    division.run 0xFFFFFFFF (bytes ++ trailer) = residue := by
  rw [Division.run_append]
  rw [Division.run_eq_shifts _ (Nat.le_of_eq h)]
  rw [h]
  unfold checksum
  rw [run_eq]
  generalize division.run 0xFFFFFFFF bytes = register
  change gather trailer = _ ↔ _
  constructor
  · intro hsum
    change shift^[32] (register ^^^ gather trailer) = _
    rw [hsum]
    rw [← UInt32.xor_assoc, UInt32.xor_self, UInt32.zero_xor]
    rfl
  · intro hresidue
    have hsum := Division.eq_of_shifts_eq (fits _) (fits _) hresidue
    rw [← hsum]
    rw [← UInt32.xor_assoc, UInt32.xor_self, UInt32.zero_xor]
    rfl

end Crc32

end CqlWire
