import CqlWire.Bytes
import Mathlib.Data.Nat.Bitwise
import Mathlib.Logic.Function.Iterate

/-!
This module contains what the checksums have in common. Bytes are summed into a register that is
shifted, and a shift respects sums and loses nothing. So what is done to bytes shows in the register
however many bytes follow, and bytes that are no more than the register holds can be told from it.
-/

namespace CqlWire

namespace Bytes

theorem valueCount_eq (width : Nat) : valueCount width = 2 ^ (8 * width) := by
  induction width with
  | zero => rfl
  | succ width ih =>
    rw [valueCount, ih]
    rw [Nat.mul_add, Nat.pow_add, Nat.mul_comm]

theorem valueCount_le {width width' : Nat} (h : width ≤ width') :
    valueCount width ≤ valueCount width' := by
  rw [valueCount_eq, valueCount_eq]
  apply Nat.pow_le_pow_right (by decide)
  omega

theorem ofLittleEndian_append (front back : Bytes) :
    ofLittleEndian (front ++ back)
      =
    ofLittleEndian front + valueCount front.length * ofLittleEndian back := by
  induction front with
  | nil => simp [ofLittleEndian, valueCount]
  | cons b rest ih =>
    rw [List.cons_append, ofLittleEndian, ih]
    rw [ofLittleEndian, List.length_cons, valueCount]
    rw [Nat.mul_add, Nat.mul_assoc, Nat.add_assoc]

theorem ofBigEndian_cons (b : UInt8) (rest : Bytes) :
    ofBigEndian (b :: rest) = valueCount rest.length * b.toNat + ofBigEndian rest := by
  unfold ofBigEndian
  rw [List.reverse_cons, ofLittleEndian_append, List.length_reverse, Nat.add_comm]
  rfl

theorem eq_of_ofLittleEndian_eq {bytes bytes' : Bytes} (hlength : bytes'.length = bytes.length)
    (h : ofLittleEndian bytes' = ofLittleEndian bytes) : bytes' = bytes := by
  rw [← littleEndian_ofLittleEndian bytes']
  rw [hlength, h]
  apply littleEndian_ofLittleEndian

theorem eq_of_ofBigEndian_eq {bytes bytes' : Bytes} (hlength : bytes'.length = bytes.length)
    (h : ofBigEndian bytes' = ofBigEndian bytes) : bytes' = bytes := by
  rw [← bigEndian_ofBigEndian bytes']
  rw [hlength, h]
  apply bigEndian_ofBigEndian

end Bytes

theorem xor_two_pow_mul_add {i low : Nat} (h : low < 2 ^ i) (high : Nat) :
    2 ^ i * high ^^^ low = 2 ^ i * high + low := by
  apply Nat.eq_of_testBit_eq
  intro j
  rw [Nat.testBit_xor]
  rw [Nat.testBit_two_pow_mul_add _ h]
  rw [Nat.testBit_two_pow_mul]
  split
  · next hj => simp [Nat.not_le_of_lt hj]
  · next hj =>
    have hlow : low.testBit j = false :=
      Nat.testBit_lt_two_pow (Nat.lt_of_lt_of_le h (Nat.pow_le_pow_right (by decide) (by omega)))
    simp [hlow, Nat.le_of_not_lt hj]

section Feedback

variable {mask : UInt32} {i : Nat}

theorem and_eq_zero_iff (hmask : mask.toNat = 2 ^ i) (register : UInt32) :
    register &&& mask = 0 ↔ register.toNat.testBit i = false := by
  rw [← UInt32.toNat_inj]
  rw [UInt32.toNat_and]
  rw [hmask]
  rw [Nat.and_two_pow]
  cases register.toNat.testBit i <;> simp

/-- The divisor is taken off for one bit of the register, hence off a sum as off its parts. -/
theorem feedback_xor (hmask : mask.toNat = 2 ^ i) (divisor a b a' b' : UInt32) :
    (if (a ^^^ b) &&& mask = 0 then a' ^^^ b' else a' ^^^ b' ^^^ divisor)
      =
    (if a &&& mask = 0 then a' else a' ^^^ divisor)
      ^^^ (if b &&& mask = 0 then b' else b' ^^^ divisor) := by
  simp only [and_eq_zero_iff hmask]
  rw [UInt32.toNat_xor, Nat.testBit_xor]
  cases a.toNat.testBit i <;> cases b.toNat.testBit i
  · rfl
  · exact UInt32.xor_assoc _ _ _
  · change a' ^^^ b' ^^^ divisor = a' ^^^ divisor ^^^ b'
    ac_rfl
  · change a' ^^^ b' = a' ^^^ divisor ^^^ (b' ^^^ divisor)
    rw [show a' ^^^ divisor ^^^ (b' ^^^ divisor) = a' ^^^ b' ^^^ (divisor ^^^ divisor) by ac_rfl]
    rw [UInt32.xor_self, UInt32.xor_zero]

end Feedback

/--
A division of bytes by a polynomial. Its register is as wide as `size` bytes. A byte that comes in
is summed to a place in the register, and bytes that come in one behind the other are gathered side
by side.
-/
structure Division where
  size : Nat
  shift : UInt32 → UInt32
  place : UInt8 → UInt32
  gather : Bytes → UInt32
  shift_xor : ∀ a b, shift (a ^^^ b) = shift a ^^^ shift b
  shift_lt : ∀ {a}, a.toNat < Bytes.valueCount size → (shift a).toNat < Bytes.valueCount size
  eq_zero_of_shift : ∀ {a}, a.toNat < Bytes.valueCount size → shift a = 0 → a = 0
  place_xor : ∀ b b', place (b ^^^ b') = place b ^^^ place b'
  place_lt : ∀ b, (place b).toNat < Bytes.valueCount size
  gather_nil : gather [] = 0
  gather_lt : ∀ {bytes}, bytes.length ≤ size → (gather bytes).toNat < Bytes.valueCount size
  /-- A byte makes room for those behind it. -/
  gather_cons : ∀ {b rest}, rest.length < size →
    shift^[8] (place b ^^^ gather (b :: rest)) = gather rest
  eq_of_gather_eq : ∀ {bytes bytes'}, bytes.length ≤ size → bytes'.length = bytes.length →
    gather bytes' = gather bytes → bytes' = bytes

namespace Division

variable (division : Division)

def Fits (register : UInt32) : Prop :=
  register.toNat < Bytes.valueCount division.size

def step (register : UInt32) (b : UInt8) : UInt32 :=
  division.shift^[8] (register ^^^ division.place b)

def run (register : UInt32) (bytes : Bytes) : UInt32 :=
  bytes.foldl division.step register

variable {division} {register register' : UInt32} {bytes : Bytes}

theorem Fits.xor (h : division.Fits register) (h' : division.Fits register') :
    division.Fits (register ^^^ register') := by
  unfold Fits at *
  rw [Bytes.valueCount_eq] at *
  rw [UInt32.toNat_xor]
  exact Nat.xor_lt_two_pow h h'

theorem Fits.shifts (h : division.Fits register) (n : Nat) :
    division.Fits (division.shift^[n] register) := by
  induction n generalizing register with
  | zero => exact h
  | succ n ih => exact ih (division.shift_lt h)

theorem Fits.step (h : division.Fits register) (b : UInt8) :
    division.Fits (division.step register b) := by
  apply Fits.shifts
  exact h.xor (division.place_lt b)

theorem shifts_xor (division : Division) (n : Nat) (a b : UInt32) :
    division.shift^[n] (a ^^^ b) = division.shift^[n] a ^^^ division.shift^[n] b := by
  induction n generalizing a b with
  | zero => rfl
  | succ n ih =>
    rw [Function.iterate_succ_apply, Function.iterate_succ_apply, Function.iterate_succ_apply]
    rw [division.shift_xor]
    rw [ih]

@[simp]
theorem shifts_zero (division : Division) (n : Nat) : division.shift^[n] 0 = 0 := by
  have h := shifts_xor division n 0 0
  rw [UInt32.xor_self, UInt32.xor_self] at h
  exact h

theorem eq_zero_of_shifts {n : Nat} (h : division.Fits register)
    (hzero : division.shift^[n] register = 0) : register = 0 := by
  induction n generalizing register with
  | zero => exact hzero
  | succ n ih => exact division.eq_zero_of_shift h (ih (division.shift_lt h) hzero)

theorem eq_of_shifts_eq {n : Nat} (h : division.Fits register) (h' : division.Fits register')
    (heq : division.shift^[n] register = division.shift^[n] register') :
    register = register' := by
  rw [← UInt32.xor_eq_zero_iff]
  apply eq_zero_of_shifts (h.xor h') (n := n)
  rw [shifts_xor]
  rw [heq]
  exact UInt32.xor_self

theorem run_append (register : UInt32) (front back : Bytes) :
    division.run register (front ++ back) = division.run (division.run register front) back :=
  List.foldl_append

theorem Fits.run (h : division.Fits register) (bytes : Bytes) :
    division.Fits (division.run register bytes) := by
  induction bytes generalizing register with
  | nil => exact h
  | cons b rest ih =>
    apply ih
    exact h.step b

theorem run_xor (register change : UInt32) (bytes : Bytes) :
    division.run (register ^^^ change) bytes
      =
    division.run register bytes ^^^ division.shift^[8 * bytes.length] change := by
  induction bytes generalizing register change with
  | nil => rfl
  | cons b rest ih =>
    have hstep : division.step (register ^^^ change) b
        = division.step register b ^^^ division.shift^[8] change := by
      unfold step
      rw [← shifts_xor]
      congr 1
      ac_rfl
    change division.run (division.step _ b) rest = division.run (division.step _ b) rest ^^^ _
    rw [hstep]
    rw [ih]
    rw [← Function.iterate_add_apply]
    rfl

theorem run_cons_xor (register : UInt32) (b change : UInt8) (rest : Bytes) :
    division.run register ((b ^^^ change) :: rest)
      =
    division.run register (b :: rest)
      ^^^ division.shift^[8 * (rest.length + 1)] (division.place change) := by
  have hstep : division.step register (b ^^^ change)
      = division.step register b ^^^ division.shift^[8] (division.place change) := by
    unfold step
    rw [← shifts_xor]
    rw [division.place_xor]
    congr 1
    ac_rfl
  change division.run (division.step _ _) rest = division.run (division.step _ b) rest ^^^ _
  rw [hstep]
  rw [run_xor]
  rw [← Function.iterate_add_apply]
  rfl

theorem run_eq_shifts (register : UInt32) (h : bytes.length ≤ division.size) :
    division.run register bytes
      =
    division.shift^[8 * bytes.length] (register ^^^ division.gather bytes) := by
  induction bytes generalizing register with
  | nil =>
    rw [division.gather_nil]
    exact UInt32.xor_zero.symm
  | cons b rest ih =>
    change division.run (division.step register b) rest = _
    rw [ih _ (Nat.le_of_lt h)]
    rw [← division.gather_cons h]
    unfold step
    rw [← shifts_xor]
    rw [← Function.iterate_add_apply]
    congr 1
    rw [show ∀ a b c : UInt32, a ^^^ b ^^^ (b ^^^ c) = a ^^^ (b ^^^ b) ^^^ c by intros; ac_rfl]
    rw [UInt32.xor_self, UInt32.xor_zero]

theorem eq_of_run_eq (h : division.Fits register) (h' : division.Fits register')
    (heq : division.run register bytes = division.run register' bytes) : register = register' := by
  induction bytes generalizing register register' with
  | nil => exact heq
  | cons b rest ih =>
    have hsum := h.xor (division.place_lt b)
    have hsum' := h'.xor (division.place_lt b)
    have hshifts := ih (hsum.shifts 8) (hsum'.shifts 8) heq
    exact (UInt32.xor_left_inj _).1 (eq_of_shifts_eq hsum hsum' hshifts)

/-- Bytes in a row that are no more than the register holds show in it, whatever follows them. -/
theorem eq_of_run_append_eq {front window window' back : Bytes} (h : division.Fits register)
    (hle : window.length ≤ division.size) (hlength : window'.length = window.length)
    (heq : division.run register (front ++ window' ++ back)
      = division.run register (front ++ window ++ back)) : window' = window := by
  have hfront := h.run front
  have hle' : window'.length ≤ division.size := by
    rw [hlength]
    exact hle
  simp only [run_append] at heq
  have hwindow := eq_of_run_eq (hfront.run window') (hfront.run window) heq
  rw [run_eq_shifts _ hle', run_eq_shifts _ hle] at hwindow
  rw [hlength] at hwindow
  have hsum := hfront.xor (division.gather_lt hle)
  have hsum' := hfront.xor (division.gather_lt hle')
  apply division.eq_of_gather_eq hle hlength
  exact (UInt32.xor_right_inj _).1 (eq_of_shifts_eq hsum' hsum hwindow)

end Division

end CqlWire
