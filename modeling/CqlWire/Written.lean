import CqlWire.Failure

/-!
This module contains what writers produce: bytes, and the reason for which no more followed them.
-/

namespace CqlWire

structure Written where
  bytes : Bytes
  fault : Option Failure
deriving Repr, DecidableEq

namespace Written

variable {α : Type}

def ofBytes (bytes : Bytes) : Written := ⟨bytes, none⟩

def refuse (error : Failure) : Written := ⟨[], some error⟩

instance : Append Written where
  append first second :=
    match first.fault with
    | none => ⟨first.bytes ++ second.bytes, second.fault⟩
    | some _ => first

def toExcept (written : Written) : Except Failure Bytes :=
  match written.fault with
  | none => .ok written.bytes
  | some error => .error error

theorem append_def (first second : Written) :
    first ++ second
      =
    match first.fault with
    | none => ⟨first.bytes ++ second.bytes, second.fault⟩
    | some _ => first := rfl

theorem append_of_fault {first : Written} {error : Failure} (h : first.fault = some error)
    (second : Written) : first ++ second = first := by
  simp [append_def, h]

theorem append_of_none {first : Written} (h : first.fault = none) (second : Written) :
    first ++ second = ⟨first.bytes ++ second.bytes, second.fault⟩ := by
  simp [append_def, h]

theorem toExcept_eq_ok_iff {written : Written} {bytes : Bytes} :
    written.toExcept = .ok bytes ↔ written = ofBytes bytes := by
  rcases written with ⟨_, _ | error⟩ <;> simp [toExcept, ofBytes]

theorem ofBytes_inj {first second : Bytes} : ofBytes first = ofBytes second ↔ first = second := by
  simp [ofBytes]

theorem refuse_ne_ofBytes (error : Failure) (bytes : Bytes) : refuse error ≠ ofBytes bytes := by
  simp [refuse, ofBytes]

theorem guarded_eq_ofBytes_iff {condition : Prop} [Decidable condition] {written : Written}
    {error : Failure} {bytes : Bytes} :
    (if condition then written else refuse error) = ofBytes bytes
      ↔
    condition ∧ written = ofBytes bytes := by
  by_cases h : condition
  · simp [h]
  · simp [h, refuse_ne_ofBytes]

theorem append_eq_ofBytes_iff {first second : Written} {bytes : Bytes} :
    first ++ second = ofBytes bytes
      ↔
    ∃ front back, first = ofBytes front ∧ second = ofBytes back ∧ bytes = front ++ back := by
  rcases first with ⟨front, _ | error⟩
  · rcases second with ⟨back, _ | error⟩
    · simp [append_def, ofBytes, eq_comm]
    · simp [append_def, ofBytes]
  · simp [append_def, ofBytes]

def each.go (write : α → Written) : List Bytes → List α → Written
  | done, [] => ⟨done.reverse.flatten, none⟩
  | done, a :: rest =>
    match write a with
    | ⟨bytes, none⟩ => go write (bytes :: done) rest
    | ⟨bytes, some error⟩ => ⟨(bytes :: done).reverse.flatten, some error⟩

def each (write : α → Written) (items : List α) : Written :=
  each.go write [] items

theorem each.go_eq (write : α → Written) (done : List Bytes) (items : List α) :
    each.go write done items = ofBytes done.reverse.flatten ++ each write items := by
  induction items generalizing done with
  | nil => simp [each, go, append_def, ofBytes]
  | cons a rest ih =>
    simp only [each, go]
    rcases write a with ⟨bytes, _ | e⟩
    · simp [ih (bytes :: done), ih [bytes], append_def, ofBytes]
    · simp [append_def, ofBytes]

theorem each_nil (write : α → Written) : each write [] = ofBytes [] := rfl

theorem each_cons (write : α → Written) (a : α) (rest : List α) :
    each write (a :: rest) = write a ++ each write rest := by
  simp only [each, each.go]
  rcases h : write a with ⟨bytes, _ | e⟩
  · simp [each.go_eq write [bytes], append_def, ofBytes, each]
  · simp [append_def]

end Written

end CqlWire
