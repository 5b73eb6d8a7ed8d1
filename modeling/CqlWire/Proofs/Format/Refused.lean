import CqlWire.Format
import CqlWire.Proofs.Written

/-!
This module contains for which reasons values are refused: what is written of a value is missing
something only where a length does not fit its field.
-/

namespace CqlWire

namespace Format

variable {α β : Type}

/-- The length of a value does not fit the field in front of it. -/
inductive Overlong : Failure → Prop
  | short {kind : ValueKind} {length : Nat} (h : maxShort < length) :
    Overlong (.protocol (.overShort kind length))
  | int {kind : ValueKind} {length : Nat} (h : maxInt < length) :
    Overlong (.protocol (.overInt kind length))

def RefusesOverlong (format : Format α) : Prop :=
  ∀ a, (format.write a).RefusedFor Overlong

theorem writeShortLength_refusedFor (kind : ValueKind) (length : Nat) :
    (writeShortLength kind length).RefusedFor Overlong := by
  apply Written.RefusedFor.guarded
  · exact .of_whole rfl
  · exact fun hlt => .short (Nat.lt_of_not_le hlt)

theorem writeIntLength_refusedFor (kind : ValueKind) (length : Nat) :
    (writeIntLength kind length).RefusedFor Overlong := by
  apply Written.RefusedFor.guarded
  · exact .of_whole rfl
  · exact fun hlt => .int (Nat.lt_of_not_le hlt)

theorem fixed_refusesOverlong (width : Nat) (toNat : α → Nat) (ofNat : Nat → α) :
    (fixed width toNat ofNat).RefusesOverlong :=
  fun _ => .of_whole rfl

theorem pair_refusesOverlong {first : Format α} {second : Format β}
    (hfirst : first.RefusesOverlong) (hsecond : second.RefusesOverlong) :
    (first.pair second).RefusesOverlong :=
  fun (a, b) => .append (hfirst a) (hsecond b)

theorem imap_refusesOverlong {format : Format α} (h : format.RefusesOverlong) (there : α → β)
    (back : β → α) : (format.imap there back).RefusesOverlong :=
  fun b => h (back b)

theorem string_refusesOverlong : string.RefusesOverlong :=
  fun _ => .append (writeShortLength_refusedFor _ _) (.of_whole rfl)

theorem longString_refusesOverlong : longString.RefusesOverlong :=
  fun _ => .append (writeIntLength_refusedFor _ _) (.of_whole rfl)

theorem bytes_refusesOverlong : bytes.RefusesOverlong := by
  intro raw?
  cases raw? with
  | none => exact .of_whole rfl
  | some raw => exact .append (writeIntLength_refusedFor _ _) (.of_whole rfl)

theorem presentBytes_refusesOverlong : presentBytes.RefusesOverlong :=
  imap_refusesOverlong bytes_refusesOverlong _ _

theorem counted_refusesOverlong {item : Format α} (h : item.RefusesOverlong) (kind : ValueKind) :
    (counted kind item).RefusesOverlong :=
  fun _ => .append (writeShortLength_refusedFor _ _) (.each fun a _ => h a)

theorem stringList_refusesOverlong : stringList.RefusesOverlong :=
  counted_refusesOverlong string_refusesOverlong _

theorem entries_refusesOverlong {value : Format α} (h : value.RefusesOverlong) (kind : ValueKind) :
    (entries kind value).RefusesOverlong :=
  counted_refusesOverlong (pair_refusesOverlong string_refusesOverlong h) kind

theorem map_refusesOverlong {value : Format α} (h : value.RefusesOverlong) (kind : ValueKind) :
    (Format.map kind value).RefusesOverlong :=
  imap_refusesOverlong (entries_refusesOverlong h kind) _ _

end Format

end CqlWire
