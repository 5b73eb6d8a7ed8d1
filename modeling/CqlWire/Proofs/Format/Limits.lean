import CqlWire.Proofs.Format.Condenses

/-!
This module contains which values can be written. Counts and the lengths of most texts have fields
of two bytes. The other lengths have fields as wide as that of a whole body, so they limit nothing
that a body is long enough for.
-/

namespace CqlWire

section Limits

variable {α : Type}

def ShortText (text : String) : Prop :=
  text.utf8ByteSize ≤ Format.maxShort

def ShortList (limits : α → Prop) (items : List α) : Prop :=
  items.length ≤ Format.maxShort ∧ ∀ a ∈ items, limits a

def ShortEntries (limits : α → Prop) (pairs : List (String × α)) : Prop :=
  ShortList (fun pair => ShortText pair.1 ∧ limits pair.2) pairs

instance : DecidablePred ShortText :=
  fun _ => inferInstanceAs (Decidable (_ ≤ _))

instance (limits : α → Prop) [DecidablePred limits] : DecidablePred (ShortList limits) :=
  fun _ => inferInstanceAs (Decidable (_ ∧ _))

instance (limits : α → Prop) [DecidablePred limits] : DecidablePred (ShortEntries limits) :=
  inferInstanceAs (DecidablePred (ShortList _))

theorem ShortList.nil (limits : α → Prop) : ShortList limits [] :=
  ⟨Nat.zero_le _, List.forall_mem_nil _⟩

theorem shortList_perm {limits : α → Prop} {items items' : List α} (h : items'.Perm items) :
    ShortList limits items' ↔ ShortList limits items := by
  unfold ShortList
  rw [h.length_eq]
  simp only [h.mem_iff]

end Limits

namespace Format

variable {α β : Type}

/-- A value that is not too long for a body is written exactly within these limits. -/
def LimitedTo (format : Format α) (limits : α → Prop) : Prop :=
  ∀ a, format.size a ≤ maxInt → ((format.write a).Whole ↔ limits a)

theorem fixed_limitedTo (width : Nat) (toNat : α → Nat) (ofNat : Nat → α) :
    (fixed width toNat ofNat).LimitedTo fun _ => True :=
  fun _ _ => iff_of_true rfl trivial

theorem string_limitedTo : string.LimitedTo ShortText :=
  fun _ _ => string_whole_iff

theorem longString_limitedTo : longString.LimitedTo fun _ => True := by
  intro text hle
  change intWidth + text.utf8ByteSize ≤ maxInt at hle
  rw [longString_whole_iff, iff_true]
  omega

theorem bytes_limitedTo : bytes.LimitedTo fun _ => True := by
  intro raw? hle
  cases raw? with
  | none => exact iff_of_true rfl trivial
  | some raw =>
    change intWidth + raw.length ≤ maxInt at hle
    rw [bytes_some_whole_iff, iff_true]
    omega

theorem presentBytes_limitedTo : presentBytes.LimitedTo fun _ => True :=
  fun raw hle => bytes_limitedTo (some raw) hle

theorem pair_limitedTo {first : Format α} {second : Format β} {limits : α → Prop}
    {limits' : β → Prop} (hfirst : first.LimitedTo limits) (hsecond : second.LimitedTo limits') :
    (first.pair second).LimitedTo fun pair => limits pair.1 ∧ limits' pair.2 := by
  intro (a, b) hle
  change first.size a + second.size b ≤ maxInt at hle
  change (first.write a ++ second.write b).Whole ↔ _
  rw [Written.whole_append_iff]
  rw [hfirst a (by omega)]
  rw [hsecond b (by omega)]

theorem size_le_totalSize (item : Format α) {items : List α} {a : α} (h : a ∈ items) :
    item.size a ≤ item.totalSize items := by
  change item.totalSize [a] ≤ _
  exact totalSize_sublist (List.singleton_sublist.2 h)

theorem counted_limitedTo {item : Format α} {limits : α → Prop} (h : item.LimitedTo limits)
    (kind : ValueKind) : (counted kind item).LimitedTo (ShortList limits) := by
  intro items hle
  change shortWidth + item.totalSize items ≤ maxInt at hle
  rw [counted_whole_iff]
  apply and_congr_right
  intro _
  apply forall₂_congr
  intro a hmem
  have := size_le_totalSize item hmem
  exact h a (by omega)

theorem entries_limitedTo {value : Format α} {limits : α → Prop} (h : value.LimitedTo limits)
    (kind : ValueKind) : (entries kind value).LimitedTo (ShortEntries limits) :=
  counted_limitedTo (pair_limitedTo string_limitedTo h) kind

theorem map_limitedTo {value : Format α} {limits : α → Prop} (h : value.LimitedTo limits)
    (kind : ValueKind) :
    (Format.map kind value).LimitedTo fun map => ShortEntries limits map.entries :=
  fun map hle => entries_limitedTo h kind map.entries hle

theorem stringList_limitedTo : stringList.LimitedTo (ShortList ShortText) :=
  counted_limitedTo string_limitedTo _

end Format

end CqlWire
