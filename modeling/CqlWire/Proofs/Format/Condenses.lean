import CqlWire.Proofs.Format.Canonical
import CqlWire.Proofs.Written

/-!
This module contains why values that were read can be written again, and in no more bytes than they
were read off: all that a reader puts up with, such as keys that repeat, only takes room.
-/

namespace CqlWire

namespace Format

variable {α β : Type}

/-- A value that is read can be written, in no more bytes than it was read off. -/
def Condenses (format : Format α) : Prop :=
  ∀ {src rest : Bytes} {a : α}, format.read src = (.ok a, rest) →
    (format.write a).Whole ∧ format.size a + rest.length ≤ src.length

theorem writeShortLength_whole_iff {kind : ValueKind} {length : Nat} :
    (writeShortLength kind length).Whole ↔ length ≤ maxShort := by
  unfold writeShortLength
  split <;> simp_all

theorem writeIntLength_whole_iff {kind : ValueKind} {length : Nat} :
    (writeIntLength kind length).Whole ↔ length ≤ maxInt := by
  unfold writeIntLength
  split <;> simp_all

theorem string_whole_iff {text : String} :
    (string.write text).Whole ↔ text.utf8ByteSize ≤ maxShort := by
  simp [string, writeShortLength_whole_iff]

theorem longString_whole_iff {text : String} :
    (longString.write text).Whole ↔ text.utf8ByteSize ≤ maxInt := by
  simp [longString, writeIntLength_whole_iff]

theorem bytes_some_whole_iff {raw : Bytes} :
    (bytes.write (some raw)).Whole ↔ raw.length ≤ maxInt := by
  simp [bytes, writeIntLength_whole_iff]

theorem counted_whole_iff {kind : ValueKind} {item : Format α} {items : List α} :
    ((counted kind item).write items).Whole
      ↔
    items.length ≤ maxShort ∧ ∀ a ∈ items, (item.write a).Whole := by
  simp [counted, writeShortLength_whole_iff]

theorem counted_whole_of_subset {kind : ValueKind} {item : Format α} {items items' : List α}
    (hlength : items'.length ≤ items.length) (hsubset : items' ⊆ items)
    (h : ((counted kind item).write items).Whole) : ((counted kind item).write items').Whole := by
  rw [counted_whole_iff] at h ⊢
  exact ⟨Nat.le_trans hlength h.1, fun a hmem => h.2 a (hsubset hmem)⟩

theorem fixed_condenses (width : Nat) (toNat : α → Nat) (ofNat : Nat → α) :
    (fixed width toNat ofNat).Condenses := by
  intro src rest a h
  obtain ⟨front, htake, _⟩ := Reader.exists_of_map h
  obtain ⟨hlength, rfl⟩ := Reader.append_of_take htake
  refine ⟨rfl, ?_⟩
  rw [List.length_append, hlength]
  exact Nat.le_refl _

theorem pair_condenses {first : Format α} {second : Format β} (hfirst : first.Condenses)
    (hsecond : second.Condenses) : (first.pair second).Condenses := by
  intro src rest ab h
  obtain ⟨a, middle, ha, h⟩ := Reader.exists_of_bind h
  obtain ⟨b, hb, rfl⟩ := Reader.exists_of_map h
  obtain ⟨hwhole, hle⟩ := hfirst ha
  obtain ⟨hwhole', hle'⟩ := hsecond hb
  refine ⟨Written.whole_append_iff.2 ⟨hwhole, hwhole'⟩, ?_⟩
  change first.size a + second.size b + rest.length ≤ src.length
  omega

theorem imap_condenses {format : Format α} {there : α → β} {back : β → α} (h : format.Condenses)
    (hback : ∀ a, (format.write a).Whole →
      (format.write (back (there a))).Whole ∧ format.size (back (there a)) ≤ format.size a) :
    (format.imap there back).Condenses := by
  intro src rest b hread
  obtain ⟨a, ha, rfl⟩ := Reader.exists_of_map hread
  obtain ⟨hwhole, hle⟩ := h ha
  obtain ⟨hwhole', hle'⟩ := hback a hwhole
  refine ⟨hwhole', ?_⟩
  change format.size (back (there a)) + rest.length ≤ src.length
  omega

theorem Canonical.condenses {format : Format α} (h : format.Canonical)
    (hround : ∀ a, format.RoundTrips a) : format.Condenses := by
  intro src rest a hread
  obtain ⟨bytes, hbytes, rfl⟩ := h hread
  have hlength := (hround a).length_eq hbytes
  refine ⟨Written.whole_iff.2 ⟨bytes, hbytes⟩, ?_⟩
  rw [List.length_append]
  omega

theorem string_condenses : string.Condenses :=
  string_canonical.condenses string_roundTrips

theorem longString_condenses : longString.Condenses :=
  longString_canonical.condenses longString_roundTrips

theorem bytes_condenses : bytes.Condenses := by
  intro src rest raw? h
  obtain ⟨length, middle, hlength, h⟩ := Reader.exists_of_bind h
  obtain ⟨_, hle⟩ := fixed_condenses intWidth _ Int32.ofNat hlength
  change intWidth + _ ≤ _ at hle
  split at h
  · cases h
    exact ⟨rfl, hle⟩
  · obtain ⟨raw, htake, rfl⟩ := Reader.exists_of_map h
    obtain ⟨hsize, rfl⟩ := Reader.append_of_take htake
    constructor
    · rw [bytes_some_whole_iff, hsize]
      apply toNatClampNeg_le_maxInt
    · rw [List.length_append] at hle
      change intWidth + raw.length + rest.length ≤ src.length
      omega

theorem presentBytes_condenses : presentBytes.Condenses := by
  apply imap_condenses bytes_condenses
  intro raw? hwhole
  cases raw? with
  | none => exact ⟨rfl, Nat.le_refl _⟩
  | some raw => exact ⟨hwhole, Nat.le_refl _⟩

theorem replicate_condenses {item : Format α} (h : item.Condenses) {n : Nat} {src rest : Bytes}
    {items : List α} (hread : Reader.replicate n item.read src = (.ok items, rest)) :
    items.length = n ∧ (∀ a ∈ items, (item.write a).Whole)
      ∧ item.totalSize items + rest.length ≤ src.length := by
  induction n generalizing src items with
  | zero =>
    cases hread
    simp [totalSize]
  | succ n ih =>
    obtain ⟨a, more, middle, ha, hmore, rfl⟩ := Reader.exists_of_replicate_succ hread
    obtain ⟨hwhole, hle⟩ := h ha
    obtain ⟨hlength, hwholes, hle'⟩ := ih hmore
    refine ⟨congrArg (· + 1) hlength, List.forall_mem_cons.2 ⟨hwhole, hwholes⟩, ?_⟩
    rw [totalSize]
    omega

theorem counted_condenses {item : Format α} (h : item.Condenses) (kind : ValueKind) :
    (counted kind item).Condenses := by
  intro src rest items hread
  obtain ⟨count, middle, hcount, hread⟩ := Reader.exists_of_bind hread
  obtain ⟨_, hle⟩ := fixed_condenses shortWidth UInt16.toNat UInt16.ofNat hcount
  obtain ⟨hlength, hwholes, hle'⟩ := replicate_condenses h hread
  constructor
  · rw [counted_whole_iff, hlength]
    exact ⟨toNat_le_maxShort count, hwholes⟩
  · change shortWidth + _ ≤ _ at hle
    change shortWidth + item.totalSize items + rest.length ≤ src.length
    omega

theorem stringList_condenses : stringList.Condenses :=
  counted_condenses string_condenses _

theorem entries_condenses {value : Format α} (h : value.Condenses) (kind : ValueKind) :
    (entries kind value).Condenses :=
  counted_condenses (pair_condenses string_condenses h) kind

theorem totalSize_sublist {item : Format α} {items items' : List α} (h : items'.Sublist items) :
    item.totalSize items' ≤ item.totalSize items := by
  induction h with
  | slnil => exact Nat.le_refl _
  | cons a _ ih =>
    rw [totalSize]
    omega
  | cons_cons a _ ih =>
    rw [totalSize, totalSize]
    omega

theorem map_condenses {value : Format α} (h : value.Condenses) (kind : ValueKind) :
    (Format.map kind value).Condenses := by
  apply imap_condenses (entries_condenses h kind)
  intro pairs hwhole
  obtain ⟨sorted, hperm, hsublist⟩ := StringMap.exists_of_ofList pairs
  constructor
  · apply counted_whole_of_subset _ _ hwhole
    · rw [← hperm.length_eq]
      exact hsublist.length_le
    · exact fun pair hmem => hperm.subset (hsublist.subset hmem)
  · change shortWidth + _ ≤ shortWidth + _
    rw [← totalSize_perm hperm]
    exact Nat.add_le_add_left (totalSize_sublist hsublist) _

theorem bytesMap_condenses : bytesMap.Condenses :=
  map_condenses presentBytes_condenses _

end Format

end CqlWire
