import CqlWire.Proofs.Format

/-!
This module contains which values have one form on the wire: what reads as such a value is what is
written of it. With what is known of values that are written, reading and writing undo each other.
-/

namespace CqlWire

namespace Format

variable {α β : Type}

/-- What reads as a value is what is written of it. -/
def Canonical (format : Format α) : Prop :=
  ∀ {src rest : Bytes} {a : α}, format.read src = (.ok a, rest) →
    ∃ bytes, format.write a = Written.ofBytes bytes ∧ src = bytes ++ rest

theorem fixed_canonical {width : Nat} {toNat : α → Nat} {ofNat : Nat → α}
    (hinv : ∀ n < Bytes.valueCount width, toNat (ofNat n) = n) :
    (fixed width toNat ofNat).Canonical := by
  intro src rest a h
  obtain ⟨front, htake, rfl⟩ := Reader.exists_of_map h
  obtain ⟨rfl, rfl⟩ := Reader.append_of_take htake
  refine ⟨front, ?_, rfl⟩
  change Written.ofBytes (Bytes.bigEndian front.length _) = _
  rw [Bytes.bigEndian_field toNat ofNat front hinv]

theorem u16_canonical : u16.Canonical := by
  apply fixed_canonical
  intro n hlt
  exact UInt16.toNat_ofNat_of_lt hlt

theorem i32_canonical : i32.Canonical := by
  apply fixed_canonical
  intro n hlt
  exact UInt32.toNat_ofNat_of_lt hlt

theorem uuid_canonical : uuid.Canonical := by
  apply fixed_canonical
  intro n hlt
  exact Nat.mod_eq_of_lt hlt

theorem pair_canonical {first : Format α} {second : Format β} (hfirst : first.Canonical)
    (hsecond : second.Canonical) : (first.pair second).Canonical := by
  intro src rest ab h
  obtain ⟨a, middle, ha, h⟩ := Reader.exists_of_bind h
  obtain ⟨b, hb, rfl⟩ := Reader.exists_of_map h
  obtain ⟨front, hfront, rfl⟩ := hfirst ha
  obtain ⟨back, hback, rfl⟩ := hsecond hb
  refine ⟨front ++ back, ?_, (List.append_assoc _ _ _).symm⟩
  exact Written.append_eq_ofBytes_iff.2 ⟨front, back, hfront, hback, rfl⟩

theorem writeShortLength_of_read {src rest : Bytes} {length : UInt16} (kind : ValueKind)
    (h : u16.read src = (.ok length, rest)) :
    ∃ front, writeShortLength kind length.toNat = Written.ofBytes front ∧ src = front ++ rest := by
  obtain ⟨front, hfront, hsrc⟩ := u16_canonical h
  refine ⟨front, ?_, hsrc⟩
  rw [writeShortLength, if_pos (toNat_le_maxShort length)]
  exact hfront

theorem toNatClampNeg_eq_toNat {length : Int32} (h : ¬ length < 0) :
    length.toNatClampNeg = length.toUInt32.toNat := by
  have hbits := BitVec.toInt_eq_toNat_cond length.toBitVec
  rw [Int32.lt_iff_toInt_lt] at h
  change ¬ length.toInt < 0 at h
  change length.toInt = _ at hbits
  change length.toInt.toNat = length.toBitVec.toNat
  omega

theorem writeIntLength_of_read {src rest : Bytes} {length : Int32} (kind : ValueKind)
    (h : i32.read src = (.ok length, rest)) (hlength : ¬ length < 0) :
    ∃ front, writeIntLength kind length.toNatClampNeg = Written.ofBytes front
      ∧ src = front ++ rest := by
  obtain ⟨front, hfront, hsrc⟩ := i32_canonical h
  refine ⟨front, ?_, hsrc⟩
  rw [writeIntLength, if_pos (toNatClampNeg_le_maxInt length)]
  rw [toNatClampNeg_eq_toNat hlength]
  exact hfront

theorem string_canonical : string.Canonical := by
  intro src rest text h
  obtain ⟨length, middle, hlength, h⟩ := Reader.exists_of_bind h
  obtain ⟨hsize, rfl⟩ := Reader.append_of_text h
  obtain ⟨front, hfront, rfl⟩ := writeShortLength_of_read .string hlength
  refine ⟨front ++ Utf8.encode text, ?_, (List.append_assoc _ _ _).symm⟩
  rw [← hsize] at hfront
  exact Written.append_eq_ofBytes_iff.2 ⟨front, _, hfront, rfl, rfl⟩

theorem longString_canonical : longString.Canonical := by
  intro src rest text h
  obtain ⟨length, middle, hlength, h⟩ := Reader.exists_of_bind h
  split at h
  · cases h
  · next hneg =>
    obtain ⟨hsize, rfl⟩ := Reader.append_of_text h
    obtain ⟨front, hfront, rfl⟩ := writeIntLength_of_read .longString hlength hneg
    refine ⟨front ++ Utf8.encode text, ?_, (List.append_assoc _ _ _).symm⟩
    rw [← hsize] at hfront
    exact Written.append_eq_ofBytes_iff.2 ⟨front, _, hfront, rfl, rfl⟩

theorem replicate_canonical {item : Format α} (h : item.Canonical) {n : Nat} {src rest : Bytes}
    {items : List α} (hread : Reader.replicate n item.read src = (.ok items, rest)) :
    items.length = n
      ∧ ∃ bytes, Written.each item.write items = Written.ofBytes bytes ∧ src = bytes ++ rest := by
  induction n generalizing src items with
  | zero =>
    cases hread
    exact ⟨rfl, [], rfl, rfl⟩
  | succ n ih =>
    obtain ⟨a, more, middle, ha, hmore, rfl⟩ := Reader.exists_of_replicate_succ hread
    obtain ⟨front, hfront, rfl⟩ := h ha
    obtain ⟨hlength, back, hback, rfl⟩ := ih hmore
    refine ⟨congrArg (· + 1) hlength, front ++ back, ?_, (List.append_assoc _ _ _).symm⟩
    rw [Written.each_cons]
    exact Written.append_eq_ofBytes_iff.2 ⟨front, back, hfront, hback, rfl⟩

theorem counted_canonical {item : Format α} (h : item.Canonical) (kind : ValueKind) :
    (counted kind item).Canonical := by
  intro src rest items hread
  obtain ⟨count, middle, hcount, hitems⟩ := Reader.exists_of_bind hread
  obtain ⟨front, hfront, rfl⟩ := writeShortLength_of_read kind hcount
  obtain ⟨hlength, back, hback, rfl⟩ := replicate_canonical h hitems
  refine ⟨front ++ back, ?_, (List.append_assoc _ _ _).symm⟩
  rw [← hlength] at hfront
  exact Written.append_eq_ofBytes_iff.2 ⟨front, back, hfront, hback, rfl⟩

theorem stringList_canonical : stringList.Canonical :=
  counted_canonical string_canonical _

theorem entries_canonical {value : Format α} (h : value.Canonical) (kind : ValueKind) :
    (entries kind value).Canonical :=
  counted_canonical (pair_canonical string_canonical h) kind

/--
Reading undoes writing, for as many bytes as are told, and maps of bytes may be written in any
order. Writing undoes reading for ids, texts and lists of texts.
-/
theorem read_inverts_write :
    ((∀ id, uuid.RoundTrips id)
        ∧ (∀ text, string.RoundTrips text)
        ∧ (∀ text, longString.RoundTrips text)
        ∧ (∀ raw?, bytes.RoundTrips raw?)
        ∧ (∀ texts, stringList.RoundTrips texts)
        ∧ (∀ map, stringMap.RoundTrips map)
        ∧ (∀ map, stringMultimap.RoundTrips map)
        ∧ ∀ (map : StringMap Bytes) (pairs : List (String × Bytes)) (written : Bytes),
            pairs.Perm map.entries →
            (entries .bytesMap presentBytes).write pairs = Written.ofBytes written →
            bytesMap.read.Reads written map ∧ written.length = bytesMap.size map)
      ∧ uuid.Canonical
      ∧ string.Canonical
      ∧ longString.Canonical
      ∧ stringList.Canonical := by
  refine ⟨⟨uuid_roundTrips, string_roundTrips, longString_roundTrips, bytes_roundTrips,
    stringList_roundTrips, stringMap_roundTrips, stringMultimap_roundTrips, ?_⟩,
    uuid_canonical, string_canonical, longString_canonical, stringList_canonical⟩
  intro map pairs written hperm hwritten
  exact bytesMap_of_perm hperm hwritten

theorem read_inverts_write_reordered :
    let map : StringMap Bytes := ⟨[("a", []), ("b", [7])], by decide⟩
    let written : Bytes := [0, 2, 0, 1, 98, 0, 0, 0, 1, 7, 0, 1, 97, 0, 0, 0, 0]
    bytesMap.read (written ++ [9]) = (.ok map, [9])
      ∧ written.length = bytesMap.size map
      ∧ ∃ bytes, string.write "é" = Written.ofBytes bytes
        ∧ [0, 2, 0xC3, 0xA9] ++ [9] = bytes ++ [9] := by
  intro map written
  obtain ⟨⟨_, htext, _, _, _, _, _, hmap⟩, _, hcanonical, _⟩ := read_inverts_write
  have hpairs : (entries .bytesMap presentBytes).write [("b", [7]), ("a", [])]
      = Written.ofBytes written := by decide
  obtain ⟨hreads, hlength⟩ := hmap map _ written (.swap _ _ _) hpairs
  refine ⟨hreads [9], hlength, ?_⟩
  exact hcanonical ((htext "é").reads (by decide) [9])

end Format

end CqlWire
