import CqlWire.Format
import CqlWire.Proofs.StringMap

/-!
This module contains why values are read as they were written: for each wire format, what is written
of a value reads as the value whatever follows it, and has the length that is told.
-/

namespace CqlWire

namespace Reader

variable {α β : Type}

/-- Off the front of any bytes that start with these, a value is read and these are taken. -/
def Reads (read : Reader α) (bytes : Bytes) (a : α) : Prop :=
  ∀ rest, read (bytes ++ rest) = (.ok a, rest)

namespace Reads

theorem fst_eq {read : Reader α} {bytes : Bytes} {a : α} (h : read.Reads bytes a) :
    (read bytes).1 = .ok a := by
  have := h []
  rw [List.append_nil] at this
  rw [this]

theorem pure (a : α) : (Pure.pure a : Reader α).Reads [] a := by
  intro rest
  rfl

theorem bind {read : Reader α} {next : α → Reader β} {bytes bytes' : Bytes} {a : α} {b : β}
    (h : read.Reads bytes a) (hnext : (next a).Reads bytes' b) :
    (read >>= next).Reads (bytes ++ bytes') b := by
  intro rest
  rw [bind_apply]
  rw [List.append_assoc]
  rw [h]
  apply hnext

theorem map {read : Reader α} {bytes : Bytes} {a : α} (f : α → β) (h : read.Reads bytes a) :
    (f <$> read).Reads bytes (f a) := by
  intro rest
  rw [map_apply]
  rw [h]

theorem take (bytes : Bytes) : (Reader.take bytes.length).Reads bytes bytes := by
  intro rest
  rw [Reader.take]
  rw [Bytes.split?_append]

theorem text (text : String) : (Reader.text text.utf8ByteSize).Reads (Utf8.encode text) text := by
  intro rest
  rw [Reader.text]
  rw [bind_apply]
  rw [← Utf8.length_encode]
  rw [take]
  simp only [Utf8.decode_encode]
  rfl

theorem replicate_zero (item : Reader α) : (replicate 0 item).Reads [] [] := by
  intro rest
  rfl

theorem replicate_succ {item : Reader α} {n : Nat} {front back : Bytes} {a : α} {more : List α}
    (hitem : item.Reads front a) (hmore : (replicate n item).Reads back more) :
    (replicate (n + 1) item).Reads (front ++ back) (a :: more) := by
  intro rest
  rw [Reader.replicate_succ]
  rw [List.append_assoc]
  rw [hitem]
  dsimp only
  rw [hmore]

end Reads

end Reader

namespace Format

variable {α β : Type}

/-- What is written of a value reads as the value, and is as long as is told. -/
structure RoundTrips (format : Format α) (a : α) : Prop where
  reads : ∀ {bytes : Bytes}, format.write a = Written.ofBytes bytes → format.read.Reads bytes a
  length_eq : ∀ {bytes : Bytes},
    format.write a = Written.ofBytes bytes → bytes.length = format.size a

theorem RoundTrips.eq_of_write {format : Format α} {a a' : α} {bytes : Bytes}
    (h : format.RoundTrips a) (hwrite : format.write a = Written.ofBytes bytes)
    (h' : format.RoundTrips a') (hwrite' : format.write a' = Written.ofBytes bytes) : a = a' := by
  have hread := (h.reads hwrite).fst_eq
  rw [(h'.reads hwrite').fst_eq] at hread
  exact (Except.ok.inj hread).symm

theorem reads_bigEndian (width : Nat) (toNat : α → Nat) (ofNat : Nat → α) (n : Nat) :
    (fixed width toNat ofNat).read.Reads (Bytes.bigEndian width n)
      (ofNat (n % Bytes.valueCount width)) := by
  have htake := Reader.Reads.take (Bytes.bigEndian width n)
  rw [Bytes.length_bigEndian] at htake
  have hmap := htake.map (fun bytes => ofNat bytes.ofBigEndian)
  rw [Bytes.ofBigEndian_bigEndian] at hmap
  apply hmap

theorem fixed_roundTrips {width : Nat} {toNat : α → Nat} {ofNat : Nat → α} {a : α}
    (hlt : toNat a < Bytes.valueCount width) (hinv : ofNat (toNat a) = a) :
    (fixed width toNat ofNat).RoundTrips a where
  reads h := by
    rw [fixed, Written.ofBytes_inj] at h
    rw [← h]
    have hreads := reads_bigEndian width toNat ofNat (toNat a)
    rw [Nat.mod_eq_of_lt hlt] at hreads
    rw [hinv] at hreads
    apply hreads
  length_eq h := by
    rw [fixed, Written.ofBytes_inj] at h
    rw [← h]
    apply Bytes.length_bigEndian

theorem u8_roundTrips (a : UInt8) : u8.RoundTrips a :=
  fixed_roundTrips a.toNat_lt (by simp)

theorem u16_roundTrips (a : UInt16) : u16.RoundTrips a :=
  fixed_roundTrips a.toNat_lt (by simp)

theorem u32_roundTrips (a : UInt32) : u32.RoundTrips a :=
  fixed_roundTrips a.toNat_lt (by simp)

theorem i32_roundTrips (a : Int32) : i32.RoundTrips a :=
  fixed_roundTrips a.toUInt32.toNat_lt (Int32.ofNat_bitVecToNat a.toBitVec)

theorem uuid_roundTrips (a : Uuid) : uuid.RoundTrips a :=
  fixed_roundTrips a.value.isLt (by simp)

theorem pair_roundTrips {first : Format α} {second : Format β} {a : α} {b : β}
    (hfirst : first.RoundTrips a) (hsecond : second.RoundTrips b) :
    (first.pair second).RoundTrips (a, b) where
  reads h := by
    obtain ⟨front, back, hfront, hback, rfl⟩ := Written.append_eq_ofBytes_iff.1 h
    apply (hfirst.reads hfront).bind
    apply (hsecond.reads hback).map
  length_eq h := by
    obtain ⟨front, back, hfront, hback, rfl⟩ := Written.append_eq_ofBytes_iff.1 h
    rw [List.length_append]
    rw [hfirst.length_eq hfront]
    rw [hsecond.length_eq hback]
    rfl

theorem imap_roundTrips {format : Format α} {there : α → β} {back : β → α} {b : β}
    (hback : format.RoundTrips (back b)) (hinv : there (back b) = b) :
    (format.imap there back).RoundTrips b where
  reads h := by
    have hmap := (hback.reads h).map there
    rw [hinv] at hmap
    apply hmap
  length_eq h := hback.length_eq h

theorem writeShortLength_eq_ofBytes {kind : ValueKind} {length : Nat} {bytes : Bytes}
    (h : writeShortLength kind length = Written.ofBytes bytes) :
    length ≤ maxShort ∧ bytes = Bytes.bigEndian shortWidth length := by
  obtain ⟨hle, h⟩ := Written.guarded_eq_ofBytes_iff.1 h
  exact ⟨hle, (Written.ofBytes_inj.1 h).symm⟩

theorem writeIntLength_eq_ofBytes {kind : ValueKind} {length : Nat} {bytes : Bytes}
    (h : writeIntLength kind length = Written.ofBytes bytes) :
    length ≤ maxInt ∧ bytes = Bytes.bigEndian intWidth length := by
  obtain ⟨hle, h⟩ := Written.guarded_eq_ofBytes_iff.1 h
  exact ⟨hle, (Written.ofBytes_inj.1 h).symm⟩

theorem toNat_le_maxShort (length : UInt16) : length.toNat ≤ maxShort :=
  Nat.le_of_lt_succ length.toNat_lt

theorem toNatClampNeg_le_maxInt (length : Int32) : length.toNatClampNeg ≤ maxInt := by
  have := length.toInt_lt
  simp only [Int32.toNatClampNeg, maxInt]
  omega

theorem reads_shortLength {length : Nat} (h : length ≤ maxShort) :
    ∃ length' : UInt16, length'.toNat = length
      ∧ u16.read.Reads (Bytes.bigEndian shortWidth length) length' := by
  simp only [maxShort] at h
  refine ⟨UInt16.ofNat length, ?_, ?_⟩
  · rw [UInt16.toNat_ofNat']
    omega
  · have hreads := reads_bigEndian shortWidth UInt16.toNat UInt16.ofNat length
    rw [Nat.mod_eq_of_lt (by simp only [shortWidth, Bytes.valueCount]; omega)] at hreads
    apply hreads

theorem reads_intLength {length : Nat} (h : length ≤ maxInt) :
    ∃ length' : Int32, length'.toNatClampNeg = length ∧ ¬ length' < 0
      ∧ i32.read.Reads (Bytes.bigEndian intWidth length) length' := by
  simp only [maxInt] at h
  refine ⟨Int32.ofNat length, ?_, ?_, ?_⟩
  · apply Int32.toNatClampNeg_ofNat_of_lt
    omega
  · rw [Int32.lt_iff_toInt_lt]
    rw [Int32.toInt_ofNat_of_lt (by omega)]
    simp
  · have hreads := reads_bigEndian intWidth (fun a : Int32 => a.toUInt32.toNat) Int32.ofNat length
    rw [Nat.mod_eq_of_lt (by simp only [intWidth, Bytes.valueCount]; omega)] at hreads
    apply hreads

theorem exists_of_shortLength_append {kind : ValueKind} {length : Nat} {rest : Written}
    {bytes : Bytes} (h : writeShortLength kind length ++ rest = Written.ofBytes bytes) :
    ∃ (length' : UInt16) (front back : Bytes),
      bytes = front ++ back ∧ rest = Written.ofBytes back ∧ front.length = shortWidth
        ∧ length'.toNat = length ∧ u16.read.Reads front length' := by
  obtain ⟨front, back, hfront, hback, rfl⟩ := Written.append_eq_ofBytes_iff.1 h
  obtain ⟨hle, rfl⟩ := writeShortLength_eq_ofBytes hfront
  obtain ⟨length', hlength, hreads⟩ := reads_shortLength hle
  exact ⟨length', _, back, rfl, hback, Bytes.length_bigEndian _ _, hlength, hreads⟩

theorem exists_of_intLength_append {kind : ValueKind} {length : Nat} {rest : Written}
    {bytes : Bytes} (h : writeIntLength kind length ++ rest = Written.ofBytes bytes) :
    ∃ (length' : Int32) (front back : Bytes),
      bytes = front ++ back ∧ rest = Written.ofBytes back ∧ front.length = intWidth
        ∧ length'.toNatClampNeg = length ∧ ¬ length' < 0 ∧ i32.read.Reads front length' := by
  obtain ⟨front, back, hfront, hback, rfl⟩ := Written.append_eq_ofBytes_iff.1 h
  obtain ⟨hle, rfl⟩ := writeIntLength_eq_ofBytes hfront
  obtain ⟨length', hlength, hneg, hreads⟩ := reads_intLength hle
  exact ⟨length', _, back, rfl, hback, Bytes.length_bigEndian _ _, hlength, hneg, hreads⟩

theorem string_roundTrips (text : String) : string.RoundTrips text where
  reads h := by
    obtain ⟨length, front, back, rfl, hback, _, hlength, hreads⟩ := exists_of_shortLength_append h
    rw [Written.ofBytes_inj] at hback
    apply hreads.bind
    rw [hlength]
    rw [← hback]
    apply Reader.Reads.text
  length_eq h := by
    obtain ⟨_, front, back, rfl, hback, hwidth, _⟩ := exists_of_shortLength_append h
    rw [Written.ofBytes_inj] at hback
    rw [List.length_append, hwidth]
    rw [← hback]
    simp [string]

theorem longString_roundTrips (text : String) : longString.RoundTrips text where
  reads h := by
    obtain ⟨length, front, back, rfl, hback, _, hlength, hneg, hreads⟩ :=
      exists_of_intLength_append h
    rw [Written.ofBytes_inj] at hback
    apply hreads.bind
    rw [if_neg hneg]
    rw [hlength]
    rw [← hback]
    apply Reader.Reads.text
  length_eq h := by
    obtain ⟨_, front, back, rfl, hback, hwidth, _⟩ := exists_of_intLength_append h
    rw [Written.ofBytes_inj] at hback
    rw [List.length_append, hwidth]
    rw [← hback]
    simp [longString]

theorem bytes_some_roundTrips (raw : Bytes) : bytes.RoundTrips (some raw) where
  reads h := by
    obtain ⟨length, front, back, rfl, hback, _, hlength, hneg, hreads⟩ :=
      exists_of_intLength_append h
    rw [Written.ofBytes_inj] at hback
    subst hback
    apply hreads.bind
    rw [if_neg hneg]
    rw [hlength]
    apply (Reader.Reads.take raw).map
  length_eq h := by
    obtain ⟨_, front, back, rfl, hback, hwidth, _⟩ := exists_of_intLength_append h
    rw [Written.ofBytes_inj] at hback
    rw [List.length_append, hwidth]
    rw [← hback]
    rfl

theorem bytes_roundTrips (raw? : Option Bytes) : bytes.RoundTrips raw? := by
  cases raw? with
  | none =>
    constructor
    · intro written h
      have hminus := (i32_roundTrips (-1)).reads h
      rw [← List.append_nil written]
      apply hminus.bind
      apply Reader.Reads.pure
    · intro written h
      exact (i32_roundTrips (-1)).length_eq h
  | some raw => exact bytes_some_roundTrips raw

theorem presentBytes_roundTrips (raw : Bytes) : presentBytes.RoundTrips raw :=
  imap_roundTrips (bytes_some_roundTrips raw) rfl

theorem each_roundTrips {item : Format α} {items : List α} {bytes : Bytes}
    (hitems : ∀ a ∈ items, item.RoundTrips a)
    (h : Written.each item.write items = Written.ofBytes bytes) :
    (Reader.replicate items.length item.read).Reads bytes items
      ∧ bytes.length = item.totalSize items := by
  induction items generalizing bytes with
  | nil =>
    rw [Written.each_nil, Written.ofBytes_inj] at h
    subst h
    exact ⟨.replicate_zero _, rfl⟩
  | cons a rest ih =>
    rw [Written.each_cons, Written.append_eq_ofBytes_iff] at h
    obtain ⟨front, back, hfront, hback, rfl⟩ := h
    have hitem := hitems a (by simp)
    have hrest := ih (fun a hmem => hitems a (by simp [hmem])) hback
    constructor
    · apply Reader.Reads.replicate_succ
      · apply hitem.reads hfront
      · apply hrest.1
    · rw [List.length_append]
      rw [hitem.length_eq hfront]
      rw [hrest.2]
      rfl

theorem counted_roundTrips {kind : ValueKind} {item : Format α} {items : List α}
    (hitems : ∀ a ∈ items, item.RoundTrips a) : (counted kind item).RoundTrips items where
  reads h := by
    obtain ⟨count, front, back, rfl, hback, _, hcount, hreads⟩ := exists_of_shortLength_append h
    apply hreads.bind
    rw [hcount]
    apply (each_roundTrips hitems hback).1
  length_eq h := by
    obtain ⟨_, front, back, rfl, hback, hwidth, _⟩ := exists_of_shortLength_append h
    rw [List.length_append, hwidth]
    rw [(each_roundTrips hitems hback).2]
    rfl

theorem stringList_roundTrips (texts : List String) : stringList.RoundTrips texts :=
  counted_roundTrips fun text _ => string_roundTrips text

theorem entries_roundTrips {kind : ValueKind} {value : Format α} {pairs : List (String × α)}
    (hvalues : ∀ pair ∈ pairs, value.RoundTrips pair.2) :
    (entries kind value).RoundTrips pairs :=
  counted_roundTrips fun pair hmem => pair_roundTrips (string_roundTrips pair.1) (hvalues pair hmem)

theorem map_roundTrips {kind : ValueKind} {value : Format α} (map : StringMap α)
    (hvalues : ∀ a, value.RoundTrips a) : (Format.map kind value).RoundTrips map := by
  apply imap_roundTrips
  · apply entries_roundTrips
    intro pair _
    apply hvalues
  · apply StringMap.ofList_entries

theorem stringMap_roundTrips (map : StringMap String) : stringMap.RoundTrips map :=
  map_roundTrips map string_roundTrips

theorem stringMultimap_roundTrips (map : StringMap (List String)) :
    stringMultimap.RoundTrips map :=
  map_roundTrips map stringList_roundTrips

theorem totalSize_perm {item : Format α} {items items' : List α} (h : items'.Perm items) :
    item.totalSize items' = item.totalSize items := by
  induction h with
  | nil => rfl
  | cons a _ ih => rw [totalSize, totalSize, ih]
  | swap a b rest =>
    simp only [totalSize]
    omega
  | trans _ _ ih ih' => rw [ih, ih']

theorem bytesMap_of_perm {map : StringMap Bytes} {pairs : List (String × Bytes)} {bytes : Bytes}
    (hperm : pairs.Perm map.entries)
    (h : (entries .bytesMap presentBytes).write pairs = Written.ofBytes bytes) :
    bytesMap.read.Reads bytes map ∧ bytes.length = bytesMap.size map := by
  have hpairs : (entries .bytesMap presentBytes).RoundTrips pairs :=
    entries_roundTrips fun pair _ => presentBytes_roundTrips pair.2
  constructor
  · have hreads := (hpairs.reads h).map StringMap.ofList
    rw [StringMap.ofList_of_perm hperm] at hreads
    apply hreads
  · rw [hpairs.length_eq h]
    change shortWidth + _ = shortWidth + _
    rw [totalSize_perm hperm]

end Format

end CqlWire
