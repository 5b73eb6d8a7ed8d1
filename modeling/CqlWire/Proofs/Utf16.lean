import CqlWire.Proofs.Format.Condenses

/-!
This module contains why UTF-16 units are written as the text that they spell: the length that is
told in advance and the text that is decoded pair the same surrogates.
-/

namespace CqlWire

namespace Utf16

/-- A character is one unit, or a pair of surrogates if it is past the first plane. -/
def unitsOf (c : Char) : List UInt16 :=
  if c.toNat < 0x10000 then
    [UInt16.ofNat c.toNat]
  else
    [UInt16.ofNat (0xD800 + (c.toNat - 0x10000) / 0x400),
      UInt16.ofNat (0xDC00 + (c.toNat - 0x10000) % 0x400)]

def encode (text : String) : List UInt16 :=
  text.toList.flatMap unitsOf

/-- Units spell a text in which a question mark stands for each surrogate without a partner. -/
inductive Spells : List UInt16 → List Char → Prop
  | nil : Spells [] []
  | char {units : List UInt16} {text : List Char} (c : Char) (h : Spells units text) :
      Spells (unitsOf c ++ units) (c :: text)
  | loneHigh {unit : UInt16} {units : List UInt16} {text : List Char}
      (hhigh : isHighSurrogate unit = true)
      (hnext : ∀ next ∈ units.head?, isLowSurrogate next = false) (h : Spells units text) :
      Spells (unit :: units) ('?' :: text)
  -- A low surrogate that has a partner is taken together with it.
  | loneLow {unit : UInt16} {units : List UInt16} {text : List Char}
      (hlow : isLowSurrogate unit = true) (h : Spells units text) :
      Spells (unit :: units) ('?' :: text)

theorem isHighSurrogate_iff {unit : UInt16} :
    isHighSurrogate unit = true ↔ 0xD800 ≤ unit.toNat ∧ unit.toNat ≤ 0xDBFF := by
  simp [isHighSurrogate, UInt16.le_iff_toNat_le]

theorem isLowSurrogate_iff {unit : UInt16} :
    isLowSurrogate unit = true ↔ 0xDC00 ≤ unit.toNat ∧ unit.toNat ≤ 0xDFFF := by
  simp [isLowSurrogate, UInt16.le_iff_toNat_le]

theorem not_isLowSurrogate {unit : UInt16} (h : isHighSurrogate unit = true) :
    isLowSurrogate unit = false := by
  rw [isHighSurrogate_iff] at h
  rw [← Bool.not_eq_true, isLowSurrogate_iff]
  omega

theorem not_isHighSurrogate {unit : UInt16} (h : isLowSurrogate unit = true) :
    isHighSurrogate unit = false := by
  rw [← Bool.not_eq_true]
  intro hhigh
  rw [not_isLowSurrogate hhigh] at h
  exact Bool.false_ne_true h

/-- A unit that is a character by itself. -/
structure Plain (unit : UInt16) : Prop where
  not_high : isHighSurrogate unit = false
  not_low : isLowSurrogate unit = false

theorem plain_iff {unit : UInt16} :
    Plain unit ↔ unit.toNat < 0xD800 ∨ 0xDFFF < unit.toNat := by
  constructor
  · rintro ⟨hhigh, hlow⟩
    rw [← Bool.not_eq_true, isHighSurrogate_iff] at hhigh
    rw [← Bool.not_eq_true, isLowSurrogate_iff] at hlow
    omega
  · intro h
    constructor
    · rw [← Bool.not_eq_true, isHighSurrogate_iff]
      omega
    · rw [← Bool.not_eq_true, isLowSurrogate_iff]
      omega

theorem toNat_ofNat {n : Nat} (h : n.isValidChar) : (Char.ofNat n).toNat = n := by
  unfold Char.ofNat
  rw [dif_pos h]
  rfl

theorem toNat_ofNat_of_plain {unit : UInt16} (h : Plain unit) :
    (Char.ofNat unit.toNat).toNat = unit.toNat := by
  have hlt := unit.toNat_lt
  rw [plain_iff] at h
  apply toNat_ofNat
  unfold Nat.isValidChar
  omega

theorem toNat_ofPair {high low : UInt16} (hhigh : isHighSurrogate high = true)
    (hlow : isLowSurrogate low = true) :
    (ofPair high low).toNat
      =
    0x10000 + (high.toNat - 0xD800) * 0x400 + (low.toNat - 0xDC00) := by
  rw [isHighSurrogate_iff] at hhigh
  rw [isLowSurrogate_iff] at hlow
  apply toNat_ofNat
  unfold Nat.isValidChar
  omega

theorem unitsOf_of_plain {unit : UInt16} (h : Plain unit) :
    unitsOf (Char.ofNat unit.toNat) = [unit] := by
  unfold unitsOf
  rw [toNat_ofNat_of_plain h]
  rw [if_pos unit.toNat_lt]
  rw [UInt16.ofNat_toNat]

theorem unitsOf_ofPair {high low : UInt16} (hhigh : isHighSurrogate high = true)
    (hlow : isLowSurrogate low = true) : unitsOf (ofPair high low) = [high, low] := by
  have hnat := toNat_ofPair hhigh hlow
  rw [isHighSurrogate_iff] at hhigh
  rw [isLowSurrogate_iff] at hlow
  have hfirst : 0xD800 + ((ofPair high low).toNat - 0x10000) / 0x400 = high.toNat := by omega
  have hsecond : 0xDC00 + ((ofPair high low).toNat - 0x10000) % 0x400 = low.toNat := by omega
  unfold unitsOf
  rw [if_neg (by omega)]
  rw [hfirst, hsecond]
  rw [UInt16.ofNat_toNat, UInt16.ofNat_toNat]

theorem exists_plain_or_pair (c : Char) :
    (∃ unit, Plain unit ∧ c = Char.ofNat unit.toNat)
      ∨ ∃ high low, isHighSurrogate high = true ∧ isLowSurrogate low = true
        ∧ c = ofPair high low := by
  have hvalid : c.toNat < 0xD800 ∨ 0xDFFF < c.toNat ∧ c.toNat < 0x110000 := c.valid
  by_cases hlt : c.toNat < 0x10000
  · left
    have hunit := UInt16.toNat_ofNat_of_lt' hlt
    refine ⟨UInt16.ofNat c.toNat, ?_, ?_⟩
    · rw [plain_iff, hunit]
      omega
    · rw [hunit]
      exact c.ofNat_toNat.symm
  · right
    obtain ⟨n, hn⟩ := Nat.exists_eq_add_of_le (Nat.le_of_not_lt hlt)
    have hhigh : (UInt16.ofNat (0xD800 + n / 0x400)).toNat = 0xD800 + n / 0x400 :=
      UInt16.toNat_ofNat_of_lt' (by change _ < 0x10000; omega)
    have hlow : (UInt16.ofNat (0xDC00 + n % 0x400)).toNat = 0xDC00 + n % 0x400 :=
      UInt16.toNat_ofNat_of_lt' (by change _ < 0x10000; omega)
    refine ⟨UInt16.ofNat (0xD800 + n / 0x400), UInt16.ofNat (0xDC00 + n % 0x400), ?_, ?_, ?_⟩
    · rw [isHighSurrogate_iff, hhigh]
      omega
    · rw [isLowSurrogate_iff, hlow]
      omega
    · have hnat : 0x10000 + (0xD800 + n / 0x400 - 0xD800) * 0x400
          + (0xDC00 + n % 0x400 - 0xDC00) = c.toNat := by omega
      unfold ofPair
      rw [hhigh, hlow, hnat]
      exact c.ofNat_toNat.symm

theorem unpairedLength_of_plain {unit : UInt16} (h : Plain unit) :
    unpairedLength unit = (Char.ofNat unit.toNat).utf8Size := by
  have hval : (Char.ofNat unit.toNat).val.toNat = unit.toNat := toNat_ofNat_of_plain h
  have hlt := unit.toNat_lt
  unfold unpairedLength
  rw [h.not_high, h.not_low]
  simp only [UInt16.le_iff_toNat_le]
  symm
  split
  · next hle =>
    rw [Char.utf8Size_eq_one_iff, UInt32.le_iff_toNat_le, hval]
    exact hle
  · next hgt =>
    split
    · next hle =>
      rw [Char.utf8Size_eq_two_iff, UInt32.lt_iff_toNat_lt, UInt32.le_iff_toNat_le, hval]
      exact ⟨Nat.lt_of_not_le hgt, hle⟩
    · next hgt =>
      rw [if_neg (by decide)]
      rw [Char.utf8Size_eq_three_iff, UInt32.lt_iff_toNat_lt, UInt32.le_iff_toNat_le, hval]
      exact ⟨Nat.lt_of_not_le hgt, Nat.le_of_lt_succ hlt⟩

theorem unpairedLength_of_surrogate {unit : UInt16}
    (h : isHighSurrogate unit = true ∨ isLowSurrogate unit = true) : unpairedLength unit = 1 := by
  have hle : 0xD800 ≤ unit.toNat := by
    rw [isHighSurrogate_iff, isLowSurrogate_iff] at h
    omega
  unfold unpairedLength
  simp only [UInt16.le_iff_toNat_le]
  rw [if_neg (by simp; omega)]
  rw [if_neg (by simp; omega)]
  rw [if_pos (by simpa using h)]

theorem utf8Size_ofPair {high low : UInt16} (hhigh : isHighSurrogate high = true)
    (hlow : isLowSurrogate low = true) : (ofPair high low).utf8Size = 4 := by
  have hnat := toNat_ofPair hhigh hlow
  rw [Char.utf8Size_eq_four_iff]
  rw [UInt32.lt_iff_toNat_lt]
  change 0xFFFF < (ofPair high low).toNat
  omega

theorem utf8Length.go_of_pair {high low : UInt16} (hhigh : isHighSurrogate high = true)
    (hlow : isLowSurrogate low = true) (length : Nat) (units : List UInt16) :
    go length (high :: low :: units) = go (length + 4) units := by
  simp [go, hhigh, hlow]

theorem utf8Length.go_of_unpaired {unit : UInt16} {units : List UInt16}
    (h : isHighSurrogate unit = false ∨ ∀ next ∈ units.head?, isLowSurrogate next = false)
    (length : Nat) : go length (unit :: units) = go (length + unpairedLength unit) units := by
  cases units with
  | nil => rfl
  | cons next rest =>
    rw [go]
    apply if_neg
    rw [Bool.not_eq_true, Bool.and_eq_false_iff]
    exact h.imp_right fun hnext => hnext next rfl

theorem utf8ByteSize_ofList_cons (c : Char) (text : List Char) :
    (String.ofList (c :: text)).utf8ByteSize = c.utf8Size + (String.ofList text).utf8ByteSize := by
  rw [String.ofList_cons]
  rw [String.utf8ByteSize_append]
  rw [String.utf8ByteSize_singleton]

theorem utf8Length.go_of_spells {units : List UInt16} {text : List Char} (h : Spells units text)
    (length : Nat) : go length units = length + (String.ofList text).utf8ByteSize := by
  induction h generalizing length with
  | nil => rfl
  | char c _ ih =>
    rw [utf8ByteSize_ofList_cons]
    rw [← Nat.add_assoc]
    rcases exists_plain_or_pair c with ⟨unit, hplain, hc⟩ | ⟨high, low, hhigh, hlow, hc⟩
    · rw [hc]
      rw [unitsOf_of_plain hplain]
      rw [List.singleton_append]
      rw [go_of_unpaired (.inl hplain.not_high)]
      rw [unpairedLength_of_plain hplain]
      apply ih
    · rw [hc]
      rw [unitsOf_ofPair hhigh hlow]
      rw [utf8Size_ofPair hhigh hlow]
      rw [List.cons_append, List.singleton_append]
      rw [go_of_pair hhigh hlow]
      apply ih
  | loneHigh hhigh hnext _ ih =>
    rw [utf8ByteSize_ofList_cons]
    rw [← Nat.add_assoc]
    rw [go_of_unpaired (.inr hnext)]
    rw [unpairedLength_of_surrogate (.inl hhigh)]
    apply ih
  | loneLow hlow _ ih =>
    rw [utf8ByteSize_ofList_cons]
    rw [← Nat.add_assoc]
    rw [go_of_unpaired (.inl (not_isHighSurrogate hlow))]
    rw [unpairedLength_of_surrogate (.inr hlow)]
    apply ih

theorem decode.go_of_lone {unit : UInt16} {units : List UInt16}
    (hnext : ∀ next ∈ units.head?, isLowSurrogate next = false) (done : List Char) :
    go (some unit) done units = go none ('?' :: done) units := by
  cases units with
  | nil => rfl
  | cons next rest =>
    rw [go, go]
    rw [hnext next rfl]
    rfl

theorem decode.go_of_spells {units : List UInt16} {text : List Char} (h : Spells units text)
    (done : List Char) : go none done units = done.reverse ++ text := by
  induction h generalizing done with
  | nil =>
    rw [List.append_nil]
    rfl
  | char c _ ih =>
    rcases exists_plain_or_pair c with ⟨unit, hplain, hc⟩ | ⟨high, low, hhigh, hlow, hc⟩
    · rw [hc]
      rw [unitsOf_of_plain hplain]
      rw [List.singleton_append]
      simp only [go, hplain.not_high, hplain.not_low, Bool.false_eq_true, if_false]
      rw [ih]
      simp
    · rw [hc]
      rw [unitsOf_ofPair hhigh hlow]
      rw [List.cons_append, List.singleton_append]
      simp only [go, hhigh, hlow, if_true]
      rw [ih]
      simp
  | loneHigh hhigh hnext _ ih =>
    rw [go]
    rw [if_pos hhigh]
    rw [go_of_lone hnext]
    rw [ih]
    simp
  | loneLow hlow _ ih =>
    rw [go]
    rw [if_neg (by rw [not_isHighSurrogate hlow]; exact Bool.false_ne_true)]
    rw [if_pos hlow]
    rw [ih]
    simp

theorem Spells.plain {unit : UInt16} {units : List UInt16} {text : List Char} (hunit : Plain unit)
    (h : Spells units text) : Spells (unit :: units) (Char.ofNat unit.toNat :: text) := by
  have hchar := h.char (Char.ofNat unit.toNat)
  rw [unitsOf_of_plain hunit] at hchar
  apply hchar

theorem Spells.pair {high low : UInt16} {units : List UInt16} {text : List Char}
    (hhigh : isHighSurrogate high = true) (hlow : isLowSurrogate low = true)
    (h : Spells units text) : Spells (high :: low :: units) (ofPair high low :: text) := by
  have hchar := h.char (ofPair high low)
  rw [unitsOf_ofPair hhigh hlow] at hchar
  apply hchar

theorem exists_spells (units : List UInt16) : ∃ text, Spells units text := by
  -- By induction on their number: a pair is taken off at once.
  cases units with
  | nil => exact ⟨[], .nil⟩
  | cons unit rest =>
    obtain ⟨text, hrest⟩ := exists_spells rest
    cases hlow : isLowSurrogate unit with
    | true => exact ⟨_, hrest.loneLow hlow⟩
    | false =>
      cases hhigh : isHighSurrogate unit with
      | false => exact ⟨_, hrest.plain ⟨hhigh, hlow⟩⟩
      | true =>
        cases rest with
        | nil => exact ⟨_, hrest.loneHigh hhigh (by simp)⟩
        | cons next units =>
          cases hnext : isLowSurrogate next with
          | false => exact ⟨_, hrest.loneHigh hhigh (by simpa using hnext)⟩
          | true =>
            obtain ⟨text', hunits⟩ := exists_spells units
            exact ⟨_, hunits.pair hhigh hnext⟩
termination_by units.length

theorem eq_of_spells {units : List UInt16} {text : List Char} (h : Spells units text) :
    text = (decode units).toList := by
  unfold decode
  rw [decode.go_of_spells h]
  rw [String.toList_ofList]
  rfl

theorem spells_iff {units : List UInt16} {text : List Char} :
    Spells units text ↔ text = (decode units).toList := by
  constructor
  · exact eq_of_spells
  · rintro rfl
    obtain ⟨text, htext⟩ := exists_spells units
    rw [← eq_of_spells htext]
    exact htext

theorem utf8Length_eq (units : List UInt16) :
    utf8Length units = (decode units).utf8ByteSize := by
  have hspells := spells_iff.2 (rfl : (decode units).toList = _)
  unfold utf8Length
  rw [utf8Length.go_of_spells hspells]
  rw [String.ofList_toList]
  apply Nat.zero_add

theorem spells_encode (text : String) : Spells (encode text) text.toList := by
  unfold encode
  induction text.toList with
  | nil => exact .nil
  | cons c rest ih =>
    rw [List.flatMap_cons]
    exact ih.char c

theorem decode_encode (text : String) : decode (encode text) = text := by
  apply String.toList_inj.1
  exact (eq_of_spells (spells_encode text)).symm

end Utf16

namespace Format

theorem writeUtf16_eq (units : List UInt16) :
    writeUtf16 units = string.write (Utf16.decode units) := by
  unfold writeUtf16
  rw [Utf16.utf8Length_eq]
  rfl

/--
Units are written if their length, which is told without decoding them, fits, and then as a text
that is read as what they spell. The units of a text are written as the text itself.
-/
theorem writeUtf16_as_spelled :
    (∀ units,
      ((writeUtf16 units).Whole ↔ Utf16.utf8Length units ≤ maxShort)
        ∧ (¬ (writeUtf16 units).Whole → (writeUtf16 units).bytes = [])
        ∧ ((writeUtf16 units).Whole →
            (writeUtf16 units).bytes.length = sizeUtf16 units
              ∧ ∃ text : String, (∀ chars, Utf16.Spells units chars ↔ chars = text.toList)
                ∧ string.read.Reads (writeUtf16 units).bytes text))
      ∧ ∀ text : String,
        Utf16.utf8Length (Utf16.encode text) = text.utf8ByteSize
          ∧ writeUtf16 (Utf16.encode text) = string.write text := by
  constructor
  · intro units
    rw [writeUtf16_eq]
    rw [Utf16.utf8Length_eq]
    refine ⟨string_whole_iff, ?_, ?_⟩
    · intro hwhole
      rw [string_whole_iff] at hwhole
      dsimp only [string, writeShortLength]
      rw [if_neg hwhole]
      rfl
    · intro hwhole
      obtain ⟨bytes, hbytes⟩ := Written.whole_iff.1 hwhole
      have htext := string_roundTrips (Utf16.decode units)
      rw [hbytes]
      refine ⟨?_, Utf16.decode units, fun chars => Utf16.spells_iff, htext.reads hbytes⟩
      unfold sizeUtf16
      rw [Utf16.utf8Length_eq]
      exact htext.length_eq hbytes
  · intro text
    constructor
    · rw [Utf16.utf8Length_eq]
      rw [Utf16.decode_encode]
    · rw [writeUtf16_eq]
      rw [Utf16.decode_encode]

/-- A low surrogate alone, a pair, and a high surrogate alone. -/
theorem writeUtf16_as_spelled_unpaired :
    let units : List UInt16 := [0xDE00, 0xD83D, 0xDE00, 0xD83D]
    let bytes : Bytes := [0, 6, 0x3F, 0xF0, 0x9F, 0x98, 0x80, 0x3F]
    (writeUtf16 units).Whole
      ∧ (writeUtf16 units).bytes = bytes
      ∧ bytes.length = sizeUtf16 units
      ∧ ∃ text : String, (∀ chars, Utf16.Spells units chars ↔ chars = text.toList)
        ∧ string.read.Reads bytes text := by
  intro units bytes
  obtain ⟨hwhole_iff, _, hread⟩ := writeUtf16_as_spelled.1 units
  have hwhole : (writeUtf16 units).Whole := hwhole_iff.2 (by decide)
  have hbytes : (writeUtf16 units).bytes = bytes := by decide +kernel
  obtain ⟨hlength, htext⟩ := hread hwhole
  rw [hbytes] at hlength htext
  exact ⟨hwhole, hbytes, hlength, htext⟩

end Format

end CqlWire
