import CqlWire.Proofs.Bits
import CqlWire.Proofs.Checksum.Crc24
import CqlWire.Proofs.Checksum.Crc32
import CqlWire.Proofs.Segment

/-!
This module contains which damage to a segment is sure to be noticed. A header and a body are
accepted for what remains of them in the register of their checksum, and small damage changes what
remains.
-/

namespace CqlWire

open Bytes (SameOutside differing flip)

namespace SegmentHeader

def carriedChecksum (compressor : Compressor) (bytes : Bytes) : UInt32 :=
  UInt32.ofNat (Bytes.ofLittleEndian (bytes.drop (dataSize compressor)))

def dataChecksum (compressor : Compressor) (bytes : Bytes) : UInt32 :=
  crc24 (Bytes.ofLittleEndian (bytes.take (dataSize compressor))) (dataSize compressor)

/-- The bytes of a header in the order of the division: those of the checksum are turned around. -/
def dividend (compressor : Compressor) (bytes : Bytes) : Bytes :=
  bytes.take (dataSize compressor) ++ (bytes.drop (dataSize compressor)).reverse

def remainder (compressor : Compressor) (bytes : Bytes) : UInt32 :=
  Crc24.division.run Crc24.init (dividend compressor bytes)

/-- How many bits of the dividend are behind a bit of the header. -/
def bitsBehind (compressor : Compressor) (i : Nat) : Nat :=
  if i / 8 < dataSize compressor then 8 * (dataSize compressor + 2 - i / 8) + i % 8
  else i - 8 * dataSize compressor

theorem dataSize_le (compressor : Compressor) : dataSize compressor ≤ 5 := by
  unfold dataSize
  split <;> decide

variable {compressor : Compressor} {bytes bytes' : Bytes}

theorem carriedChecksum_eq_iff (h : bytes.length = size compressor) :
    carriedChecksum compressor bytes = dataChecksum compressor bytes
      ↔
    remainder compressor bytes = 0 := by
  have htake : (bytes.take (dataSize compressor)).length = dataSize compressor := by
    rw [List.length_take, h]
    unfold size
    omega
  have hdrop : (bytes.drop (dataSize compressor)).length = 3 := by
    rw [List.length_drop, h]
    exact Nat.add_sub_cancel_left _ _
  have hdata := Bytes.littleEndian_ofLittleEndian (bytes.take (dataSize compressor))
  rw [htake] at hdata
  unfold dataChecksum crc24
  rw [hdata]
  exact Crc24.eq_checksum_iff hdrop

theorem read_of_length_eq (h : bytes.length = size compressor) :
    read compressor bytes
      =
    if remainder compressor bytes = 0 then
      (.ok (unpack compressor (Bytes.ofLittleEndian (bytes.take (dataSize compressor)))), [])
    else
      (.error (.checksum .header (carriedChecksum compressor bytes)
        (dataChecksum compressor bytes)), []) := by
  have hle := Nat.le_of_eq h.symm
  have hcarried : UInt32.ofNat (checksumOf compressor bytes) = carriedChecksum compressor bytes := by
    unfold checksumOf carriedChecksum
    rw [List.take_of_length_le]
    rw [List.length_drop, h]
    exact Nat.le_of_eq (Nat.add_sub_cancel_left _ _)
  rw [read_of_size_le hle]
  rw [List.drop_eq_nil_of_le (Nat.le_of_eq h)]
  simp only [← ofNat_checksumOf_eq_iff hle, ← carriedChecksum_eq_iff h]
  rw [hcarried]
  unfold dataChecksum dataOf
  split <;> rfl

theorem exists_dividend {front back : Bytes}
    (h : front.length + (back.length + 1) = size compressor) :
    ∃ front' back', (∀ b, dividend compressor (front ++ b :: back) = front' ++ b :: back')
      ∧ ∀ k < 8, 8 * back'.length + k = bitsBehind compressor (8 * front.length + k) := by
  have hbyte : ∀ k < 8, (8 * front.length + k) / 8 = front.length := by omega
  change _ = dataSize compressor + 3 at h
  by_cases hlt : front.length < dataSize compressor
  · obtain ⟨n, hn⟩ := Nat.exists_eq_add_of_lt hlt
    refine ⟨front, back.take n ++ (back.drop n).reverse, ?_, ?_⟩
    · intro b
      unfold dividend
      rw [hn, Nat.add_assoc]
      rw [List.take_length_add_append, List.drop_length_add_append]
      rw [List.take_succ_cons, List.drop_succ_cons]
      rw [List.append_assoc]
      rfl
    · intro k hk
      unfold bitsBehind
      rw [hbyte k hk, if_pos hlt]
      rw [List.length_append, List.length_reverse, List.length_take, List.length_drop]
      omega
  · -- In the checksum, the bytes that stand in front come behind.
    have hle := Nat.le_of_not_lt hlt
    refine ⟨front.take (dataSize compressor) ++ back.reverse,
      (front.drop (dataSize compressor)).reverse, ?_, ?_⟩
    · intro b
      unfold dividend
      rw [List.take_append_of_le_length hle, List.drop_append_of_le_length hle]
      rw [List.reverse_append, List.reverse_cons]
      simp only [List.append_assoc, List.singleton_append]
    · intro k hk
      unfold bitsBehind
      rw [hbyte k hk, if_neg hlt]
      rw [List.length_reverse, List.length_drop]
      omega

theorem remainder_flip {i : Nat} (h : bytes.length = size compressor)
    (hi : i < 8 * size compressor) :
    remainder compressor (flip bytes i)
      =
    remainder compressor bytes ^^^ Crc24.division.shift^[24 + bitsBehind compressor i] 1 := by
  obtain ⟨front, b, back, rfl, hfront, hflip⟩ := Bytes.exists_of_lt (h ▸ hi)
  rw [List.length_append, List.length_cons] at h
  obtain ⟨front', back', hdividend, hbehind⟩ := exists_dividend h
  have hk : i % 8 < 8 := Nat.mod_lt _ (by decide)
  have hi : 8 * front.length + i % 8 = i := by omega
  unfold remainder
  rw [hflip]
  rw [hdividend, hdividend]
  rw [Division.run_append, Division.run_append]
  rw [Division.run_cons_xor]
  congr 1
  change _^[_] (Crc24.place _) = _
  rw [Crc24.place_two_pow hk]
  rw [← Function.iterate_add_apply]
  have := hbehind (i % 8) hk
  rw [hi] at this
  rw [← this]
  congr 1
  omega

theorem odd_remainder_flip {i : Nat} (h : bytes.length = size compressor)
    (hi : i < 8 * size compressor) :
    Crc24.odd 24 (remainder compressor (flip bytes i)).toNat
      =
    !Crc24.odd 24 (remainder compressor bytes).toNat := by
  rw [remainder_flip h hi]
  rw [UInt32.toNat_xor]
  rw [Crc24.odd_xor, Crc24.odd_shifts_one]
  apply Bool.xor_true

theorem eq_of_bitsBehind_eq {i j : Nat} (hi : i < 8 * size compressor)
    (hj : j < 8 * size compressor) (h : bitsBehind compressor i = bitsBehind compressor j) :
    i = j := by
  unfold bitsBehind at h
  unfold size checksumSize at hi hj
  split at h <;> split at h <;> omega

theorem bitsBehind_lt {i : Nat} (h : i < 8 * size compressor) : bitsBehind compressor i < 64 := by
  have hle := dataSize_le compressor
  unfold bitsBehind
  unfold size checksumSize at h
  split <;> omega

/-- Damage to a header that its checksum is sure to tell. -/
inductive SmallDamage (compressor : Compressor) (bytes bytes' : Bytes) : Prop
  | odd (h : (differing bytes bytes').card % 2 = 1)
  | two (h : (differing bytes bytes').card = 2)
  | data (start : Nat) (hle : start + 3 ≤ dataSize compressor)
      (h : SameOutside start 3 bytes bytes')
  | checksum (h : SameOutside (dataSize compressor) checksumSize bytes bytes')

theorem remainder_ne_zero_of_odd (hlength : bytes.length = size compressor)
    (hlength' : bytes'.length = size compressor) (hzero : remainder compressor bytes = 0)
    (h : (differing bytes bytes').card % 2 = 1) : remainder compressor bytes' ≠ 0 := by
  have hodd := Bytes.eq_xor_odd_of_flip
    (f := fun bytes => Crc24.odd 24 (remainder compressor bytes).toNat)
    (fun _ _ => odd_remainder_flip) hlength hlength'
  intro hzero'
  simp only [hzero, hzero', h] at hodd
  exact absurd hodd (by decide)

theorem remainder_ne_zero_of_two (hlength : bytes.length = size compressor)
    (hlength' : bytes'.length = size compressor) (hzero : remainder compressor bytes = 0)
    (h : (differing bytes bytes').card = 2) : remainder compressor bytes' ≠ 0 := by
  obtain ⟨i, j, hne, hboth⟩ := Finset.card_eq_two.1 h
  have hmem : ∀ k, k = i ∨ k = j → k < 8 * size compressor := by
    intro k hk
    rw [← hlength]
    have hk : k ∈ differing bytes bytes' := by
      rw [hboth]
      simpa using hk
    exact (Bytes.mem_differing_iff.1 hk).1
  have hi := hmem i (Or.inl rfl)
  have hj := hmem j (Or.inr rfl)
  rw [Bytes.eq_flip_flip_of_differing_eq (hlength'.trans hlength.symm) hne hboth]
  rw [remainder_flip (by rw [Bytes.length_flip]; exact hlength) hj]
  rw [remainder_flip hlength hi]
  rw [hzero, UInt32.zero_xor]
  -- Two bits that are left add up to nothing only where they are the same.
  intro heq
  rw [UInt32.xor_eq_zero_iff] at heq
  rw [Function.iterate_add_apply, Function.iterate_add_apply] at heq
  apply hne
  apply eq_of_bitsBehind_eq hi hj
  apply Crc24.eq_of_shifts_one_eq (bitsBehind_lt hi) (bitsBehind_lt hj)
  exact Division.eq_of_shifts_eq (Crc24.fits_one.shifts _) (Crc24.fits_one.shifts _) heq

theorem exists_dividend_window {front : Bytes} {count : Nat} (back : Bytes)
    (hle : front.length + count ≤ dataSize compressor) :
    ∃ back', ∀ window : Bytes, window.length = count →
      dividend compressor (front ++ window ++ back) = front ++ window ++ back' := by
  obtain ⟨n, hn⟩ := Nat.exists_eq_add_of_le hle
  refine ⟨back.take n ++ (back.drop n).reverse, ?_⟩
  rintro window rfl
  unfold dividend
  rw [hn, ← List.length_append]
  rw [List.take_length_add_append, List.drop_length_add_append]
  apply List.append_assoc

theorem remainder_ne_zero_of_data {start : Nat} (hlength : bytes.length = size compressor)
    (hzero : remainder compressor bytes = 0) (hle : start + 3 ≤ dataSize compressor)
    (h : SameOutside start 3 bytes bytes') (hne : bytes' ≠ bytes) :
    remainder compressor bytes' ≠ 0 := by
  obtain ⟨front, window, window', back, rfl, rfl, rfl, hwindow, hwindow'⟩ :=
    h.exists_window (by rw [hlength]; exact Nat.le_trans hle (Nat.le_add_right _ _))
  obtain ⟨back', hdividend⟩ := exists_dividend_window back hle
  intro hzero'
  apply hne
  rw [← hzero'] at hzero
  unfold remainder at hzero
  rw [hdividend _ hwindow, hdividend _ hwindow'] at hzero
  rw [Division.eq_of_run_append_eq Crc24.fits_init (Nat.le_of_eq hwindow)
    (hwindow'.trans hwindow.symm) hzero.symm]

theorem remainder_ne_zero_of_checksum (hlength : bytes.length = size compressor)
    (hzero : remainder compressor bytes = 0)
    (h : SameOutside (dataSize compressor) checksumSize bytes bytes') (hne : bytes' ≠ bytes) :
    remainder compressor bytes' ≠ 0 := by
  obtain ⟨front, window, window', back, rfl, rfl, hfront, hwindow, hwindow'⟩ :=
    h.exists_window (Nat.le_of_eq hlength.symm)
  have hback : back = [] := by
    rw [List.length_append, List.length_append, hfront, hwindow] at hlength
    exact List.length_eq_zero_iff.1 (Nat.add_eq_left.1 hlength)
  subst hback
  have hdividend : ∀ window : Bytes,
      dividend compressor (front ++ window ++ []) = front ++ window.reverse ++ [] := by
    intro window
    unfold dividend
    rw [← hfront]
    rw [List.append_nil, List.append_nil]
    rw [List.take_left, List.drop_left]
  intro hzero'
  apply hne
  rw [← hzero'] at hzero
  unfold remainder at hzero
  rw [hdividend, hdividend] at hzero
  have hreverse := Division.eq_of_run_append_eq Crc24.fits_init
    (by rw [List.length_reverse]; exact Nat.le_of_eq hwindow)
    (by rw [List.length_reverse, List.length_reverse, hwindow, hwindow']) hzero.symm
  rw [List.reverse_injective hreverse]

theorem remainder_ne_zero (hlength : bytes.length = size compressor)
    (hlength' : bytes'.length = size compressor) (hzero : remainder compressor bytes = 0)
    (h : SmallDamage compressor bytes bytes') (hne : bytes' ≠ bytes) :
    remainder compressor bytes' ≠ 0 := by
  cases h with
  | odd h => exact remainder_ne_zero_of_odd hlength hlength' hzero h
  | two h => exact remainder_ne_zero_of_two hlength hlength' hzero h
  | data start hle h => exact remainder_ne_zero_of_data hlength hzero hle h hne
  | checksum h => exact remainder_ne_zero_of_checksum hlength hzero h hne

theorem remainder_eq_zero_of_read {header : SegmentHeader}
    (hlength : bytes.length = size compressor) (h : (read compressor bytes).1 = .ok header) :
    remainder compressor bytes = 0 := by
  rw [read_of_length_eq hlength] at h
  split at h
  · next hzero => exact hzero
  · cases h

theorem smallDamage_flip (compressor : Compressor) {i : Nat} (hi : i < 8 * bytes.length) :
    SmallDamage compressor bytes (flip bytes i) := by
  apply SmallDamage.odd
  rw [Bytes.differing_self_flip hi]
  rfl

theorem read_of_smallDamage {header : SegmentHeader} (hlength : bytes.length = size compressor)
    (h : (read compressor bytes).1 = .ok header) (hlength' : bytes'.length = size compressor)
    (hne : bytes' ≠ bytes) (hsmall : SmallDamage compressor bytes bytes') :
    read compressor bytes'
      =
    (.error (.checksum .header (carriedChecksum compressor bytes')
      (dataChecksum compressor bytes')), []) := by
  have hzero := remainder_eq_zero_of_read hlength h
  rw [read_of_length_eq hlength']
  rw [if_neg (remainder_ne_zero hlength hlength' hzero hsmall hne)]

/-- A header that was accepted is refused with small damage, such as any one of its bits flipped. -/
theorem read_damaged {compressor : Compressor} {bytes : Bytes} {header : SegmentHeader}
    (hlength : bytes.length = size compressor) (h : (read compressor bytes).1 = .ok header) :
    (∀ bytes', bytes'.length = size compressor → bytes' ≠ bytes →
      SmallDamage compressor bytes bytes' →
      read compressor bytes'
        =
      (.error (.checksum .header (carriedChecksum compressor bytes')
        (dataChecksum compressor bytes')), []))
      ∧ ∀ i < 8 * size compressor,
        read compressor (flip bytes i)
          =
        (.error (.checksum .header (carriedChecksum compressor (flip bytes i))
          (dataChecksum compressor (flip bytes i))), []) := by
  constructor
  · intro bytes' hlength' hne hsmall
    exact read_of_smallDamage hlength h hlength' hne hsmall
  · intro i hi
    rw [← hlength] at hi
    apply read_of_smallDamage hlength h
    · rw [Bytes.length_flip]
      exact hlength
    · exact Bytes.flip_ne hi
    · exact smallDamage_flip compressor hi

theorem read_damaged_overwritten :
    let bytes := encode .none ⟨5, none, true⟩
    let overwritten := [0xFF, 0xFF, 0xFF] ++ bytes.drop 3
    read .none overwritten
        =
      (.error (.checksum .header (dataChecksum .none bytes) (dataChecksum .none overwritten)), [])
      ∧ ∀ i < 48, read .none (flip bytes i)
          =
        (.error (.checksum .header (carriedChecksum .none (flip bytes i))
          (dataChecksum .none (flip bytes i))), []) := by
  intro bytes overwritten
  have hlength : bytes.length = size .none := by decide
  have hread : (read .none bytes).1 = .ok ⟨5, none, true⟩ := by decide +kernel
  have hsmall : SmallDamage .none bytes overwritten :=
    .data 0 (by decide) ⟨by decide, by decide, by decide +kernel⟩
  have hcarried : carriedChecksum .none overwritten = dataChecksum .none bytes := by decide +kernel
  obtain ⟨hdamaged, hflip⟩ := read_damaged hlength hread
  refine ⟨?_, hflip⟩
  rw [hdamaged overwritten (by decide) (by decide +kernel) hsmall]
  rw [hcarried]

end SegmentHeader

namespace Segment

def carriedChecksum (header : SegmentHeader) (body : Bytes) : UInt32 :=
  UInt32.ofNat (Bytes.ofLittleEndian (body.drop header.payloadLength))

def payloadChecksum (header : SegmentHeader) (body : Bytes) : UInt32 :=
  crc32 (body.take header.payloadLength)

/-- A body as long as its header says, with the checksum of its payload behind it. -/
structure Sealed (header : SegmentHeader) (body : Bytes) : Prop where
  length_eq : body.length = header.payloadLength + trailerSize
  checksum_eq : carriedChecksum header body = payloadChecksum header body

variable {header : SegmentHeader} {body body' : Bytes}

theorem sealed_iff (h : body.length = header.payloadLength + trailerSize) :
    Sealed header body
      ↔
    Crc32.division.run 0xFFFFFFFF (Crc32.seed ++ body) = Crc32.residue := by
  have hdrop : (body.drop header.payloadLength).length = 4 := by
    rw [List.length_drop, h]
    exact Nat.add_sub_cancel_left _ _
  have hbody : Crc32.seed ++ body
      = Crc32.seed ++ body.take header.payloadLength ++ body.drop header.payloadLength := by
    rw [List.append_assoc, List.take_append_drop]
  rw [hbody]
  rw [← Crc32.eq_checksum_iff hdrop]
  constructor
  · intro hsealed
    exact hsealed.checksum_eq
  · intro hchecksum
    exact ⟨h, hchecksum⟩

theorem Sealed.not_of_sameOutside {start : Nat} (h : Sealed header body)
    (hsame : SameOutside start 4 body body') (hne : body' ≠ body) : ¬ Sealed header body' := by
  have hle : 4 ≤ body.length := by
    rw [h.length_eq]
    apply Nat.le_add_left
  -- The four bytes may reach beyond the end of the body.
  obtain ⟨start', hinside, hsame'⟩ := hsame.exists_inside hle
  obtain ⟨front, window, window', back, rfl, rfl, _, hwindow, hwindow'⟩ :=
    hsame'.exists_window hinside
  intro h'
  have hrun := (sealed_iff h.length_eq).1 h
  have hrun' := (sealed_iff h'.length_eq).1 h'
  rw [← hrun] at hrun'
  rw [← List.append_assoc, ← List.append_assoc, ← List.append_assoc, ← List.append_assoc] at hrun'
  apply hne
  rw [Division.eq_of_run_append_eq (Crc32.fits _) (Nat.le_of_eq hwindow)
    (hwindow'.trans hwindow.symm) hrun']

theorem decode_of_length_eq (compressor : Compressor)
    (h : body.length = header.payloadLength + trailerSize) :
    decode compressor header body
      =
    if carriedChecksum header body = payloadChecksum header body then
      (expand compressor header (body.take header.payloadLength)).map
        fun payload => ⟨payload, header.selfContained⟩
    else
      .error
        (.checksum .payload (carriedChecksum header body) (payloadChecksum header body)) := by
  unfold decode
  dsimp only
  rw [if_neg (by rw [h]; exact fun hne => hne rfl)]
  change (if carriedChecksum header body = payloadChecksum header body then _ else _) = _
  split
  · cases expand compressor header (body.take header.payloadLength) <;> rfl
  · rfl

theorem Sealed.decode_eq (compressor : Compressor) (h : Sealed header body) :
    decode compressor header body
      =
    (expand compressor header (body.take header.payloadLength)).map
      fun payload => ⟨payload, header.selfContained⟩ := by
  rw [decode_of_length_eq compressor h.length_eq]
  rw [if_pos h.checksum_eq]

theorem Sealed.decode_of_sameOutside {start : Nat} (compressor : Compressor)
    (h : Sealed header body) (hsame : SameOutside start 4 body body') (hne : body' ≠ body) :
    decode compressor header body'
      =
    .error (.checksum .payload (carriedChecksum header body') (payloadChecksum header body')) := by
  have hlength : body'.length = header.payloadLength + trailerSize := by
    rw [hsame.length_eq]
    exact h.length_eq
  rw [decode_of_length_eq compressor hlength]
  rw [if_neg fun hchecksum => h.not_of_sameOutside hsame hne ⟨hlength, hchecksum⟩]

/--
A body that is sealed is refused with damage to four bytes in a row, such as a bit flipped, and is
not refused without.
-/
theorem decode_damaged (compressor : Compressor) {header : SegmentHeader} {body : Bytes}
    (h : Sealed header body) :
    decode compressor header body
        = (expand compressor header (body.take header.payloadLength)).map
          (fun payload => ⟨payload, header.selfContained⟩)
      ∧ (∀ start body', SameOutside start 4 body body' → body' ≠ body →
          decode compressor header body'
            =
          .error
            (.checksum .payload (carriedChecksum header body') (payloadChecksum header body')))
      ∧ ∀ i < 8 * body.length,
          decode compressor header (flip body i)
            =
          .error (.checksum .payload (carriedChecksum header (flip body i))
            (payloadChecksum header (flip body i))) := by
  refine ⟨h.decode_eq compressor, ?_, ?_⟩
  · intro start body' hsame hne
    exact h.decode_of_sameOutside compressor hsame hne
  · intro i hi
    have hsame := Bytes.sameOutside_flip hi (show 0 < 4 by decide)
    exact h.decode_of_sameOutside compressor hsame (Bytes.flip_ne hi)

/-- The four bytes are on both sides of the border between a payload and its checksum. -/
theorem decode_damaged_border :
    let header : SegmentHeader := ⟨3, none, true⟩
    let body : Bytes := [1, 2, 3] ++ Bytes.littleEndian 4 (crc32 [1, 2, 3]).toNat
    let damaged := [1] ++ [0xFF, 0xFF, 0xFF, 0xFF] ++ body.drop 5
    decode .lz4 header body = .ok ⟨[1, 2, 3], true⟩
      ∧ decode .lz4 header damaged
          =
        .error (.checksum .payload (carriedChecksum header damaged)
          (payloadChecksum header damaged)) := by
  intro header body damaged
  have hsealed : Sealed header body := ⟨by decide, by decide +kernel⟩
  have hsame : SameOutside 1 4 body damaged := ⟨by decide, by decide, by decide +kernel⟩
  obtain ⟨hdecode, hdamaged, _⟩ := decode_damaged .lz4 hsealed
  exact ⟨hdecode, hdamaged 1 damaged hsame (by decide +kernel)⟩

end Segment

end CqlWire
