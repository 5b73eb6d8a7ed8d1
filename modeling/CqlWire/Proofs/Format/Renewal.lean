import CqlWire.Proofs.Format.Condenses
import CqlWire.Proofs.Utf8

/-!
This module contains what becomes of a map that is read and written again. The entries that the wire
holds may come in any order, and keys may repeat. What is written is in the order of the keys, and
of the entries of one key only the last is left.
-/

namespace CqlWire

namespace Format

variable {α : Type}

/-- A map is read off some bytes, on which it has these entries, and written again. -/
structure Renewal (kind : ValueKind) (value : Format α) (src rest : Bytes) (map : StringMap α)
    (pairs : List (String × α)) (taken written : Bytes) : Prop where
  read_eq : (entries kind value).read src = (.ok pairs, rest)
  src_eq : src = taken ++ rest
  write_eq : (Format.map kind value).write map = Written.ofBytes written
  length_le : written.length ≤ taken.length
  reads : (Format.map kind value).read.Reads written map
  eq_taken_iff : written = taken
    ↔ pairs.Pairwise (fun first second => Utf8.encode first.1 < Utf8.encode second.1)
  get?_eq_some_iff : ∀ key a, map.get? key = some a
    ↔ ∃ front back, pairs = front ++ (key, a) :: back ∧ ∀ pair ∈ back, pair.1 ≠ key

theorem write_map_eq_iff {kind : ValueKind} {value : Format α} (hround : ∀ a, value.RoundTrips a)
    {pairs : List (String × α)} {taken : Bytes}
    (h : (entries kind value).write pairs = Written.ofBytes taken) :
    (Format.map kind value).write (.ofList pairs) = Written.ofBytes taken
      ↔
    pairs.Pairwise (fun first second => Utf8.encode first.1 < Utf8.encode second.1) := by
  simp only [Utf8.encode_lt_encode_iff]
  constructor
  · intro hmap
    have hentries (pairs : List (String × α)) : (entries kind value).RoundTrips pairs :=
      entries_roundTrips fun pair _ => hround pair.2
    rw [(hentries pairs).eq_of_write h (hentries _) hmap]
    exact (StringMap.ofList pairs).sorted
  · intro hsorted
    have hmap : StringMap.ofList pairs = ⟨pairs, hsorted⟩ :=
      StringMap.ofList_entries ⟨pairs, hsorted⟩
    rw [hmap]
    exact h

theorem exists_renewal {kind : ValueKind} {value : Format α} (hcanonical : value.Canonical)
    (hround : ∀ a, value.RoundTrips a) {src rest : Bytes} {map : StringMap α}
    (h : (Format.map kind value).read src = (.ok map, rest)) :
    ∃ pairs taken written, Renewal kind value src rest map pairs taken written := by
  obtain ⟨pairs, hread, rfl⟩ := Reader.exists_of_map h
  obtain ⟨taken, htaken, rfl⟩ := entries_canonical hcanonical kind hread
  obtain ⟨hwhole, hle⟩ := map_condenses (hcanonical.condenses hround) kind h
  obtain ⟨written, hwritten⟩ := Written.whole_iff.1 hwhole
  have hmap : (Format.map kind value).RoundTrips (.ofList pairs) := map_roundTrips _ hround
  refine ⟨pairs, taken, written, hread, rfl, hwritten, ?_, hmap.reads hwritten, ?_, ?_⟩
  · rw [hmap.length_eq hwritten]
    rw [List.length_append] at hle
    omega
  · rw [← write_map_eq_iff hround htaken, hwritten]
    exact Written.ofBytes_inj.symm
  · intro key a
    exact StringMap.get?_ofList_eq_some_iff

/--
A map of texts or of lists of texts that was read is written in no more bytes than it was read off,
and read from them again. They are the same bytes exactly if the keys on the wire are in increasing
order of their UTF-8 bytes. Where a key repeats, the last value counts.
-/
theorem exists_renewal_of_read :
    (∀ {src rest : Bytes} {map : StringMap String}, stringMap.read src = (.ok map, rest) →
        ∃ pairs taken written, Renewal .stringMap string src rest map pairs taken written)
      ∧ ∀ {src rest : Bytes} {map : StringMap (List String)},
        stringMultimap.read src = (.ok map, rest) →
        ∃ pairs taken written,
          Renewal .stringMultimap stringList src rest map pairs taken written := by
  constructor
  · intro src rest map h
    exact exists_renewal string_canonical string_roundTrips h
  · intro src rest map h
    exact exists_renewal stringList_canonical stringList_roundTrips h

theorem exists_renewal_of_read_repeatedKey :
    let pairs := [("b", "1"), ("a", "2"), ("b", "3")]
    let taken : Bytes :=
      [0, 3] ++ [0, 1, 98, 0, 1, 49] ++ [0, 1, 97, 0, 1, 50] ++ [0, 1, 98, 0, 1, 51]
    stringMap.read (taken ++ [9]) = (.ok (.ofList pairs), [9])
      ∧ (StringMap.ofList pairs).get? "b" = some "3"
      ∧ ∃ written, stringMap.write (.ofList pairs) = Written.ofBytes written
        ∧ written.length ≤ taken.length
        ∧ written ≠ taken := by
  intro pairs taken
  have hread : stringMap.read (taken ++ [9]) = (.ok (.ofList pairs), [9]) := rfl
  have hpairs : (entries .stringMap string).read (taken ++ [9]) = (.ok pairs, [9]) := rfl
  obtain ⟨pairs', taken', written, h⟩ := exists_renewal_of_read.1 hread
  obtain rfl : taken = taken' := List.append_cancel_right h.src_eq
  have hsame := h.read_eq
  rw [hpairs] at hsame
  cases hsame
  refine ⟨hread, ?_, written, h.write_eq, h.length_le, ?_⟩
  · rw [h.get?_eq_some_iff]
    exact ⟨[("b", "1"), ("a", "2")], [], rfl, by simp⟩
  · rw [Ne, h.eq_taken_iff]
    decide

end Format

end CqlWire
