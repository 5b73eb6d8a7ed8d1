import CqlWire.Message.Body
import CqlWire.Proofs.Format
import CqlWire.Proofs.Reader

/-!
This module contains that all readers of values and messages are local. So a value that is cut short
anywhere is known to be cut short: it is neither read as another value nor taken for a wrong one.
-/

namespace CqlWire

namespace Format

variable {α β : Type}

theorem fixed_local (width : Nat) (toNat : α → Nat) (ofNat : Nat → α) :
    (fixed width toNat ofNat).read.Local :=
  (Reader.Local.take width).map _

theorem pair_local {first : Format α} {second : Format β} (hfirst : first.read.Local)
    (hsecond : second.read.Local) : (first.pair second).read.Local := by
  apply hfirst.bind
  intro a
  exact hsecond.map _

theorem imap_local {format : Format α} (h : format.read.Local) (there : α → β) (back : β → α) :
    (format.imap there back).read.Local :=
  h.map there

theorem string_local : string.read.Local := by
  apply (fixed_local _ _ _).bind
  intro length
  exact .text _

theorem longString_local : longString.read.Local := by
  apply (fixed_local _ _ _).bind
  intro length
  split
  · exact .fail _
  · exact .text _

theorem bytes_local : bytes.read.Local := by
  apply (fixed_local _ _ _).bind
  intro length
  split
  · exact .pure none
  · exact (Reader.Local.take _).map some

theorem counted_local {item : Format α} (h : item.read.Local) (kind : ValueKind) :
    (counted kind item).read.Local := by
  apply (fixed_local _ _ _).bind
  intro count
  exact h.replicate _

theorem stringList_local : stringList.read.Local :=
  counted_local string_local _

theorem map_local {value : Format α} (h : value.read.Local) (kind : ValueKind) :
    (Format.map kind value).read.Local :=
  imap_local (counted_local (pair_local string_local h) kind) _ _

end Format

theorem Query.flagsFormat_local (wide : Bool) : (flagsFormat wide).read.Local := by
  cases wide with
  | true => exact Format.fixed_local _ _ _
  | false => exact Format.imap_local (Format.fixed_local _ _ _) _ _

theorem Query.format_local (wide : Bool) : (format wide).read.Local := by
  apply Format.longString_local.bind
  intro text
  apply (Format.fixed_local _ _ _).bind
  intro consistency
  apply (flagsFormat_local wide).bind
  intro flags
  split
  · exact .pure _
  · apply (Format.fixed_local _ _ _).bind
    intro pageSize
    exact .pure _

theorem BodyCodec.read_local (codec : BodyCodec) : codec.read.Local := by
  cases codec with
  | error => exact (Format.pair_local (Format.fixed_local _ _ _) Format.string_local).map _
  | startup => exact (Format.map_local Format.string_local _).map _
  | ready => exact .pure _
  | authenticate => exact Format.string_local.map _
  | options => exact .pure _
  | supported => exact (Format.map_local Format.stringList_local _).map _
  | query wideFlags => exact (Query.format_local wideFlags).map _
  | authResponse => exact Format.bytes_local.map _
  | authSuccess => exact Format.bytes_local.map _

namespace Reader

/-- The readers of values and of messages. -/
inductive OfWire : {α : Type} → Reader α → Prop
  | u8 : OfWire Format.u8.read
  | u16 : OfWire Format.u16.read
  | u32 : OfWire Format.u32.read
  | i32 : OfWire Format.i32.read
  | i64 : OfWire Format.i64.read
  | uuid : OfWire Format.uuid.read
  | take (n : Nat) : OfWire (Reader.take n)
  | string : OfWire Format.string.read
  | longString : OfWire Format.longString.read
  | bytes : OfWire Format.bytes.read
  | stringList : OfWire Format.stringList.read
  | stringMap : OfWire Format.stringMap.read
  | stringMultimap : OfWire Format.stringMultimap.read
  | bytesMap : OfWire Format.bytesMap.read
  | message (codec : BodyCodec) : OfWire codec.read

theorem OfWire.isLocal {α : Type} {read : Reader α} (h : OfWire read) : read.Local := by
  cases h with
  | u8 | u16 | u32 | i32 | i64 | uuid => exact Format.fixed_local _ _ _
  | take n => exact .take n
  | string => exact Format.string_local
  | longString => exact Format.longString_local
  | bytes => exact Format.bytes_local
  | stringList => exact Format.stringList_local
  | stringMap => exact Format.map_local Format.string_local _
  | stringMultimap => exact Format.map_local Format.stringList_local _
  | bytesMap => exact Format.map_local (Format.imap_local Format.bytes_local _ _) _
  | message codec => exact codec.read_local

/--
What is left is the end of the bytes, whatever comes out. A value stays the same when more bytes
come, which are then left, too, and so does an error other than that there are too few bytes. That
is what is said whenever one of the bytes is missing that a value is read off.
-/
theorem OfWire.reads_front {α : Type} {read : Reader α} (h : OfWire read) (src : Bytes) :
    (read src).2 <:+ src
      ∧ (∀ a rest, read src = (.ok a, rest) →
          (∀ more, read (src ++ more) = (.ok a, rest ++ more))
            ∧ ∀ taken, src = taken ++ rest → ∀ cut, cut <+: taken → cut ≠ taken →
              ∃ needed available, (read cut).1 = .error (.truncated needed available)
                ∧ available < needed)
      ∧ ∀ error, (read src).1 = .error error →
          (∀ needed available, error ≠ .truncated needed available) →
          ∀ more, (read (src ++ more)).1 = .error error := by
  have hlocal := h.isLocal
  refine ⟨hlocal.suffix src, ?_, ?_⟩
  · intro a rest hread
    constructor
    · intro more
      exact hlocal.append_of_ok hread more
    · rintro taken rfl cut hcut hne
      exact hlocal.starved_of_prefix hread hcut hne
  · intro error hread herror more
    exact hlocal.append_of_error hread herror more

theorem OfWire.reads_front_cutEntry :
    let map : StringMap String := ⟨[("a", "b")], by decide⟩
    let src : Bytes := [0, 1, 0, 1, 97, 0, 1, 98, 9]
    Format.stringMap.read (src ++ [5]) = (.ok map, [9, 5])
      ∧ (∃ needed available,
          (Format.stringMap.read [0, 1, 0, 1, 97, 0, 1]).1 = .error (.truncated needed available)
            ∧ available < needed)
      ∧ (Format.longString.read ([0xFF, 0xFF, 0xFF, 0xFE] ++ [5])).1
        = .error (.protocol (.negativeLength .longString (-2))) := by
  intro map src
  have hwrite : Format.stringMap.write map = Written.ofBytes [0, 1, 0, 1, 97, 0, 1, 98] := by decide
  have hread : Format.stringMap.read src = (.ok map, [9]) :=
    (Format.stringMap_roundTrips map).reads hwrite [9]
  obtain ⟨_, hok, _⟩ := reads_front .stringMap src
  obtain ⟨hmore, hcut⟩ := hok map [9] hread
  obtain ⟨_, _, herror⟩ := reads_front .longString [0xFF, 0xFF, 0xFF, 0xFE]
  refine ⟨hmore [5], ?_, ?_⟩
  · exact hcut [0, 1, 0, 1, 97, 0, 1, 98] rfl _ ⟨[98], rfl⟩ (by decide)
  · exact herror _ rfl (by intro needed available h; cases h) [5]

end Reader

end CqlWire
