import CqlWire.Reader
import CqlWire.StringMap
import CqlWire.Text.Utf16
import CqlWire.Written

/-!
This module contains the wire formats of the values that frames and messages are made of. Numbers
are big endian, and lengths and counts stand in front of what they measure.
-/

namespace CqlWire

structure Format (α : Type) where
  read : Reader α
  write : α → Written
  size : α → Nat

structure Uuid where
  value : BitVec 128
deriving Repr, DecidableEq

namespace Format

variable {α β : Type}

def fixed (width : Nat) (toNat : α → Nat) (ofNat : Nat → α) : Format α where
  read := (fun bytes => ofNat bytes.ofBigEndian) <$> Reader.take width
  write a := Written.ofBytes (Bytes.bigEndian width (toNat a))
  size _ := width

def pair (first : Format α) (second : Format β) : Format (α × β) where
  read := do
    let a ← first.read
    let b ← second.read
    pure (a, b)
  write | (a, b) => first.write a ++ second.write b
  size | (a, b) => first.size a + second.size b

def imap (format : Format α) (there : α → β) (back : β → α) : Format β where
  read := there <$> format.read
  write b := format.write (back b)
  size b := format.size (back b)

def uuidWidth : Nat := 16

def shortWidth : Nat := 2

def intWidth : Nat := 4

def u8 : Format UInt8 := fixed 1 UInt8.toNat UInt8.ofNat

def u16 : Format UInt16 := fixed shortWidth UInt16.toNat UInt16.ofNat

def u32 : Format UInt32 := fixed 4 UInt32.toNat UInt32.ofNat

def i32 : Format Int32 := fixed intWidth (·.toUInt32.toNat) Int32.ofNat

def i64 : Format Int64 := fixed 8 (·.toUInt64.toNat) Int64.ofNat

def uuid : Format Uuid := fixed uuidWidth (·.value.toNat) (fun n => ⟨BitVec.ofNat 128 n⟩)

def maxShort : Nat := 65535

def maxInt : Nat := 2147483647

def writeShortLength (kind : ValueKind) (length : Nat) : Written :=
  if length ≤ maxShort then
    Written.ofBytes (Bytes.bigEndian shortWidth length)
  else
    Written.refuse (.protocol (.overShort kind length))

def writeIntLength (kind : ValueKind) (length : Nat) : Written :=
  if length ≤ maxInt then
    Written.ofBytes (Bytes.bigEndian intWidth length)
  else
    Written.refuse (.protocol (.overInt kind length))

def string : Format String where
  read := do
    let length ← u16.read
    Reader.text length.toNat
  write text := writeShortLength .string text.utf8ByteSize ++ Written.ofBytes (Utf8.encode text)
  size text := shortWidth + text.utf8ByteSize

def longString : Format String where
  read := do
    let length ← i32.read
    if length < 0 then
      Reader.fail (.protocol (.negativeLength .longString length))
    else
      Reader.text length.toNatClampNeg
  write text := writeIntLength .longString text.utf8ByteSize ++ Written.ofBytes (Utf8.encode text)
  size text := intWidth + text.utf8ByteSize

/-- Bytes behind their length, or nothing, for which a negative length stands. -/
def bytes : Format (Option Bytes) where
  read := do
    let length ← i32.read
    if length < 0 then
      pure none
    else
      some <$> Reader.take length.toNatClampNeg
  write
    | none => i32.write (-1)
    | some raw => writeIntLength .bytes raw.length ++ Written.ofBytes raw
  size
    | none => intWidth
    | some raw => intWidth + raw.length

def presentBytes : Format Bytes :=
  -- Nothing reads as no bytes.
  bytes.imap (·.getD []) some

def totalSize (item : Format α) : List α → Nat
  | [] => 0
  | a :: rest => item.size a + totalSize item rest

def counted (kind : ValueKind) (item : Format α) : Format (List α) where
  read := do
    let count ← u16.read
    Reader.replicate count.toNat item.read
  write items := writeShortLength kind items.length ++ Written.each item.write items
  size items := shortWidth + item.totalSize items

def stringList : Format (List String) := counted .stringList string

def entries (kind : ValueKind) (value : Format α) : Format (List (String × α)) :=
  counted kind (string.pair value)

def map (kind : ValueKind) (value : Format α) : Format (StringMap α) :=
  (entries kind value).imap StringMap.ofList StringMap.entries

def stringMap : Format (StringMap String) := map .stringMap string

def stringMultimap : Format (StringMap (List String)) := map .stringMultimap stringList

def bytesMap : Format (StringMap Bytes) := map .bytesMap presentBytes

/-- Writes UTF-16 units as a text, with a question mark for each lone surrogate. -/
def writeUtf16 (units : List UInt16) : Written :=
  writeShortLength .string (Utf16.utf8Length units)
    ++ Written.ofBytes (Utf8.encode (Utf16.decode units))

def sizeUtf16 (units : List UInt16) : Nat :=
  shortWidth + Utf16.utf8Length units

end Format

end CqlWire
