import CqlWire.Text.Utf8

/-!
This module contains text that is held as UTF-16 code units, in which surrogates may lack their
partner: how long it is in UTF-8, and the text that it reads as.
-/

namespace CqlWire

namespace Utf16

def isHighSurrogate (unit : UInt16) : Bool :=
  0xD800 ≤ unit && unit ≤ 0xDBFF

def isLowSurrogate (unit : UInt16) : Bool :=
  0xDC00 ≤ unit && unit ≤ 0xDFFF

def unpairedLength (unit : UInt16) : Nat :=
  if unit ≤ 0x7F then 1
  else if unit ≤ 0x7FF then 2
  else if isHighSurrogate unit || isLowSurrogate unit then 1
  else 3

def utf8Length.go : Nat → List UInt16 → Nat
  | length, [] => length
  | length, [unit] => length + unpairedLength unit
  | length, unit :: next :: rest =>
    if isHighSurrogate unit && isLowSurrogate next then
      go (length + 4) rest
    else
      go (length + unpairedLength unit) (next :: rest)

def utf8Length (units : List UInt16) : Nat :=
  utf8Length.go 0 units

def ofPair (high low : UInt16) : Char :=
  Char.ofNat (0x10000 + (high.toNat - 0xD800) * 0x400 + (low.toNat - 0xDC00))

def decode.go : (waiting : Option UInt16) → List Char → List UInt16 → List Char
  | none, text, [] => text.reverse
  | some _, text, [] => ('?' :: text).reverse
  | none, text, unit :: rest =>
    if isHighSurrogate unit then go (some unit) text rest
    else if isLowSurrogate unit then go none ('?' :: text) rest
    else go none (Char.ofNat unit.toNat :: text) rest
  | some high, text, unit :: rest =>
    if isLowSurrogate unit then go none (ofPair high unit :: text) rest
    else if isHighSurrogate unit then go (some unit) ('?' :: text) rest
    else go none (Char.ofNat unit.toNat :: '?' :: text) rest

def decode (units : List UInt16) : String :=
  String.ofList (decode.go none [] units)

end Utf16

end CqlWire
