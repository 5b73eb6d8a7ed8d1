/-!
This module contains numbers written in base sixteen with a least number of digits.
-/

namespace CqlWire

namespace Hex

def lower (width value : Nat) : String :=
  String.ofList ((Nat.toDigits 16 value).leftpad width '0')

def upper (width value : Nat) : String :=
  String.ofList (((Nat.toDigits 16 value).map Char.toUpper).leftpad width '0')

end Hex

end CqlWire
