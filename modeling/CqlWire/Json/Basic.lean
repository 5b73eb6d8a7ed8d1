import CqlWire.Json.Token

/-!
This module contains JSON values, as far as settings need them, and how tokens make them up. What is
open around a value is kept in a list, so values may be nested to any depth.
-/

namespace CqlWire

inductive Json
  | null
  | bool (value : Bool)
  | natural (value : Nat)
  | number
  | string (text : Option String)
  | array (items : List Json)
  | object (members : List (Option String × Json))

namespace Json

/-- An array or object that is open around a value, with what came before in reverse. -/
inductive Open
  | array (items : List Json)
  | object (members : List (Option String × Json)) (key : Option String)

inductive Place
  | value
  | firstItem
  | firstKey
  | key (members : List (Option String × Json))
  | colon (members : List (Option String × Json)) (key : Option String)
  | behind (value : Json)

def Place.ofToken? : Token → Option Place
  | .openObject => some .firstKey
  | .openArray => some .firstItem
  | .null => some (.behind .null)
  | .bool b => some (.behind (.bool b))
  | .natural n => some (.behind (.natural n))
  | .number => some (.behind .number)
  | .string text => some (.behind (.string text))
  | .closeObject | .closeArray | .colon | .comma => none

def Place.next? : Place → List Open → Token → Option (Place × List Open)
  | .value, opened, token => (ofToken? token).map (·, opened)
  | .firstItem, opened, .closeArray => some (.behind (.array []), opened)
  | .firstItem, opened, token => (ofToken? token).map (·, .array [] :: opened)
  | .firstKey, opened, .closeObject => some (.behind (.object []), opened)
  | .firstKey, opened, .string name => some (.colon [] name, opened)
  | .key members, opened, .string name => some (.colon members name, opened)
  | .colon members name, opened, .colon => some (.value, .object members name :: opened)
  | .behind json, .array items :: opened, .comma =>
    some (.value, .array (json :: items) :: opened)
  | .behind json, .array items :: opened, .closeArray =>
    some (.behind (.array (json :: items).reverse), opened)
  | .behind json, .object members name :: opened, .comma =>
    some (.key ((name, json) :: members), opened)
  | .behind json, .object members name :: opened, .closeObject =>
    some (.behind (.object ((name, json) :: members).reverse), opened)
  | _, _, _ => none

def ofTokens?.go : Place → List Open → List Token → Option Json
  | .behind value, [], [] => some value
  | _, _, [] => none
  | place, opened, token :: rest =>
    match place.next? opened token with
    | some (place, opened) => go place opened rest
    | none => none

def ofTokens? (tokens : List Token) : Option Json :=
  ofTokens?.go .value [] tokens

def parse? (text : String) : Option Json := do
  ofTokens? (← tokens? text)

end Json

end CqlWire
