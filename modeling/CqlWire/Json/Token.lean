import CqlWire.Text.Utf16

/-!
This module contains the tokens of JSON texts. The text is gone through once, one character at a
time, and a mode tells what the characters so far were the beginning of.
-/

namespace CqlWire

namespace Json

inductive Piece
  | char (c : Char)
  | unit (unit : UInt16)
deriving Repr, DecidableEq

def Piece.text? : List Piece → Option String :=
  go []
where
  go (text : List Char) : List Piece → Option String
    | [] => some (String.ofList text.reverse)
    | .char c :: rest => go (c :: text) rest
    | [.unit u] => if isSurrogate u then none else go (Char.ofNat u.toNat :: text) []
    | .unit u :: .unit low :: rest =>
      if Utf16.isHighSurrogate u && Utf16.isLowSurrogate low then
        go (Utf16.ofPair u low :: text) rest
      else if isSurrogate u then none
      else go (Char.ofNat u.toNat :: text) (.unit low :: rest)
    | .unit u :: .char c :: rest =>
      if isSurrogate u then none else go (c :: Char.ofNat u.toNat :: text) rest
  isSurrogate (u : UInt16) : Bool :=
    Utf16.isHighSurrogate u || Utf16.isLowSurrogate u

inductive Token
  | openObject
  | closeObject
  | openArray
  | closeArray
  | colon
  | comma
  | null
  | bool (value : Bool)
  | natural (value : Nat)
  | number
  | string (text : Option String)
deriving Repr, DecidableEq

inductive NumberPart
  | minus
  | zero (negative : Bool)
  | integer (negative : Bool)
  | point
  | fraction
  | exponent
  | exponentSign
  | exponentDigits
deriving Repr, DecidableEq

def NumberPart.token? (value : Nat) : NumberPart → Option Token
  | .zero false | .integer false => some (.natural value)
  | .zero true | .integer true | .fraction | .exponentDigits => some .number
  | .minus | .point | .exponent | .exponentSign => none

def NumberPart.next? (c : Char) : NumberPart → Option NumberPart
  | .minus =>
    if c = '0' then some (.zero true) else if c.isDigit then some (.integer true) else none
  | .zero _ => ofMark c
  | .integer negative => if c.isDigit then some (.integer negative) else ofMark c
  | .point => if c.isDigit then some .fraction else none
  | .fraction => if c.isDigit then some .fraction else ofExponent c
  | .exponent =>
    if c.isDigit then some .exponentDigits
    else if c = '+' || c = '-' then some .exponentSign
    else none
  | .exponentSign | .exponentDigits => if c.isDigit then some .exponentDigits else none
where
  ofExponent (c : Char) : Option NumberPart :=
    if c = 'e' || c = 'E' then some .exponent else none
  ofMark (c : Char) : Option NumberPart :=
    if c = '.' then some .point else ofExponent c

inductive Mode
  | gap
  | word (token : Token) (rest : List Char)
  | number (part : NumberPart) (value : Nat)
  | string (pieces : List Piece)
  | escape (pieces : List Piece)
  | hex (pieces : List Piece) (left value : Nat)
deriving Repr, DecidableEq

def hexValue? (c : Char) : Option Nat :=
  if c.isDigit then some (c.toNat - '0'.toNat)
  else if 'a' ≤ c && c ≤ 'f' then some (c.toNat - 'a'.toNat + 10)
  else if 'A' ≤ c && c ≤ 'F' then some (c.toNat - 'A'.toNat + 10)
  else none

def unescape? : Char → Option Char
  | '"' => some '"'
  | '\\' => some '\\'
  | '/' => some '/'
  | 'b' => some '\x08'
  | 'f' => some '\x0c'
  | 'n' => some '\n'
  | 'r' => some '\r'
  | 't' => some '\t'
  | _ => none

def ofGap? (c : Char) : Option (Mode × Option Token) :=
  match c with
  | ' ' | '\n' | '\r' | '\t' => some (.gap, none)
  | '\x7b' => some (.gap, some .openObject)
  | '\x7d' => some (.gap, some .closeObject)
  | '[' => some (.gap, some .openArray)
  | ']' => some (.gap, some .closeArray)
  | ':' => some (.gap, some .colon)
  | ',' => some (.gap, some .comma)
  | '"' => some (.string [], none)
  | '-' => some (.number .minus 0, none)
  | '0' => some (.number (.zero false) 0, none)
  | 'n' => some (.word .null ['u', 'l', 'l'], none)
  | 't' => some (.word (.bool true) ['r', 'u', 'e'], none)
  | 'f' => some (.word (.bool false) ['a', 'l', 's', 'e'], none)
  | c => if c.isDigit then some (.number (.integer false) (c.toNat - '0'.toNat), none) else none

/-- The mode behind a character, and the tokens that it ends or is. -/
def Mode.next? (c : Char) : Mode → Option (Mode × List Token)
  | .gap => (ofGap? c).map fun (mode, token?) => (mode, token?.toList)
  | .word token rest =>
    match rest with
    | [] => none
    | [last] => if c = last then some (.gap, [token]) else none
    | first :: rest => if c = first then some (.word token rest, []) else none
  | .number part value =>
    match part.next? c with
    | some part =>
      let value := if c.isDigit then value * 10 + (c.toNat - '0'.toNat) else value
      some (.number part value, [])
    | none => do
      let token ← part.token? value
      let (mode, token?) ← ofGap? c
      some (mode, token :: token?.toList)
  | .string pieces =>
    if c = '"' then some (.gap, [.string (Piece.text? pieces.reverse)])
    else if c = '\\' then some (.escape pieces, [])
    else if c < ' ' then none
    else some (.string (.char c :: pieces), [])
  | .escape pieces =>
    if c = 'u' then some (.hex pieces 4 0, [])
    else (unescape? c).map fun c => (.string (.char c :: pieces), [])
  | .hex pieces left value => do
    let digit ← hexValue? c
    let value := value * 16 + digit
    if left ≤ 1 then some (.string (.unit (UInt16.ofNat value) :: pieces), [])
    else some (.hex pieces (left - 1) value, [])

def Mode.finish? : Mode → Option (List Token)
  | .gap => some []
  | .number part value => (part.token? value).map ([·])
  | .word .. | .string _ | .escape _ | .hex .. => none

def tokens?.go : Mode → List Token → List Char → Option (List Token)
  | mode, done, [] => mode.finish?.map fun tokens => (tokens.reverse ++ done).reverse
  | mode, done, c :: rest =>
    match mode.next? c with
    | some (mode, tokens) => go mode (tokens.reverse ++ done) rest
    | none => none

def tokens? (text : String) : Option (List Token) :=
  tokens?.go .gap [] text.toList

end Json

end CqlWire
