import CqlWire.Bytes

/-!
This module contains UTF-8 text as bytes: encoding, decoding, and what is wrong with bytes that are
no text.
-/

namespace CqlWire

namespace Utf8

inductive Fault
  | invalid (length index : Nat)
  | incomplete (index : Nat)
deriving Repr, DecidableEq

def Fault.message : Fault → String
  | .invalid length index => s!"invalid utf-8 sequence of {length} bytes from index {index}"
  | .incomplete index => s!"incomplete utf-8 byte sequence from index {index}"

structure Lead where
  owed : Nat
  low : UInt8 := 0x80
  high : UInt8 := 0xBF

/--
The second byte of a sequence is narrowed where a longer form, a surrogate or a number past the last
code point would begin.
-/
def Lead.ofByte? (b : UInt8) : Option Lead :=
  if b < 0x80 then some { owed := 0 }
  else if b < 0xC2 then none
  else if b < 0xE0 then some { owed := 1 }
  else if b = 0xE0 then some { owed := 2, low := 0xA0 }
  else if b = 0xED then some { owed := 2, high := 0x9F }
  else if b < 0xF0 then some { owed := 2 }
  else if b = 0xF0 then some { owed := 3, low := 0x90 }
  else if b < 0xF4 then some { owed := 3 }
  else if b = 0xF4 then some { owed := 3, high := 0x8F }
  else none

inductive Tail
  | complete (rest : Bytes)
  | broken (length : Nat)
  | cut

def Tail.ofBytes (lead : Lead) (length : Nat) : Bytes → Tail :=
  go lead.owed lead.low lead.high length
where
  go : Nat → UInt8 → UInt8 → Nat → Bytes → Tail
    | 0, _, _, _, rest => .complete rest
    | _ + 1, _, _, _, [] => .cut
    | owed + 1, low, high, length, b :: rest =>
      if low ≤ b ∧ b ≤ high then go owed 0x80 0xBF (length + 1) rest else .broken length

theorem Tail.length_le_of_go {owed : Nat} {low high : UInt8} {length : Nat} {bytes rest : Bytes}
    (h : Tail.ofBytes.go owed low high length bytes = .complete rest) :
    rest.length ≤ bytes.length := by
  induction owed generalizing low high length bytes with
  | zero =>
    simp only [ofBytes.go, complete.injEq] at h
    simp [h]
  | succ owed ih =>
    cases bytes with
    | nil => simp [ofBytes.go] at h
    | cons b bytes =>
      simp only [ofBytes.go] at h
      split at h
      · have := ih h
        simp
        omega
      · simp at h

/--
The fault of bytes that are no text. Bytes that are text throughout would be incomplete at their
end.
-/
def firstFault (bytes : Bytes) : Fault :=
  go 0 bytes
where
  go (index : Nat) : Bytes → Fault
    | [] => .incomplete index
    | b :: rest =>
      match Lead.ofByte? b with
      | none => .invalid 1 index
      | some lead =>
        match h : Tail.ofBytes lead 1 rest with
        | .complete rest' =>
          have := Tail.length_le_of_go h
          go (index + 1 + lead.owed) rest'
        | .broken length => .invalid length index
        | .cut => .incomplete index
  termination_by bytes => bytes.length

def decode (bytes : Bytes) : Except Fault String :=
  match String.fromUTF8? bytes.toByteArray with
  | some text => .ok text
  | none => .error (firstFault bytes)

def encode (text : String) : Bytes :=
  text.toUTF8.data.toList

@[simp]
theorem length_encode (text : String) : (encode text).length = text.utf8ByteSize := by
  simp [encode]

@[simp]
theorem toByteArray_encode (text : String) : (encode text).toByteArray = text.toByteArray := by
  apply ByteArray.ext
  simp [encode, List.data_toByteArray]

theorem decode_encode (text : String) : decode (encode text) = .ok text := by
  simp [decode, String.fromUTF8?, text.isValidUTF8, String.fromUTF8]

theorem eq_encode_of_decode {bytes : Bytes} {text : String} (h : decode bytes = .ok text) :
    bytes = encode text := by
  unfold decode String.fromUTF8? at h
  by_cases valid : bytes.toByteArray.IsValidUTF8
  · simp only [valid, ↓reduceDIte, Except.ok.injEq, String.fromUTF8] at h
    subst h
    simp [encode, List.data_toByteArray]
  · simp [valid] at h

end Utf8

end CqlWire
