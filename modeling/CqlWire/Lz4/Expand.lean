import CqlWire.Failure
import CqlWire.Lz4.Block

/-!
This module contains the expansion of LZ4 blocks into no more than a given number of bytes.
-/

namespace CqlWire

namespace Lz4

def lengthOf.go : Nat → Bytes → Option (Nat × Bytes)
  | _, [] => none
  | length, b :: rest => if b = 255 then go (length + 255) rest else some (length + b.toNat, rest)

def lengthOf (bits : Nat) (src : Bytes) : Option (Nat × Bytes) :=
  if bits = 15 then lengthOf.go 15 src else some (bits, src)

theorem lengthOf.length_le_of_go {length n : Nat} {src rest : Bytes}
    (h : lengthOf.go length src = some (n, rest)) : rest.length ≤ src.length := by
  induction src generalizing length with
  | nil => simp [go] at h
  | cons b src ih =>
    simp only [go] at h
    split at h
    · have := ih h
      simp
      omega
    · simp only [Option.some.injEq, Prod.mk.injEq] at h
      simp [h.2]

theorem length_le_of_lengthOf {bits n : Nat} {src rest : Bytes}
    (h : lengthOf bits src = some (n, rest)) : rest.length ≤ src.length := by
  unfold lengthOf at h
  split at h
  · exact lengthOf.length_le_of_go h
  · simp only [Option.some.injEq, Prod.mk.injEq] at h
    simp [h.2]

def copyBack (offset : Nat) : Nat → Array UInt8 → Array UInt8
  | 0, out => out
  | n + 1, out => copyBack offset n (out.push (out.getD (out.size - offset) 0))

def expand.go (capacity : Nat) (src : Bytes) (out : Array UInt8) :
    Except BlockFault (Array UInt8) :=
  match src with
  | [] => .error .missingByte
  | token :: rest =>
    match hliterals : lengthOf (token.toNat / 16) rest with
    | none => .error .missingByte
    | some (literals, rest') =>
      match hsplit : rest'.split? literals with
      | none => .error .literalsOutOfBounds
      | some (front, rest'') =>
        if capacity < out.size + literals then
          .error (.outputTooSmall capacity (out.size + literals))
        else
          let out := out ++ front
          match rest'' with
          | [] => .ok out
          | [_] => .error .missingByte
          | low :: high :: rest₃ =>
            let offset := Bytes.ofLittleEndian [low, high]
            if offset = 0 then .error .zeroOffset
            else
              match hcopied : lengthOf (token.toNat % 16) rest₃ with
              | none => .error .missingByte
              | some (copied, rest₄) =>
                let length := minCopy + copied
                if capacity < out.size + length then
                  .error (.outputTooSmall capacity (out.size + length))
                else if out.size < offset then .error .offsetOutOfBounds
                else
                  have : rest₄.length < rest.length + 1 := by
                    have h₁ := length_le_of_lengthOf hliterals
                    have h₂ := (Bytes.length_of_split? hsplit).2
                    have h₃ := length_le_of_lengthOf hcopied
                    simp only [List.length_cons] at h₂
                    omega
                  go capacity rest₄ (copyBack offset length out)
termination_by src.length
decreasing_by
  rw [List.length_cons]
  exact this

def expand (capacity : Nat) (block : Bytes) : Except BlockFault Bytes :=
  Array.toList <$> expand.go capacity block #[]

end Lz4

end CqlWire
