import CqlWire.Text.Utf8

/-!
This module contains why texts are in the order of their UTF-8 bytes.
-/

namespace CqlWire

namespace Utf8

theorem encode_eq_flatMap (text : String) :
    encode text = text.toList.flatMap String.utf8EncodeChar := by
  unfold encode
  change text.toByteArray.data.toList = _
  rw [← String.utf8Encode_toList]
  simp [List.utf8Encode]

theorem utf8EncodeChar_append_lt {c d : Char} (h : c < d) (rest rest' : Bytes) :
    String.utf8EncodeChar c ++ rest < String.utf8EncodeChar d ++ rest' := by
  have hlt : c.val.toNat < d.val.toNat := h
  have hvalid : d.val.toNat < 0xD800 ∨ 0xDFFF < d.val.toNat ∧ d.val.toNat < 0x110000 := d.valid
  unfold String.utf8EncodeChar
  generalize c.val.toNat = m at *
  generalize d.val.toNat = n at *
  dsimp only
  -- A longer form starts with a greater byte. In forms of one length, the first of the groups of
  -- bits that differ decides.
  (repeat' split) <;>
    simp (disch := omega) only [List.cons_append, List.nil_append, List.cons_lt_cons_iff,
      UInt8.lt_iff_toNat_lt, ← UInt8.toNat_inj, UInt8.toNat_ofNat', Nat.mod_eq_of_lt,
      Nat.add_lt_add_iff_right, Nat.add_right_cancel_iff] <;>
    omega

theorem flatMap_utf8EncodeChar_lt {chars chars' : List Char}
    (h : List.Lex (· < ·) chars chars') :
    chars.flatMap String.utf8EncodeChar < chars'.flatMap String.utf8EncodeChar := by
  induction h with
  | @nil d rest =>
    obtain ⟨b, more, hd⟩ :=
      List.exists_cons_of_ne_nil (String.utf8EncodeChar_ne_nil : String.utf8EncodeChar d ≠ [])
    rw [List.flatMap_cons, hd]
    exact List.nil_lt_cons _ _
  | rel h =>
    rw [List.flatMap_cons, List.flatMap_cons]
    exact utf8EncodeChar_append_lt h _ _
  | cons _ ih =>
    rw [List.flatMap_cons, List.flatMap_cons]
    exact List.append_left_lt ih

theorem encode_lt_encode {first second : String} (h : first < second) :
    encode first < encode second := by
  rw [encode_eq_flatMap, encode_eq_flatMap]
  exact flatMap_utf8EncodeChar_lt h

theorem encode_lt_encode_iff {first second : String} :
    encode first < encode second ↔ first < second := by
  refine ⟨fun h => ?_, encode_lt_encode⟩
  by_cases heq : second = first
  · rw [heq] at h
    exact absurd h (List.lt_irrefl _)
  · by_cases hlt : first < second
    · exact hlt
    · have hgt : second < first := Std.lt_of_le_of_ne (String.not_lt.1 hlt) heq
      exact absurd (encode_lt_encode hgt) (List.lt_asymm h)

end Utf8

end CqlWire
