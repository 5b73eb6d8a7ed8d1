/-!
This module contains byte strings, cutting them, and the numbers that bytes spell in either order.
-/

namespace CqlWire

abbrev Bytes := List UInt8

namespace Bytes

def split?.go : Nat → Bytes → Bytes → Option (Bytes × Bytes)
  | 0, rest, front => some (front.reverse, rest)
  | _ + 1, [], _ => none
  | n + 1, b :: rest, front => go n rest (b :: front)

def split? (n : Nat) (bytes : Bytes) : Option (Bytes × Bytes) :=
  split?.go n bytes []

theorem split?.go_eq (n : Nat) (bytes front : Bytes) :
    split?.go n bytes front
      =
    if n ≤ bytes.length then some (front.reverse ++ bytes.take n, bytes.drop n) else none := by
  induction n generalizing bytes front with
  | zero => simp [go]
  | succ n ih =>
    cases bytes with
    | nil => simp [go]
    | cons b rest => simp [go, ih]

theorem split?_eq (n : Nat) (bytes : Bytes) :
    split? n bytes = if n ≤ bytes.length then some (bytes.take n, bytes.drop n) else none := by
  simp [split?, split?.go_eq]

theorem split?_append (front rest : Bytes) :
    split? front.length (front ++ rest) = some (front, rest) := by
  simp [split?_eq]

theorem length_of_split? {n : Nat} {bytes front rest : Bytes}
    (h : split? n bytes = some (front, rest)) :
    front.length = n ∧ bytes.length = n + rest.length := by
  rw [split?_eq] at h
  split at h
  · simp at h
    obtain ⟨rfl, rfl⟩ := h
    simp
    omega
  · simp at h

theorem append_of_split? {n : Nat} {bytes front rest : Bytes}
    (h : split? n bytes = some (front, rest)) : front ++ rest = bytes := by
  rw [split?_eq] at h
  split at h
  · simp only [Option.some.injEq, Prod.mk.injEq] at h
    rw [← h.1, ← h.2]
    apply List.take_append_drop
  · simp at h

theorem split?_append_of_some {n : Nat} {bytes front rest : Bytes}
    (h : bytes.split? n = some (front, rest)) (more : Bytes) :
    (bytes ++ more).split? n = some (front, rest ++ more) := by
  rw [split?_eq] at h
  split at h
  · next hle =>
    simp only [Option.some.injEq, Prod.mk.injEq] at h
    rw [split?_eq]
    rw [if_pos (by simp; omega)]
    rw [List.take_append_of_le_length hle]
    rw [List.drop_append_of_le_length hle]
    rw [h.1, h.2]
  · simp at h

theorem split?_eq_none_iff {n : Nat} {bytes : Bytes} :
    bytes.split? n = none ↔ bytes.length < n := by
  rw [split?_eq]
  split <;> simp <;> omega

def chunks.go (size : Nat) (h : 0 < size) (done : List Bytes) (bytes : Bytes) : List Bytes :=
  match hsplit : split? size bytes with
  | some (front, rest) =>
    have := (length_of_split? hsplit).2
    go size h (front :: done) rest
  | none => (if bytes.isEmpty then done else bytes :: done).reverse
termination_by bytes.length

def chunks (size : Nat) (h : 0 < size) (bytes : Bytes) : List Bytes :=
  chunks.go size h [] bytes

theorem chunks.go_eq {size : Nat} (h : 0 < size) (done : List Bytes) (bytes : Bytes) :
    chunks.go size h done bytes = done.reverse ++ chunks size h bytes := by
  unfold chunks
  rw [go]
  conv => rhs; rw [go]
  split
  · next front rest hsplit =>
    have := (length_of_split? hsplit).2
    rw [go_eq h (front :: done) rest]
    rw [go_eq h [front] rest]
    simp
  · split <;> simp
termination_by bytes.length

section Chunks

variable {size : Nat} {h : 0 < size}

theorem chunks_nil : chunks size h [] = [] := by
  have hsplit : split? size [] = none := split?_eq_none_iff.2 h
  unfold chunks
  rw [chunks.go]
  split
  · next hsome => simp [hsplit] at hsome
  · rfl

theorem chunks_of_lt {bytes : Bytes} (hne : bytes ≠ []) (hlt : bytes.length < size) :
    chunks size h bytes = [bytes] := by
  have hsplit : split? size bytes = none := split?_eq_none_iff.2 hlt
  unfold chunks
  rw [chunks.go]
  split
  · next hsome => simp [hsplit] at hsome
  · rw [if_neg (by simpa using hne)]
    rfl

theorem chunks_append {front : Bytes} (hfront : front.length = size) (rest : Bytes) :
    chunks size h (front ++ rest) = front :: chunks size h rest := by
  have hsplit : split? size (front ++ rest) = some (front, rest) := by
    rw [← hfront]
    apply split?_append
  conv => lhs; unfold chunks
  rw [chunks.go]
  split
  · next hsome =>
    simp only [hsplit, Option.some.injEq, Prod.mk.injEq] at hsome
    obtain ⟨rfl, rfl⟩ := hsome
    rw [chunks.go_eq]
    rfl
  · next hnone => simp [hsplit] at hnone

theorem chunks_induction (hpos : 0 < size) {motive : Bytes → Prop} (nil : motive [])
    (last : ∀ bytes : Bytes, bytes ≠ [] → bytes.length < size → motive bytes)
    (piece : ∀ front rest : Bytes, front.length = size → motive rest → motive (front ++ rest))
    (bytes : Bytes) : motive bytes := by
  cases hsplit : split? size bytes with
  | none =>
    by_cases hne : bytes = []
    · rw [hne]
      exact nil
    · apply last bytes hne
      exact split?_eq_none_iff.1 hsplit
  | some parts =>
    obtain ⟨front, rest⟩ := parts
    have hlength := length_of_split? hsplit
    rw [← append_of_split? hsplit]
    apply piece front rest hlength.1
    exact chunks_induction hpos nil last piece rest
termination_by bytes.length

theorem flatten_chunks (bytes : Bytes) : (chunks size h bytes).flatten = bytes := by
  induction bytes using chunks_induction h with
  | nil => rw [chunks_nil]; rfl
  | last bytes hne hlt => rw [chunks_of_lt hne hlt]; simp
  | piece front rest hfront ih => rw [chunks_append hfront]; rw [List.flatten_cons, ih]

theorem length_chunks (bytes : Bytes) :
    (chunks size h bytes).length = (bytes.length + size - 1) / size := by
  induction bytes using chunks_induction h with
  | nil =>
    rw [chunks_nil]
    rw [Nat.div_eq_of_lt]
    · rfl
    · rw [List.length_nil]
      omega
  | last bytes hne hlt =>
    have := List.length_pos_iff.2 hne
    rw [chunks_of_lt hne hlt]
    symm
    apply Nat.div_eq_of_lt_le
    · rw [List.length_singleton]
      omega
    · rw [List.length_singleton]
      omega
  | piece front rest hfront ih =>
    rw [chunks_append hfront]
    rw [List.length_cons, List.length_append]
    rw [ih]
    rw [hfront]
    rw [show size + rest.length + size - 1 = rest.length + size - 1 + size by omega]
    rw [Nat.add_div_right _ h]

theorem exists_of_chunks {bytes : Bytes} (hne : bytes ≠ []) :
    ∃ front last, chunks size h bytes = front ++ [last]
      ∧ (∀ piece ∈ front, piece.length = size)
      ∧ 0 < last.length ∧ last.length ≤ size := by
  induction bytes using chunks_induction h with
  | nil => exact absurd rfl hne
  | last bytes _ hlt =>
    refine ⟨[], bytes, ?_, by simp, List.length_pos_iff.2 hne, Nat.le_of_lt hlt⟩
    rw [chunks_of_lt hne hlt]
    rfl
  | piece front rest hfront ih =>
    rw [chunks_append hfront]
    by_cases hrest : rest = []
    · refine ⟨[], front, ?_, by simp, by omega, by omega⟩
      rw [hrest]
      rw [chunks_nil]
      rfl
    · obtain ⟨pieces, last, hchunks, hpieces, hlast⟩ := ih hrest
      refine ⟨front :: pieces, last, ?_, ?_, hlast⟩
      · rw [hchunks]
        rfl
      · intro piece hmem
        rcases List.mem_cons.1 hmem with rfl | hmem
        · exact hfront
        · apply hpieces piece hmem

end Chunks

def littleEndian : (width : Nat) → (value : Nat) → Bytes
  | 0, _ => []
  | width + 1, value => UInt8.ofNat value :: littleEndian width (value / 256)

def bigEndian (width value : Nat) : Bytes :=
  (littleEndian width value).reverse

def ofLittleEndian : Bytes → Nat
  | [] => 0
  | b :: rest => b.toNat + 256 * ofLittleEndian rest

def ofBigEndian (bytes : Bytes) : Nat :=
  ofLittleEndian bytes.reverse

def valueCount : (width : Nat) → Nat
  | 0 => 1
  | width + 1 => 256 * valueCount width

@[simp]
theorem length_littleEndian (width value : Nat) : (littleEndian width value).length = width := by
  induction width generalizing value with
  | zero => rfl
  | succ width ih => simp [littleEndian, ih]

@[simp]
theorem length_bigEndian (width value : Nat) : (bigEndian width value).length = width := by
  simp [bigEndian]

theorem ofLittleEndian_littleEndian (width value : Nat) :
    ofLittleEndian (littleEndian width value) = value % valueCount width := by
  induction width generalizing value with
  | zero => simp [littleEndian, ofLittleEndian, valueCount, Nat.mod_one]
  | succ width ih =>
    have : (UInt8.ofNat value).toNat = value % 256 := by simp
    rw [littleEndian, ofLittleEndian, ih, this, valueCount, Nat.mod_mul]

theorem ofBigEndian_bigEndian (width value : Nat) :
    ofBigEndian (bigEndian width value) = value % valueCount width := by
  simp [ofBigEndian, bigEndian, ofLittleEndian_littleEndian]

theorem ofLittleEndian_lt (bytes : Bytes) : ofLittleEndian bytes < valueCount bytes.length := by
  induction bytes with
  | nil => simp [ofLittleEndian, valueCount]
  | cons b rest ih =>
    have := b.toNat_lt
    simp only [ofLittleEndian, List.length_cons, valueCount]
    omega

theorem ofBigEndian_lt (bytes : Bytes) : ofBigEndian bytes < valueCount bytes.length := by
  unfold ofBigEndian
  rw [← List.length_reverse]
  apply ofLittleEndian_lt

theorem littleEndian_ofLittleEndian (bytes : Bytes) :
    littleEndian bytes.length (ofLittleEndian bytes) = bytes := by
  induction bytes with
  | nil => rfl
  | cons b rest ih =>
    have := b.toNat_lt
    simp only [List.length_cons, littleEndian, ofLittleEndian]
    rw [show (b.toNat + 256 * ofLittleEndian rest) / 256 = ofLittleEndian rest by omega, ih]
    congr 1
    apply UInt8.toNat_inj.1
    simp only [UInt8.toNat_ofNat']
    omega

theorem bigEndian_ofBigEndian (bytes : Bytes) :
    bigEndian bytes.length (ofBigEndian bytes) = bytes := by
  have := littleEndian_ofLittleEndian bytes.reverse
  rw [List.length_reverse] at this
  simp [bigEndian, ofBigEndian, this]

theorem bigEndian_field {α : Type} (toNat : α → Nat) (ofNat : Nat → α) (field : Bytes)
    (hinv : ∀ n < valueCount field.length, toNat (ofNat n) = n) :
    bigEndian field.length (toNat (ofNat (ofBigEndian field))) = field := by
  rw [hinv _ (ofBigEndian_lt field)]
  apply bigEndian_ofBigEndian

end Bytes

end CqlWire
