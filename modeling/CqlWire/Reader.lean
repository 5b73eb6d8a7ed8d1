import CqlWire.Failure

/-!
This module contains readers: they take a value off the front of some bytes, and hand back the bytes
that are left also when there is no value.
-/

namespace CqlWire

def Reader (α : Type) : Type :=
  Bytes → Except Failure α × Bytes

namespace Reader

variable {α β : Type}

instance : Monad Reader where
  pure a := fun src => (.ok a, src)
  bind read next := fun src =>
    match read src with
    | (.ok a, rest) => next a rest
    | (.error e, rest) => (.error e, rest)

theorem bind_apply (read : Reader α) (next : α → Reader β) (src : Bytes) :
    (read >>= next) src
      =
    match read src with
    | (.ok a, rest) => next a rest
    | (.error e, rest) => (.error e, rest) := rfl

theorem bind_of_ok {read : Reader α} {src rest : Bytes} {a : α} (h : read src = (.ok a, rest))
    (next : α → Reader β) : (read >>= next) src = next a rest := by
  rw [bind_apply, h]

theorem bind_of_error {read : Reader α} {src rest : Bytes} {error : Failure}
    (h : read src = (.error error, rest)) (next : α → Reader β) :
    (read >>= next) src = (.error error, rest) := by
  rw [bind_apply, h]

theorem map_apply (f : α → β) (read : Reader α) (src : Bytes) :
    (f <$> read) src
      =
    match read src with
    | (.ok a, rest) => (.ok (f a), rest)
    | (.error e, rest) => (.error e, rest) := rfl

theorem exists_of_bind {read : Reader α} {next : α → Reader β} {src rest : Bytes} {b : β}
    (h : (read >>= next) src = (.ok b, rest)) :
    ∃ a more, read src = (.ok a, more) ∧ next a more = (.ok b, rest) := by
  rw [bind_apply] at h
  split at h
  · next a more hread => exact ⟨a, more, hread, h⟩
  · simp at h

theorem exists_of_map {f : α → β} {read : Reader α} {src rest : Bytes} {b : β}
    (h : (f <$> read) src = (.ok b, rest)) : ∃ a, read src = (.ok a, rest) ∧ f a = b := by
  rw [map_apply] at h
  split at h
  · next a more hread =>
    simp only [Prod.mk.injEq, Except.ok.injEq] at h
    obtain ⟨rfl, rfl⟩ := h
    exact ⟨a, hread, rfl⟩
  · simp at h

def fail (error : Failure) : Reader α := fun src => (.error error, src)

def take (n : Nat) : Reader Bytes := fun src =>
  match src.split? n with
  | some (front, rest) => (.ok front, rest)
  -- All bytes are left.
  | none => (.error (.truncated n src.length), src)

theorem take_apply (n : Nat) (src : Bytes) :
    take n src
      =
    if n ≤ src.length then (.ok (src.take n), src.drop n)
    else (.error (.truncated n src.length), src) := by
  simp only [take, Bytes.split?_eq]
  split <;> rename_i h <;> split at h <;> simp_all

theorem append_of_take {n : Nat} {src front rest : Bytes} (h : take n src = (.ok front, rest)) :
    front.length = n ∧ src = front ++ rest := by
  unfold take at h
  split at h
  · next hsplit =>
    cases h
    exact ⟨(Bytes.length_of_split? hsplit).1, (Bytes.append_of_split? hsplit).symm⟩
  · cases h

def text (n : Nat) : Reader String := do
  match Utf8.decode (← take n) with
  | .ok text => pure text
  | .error fault => fail (.protocol (.notText fault))

theorem append_of_text {n : Nat} {src rest : Bytes} {a : String}
    (h : text n src = (.ok a, rest)) : a.utf8ByteSize = n ∧ src = Utf8.encode a ++ rest := by
  obtain ⟨front, middle, htake, hdecode⟩ := exists_of_bind h
  obtain ⟨hlength, rfl⟩ := append_of_take htake
  cases hutf8 : Utf8.decode front with
  | error fault =>
    rw [hutf8] at hdecode
    cases hdecode
  | ok text =>
    rw [hutf8] at hdecode
    cases hdecode
    have hfront := Utf8.eq_encode_of_decode hutf8
    subst hfront
    rw [Utf8.length_encode] at hlength
    exact ⟨hlength, rfl⟩

def replicate.go (item : Reader α) : Nat → List α → Reader (List α)
  | 0, items, src => (.ok items.reverse, src)
  | n + 1, items, src =>
    match item src with
    | (.ok a, rest) => go item n (a :: items) rest
    | (.error e, rest) => (.error e, rest)

def replicate (n : Nat) (item : Reader α) : Reader (List α) :=
  replicate.go item n []

theorem replicate.go_eq (item : Reader α) (n : Nat) (items : List α) (src : Bytes) :
    replicate.go item n items src
      =
    match replicate n item src with
    | (.ok more, rest) => (.ok (items.reverse ++ more), rest)
    | (.error e, rest) => (.error e, rest) := by
  induction n generalizing items src with
  | zero => simp [replicate, go]
  | succ n ih =>
    simp only [replicate, go]
    rcases item src with ⟨_ | a, rest⟩
    · rfl
    · simp only [ih (a :: items), ih [a]]
      rcases replicate n item rest with ⟨_ | more, rest'⟩ <;> simp

theorem replicate_succ (n : Nat) (item : Reader α) (src : Bytes) :
    replicate (n + 1) item src
      =
    match item src with
    | (.ok a, rest) =>
      match replicate n item rest with
      | (.ok more, rest) => (.ok (a :: more), rest)
      | (.error e, rest) => (.error e, rest)
    | (.error e, rest) => (.error e, rest) := by
  simp only [replicate, replicate.go]
  rcases item src with ⟨_ | a, rest⟩
  · rfl
  · simp [replicate.go_eq item n [a]]
    rfl

theorem exists_of_replicate_succ {n : Nat} {item : Reader α} {src rest : Bytes} {items : List α}
    (h : replicate (n + 1) item src = (.ok items, rest)) :
    ∃ a more middle, item src = (.ok a, middle)
      ∧ replicate n item middle = (.ok more, rest)
      ∧ items = a :: more := by
  rw [replicate_succ] at h
  split at h
  · next a middle hitem =>
    split at h
    · next more rest' hmore =>
      cases h
      exact ⟨a, more, middle, hitem, hmore, rfl⟩
    · cases h
  · cases h

end Reader

end CqlWire
