import CqlWire.Reader

/-!
This module contains readers that are local. They go by the front of the bytes and take nothing from
behind it, so what they say stays the same when more bytes come, unless they said that there were
too few.
-/

namespace CqlWire

namespace Reader

variable {α β : Type} {read : Reader α}

/-- The bytes end before what is to be read of them does. -/
def Starved (read : Reader α) (src : Bytes) : Prop :=
  ∃ needed available, (read src).1 = .error (.truncated needed available) ∧ available < needed

structure Local (read : Reader α) : Prop where
  suffix : ∀ src, (read src).2 <:+ src
  starved_or_append : ∀ src,
    read.Starved src ∨ ∀ more, read (src ++ more) = ((read src).1, (read src).2 ++ more)

namespace Local

theorem append_of_ok (h : read.Local) {src rest : Bytes} {a : α} (hread : read src = (.ok a, rest))
    (more : Bytes) : read (src ++ more) = (.ok a, rest ++ more) := by
  rcases h.starved_or_append src with hstarved | happend
  · obtain ⟨needed, available, herror, _⟩ := hstarved
    rw [hread] at herror
    cases herror
  · rw [happend, hread]

theorem append_of_error (h : read.Local) {src : Bytes} {error : Failure}
    (hread : (read src).1 = .error error)
    (herror : ∀ needed available, error ≠ .truncated needed available) (more : Bytes) :
    (read (src ++ more)).1 = .error error := by
  rcases h.starved_or_append src with hstarved | happend
  · obtain ⟨needed, available, htruncated, _⟩ := hstarved
    rw [hread, Except.error.injEq] at htruncated
    exact absurd htruncated (herror needed available)
  · rw [happend, hread]

/-- Of the bytes that a value is read off, none can be spared. -/
theorem starved_of_prefix (h : read.Local) {taken rest cut : Bytes} {a : α}
    (hread : read (taken ++ rest) = (.ok a, rest)) (hcut : cut <+: taken) (hne : cut ≠ taken) :
    read.Starved cut := by
  obtain ⟨missing, rfl⟩ := hcut
  rcases h.starved_or_append cut with hstarved | happend
  · exact hstarved
  · -- What is missing would be left over, too.
    have hrest := happend (missing ++ rest)
    rw [← List.append_assoc, hread] at hrest
    have hlength := congrArg (fun result => result.2.length) hrest
    simp only [List.length_append] at hlength
    have hmissing : missing = [] := List.length_eq_zero_iff.1 (by omega)
    rw [hmissing, List.append_nil] at hne
    exact absurd rfl hne

protected theorem pure (a : α) : (Pure.pure a : Reader α).Local where
  suffix := List.suffix_refl
  starved_or_append _ := .inr fun _ => rfl

protected theorem fail (error : Failure) : (Reader.fail error : Reader α).Local where
  suffix := List.suffix_refl
  starved_or_append _ := .inr fun _ => rfl

protected theorem bind {next : α → Reader β} (h : read.Local) (hnext : ∀ a, (next a).Local) :
    (read >>= next).Local where
  suffix src := by
    have hsuffix := h.suffix src
    rcases hread : read src with ⟨error | a, rest⟩
    · rw [hread] at hsuffix
      rw [bind_of_error hread]
      exact hsuffix
    · rw [hread] at hsuffix
      rw [bind_of_ok hread]
      exact ((hnext a).suffix rest).trans hsuffix
  starved_or_append src := by
    rcases hread : read src with ⟨error | a, rest⟩
    · rcases h.starved_or_append src with hstarved | happend
      · left
        obtain ⟨needed, available, herror, hlt⟩ := hstarved
        rw [hread, Except.error.injEq] at herror
        subst herror
        refine ⟨needed, available, ?_, hlt⟩
        rw [bind_of_error hread]
      · right
        intro more
        have hmore := happend more
        rw [hread] at hmore
        rw [bind_of_error hread, bind_of_error hmore]
    · unfold Starved
      rw [bind_of_ok hread]
      rcases (hnext a).starved_or_append rest with hstarved | happend
      · exact .inl hstarved
      · right
        intro more
        rw [bind_of_ok (h.append_of_ok hread more)]
        exact happend more

protected theorem map (h : read.Local) (f : α → β) : (f <$> read).Local :=
  h.bind fun a => .pure (f a)

protected theorem take (n : Nat) : (Reader.take n).Local where
  suffix src := by
    rw [take_apply]
    split
    · exact List.drop_suffix n src
    · exact List.suffix_refl src
  starved_or_append src := by
    unfold Starved Reader.take
    cases hsplit : src.split? n with
    | none => exact .inl ⟨n, src.length, rfl, Bytes.split?_eq_none_iff.1 hsplit⟩
    | some parts =>
      right
      intro more
      rw [Bytes.split?_append_of_some hsplit]

protected theorem text (n : Nat) : (Reader.text n).Local := by
  apply (Local.take n).bind
  intro front
  cases Utf8.decode front with
  | ok text => exact .pure text
  | error fault => exact .fail _

protected theorem replicate (h : read.Local) (n : Nat) : (Reader.replicate n read).Local := by
  induction n with
  | zero => exact .pure []
  | succ n ih =>
    have hsucc : Reader.replicate (n + 1) read
        = read >>= fun a => (a :: ·) <$> Reader.replicate n read := by
      funext src
      rw [replicate_succ, bind_apply]
      rcases read src with ⟨error | a, rest⟩
      · rfl
      · dsimp only
        rw [map_apply]
        rcases Reader.replicate n read rest with ⟨error | more, last⟩
        · rfl
        · rfl
    rw [hsucc]
    exact h.bind fun a => ih.map _

end Local

end Reader

end CqlWire
