import CqlWire.Proofs.Unpacker

/-!
This module contains what an unpacker makes of segments: no byte of their payloads is lost, moved or
repeated, and frames that were packed into segments in any way come out as they were.
-/

namespace CqlWire

namespace Unpacker

/-- The slices that are there end before their frame, whose length is known once its header is. -/
structure Unfinished (unpacker : Unpacker) : Prop where
  unknown : unpacker.expected = none → unpacker.pending.length < FrameHeader.size
  known : ∀ length, unpacker.expected = some length →
    FrameHeader.size ≤ unpacker.pending.length
      ∧ unpacker.pending.length < length
      ∧ FrameHeader.Declares unpacker.pending length

/-- The bytes are those of frames, but for the last of them, which are still pending. -/
structure Accounts (bytes : Bytes) (frames : List Bytes) (unpacker : Unpacker) : Prop where
  flatten_eq : frames.flatten ++ unpacker.pending = bytes
  delimited : ∀ frame ∈ frames,
    FrameHeader.size ≤ frame.length ∧ FrameHeader.Declares frame frame.length
  unfinished : Unfinished unpacker

theorem unfinished_empty : Unfinished empty where
  unknown := fun _ => by decide
  known := by
    intro length h
    cases h

theorem unfinished_unknown {pending : Bytes} (h : pending.length < FrameHeader.size) :
    Unfinished ⟨pending, none⟩ where
  unknown := fun _ => h
  known := by
    intro length h
    cases h

theorem unfinished_known {pending : Bytes} {length : Nat}
    (h : FrameHeader.frameLength? pending = some (.ok length)) (hlt : pending.length < length) :
    Unfinished ⟨pending, some length⟩ where
  unknown := by
    intro h
    cases h
  known := by
    rintro _ ⟨⟩
    refine ⟨?_, hlt, FrameHeader.frameLength?_eq_ok_iff.1 h⟩
    apply Nat.le_of_not_lt
    intro hshort
    rw [FrameHeader.frameLength?_eq_none_iff.2 hshort] at h
    cases h

namespace Accounts

theorem of_unfinished {pending : Bytes} {expected : Option Nat}
    (h : Unfinished ⟨pending, expected⟩) : Accounts pending [] ⟨pending, expected⟩ where
  flatten_eq := rfl
  delimited := by simp
  unfinished := h

theorem trans {front back : Bytes} {frames frames' : List Bytes} {middle last : Unpacker}
    (h : Accounts front frames middle) (h' : Accounts (middle.pending ++ back) frames' last) :
    Accounts (front ++ back) (frames ++ frames') last where
  flatten_eq := by
    rw [List.flatten_append, List.append_assoc]
    rw [h'.flatten_eq]
    rw [← List.append_assoc]
    rw [h.flatten_eq]
  delimited := by
    intro frame hmem
    rcases List.mem_append.1 hmem with hmem | hmem
    · exact h.delimited frame hmem
    · exact h'.delimited frame hmem
  unfinished := h'.unfinished

end Accounts

theorem wholeFrames.exists_of_go {done frames : List Bytes} {payload : Bytes}
    (h : go done payload = .ok frames) :
    ∃ more, frames = done.reverse ++ more ∧ more.flatten = payload
      ∧ ∀ frame ∈ more, Delimited frame := by
  fun_induction go done payload generalizing frames with
  | case1 done payload hnil =>
    cases h
    refine ⟨[], by simp, ?_, by simp⟩
    simpa using hnil
  | case2 | case3 | case4 => cases h
  | case5 done payload _ length hlength frame rest hsplit _ ih =>
    obtain ⟨more, rfl, rfl, hmore⟩ := ih h
    have hframe := Bytes.length_of_split? hsplit
    have hsize := size_le_of_frameLength? hlength
    rw [← Bytes.append_of_split? hsplit] at hlength
    rw [← hframe.1] at hlength hsize
    refine ⟨frame :: more, by simp, ?_, ?_⟩
    · rw [List.flatten_cons]
      exact Bytes.append_of_split? hsplit
    · intro frame' hmem
      rcases List.mem_cons.1 hmem with rfl | hmem
      · exact delimited_of_append hsize hlength
      · exact hmore frame' hmem

theorem wholeFrames_eq_ok_iff {payload : Bytes} {frames : List Bytes} :
    wholeFrames payload = .ok frames
      ↔
    frames.flatten = payload ∧ ∀ frame ∈ frames, Delimited frame := by
  constructor
  · intro h
    obtain ⟨more, rfl, hflatten, hmore⟩ := wholeFrames.exists_of_go h
    exact ⟨hflatten, hmore⟩
  · rintro ⟨rfl, h⟩
    exact wholeFrames.go_flatten h []

theorem accounts_wholeFrames {unpacker : Unpacker} {frames : List Bytes} {payload : Bytes}
    (hunpacker : Unfinished unpacker) (hnil : unpacker.pending = [])
    (h : wholeFrames payload = .ok frames) : Accounts payload frames unpacker := by
  obtain ⟨more, rfl, rfl, hmore⟩ := wholeFrames.exists_of_go h
  exact {
    flatten_eq := by simp [hnil]
    delimited := by
      intro frame hmem
      rw [← delimited_iff]
      apply hmore frame
      simpa using hmem
    unfinished := hunpacker
  }

theorem accounts_slicesOf {pending : Bytes} {length : Nat} {frames : List Bytes}
    {next : Unpacker} (hlength : FrameHeader.frameLength? pending = some (.ok length))
    (h : slicesOf length pending = (.ok frames, next)) : Accounts pending frames next := by
  unfold slicesOf at h
  split at h
  · cases h
  · split at h
    · next heq =>
      cases h
      exact {
        flatten_eq := by simp [empty]
        delimited := by
          intro frame hmem
          rw [List.mem_singleton.1 hmem]
          rw [← delimited_iff]
          unfold Delimited
          rw [heq]
          exact hlength
        unfinished := unfinished_empty
      }
    · next hle hne =>
      cases h
      apply Accounts.of_unfinished
      apply unfinished_known hlength
      omega

theorem accounts_ofSlices {pending : Bytes} {frames : List Bytes} {next : Unpacker}
    (h : ofSlices pending = (.ok frames, next)) : Accounts pending frames next := by
  unfold ofSlices at h
  split at h
  · next hshort =>
    cases h
    apply Accounts.of_unfinished
    apply unfinished_unknown
    exact FrameHeader.frameLength?_eq_none_iff.1 hshort
  · cases h
  · next hlength => exact accounts_slicesOf hlength h

theorem Unfinished.knows {unpacker : Unpacker} (h : Unfinished unpacker) : Knows unpacker := by
  intro length hexpected
  obtain ⟨_, _, hdeclares⟩ := h.known length hexpected
  exact hdeclares

/-- What one segment adds to the bytes that are pending is in the frames or pending again. -/
theorem accounts_push {unpacker next : Unpacker} {segment : Segment} {frames : List Bytes}
    (hunpacker : Unfinished unpacker) (h : push unpacker segment = (.ok frames, next)) :
    Accounts (unpacker.pending ++ segment.payload) frames next := by
  obtain ⟨payload, selfContained⟩ := segment
  cases selfContained with
  | false =>
    rw [hunpacker.knows.push_slice] at h
    exact accounts_ofSlices h
  | true =>
    unfold push at h
    rw [if_pos rfl] at h
    split at h
    · cases h
    · next houtside =>
      have hnil : unpacker.pending = [] := by simpa [insideFrame] using houtside
      simp only [Prod.mk.injEq] at h
      obtain ⟨hframes, rfl⟩ := h
      rw [hnil]
      exact accounts_wholeFrames hunpacker hnil hframes

theorem accounts_feed {unpacker last : Unpacker} {segments : List Segment} {frames : List Bytes}
    (hunpacker : Unfinished unpacker) (h : feed push unpacker segments = (.ok frames, last)) :
    Accounts (unpacker.pending ++ (segments.map (·.payload)).flatten) frames last := by
  induction segments generalizing unpacker frames with
  | nil =>
    cases h
    simpa using Accounts.of_unfinished hunpacker
  | cons segment rest ih =>
    obtain ⟨first, second, next, hpush, hrest, rfl⟩ := exists_of_feed_cons_ok h
    have hfirst := accounts_push hunpacker hpush
    rw [List.map_cons, List.flatten_cons, ← List.append_assoc]
    exact hfirst.trans (ih hfirst.unfinished hrest)

/--
Segments carry frames, in their order: some at a time whole in one segment, or one in slices that
follow each other.
-/
inductive Carries : List Segment → List Bytes → Prop
  | nothing : Carries [] []
  | whole {segments : List Segment} {frames : List Bytes} (front : List Bytes)
      (h : Carries segments frames) :
      Carries (⟨front.flatten, true⟩ :: segments) (front ++ frames)
  | sliced {segments : List Segment} {frames : List Bytes} (slices : List Bytes)
      (h : Carries segments frames) :
      Carries (slices.map (⟨·, false⟩) ++ segments) (slices.flatten :: frames)

theorem feed_of_carries {segments : List Segment} {frames : List Bytes}
    (h : Carries segments frames) (hframes : ∀ frame ∈ frames, Delimited frame) :
    feed push empty segments = (.ok frames, empty) := by
  induction h with
  | nothing => rfl
  | whole front _ ih =>
    rw [List.forall_mem_append] at hframes
    rw [feed_cons_of_ok (push_whole hframes.1)]
    rw [ih hframes.2]
    rfl
  | sliced slices _ ih =>
    rw [List.forall_mem_cons] at hframes
    rw [feed_append_of_ok (feed_slices hframes.1 rfl)]
    rw [ih hframes.2]
    rfl

/--
Whatever segments are taken, the frames that came of them and the bytes that are pending are their
payloads, and each frame is as long as it declares. Frames that segments carry are what comes of
them.
-/
theorem feed_sound_and_complete :
    (∀ segments frames unpacker,
      feed push empty segments = (.ok frames, unpacker) →
        Accounts (segments.map (·.payload)).flatten frames unpacker)
      ∧ ∀ segments frames, Carries segments frames →
        (∀ frame ∈ frames, FrameHeader.Declares frame frame.length) →
          feed push empty segments = (.ok frames, empty) := by
  constructor
  · intro segments frames unpacker h
    exact accounts_feed unfinished_empty h
  · intro segments frames hcarries hframes
    apply feed_of_carries hcarries
    intro frame hmem
    exact FrameHeader.frameLength?_eq_ok_iff.2 (hframes frame hmem)

theorem feed_sound_and_complete_small_slices :
    let bare : Bytes := [5, 0, 0, 0, 5, 0, 0, 0, 0]
    let slices : List Bytes := [[], [5, 0, 0, 1], [7, 0, 0, 0, 2, 8], [9], []]
    let segments : List Segment := slices.map (⟨·, false⟩) ++ [⟨bare ++ bare, true⟩]
    let unpacker : Unpacker := ⟨[5, 0, 0, 1, 7, 0, 0, 0, 2, 8], some 11⟩
    feed push empty segments = (.ok [slices.flatten, bare, bare], empty)
      ∧ feed push empty ((slices.take 3).map (⟨·, false⟩)) = (.ok [], unpacker)
      ∧ Accounts unpacker.pending [] unpacker := by
  intro bare slices segments unpacker
  have hcarries : Carries segments (slices.flatten :: ([bare, bare] ++ [])) :=
    .sliced slices (.whole [bare, bare] .nothing)
  have hframes : ∀ frame ∈ [slices.flatten, bare, bare],
      FrameHeader.Declares frame frame.length := by
    intro frame hmem
    simp only [List.mem_cons, List.not_mem_nil, or_false] at hmem
    rcases hmem with rfl | rfl | rfl
    · exact ⟨2, by decide, by decide, by decide⟩
    · exact ⟨0, by decide, by decide, by decide⟩
    · exact ⟨0, by decide, by decide, by decide⟩
  have hsliced : feed push empty ((slices.take 3).map (⟨·, false⟩)) = (.ok [], unpacker) := rfl
  refine ⟨feed_sound_and_complete.2 segments _ hcarries hframes, hsliced, ?_⟩
  exact feed_sound_and_complete.1 _ _ _ hsliced

end Unpacker

end CqlWire
