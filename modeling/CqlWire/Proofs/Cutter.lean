import CqlWire.Proofs.Feed
import CqlWire.Stream.Cutter

/-!
This module contains why it does not matter into which pieces a stream is cut on its way. Where a
cutter decides by the front of what it holds, bytes that come later do not change its decision.
-/

namespace CqlWire

namespace Cutter

variable {σ α : Type} {cutter : Cutter σ α}

theorem drain.go_of_wait {state state' : σ} {bytes rest : Bytes}
    (h : cutter.next state bytes = .wait state' rest) (done : List α) :
    drain.go cutter done state bytes = (.ok done.reverse, ⟨state', rest⟩) := by
  rw [go]
  split <;> simp_all

theorem drain.go_of_item {state state' : σ} {bytes rest : Bytes} {item : α}
    (h : cutter.next state bytes = .item item state' rest) (done : List α) :
    drain.go cutter done state bytes = drain.go cutter (item :: done) state' rest := by
  rw [go]
  split <;> simp_all

theorem drain.go_of_fail {state state' : σ} {bytes rest : Bytes} {error : Failure}
    (h : cutter.next state bytes = .fail error state' rest) (done : List α) :
    drain.go cutter done state bytes = (.error error, ⟨state', rest⟩) := by
  rw [go]
  split <;> simp_all

theorem drain.go_eq (done : List α) (state : σ) (bytes : Bytes) :
    drain.go cutter done state bytes
      =
    prepend done.reverse (cutter.drain ⟨state, bytes⟩) := by
  unfold drain
  cases h : cutter.next state bytes with
  | wait state' rest => simp [go_of_wait h]
  | item item state' rest =>
    have := cutter.length_lt h
    rw [go_of_item h]
    rw [go_of_item h]
    rw [go_eq (item :: done)]
    rw [go_eq [item]]
    rw [prepend_prepend]
    simp
  | fail error state' rest => simp [go_of_fail h]
termination_by bytes.length

theorem drain_of_wait {state state' : σ} {bytes rest : Bytes}
    (h : cutter.next state bytes = .wait state' rest) :
    cutter.drain ⟨state, bytes⟩ = (.ok [], ⟨state', rest⟩) :=
  drain.go_of_wait h []

theorem drain_of_item {state state' : σ} {bytes rest : Bytes} {item : α}
    (h : cutter.next state bytes = .item item state' rest) :
    cutter.drain ⟨state, bytes⟩ = prepend [item] (cutter.drain ⟨state', rest⟩) := by
  rw [drain]
  rw [drain.go_of_item h]
  rw [drain.go_eq]
  rfl

theorem drain_of_fail {state state' : σ} {bytes rest : Bytes} {error : Failure}
    (h : cutter.next state bytes = .fail error state' rest) :
    cutter.drain ⟨state, bytes⟩ = (.error error, ⟨state', rest⟩) :=
  drain.go_of_fail h []

/-- What is decided about the front of the bytes stays the same when more bytes come. -/
structure Local (cutter : Cutter σ α) : Prop where
  wait : ∀ {state state' : σ} {bytes rest : Bytes},
    cutter.next state bytes = .wait state' rest →
      ∀ more, cutter.next state (bytes ++ more) = cutter.next state' (rest ++ more)
  item : ∀ {state state' : σ} {bytes rest : Bytes} {item : α},
    cutter.next state bytes = .item item state' rest →
      ∀ more, cutter.next state (bytes ++ more) = .item item state' (rest ++ more)
  fail : ∀ {state state' : σ} {bytes rest : Bytes} {error : Failure},
    cutter.next state bytes = .fail error state' rest →
      ∀ more, cutter.next state (bytes ++ more) = .fail error state' (rest ++ more)

def Continues (cutter : Cutter σ α) (more : Bytes) (whole : Cut σ α) : Cut σ α → Prop
  | .wait state rest => whole = cutter.next state (rest ++ more)
  | .item item state rest => whole = .item item state (rest ++ more)
  | .fail error state rest => whole = .fail error state (rest ++ more)

theorem Local.of_continues
    (h : ∀ state bytes more,
      cutter.Continues more (cutter.next state (bytes ++ more)) (cutter.next state bytes)) :
    cutter.Local where
  wait {state state' bytes rest} hnext more := by
    have := h state bytes more
    rw [hnext] at this
    exact this
  item {state state' bytes rest item} hnext more := by
    have := h state bytes more
    rw [hnext] at this
    exact this
  fail {state state' bytes rest error} hnext more := by
    have := h state bytes more
    rw [hnext] at this
    exact this

def Settled (cutter : Cutter σ α) (held : Held σ) : Prop :=
  cutter.next held.state held.bytes = .wait held.state held.bytes

theorem drain_of_settled {held : Held σ} (h : cutter.Settled held) :
    cutter.drain held = (.ok [], held) :=
  drain_of_wait h

theorem drain_congr {state state' : σ} {bytes bytes' : Bytes}
    (h : cutter.next state bytes = cutter.next state' bytes') :
    cutter.drain ⟨state, bytes⟩ = cutter.drain ⟨state', bytes'⟩ := by
  cases hnext : cutter.next state' bytes' with
  | wait _ _ => rw [drain_of_wait (h.trans hnext), drain_of_wait hnext]
  | item _ _ _ => rw [drain_of_item (h.trans hnext), drain_of_item hnext]
  | fail _ _ _ => rw [drain_of_fail (h.trans hnext), drain_of_fail hnext]

def resume (cutter : Cutter σ α) (data : Bytes) :
    Except Failure (List α) × Held σ → Except Failure (List α) × Held σ
  | (.ok items, held) => prepend items (cutter.push held data)
  | (.error error, held) => (.error error, ⟨held.state, held.bytes ++ data⟩)

theorem resume_prepend (items : List α) (data : Bytes)
    (result : Except Failure (List α) × Held σ) :
    cutter.resume data (prepend items result) = prepend items (cutter.resume data result) := by
  rcases result with ⟨_ | more, held⟩
  · rfl
  · simp [resume, prepend_prepend]

namespace Local

theorem push_append (hlocal : cutter.Local) (held : Held σ) (data more : Bytes) :
    cutter.push held (data ++ more) = cutter.resume more (cutter.push held data) := by
  -- By induction on what is held then: an item that is cut off leaves less of it.
  simp only [push, ← List.append_assoc]
  generalize hn : (held.bytes ++ data).length = n
  generalize held.bytes ++ data = bytes at hn
  generalize held.state = state
  induction n using Nat.strongRecOn generalizing state bytes with
  | ind n ih =>
    cases h : cutter.next state bytes with
    | wait state' rest =>
      rw [drain_of_wait h]
      simp only [resume, prepend_nil, push]
      apply drain_congr
      apply hlocal.wait h
    | item item state' rest =>
      have hlt := cutter.length_lt h
      rw [drain_of_item h]
      rw [drain_of_item (hlocal.item h more)]
      rw [resume_prepend]
      rw [ih rest.length (by omega) rest rfl state']
    | fail error state' rest =>
      rw [drain_of_fail h]
      rw [drain_of_fail (hlocal.fail h more)]
      rfl

theorem settled_of_wait (hlocal : cutter.Local) {state state' : σ} {bytes rest : Bytes}
    (h : cutter.next state bytes = .wait state' rest) : cutter.Settled ⟨state', rest⟩ := by
  have := hlocal.wait h []
  simp only [List.append_nil] at this
  rw [h] at this
  exact this.symm

theorem settled_of_drain (hlocal : cutter.Local) {held held' : Held σ} {items : List α}
    (h : cutter.drain held = (.ok items, held')) : cutter.Settled held' := by
  obtain ⟨state, bytes⟩ := held
  generalize hn : bytes.length = n
  induction n using Nat.strongRecOn generalizing state bytes items with
  | ind n ih =>
    cases hnext : cutter.next state bytes with
    | wait state' rest =>
      rw [drain_of_wait hnext] at h
      simp only [Prod.mk.injEq] at h
      rw [← h.2]
      apply hlocal.settled_of_wait hnext
    | item item state' rest =>
      have hlt := cutter.length_lt hnext
      rw [drain_of_item hnext] at h
      obtain ⟨_, hrest, _⟩ := exists_of_prepend_ok h
      apply ih rest.length (by omega) state' rest hrest rfl
    | fail error state' rest =>
      rw [drain_of_fail hnext] at h
      simp at h

theorem push_of_feed_ok (hlocal : cutter.Local) {held held' : Held σ}
    (hsettled : cutter.Settled held) {pieces : List Bytes} {items : List α}
    (h : feed cutter.push held pieces = (.ok items, held')) :
    cutter.push held pieces.flatten = (.ok items, held') := by
  induction pieces generalizing held items with
  | nil =>
    rw [← h]
    simp only [List.flatten_nil, push, List.append_nil]
    apply drain_of_settled hsettled
  | cons piece rest ih =>
    obtain ⟨first, second, middle, hpush, hrest, rfl⟩ := exists_of_feed_cons_ok h
    have hmiddle : cutter.Settled middle := hlocal.settled_of_drain hpush
    rw [List.flatten_cons]
    rw [hlocal.push_append]
    rw [hpush]
    rw [resume]
    rw [ih hmiddle hrest]
    rw [prepend_ok]

theorem push_of_feed_error (hlocal : cutter.Local) {held held' : Held σ}
    (hsettled : cutter.Settled held) {pieces : List Bytes} {error : Failure}
    (h : feed cutter.push held pieces = (.error error, held')) :
    ∃ later, cutter.push held pieces.flatten
      =
    (.error error, ⟨held'.state, held'.bytes ++ later⟩) := by
  obtain ⟨front, piece, back, outputs, middle, rfl, hfront, hpiece⟩ := exists_of_feed_error h
  have hfront := hlocal.push_of_feed_ok hsettled hfront
  refine ⟨back.flatten, ?_⟩
  rw [List.flatten_append]
  rw [List.flatten_cons]
  rw [hlocal.push_append]
  rw [hfront]
  rw [resume]
  rw [hlocal.push_append]
  rw [hpiece]
  rfl

theorem feed_fst (hlocal : cutter.Local) {held : Held σ} (hsettled : cutter.Settled held)
    (pieces : List Bytes) :
    (feed cutter.push held pieces).1 = (cutter.push held pieces.flatten).1 := by
  rcases h : feed cutter.push held pieces with ⟨failure | items, held'⟩
  · obtain ⟨later, hpush⟩ := hlocal.push_of_feed_error hsettled h
    rw [hpush]
  · rw [hlocal.push_of_feed_ok hsettled h]

theorem feed_of_push_ok (hlocal : cutter.Local) {held held' : Held σ}
    (hsettled : cutter.Settled held) {pieces : List Bytes} {items : List α}
    (h : cutter.push held pieces.flatten = (.ok items, held')) :
    feed cutter.push held pieces = (.ok items, held') := by
  have hfst := hlocal.feed_fst hsettled pieces
  rw [h] at hfst
  rcases hfeed : feed cutter.push held pieces with ⟨failure | outputs, last⟩
  · rw [hfeed] at hfst
    simp at hfst
  · rw [← h]
    rw [hlocal.push_of_feed_ok hsettled hfeed]

end Local

end Cutter

end CqlWire
