import CqlWire.Failure

/-!
This module contains what comes of handing inputs to a machine, one after the other. A machine turns
an input into outputs or an error, and goes on from the state in which that leaves it.
-/

namespace CqlWire

variable {τ β α : Type}

def prepend (outputs : List α) (result : Except Failure (List α) × τ) :
    Except Failure (List α) × τ :=
  (result.1.map (outputs ++ ·), result.2)

def feed (push : τ → β → Except Failure (List α) × τ) :
    τ → List β → Except Failure (List α) × τ
  | state, [] => (.ok [], state)
  | state, input :: rest =>
    match push state input with
    | (.ok outputs, state) => prepend outputs (feed push state rest)
    | (.error error, state) => (.error error, state)

@[simp]
theorem prepend_ok (outputs more : List α) (state : τ) :
    prepend outputs (.ok more, state) = (.ok (outputs ++ more), state) := rfl

@[simp]
theorem prepend_error (outputs : List α) (error : Failure) (state : τ) :
    prepend outputs (.error error, state) = (.error error, state) := rfl

@[simp]
theorem prepend_nil (result : Except Failure (List α) × τ) : prepend [] result = result := by
  rcases result with ⟨_ | outputs, state⟩ <;> simp

theorem prepend_prepend (first second : List α) (result : Except Failure (List α) × τ) :
    prepend first (prepend second result) = prepend (first ++ second) result := by
  rcases result with ⟨_ | outputs, state⟩ <;> simp

theorem exists_of_prepend_ok {outputs all : List α} {state : τ}
    {result : Except Failure (List α) × τ} (h : prepend outputs result = (.ok all, state)) :
    ∃ more, result = (.ok more, state) ∧ all = outputs ++ more := by
  rcases result with ⟨_ | more, state'⟩
  · simp at h
  · simp only [prepend_ok, Prod.mk.injEq, Except.ok.injEq] at h
    obtain ⟨rfl, rfl⟩ := h
    exact ⟨more, rfl, rfl⟩

theorem eq_of_prepend_error {outputs : List α} {state : τ} {error : Failure}
    {result : Except Failure (List α) × τ} (h : prepend outputs result = (.error error, state)) :
    result = (.error error, state) := by
  rcases result with ⟨_ | more, state'⟩
  · exact h
  · simp at h

variable {push : τ → β → Except Failure (List α) × τ}

@[simp]
theorem feed_nil (state : τ) : feed push state [] = (.ok [], state) := rfl

theorem feed_cons_of_ok {state state' : τ} {input : β} {outputs : List α}
    (h : push state input = (.ok outputs, state')) (rest : List β) :
    feed push state (input :: rest) = prepend outputs (feed push state' rest) := by
  rw [feed, h]

theorem feed_cons_of_error {state state' : τ} {input : β} {error : Failure}
    (h : push state input = (.error error, state')) (rest : List β) :
    feed push state (input :: rest) = (.error error, state') := by
  rw [feed, h]

theorem exists_of_feed_cons_ok {state last : τ} {input : β} {rest : List β} {outputs : List α}
    (h : feed push state (input :: rest) = (.ok outputs, last)) :
    ∃ first second next,
      push state input = (.ok first, next)
        ∧ feed push next rest = (.ok second, last)
        ∧ outputs = first ++ second := by
  rcases hpush : push state input with ⟨_ | first, next⟩
  · rw [feed_cons_of_error hpush] at h
    simp at h
  · rw [feed_cons_of_ok hpush] at h
    obtain ⟨second, hrest, houtputs⟩ := exists_of_prepend_ok h
    exact ⟨first, second, next, rfl, hrest, houtputs⟩

theorem feed_append_of_ok {state state' : τ} {front : List β} {outputs : List α}
    (h : feed push state front = (.ok outputs, state')) (back : List β) :
    feed push state (front ++ back) = prepend outputs (feed push state' back) := by
  induction front generalizing state outputs with
  | nil =>
    simp only [feed_nil, Prod.mk.injEq, Except.ok.injEq] at h
    obtain ⟨rfl, rfl⟩ := h
    simp
  | cons input rest ih =>
    obtain ⟨first, second, next, hpush, hrest, rfl⟩ := exists_of_feed_cons_ok h
    rw [List.cons_append]
    rw [feed_cons_of_ok hpush]
    rw [ih hrest]
    rw [prepend_prepend]

theorem exists_of_feed_append_ok {state last : τ} {front back : List β} {outputs : List α}
    (h : feed push state (front ++ back) = (.ok outputs, last)) :
    ∃ first second middle,
      feed push state front = (.ok first, middle)
        ∧ feed push middle back = (.ok second, last)
        ∧ outputs = first ++ second := by
  induction front generalizing state outputs with
  | nil => exact ⟨[], outputs, state, rfl, h, rfl⟩
  | cons input rest ih =>
    obtain ⟨first, later, next, hpush, hlater, rfl⟩ := exists_of_feed_cons_ok h
    obtain ⟨second, third, middle, hrest, hback, rfl⟩ := ih hlater
    refine ⟨first ++ second, third, middle, ?_, hback, by rw [List.append_assoc]⟩
    rw [feed_cons_of_ok hpush]
    rw [hrest]
    rfl

theorem feed_of_push_eq {τ' : Type} {push' : τ' → β → Except Failure (List α) × τ'}
    (like : τ → τ')
    (h : ∀ state input, push' (like state) input
      = ((push state input).1, like (push state input).2)) (state : τ) (inputs : List β) :
    feed push' (like state) inputs
      =
    ((feed push state inputs).1, like (feed push state inputs).2) := by
  induction inputs generalizing state with
  | nil => rfl
  | cons input rest ih =>
    have hinput := h state input
    rcases hpush : push state input with ⟨error | outputs, next⟩
    · rw [hpush] at hinput
      rw [feed_cons_of_error hinput]
      rw [feed_cons_of_error hpush]
    · rw [hpush] at hinput
      rw [feed_cons_of_ok hinput]
      rw [feed_cons_of_ok hpush]
      rw [ih]
      rfl

theorem exists_of_feed_error {state last : τ} {inputs : List β} {error : Failure}
    (h : feed push state inputs = (.error error, last)) :
    ∃ front input back outputs middle,
      inputs = front ++ input :: back
        ∧ feed push state front = (.ok outputs, middle)
        ∧ push middle input = (.error error, last) := by
  induction inputs generalizing state with
  | nil => simp at h
  | cons input rest ih =>
    rcases hpush : push state input with ⟨failure | first, next⟩
    · rw [feed_cons_of_error hpush] at h
      simp only [Prod.mk.injEq, Except.error.injEq] at h
      obtain ⟨rfl, rfl⟩ := h
      exact ⟨[], input, rest, [], state, by simp, rfl, hpush⟩
    · rw [feed_cons_of_ok hpush] at h
      have hrest := eq_of_prepend_error h
      obtain ⟨front, input', back, outputs, middle, rfl, hfront, hinput⟩ := ih hrest
      refine ⟨input :: front, input', back, first ++ outputs, middle, by simp, ?_, hinput⟩
      rw [feed_cons_of_ok hpush]
      rw [hfront]
      rfl

/-- What comes of each input to a machine that goes on behind errors. -/
def outcomes (push : τ → β → Except Failure (List α) × τ) :
    τ → List β → List (Except Failure (List α))
  | _, [] => []
  | state, input :: rest => (push state input).1 :: outcomes push (push state input).2 rest

def final (push : τ → β → Except Failure (List α) × τ) (state : τ) (inputs : List β) : τ :=
  inputs.foldl (fun state input => (push state input).2) state

theorem final_append (state : τ) (front back : List β) :
    final push state (front ++ back) = final push (final push state front) back :=
  List.foldl_append

variable {Kept : τ → Prop} (hkept : ∀ state input, Kept state → Kept (push state input).2)

include hkept

/-- What each input keeps, all of them keep. -/
theorem kept_final {state : τ} (hstate : Kept state) (inputs : List β) :
    Kept (final push state inputs) := by
  induction inputs generalizing state with
  | nil => exact hstate
  | cons input rest ih => exact ih (hkept state input hstate)

theorem forall_outcomes {Good : Except Failure (List α) → Prop}
    (hgood : ∀ state input, Kept state → Good (push state input).1) {state : τ}
    (hstate : Kept state) (inputs : List β) :
    ∀ outcome ∈ outcomes push state inputs, Good outcome := by
  induction inputs generalizing state with
  | nil => simp [outcomes]
  | cons input rest ih =>
    rw [outcomes, List.forall_mem_cons]
    exact ⟨hgood state input hstate, ih (hkept state input hstate)⟩

end CqlWire
