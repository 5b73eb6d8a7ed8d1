import CqlWire.Failure

/-!
This module contains cutters: they cut a stream of bytes that comes in pieces into items, and hold
the bytes that do not make up an item yet.
-/

namespace CqlWire

inductive Cut (σ α : Type)
  | wait (state : σ) (rest : Bytes)
  | item (item : α) (state : σ) (rest : Bytes)
  | fail (error : Failure) (state : σ) (rest : Bytes)

structure Cutter (σ α : Type) where
  next : σ → Bytes → Cut σ α
  length_lt : ∀ {state state' : σ} {bytes rest : Bytes} {item : α},
    next state bytes = .item item state' rest → rest.length < bytes.length

structure Held (σ : Type) where
  state : σ
  bytes : Bytes
deriving Repr, DecidableEq

namespace Cutter

variable {σ α : Type}

def drain.go (cutter : Cutter σ α) (done : List α) (state : σ) (bytes : Bytes) :
    Except Failure (List α) × Held σ :=
  match h : cutter.next state bytes with
  | .wait state rest => (.ok done.reverse, ⟨state, rest⟩)
  | .item item state rest =>
    have := cutter.length_lt h
    go cutter (item :: done) state rest
  -- The items in front of an error are lost.
  | .fail error state rest => (.error error, ⟨state, rest⟩)
termination_by bytes.length

def drain (cutter : Cutter σ α) (held : Held σ) : Except Failure (List α) × Held σ :=
  drain.go cutter [] held.state held.bytes

def push (cutter : Cutter σ α) (held : Held σ) (data : Bytes) :
    Except Failure (List α) × Held σ :=
  cutter.drain ⟨held.state, held.bytes ++ data⟩

end Cutter

end CqlWire
