import CdvizCollector.Lib.System

/-!
First in, first out delivery in chunks.

The queue says what a buffer between a producer and a slow target is for,
whatever it is built from: items leave in the order they came, in chunks of a
bounded size, none twice and none skipped.
-/

namespace CdvizCollector.Lib

/-- A queue with what was ever put in and what was ever taken out. -/
structure Fifo (α : Type) where
  accepted : List α
  pending : List α
  delivered : List α

namespace Fifo

variable {α : Type}

inductive Step (n : ℕ) : Fifo α → Fifo α → Prop
  | enqueue {q : Fifo α} (items : List α) :
      Step n q { q with accepted := q.accepted ++ items, pending := q.pending ++ items }
  | deliver {q : Fifo α} (chunk rest : List α) (hpending : q.pending = chunk ++ rest)
      (hpos : chunk ≠ []) (hmax : chunk.length ≤ n) :
      Step n q { q with pending := rest, delivered := q.delivered ++ chunk }

/-- A queue that starts with some items in it and delivers up to `n` at once. -/
def system (α : Type) (n : ℕ) : System (Fifo α) where
  init q := q.pending = q.accepted ∧ q.delivered = []
  step := Step n

/-- Nothing is lost, repeated or reordered. -/
def Conserved (q : Fifo α) : Prop := q.delivered ++ q.pending = q.accepted

theorem conserved_invariant (n : ℕ) : (system α n).Invariant Conserved where
  init := by
    rintro q ⟨hpending, hdelivered⟩
    simp [Conserved, hpending, hdelivered]
  step := by
    intro q r hq hstep
    cases hstep with
    | enqueue items =>
        have hq : q.delivered ++ q.pending = q.accepted := hq
        simp [Conserved, ← hq]
    | deliver chunk rest hpending =>
        have hq : q.delivered ++ q.pending = q.accepted := hq
        simp [Conserved, ← hq, hpending]

end Fifo

end CdvizCollector.Lib
