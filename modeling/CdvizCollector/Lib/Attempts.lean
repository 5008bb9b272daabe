import Mathlib.Data.List.Count
import Mathlib.Data.Nat.Notation

/-!
A call that is tried again until it is answered.

The network may lose an attempt before the callee sees it, or the answer after, and
something in front of the callee may answer in its place. The caller tells none of the
first two apart. So a call has been executed at least once when it comes back with a
final answer of the callee, and more than once only for answers that were lost.
-/

namespace CdvizCollector.Lib.Attempts

variable {σ α : Type}

inductive Fate (α : Type) where
  | lost
  | unanswered
  | answered
  | refused (a : α)
deriving DecidableEq, Repr

section Calls

variable (call : σ → Option α × σ) (again : Option α → Bool)

/-- What an attempt comes to for the caller, and for the callee. -/
def attempt : Fate α → σ → Option α × σ
  | .lost, s => (none, s)
  | .unanswered, s => (none, (call s).2)
  | .answered, s => call s
  | .refused a, s => (some a, s)

/-- The attempts that the caller makes, as long as it wants to try again and has any
left. -/
def attempts : List (Fate α) → σ → Option α × σ
  | [], s => (none, s)
  | fate :: rest, s =>
      let answer := attempt call fate s
      if rest ≠ [] ∧ again answer.1 = true then attempts rest answer.2 else answer

end Calls

/-- `Copies k s s'` when the state `s'` is `s` after `k` executions. -/
structure Counts (Copies : ℕ → σ → σ → Prop) : Prop where
  zero : ∀ s, Copies 0 s s
  add : ∀ {k l s s' s''}, Copies k s s' → Copies l s' s'' → Copies (k + l) s s''

/-- How often a call was executed, by its fates and its result. -/
structure Accounted [DecidableEq α] (accepted : α) (rejections : α → Prop)
    (fates : List (Fate α)) (result : Option α) (copies : ℕ) : Prop where
  atLeast : result = some accepted → 1 ≤ copies
  atMost : copies ≤ fates.count .unanswered + if result = some accepted then 1 else 0
  known : ∀ a, result = some a → a = accepted ∨ rejections a ∨ .refused a ∈ fates

variable [DecidableEq α] {call : σ → Option α × σ} {again : Option α → Bool}
  {Copies : ℕ → σ → σ → Prop} {accepted : α} {rejections : α → Prop}

end CdvizCollector.Lib.Attempts
