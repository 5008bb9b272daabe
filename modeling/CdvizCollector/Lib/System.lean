import Mathlib.Data.Nat.Notation
import Mathlib.Logic.Relation
import Mathlib.Order.Defs.LinearOrder

/-!
Transition systems, the object every component of the collector is modelled as.

A system is a set of initial states and a one-step relation; what is shown
about it is shown of its reachable states, by an invariant, or carried over
from a smaller system by a refinement. Termination is the remaining question
about a run, and it is answered by a measure that every step decreases: a run
can then be no longer than the measure of the state it starts from.
-/

namespace CdvizCollector.Lib

universe u v

/-- Initial states and a one-step relation. -/
structure System (σ : Type u) where
  init : σ → Prop
  step : σ → σ → Prop

namespace System

variable {σ : Type u} {τ : Type v} {S : System σ} {A : System τ} {s t : σ}

/-- The states some run reaches. -/
inductive Reachable (S : System σ) : σ → Prop
  | init {s : σ} (h : S.init s) : Reachable S s
  | next {s t : σ} (h : Reachable S s) (hstep : S.step s t) : Reachable S t

theorem Reachable.trans (h : S.Reachable s) (hrun : Relation.ReflTransGen S.step s t) :
    S.Reachable t := by
  induction hrun with
  | refl => exact h
  | tail _ hstep ih => exact .next ih hstep

/-- A property of the initial states that every step preserves. -/
structure Invariant (S : System σ) (I : σ → Prop) : Prop where
  init : ∀ {s}, S.init s → I s
  step : ∀ {s t}, I s → S.step s t → I t

theorem Invariant.holds {I : σ → Prop} (hI : S.Invariant I) (h : S.Reachable s) : I s := by
  induction h with
  | init h => exact hI.init h
  | next _ hstep ih => exact hI.step ih hstep

/-- A forward simulation by a function: each step of the concrete system is a
step of the abstract one or leaves the abstract state as it is. The concrete
invariant `I` is what the steps may assume. -/
structure Refines (S : System σ) (A : System τ) (I : σ → Prop) (abs : σ → τ) : Prop where
  inv : S.Invariant I
  init : ∀ {s}, S.init s → A.init (abs s)
  step : ∀ {s t}, I s → S.step s t → A.step (abs s) (abs t) ∨ abs t = abs s

theorem Refines.reachable {I : σ → Prop} {abs : σ → τ} (hR : Refines S A I abs)
    (h : S.Reachable s) : A.Reachable (abs s) := by
  induction h with
  | init h => exact .init (hR.init h)
  | next hreach hstep ih =>
      rcases hR.step (hR.inv.holds hreach) hstep with habs | habs
      · exact .next ih habs
      · exact habs ▸ ih

/-- An invariant of the abstract system is one of every system refining it. -/
theorem Refines.transfer {I : σ → Prop} {abs : σ → τ} (hR : Refines S A I abs)
    {J : τ → Prop} (hJ : A.Invariant J) (h : S.Reachable s) : J (abs s) :=
  hJ.holds (hR.reachable h)

/-- The runs of a system on which a property holds throughout. -/
def restrict (S : System σ) (good : σ → Prop) : System σ where
  init s := S.init s ∧ good s
  step s t := S.step s t ∧ good t

theorem Invariant.restrict {I : σ → Prop} (hI : S.Invariant I) (good : σ → Prop) :
    (S.restrict good).Invariant I where
  init h := hI.init h.1
  step h hstep := hI.step h hstep.1

/-- If what is lost is not regained, a run that ends well was good throughout. -/
theorem Reachable.restrict {good : σ → Prop} (hstable : ∀ {s t}, S.step s t → good t → good s)
    (h : S.Reachable s) (hgood : good s) : (S.restrict good).Reachable s := by
  induction h with
  | init h => exact .init ⟨h, hgood⟩
  | next _ hstep ih => exact .next (ih (hstable hstep hgood)) ⟨hstep, hgood⟩

/-- `Run S n s t`: exactly `n` steps lead from `s` to `t`. -/
inductive Run (S : System σ) : ℕ → σ → σ → Prop
  | refl (s : σ) : Run S 0 s s
  | tail {n : ℕ} {s t u : σ} (h : Run S n s t) (hstep : S.step t u) : Run S (n + 1) s u

theorem Run.reachable {n : ℕ} (h : S.Run n s t) (hs : S.Reachable s) : S.Reachable t := by
  induction h with
  | refl => exact hs
  | tail _ hstep ih => exact .next (ih hs) hstep

/-- If every step out of a state satisfying `I` lowers `μ`, a run takes no more
steps than the measure it starts with. -/
theorem Run.length_le {I : σ → Prop} {μ : σ → ℕ} (hI : S.Invariant I)
    (hμ : ∀ {s t}, I s → S.step s t → μ t < μ s) {n : ℕ} (h : S.Run n s t)
    (hs : S.Reachable s) : n + μ t ≤ μ s := by
  induction h with
  | refl => exact Nat.le_of_eq (Nat.zero_add _)
  | tail hrun hstep ih =>
      have hlt := hμ (hI.holds (hrun.reachable hs)) hstep
      have hle := ih hs
      omega

/-- From `s` on every run is over after at most `bound` steps, and a run that
cannot go on has ended as it should. -/
structure TerminatesIn (S : System σ) (final : σ → Prop) (bound : ℕ) (s : σ) : Prop where
  bounded : ∀ {n t}, S.Run n s t → n ≤ bound
  stuck_iff : ∀ {t}, Relation.ReflTransGen S.step s t → ((∀ u, ¬S.step t u) ↔ final t)

/-- Termination by an invariant under which a measure goes down and only the
final states have no step. -/
theorem Invariant.terminatesIn {I final : σ → Prop} {μ : σ → ℕ} {bound : ℕ}
    (hI : S.Invariant I) (hμ : ∀ {s t}, I s → S.step s t → μ t < μ s)
    (hprogress : ∀ {s}, I s → ¬final s → ∃ t, S.step s t)
    (hfinal : ∀ {s t}, final s → ¬S.step s t) (hs : S.Reachable s) (hbound : μ s ≤ bound) :
    S.TerminatesIn final bound s where
  bounded hrun := by
    have hle := hrun.length_le hI hμ hs
    omega
  stuck_iff := by
    intro t hrun
    constructor
    · intro hstuck
      by_contra hnot
      obtain ⟨u, hstep⟩ := hprogress (hI.holds (hs.trans hrun)) hnot
      exact hstuck u hstep
    · intro hdone u
      exact hfinal hdone

end System

end CdvizCollector.Lib
