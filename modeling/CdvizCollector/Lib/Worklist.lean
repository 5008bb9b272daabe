import CdvizCollector.Lib.System
import Mathlib.Data.Multiset.Bind

/-!
Worklists whose order does not matter.

Work on a task may add more tasks, each of a lower rank. Any pending task may be
taken next, so a run is a schedule, and the multiset of tasks worked on in a run
that drains the list is the same under all of them: every task brings the whole
tree below it, and what is done together with the trees still pending never
changes.
-/

namespace CdvizCollector.Lib

universe u

/-- What a task adds, and the rank that bounds how far it goes on. -/
structure Worklist (α : Type u) where
  children : α → Multiset α
  rank : α → ℕ
  rank_lt : ∀ {task child}, child ∈ children task → rank child < rank task

namespace Worklist

variable {α : Type u} (W : Worklist α) {initial : Multiset α}

structure State (α : Type u) where
  pending : Multiset α
  done : Multiset α

inductive Step : State α → State α → Prop
  | work (task : α) (rest done : Multiset α) :
      Step ⟨task ::ₘ rest, done⟩ ⟨rest + W.children task, task ::ₘ done⟩

def system (initial : Multiset α) : System (State α) where
  init s := s = ⟨initial, 0⟩
  step := W.Step

/-! ### The tree below a task -/

/-- A task and what it leads to, for so many generations. -/
def generations : ℕ → α → Multiset α
  | 0, _ => 0
  | n + 1, task => task ::ₘ (W.children task).bind (generations n)

/-- A task and everything it leads to. -/
def tree (task : α) : Multiset α := W.generations (W.rank task + 1) task

/-- Beyond the rank of a task there are no more generations. -/
theorem generations_congr {m n : ℕ} {task : α} (hm : W.rank task < m) (hn : W.rank task < n) :
    W.generations m task = W.generations n task := by
  induction m generalizing n task with
  | zero => exact absurd hm (Nat.not_lt_zero _)
  | succ m ih =>
      obtain ⟨n, rfl⟩ := Nat.exists_eq_add_one_of_ne_zero (Nat.ne_of_gt (Nat.zero_lt_of_lt hn))
      simp only [generations]
      apply congrArg
      apply Multiset.bind_congr
      intro child hchild
      have hrank := W.rank_lt hchild
      exact ih (by omega) (by omega)

theorem tree_eq (task : α) : W.tree task = task ::ₘ (W.children task).bind W.tree := by
  unfold tree
  simp only [generations]
  apply congrArg
  apply Multiset.bind_congr
  intro child hchild
  exact W.generations_congr (W.rank_lt hchild) (Nat.lt_succ_self _)

theorem le_bind_tree (tasks : Multiset α) : tasks ≤ tasks.bind W.tree := by
  induction tasks using Multiset.induction with
  | empty => exact Multiset.zero_le _
  | cons task tasks ih =>
      rw [Multiset.cons_bind, tree_eq, Multiset.cons_add]
      exact Multiset.cons_le_cons _ (le_trans ih (Multiset.le_add_left _ _))

/-! ### What does not change -/

/-- What is done, and what is pending with all it will lead to. -/
def total (s : State α) : Multiset α := s.done + s.pending.bind W.tree

theorem total_step {s t : State α} (h : W.Step s t) : W.total t = W.total s := by
  cases h with
  | work task rest done =>
      show task ::ₘ done + (rest + W.children task).bind W.tree =
        done + (task ::ₘ rest).bind W.tree
      rw [Multiset.cons_bind, tree_eq, Multiset.add_bind]
      simp only [← Multiset.singleton_add]
      ac_rfl

theorem total_invariant (initial : Multiset α) :
    (W.system initial).Invariant (fun s => W.total s = initial.bind W.tree) where
  init := by
    rintro s rfl
    exact Multiset.zero_add _
  step hs hstep := (W.total_step hstep).trans hs

/-- What is done or pending is part of the whole tree. -/
theorem done_add_pending_le {s : State α} (h : (W.system initial).Reachable s) :
    s.done + s.pending ≤ initial.bind W.tree := by
  have htotal := (W.total_invariant initial).holds h
  rw [← htotal]
  exact Multiset.add_le_add_left (W.le_bind_tree s.pending)

/-- A drained run has done exactly the whole tree, in whatever order. -/
theorem done_of_drained {s : State α} (h : (W.system initial).Reachable s)
    (hdrained : s.pending = 0) : s.done = initial.bind W.tree := by
  have htotal := (W.total_invariant initial).holds h
  rw [← htotal, total, hdrained, Multiset.zero_bind, Multiset.add_zero]

end Worklist

end CdvizCollector.Lib
