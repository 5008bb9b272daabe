import Mathlib.Data.List.DropRight
import Mathlib.Data.List.Nodup

/-!
A queue of the last elements of a sequence.

Adding to a full queue drops its oldest element first. If only elements are added
that the queue does not hold, none of them occurs twice within the length of the
queue.
-/

namespace CdvizCollector.Lib.Recent

universe u

variable {α : Type u} {n : ℕ} {l : List α} {a : α}

/-- The last `n + 1` elements of `l`, with one more added, as a queue has them. -/
theorem rtake_concat (n : ℕ) (l : List α) (a : α) :
    (l ++ [a]).rtake (n + 1) =
      (if n + 1 ≤ (l.rtake (n + 1)).length then (l.rtake (n + 1)).drop 1
        else l.rtake (n + 1)) ++ [a] := by
  rw [List.rtake_concat_succ]
  congr 1
  unfold List.rtake
  rw [List.length_drop, List.drop_drop]
  split
  · congr 1
    omega
  · congr 1
    omega

theorem length_rtake (n : ℕ) (l : List α) : (l.rtake n).length = min n l.length := by
  unfold List.rtake
  rw [List.length_drop]
  omega

/-- No element occurs twice among `n` consecutive ones. -/
def Spread (n : ℕ) (l : List α) : Prop := ∀ i, ((l.drop i).take n).Nodup

theorem spread_nil (n : ℕ) : Spread n ([] : List α) := by
  intro i
  simp

theorem Spread.rtake (h : Spread n l) : (l.rtake n).Nodup := by
  have hwindow := h (l.length - n)
  rw [List.take_of_length_le (by rw [List.length_drop]; omega)] at hwindow
  exact hwindow

theorem Spread.concat (h : Spread n l) (ha : a ∉ l.rtake n) : Spread n (l ++ [a]) := by
  intro i
  rcases Nat.lt_or_ge l.length (i + n) with hlast | hearlier
  · -- the window reaches to the new element, and the rest of it is in the queue
    rcases Nat.lt_or_ge l.length i with hpast | hle
    · rw [List.drop_of_length_le (by rw [List.length_append]; exact hpast)]
      simp
    · have hsuffix : l.drop i <:+ l.rtake n := by
        unfold List.rtake
        apply List.drop_suffix_drop_left
        omega
      have hnodup : (l.drop i).Nodup := hsuffix.sublist.nodup h.rtake
      have hnew : a ∉ l.drop i := fun hmem => ha (hsuffix.subset hmem)
      rw [List.drop_append_of_le_length hle]
      apply (List.take_sublist _ _).nodup
      rw [List.nodup_append]
      exact ⟨hnodup, List.nodup_singleton a, by
        rintro b hb c hc rfl
        exact hnew (List.mem_singleton.mp hc ▸ hb)⟩
  · rw [List.drop_append_of_le_length (by omega),
      List.take_append_of_le_length (by rw [List.length_drop]; omega)]
    exact h i

end CdvizCollector.Lib.Recent
