import Mathlib.Data.List.Infix

/-!
Removal of the occurrences of a pattern from a text, from left to right.

Where no proper part of the pattern is both its beginning and its end, two occurrences
never overlap: all of them are removed, and what stands before and after one can be looked
at alone.
-/

namespace CdvizCollector.Lib.Removal

variable {α : Type} [DecidableEq α]

/-- What is left when an occurrence has `skip` elements that are still to come. -/
def removeFrom (pattern : List α) : ℕ → List α → List α
  | _, [] => []
  | skip + 1, _ :: rest => removeFrom pattern skip rest
  | 0, a :: rest =>
      if pattern.isPrefixOf (a :: rest) then removeFrom pattern (pattern.length - 1) rest
      else a :: removeFrom pattern 0 rest

/-- `str::replace` with nothing in the place of a pattern. -/
def removeAll (pattern text : List α) : List α := removeFrom pattern 0 text

theorem removeFrom_eq_drop (pattern : List α) (skip : ℕ) (text : List α) :
    removeFrom pattern skip text = removeAll pattern (text.drop skip) := by
  induction text generalizing skip with
  | nil =>
      rw [List.drop_nil]
      cases skip <;> rfl
  | cons a rest ih =>
      cases skip with
      | zero => rfl
      | succ skip => exact ih skip

@[simp] theorem removeAll_nil (pattern : List α) : removeAll pattern [] = [] := rfl

theorem removeAll_cons_of_not_first {pattern rest : List α} {a : α}
    (h : ¬ pattern <+: a :: rest) :
    removeAll pattern (a :: rest) = a :: removeAll pattern rest := by
  rw [removeAll, removeFrom, if_neg (by rwa [List.isPrefixOf_iff_prefix])]
  rfl

theorem removeAll_append_left {pattern : List α} (hne : pattern ≠ []) (rest : List α) :
    removeAll pattern (pattern ++ rest) = removeAll pattern rest := by
  obtain ⟨a, tail, rfl⟩ := List.exists_cons_of_ne_nil hne
  have hfirst : (a :: tail).isPrefixOf (a :: tail ++ rest) = true :=
    List.isPrefixOf_iff_prefix.mpr (List.prefix_append _ _)
  rw [removeAll, List.cons_append, removeFrom, ← List.cons_append, if_pos hfirst,
    removeFrom_eq_drop, List.length_cons, Nat.add_sub_cancel, List.drop_left]

/-- What has no occurrence stays as it is. -/
theorem removeAll_of_not_occurs {pattern text : List α} (h : ¬ pattern <:+: text) :
    removeAll pattern text = text := by
  induction text with
  | nil => rfl
  | cons a rest ih =>
      have hfirst : ¬ pattern <+: a :: rest := fun hfirst => h hfirst.isInfix
      have hrest : ¬ pattern <:+: rest := fun hoccurs =>
        h (hoccurs.trans (List.suffix_cons a rest).isInfix)
      rw [removeAll_cons_of_not_first hfirst, ih hrest]

theorem length_removeAll_le (pattern text : List α) :
    (removeAll pattern text).length ≤ text.length := by
  suffices hfrom : ∀ skip, (removeFrom pattern skip text).length ≤ text.length from hfrom 0
  induction text with
  | nil =>
      intro skip
      cases skip <;> exact Nat.le_refl _
  | cons a rest ih =>
      intro skip
      cases skip with
      | zero =>
          rw [removeFrom, List.length_cons]
          split
          · have := ih (pattern.length - 1)
            omega
          · have := ih 0
            rw [List.length_cons]
            omega
      | succ skip =>
          have := ih skip
          rw [removeFrom, List.length_cons]
          omega

/-- An occurrence is removed with all it has. -/
theorem length_removeAll_of_infix {pattern text : List α} (hne : pattern ≠ [])
    (h : pattern <:+: text) :
    (removeAll pattern text).length + pattern.length ≤ text.length := by
  induction text with
  | nil => exact absurd (List.infix_nil.mp h) hne
  | cons a rest ih =>
      by_cases hfirst : pattern <+: a :: rest
      · obtain ⟨tail, htail⟩ := hfirst
        have hle := length_removeAll_le pattern tail
        rw [← htail, removeAll_append_left hne, List.length_append]
        omega
      · have hrest : pattern <:+: rest := (List.infix_cons_iff.mp h).resolve_left hfirst
        have := ih hrest
        rw [removeAll_cons_of_not_first hfirst, List.length_cons, List.length_cons]
        omega

/-! ### Patterns that do not overlap themselves -/

/-- No part of it but the whole is both its beginning and its end. -/
def Borderless (pattern : List α) : Prop :=
  ∀ border ∈ pattern.tails, border <+: pattern → border = [] ∨ border = pattern

instance (pattern : List α) : Decidable (Borderless pattern) := List.decidableBAll ..

omit [DecidableEq α] in
/-- An occurrence that starts before another one ends before it, too. -/
theorem Borderless.prefix_of_append {pattern front back : List α} (h : Borderless pattern)
    (hfront : front ≠ []) (hfirst : pattern <+: front ++ (pattern ++ back)) :
    pattern <+: front := by
  rcases Nat.le_total pattern.length front.length with hle | hle
  · exact (List.prefix_append_right_inj []).mp (by
      simpa using List.prefix_of_prefix_length_le hfirst (List.prefix_append _ _) hle)
  · -- otherwise the two would share what ends the one and begins the other
    obtain ⟨border, hborder⟩ :=
      List.prefix_of_prefix_length_le (List.prefix_append _ _) hfirst hle
    have hsuffix : border ∈ pattern.tails := (List.mem_tails _ _).mpr ⟨front, hborder⟩
    have hbegin : border <+: pattern := by
      have hafter : border <+: pattern ++ back := by
        rw [← hborder] at hfirst
        exact (List.prefix_append_right_inj front).mp (hborder ▸ hfirst)
      refine List.prefix_of_prefix_length_le hafter (List.prefix_append _ _) ?_
      rw [← hborder, List.length_append]
      omega
    rcases h border hsuffix hbegin with rfl | rfl
    · rw [List.append_nil] at hborder
      rw [hborder]
    · exact absurd (List.append_left_eq_self.mp hborder) hfront

/-- The text around an occurrence is looked at part by part. -/
theorem Borderless.removeAll_append {pattern : List α} (h : Borderless pattern)
    (hne : pattern ≠ []) (front back : List α) :
    removeAll pattern (front ++ (pattern ++ back)) =
      removeAll pattern front ++ removeAll pattern back := by
  induction hlen : front.length using Nat.strongRecOn generalizing front with
  | ind n ih =>
      cases front with
      | nil => rw [List.nil_append, removeAll_append_left hne, removeAll_nil, List.nil_append]
      | cons a rest =>
          by_cases hfirst : pattern <+: a :: rest ++ (pattern ++ back)
          · -- the first occurrence ends in front of the one in the middle
            obtain ⟨tail, htail⟩ := h.prefix_of_append (List.cons_ne_nil a rest) hfirst
            have hshort : tail.length < n := by
              rw [← hlen, ← htail, List.length_append]
              have := List.length_pos_of_ne_nil hne
              omega
            rw [← htail, List.append_assoc, removeAll_append_left hne, removeAll_append_left hne]
            exact ih tail.length hshort tail rfl
          · have hfront : ¬ pattern <+: a :: rest := fun hfront =>
              hfirst (hfront.trans (List.prefix_append _ _))
            rw [List.cons_append] at hfirst ⊢
            rw [removeAll_cons_of_not_first hfirst, removeAll_cons_of_not_first hfront,
              List.cons_append]
            congr 1
            refine ih rest.length ?_ rest rfl
            rw [← hlen, List.length_cons]
            omega

omit [DecidableEq α] in
/-- An occurrence in what ends with one, and has no other, is the one at the end. -/
theorem Borderless.back_eq_nil {pattern text front back : List α} (h : Borderless pattern)
    (htext : ¬ pattern <:+: text) (heq : text ++ pattern = front ++ (pattern ++ back)) :
    back = [] := by
  rcases List.append_eq_append_iff.mp heq with ⟨rest, rfl, hrest⟩ | ⟨rest, rfl, hrest⟩
  · have hlength := congrArg List.length hrest
    simp only [List.length_append] at hlength
    exact List.length_eq_zero_iff.mp (by omega)
  · by_cases hnil : rest = []
    · rw [hnil, List.nil_append] at hrest
      exact List.append_right_eq_self.mp hrest
    · have hfirst : pattern <+: rest ++ (pattern ++ []) := by
        rw [List.append_nil, ← hrest]
        exact List.prefix_append _ _
      have hoccurs := (h.prefix_of_append hnil hfirst).isInfix
      exact absurd (hoccurs.trans (List.suffix_append front rest).isInfix) htext

end CdvizCollector.Lib.Removal
