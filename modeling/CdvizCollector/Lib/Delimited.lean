import Mathlib.Data.List.Basic

/-!
Values in front of a text, each ended by a separator.

When no value contains the separator, the text determines the values up to where
it was cut: two such texts are equal exactly when the values of one begin the
values of the other and what follows them there begins the other's rest.
-/

namespace CdvizCollector.Lib

variable {α : Type} {sep : α}

/-- Each value, then the separator; at last the rest. -/
def delimited (sep : α) (values : List (List α)) (rest : List α) : List α :=
  values.flatMap (fun value => value ++ [sep]) ++ rest

@[simp] theorem delimited_nil (rest : List α) : delimited sep [] rest = rest := rfl

@[simp] theorem delimited_cons (value : List α) (values : List (List α)) (rest : List α) :
    delimited sep (value :: values) rest = value ++ sep :: delimited sep values rest := by
  simp [delimited]

theorem delimited_append (values extra : List (List α)) (rest : List α) :
    delimited sep (values ++ extra) rest = delimited sep values (delimited sep extra rest) := by
  simp [delimited]

/-- A value ends at the first separator. -/
theorem append_separator_inj {value value' rest rest' : List α} (h : sep ∉ value)
    (h' : sep ∉ value') :
    value ++ sep :: rest = value' ++ sep :: rest' ↔ value = value' ∧ rest = rest' := by
  constructor
  · intro heq
    induction value generalizing value' with
    | nil =>
        cases value' with
        | nil => exact ⟨rfl, List.tail_eq_of_cons_eq heq⟩
        | cons b value' =>
            rw [List.head_eq_of_cons_eq heq] at h'
            exact absurd List.mem_cons_self h'
    | cons a value ih =>
        rw [List.mem_cons, not_or] at h
        cases value' with
        | nil => exact absurd (List.head_eq_of_cons_eq heq).symm h.1
        | cons b value' =>
            rw [List.mem_cons, not_or] at h'
            obtain ⟨hvalue, hrest⟩ := ih h.2 h'.2 (List.tail_eq_of_cons_eq heq)
            exact ⟨by rw [List.head_eq_of_cons_eq heq, hvalue], hrest⟩
  · rintro ⟨rfl, rfl⟩
    rfl

/-- The values of the first text begin those of the second, whose others begin the
rest of the first. -/
def Cut (sep : α) (values : List (List α)) (rest : List α) (values' : List (List α))
    (rest' : List α) : Prop :=
  ∃ extra, values' = values ++ extra ∧ rest = delimited sep extra rest'

theorem delimited_eq_iff {values values' : List (List α)} {rest rest' : List α}
    (h : ∀ value ∈ values, sep ∉ value) (h' : ∀ value ∈ values', sep ∉ value) :
    delimited sep values rest = delimited sep values' rest' ↔
      Cut sep values rest values' rest' ∨ Cut sep values' rest' values rest := by
  constructor
  · intro heq
    -- both lists at once, until one of them ends
    induction values generalizing values' with
    | nil => exact .inl ⟨values', rfl, heq⟩
    | cons value values ih =>
        cases values' with
        | nil => exact .inr ⟨value :: values, rfl, heq.symm⟩
        | cons value' values' =>
            rw [List.forall_mem_cons] at h h'
            rw [delimited_cons, delimited_cons, append_separator_inj h.1 h'.1] at heq
            obtain ⟨rfl, htail⟩ := heq
            rcases ih h.2 h'.2 htail with ⟨extra, rfl, hrest⟩ | ⟨extra, rfl, hrest⟩
            · exact .inl ⟨extra, rfl, hrest⟩
            · exact .inr ⟨extra, rfl, hrest⟩
  · rintro (⟨extra, rfl, rfl⟩ | ⟨extra, rfl, rfl⟩)
    · rw [delimited_append]
    · rw [delimited_append]

/-- As many values on both sides leave no room for a cut. -/
theorem Cut.eq_of_length {values values' : List (List α)} {rest rest' : List α}
    (h : Cut sep values rest values' rest') (hlength : values.length = values'.length) :
    values = values' ∧ rest = rest' := by
  obtain ⟨extra, rfl, rfl⟩ := h
  have hextra : extra = [] := by
    rw [List.length_append] at hlength
    exact List.eq_nil_of_length_eq_zero (by omega)
  subst hextra
  exact ⟨(List.append_nil values).symm, rfl⟩

/-- What is read for each key, and for as many of them. -/
theorem forall_eq_of_filterMap_eq {κ β : Type} {f g : κ → Option β} {keys : List κ}
    (h : keys.filterMap f = keys.filterMap g)
    (hsome : ∀ key ∈ keys, (f key).isSome = (g key).isSome) :
    ∀ key ∈ keys, f key = g key := by
  induction keys with
  | nil => simp
  | cons key keys ih =>
      rw [List.forall_mem_cons] at hsome ⊢
      cases hf : f key with
      | none =>
          have hg : g key = none := by simpa [hf] using hsome.1
          rw [List.filterMap_cons_none hf, List.filterMap_cons_none hg] at h
          exact ⟨hg.symm, ih h hsome.2⟩
      | some b =>
          obtain ⟨c, hg⟩ := Option.isSome_iff_exists.mp (by rw [← hsome.1, hf]; rfl)
          rw [List.filterMap_cons_some hf, List.filterMap_cons_some hg] at h
          exact ⟨by rw [hg, List.head_eq_of_cons_eq h], ih (List.tail_eq_of_cons_eq h) hsome.2⟩

theorem length_filterMap_eq {κ β : Type} {f g : κ → Option β} {keys : List κ}
    (h : ∀ key ∈ keys, (f key).isSome = (g key).isSome) :
    (keys.filterMap f).length = (keys.filterMap g).length := by
  rw [List.length_filterMap_eq_countP, List.length_filterMap_eq_countP]
  exact List.countP_congr fun key hkey => by rw [h key hkey]

end CdvizCollector.Lib
