import Mathlib.Data.List.Basic
import Mathlib.Data.List.Forall2

/-!
Computations that may fail.

Of one that is put together from others, what is known when it succeeds.
-/

namespace CdvizCollector.Lib

variable {ε ε' α β γ : Type}

theorem bind_eq_ok_iff {x : Except ε α} {f : α → Except ε β} {b : β} :
    x >>= f = .ok b ↔ ∃ a, x = .ok a ∧ f a = .ok b := by
  cases x with
  | error e => exact iff_of_false (by rintro ⟨⟩) (by rintro ⟨_, ⟨⟩, _⟩)
  | ok a => exact ⟨fun h => ⟨a, rfl, h⟩, by rintro ⟨_, ⟨⟩, h⟩; exact h⟩

theorem bind_pure_eq_ok_iff {x : Except ε α} {f : α → β} {b : β} :
    (x >>= fun a => pure (f a)) = .ok b ↔ ∃ a, x = .ok a ∧ f a = b := by
  cases x <;> simp [bind, Except.bind, pure, Except.pure]

theorem map_eq_ok {f : α → β} {x : Except ε α} {b : β}
    (h : f <$> x = .ok b) : ∃ a, x = .ok a ∧ f a = b := by
  cases x with
  | error e => cases h
  | ok a => cases h; exact ⟨a, rfl, rfl⟩

/-- Another error does not make a success of a failure. -/
theorem mapError_eq_ok_iff {f : ε → ε'} {x : Except ε α} {a : α} :
    x.mapError f = .ok a ↔ x = .ok a := by
  cases x <;> simp [Except.mapError]

theorem mapM_cons_eq_ok {f : α → Except ε β} {a : α} {l : List α} {bs : List β}
    (h : (a :: l).mapM f = .ok bs) :
    ∃ b rest, f a = .ok b ∧ l.mapM f = .ok rest ∧ bs = b :: rest := by
  rw [List.mapM_cons] at h
  cases ha : f a with
  | error e => rw [ha] at h; cases h
  | ok b =>
      cases hl : l.mapM f with
      | error e => rw [ha, hl] at h; cases h
      | ok rest =>
          rw [ha, hl] at h
          cases h
          exact ⟨b, rest, rfl, rfl, rfl⟩

theorem forall₂_of_mapM_eq_ok {f : α → Except ε β} {l : List α} :
    ∀ {bs : List β}, l.mapM f = .ok bs → List.Forall₂ (fun a b => f a = .ok b) l bs := by
  induction l with
  | nil =>
      intro bs h
      rw [← Except.ok.inj h]
      exact List.Forall₂.nil
  | cons a l ih =>
      intro bs h
      obtain ⟨b, rest, hb, hrest, rfl⟩ := mapM_cons_eq_ok h
      exact List.Forall₂.cons hb (ih hrest)

/-- A part of the results that shows in what they are made from. -/
theorem map_of_mapM_eq_ok {f : α → Except ε β} {g : α → γ} {k : β → γ}
    (hk : ∀ a b, f a = .ok b → k b = g a) {l : List α} {bs : List β}
    (h : l.mapM f = .ok bs) : bs.map k = l.map g := by
  have hmaps : List.Forall₂ (· = ·) (bs.map k) (l.map g) :=
    List.forall₂_map_left_iff.mpr (List.forall₂_map_right_iff.mpr
      ((forall₂_of_mapM_eq_ok h).imp fun a b hb => hk a b hb).flip)
  rwa [List.forall₂_eq_eq_eq] at hmaps

theorem exists_mapM_eq_ok {f : α → Except ε β} {l : List α}
    (h : ∀ a ∈ l, ∃ b, f a = .ok b) : ∃ bs, l.mapM f = .ok bs := by
  induction l with
  | nil => exact ⟨[], rfl⟩
  | cons a l ih =>
      obtain ⟨⟨b, hb⟩, hl⟩ := List.forall_mem_cons.mp h
      obtain ⟨bs, hbs⟩ := ih hl
      refine ⟨b :: bs, ?_⟩
      rw [List.mapM_cons, hb, hbs]
      rfl

theorem forM_eq_ok_iff {f : α → Except ε Unit} {l : List α} :
    l.forM f = .ok () ↔ ∀ a ∈ l, f a = .ok () := by
  induction l with
  | nil => exact iff_of_true rfl (List.forall_mem_nil _)
  | cons a l ih =>
      rw [List.forall_mem_cons, ← ih]
      refine Iff.trans (b := ∃ u, f a = .ok u ∧ l.forM f = .ok ()) bind_eq_ok_iff ?_
      exact ⟨fun ⟨_, h⟩ => h, fun h => ⟨(), h⟩⟩

/-! ### The first of several errors -/

/-- A result, unless there are errors: then the first. -/
def failFirst (errors : List ε) (a : α) : Except ε α :=
  match errors with
  | [] => .ok a
  | e :: _ => .error e

theorem failFirst_eq_ok_iff {errors : List ε} {a b : α} :
    failFirst errors a = .ok b ↔ errors = [] ∧ a = b := by
  cases errors with
  | nil => simp [failFirst]
  | cons e errors => simp [failFirst]

theorem failFirst_eq_error_iff {errors : List ε} {a : α} {e : ε} :
    failFirst errors a = .error e ↔ errors.head? = some e := by
  cases errors with
  | nil => simp [failFirst]
  | cons e' errors => simp [failFirst]

theorem failFirst_bind {errors errors' : List ε} {a : α} {f : α → β} {x : α → Except ε β}
    (h : x a = failFirst errors' (f a)) :
    (failFirst errors a >>= x) = failFirst (errors ++ errors') (f a) := by
  cases errors with
  | nil => exact h
  | cons e errors => rfl

theorem failFirst_map {errors : List ε} {a : α} {f : α → β} :
    (failFirst errors a >>= fun a => pure (f a)) = failFirst errors (f a) := by
  cases errors <;> rfl

theorem mapM_failFirst {f : γ → Except ε β} {errors : γ → List ε} {g : γ → β}
    (h : ∀ c, f c = failFirst (errors c) (g c)) (l : List γ) :
    l.mapM f = failFirst (l.flatMap errors) (l.map g) := by
  induction l with
  | nil => rfl
  | cons c l ih =>
      rw [List.mapM_cons, h c, List.flatMap_cons, List.map_cons]
      refine failFirst_bind (f := fun b => b :: l.map g) ?_
      rw [ih]
      exact failFirst_map

end CdvizCollector.Lib
