import CdvizCollector.Lib.Result

/-!
Computations that may fail and that leave a trace of what they did.

The trace is kept when they fail. Of a computation put together from others two
things are known: when it succeeds, and what its trace then holds.
-/

namespace CdvizCollector.Lib

structure Traced (ε τ α : Type) where
  trace : List τ
  result : Except ε α

namespace Traced

variable {ε ε' τ α β : Type}

def fail (e : ε) : Traced ε τ α := ⟨[], .error e⟩

def emit (x : τ) : Traced ε τ Unit := ⟨[x], .ok ()⟩

/-- What does nothing to leave a trace of. -/
def ofExcept (result : Except ε α) : Traced ε τ α := ⟨[], result⟩

def mapError (f : ε → ε') (m : Traced ε τ α) : Traced ε' τ α := ⟨m.trace, m.result.mapError f⟩

instance : Monad (Traced ε τ) where
  pure a := ⟨[], .ok a⟩
  bind m f :=
    match m.result with
    | .error e => ⟨m.trace, .error e⟩
    | .ok a => ⟨m.trace ++ (f a).trace, (f a).result⟩

@[simp] theorem trace_pure (a : α) : (pure a : Traced ε τ α).trace = [] := rfl

@[simp] theorem result_pure (a : α) : (pure a : Traced ε τ α).result = .ok a := rfl

theorem emit_bind (x : τ) (f : Unit → Traced ε τ β) :
    emit x >>= f = ⟨x :: (f ()).trace, (f ()).result⟩ := rfl

@[simp] theorem trace_ofExcept (result : Except ε α) :
    (ofExcept result : Traced ε τ α).trace = [] := rfl

theorem ofExcept_mapError_eq_ok_iff {x : Except ε α} {f : ε → ε'} {a : α} :
    (ofExcept (x.mapError f) : Traced ε' τ α).result = .ok a ↔ x = .ok a :=
  mapError_eq_ok_iff

theorem bind_of_ok {m : Traced ε τ α} {a : α} (h : m.result = .ok a) (f : α → Traced ε τ β) :
    m >>= f = ⟨m.trace ++ (f a).trace, (f a).result⟩ := by
  show (match m.result with
    | .error e => (⟨m.trace, .error e⟩ : Traced ε τ β)
    | .ok a => ⟨m.trace ++ (f a).trace, (f a).result⟩) = _
  rw [h]

theorem bind_of_error {m : Traced ε τ α} {e : ε} (h : m.result = .error e)
    (f : α → Traced ε τ β) : m >>= f = ⟨m.trace, .error e⟩ := by
  show (match m.result with
    | .error e => (⟨m.trace, .error e⟩ : Traced ε τ β)
    | .ok a => ⟨m.trace ++ (f a).trace, (f a).result⟩) = _
  rw [h]

theorem result_bind_eq_ok_iff {m : Traced ε τ α} {f : α → Traced ε τ β} {b : β} :
    (m >>= f).result = .ok b ↔ ∃ a, m.result = .ok a ∧ (f a).result = .ok b := by
  cases h : m.result with
  | error e => simp [bind_of_error h]
  | ok a => simp [bind_of_ok h]

theorem mem_trace_bind {m : Traced ε τ α} {a : α} (h : m.result = .ok a)
    {f : α → Traced ε τ β} {x : τ} :
    x ∈ (m >>= f).trace ↔ x ∈ m.trace ∨ x ∈ (f a).trace := by
  rw [bind_of_ok h]
  exact List.mem_append

theorem map_id (m : Traced ε τ α) : id <$> m = m := by
  show m >>= (fun a => pure (id a)) = m
  cases h : m.result with
  | error e => rw [bind_of_error h, ← h]
  | ok a => rw [bind_of_ok h, id_eq, result_pure, trace_pure, List.append_nil, ← h]

theorem bind_assoc {γ : Type} (m : Traced ε τ α) (f : α → Traced ε τ β) (g : β → Traced ε τ γ) :
    m >>= f >>= g = m >>= fun a => f a >>= g := by
  cases h : m.result with
  | error e => rw [bind_of_error h, bind_of_error h, bind_of_error rfl]
  | ok a =>
      have hinner : (m >>= f).result = (f a).result := by rw [bind_of_ok h]
      have htrace : (m >>= f).trace = m.trace ++ (f a).trace := by rw [bind_of_ok h]
      rw [bind_of_ok h (fun a => f a >>= g)]
      cases hf : (f a).result with
      | error e => rw [bind_of_error (hinner.trans hf), htrace, bind_of_error hf]
      | ok b => rw [bind_of_ok (hinner.trans hf), htrace, bind_of_ok hf, List.append_assoc]

instance : LawfulMonad (Traced ε τ) :=
  LawfulMonad.mk' _ map_id (fun _ _ => rfl) bind_assoc

/-! ### Lists -/

theorem mapM_ok_iff {f : α → Traced ε τ β} {l : List α} :
    (∃ bs, (l.mapM f).result = .ok bs) ↔ ∀ a ∈ l, ∃ b, (f a).result = .ok b := by
  induction l with
  | nil => simp
  | cons a l ih =>
      rw [List.forall_mem_cons, ← ih, List.mapM_cons]
      simp only [result_bind_eq_ok_iff, result_pure]
      constructor
      · rintro ⟨-, b, hb, bs, hbs, -⟩
        exact ⟨⟨b, hb⟩, bs, hbs⟩
      · rintro ⟨⟨b, hb⟩, bs, hbs⟩
        exact ⟨b :: bs, b, hb, bs, hbs, rfl⟩

theorem mem_trace_mapM {f : α → Traced ε τ β} {l : List α} {bs : List β}
    (h : (l.mapM f).result = .ok bs) {x : τ} :
    x ∈ (l.mapM f).trace ↔ ∃ a ∈ l, x ∈ (f a).trace := by
  induction l generalizing bs with
  | nil => simp
  | cons a l ih =>
      rw [List.mapM_cons] at h ⊢
      obtain ⟨b, hb, hrest⟩ := result_bind_eq_ok_iff.mp h
      obtain ⟨bs, hbs, -⟩ := result_bind_eq_ok_iff.mp hrest
      rw [mem_trace_bind hb, mem_trace_bind hbs, ih hbs]
      simp

/-- The results stand beside what they are the results of. -/
theorem forall₂_of_mapM {f : α → Traced ε τ β} {l : List α} {bs : List β}
    (h : (l.mapM f).result = .ok bs) : List.Forall₂ (fun a b => (f a).result = .ok b) l bs := by
  induction l generalizing bs with
  | nil =>
      cases h
      exact .nil
  | cons a l ih =>
      rw [List.mapM_cons] at h
      obtain ⟨b, hb, hrest⟩ := result_bind_eq_ok_iff.mp h
      obtain ⟨bs, hbs, hcons⟩ := result_bind_eq_ok_iff.mp hrest
      cases hcons
      exact .cons hb (ih hbs)

/-- Where no step fails, every step leaves its own trace. -/
theorem forM_of_steps {f : α → Traced ε τ PUnit} {g : α → List τ} {l : List α}
    (h : ∀ a ∈ l, f a = ⟨g a, .ok ⟨⟩⟩) : l.forM f = ⟨l.flatMap g, .ok ⟨⟩⟩ := by
  induction l with
  | nil => rfl
  | cons a l ih =>
      rw [List.forall_mem_cons] at h
      rw [List.forM_eq_forM, List.forM_cons, bind_of_ok (congrArg result h.1), h.1]
      rw [List.forM_eq_forM] at ih
      rw [ih h.2, List.flatMap_cons]

end Traced

end CdvizCollector.Lib
