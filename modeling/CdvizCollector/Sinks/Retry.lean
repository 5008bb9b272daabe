import Mathlib.Data.List.Basic

/-!
How the database sinks repeat a call (`sinks/retry.rs`).

`retry_on_transient` repeats one operation, and a store that could not insert a
chunk in one call runs it once for each item. What the database answers is left
open, and so is how often the policy lets a call be repeated: both are given for
every call and every chain of calls. The log of the calls grows by one chain
after the other, and the last call of a chain decides what comes of it.
-/

namespace CdvizCollector.Sinks.Retry

variable {σ γ ε α : Type}

/-! ### The loops -/

/-- `retry_on_transient`; the policy decides `retries` times to retry. -/
def retryOnTransient (isTransient : ε → Bool) (operation : σ → Except ε Unit × σ) :
    ℕ → σ → Except ε Unit × σ
  | 0, s => operation s
  | retries + 1, s =>
      match operation s with
      | (.ok (), s) => (.ok (), s)
      | (.error err, s) =>
          if !isTransient err then (.error err, s)
          else retryOnTransient isTransient operation retries s

/-- The loop over the items of a chunk that `store` falls back to. The operations
are the chains `i`, `i + 1` and so on. -/
def oneByOne (isTransient : ε → Bool) (operation : ℕ → α → σ → Except ε Unit × σ)
    (retries : ℕ → ℕ) : ℕ → List α → σ → Bool × σ
  | _, [], s => (true, s)
  | i, item :: items, s =>
      match retryOnTransient isTransient (operation i item) (retries i) s with
      | (.ok (), s) => oneByOne isTransient operation retries (i + 1) items s
      | (.error err, s) =>
          if isTransient err then (false, s)
          else oneByOne isTransient operation retries (i + 1) items s

/-- Whether a result is a transient error. -/
def transient (isTransient : ε → Bool) : Except ε Unit → Bool
  | .ok () => false
  | .error err => isTransient err

section

variable {isTransient : ε → Bool} {operation : σ → Except ε Unit × σ} {s : σ}

theorem retryOnTransient_of_not_transient
    (h : transient isTransient (operation s).1 = false) (retries : ℕ) :
    retryOnTransient isTransient operation retries s = operation s := by
  cases retries with
  | zero => rfl
  | succ retries =>
      rcases hcall : operation s with ⟨⟨err⟩ | ⟨⟨⟩⟩, t⟩ <;> rw [hcall] at h
      · simp only [retryOnTransient, hcall]
        rw [show isTransient err = false from h]
        rfl
      · simp only [retryOnTransient, hcall]

theorem retryOnTransient_of_transient
    (h : transient isTransient (operation s).1 = true) (retries : ℕ) :
    retryOnTransient isTransient operation (retries + 1) s =
      retryOnTransient isTransient operation retries (operation s).2 := by
  rcases hcall : operation s with ⟨⟨err⟩ | ⟨⟨⟩⟩, t⟩ <;> rw [hcall] at h
  · simp only [retryOnTransient, hcall]
    rw [show isTransient err = true from h]
    rfl
  · cases h

/-- The last call decides. -/
theorem retryOnTransient_eq (isTransient : ε → Bool) (operation : σ → Except ε Unit × σ)
    (retries : ℕ) (s : σ) :
    ∃ t, retryOnTransient isTransient operation retries s = operation t := by
  induction retries generalizing s with
  | zero => exact ⟨s, rfl⟩
  | succ retries ih =>
      cases h : transient isTransient (operation s).1 with
      | false => exact ⟨s, retryOnTransient_of_not_transient h _⟩
      | true =>
          rw [retryOnTransient_of_transient h]
          exact ih _

end

section

variable {isTransient : ε → Bool} {operation : ℕ → α → σ → Except ε Unit × σ} {retries : ℕ → ℕ}
  {i : ℕ} {item : α} {s : σ}

theorem oneByOne_of_transient
    (h : transient isTransient
      (retryOnTransient isTransient (operation i item) (retries i) s).1 = true) (items : List α) :
    oneByOne isTransient operation retries i (item :: items) s =
      (false, (retryOnTransient isTransient (operation i item) (retries i) s).2) := by
  rcases hcall : retryOnTransient isTransient (operation i item) (retries i) s with
    ⟨⟨err⟩ | ⟨⟨⟩⟩, t⟩ <;> rw [hcall] at h
  · simp only [oneByOne, hcall]
    exact if_pos h
  · cases h

theorem oneByOne_of_not_transient
    (h : transient isTransient
      (retryOnTransient isTransient (operation i item) (retries i) s).1 = false) (items : List α) :
    oneByOne isTransient operation retries i (item :: items) s =
      oneByOne isTransient operation retries (i + 1) items
        (retryOnTransient isTransient (operation i item) (retries i) s).2 := by
  rcases hcall : retryOnTransient isTransient (operation i item) (retries i) s with
    ⟨⟨err⟩ | ⟨⟨⟩⟩, t⟩ <;> rw [hcall] at h
  · simp only [oneByOne, hcall]
    exact if_neg (by simpa [transient] using h)
  · simp only [oneByOne, hcall]

end

/-! ### The log of the calls -/

structure Attempt (γ ε : Type) where
  chain : ℕ
  call : γ
  answer : Except ε Unit
deriving DecidableEq

/-- The answer to each call, and how often each chain of calls may be repeated. -/
structure Server (ε : Type) where
  answer : ℕ → Except ε Unit
  retries : ℕ → ℕ

/-- The last call of a chain. -/
def lastOf (log : List (Attempt γ ε)) (i : ℕ) : Option (Attempt γ ε) :=
  (log.filter (·.chain == i)).getLast?

variable {isTransient : ε → Bool} {log : σ → List (Attempt γ ε)}

/-- The operation adds calls of the chain `i` to the log, and the last of them
failed as the operation did. -/
structure Chained (isTransient : ε → Bool) (log : σ → List (Attempt γ ε)) (i : ℕ) (s : σ)
    (result : Except ε Unit) (t : σ) (calls : List (Attempt γ ε)) : Prop where
  grown : log t = log s ++ calls
  chain : ∀ a ∈ calls, a.chain = i
  last : ∃ a, calls.getLast? = some a ∧
    transient isTransient a.answer = transient isTransient result

/-- The same of chains numbered from `i` on: none of them ended with a transient
error unless the items are kept, and then the last call of all did. -/
structure Series (isTransient : ε → Bool) (i : ℕ) (calls : List (Attempt γ ε)) (done : Bool) :
    Prop where
  chain : ∀ a ∈ calls, i ≤ a.chain
  ended : ∀ j a, lastOf calls j = some a → transient isTransient a.answer = true → done = false
  last : done = false → ∃ a, calls.getLast? = some a ∧ transient isTransient a.answer = true

/-- One call is a chain of its own. -/
theorem Chained.single {i : ℕ} {s t : σ} {a : Attempt γ ε} {result : Except ε Unit}
    (hgrown : log t = log s ++ [a]) (hchain : a.chain = i)
    (hresult : transient isTransient a.answer = transient isTransient result) :
    Chained isTransient log i s result t [a] :=
  ⟨hgrown, by simpa using hchain, a, rfl, hresult⟩

theorem Chained.prepend {i : ℕ} {s t u : σ} {result : Except ε Unit}
    {calls more : List (Attempt γ ε)} (h : Chained isTransient log i t result u more)
    (hgrown : log t = log s ++ calls) (hchain : ∀ a ∈ calls, a.chain = i) :
    Chained isTransient log i s result u (calls ++ more) where
  grown := by rw [h.grown, hgrown, List.append_assoc]
  chain a ha := (List.mem_append.mp ha).elim (hchain a) (h.chain a)
  last := by
    obtain ⟨a, ha, hresult⟩ := h.last
    exact ⟨a, by rw [List.getLast?_append, ha]; rfl, hresult⟩

theorem Chained.series {i : ℕ} {s t : σ} {result : Except ε Unit} {calls : List (Attempt γ ε)}
    (h : Chained isTransient log i s result t calls) :
    Series isTransient i calls (!transient isTransient result) where
  chain a ha := Nat.le_of_eq (h.chain a ha).symm
  ended j a hlast htransient := by
    obtain ⟨b, hb, hresult⟩ := h.last
    have hmem : a ∈ calls.filter (·.chain == j) := List.mem_of_getLast? hlast
    rw [List.mem_filter, beq_iff_eq] at hmem
    have hall : calls.filter (·.chain == j) = calls := by
      rw [List.filter_eq_self]
      intro c hc
      rw [beq_iff_eq, h.chain c hc, ← h.chain a hmem.1, hmem.2]
    rw [lastOf, hall, hb, Option.some.injEq] at hlast
    rw [← hresult, hlast, htransient, Bool.not_true]
  last hdone := by
    obtain ⟨a, ha, hresult⟩ := h.last
    exact ⟨a, ha, by rw [hresult]; simpa using hdone⟩

theorem lastOf_append (calls more : List (Attempt γ ε)) (i : ℕ) :
    lastOf (calls ++ more) i = (lastOf more i).or (lastOf calls i) := by
  rw [lastOf, List.filter_append, List.getLast?_append]
  rfl

/-- After a chain that did not end with a transient error come the others. -/
theorem Chained.append {i : ℕ} {s t : σ} {result : Except ε Unit}
    {calls more : List (Attempt γ ε)} {done : Bool}
    (h : Chained isTransient log i s result t calls)
    (hresult : transient isTransient result = false)
    (hmore : Series isTransient (i + 1) more done) : Series isTransient i (calls ++ more) done where
  chain a ha := by
    rcases List.mem_append.mp ha with ha | ha
    · exact Nat.le_of_eq (h.chain a ha).symm
    · have := hmore.chain a ha
      omega
  ended j a hlast htransient := by
    rw [lastOf_append] at hlast
    cases hj : lastOf more j with
    | some b =>
        rw [hj, Option.some_or, Option.some.injEq] at hlast
        exact hmore.ended j b hj (hlast ▸ htransient)
    | none =>
        rw [hj, Option.none_or] at hlast
        have hfalse := h.series.ended j a hlast htransient
        rw [hresult] at hfalse
        cases hfalse
  last hdone := by
    obtain ⟨a, ha, htransient⟩ := hmore.last hdone
    exact ⟨a, by rw [List.getLast?_append, ha]; rfl, htransient⟩

theorem retryOnTransient_chained {operation : σ → Except ε Unit × σ} {i : ℕ}
    (h : ∀ s, ∃ calls, Chained isTransient log i s (operation s).1 (operation s).2 calls)
    (retries : ℕ) (s : σ) :
    ∃ calls, Chained isTransient log i s (retryOnTransient isTransient operation retries s).1
      (retryOnTransient isTransient operation retries s).2 calls := by
  induction retries generalizing s with
  | zero => exact h s
  | succ retries ih =>
      obtain ⟨calls, hcalls⟩ := h s
      cases htransient : transient isTransient (operation s).1 with
      | false =>
          rw [retryOnTransient_of_not_transient htransient]
          exact ⟨calls, hcalls⟩
      | true =>
          -- the calls of the repetition come behind
          rw [retryOnTransient_of_transient htransient]
          obtain ⟨more, hmore⟩ := ih (operation s).2
          exact ⟨calls ++ more, hmore.prepend hcalls.grown hcalls.chain⟩

variable (log) in
theorem oneByOne_series {operation : ℕ → α → σ → Except ε Unit × σ}
    (h : ∀ i item s, ∃ calls,
      Chained isTransient log i s (operation i item s).1 (operation i item s).2 calls)
    (retries : ℕ → ℕ) (i : ℕ) (items : List α) (s : σ) :
    ∃ calls, log (oneByOne isTransient operation retries i items s).2 = log s ++ calls ∧
      Series isTransient i calls (oneByOne isTransient operation retries i items s).1 := by
  induction items generalizing i s with
  | nil => exact ⟨[], (List.append_nil _).symm, by simp, by simp [lastOf], by simp [oneByOne]⟩
  | cons item items ih =>
      obtain ⟨calls, hcalls⟩ := retryOnTransient_chained (h i item) (retries i) s
      cases htransient : transient isTransient
          (retryOnTransient isTransient (operation i item) (retries i) s).1 with
      | true =>
          rw [oneByOne_of_transient htransient]
          refine ⟨calls, hcalls.grown, ?_⟩
          have hseries := hcalls.series
          rwa [htransient] at hseries
      | false =>
          rw [oneByOne_of_not_transient htransient]
          obtain ⟨more, hmore, hseries⟩ := ih (i + 1) _
          refine ⟨calls ++ more, ?_, hcalls.append htransient hseries⟩
          rw [hmore, hcalls.grown, List.append_assoc]

variable (log) in
/-- What each operation settles of its item, unless it fails with a transient
error, is settled of every item when none is kept. -/
theorem oneByOne_settles {operation : ℕ → α → σ → Except ε Unit × σ}
    {Settled : List (Attempt γ ε) → α → Prop}
    (hmono : ∀ calls more item, Settled calls item → Settled (calls ++ more) item)
    (h : ∀ i item s, ∃ calls,
      Chained isTransient log i s (operation i item s).1 (operation i item s).2 calls)
    (hsettled : ∀ i item s, transient isTransient (operation i item s).1 = false →
      Settled (log (operation i item s).2) item)
    (retries : ℕ → ℕ) (i : ℕ) (items : List α) (s : σ)
    (hdone : (oneByOne isTransient operation retries i items s).1 = true) :
    ∀ item ∈ items, Settled (log (oneByOne isTransient operation retries i items s).2) item := by
  induction items generalizing i s with
  | nil => simp
  | cons item items ih =>
      cases htransient : transient isTransient
          (retryOnTransient isTransient (operation i item) (retries i) s).1 with
      | true =>
          rw [oneByOne_of_transient htransient] at hdone
          cases hdone
      | false =>
          rw [oneByOne_of_not_transient htransient] at hdone ⊢
          obtain ⟨more, hmore, -⟩ := oneByOne_series log h retries (i + 1) items
            (retryOnTransient isTransient (operation i item) (retries i) s).2
          obtain ⟨t, ht⟩ := retryOnTransient_eq isTransient (operation i item) (retries i) s
          have hitem : Settled (log (operation i item t).2) item :=
            hsettled i item t (ht ▸ htransient)
          rw [List.forall_mem_cons]
          refine ⟨?_, ih (i + 1) _ hdone⟩
          rw [hmore, ht]
          exact hmono _ more item hitem

end CdvizCollector.Sinks.Retry
