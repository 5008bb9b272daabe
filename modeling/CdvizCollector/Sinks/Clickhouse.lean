import CdvizCollector.Sinks.Db

/-!
The ClickHouse store (`sinks/clickhouse.rs`), and what its acknowledgement of a
chunk and that of the PostgreSQL store stand for.

A row is the values of one event. All rows of a chunk go into one statement where
the template has a `VALUES` tuple to repeat, and one by one where it has none or
where the statement was refused.
-/

namespace CdvizCollector.Sinks.Clickhouse

open Retry

/-- `clickhouse::error::Error`, as far as the store tells its variants apart. -/
inductive ClickhouseError
  | network
  | timedOut
  | other
deriving DecidableEq

def isTransientClickhouseError : ClickhouseError → Bool
  | .network | .timedOut => true
  | .other => false

/-- The placeholder values of one row. -/
abbrev Row := List String

/-- The template, and what `VALUES` splits it into: the head and the tuple. -/
structure ParsedQuery where
  sql : String
  values : Option (String × String)
deriving DecidableEq

def ParsedQuery.batchSql (q : ParsedQuery) (rows : ℕ) : Option String :=
  q.values.map fun (head, tuple) => head ++ " " ++ ", ".intercalate (List.replicate rows tuple)

/-- A statement with the rows whose values are bound to it. -/
structure Query where
  sql : String
  rows : List Row
deriving DecidableEq

abbrev Log := List (Attempt Query ClickhouseError)

structure ChStore where
  parsedQuery : ParsedQuery
  server : Server ClickhouseError

def executeQuery (db : ChStore) (chain : ℕ) (query : Query) (s : Log) :
    Except ClickhouseError Unit × Log :=
  let answer := db.server.answer s.length
  (answer, s ++ [{ chain, call := query, answer }])

/-- The rows one by one. -/
def storeRows (db : ChStore) (rows : List Row) (s : Log) : Bool × Log :=
  oneByOne isTransientClickhouseError
    (fun i row => executeQuery db i { sql := db.parsedQuery.sql, rows := [row] })
    db.server.retries 1 rows s

/-- `ChStore::store`; the chain 0 is that of the statement with all rows. -/
def ChStore.store (db : ChStore) (rows : List Row) (s : Log) : Bool × Log :=
  match db.parsedQuery.batchSql rows.length with
  | some sql =>
      match retryOnTransient isTransientClickhouseError (executeQuery db 0 { sql, rows })
          (db.server.retries 0) s with
      | (.ok (), s) => (true, s)
      | (.error err, s) =>
          if isTransientClickhouseError err then (false, s)
          else if rows.length == 1 then (true, s)
          else storeRows db rows s
  | none => storeRows db rows s

/-! ### What becomes of a row -/

def Accepts (a : Attempt Query ClickhouseError) (row : Row) : Prop :=
  a.answer = .ok () ∧ row ∈ a.call.rows

/-- The statement was for the row alone and failed with an error that is not
transient. -/
def Refuses (a : Attempt Query ClickhouseError) (row : Row) : Prop :=
  ∃ err, a.answer = .error err ∧ isTransientClickhouseError err = false ∧ a.call.rows = [row]

def Settled (log : Log) (row : Row) : Prop :=
  ∃ a ∈ log, Accepts a row ∨ Refuses a row

theorem Settled.append {log : Log} {row : Row} (h : Settled log row) (more : Log) :
    Settled (log ++ more) row := by
  obtain ⟨a, ha, hrow⟩ := h
  exact ⟨a, List.mem_append_left _ ha, hrow⟩

section

variable (db : ChStore)

theorem executeQuery_chained (i : ℕ) (query : Query) (s : Log) :
    ∃ calls, Chained isTransientClickhouseError id i s (executeQuery db i query s).1
      (executeQuery db i query s).2 calls :=
  ⟨_, .single rfl rfl rfl⟩

theorem executeQuery_settles (i : ℕ) (query : Query) (s : Log)
    (h : (executeQuery db i query s).1 = .ok ()) :
    ∀ row ∈ query.rows, Settled (executeQuery db i query s).2 row := by
  intro row hrow
  exact ⟨_, List.mem_append_right _ (List.mem_singleton_self _), .inl ⟨h, hrow⟩⟩

/-- A single row is settled unless the statement fails with a transient error. -/
theorem executeQuery_single (i : ℕ) (sql : String) (row : Row) (s : Log)
    (h : transient isTransientClickhouseError (executeQuery db i ⟨sql, [row]⟩ s).1 = false) :
    Settled (executeQuery db i ⟨sql, [row]⟩ s).2 row := by
  cases hresult : (executeQuery db i ⟨sql, [row]⟩ s).1 with
  | ok _ => exact executeQuery_settles db i _ s hresult row (List.mem_singleton_self _)
  | error err =>
      rw [hresult] at h
      exact ⟨_, List.mem_append_right _ (List.mem_singleton_self _), .inr ⟨err, hresult, h, rfl⟩⟩

variable (rows : List Row)

/-- The statement with all rows decides, unless there is none or it was refused
and there are other than one row. -/
theorem store_cases (s : Log) :
    db.store rows s = storeRows db rows s ∨
      ∃ sql t, retryOnTransient isTransientClickhouseError (executeQuery db 0 ⟨sql, rows⟩)
          (db.server.retries 0) s = t ∧
        (db.store rows s = (!transient isTransientClickhouseError t.1, t.2) ∧
            (transient isTransientClickhouseError t.1 = false →
              t.1 = .ok () ∨ rows.length = 1) ∨
          transient isTransientClickhouseError t.1 = false ∧
            db.store rows s = storeRows db rows t.2) := by
  unfold ChStore.store
  cases db.parsedQuery.batchSql rows.length with
  | none => exact .inl rfl
  | some sql =>
      rcases hcall : retryOnTransient isTransientClickhouseError (executeQuery db 0 ⟨sql, rows⟩)
        (db.server.retries 0) s with ⟨⟨err⟩ | ⟨⟨⟩⟩, t⟩ <;> refine .inr ⟨sql, _, hcall, ?_⟩ <;>
        simp only [hcall]
      · cases htransient : isTransientClickhouseError err with
        | true => exact .inl ⟨by simp [htransient, transient], by simp [htransient, transient]⟩
        | false =>
            by_cases hlength : rows.length = 1
            · exact .inl ⟨by simp [htransient, transient, hlength], fun _ => .inr hlength⟩
            · exact .inr ⟨htransient, by simp [hlength]⟩
      · exact .inl ⟨rfl, fun _ => .inl trivial⟩

theorem store_series : Series isTransientClickhouseError 0 (db.store rows []).2
    (db.store rows []).1 := by
  have hrows := fun s => oneByOne_series id
    (fun i row => executeQuery_chained db i ⟨db.parsedQuery.sql, [row]⟩) db.server.retries 1 rows s
  rcases store_cases db rows [] with heq | ⟨sql, t, ht, ⟨heq, -⟩ | ⟨htransient, heq⟩⟩ <;>
    rw [heq]
  · obtain ⟨calls, hcalls, hseries⟩ := hrows []
    rw [storeRows, show (oneByOne _ _ _ _ _ _).2 = calls from hcalls]
    exact { hseries with chain := fun a _ => Nat.zero_le _ }
  · obtain ⟨calls, hcalls⟩ := retryOnTransient_chained
      (executeQuery_chained db 0 ⟨sql, rows⟩) (db.server.retries 0) []
    rw [ht] at hcalls
    rw [show t.2 = calls from hcalls.grown]
    exact hcalls.series
  · obtain ⟨calls, hcalls⟩ := retryOnTransient_chained
      (executeQuery_chained db 0 ⟨sql, rows⟩) (db.server.retries 0) []
    rw [ht] at hcalls
    obtain ⟨more, hmore, hrest⟩ := hrows t.2
    have hlog : (storeRows db rows t.2).2 = calls ++ more := by
      rw [← show t.2 = calls from hcalls.grown]
      exact hmore
    rw [hlog]
    exact hcalls.append htransient hrest

theorem store_settles (s : Log) (h : (db.store rows s).1 = true) :
    ∀ row ∈ rows, Settled (db.store rows s).2 row := by
  have hrows : ∀ s, (storeRows db rows s).1 = true →
      ∀ row ∈ rows, Settled (storeRows db rows s).2 row :=
    fun s => oneByOne_settles id (fun _ more _ hrow => hrow.append more)
      (fun i row => executeQuery_chained db i ⟨db.parsedQuery.sql, [row]⟩)
      (fun i row => executeQuery_single db i db.parsedQuery.sql row) db.server.retries 1 rows s
  rcases store_cases db rows s with heq | ⟨sql, t, ht, ⟨heq, hdone⟩ | ⟨-, heq⟩⟩ <;>
    rw [heq] at h ⊢
  · exact hrows s h
  · have htransient : transient isTransientClickhouseError t.1 = false := (Bool.not_eq_true' _).mp h
    obtain ⟨u, hlast⟩ := retryOnTransient_eq isTransientClickhouseError
      (executeQuery db 0 ⟨sql, rows⟩) (db.server.retries 0) s
    obtain rfl : t = executeQuery db 0 ⟨sql, rows⟩ u := ht.symm.trans hlast
    rcases hdone htransient with hok | hlength
    · exact executeQuery_settles db 0 ⟨sql, rows⟩ u hok
    · obtain ⟨row, rfl⟩ := List.length_eq_one_iff.mp hlength
      intro other hother
      rw [List.mem_singleton.mp hother]
      exact executeQuery_single db 0 sql row u htransient
  · exact hrows t.2 h

end

/-- Neither store acknowledges an event that was neither accepted nor refused on
its own, and neither acknowledges a chunk if one of its chains of calls ended
with a transient error. -/
theorem acknowledged_settled {Event : Type} (pg : Db.PgStore) (batch : List Event)
    (hbatch : batch ≠ []) (useStoreCdevent : Bool) (ch : ChStore) (rows : List Row) :
    (((pg.store batch (.start useStoreCdevent)).1 = true → ∀ event ∈ batch,
          Db.Settled (pg.store batch (.start useStoreCdevent)).2.attempts event) ∧
        ∀ i a, lastOf (pg.store batch (.start useStoreCdevent)).2.attempts i = some a →
          transient Db.isTransientSqlxError a.answer = true →
          (pg.store batch (.start useStoreCdevent)).1 = false) ∧
      ((ch.store rows []).1 = true → ∀ row ∈ rows, Settled (ch.store rows []).2 row) ∧
        ∀ i a, lastOf (ch.store rows []).2 i = some a →
          transient isTransientClickhouseError a.answer = true → (ch.store rows []).1 = false := by
  refine ⟨⟨Db.store_settles pg batch _, ?_⟩, store_settles ch rows [], (store_series ch rows).ended⟩
  obtain ⟨calls, hcalls, hseries⟩ := Db.store_series pg hbatch (.start useStoreCdevent)
  rw [hcalls]
  exact hseries.ended

/-- A PostgreSQL server that goes away after the first of two events. -/
theorem acknowledged_settled_sample :
    ((Db.PgStore.once fun n => if n = 1 then .ok () else
      if n = 0 then .error (.database (some "22P02")) else .error .io).store ["a", "b"]
        (.start false)).1 = false :=
  (acknowledged_settled _ ["a", "b"] (by decide) false
    { parsedQuery := { sql := "", values := none }
      server := { answer := fun _ => .ok (), retries := fun _ => 0 } } []).1.2 2
    ⟨2, .storeCdevents ["b"], .error .io⟩ rfl rfl

end CdvizCollector.Sinks.Clickhouse
