import CdvizCollector.Sinks.Retry

/-!
The PostgreSQL store (`sinks/db.rs`).

A chunk goes to `cdviz.store_cdevents` in one call; an older schema only has
`cdviz.store_cdevent`, called for one event after the other. Each is repeated
while the database cannot be reached, and a chunk that was refused is tried
again event by event.
-/

namespace CdvizCollector.Sinks.Db

open Retry

variable {Event : Type}

/-- `sqlx::Error`, as far as the store tells its variants apart. -/
inductive SqlxError
  | poolTimedOut
  | poolClosed
  | io
  | database (code : Option String)
  | other
deriving DecidableEq

def isTransientSqlxError : SqlxError → Bool
  | .poolTimedOut | .poolClosed | .io => true
  | .database _ | .other => false

def hasCode (err : SqlxError) (code : String) : Bool :=
  match err with
  | .database (some c) => c == code
  | _ => false

/-- What is sent to the database. -/
inductive Call (Event : Type)
  | storeCdevents (events : List Event)
  | storeCdevent (event : Event)
deriving DecidableEq

def Call.events : Call Event → List Event
  | .storeCdevents events => events
  | .storeCdevent event => [event]

structure Session (Event : Type) where
  attempts : List (Attempt (Call Event) SqlxError)
  /-- `USE_STORE_CDEVENT` -/
  useStoreCdevent : Bool
deriving DecidableEq

structure PgStore where
  server : Server SqlxError
  /-- Whether another sink of the process has set `USE_STORE_CDEVENT` when this
  many calls were made. -/
  shared : ℕ → Bool

def Session.send (db : PgStore) (chain : ℕ) (call : Call Event) (s : Session Event) :
    Except SqlxError Unit × Session Event :=
  let answer := db.server.answer s.attempts.length
  (answer, { s with attempts := s.attempts ++ [{ chain, call, answer }] })

/-- The loop of `store_events_batch` over the events. -/
def storeEach (db : PgStore) (chain : ℕ) :
    List Event → Session Event → Except SqlxError Unit × Session Event
  | [], s => (.ok (), s)
  | event :: events, s =>
      match s.send db chain (.storeCdevent event) with
      | (.ok (), s) => storeEach db chain events s
      | (.error err, s) =>
          if hasCode err "23505" then storeEach db chain events s
          else if isTransientSqlxError err then (.error err, s)
          else storeEach db chain events s

def storeEventsBatch (db : PgStore) (chain : ℕ) (events : List Event) (s : Session Event) :
    Except SqlxError Unit × Session Event :=
  if !(s.useStoreCdevent || db.shared s.attempts.length) then
    match s.send db chain (.storeCdevents events) with
    | (.error err, s) =>
        if hasCode err "42883" then storeEach db chain events { s with useStoreCdevent := true }
        else (.error err, s)
    | (.ok (), s) => (.ok (), s)
  else storeEach db chain events s

/-- `PgStore::store`; the chain 0 is that of the batch. -/
def PgStore.store (db : PgStore) (batch : List Event) (s : Session Event) :
    Bool × Session Event :=
  match retryOnTransient isTransientSqlxError (storeEventsBatch db 0 batch)
      (db.server.retries 0) s with
  | (.ok (), s) => (true, s)
  | (.error err, s) =>
      if isTransientSqlxError err then (false, s)
      else if batch.length > 1 then
        oneByOne isTransientSqlxError (fun i event => storeEventsBatch db i [event])
          db.server.retries 1 batch s
      else (true, s)

/-- The store with no call made yet. -/
def Session.start (useStoreCdevent : Bool) : Session Event := { attempts := [], useStoreCdevent }

/-! ### What becomes of an event -/

/-- The event was stored by the call, or it was there already. -/
def Accepts (a : Attempt (Call Event) SqlxError) (event : Event) : Prop :=
  (a.answer = .ok () ∧ event ∈ a.call.events) ∨
    ∃ err, a.answer = .error err ∧ hasCode err "23505" = true ∧ a.call.events = [event]

/-- The call was for the event alone and failed with an error that is not
transient, other than that there is no such procedure. -/
def Refuses (a : Attempt (Call Event) SqlxError) (event : Event) : Prop :=
  ∃ err, a.answer = .error err ∧ isTransientSqlxError err = false ∧ a.call.events = [event] ∧
    (a.call = .storeCdevents [event] → hasCode err "42883" = false)

def Settled (log : List (Attempt (Call Event) SqlxError)) (event : Event) : Prop :=
  ∃ a ∈ log, Accepts a event ∨ Refuses a event

theorem Settled.append {log : List (Attempt (Call Event) SqlxError)} {event : Event}
    (h : Settled log event) (more : List (Attempt (Call Event) SqlxError)) :
    Settled (log ++ more) event := by
  obtain ⟨a, ha, hevent⟩ := h
  exact ⟨a, List.mem_append_left _ ha, hevent⟩

theorem hasCode_not_transient {err : SqlxError} {code : String} (h : hasCode err code = true) :
    isTransientSqlxError err = false := by
  cases err <;> first | rfl | cases h

/-- An answer to `store_cdevent` that is not a transient error settles its event. -/
theorem settles_storeCdevent {a : Attempt (Call Event) SqlxError} {event : Event}
    (hcall : a.call = .storeCdevent event)
    (h : transient isTransientSqlxError a.answer = false) : Accepts a event ∨ Refuses a event := by
  have hevents : a.call.events = [event] := by rw [hcall]; rfl
  cases hanswer : a.answer with
  | ok _ => exact .inl (.inl ⟨hanswer, hevents ▸ List.mem_singleton_self event⟩)
  | error err =>
      rw [hanswer] at h
      exact .inr ⟨err, hanswer, h, hevents, fun hbatch => by rw [hcall] at hbatch; cases hbatch⟩

/-! ### One call, one pass over the events, one chain -/

section

variable (db : PgStore) (i : ℕ)

theorem storeEach_cons (event : Event) (events : List Event) (s : Session Event) :
    storeEach db i (event :: events) s =
      if transient isTransientSqlxError (db.server.answer s.attempts.length) then
        s.send db i (.storeCdevent event)
      else storeEach db i events (s.send db i (.storeCdevent event)).2 := by
  simp only [storeEach, Session.send]
  cases hanswer : db.server.answer s.attempts.length with
  | ok _ => rfl
  | error err =>
      cases hcode : hasCode err "23505" with
      | true => simp [hcode, transient, hasCode_not_transient hcode]
      | false =>
          simp only [hcode]
          rfl

theorem storeEach_chained (event : Event) (events : List Event) (s : Session Event) :
    ∃ calls, Chained isTransientSqlxError Session.attempts i s
      (storeEach db i (event :: events) s).1 (storeEach db i (event :: events) s).2 calls := by
  induction events generalizing event s with
  | nil =>
      rw [storeEach_cons]
      split
      · exact ⟨_, .single rfl rfl rfl⟩
      · rename_i htransient
        exact ⟨_, .single rfl rfl (Bool.eq_false_iff.mpr htransient)⟩
  | cons next events ih =>
      rw [storeEach_cons]
      split
      · exact ⟨_, .single rfl rfl rfl⟩
      · obtain ⟨calls, hcalls⟩ := ih next (s.send db i (.storeCdevent event)).2
        exact ⟨_, hcalls.prepend rfl (by simp)⟩

theorem storeEach_transient (events : List Event) (s : Session Event) (err : SqlxError)
    (h : (storeEach db i events s).1 = .error err) : isTransientSqlxError err = true := by
  induction events generalizing s with
  | nil => cases h
  | cons event events ih =>
      rw [storeEach_cons] at h
      split at h
      · rename_i htransient
        rw [show db.server.answer s.attempts.length = .error err from h] at htransient
        exact htransient
      · exact ih _ h

theorem storeEach_settles (events : List Event) (s : Session Event)
    (h : (storeEach db i events s).1 = .ok ()) :
    ∀ event ∈ events, Settled (storeEach db i events s).2.attempts event := by
  induction events generalizing s with
  | nil => simp
  | cons event events ih =>
      rw [storeEach_cons] at h ⊢
      split at h
      · rename_i htransient
        rw [show db.server.answer s.attempts.length = .ok () from h] at htransient
        cases htransient
      · rename_i htransient
        rw [if_neg htransient, List.forall_mem_cons]
        refine ⟨?_, ih _ h⟩
        have hsent : Settled (s.send db i (.storeCdevent event)).2.attempts event :=
          ⟨_, List.mem_append_right _ (List.mem_singleton_self _),
            settles_storeCdevent rfl (by simpa using htransient)⟩
        cases events with
        | nil => exact hsent
        | cons next events =>
            obtain ⟨calls, hcalls⟩ :=
              storeEach_chained db i next events (s.send db i (.storeCdevent event)).2
            rw [hcalls.grown]
            exact hsent.append calls

/-- What `store_events_batch` does is one call of `store_cdevents`, that call and
then the events one by one, or the events alone. -/
theorem storeEventsBatch_cases (events : List Event) (s : Session Event) :
    (∀ err, db.server.answer s.attempts.length = .error err → hasCode err "42883" = false) ∧
        storeEventsBatch db i events s = s.send db i (.storeCdevents events) ∨
      (∃ t : Session Event, t.attempts = (s.send db i (.storeCdevents events)).2.attempts ∧
        storeEventsBatch db i events s = storeEach db i events t) ∨
      storeEventsBatch db i events s = storeEach db i events s := by
  unfold storeEventsBatch
  split
  · cases hanswer : db.server.answer s.attempts.length with
    | ok _ => exact .inl ⟨by simp, by simp [Session.send, hanswer]⟩
    | error err =>
        cases hcode : hasCode err "42883" with
        | true =>
            refine .inr (.inl ⟨{ (s.send db i (.storeCdevents events)).2 with
              useStoreCdevent := true }, rfl, ?_⟩)
            simp [Session.send, hanswer, hcode]
        | false =>
            refine .inl ⟨fun err' h => by cases h; exact hcode, ?_⟩
            simp [Session.send, hanswer, hcode]
  · exact .inr (.inr rfl)

theorem storeEventsBatch_chained {events : List Event} (hevents : events ≠ [])
    (s : Session Event) :
    ∃ calls, Chained isTransientSqlxError Session.attempts i s
      (storeEventsBatch db i events s).1 (storeEventsBatch db i events s).2 calls := by
  obtain ⟨event, events, rfl⟩ := List.exists_cons_of_ne_nil hevents
  rcases storeEventsBatch_cases db i (event :: events) s with ⟨-, heq⟩ | ⟨t, ht, heq⟩ | heq <;>
    rw [heq]
  · exact ⟨_, .single rfl rfl rfl⟩
  · obtain ⟨calls, hcalls⟩ := storeEach_chained db i event events t
    exact ⟨_, hcalls.prepend ht (by simp)⟩
  · exact storeEach_chained db i event events s

theorem storeEventsBatch_settles (events : List Event) (s : Session Event)
    (h : (storeEventsBatch db i events s).1 = .ok ()) :
    ∀ event ∈ events, Settled (storeEventsBatch db i events s).2.attempts event := by
  rcases storeEventsBatch_cases db i events s with ⟨-, heq⟩ | ⟨t, -, heq⟩ | heq <;>
    rw [heq] at h ⊢
  · intro event hevent
    exact ⟨_, List.mem_append_right _ (List.mem_singleton_self _), .inl (.inl ⟨h, hevent⟩)⟩
  · exact storeEach_settles db i events t h
  · exact storeEach_settles db i events s h

/-- A single event is settled unless the call fails with a transient error. -/
theorem storeEventsBatch_single (event : Event) (s : Session Event)
    (h : transient isTransientSqlxError (storeEventsBatch db i [event] s).1 = false) :
    Settled (storeEventsBatch db i [event] s).2.attempts event := by
  cases hresult : (storeEventsBatch db i [event] s).1 with
  | ok _ => exact storeEventsBatch_settles db i [event] s hresult event (by simp)
  | error err =>
      rw [hresult] at h
      rcases storeEventsBatch_cases db i [event] s with ⟨hcode, heq⟩ | ⟨t, -, heq⟩ | heq <;>
        rw [heq] at hresult ⊢
      · exact ⟨_, List.mem_append_right _ (List.mem_singleton_self _),
          .inr ⟨err, hresult, h, rfl, fun _ => hcode err hresult⟩⟩
      · rw [transient, storeEach_transient db i [event] t err hresult] at h
        cases h
      · rw [transient, storeEach_transient db i [event] s err hresult] at h
        cases h

end

/-! ### The whole store -/

section

variable (db : PgStore) {batch : List Event}

/-- The batch decides, unless it was refused and has several events. -/
theorem store_cases (s : Session Event) {result : Except SqlxError Unit} {t : Session Event}
    (h : retryOnTransient isTransientSqlxError (storeEventsBatch db 0 batch)
      (db.server.retries 0) s = (result, t)) :
    db.store batch s = (!transient isTransientSqlxError result, t) ∧
        (transient isTransientSqlxError result = false → result = .ok () ∨ batch.length ≤ 1) ∨
      transient isTransientSqlxError result = false ∧
        db.store batch s = oneByOne isTransientSqlxError
          (fun i event => storeEventsBatch db i [event]) db.server.retries 1 batch t := by
  unfold PgStore.store
  rw [h]
  rcases result with err | ⟨⟨⟩⟩
  · cases htransient : isTransientSqlxError err with
    | true => exact .inl ⟨by simp [htransient, transient], by simp [htransient, transient]⟩
    | false =>
        by_cases hlength : batch.length > 1
        · exact .inr ⟨htransient, by simp [htransient, hlength]⟩
        · exact .inl ⟨by simp [htransient, transient, hlength], fun _ => .inr (by omega)⟩
  · exact .inl ⟨rfl, fun _ => .inl rfl⟩

theorem store_series (hbatch : batch ≠ []) (s : Session Event) :
    ∃ calls, (db.store batch s).2.attempts = s.attempts ++ calls ∧
      Series isTransientSqlxError 0 calls (db.store batch s).1 := by
  obtain ⟨calls, hcalls⟩ := retryOnTransient_chained
    (storeEventsBatch_chained db 0 hbatch) (db.server.retries 0) s
  rcases store_cases db s rfl with ⟨heq, -⟩ | ⟨htransient, heq⟩ <;> rw [heq]
  · exact ⟨calls, hcalls.grown, hcalls.series⟩
  · -- the events one by one
    obtain ⟨more, hmore, hrest⟩ := oneByOne_series Session.attempts
      (fun i event => storeEventsBatch_chained db i (List.cons_ne_nil event []))
      db.server.retries 1 batch _
    refine ⟨calls ++ more, ?_, hcalls.append htransient hrest⟩
    rw [hmore, hcalls.grown, List.append_assoc]

variable (batch) in
theorem store_settles (s : Session Event) (h : (db.store batch s).1 = true) :
    ∀ event ∈ batch, Settled (db.store batch s).2.attempts event := by
  obtain ⟨t, hlast⟩ := retryOnTransient_eq isTransientSqlxError (storeEventsBatch db 0 batch)
    (db.server.retries 0) s
  rcases store_cases db s hlast with ⟨heq, hdone⟩ | ⟨-, heq⟩ <;> rw [heq] at h ⊢
  · have htransient : transient isTransientSqlxError (storeEventsBatch db 0 batch t).1 = false :=
      (Bool.not_eq_true' _).mp h
    rcases hdone htransient with hok | hlength
    · exact storeEventsBatch_settles db 0 batch t hok
    · -- a batch of at most one event is not tried again
      intro event hevent
      match batch, hlength with
      | [], _ => cases hevent
      | [other], _ =>
          rw [List.mem_singleton.mp hevent]
          exact storeEventsBatch_single db 0 other t htransient
      | _ :: _ :: _, hlength => simp at hlength
  · exact oneByOne_settles Session.attempts (fun calls more event hevent => hevent.append more)
      (fun i event => storeEventsBatch_chained db i (List.cons_ne_nil event []))
      (fun i event => storeEventsBatch_single db i event) db.server.retries 1 batch _ h

end

/-- A server with the given answers, no call of which is repeated. -/
def PgStore.once (answer : ℕ → Except SqlxError Unit) : PgStore :=
  { server := { answer, retries := fun _ => 0 }, shared := fun _ => false }

end CdvizCollector.Sinks.Db
