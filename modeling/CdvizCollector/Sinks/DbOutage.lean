import CdvizCollector.Sinks.Db

/-!
What an outage of PostgreSQL costs.

Which calls the store makes follows from the answers it is given. A call is repeated while
it reaches no server, the older procedure is called for one event after the other, and the
events of a chunk that was refused are stored one by one. So it can be told from the answers
whether an event is lost: an error of the connection never costs one, but the errors of a
server that ends the session are taken for errors of the event.
-/

namespace CdvizCollector.Sinks.Db

open Retry

variable {Event : Type}

/-- The server ended the session: `admin_shutdown`, `crash_shutdown` and the
connection exceptions of class 08. -/
def endsSession : SqlxError → Bool
  | .database (some code) =>
      code == "57P01" || code == "57P02" || ['0', '8'].isPrefixOf code.toList
  | _ => false

/-- An error says that the server is away, or that the event is there already. -/
def PgStore.Unavailable (db : PgStore) : Prop :=
  ∀ n err, db.server.answer n = .error err →
    isTransientSqlxError err = true ∨ endsSession err = true ∨ hasCode err "23505" = true

def Stored (log : List (Attempt (Call Event) SqlxError)) (event : Event) : Prop :=
  ∃ a ∈ log, Accepts a event

/-! ### Reading the answers -/

/-- The first call with the property, of call `n` and `more` that follow, or the last of them. -/
def firstCall (p : ℕ → Bool) : ℕ → ℕ → ℕ
  | 0, n => n
  | more + 1, n => if p n then n else firstCall p more (n + 1)

section

variable (db : PgStore) (useStoreCdevent : Bool)

/-- This call reaches no server. -/
def PgStore.unreached (n : ℕ) : Bool := transient isTransientSqlxError (db.server.answer n)

/-- The answer to this call is the end of the session. -/
def PgStore.cutOff (n : ℕ) : Bool :=
  match db.server.answer n with
  | .ok () => false
  | .error err => endsSession err

def PgStore.answered (n : ℕ) : Bool := !db.unreached n && !db.cutOff n

/-- The older procedure is in use when this many calls were made. -/
def PgStore.older (n : ℕ) : Bool := useStoreCdevent || db.shared n

/-- The last call of an attempt that begins with call `n`, for one event and `more` others. -/
def PgStore.stop (more n : ℕ) : ℕ :=
  if db.older useStoreCdevent n then firstCall db.unreached more n else n

/-- The first calls of the attempts of a chain. -/
def PgStore.starts (db : PgStore) (useStoreCdevent : Bool) (more : ℕ) : ℕ → ℕ → List ℕ
  | 0, n => [n]
  | retries + 1, n =>
      let stop := db.stop useStoreCdevent more n
      n :: if db.unreached stop then db.starts useStoreCdevent more retries (stop + 1) else []

def PgStore.lastStart (db : PgStore) (useStoreCdevent : Bool) (more : ℕ) : ℕ → ℕ → ℕ
  | 0, n => n
  | retries + 1, n =>
      let stop := db.stop useStoreCdevent more n
      if db.unreached stop then db.lastStart useStoreCdevent more retries (stop + 1) else n

/-- The last calls of the chains from `i` on, which begin with call `n` and are for `k` events,
each alone. -/
def PgStore.lasts (db : PgStore) : ℕ → ℕ → ℕ → List ℕ
  | _, _, 0 => []
  | i, n, k + 1 =>
      let last := firstCall (fun m => !db.unreached m) (db.server.retries i) n
      last :: db.lasts (i + 1) (last + 1) k

/-- The older procedure is called for the event in the attempt that begins with call `n`, and
the answer is neither an error of the connection nor the end of the session. -/
def PgStore.AnsweredIn (batch : List Event) (n : ℕ) (event : Event) : Prop :=
  ∃ j : ℕ, batch[j]? = some event ∧ n + j ≤ db.stop useStoreCdevent (batch.length - 1) n ∧
    db.answered (n + j) = true

/-- A chunk that was refused at call `n` costs nothing: some chain for one of its events is given
up, or none ends with the end of the session (but where an equal event was stored). -/
def PgStore.SparesAlone (batch : List Event) (n : ℕ) : Prop :=
  (∃ m ∈ db.lasts 1 (n + 1) batch.length, db.unreached m = true) ∨
    ∀ event ∈ batch, ∃ (j m : ℕ), batch[j]? = some event ∧
      (db.lasts 1 (n + 1) batch.length)[j]? = some m ∧ db.cutOff m = false

/-- These answers cost no event. The chain for the chunk is given up. Or the older procedure is in
use at its last attempt, and each event was answered in some attempt. Or its last call gets
through, or else is not answered with the end of the session, if it is for one event, or its
events are spared alone. -/
def PgStore.Spares (batch : List Event) : Prop :=
  let more := batch.length - 1
  let last := db.lastStart useStoreCdevent more (db.server.retries 0) 0
  db.unreached (db.stop useStoreCdevent more last) = true ∨
    if db.older useStoreCdevent last then
      ∀ event ∈ batch, ∃ n ∈ db.starts useStoreCdevent more (db.server.retries 0) 0,
        db.older useStoreCdevent n = true ∧ db.AnsweredIn useStoreCdevent batch n event
    else if batch.length = 1 then db.cutOff last = false
    else db.server.answer last = .ok () ∨ db.SparesAlone batch last

end

theorem le_firstCall (p : ℕ → Bool) (more n : ℕ) : n ≤ firstCall p more n := by
  induction more generalizing n with
  | zero => exact Nat.le_refl n
  | succ more ih =>
      rw [firstCall]
      split
      · exact Nat.le_refl n
      · exact Nat.le_of_succ_le (ih (n + 1))

section

variable {db : PgStore} {useStoreCdevent : Bool} {i n more : ℕ}

theorem PgStore.cutOff_of_error {err : SqlxError} (h : db.server.answer n = .error err) :
    db.cutOff n = endsSession err := by
  rw [cutOff, h]

theorem PgStore.not_missing (hunavailable : db.Unavailable) {err : SqlxError}
    (h : db.server.answer n = .error err) : hasCode err "42883" = false := by
  have hcases := hunavailable n err h
  cases err with
  | poolTimedOut | poolClosed | io | other => rfl
  | database code =>
      cases code with
      | none => rfl
      | some code =>
          simp only [hasCode, beq_eq_false_iff_ne]
          rintro rfl
          revert hcases
          decide

/-! ### Single calls -/

/-- Of a call for one event, an answer stores it unless it is an error of the connection or the
end of the session. -/
theorem PgStore.accepts_iff (hunavailable : db.Unavailable) {call : Call Event} {event : Event} :
    Accepts ⟨i, call, db.server.answer n⟩ event ↔
      db.server.answer n = .ok () ∧ event ∈ call.events ∨
        db.answered n = true ∧ call.events = [event] := by
  rw [Accepts]
  constructor
  · rintro (hok | ⟨err, herr, hcode, hevents⟩)
    · exact Or.inl hok
    · refine Or.inr ⟨?_, hevents⟩
      have htransient := hasCode_not_transient hcode
      have hcut : endsSession err = false := by
        cases err with
        | poolTimedOut | poolClosed | io | other => cases hcode
        | database code =>
            cases code with
            | none => cases hcode
            | some code =>
                obtain rfl : code = "23505" := eq_of_beq hcode
                decide
      rw [answered, unreached, cutOff_of_error herr, show db.server.answer n = .error err from herr,
        transient, htransient, hcut]
      rfl
  · rintro (hok | ⟨hanswered, hevents⟩)
    · exact Or.inl hok
    · cases hanswer : db.server.answer n with
      | ok _ => exact Or.inl ⟨rfl, hevents ▸ List.mem_singleton_self event⟩
      | error err =>
          rw [answered, unreached, cutOff_of_error hanswer, hanswer, Bool.and_eq_true,
            Bool.not_eq_true', Bool.not_eq_true'] at hanswered
          rcases hunavailable n err hanswer with htransient | hends | hcode
          · rw [show isTransientSqlxError err = false from hanswered.1] at htransient
            cases htransient
          · rw [hanswered.2] at hends
            cases hends
          · exact Or.inr ⟨err, rfl, hcode, hevents⟩

theorem PgStore.accepts_single (hunavailable : db.Unavailable) {call : Call Event}
    {event : Event} (hcall : call.events = [event]) (stored : Event) :
    Accepts ⟨i, call, db.server.answer n⟩ stored ↔ event = stored ∧ db.answered n = true := by
  rw [accepts_iff hunavailable, hcall, List.mem_singleton, List.cons.injEq]
  constructor
  · rintro (⟨hok, rfl⟩ | ⟨hanswered, rfl, -⟩)
    · rw [answered, unreached, cutOff, hok]
      exact ⟨rfl, rfl⟩
    · exact ⟨rfl, hanswered⟩
  · rintro ⟨rfl, hanswered⟩
    exact Or.inr ⟨hanswered, rfl, rfl⟩

theorem stored_send (s : Session Event) (call : Call Event) (event : Event) :
    Stored (s.send db i call).2.attempts event ↔ Stored s.attempts event ∨
      Accepts ⟨i, call, db.server.answer s.attempts.length⟩ event := by
  simp only [Stored, Session.send, List.mem_append, List.mem_singleton]
  constructor
  · rintro ⟨a, ha | rfl, haccepts⟩
    · exact Or.inl ⟨a, ha, haccepts⟩
    · exact Or.inr haccepts
  · rintro (⟨a, ha, haccepts⟩ | haccepts)
    · exact ⟨a, Or.inl ha, haccepts⟩
    · exact ⟨_, Or.inr rfl, haccepts⟩

/-! ### Attempts -/

variable (db) in
/-- What comes of calls that end with the call `last`: how they failed, what they stored, and
that the schema was not found out to be older. -/
structure Ends (s : Session Event) (result : Except SqlxError Unit) (t : Session Event)
    (last : ℕ) (gained : Event → Prop) : Prop where
  result : transient isTransientSqlxError result = db.unreached last
  length : t.attempts.length = last + 1
  flag : t.useStoreCdevent = s.useStoreCdevent
  stored : ∀ event, Stored t.attempts event ↔ Stored s.attempts event ∨ gained event

theorem Ends.congr {s t : Session Event} {result : Except SqlxError Unit} {last : ℕ}
    {gained gained' : Event → Prop} (h : Ends db s result t last gained)
    (hgained : ∀ event, gained event ↔ gained' event) : Ends db s result t last gained' :=
  { h with stored := fun event => (h.stored event).trans (or_congr_right (hgained event)) }

theorem Ends.trans {s t u : Session Event} {first result : Except SqlxError Unit}
    {middle last : ℕ} {gained more : Event → Prop} (h : Ends db s first t middle gained)
    (hmore : Ends db t result u last more) :
    Ends db s result u last (fun event => gained event ∨ more event) where
  result := hmore.result
  length := hmore.length
  flag := hmore.flag.trans h.flag
  stored event := by rw [hmore.stored, h.stored, or_assoc]

variable (db i) in
theorem send_ends (s : Session Event) (call : Call Event) :
    Ends db s (s.send db i call).1 (s.send db i call).2 s.attempts.length
      (Accepts ⟨i, call, db.server.answer s.attempts.length⟩) where
  result := rfl
  length := by rw [Session.send, List.length_append, List.length_singleton]
  flag := rfl
  stored := stored_send s call

/-- The event at a position, of those that the calls from `n` to `last` are for, is answered. -/
theorem exists_answered_zero {event stored : Event} {events : List Event} :
    (∃ j : ℕ, (event :: events)[j]? = some stored ∧ n + j ≤ n ∧ db.answered (n + j) = true) ↔
      event = stored ∧ db.answered n = true := by
  constructor
  · rintro ⟨j, hevent, hle, hanswered⟩
    obtain rfl : j = 0 := by omega
    exact ⟨Option.some.inj hevent, hanswered⟩
  · rintro ⟨rfl, hanswered⟩
    exact ⟨0, rfl, Nat.le_refl n, hanswered⟩

theorem exists_answered_cons {event stored : Event} {events : List Event} {last : ℕ}
    (hle : n ≤ last) :
    (∃ j : ℕ, (event :: events)[j]? = some stored ∧ n + j ≤ last ∧
        db.answered (n + j) = true) ↔
      (event = stored ∧ db.answered n = true) ∨
        ∃ j : ℕ, events[j]? = some stored ∧ n + 1 + j ≤ last ∧
          db.answered (n + 1 + j) = true := by
  rw [← Nat.or_exists_add_one]
  refine or_congr ?_ (exists_congr fun j => ?_)
  · rw [List.getElem?_cons_zero, Option.some.injEq, Nat.add_zero]
    exact ⟨fun h => ⟨h.1, h.2.2⟩, fun h => ⟨h.1, hle, h.2⟩⟩
  · rw [List.getElem?_cons_succ, Nat.add_right_comm n 1 j, Nat.add_assoc n j 1]

/-- The older procedure is called up to the first error of the connection. -/
theorem storeEach_ends (hunavailable : db.Unavailable) (event : Event) (events : List Event)
    (s : Session Event) :
    Ends db s (storeEach db i (event :: events) s).1 (storeEach db i (event :: events) s).2
      (firstCall db.unreached events.length s.attempts.length)
      (fun stored => ∃ j : ℕ, (event :: events)[j]? = some stored ∧
        s.attempts.length + j ≤ firstCall db.unreached events.length s.attempts.length ∧
          db.answered (s.attempts.length + j) = true) := by
  have hsend := (send_ends db i s (.storeCdevent event)).congr
    fun stored => PgStore.accepts_single hunavailable rfl stored
  induction events generalizing event s with
  | nil =>
      rw [storeEach_cons]
      split
      · exact hsend.congr fun stored => exists_answered_zero.symm
      · rename_i htransient
        refine Ends.congr ?_ fun stored => exists_answered_zero.symm
        exact { hsend with result := (Bool.eq_false_iff.mpr htransient).symm }
  | cons next events ih =>
      have hcons : storeEach db i (event :: next :: events) s =
          if db.unreached s.attempts.length then s.send db i (.storeCdevent event)
          else storeEach db i (next :: events) (s.send db i (.storeCdevent event)).2 :=
        storeEach_cons db i event (next :: events) s
      rw [hcons, List.length_cons, firstCall]
      by_cases htransient : db.unreached s.attempts.length = true
      · rw [if_pos htransient, if_pos htransient]
        exact hsend.congr fun stored => exists_answered_zero.symm
      · rw [if_neg htransient, if_neg htransient]
        -- the others are called behind this one
        have hrest := ih next (s.send db i (.storeCdevent event)).2
          ((send_ends db i _ _).congr fun stored => PgStore.accepts_single hunavailable rfl stored)
        rw [hsend.length] at hrest
        refine (hsend.trans hrest).congr fun stored => ?_
        exact (exists_answered_cons (Nat.le_of_succ_le (le_firstCall _ _ _))).symm

/-- What an attempt that begins with call `n` stores. -/
def PgStore.Gained (db : PgStore) (useStoreCdevent : Bool) (events : List Event) (n : ℕ)
    (event : Event) : Prop :=
  if db.older useStoreCdevent n then db.AnsweredIn useStoreCdevent events n event
  else db.server.answer n = .ok () ∧ event ∈ events ∨ db.answered n = true ∧ events = [event]

theorem storeEventsBatch_eq (hunavailable : db.Unavailable) (events : List Event)
    (s : Session Event) :
    storeEventsBatch db i events s =
      if db.older s.useStoreCdevent s.attempts.length then storeEach db i events s
      else s.send db i (.storeCdevents events) := by
  rw [storeEventsBatch, PgStore.older]
  cases s.useStoreCdevent || db.shared s.attempts.length with
  | true => rfl
  | false =>
      simp only [Session.send]
      cases hanswer : db.server.answer s.attempts.length with
      | ok _ => rfl
      | error err => simp [PgStore.not_missing hunavailable hanswer]

theorem storeEventsBatch_ends (hunavailable : db.Unavailable) {events : List Event}
    (hevents : events ≠ []) (s : Session Event) :
    Ends db s (storeEventsBatch db i events s).1 (storeEventsBatch db i events s).2
      (db.stop s.useStoreCdevent (events.length - 1) s.attempts.length)
      (db.Gained s.useStoreCdevent events s.attempts.length) := by
  obtain ⟨event, events, rfl⟩ := List.exists_cons_of_ne_nil hevents
  rw [storeEventsBatch_eq hunavailable, PgStore.stop]
  cases holder : db.older s.useStoreCdevent s.attempts.length with
  | true =>
      rw [if_pos rfl, if_pos rfl]
      refine (storeEach_ends hunavailable event events s).congr fun stored => ?_
      rw [PgStore.Gained, holder, if_pos rfl, PgStore.AnsweredIn, PgStore.stop, holder, if_pos rfl]
      rfl
  | false =>
      rw [if_neg Bool.false_ne_true, if_neg Bool.false_ne_true]
      refine (send_ends db i s _).congr fun stored => ?_
      rw [PgStore.Gained, holder, if_neg Bool.false_ne_true, PgStore.accepts_iff hunavailable]
      rfl

/-! ### Chains -/

theorem PgStore.le_stop : n ≤ db.stop useStoreCdevent more n := by
  rw [stop]
  split
  · exact le_firstCall _ _ _
  · exact Nat.le_refl n

theorem PgStore.le_lastStart (retries : ℕ) :
    n ≤ db.lastStart useStoreCdevent more retries n := by
  induction retries generalizing n with
  | zero => exact Nat.le_refl n
  | succ retries ih =>
      simp only [lastStart]
      split
      · exact Nat.le_trans le_stop (Nat.le_of_succ_le ih)
      · exact Nat.le_refl n

/-- All attempts but the last one end with an error of the connection. -/
theorem PgStore.mem_starts {retries m : ℕ}
    (hm : m ∈ db.starts useStoreCdevent more retries n) :
    m = db.lastStart useStoreCdevent more retries n ∨
      m ≤ db.lastStart useStoreCdevent more retries n ∧
        db.unreached (db.stop useStoreCdevent more m) = true := by
  induction retries generalizing n with
  | zero => exact Or.inl (List.mem_singleton.mp hm)
  | succ retries ih =>
      simp only [starts, lastStart] at hm ⊢
      split at hm
      · rename_i htransient
        rw [if_pos htransient]
        rcases List.mem_cons.mp hm with rfl | hm
        · exact Or.inr ⟨Nat.le_trans le_stop (Nat.le_of_succ_le (le_lastStart retries)),
            htransient⟩
        · exact ih hm
      · rename_i htransient
        rw [if_neg htransient]
        exact Or.inl (List.mem_singleton.mp hm)

theorem PgStore.lastStart_mem (retries : ℕ) :
    db.lastStart useStoreCdevent more retries n ∈ db.starts useStoreCdevent more retries n := by
  induction retries generalizing n with
  | zero => exact List.mem_singleton_self n
  | succ retries ih =>
      simp only [starts, lastStart]
      split
      · exact List.mem_cons_of_mem _ ih
      · exact List.mem_cons_self

/-- A chain ends as its last attempt does. -/
theorem retryOnTransient_last (hunavailable : db.Unavailable) {events : List Event}
    (hevents : events ≠ []) (retries : ℕ) (s : Session Event) :
    ∃ t : Session Event, t.useStoreCdevent = s.useStoreCdevent ∧
      t.attempts.length =
        db.lastStart s.useStoreCdevent (events.length - 1) retries s.attempts.length ∧
      retryOnTransient isTransientSqlxError (storeEventsBatch db i events) retries s =
        storeEventsBatch db i events t := by
  induction retries generalizing s with
  | zero => exact ⟨s, rfl, rfl, rfl⟩
  | succ retries ih =>
      have hfirst := storeEventsBatch_ends (i := i) hunavailable hevents s
      simp only [PgStore.lastStart]
      cases htransient : transient isTransientSqlxError (storeEventsBatch db i events s).1 with
      | false =>
          rw [retryOnTransient_of_not_transient htransient, ← hfirst.result, htransient]
          exact ⟨s, rfl, rfl, rfl⟩
      | true =>
          rw [retryOnTransient_of_transient htransient, ← hfirst.result, htransient, if_pos rfl,
            ← hfirst.length, ← hfirst.flag]
          exact ih (storeEventsBatch db i events s).2

theorem retryOnTransient_ends (hunavailable : db.Unavailable) {events : List Event}
    (hevents : events ≠ []) (retries : ℕ) (s : Session Event) :
    Ends db s
      (retryOnTransient isTransientSqlxError (storeEventsBatch db i events) retries s).1
      (retryOnTransient isTransientSqlxError (storeEventsBatch db i events) retries s).2
      (db.stop s.useStoreCdevent (events.length - 1)
        (db.lastStart s.useStoreCdevent (events.length - 1) retries s.attempts.length))
      (fun event => ∃ m ∈ db.starts s.useStoreCdevent (events.length - 1) retries
        s.attempts.length, db.Gained s.useStoreCdevent events m event) := by
  induction retries generalizing s with
  | zero =>
      refine (storeEventsBatch_ends hunavailable hevents s).congr fun event => ?_
      simp [PgStore.starts]
  | succ retries ih =>
      have hfirst := storeEventsBatch_ends (i := i) hunavailable hevents s
      simp only [PgStore.lastStart, PgStore.starts]
      cases htransient : transient isTransientSqlxError (storeEventsBatch db i events s).1 with
      | false =>
          rw [retryOnTransient_of_not_transient htransient, ← hfirst.result, htransient]
          exact hfirst.congr fun event => by simp
      | true =>
          rw [retryOnTransient_of_transient htransient, ← hfirst.result, htransient, if_pos rfl,
            if_pos rfl]
          have hrest := ih (storeEventsBatch db i events s).2
          rw [hfirst.length, hfirst.flag] at hrest
          exact (hfirst.trans hrest).congr fun event => by simp

/-- What a chain comes to: the answer to its last attempt, or nothing but an error of the
connection where the older procedure is in use. -/
theorem retryOnTransient_result (hunavailable : db.Unavailable) {events : List Event}
    (hevents : events ≠ []) (retries : ℕ) (s t : Session Event) (result : Except SqlxError Unit)
    (hchain : retryOnTransient isTransientSqlxError (storeEventsBatch db i events) retries s =
      (result, t)) :
    let last := db.lastStart s.useStoreCdevent (events.length - 1) retries s.attempts.length
    (db.older s.useStoreCdevent last = false → result = db.server.answer last) ∧
      (db.older s.useStoreCdevent last = true → transient isTransientSqlxError result = false →
        result = .ok ()) := by
  obtain ⟨u, hflag, hlength, hlast⟩ :=
    retryOnTransient_last (i := i) hunavailable hevents retries s
  rw [hchain, storeEventsBatch_eq hunavailable, hflag, hlength] at hlast
  dsimp only
  constructor
  · intro hnewer
    rw [hnewer, if_neg Bool.false_ne_true] at hlast
    rw [← hlength]
    exact congrArg Prod.fst hlast
  · intro holder hnot
    rw [holder, if_pos rfl] at hlast
    cases result with
    | ok _ => rfl
    | error err =>
        have htransient := storeEach_transient db i events u err (congrArg Prod.fst hlast).symm
        rw [transient, htransient] at hnot
        cases hnot

/-! ### Events alone -/

theorem stop_zero : db.stop useStoreCdevent 0 n = n := by
  rw [PgStore.stop]
  exact ite_self n

theorem PgStore.not_answered (h : db.unreached n = true) : db.answered n ≠ true := by
  rw [answered, h]
  exact Bool.false_ne_true

theorem PgStore.answered_of_ok (h : db.server.answer n = .ok ()) : db.answered n = true := by
  rw [answered, unreached, cutOff, h]
  rfl

theorem gained_single {event stored : Event} :
    db.Gained useStoreCdevent [event] n stored ↔ event = stored ∧ db.answered n = true := by
  rw [PgStore.Gained]
  split
  · have hstop : db.stop useStoreCdevent ([event].length - 1) n = n := stop_zero
    rw [PgStore.AnsweredIn, hstop]
    exact exists_answered_zero
  · rw [List.mem_singleton, List.cons.injEq]
    constructor
    · rintro (⟨hok, rfl⟩ | ⟨hanswered, rfl, -⟩)
      · exact ⟨rfl, PgStore.answered_of_ok hok⟩
      · exact ⟨rfl, hanswered⟩
    · rintro ⟨rfl, hanswered⟩
      exact Or.inr ⟨hanswered, rfl, rfl⟩

variable (useStoreCdevent) in
theorem lastStart_zero (retries : ℕ) :
    db.lastStart useStoreCdevent 0 retries n =
      firstCall (fun m => !db.unreached m) retries n := by
  induction retries generalizing n with
  | zero => rfl
  | succ retries ih =>
      simp only [PgStore.lastStart, firstCall, stop_zero]
      by_cases htransient : db.unreached n = true
      · simpa [htransient] using ih
      · simp [htransient]

/-- The last call decides over an event alone. -/
theorem alone_ends (hunavailable : db.Unavailable) (event : Event) (retries : ℕ)
    (s : Session Event) :
    Ends db s
      (retryOnTransient isTransientSqlxError (storeEventsBatch db i [event]) retries s).1
      (retryOnTransient isTransientSqlxError (storeEventsBatch db i [event]) retries s).2
      (firstCall (fun m => !db.unreached m) retries s.attempts.length)
      (fun stored => event = stored ∧
        db.answered (firstCall (fun m => !db.unreached m) retries s.attempts.length) = true) := by
  have hends := retryOnTransient_ends (i := i) hunavailable (List.cons_ne_nil event []) retries s
  have hmore : [event].length - 1 = 0 := rfl
  rw [hmore, stop_zero, lastStart_zero] at hends
  refine hends.congr fun stored => ?_
  constructor
  · rintro ⟨m, hm, hgained⟩
    obtain ⟨rfl, hanswered⟩ := gained_single.mp hgained
    rcases PgStore.mem_starts hm with rfl | ⟨-, htransient⟩
    · rw [← lastStart_zero s.useStoreCdevent]
      exact ⟨rfl, hanswered⟩
    · rw [stop_zero] at htransient
      exact absurd hanswered (PgStore.not_answered htransient)
  · rintro ⟨rfl, hanswered⟩
    rw [← lastStart_zero s.useStoreCdevent] at hanswered
    exact ⟨_, PgStore.lastStart_mem retries, gained_single.mpr ⟨rfl, hanswered⟩⟩

variable (db) in
theorem oneByOne_cons (event : Event) (events : List Event) (s : Session Event) :
    oneByOne isTransientSqlxError (fun i event => storeEventsBatch db i [event])
        db.server.retries i (event :: events) s =
      let chain := retryOnTransient isTransientSqlxError (storeEventsBatch db i [event])
        (db.server.retries i) s
      if transient isTransientSqlxError chain.1 then (false, chain.2)
      else oneByOne isTransientSqlxError (fun i event => storeEventsBatch db i [event])
        db.server.retries (i + 1) events chain.2 := by
  dsimp only
  split
  · rename_i htransient
    apply oneByOne_of_transient
    exact htransient
  · rename_i htransient
    apply oneByOne_of_not_transient
    exact Bool.eq_false_iff.mpr htransient

/-- The events are stored one by one until a chain is given up, and an event is stored unless its
chain ends with the end of the session. -/
theorem oneByOne_ends (hunavailable : db.Unavailable) (i : ℕ) (events : List Event)
    (s : Session Event) {stores : Bool × Session Event}
    (hstores : oneByOne isTransientSqlxError (fun i event => storeEventsBatch db i [event])
      db.server.retries i events s = stores) :
    (stores.1 = true ↔
      ∀ m ∈ db.lasts i s.attempts.length events.length, db.unreached m = false) ∧
    (stores.1 = true → ∀ event, Stored stores.2.attempts event ↔
      Stored s.attempts event ∨ ∃ (j m : ℕ), events[j]? = some event ∧
        (db.lasts i s.attempts.length events.length)[j]? = some m ∧ db.cutOff m = false) := by
  induction events generalizing i s with
  | nil =>
      subst hstores
      simp [oneByOne, PgStore.lasts]
  | cons event events ih =>
      have hends := alone_ends (i := i) hunavailable event (db.server.retries i) s
      rw [List.length_cons, PgStore.lasts]
      generalize firstCall (fun m => !db.unreached m) (db.server.retries i) s.attempts.length =
        last at hends ⊢
      cases htransient : db.unreached last with
      | true =>
          rw [oneByOne_cons, if_pos (hends.result.trans htransient)] at hstores
          subst hstores
          simp [htransient]
      | false =>
          have hnot := Bool.eq_false_iff.mp (hends.result.trans htransient)
          rw [oneByOne_cons, if_neg hnot] at hstores
          obtain ⟨hdone, hstored⟩ := ih (i + 1) _ hstores
          rw [hends.length] at hdone hstored
          refine ⟨by rw [hdone, List.forall_mem_cons, and_iff_right htransient], ?_⟩
          intro htrue stored
          have hanswered : db.answered last = true ↔ db.cutOff last = false := by
            rw [PgStore.answered, htransient, Bool.not_false, Bool.true_and, Bool.not_eq_true']
          rw [hstored htrue, hends.stored, or_assoc, hanswered]
          refine or_congr_right (Iff.trans (or_congr ?_ ?_) Nat.or_exists_add_one)
          · simp
          · simp only [List.getElem?_cons_succ]

/-! ### The whole store -/

theorem store_of_ok {batch : List Event} {s t : Session Event}
    (h : retryOnTransient isTransientSqlxError (storeEventsBatch db 0 batch)
      (db.server.retries 0) s = (.ok (), t)) : db.store batch s = (true, t) := by
  rw [PgStore.store, h]

theorem store_of_error {batch : List Event} {s t : Session Event} {err : SqlxError}
    (h : retryOnTransient isTransientSqlxError (storeEventsBatch db 0 batch)
      (db.server.retries 0) s = (.error err, t)) :
    db.store batch s =
      if isTransientSqlxError err then (false, t)
      else if batch.length > 1 then
        oneByOne isTransientSqlxError (fun i event => storeEventsBatch db i [event])
          db.server.retries 1 batch t
      else (true, t) := by
  rw [PgStore.store, h]

theorem older_mono (hshared : ∀ m n, m ≤ n → db.shared m = true → db.shared n = true) {m n : ℕ}
    (hle : m ≤ n) (h : db.older useStoreCdevent m = true) : db.older useStoreCdevent n = true := by
  rw [PgStore.older, Bool.or_eq_true] at h ⊢
  exact h.imp_right (hshared m n hle)

theorem PgStore.ne_ok_of_unreached (h : db.unreached n = true) : db.server.answer n ≠ .ok () := by
  intro hok
  rw [unreached, hok] at h
  cases h

/-- An attempt that does not use the older procedure and fails stores nothing. -/
theorem not_gained {batch : List Event} (hnewer : db.older useStoreCdevent n = false)
    (htransient : db.unreached (db.stop useStoreCdevent more n) = true) (event : Event) :
    ¬db.Gained useStoreCdevent batch n event := by
  rw [PgStore.stop, hnewer, if_neg Bool.false_ne_true] at htransient
  rw [PgStore.Gained, hnewer, if_neg Bool.false_ne_true]
  rintro (⟨hok, -⟩ | ⟨hanswered, -⟩)
  · exact PgStore.ne_ok_of_unreached htransient hok
  · exact PgStore.not_answered htransient hanswered

theorem gained_of_older {batch : List Event} {retries : ℕ}
    (holder : db.older useStoreCdevent (db.lastStart useStoreCdevent more retries n) = true)
    (event : Event) :
    (∃ m ∈ db.starts useStoreCdevent more retries n, db.Gained useStoreCdevent batch m event) ↔
      ∃ m ∈ db.starts useStoreCdevent more retries n,
        db.older useStoreCdevent m = true ∧ db.AnsweredIn useStoreCdevent batch m event := by
  refine exists_congr fun m => and_congr_right fun hm => ?_
  cases hold : db.older useStoreCdevent m with
  | true => rw [PgStore.Gained, hold, if_pos rfl, and_iff_right rfl]
  | false =>
      refine iff_of_false ?_ fun h => Bool.false_ne_true h.1
      rcases PgStore.mem_starts hm with rfl | ⟨-, htransient⟩
      · rw [holder] at hold
        cases hold
      · exact not_gained hold htransient event

/-- Where the last attempt does not use the older procedure, only it can have stored an event. -/
theorem gained_of_newer (hshared : ∀ m n, m ≤ n → db.shared m = true → db.shared n = true)
    {batch : List Event} {retries : ℕ}
    (hnewer : db.older useStoreCdevent (db.lastStart useStoreCdevent more retries n) = false)
    (event : Event) :
    (∃ m ∈ db.starts useStoreCdevent more retries n, db.Gained useStoreCdevent batch m event) ↔
      db.Gained useStoreCdevent batch (db.lastStart useStoreCdevent more retries n) event := by
  constructor
  · rintro ⟨m, hm, hgained⟩
    rcases PgStore.mem_starts hm with rfl | ⟨hle, htransient⟩
    · exact hgained
    · have hold : db.older useStoreCdevent m = false := by
        rw [Bool.eq_false_iff]
        intro h
        exact Bool.eq_false_iff.mp hnewer (older_mono hshared hle h)
      exact absurd hgained (not_gained hold htransient event)
  · exact fun hgained => ⟨_, PgStore.lastStart_mem retries, hgained⟩

/-- The events of a chunk that was refused are stored one by one. -/
theorem oneByOne_spares (hunavailable : db.Unavailable) {batch : List Event} {s : Session Event}
    (hlength : s.attempts.length = n + 1) (hrefused : ∀ event, ¬Stored s.attempts event) :
    ((oneByOne isTransientSqlxError (fun i event => storeEventsBatch db i [event])
        db.server.retries 1 batch s).1 = true → ∀ event ∈ batch,
      Stored (oneByOne isTransientSqlxError (fun i event => storeEventsBatch db i [event])
        db.server.retries 1 batch s).2.attempts event) ↔ db.SparesAlone batch n := by
  rcases hstores : oneByOne isTransientSqlxError
    (fun i event => storeEventsBatch db i [event]) db.server.retries 1 batch s with ⟨done, u⟩
  obtain ⟨hdone, hall⟩ := oneByOne_ends hunavailable 1 batch s hstores
  rw [hlength] at hdone hall
  rw [PgStore.SparesAlone]
  cases done with
  | false =>
      have hgiven : ∃ m ∈ db.lasts 1 (n + 1) batch.length, db.unreached m = true := by
        by_contra hnone
        refine Bool.false_ne_true (hdone.mpr fun m hm => ?_)
        exact Bool.eq_false_iff.mpr fun htrue => hnone ⟨m, hm, htrue⟩
      exact iff_of_true (fun h => absurd h Bool.false_ne_true) (Or.inl hgiven)
  | true =>
      have hnone : ¬∃ m ∈ db.lasts 1 (n + 1) batch.length, db.unreached m = true := by
        rintro ⟨m, hm, htrue⟩
        rw [hdone.mp rfl m hm] at htrue
        cases htrue
      rw [or_iff_right hnone, forall_prop_of_true rfl]
      refine forall₂_congr fun event _ => ?_
      rw [hall rfl, or_iff_right (hrefused event)]

/-- The chunk was answered by a call for all of its events. -/
theorem costs_nothing_of_newer (hunavailable : db.Unavailable) {batch : List Event}
    (hbatch : batch ≠ [])
    {s t : Session Event} {result : Except SqlxError Unit}
    (hchain : retryOnTransient isTransientSqlxError (storeEventsBatch db 0 batch)
      (db.server.retries 0) s = (result, t))
    (hlength : t.attempts.length = n + 1)
    (hstored : ∀ event, Stored t.attempts event ↔ db.Gained useStoreCdevent batch n event)
    (hnewer : db.older useStoreCdevent n = false) (hanswer : result = db.server.answer n)
    (htransient : db.unreached n = false) :
    ((db.store batch s).1 = true → ∀ event ∈ batch, Stored (db.store batch s).2.attempts event) ↔
      if batch.length = 1 then db.cutOff n = false
      else db.server.answer n = .ok () ∨ db.SparesAlone batch n := by
  have hanswered : db.answered n = true ↔ db.cutOff n = false := by
    rw [PgStore.answered, htransient, Bool.not_false, Bool.true_and, Bool.not_eq_true']
  cases result with
  | ok _ =>
      rw [store_of_ok hchain]
      refine iff_of_true (fun _ event hevent => (hstored event).mpr ?_) ?_
      · rw [PgStore.Gained, hnewer, if_neg Bool.false_ne_true]
        exact Or.inl ⟨hanswer.symm, hevent⟩
      · split
        · exact hanswered.mp (PgStore.answered_of_ok hanswer.symm)
        · exact Or.inl hanswer.symm
  | error err =>
      have hnot : isTransientSqlxError err ≠ true := by
        rw [PgStore.unreached, ← hanswer] at htransient
        exact Bool.eq_false_iff.mp htransient
      rw [store_of_error hchain, if_neg hnot]
      by_cases hone : batch.length = 1
      · obtain ⟨event, rfl⟩ := List.length_eq_one_iff.mp hone
        have hfew : ¬[event].length > 1 := Nat.lt_irrefl 1
        rw [if_neg hfew, if_pos hone]
        simp only [forall_const, List.forall_mem_singleton, hstored, gained_single, hanswered,
          true_and]
      · have hmany : batch.length > 1 := by
          have hpos := List.length_pos_iff.mpr hbatch
          omega
        have hrefused : ∀ event, ¬Stored t.attempts event := by
          intro event
          rw [hstored, PgStore.Gained, hnewer, if_neg Bool.false_ne_true, ← hanswer]
          rintro (⟨hok, -⟩ | ⟨-, rfl⟩)
          · cases hok
          · exact hone rfl
        rw [if_pos hmany, if_neg hone, ← hanswer, or_iff_right (by simp)]
        exact oneByOne_spares hunavailable hlength hrefused

theorem costs_nothing_iff (db : PgStore) (hunavailable : db.Unavailable)
    (hshared : ∀ m n, m ≤ n → db.shared m = true → db.shared n = true)
    {batch : List Event} (hbatch : batch ≠ []) (useStoreCdevent : Bool) :
    ((db.store batch (.start useStoreCdevent)).1 = true →
        ∀ event ∈ batch, Stored (db.store batch (.start useStoreCdevent)).2.attempts event) ↔
      db.Spares useStoreCdevent batch := by
  have hends := retryOnTransient_ends (i := 0) hunavailable hbatch (db.server.retries 0)
    (.start useStoreCdevent)
  have hempty : ∀ event, ¬Stored (.start useStoreCdevent : Session Event).attempts event :=
    fun event ⟨a, ha, _⟩ => List.not_mem_nil ha
  rcases hchain : retryOnTransient isTransientSqlxError (storeEventsBatch db 0 batch)
    (db.server.retries 0) (.start useStoreCdevent) with ⟨result, t⟩
  have hresult := retryOnTransient_result hunavailable hbatch _ _ _ _ hchain
  rw [hchain] at hends
  have hzero : (.start useStoreCdevent : Session Event).attempts.length = 0 := rfl
  have hflag : (.start useStoreCdevent : Session Event).useStoreCdevent = useStoreCdevent := rfl
  rw [hzero, hflag] at hends hresult
  obtain ⟨hends, hlength, -, hstored⟩ := hends
  replace hstored := fun event => (hstored event).trans (or_iff_right (hempty event))
  rw [PgStore.Spares]
  dsimp only at hends hresult hlength hstored ⊢
  cases htransient : db.unreached (db.stop useStoreCdevent (batch.length - 1)
    (db.lastStart useStoreCdevent (batch.length - 1) (db.server.retries 0) 0)) with
  | true =>
      -- the chunk is kept
      rw [htransient] at hends
      cases result with
      | ok _ => cases hends
      | error err =>
          have hkept : isTransientSqlxError err = true := hends
          rw [store_of_error hchain, if_pos hkept]
          simp
  | false =>
      rw [htransient] at hends
      simp only [Bool.false_eq_true, false_or]
      cases holder : db.older useStoreCdevent
        (db.lastStart useStoreCdevent (batch.length - 1) (db.server.retries 0) 0) with
      | true =>
          rw [hresult.2 holder hends] at hchain
          rw [store_of_ok hchain, if_pos rfl, forall_prop_of_true rfl]
          exact forall₂_congr fun event _ => (hstored event).trans (gained_of_older holder event)
      | false =>
          replace hstored := fun event =>
            (hstored event).trans (gained_of_newer hshared holder event)
          have hanswer := hresult.1 holder
          rw [PgStore.stop, holder, if_neg Bool.false_ne_true] at htransient hlength
          rw [if_neg Bool.false_ne_true]
          generalize db.lastStart useStoreCdevent (batch.length - 1) (db.server.retries 0) 0 = last
            at htransient hlength hstored hanswer holder ⊢
          exact costs_nothing_of_newer hunavailable hbatch hchain hlength hstored holder hanswer
            htransient

/-- An outage costs no event exactly if its answers spare the chunk. The flag
`USE_STORE_CDEVENT` is never taken back. -/
theorem unavailable_costs_nothing_iff (db : PgStore) (hunavailable : db.Unavailable)
    (hshared : ∀ m n, m ≤ n → db.shared m = true → db.shared n = true)
    (batch : List Event) (useStoreCdevent : Bool) :
    ((db.store batch (.start useStoreCdevent)).1 = true →
        ∀ event ∈ batch, Stored (db.store batch (.start useStoreCdevent)).2.attempts event) ↔
      db.Spares useStoreCdevent batch := by
  by_cases hnil : batch = []
  · subst hnil
    refine iff_of_true (fun _ => List.forall_mem_nil _) (Or.inr ?_)
    split
    · exact List.forall_mem_nil _
    · exact Or.inr (Or.inr (List.forall_mem_nil _))
  · exact costs_nothing_iff db hunavailable hshared hnil useStoreCdevent

end

/-- A server that is restarted: it cannot be reached, ends the session in answer to the chunk,
cannot be reached again and then answers. -/
def restarted : PgStore where
  server :=
    { answer n :=
        if n = 0 ∨ n = 2 then .error .io
        else if n = 1 then .error (.database (some "57P01")) else .ok ()
      retries _ := 2 }
  shared _ := false

theorem unavailable_costs_nothing_iff_sample :
    (restarted.store ["a", "b"] (.start false)).1 = true ∧
      ∀ event ∈ ["a", "b"],
        Stored (restarted.store ["a", "b"] (.start false)).2.attempts event := by
  have hdone : (restarted.store ["a", "b"] (.start false)).1 = true := by decide
  have hunavailable : restarted.Unavailable := by
    intro n err herr
    simp only [restarted] at herr
    split at herr
    · obtain rfl := Except.error.inj herr
      exact Or.inl rfl
    · split at herr
      · obtain rfl := Except.error.inj herr
        exact Or.inr (Or.inl (by decide))
      · cases herr
  have hspares : restarted.Spares false ["a", "b"] := by
    rw [PgStore.Spares]
    rw [if_neg (by decide), if_neg (by decide)]
    refine Or.inr (Or.inr (Or.inr fun event hevent => ?_))
    have hcases : event = "a" ∨ event = "b" := by simpa using hevent
    rcases hcases with rfl | rfl
    · exact ⟨0, 3, by decide⟩
    · exact ⟨1, 4, by decide⟩
  have hiff := unavailable_costs_nothing_iff restarted hunavailable (fun _ _ _ h => h) ["a", "b"]
    false
  exact ⟨hdone, hiff.mpr hspares hdone⟩

/-- An event alone in its chunk is dropped when the server is shut down. -/
theorem shutdown_costs_event :
    ¬ ∀ (db : PgStore) (batch : List String) (useStoreCdevent : Bool),
      (∀ n err, db.server.answer n = .error err →
        isTransientSqlxError err = true ∨ endsSession err = true) →
      (db.store batch (.start useStoreCdevent)).1 = true →
        ∀ event ∈ batch, Stored (db.store batch (.start useStoreCdevent)).2.attempts event := by
  intro h
  let db := PgStore.once fun _ => .error (.database (some "57P01"))
  have hlog : (db.store ["a"] (.start false)).2.attempts =
      [⟨0, .storeCdevents ["a"], .error (.database (some "57P01"))⟩] := by decide
  have hstored := h db ["a"] false
  rw [hlog] at hstored
  obtain ⟨a, ha, haccepts⟩ := hstored
    (by intro n err herr
        cases herr
        exact .inr (by decide))
    (by decide) "a" (by simp)
  rw [List.mem_singleton.mp ha] at haccepts
  rcases haccepts with ⟨hok, -⟩ | ⟨err, herr, hcode, -⟩
  · cases hok
  · cases herr
    revert hcode
    decide

end CdvizCollector.Sinks.Db
