import CdvizCollector.Lib.Recent
import CdvizCollector.Transformers.Delivery

/-!
What `deduplicate` remembers (`transformers/deduplicate.rs`).

The stage is followed by a pipe that takes note of what it is offered, and that
answers as it likes. The keys remembered are the last ones that were offered.
-/

namespace CdvizCollector.Transformers

open Lib

variable {σ : Type}

/-- A pipe with the events it was offered. -/
def recording (next : Pipe σ) : Pipe (List Event × σ) := fun s event =>
  let answer := next s.2 event
  (answer.1, (s.1 ++ [event], answer.2))

/-- The state after some events, whatever is answered to them. -/
def sendAll (pipe : Pipe σ) (events : List Event) (s : σ) : σ :=
  events.foldl (fun s event => (pipe s event).2) s

/-- A stage as it was built, in front of a recording pipe. -/
structure Offers (σ : Type) where
  text : Json → String
  capacity : ℕ
  keyPath : String
  next : Pipe σ

namespace Offers

variable (D : Offers σ)

/-- The key of an event, if it has one. -/
def key (event : Event) : Option String := (event.body.pointer D.keyPath).map D.text

def send : Pipe (List String × (List Event × σ)) :=
  Deduplicate.send D.text D.capacity D.keyPath (recording D.next)

/-- The keys that were offered, in order. -/
def keys (offered : List Event) : List String := offered.filterMap D.key

theorem dedupKey_eq (hpos : 0 < D.capacity) (event : Event) :
    dedupKey D.text D.capacity D.keyPath event = D.key event := by
  unfold dedupKey
  rw [if_neg (by omega)]
  rfl

/-! ### One event -/

variable {D} {seen : List String} {offered : List Event} {s : σ} {event : Event} {k : String}

theorem send_of_zero (hzero : D.capacity = 0) (seen : List String) (offered : List Event) (s : σ)
    (event : Event) :
    D.send (seen, (offered, s)) event =
      ((D.next s event).1, (seen, (offered ++ [event], (D.next s event).2))) := by
  have hkey : dedupKey D.text D.capacity D.keyPath event = none := by
    unfold dedupKey
    rw [if_pos hzero]
  exact Deduplicate.send_of_no_key hkey _ _ _

variable (hpos : 0 < D.capacity)

include hpos

theorem send_of_no_key (hkey : D.key event = none) :
    D.send (seen, (offered, s)) event =
      ((D.next s event).1, (seen, (offered ++ [event], (D.next s event).2))) :=
  Deduplicate.send_of_no_key ((D.dedupKey_eq hpos event).trans hkey) _ _ _

theorem send_of_seen (hkey : D.key event = some k) (hseen : k ∈ seen) :
    D.send (seen, (offered, s)) event = (.ok, (seen, (offered, s))) :=
  Deduplicate.send_of_seen ((D.dedupKey_eq hpos event).trans hkey) _ hseen _

theorem send_of_new (hkey : D.key event = some k) (hseen : k ∉ seen) :
    D.send (seen, (offered, s)) event =
      ((D.next s event).1, ((if D.capacity ≤ seen.length then seen.drop 1 else seen) ++ [k],
        (offered ++ [event], (D.next s event).2))) := by
  have hne : D.capacity ≠ 0 := by omega
  have hkey : (event.body.pointer D.keyPath).map D.text = some k := hkey
  simp only [send, Deduplicate.send, hne, if_false, hkey, hseen]
  rfl

omit hpos

/-! ### A run -/

/-- What a stage remembers of the keys that were offered. -/
structure Remembered (D : Offers σ) (seen : List String) (offered : List Event) : Prop where
  last : seen = (D.keys offered).rtake D.capacity
  spread : Recent.Spread D.capacity (D.keys offered)

theorem remembered_send (hpos : 0 < D.capacity) (h : Remembered D seen offered) (s : σ)
    (event : Event) :
    Remembered D (D.send (seen, (offered, s)) event).2.1
      (D.send (seen, (offered, s)) event).2.2.1 := by
  cases hkey : D.key event with
  | none =>
      rw [send_of_no_key hpos hkey]
      have hkeys : D.keys (offered ++ [event]) = D.keys offered := by
        simp [keys, hkey]
      exact ⟨by rw [hkeys]; exact h.last, by rw [hkeys]; exact h.spread⟩
  | some k =>
      by_cases hseen : k ∈ seen
      · rw [send_of_seen hpos hkey hseen]
        exact h
      · rw [send_of_new hpos hkey hseen]
        have hkeys : D.keys (offered ++ [event]) = D.keys offered ++ [k] := by
          simp [keys, hkey]
        obtain ⟨n, hcapacity⟩ := Nat.exists_eq_add_of_lt hpos
        rw [Nat.zero_add] at hcapacity
        constructor
        · rw [hkeys, hcapacity, Recent.rtake_concat, ← hcapacity, ← h.last]
        · rw [hkeys]
          exact h.spread.concat (h.last ▸ hseen)

theorem remembered_sendAll (hpos : 0 < D.capacity) (events : List Event) {seen : List String}
    {offered : List Event} (h : Remembered D seen offered) (s : σ) :
    Remembered D (sendAll D.send events (seen, (offered, s))).1
      (sendAll D.send events (seen, (offered, s))).2.1 := by
  induction events generalizing seen offered s with
  | nil => exact h
  | cons event events ih => exact ih (remembered_send hpos h s event) _

theorem offered_of_zero (hzero : D.capacity = 0) (events : List Event) (seen : List String)
    (offered : List Event) (s : σ) :
    (sendAll D.send events (seen, (offered, s))).2.1 = offered ++ events := by
  induction events generalizing seen offered s with
  | nil => exact (List.append_nil offered).symm
  | cons event events ih =>
      show (sendAll D.send events (D.send (seen, (offered, s)) event).2).2.1 = _
      rw [send_of_zero hzero, ih, List.append_assoc, List.singleton_append]

/-- The stage, what it offered and the next pipe after some events. -/
def after (D : Offers σ) (s : σ) (events : List Event) : List String × (List Event × σ) :=
  sendAll D.send events ([], ([], s))

theorem remembered_after (D : Offers σ) (hpos : 0 < D.capacity) (s : σ) (events : List Event) :
    Remembered D (D.after s events).1 (D.after s events).2.1 := by
  apply remembered_sendAll hpos
  exact ⟨by simp [keys, List.rtake], Recent.spread_nil _⟩

/-- An event is dropped or offered to the next pipe. -/
theorem send_eq (hpos : 0 < D.capacity) (now : List String × (List Event × σ)) (event : Event) :
    ((∃ k ∈ now.1, D.key event = some k) → D.send now event = (.ok, now)) ∧
    (¬(∃ k ∈ now.1, D.key event = some k) →
      (D.send now event).1 = (recording D.next now.2 event).1 ∧
      (D.send now event).2.2 = (recording D.next now.2 event).2) := by
  obtain ⟨seen, offered, s⟩ := now
  constructor
  · rintro ⟨k, hseen, hkey⟩
    exact send_of_seen hpos hkey hseen
  · intro hnot
    cases hkey : D.key event with
    | none =>
        rw [send_of_no_key hpos hkey]
        exact ⟨rfl, rfl⟩
    | some k =>
        rw [send_of_new hpos hkey fun hseen => hnot ⟨k, hseen, hkey⟩]
        exact ⟨rfl, rfl⟩

end Offers

/-- After any events: the keys remembered are the last ones offered, of which none
comes twice within the capacity; what comes next is dropped if its key is among
them and is offered if not; without a capacity everything is offered. -/
theorem remembers_last_keys (D : Offers σ) (s : σ) (events : List Event) :
    let now := D.after s events
    (0 < D.capacity →
      now.1 = (D.keys now.2.1).rtake D.capacity ∧
      now.1.length = min D.capacity (D.keys now.2.1).length ∧ now.1.Nodup ∧
      (∀ i, (((D.keys now.2.1).drop i).take D.capacity).Nodup) ∧
      ∀ event, ((∃ k ∈ now.1, D.key event = some k) → D.send now event = (.ok, now)) ∧
        (¬(∃ k ∈ now.1, D.key event = some k) →
          (D.send now event).1 = (recording D.next now.2 event).1 ∧
          (D.send now event).2.2 = (recording D.next now.2 event).2)) ∧
    (D.capacity = 0 → now.2.1 = events) := by
  intro now
  constructor
  · intro hpos
    have hremembered : Offers.Remembered D now.1 now.2.1 := D.remembered_after hpos s events
    refine ⟨hremembered.last, ?_, ?_, hremembered.spread, Offers.send_eq hpos now⟩
    · rw [hremembered.last, Recent.length_rtake]
    · rw [hremembered.last]
      exact hremembered.spread.rtake
  · intro hzero
    exact Offers.offered_of_zero hzero events [] [] s

/-- A window of two keys, before a pipe that refuses everything. -/
def twoKeys : Offers Unit where
  text value := value.asStr.getD ""
  capacity := 2
  keyPath := "/id"
  next s _ := (.err (.rejected "no"), s)

def eventWithId (id : String) : Event := ⟨.null, [], .obj [("id", .str id)]⟩

/-- The oldest key is forgotten, and comes again. -/
theorem remembers_last_keys_sample :
    let now := twoKeys.after () [eventWithId "a", eventWithId "b", eventWithId "b",
      eventWithId "c", eventWithId "a"]
    twoKeys.keys now.2.1 = ["a", "b", "c", "a"] ∧ now.1 = ["c", "a"] ∧
      twoKeys.send now (eventWithId "c") = (.ok, now) := by
  intro now
  obtain ⟨hlast, -, -, -, hsend⟩ := (remembers_last_keys twoKeys () _).1 (by decide)
  have hkeys : twoKeys.keys now.2.1 = ["a", "b", "c", "a"] := by decide
  have hnow : now.1 = ["c", "a"] := hlast.trans (by rw [hkeys]; rfl)
  refine ⟨hkeys, hnow, (hsend (eventWithId "c")).1 ⟨"c", ?_, rfl⟩⟩
  rw [hnow]
  exact List.mem_cons_self

end CdvizCollector.Transformers
