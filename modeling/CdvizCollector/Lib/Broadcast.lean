import Mathlib.Data.List.Basic
import Mathlib.Data.Nat.Notation
import Mathlib.Order.Lattice

/-!
A bounded broadcast channel: every receiver gets every value, and a receiver that
falls behind by more than the channel holds misses the oldest ones.

A receiver is its position in the sequence of sent values. The channel counts as
queued what some receiver has still to see, as far as it is held; while no
receiver is further behind than the channel holds, that is everything unseen.
-/

namespace CdvizCollector.Lib

universe u

/-- A receiver: where it subscribed, the next value it will see, and what it got. -/
structure Receiver (α : Type u) where
  start : ℕ
  next : ℕ
  received : List α

/-- All values sent so far, in order, and the receivers. -/
structure Broadcast (α : Type u) where
  sent : List α
  receivers : List (Receiver α)

namespace Broadcast

variable {α : Type u}

/-- How many values a receiver has still to see. -/
def lag (c : Broadcast α) (r : Receiver α) : ℕ := c.sent.length - r.next

/-- How many values have not been seen by all receivers. -/
def unseen (c : Broadcast α) : ℕ := c.receivers.foldr (fun r n => max (c.lag r) n) 0

/-- `Sender::len`: what is not held any more does not count. -/
def len (capacity : ℕ) (c : Broadcast α) : ℕ := min capacity c.unseen

def send (c : Broadcast α) (x : α) : Broadcast α := { c with sent := c.sent ++ [x] }

/-- `Receiver::recv`: a receiver that lags goes on with the oldest value held. -/
def recv (capacity : ℕ) (c : Broadcast α) (r : Receiver α) : Receiver α :=
  if capacity < c.lag r then { r with next := c.sent.length - capacity }
  else
    match c.sent[r.next]? with
    | some x => { r with next := r.next + 1, received := r.received ++ [x] }
    | none => r

/-- A new receiver sees what is sent from now on. -/
def subscribe (c : Broadcast α) : Receiver α :=
  { start := c.sent.length, next := c.sent.length, received := [] }

/-- What the receivers do on their own: receive, come and go. -/
inductive Drain (capacity : ℕ) (c : Broadcast α) : Broadcast α → Prop
  | recv {l l' : List (Receiver α)} {r : Receiver α} (h : c.receivers = l ++ r :: l') :
      Drain capacity c { c with receivers := l ++ c.recv capacity r :: l' }
  | subscribe : Drain capacity c { c with receivers := c.receivers ++ [c.subscribe] }
  | drop {l l' : List (Receiver α)} {r : Receiver α} (h : c.receivers = l ++ r :: l') :
      Drain capacity c { c with receivers := l ++ l' }

/-- Nothing was missed since the subscription. -/
structure Complete (c : Broadcast α) (r : Receiver α) : Prop where
  start_le : r.start ≤ r.next
  next_le : r.next ≤ c.sent.length
  received : r.received = (c.sent.take r.next).drop r.start

theorem unseen_le_iff {c : Broadcast α} {n : ℕ} :
    c.unseen ≤ n ↔ ∀ r ∈ c.receivers, c.lag r ≤ n := by
  unfold unseen
  induction c.receivers with
  | nil => simp
  | cons r l ih => rw [List.foldr_cons, List.forall_mem_cons, ← ih, Nat.max_le]

theorem lag_le_unseen {c : Broadcast α} {r : Receiver α} (h : r ∈ c.receivers) :
    c.lag r ≤ c.unseen :=
  unseen_le_iff.mp (Nat.le_refl _) r h

theorem len_eq_unseen {capacity : ℕ} {c : Broadcast α} (h : c.unseen ≤ capacity) :
    c.len capacity = c.unseen :=
  Nat.min_eq_right h

theorem unseen_send_le (c : Broadcast α) (x : α) : (c.send x).unseen ≤ c.unseen + 1 := by
  refine unseen_le_iff.mpr fun r hr => ?_
  have hlag := lag_le_unseen (c := c) hr
  simp only [lag, send, List.length_append, List.length_singleton] at hlag ⊢
  omega

theorem Complete.send {c : Broadcast α} {r : Receiver α} (h : c.Complete r) (x : α) :
    (c.send x).Complete r where
  start_le := h.start_le
  next_le := by
    have := h.next_le
    rw [Broadcast.send, List.length_append]
    omega
  received := by rw [h.received, Broadcast.send, List.take_append_of_le_length h.next_le]

/-- Receiving reduces the lag. -/
theorem lag_recv_le (capacity : ℕ) (c : Broadcast α) (r : Receiver α) :
    c.lag (c.recv capacity r) ≤ c.lag r := by
  unfold recv
  split
  · rename_i hlag
    simp only [lag] at hlag ⊢
    omega
  · split
    · simp only [lag]
      omega
    · exact Nat.le_refl _

/-- A receiver that is not too far behind gets the next value. -/
theorem Complete.recv {capacity : ℕ} {c : Broadcast α} {r : Receiver α} (h : c.Complete r)
    (hlag : c.lag r ≤ capacity) : c.Complete (c.recv capacity r) := by
  unfold Broadcast.recv
  rw [if_neg (Nat.not_lt.mpr hlag)]
  cases hnext : c.sent[r.next]? with
  | none => exact h
  | some x =>
      obtain ⟨hlt, hx⟩ := List.getElem?_eq_some_iff.mp hnext
      have hlen : r.start ≤ (c.sent.take r.next).length := by
        rw [List.length_take]
        exact Nat.le_min.mpr ⟨h.start_le, h.start_le.trans h.next_le⟩
      refine ⟨h.start_le.trans (Nat.le_succ _), hlt, ?_⟩
      show r.received ++ [x] = (c.sent.take (r.next + 1)).drop r.start
      rw [h.received, List.take_add_one, hnext, Option.toList_some,
        List.drop_append_of_le_length hlen]

theorem complete_subscribe (c : Broadcast α) : c.Complete c.subscribe where
  start_le := Nat.le_refl _
  next_le := Nat.le_refl _
  received := by simp [subscribe]

/-- The receivers of a drained channel are the ones it had, one of them a value
further, or a new one. -/
theorem Drain.mem {capacity : ℕ} {c c' : Broadcast α} (h : Drain capacity c c') :
    c'.sent = c.sent ∧ ∀ r' ∈ c'.receivers, r' = c.subscribe ∨
      ∃ r ∈ c.receivers, r' = r ∨ r' = c.recv capacity r := by
  cases h with
  | @recv l l' r hreceivers =>
      refine ⟨rfl, fun r' hr' => .inr ?_⟩
      rcases List.mem_append.mp hr' with hl | hl
      · exact ⟨r', hreceivers ▸ List.mem_append_left _ hl, .inl rfl⟩
      · rcases List.mem_cons.mp hl with rfl | hl
        · exact ⟨r, hreceivers ▸ List.mem_append_right _ List.mem_cons_self, .inr rfl⟩
        · exact ⟨r', hreceivers ▸ List.mem_append_right _ (List.mem_cons_of_mem _ hl), .inl rfl⟩
  | subscribe =>
      refine ⟨rfl, fun r' hr' => ?_⟩
      rcases List.mem_append.mp hr' with hl | hl
      · exact .inr ⟨r', hl, .inl rfl⟩
      · exact .inl (List.mem_singleton.mp hl)
  | @drop l l' r hreceivers =>
      refine ⟨rfl, fun r' hr' => .inr ⟨r', ?_, .inl rfl⟩⟩
      rw [hreceivers]
      rcases List.mem_append.mp hr' with hl | hl
      · exact List.mem_append_left _ hl
      · exact List.mem_append_right _ (List.mem_cons_of_mem _ hl)

theorem Drain.unseen_le {capacity : ℕ} {c c' : Broadcast α} (h : Drain capacity c c') :
    c'.unseen ≤ c.unseen := by
  obtain ⟨hsent, hmem⟩ := h.mem
  refine unseen_le_iff.mpr fun r' hr' => ?_
  have hlag : c'.lag r' = c.lag r' := by rw [lag, lag, hsent]
  rw [hlag]
  rcases hmem r' hr' with rfl | ⟨r, hr, rfl | rfl⟩
  · show c.sent.length - c.sent.length ≤ c.unseen
    omega
  · exact lag_le_unseen hr
  · exact (lag_recv_le capacity c r).trans (lag_le_unseen hr)

/-- As long as the channel holds all that is unseen, no receiver misses anything. -/
theorem Drain.complete {capacity : ℕ} {c c' : Broadcast α} (h : Drain capacity c c')
    (hunseen : c.unseen ≤ capacity) (hc : ∀ r ∈ c.receivers, c.Complete r) :
    ∀ r ∈ c'.receivers, c'.Complete r := by
  obtain ⟨hsent, hmem⟩ := h.mem
  intro r' hr'
  have hcomplete : c.Complete r' := by
    rcases hmem r' hr' with rfl | ⟨r, hr, rfl | rfl⟩
    · exact complete_subscribe c
    · exact hc _ hr
    · exact (hc r hr).recv ((lag_le_unseen hr).trans hunseen)
  exact ⟨hcomplete.start_le, hsent ▸ hcomplete.next_le, hsent ▸ hcomplete.received⟩

end Broadcast

end CdvizCollector.Lib
