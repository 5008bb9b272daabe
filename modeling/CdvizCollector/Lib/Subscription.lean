import CdvizCollector.Lib.Broadcast

/-!
What one receiver of a bounded broadcast channel is told.

Each call of `recv` gives the next value, or says how many values the receiver
has missed. The log of these answers accounts for the sequence of sent values:
`Reads` lays it over the sequence, each value at its place and each notice over
the values it stands for.
-/

namespace CdvizCollector.Lib

universe u v

/-- An answer of `Receiver::recv`. -/
inductive Delivery (α : Type u) where
  | value (x : α)
  | lagged (skipped : ℕ)
deriving DecidableEq, Repr

namespace Delivery

variable {α : Type u}

/-- How far the receiver is moved. -/
def width : Delivery α → ℕ
  | value _ => 1
  | lagged skipped => skipped

def asValue : Delivery α → Option α
  | value x => some x
  | lagged _ => none

def isValue : Delivery α → Bool
  | value _ => true
  | lagged _ => false

/-- How many values the answer says are lost. -/
def missed : Delivery α → ℕ
  | value _ => 0
  | lagged skipped => skipped

end Delivery

variable {α : Type u} {capacity start next : ℕ} {sent : List α} {log : List (Delivery α)}

/-- `Receiver::recv` at position `next`, of a channel that holds the last `capacity`
values; nothing while there is none to see. -/
def poll (capacity : ℕ) (sent : List α) (next : ℕ) : Option (Delivery α) :=
  if capacity < sent.length - next then some (.lagged (sent.length - next - capacity))
  else sent[next]?.map .value

/-- The values of a log, in order. -/
def values (log : List (Delivery α)) : List α := log.filterMap Delivery.asValue

/-- How many values the notices of a log say are lost. -/
def missed (log : List (Delivery α)) : ℕ := log.foldr (fun d n => d.missed + n) 0

/-- The log of a receiver that subscribed at `start` and has got to `next`. -/
inductive Reads (sent : List α) (start : ℕ) : List (Delivery α) → ℕ → Prop
  | subscribed (h : start ≤ sent.length) : Reads sent start [] start
  | value {log : List (Delivery α)} {next : ℕ} {x : α} (h : Reads sent start log next)
      (hx : sent[next]? = some x) : Reads sent start (log ++ [.value x]) (next + 1)
  | lagged {log : List (Delivery α)} {next skipped : ℕ} (h : Reads sent start log next)
      (hpos : 0 < skipped) (hle : next + skipped ≤ sent.length) :
      Reads sent start (log ++ [.lagged skipped]) (next + skipped)

@[simp] theorem values_nil : values ([] : List (Delivery α)) = [] := rfl

@[simp] theorem values_append_value (log : List (Delivery α)) (x : α) :
    values (log ++ [.value x]) = values log ++ [x] := by
  rw [values, List.filterMap_append]
  rfl

@[simp] theorem values_append_lagged (log : List (Delivery α)) (skipped : ℕ) :
    values (log ++ [.lagged skipped]) = values log := by
  rw [values, List.filterMap_append]
  exact List.append_nil _

@[simp] theorem missed_nil : missed ([] : List (Delivery α)) = 0 := rfl

@[simp] theorem missed_append (log log' : List (Delivery α)) :
    missed (log ++ log') = missed log + missed log' := by
  induction log with
  | nil => exact (Nat.zero_add _).symm
  | cons d log ih =>
      show d.missed + missed (log ++ log') = d.missed + missed log + missed log'
      rw [ih, Nat.add_assoc]

@[simp] theorem missed_value (x : α) : missed [Delivery.value x] = 0 := rfl

@[simp] theorem missed_lagged (skipped : ℕ) :
    missed [(.lagged skipped : Delivery α)] = skipped := rfl

/-- A receiver waits exactly when it has seen everything; it cannot be ahead. -/
theorem poll_eq_none_iff (h : next ≤ sent.length) :
    poll capacity sent next = none ↔ next = sent.length := by
  unfold poll
  split
  · rename_i hlag
    simp only [reduceCtorEq, false_iff]
    omega
  · rw [Option.map_eq_none_iff, List.getElem?_eq_none_iff]
    omega

theorem poll_eq_value {x : α} (h : poll capacity sent next = some (.value x)) :
    sent[next]? = some x := by
  unfold poll at h
  split at h
  · simp at h
  · obtain ⟨y, hy, heq⟩ := Option.map_eq_some_iff.mp h
    rw [hy, Delivery.value.inj heq]

/-- Values are lost only by a receiver that is further behind than the channel holds. -/
theorem poll_eq_lagged {skipped : ℕ} (h : poll capacity sent next = some (.lagged skipped)) :
    capacity < sent.length - next ∧ skipped = sent.length - next - capacity := by
  unfold poll at h
  split at h
  · rename_i hlag
    exact ⟨hlag, (Delivery.lagged.inj (Option.some.inj h)).symm⟩
  · obtain ⟨y, -, heq⟩ := Option.map_eq_some_iff.mp h
    cases heq

namespace Reads

theorem next_le (h : Reads sent start log next) : next ≤ sent.length := by
  cases h with
  | subscribed h => exact h
  | value h hx => exact (List.getElem?_eq_some_iff.mp hx).1
  | lagged h hpos hle => exact hle

/-- What an answer of `recv` adds to the log. -/
theorem poll {d : Delivery α} (h : Reads sent start log next)
    (hpoll : poll capacity sent next = some d) :
    Reads sent start (log ++ [d]) (next + d.width) := by
  cases d with
  | value x => exact h.value (poll_eq_value hpoll)
  | lagged skipped =>
      obtain ⟨hlag, rfl⟩ := poll_eq_lagged hpoll
      refine h.lagged ?_ ?_ <;> omega

/-- More is sent. -/
theorem mono (h : Reads sent start log next) (more : List α) :
    Reads (sent ++ more) start log next := by
  induction h with
  | subscribed h =>
      refine .subscribed ?_
      rw [List.length_append]
      omega
  | value h hx ih =>
      refine ih.value ?_
      rwa [List.getElem?_append_left (List.getElem?_eq_some_iff.mp hx).1]
  | lagged h hpos hle ih =>
      refine ih.lagged hpos ?_
      rw [List.length_append]
      omega

/-- Each position up to `next` is that of one value of the log, or is counted in one
notice. -/
theorem length_add_missed (h : Reads sent start log next) :
    start + ((values log).length + missed log) = next := by
  induction h with
  | subscribed h => rfl
  | value h hx ih =>
      rw [values_append_value, List.length_append, missed_append, missed_value,
        List.length_singleton]
      omega
  | lagged h hpos hle ih =>
      rw [values_append_lagged, missed_append, missed_lagged]
      omega

theorem start_le (h : Reads sent start log next) : start ≤ next := by
  have := h.length_add_missed
  omega

/-- The log of a receiver is one over any sequence that goes on as its own does from where
it subscribed. -/
theorem shift {sent' : List α} {start' : ℕ} (h : Reads sent start log next)
    (hle : start' ≤ sent'.length) (hdrop : sent'.drop start' = sent.drop start) :
    Reads sent' start' log (start' + (next - start)) := by
  have hlen := congrArg List.length hdrop
  rw [List.length_drop, List.length_drop] at hlen
  induction h with
  | subscribed h =>
      rw [Nat.sub_self]
      exact .subscribed hle
  | @value log next x h hx ih =>
      have hstart := h.start_le
      have hmoved : start' + (next + 1 - start) = start' + (next - start) + 1 := by omega
      rw [hmoved]
      refine ih.value ?_
      rw [← List.getElem?_drop, hdrop, List.getElem?_drop]
      have hback : start + (next - start) = next := by omega
      rwa [hback]
  | @lagged log next skipped h hpos hle' ih =>
      have hstart := h.start_le
      have hmoved : start' + (next + skipped - start) = start' + (next - start) + skipped := by
        omega
      rw [hmoved]
      exact ih.lagged hpos (by omega)

/-- The values are some of those sent since the subscription, in their order, none of
them twice. -/
theorem values_sublist (h : Reads sent start log next) :
    (values log).Sublist ((sent.take next).drop start) := by
  induction h with
  | subscribed h => exact List.nil_sublist _
  | @value log next x h hx ih =>
      have hlen : start ≤ (sent.take next).length := by
        rw [List.length_take]
        exact Nat.le_min.mpr ⟨h.start_le, h.start_le.trans h.next_le⟩
      rw [values_append_value, List.take_add_one, hx, Option.toList_some,
        List.drop_append_of_le_length hlen]
      exact ih.append (List.Sublist.refl _)
  | @lagged log next skipped h hpos hle ih =>
      rw [values_append_lagged]
      refine ih.trans (List.Sublist.drop ?_ _)
      exact (List.take_prefix_take_left (by omega)).sublist

/-- A receiver that was told of no loss has got everything. -/
theorem values_eq (h : Reads sent start log next) (hmissed : missed log = 0) :
    values log = (sent.take next).drop start := by
  refine h.values_sublist.eq_of_length ?_
  have hsum := h.length_add_missed
  have hle := h.next_le
  rw [List.length_drop, List.length_take]
  omega

/-- No loss was told exactly when every answer was a value. -/
theorem missed_eq_zero_iff (h : Reads sent start log next) :
    missed log = 0 ↔ log.all Delivery.isValue = true := by
  induction h with
  | subscribed h => exact ⟨fun _ => rfl, fun _ => rfl⟩
  | value h hx ih =>
      rw [missed_append, missed_value, Nat.add_zero, ih, List.all_append]
      simp [Delivery.isValue]
  | lagged h hpos hle ih =>
      rw [missed_append, missed_lagged, List.all_append]
      simp [Delivery.isValue, Nat.ne_of_gt hpos]

end Reads

end CdvizCollector.Lib
