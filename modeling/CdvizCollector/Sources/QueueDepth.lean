import CdvizCollector.Lib.Binary64
import CdvizCollector.Lib.Broadcast
import CdvizCollector.Lib.System
import CdvizCollector.Sources.SendCdevents

/-!
Back-pressure of the webhook sources (`Processor::new` and the check of
`Processor::send` in `sources/send_cdevents.rs`).

A source checks the depth of the queue and sends later; in between, other sources
do the same and the sinks receive. The mutex of a source makes it one event at a
time. So the depth can pass the watermark by what is between a check and its
send, one event a source, and `Feed.Within` counts just that.
-/

namespace CdvizCollector.Sources

open Lib

/-! ### The watermark -/

/-- `HIGH_WATERMARK_RATIO`: the float next to 0.8 is this number over `2 ^ 53`. -/
def highWatermarkRatio : ℕ := 7205759403792794

/-- The watermark of a queue capacity. -/
def highWatermark (cap : ℕ) : ℕ :=
  max (min Text.maxU64 (Binary64.mulTruncate highWatermarkRatio 53 (Binary64.ofNat cap))) 1

def Processor.new (defaultSourceUrl : String) (queueCapacity : Option ℕ) : Processor :=
  { defaultSourceUrl, highWatermark := queueCapacity.map Sources.highWatermark }

theorem highWatermark_pos (cap : ℕ) : 1 ≤ highWatermark cap := Nat.le_max_right _ _

/-- The ratio is below 1 by more than the two roundings may add. -/
theorem highWatermarkRatio_lt :
    (2 ^ 53 + 1) * (2 ^ 53 + 1) * highWatermarkRatio ≤ 2 ^ 106 * 2 ^ 53 := by
  unfold highWatermarkRatio
  decide

theorem highWatermark_le {cap : ℕ} (h : 1 ≤ cap) : highWatermark cap ≤ cap := by
  have hscaled := Binary64.mulTruncate_ofNat_le highWatermarkRatio_lt cap
  unfold highWatermark
  omega

example : highWatermark 1000 = 800 ∧ highWatermark 1 = 1 := by decide

theorem saturated_eq_none_iff {P : Processor} {watermark : ℕ} {o : Observation}
    (h : P.highWatermark = some watermark) : P.saturated o = none ↔ o.queued < watermark := by
  rw [Processor.saturated, h, Option.bind_some]
  by_cases hle : watermark ≤ o.queued
  · simp [hle]
  · simp [hle, Nat.lt_of_not_le hle]

/-! ### Sources and sinks around one channel -/

/-- Where a source is: waiting for an event, or past the check of one that is
still to be sent. -/
inductive Phase where
  | idle
  | admitted
deriving DecidableEq, Repr

structure Feed (CDEvent : Type) where
  channel : Broadcast (Message CDEvent)
  sources : List Phase

variable {CDEvent : Type} {cap capacity N : ℕ}

/-- The sources past their check. -/
def Feed.admitted (s : Feed CDEvent) : ℕ := s.sources.count .admitted

/-- The steps of the sources, each on its own, and of the sinks. The channel was
made for `cap` messages and holds `capacity`. -/
inductive Feed.Step (cap capacity : ℕ) (s : Feed CDEvent) : Feed CDEvent → Prop
  | accept {l l' : List Phase} (url : String) (o : Observation)
      (hidle : s.sources = l ++ .idle :: l') (hqueued : o.queued = s.channel.len capacity)
      (hcheck : (Processor.new url (some cap)).saturated o = none) :
      Step cap capacity s { s with sources := l ++ .admitted :: l' }
  | refuse {l l' : List Phase} (url : String) (o : Observation)
      (hidle : s.sources = l ++ .idle :: l') (hqueued : o.queued = s.channel.len capacity)
      (hcheck : (Processor.new url (some cap)).saturated o ≠ none) : Step cap capacity s s
  | enqueue {l l' : List Phase} (message : Message CDEvent)
      (hadmitted : s.sources = l ++ .admitted :: l') (hreceivers : s.channel.receivers ≠ []) :
      Step cap capacity s { channel := s.channel.send message, sources := l ++ .idle :: l' }
  | abandon {l l' : List Phase} (hadmitted : s.sources = l ++ .admitted :: l') :
      Step cap capacity s { s with sources := l ++ .idle :: l' }
  | drain {channel : Broadcast (Message CDEvent)}
      (h : Broadcast.Drain capacity s.channel channel) : Step cap capacity s { s with channel }

/-- A send of a source is its check and, in whatever state the feed is by then, its
message or the lack of one. -/
theorem send_steps (S : Sdk CDEvent) (url : String) (observe : ℕ → Observation)
    (q : Queue CDEvent) (input : Event) {s t : Feed CDEvent} {l l' m m' : List Phase}
    (hidle : s.sources = l ++ .idle :: l')
    (hqueued : (observe q.sends).queued = s.channel.len capacity)
    (hadmitted : t.sources = m ++ .admitted :: m')
    (hreceivers : (observe q.sends).receivers = true → t.channel.receivers ≠ []) :
    ∃ messages, ((Processor.new url (some cap)).send S observe q input).2.enqueued =
        q.enqueued ++ messages.map (input, ·) ∧
      (Feed.Step cap capacity s s ∧ messages = [] ∨
        Feed.Step cap capacity s { s with sources := l ++ .admitted :: l' } ∧
          Feed.Step cap capacity t
            { channel := messages.foldl Broadcast.send t.channel
              sources := m ++ .idle :: m' }) := by
  rcases send_enqueued S (Processor.new url (some cap)) observe q input with
    hsame | ⟨message, hcheck, hrecv, hone⟩
  · refine ⟨[], by simpa using hsame, ?_⟩
    by_cases hcheck : (Processor.new url (some cap)).saturated (observe q.sends) = none
    · exact .inr ⟨.accept url _ hidle hqueued hcheck, .abandon hadmitted⟩
    · exact .inl ⟨.refuse url _ hidle hqueued hcheck, rfl⟩
  · exact ⟨[message], hone,
      .inr ⟨.accept url _ hidle hqueued hcheck, .enqueue message hadmitted (hreceivers hrecv)⟩⟩

/-- `N` webhook sources that feed one channel. -/
def feedSystem (CDEvent : Type) (cap capacity N : ℕ) : System (Feed CDEvent) where
  init s := s = { channel := ⟨[], []⟩, sources := List.replicate N .idle }
  step := Feed.Step cap capacity

/-- The depth of the queue, counting what the sources past their check may add;
and the sinks have missed nothing. -/
structure Feed.Within (cap N : ℕ) (s : Feed CDEvent) : Prop where
  length : s.sources.length = N
  depth : s.channel.unseen + s.admitted < highWatermark cap + N
  complete : ∀ r ∈ s.channel.receivers, s.channel.Complete r

theorem count_admitted_split (l l' : List Phase) (phase : Phase) :
    (l ++ phase :: l').count .admitted =
      l.count .admitted + l'.count .admitted + if phase = .admitted then 1 else 0 := by
  rw [List.count_append, List.count_cons]
  simp only [beq_iff_eq]
  omega

theorem Feed.Within.step {s t : Feed CDEvent} (hcap : cap ≤ capacity)
    (hN : highWatermark cap + N ≤ cap + 1) (hs : s.Within cap N)
    (hstep : Feed.Step cap capacity s t) : t.Within cap N := by
  have hlength := hs.length
  have hdepth := hs.depth
  have hunseen : s.channel.unseen ≤ capacity := by omega
  cases hstep with
  | @accept l l' url o hidle hqueued hcheck =>
      rw [saturated_eq_none_iff rfl, hqueued, Broadcast.len_eq_unseen hunseen] at hcheck
      refine ⟨?_, ?_, hs.complete⟩
      · rw [hidle] at hlength
        simpa using hlength
      · rw [Feed.admitted, count_admitted_split]
        have hl := List.count_le_length (a := Phase.admitted) (l := l)
        have hl' := List.count_le_length (a := Phase.admitted) (l := l')
        rw [hidle, List.length_append, List.length_cons] at hlength
        simp only [if_true]
        omega
  | refuse => exact hs
  | @enqueue l l' message hadmitted hreceivers =>
      have hsend := Broadcast.unseen_send_le s.channel message
      rw [Feed.admitted, hadmitted, count_admitted_split] at hdepth
      refine ⟨?_, ?_, fun r hr => (hs.complete r hr).send message⟩
      · rw [hadmitted] at hlength
        simpa using hlength
      · rw [Feed.admitted, count_admitted_split]
        simp only [if_true, reduceCtorEq, if_false] at hdepth ⊢
        omega
  | @abandon l l' hadmitted =>
      rw [Feed.admitted, hadmitted, count_admitted_split] at hdepth
      refine ⟨?_, ?_, hs.complete⟩
      · rw [hadmitted] at hlength
        simpa using hlength
      · rw [Feed.admitted, count_admitted_split]
        simp only [if_true, reduceCtorEq, if_false] at hdepth ⊢
        omega
  | @drain channel h =>
      have hle := h.unseen_le
      refine ⟨hlength, ?_, h.complete hunseen hs.complete⟩
      show channel.unseen + s.admitted < _
      omega

theorem within_invariant (hcap : cap ≤ capacity) (hN : highWatermark cap + N ≤ cap + 1) :
    (feedSystem CDEvent cap capacity N).Invariant (Feed.Within cap N) where
  init := by
    rintro s rfl
    have hpos := highWatermark_pos cap
    refine ⟨List.length_replicate, ?_, by simp⟩
    have hcount : (List.replicate N Phase.idle).count .admitted = 0 :=
      List.count_replicate.trans (if_neg (by decide))
    show 0 + (List.replicate N Phase.idle).count .admitted < _
    omega
  step := fun hs hstep => hs.step hcap hN hstep

/-- With few enough sources, whatever the order of their checks and sends and
however slow the sinks are, the queue stays within its capacity and no sink misses
a message. -/
theorem no_eviction (hcap : 1 ≤ cap) (hcapacity : cap ≤ capacity)
    (hN : N ≤ cap - highWatermark cap + 1) {s : Feed CDEvent}
    (h : (feedSystem CDEvent cap capacity N).Reachable s) :
    highWatermark cap ≤ cap ∧ s.channel.unseen ≤ cap ∧
      ∀ r ∈ s.channel.receivers, s.channel.Complete r := by
  have hwatermark := highWatermark_le hcap
  have hs := (within_invariant hcapacity (by omega)).holds h
  have hdepth := hs.depth
  exact ⟨hwatermark, by omega, hs.complete⟩

/-- A sink, and two of three sources past their check before either sends. -/
theorem no_eviction_sample :
    ∃ s : Feed Unit, (feedSystem Unit 10 16 3).Reachable s ∧ s.channel.unseen = 2 ∧
      highWatermark 10 ≤ 10 ∧ s.channel.unseen ≤ 10 ∧
      ∀ r ∈ s.channel.receivers, s.channel.Complete r := by
  let free : Observation := { queued := 0, receivers := true, now := "", context := [] }
  let message : Message Unit := ⟨(), []⟩
  have hfree : (Processor.new "" (some 10)).saturated free = none :=
    (saturated_eq_none_iff rfl).mpr (by decide)
  have hstart : (feedSystem Unit 10 16 3).Reachable
      { channel := ⟨[], []⟩, sources := [.idle, .idle, .idle] } := .init rfl
  have hsubscribed := hstart.next (.drain .subscribe)
  have hone := hsubscribed.next (.accept (l := []) "" free rfl rfl hfree)
  have htwo := hone.next (.accept (l := [.admitted]) "" free rfl rfl hfree)
  have hsent := htwo.next (.enqueue (l := []) message rfl (by simp))
  have hboth := hsent.next (.enqueue (l := [.idle]) message rfl (by simp [Broadcast.send]))
  exact ⟨_, hboth, rfl, no_eviction (by decide) (by decide) (by decide) hboth⟩

end CdvizCollector.Sources
