import CdvizCollector.Sinks.BatchFlush

/-!
The size trigger of the batcher.

A push that fills the active slot leaves a permit, and a permit starts one
drain. That drain stores the active slot only when it finds the sealed one
empty: with leftovers of a failed drain it stores these, and nothing is left to
tell that the active slot is full. The runs in which this does not happen are
told apart by what the drain finds when it takes its slot.
-/

namespace CdvizCollector.Sinks.Batch

open Lib

variable {α : Type} {P : Params α} {s t : State α}

/-! ### Runs watched from outside -/

/-- The length `push_items` has read off the active slot and not yet compared with
`batch_max_size`. -/
def Writer.appended : Writer α → Option ℕ
  | .notifying len _ => some len
  | _ => none

/-- The active slot is not full, or a permit for it is pending or about to be left. -/
def State.triggered (P : Params α) (s : State α) : Bool :=
  decide (s.active.items.length < P.max) || s.notify ||
    s.writer.appended.any fun len => decide (P.max ≤ len)

/-- What `drain_sealed` returns in a step of the flusher from one position to the other. -/
def Flusher.returned : Flusher α → Flusher α → Option Bool
  | .swapping _, .chunking _ _ _ _ => none
  | .swapping _, _ => some true
  | .truncating _ _, _ => some true
  | .puttingBack _ _ _ _, _ => some false
  | _, _ => none

/-- A state with what is remembered of the run. -/
structure Watched (α : Type) where
  state : State α
  /-- What the last `drain_sealed` returned. -/
  last : Bool
  /-- The last drain of the timer or of a permit took up leftovers behind a full active slot for
  which no permit was left, and nothing has been pushed since. -/
  late : Bool

def Watched.wrote (w : Watched α) (t : State α) : Watched α :=
  { w with state := t, late := w.late && t.writer.appended.isNone }

def Watched.drained (P : Params α) (w : Watched α) (t : State α) : Watched α :=
  { state := t
    last := (w.state.flusher.returned t.flusher).getD w.last
    late :=
      match w.state.flusher with
      | .swapping .tick => !w.state.sealed.items.isEmpty && !w.state.triggered P
      | _ => w.late }

inductive WatchedStep (P : Params α) : Watched α → Watched α → Prop
  | client {w : Watched α} {t : State α} (h : ClientStep P w.state t) :
      WatchedStep P w { w with state := t }
  | writer {w : Watched α} {t : State α} (h : WriterStep P w.state t) :
      WatchedStep P w (w.wrote t)
  | flusher {w : Watched α} {t : State α} (h : FlusherStep P w.state t) :
      WatchedStep P w (w.drained P t)

/-- The batcher, watched. -/
def watchedSystem (P : Params α) : System (Watched α) where
  init w := (system P).init w.state ∧ w.last = false ∧ w.late = false
  step := WatchedStep P

theorem WatchedStep.state {w v : Watched α} (h : WatchedStep P w v) :
    Step P w.state v.state := by
  cases h with
  | client h => exact .client h
  | writer h => exact .writer h
  | flusher h => exact .flusher h

/-- Watching a run does not change what it can do. -/
theorem watched_reachable :
    (system P).Reachable s ↔ ∃ w, (watchedSystem P).Reachable w ∧ w.state = s := by
  constructor
  · intro h
    induction h with
    | init h => exact ⟨⟨_, false, false⟩, .init ⟨h, rfl, rfl⟩, rfl⟩
    | next _ hstep ih =>
        obtain ⟨w, hw, rfl⟩ := ih
        cases hstep with
        | client h => exact ⟨_, hw.next (.client h), rfl⟩
        | writer h => exact ⟨_, hw.next (.writer h), rfl⟩
        | flusher h => exact ⟨_, hw.next (.flusher h), rfl⟩
  · rintro ⟨w, hw, rfl⟩
    induction hw with
    | init h => exact .init h.1
    | next _ hstep ih => exact ih.next hstep.state

/-! ### The permit and the active slot -/

theorem triggered_iff : s.triggered P = true ↔
    s.active.items.length < P.max ∨ s.notify = true ∨
      ∃ len, s.writer.appended = some len ∧ P.max ≤ len := by
  simp only [State.triggered, Bool.or_eq_true, decide_eq_true_eq, Option.any_eq_true, or_assoc]

theorem triggered_of_nil (h : s.active.items = []) : s.triggered P = true := by
  rw [triggered_iff, h]
  exact .inl P.max_pos

/-- A push that has not yet compared its length leaves the permit if one is due. -/
theorem triggered_of_appended {len : ℕ} (hlen : s.writer.appended = some len)
    (hle : s.active.items.length ≤ len) : s.triggered P = true := by
  rw [triggered_iff]
  rcases Nat.lt_or_ge len P.max with hlt | hge
  · exact .inl (hle.trans_lt hlt)
  · exact .inr (.inr ⟨len, hlen, hge⟩)

theorem triggered_congr (hactive : t.active.items.length = s.active.items.length)
    (hnotify : t.notify = s.notify) (hwriter : t.writer.appended = s.writer.appended) :
    t.triggered P = s.triggered P := by
  simp only [State.triggered, hactive, hnotify, hwriter]

/-- What a step of the writer does to the trigger. -/
inductive WriterTrigger (P : Params α) (s t : State α) : Prop
  | quiet (hactive : t.active.items.length = s.active.items.length)
      (hnotify : t.notify = s.notify) (hidle : s.writer.appended = none)
      (hwriter : t.writer.appended = none)
  | pushed (hwriter : t.writer.appended = some t.active.items.length)
  | notified (len : ℕ) (hlen : s.writer.appended = some len) (hwriter : t.writer.appended = none)
      (hactive : t.active.items.length = s.active.items.length)
      (hnotify : t.notify = (s.notify || decide (P.max ≤ len)))

@[simp] theorem AfterPush.appended_writer (next : AfterPush α) :
    (next.writer : Writer α).appended = none := by cases next <;> rfl

theorem WriterStep.trigger (h : WriterStep P s t) : WriterTrigger P s t := by
  cases h with
  | pushExtended hpc =>
      exact .pushed (by simp [Writer.appended, State.active])
  | pushNotified hpc =>
      exact .notified _ (by rw [hpc]; rfl) (AfterPush.appended_writer _) rfl rfl
  | pushNothing hpc =>
      exact .quiet rfl rfl (by rw [hpc]; rfl) (AfterPush.appended_writer _)
  | pushWritten hpc | pushWriteFails _ _ hpc =>
      exact .quiet (by simp [State.active, Slot.writeAll]) rfl (by rw [hpc]; rfl) rfl
  | recvMany _ hpc | recvClosed hpc | scanPush hpc | scanFlush hpc | scanEnd hpc
  | pushUnspooled hpc | pushSynced hpc | flushSent hpc | flushClosed hpc =>
      exact .quiet rfl rfl (by rw [hpc]; rfl) rfl

theorem WriterTrigger.triggered (h : WriterTrigger P s t) (hs : s.triggered P = true) :
    t.triggered P = true := by
  cases h with
  | quiet hactive hnotify hidle hwriter =>
      rwa [triggered_congr hactive hnotify (hwriter.trans hidle.symm)]
  | pushed hwriter => exact triggered_of_appended hwriter le_rfl
  | notified len hlen hwriter hactive hnotify =>
      rw [triggered_iff] at hs ⊢
      rw [hactive, hnotify]
      rcases hs with hlt | hpermit | ⟨len', hlen', hle⟩
      · exact .inl hlt
      · exact .inr (.inl (by rw [hpermit]; rfl))
      · obtain rfl := Option.some.inj (hlen.symm.trans hlen')
        exact .inr (.inl (by simp [hle]))

/-- The slot that is active after a drain has taken its own. -/
theorem Buffers.active_swap_take (b : Buffers α) :
    (b.swap.take.2.slots b.swap.take.2.active).items =
      if (b.slots b.sealed).items.isEmpty then [] else (b.slots b.active).items := by
  by_cases hempty : (b.slots b.sealed).items = []
  · simp [Buffers.swap, Buffers.take, hempty, Buffers.sealed_of_active_sealed]
  · simp [Buffers.swap, Buffers.take, hempty]

/-- A drain that finds the sealed slot empty takes the active one, full or not; with leftovers to
take up it leaves the active slot as it is. -/
theorem triggered_taken (fl : Flusher α) :
    ({ s with flusher := fl, buffers := s.buffers.swap.take.2 } : State α).triggered P =
      (s.sealed.items.isEmpty || s.triggered P) := by
  have hactive := s.buffers.active_swap_take
  cases hempty : s.sealed.items.isEmpty with
  | true =>
      rw [show (s.buffers.slots s.buffers.sealed).items.isEmpty = true from hempty,
        if_pos rfl] at hactive
      exact triggered_of_nil hactive
  | false =>
      rw [show (s.buffers.slots s.buffers.sealed).items.isEmpty = false from hempty,
        if_neg nofun] at hactive
      exact triggered_congr (congrArg List.length hactive) rfl rfl

/-- A step of the flusher leaves the active slot as it is, or swaps an empty one in. -/
theorem FlusherStep.active_items (h : FlusherStep P s t) (hs : Draining P s) :
    t.active.items = s.active.items ∨ t.active.items = [] := by
  cases h with
  | swapped | swappedEmpty =>
      simp only [State.active, Buffers.active_swap_take]
      split
      · exact .inr rfl
      · exact .inl rfl
  | putBack hpc =>
      obtain ⟨rfl, -⟩ := hs.sealed _ (by rw [hpc]; rfl)
      exact .inl (by simp [State.active])
  | truncated hpc =>
      obtain ⟨rfl, -⟩ := hs.sealed _ (by rw [hpc]; rfl)
      exact .inl (by simp [State.active])
  | checkedEmpty => exact .inl (by simp [State.active])
  | _ => exact .inl rfl

/-! ### What a drain took up -/

/-- While a drain of the timer or of a permit holds what it took, `late` tells whether the
trigger is lost. -/
structure Watching (P : Params α) (w : Watched α) : Prop where
  draining : Draining P w.state
  appended : ∀ len, w.state.writer.appended = some len → w.state.active.items.length ≤ len
  taken : w.state.flusher.caller = some .tick → w.state.flusher.draining ≠ none →
    w.late = !w.state.triggered P

theorem Watching.not_appended {w : Watched α} (hw : Watching P w)
    (hlost : w.state.triggered P = false) : w.state.writer.appended = none := by
  cases hlen : w.state.writer.appended with
  | none => rfl
  | some len =>
      have htriggered := triggered_of_appended (P := P) hlen (hw.appended len hlen)
      exact absurd (htriggered.symm.trans hlost) nofun

theorem Watching.client {w : Watched α} (hw : Watching P w) (h : ClientStep P w.state t) :
    Watching P { w with state := t } := by
  have hdraining := (draining_invariant P).step hw.draining (.client h)
  cases h <;> exact ⟨hdraining, hw.appended, hw.taken⟩

theorem Watching.writer {w : Watched α} (hw : Watching P w) (h : WriterStep P w.state t) :
    Watching P (w.wrote t) := by
  have hflusher := h.effect.elim fun _ heffect => heffect.flusher
  refine ⟨(draining_invariant P).step hw.draining (.writer h), ?_, ?_⟩
  · intro len hlen
    rw [Watched.wrote] at hlen ⊢
    cases h.trigger with
    | quiet _ _ _ hwriter => cases hwriter.symm.trans hlen
    | pushed hwriter => exact Nat.le_of_eq (Option.some.inj (hwriter.symm.trans hlen))
    | notified _ _ hwriter => cases hwriter.symm.trans hlen
  · intro hcaller hdraining
    have htaken := hw.taken (hflusher ▸ hcaller) (hflusher ▸ hdraining)
    change (w.late && t.writer.appended.isNone) = !t.triggered P
    cases hlost : w.state.triggered P with
    | true =>
        rw [htaken, hlost, h.trigger.triggered hlost]
        rfl
    | false =>
        -- the trigger is lost, so no push is under way and only a new one can restore it
        have hidle := hw.not_appended hlost
        rw [htaken, hlost]
        cases h.trigger with
        | quiet hactive hnotify _ hwriter =>
            rw [hwriter, triggered_congr hactive hnotify (hwriter.trans hidle.symm), hlost]
            rfl
        | pushed hwriter =>
            rw [hwriter, triggered_of_appended hwriter le_rfl]
            rfl
        | notified len hlen => cases hidle.symm.trans hlen

theorem Watched.late_taken {w : Watched α} (hpc : w.state.flusher = .swapping .tick) :
    (w.drained P t).late = (!w.state.sealed.items.isEmpty && !w.state.triggered P) := by
  simp only [Watched.drained, hpc]

theorem Watched.late_drained {w : Watched α} (hpc : ∀ d, w.state.flusher ≠ .swapping d) :
    (w.drained P t).late = w.late := by
  rw [Watched.drained]
  split
  · exact absurd ‹_› (hpc _)
  · rfl

theorem Watching.flusher {w : Watched α} (hw : Watching P w) (h : FlusherStep P w.state t) :
    Watching P (w.drained P t) := by
  refine ⟨(draining_invariant P).step hw.draining (.flusher h), ?_, ?_⟩
  · intro len hlen
    have hle := hw.appended len (h.rx.2 ▸ hlen)
    rcases h.active_items hw.draining with hsame | hnil
    · exact (congrArg List.length hsame).trans_le hle
    · exact (congrArg List.length hnil).trans_le (Nat.zero_le _)
  · intro hcaller hdraining
    change t.flusher.caller = some .tick at hcaller
    change t.flusher.draining ≠ none at hdraining
    change (w.drained P t).late = !t.triggered P
    cases h with
    | @swapped d hpc =>
        -- the only step that decides anew what `late` is
        obtain rfl : d = .tick := Option.some.inj hcaller
        rw [Watched.late_taken hpc, triggered_taken, Bool.not_or]
    | chunk hpc | chunksDone hpc | storeTrue hpc | storeFalse hpc =>
        have htaken := hw.taken (by rw [hpc]; exact hcaller) (by rw [hpc]; nofun)
        rw [Watched.late_drained (by simp [hpc]), htaken]
        rfl
    | swappedEmpty | truncated | truncateFails => exact absurd (Drain.draining_drained _) hdraining
    | putBack | checkedEmpty => exact absurd (Drain.draining_finish _ _) hdraining
    | timer | notified | flushReceived | flushClosed | checkedFull => exact absurd rfl hdraining

theorem watching_invariant (P : Params α) : (watchedSystem P).Invariant (Watching P) where
  init := by
    rintro ⟨_, _, _⟩ ⟨⟨dir, b, -, rfl⟩, -, -⟩
    exact ⟨.of_idle rfl, nofun, fun _ hdraining => absurd rfl hdraining⟩
  step := by
    intro w v hw hstep
    cases hstep with
    | client h => exact hw.client h
    | writer h => exact hw.writer h
    | flusher h => exact hw.flusher h

/-! ### The trigger is kept -/

/-- The drain of the timer or of a permit that ends in the step, with all it took stored, has not
left behind a full active slot for which no permit was left. -/
def InTime (w v : Watched α) : Prop :=
  ∀ i, w.state.flusher = .truncating .tick i → v.state.flusher ≠ w.state.flusher → w.late = false

/-- The runs all of whose steps are in time. -/
def inTimeSystem (P : Params α) : System (Watched α) where
  init := (watchedSystem P).init
  step w v := WatchedStep P w v ∧ InTime w v

/-- While the flusher waits in its `select!`, its last drain having returned `true`, and no push
is under way, the active slot is not full or a permit is pending. -/
def Kept (P : Params α) (w : Watched α) : Prop :=
  w.state.flusher = .selecting → w.last = true → w.state.writer.appended = none →
    w.state.active.items.length < P.max ∨ w.state.notify = true

/-- The trigger as it is between drains, pushes that are under way included. -/
def Ready (P : Params α) (w : Watched α) : Prop :=
  w.state.flusher = .selecting → w.last = true → w.state.triggered P = true

theorem Ready.kept {w : Watched α} (h : Ready P w) : Kept P w := by
  intro hpc hlast hidle
  rcases triggered_iff.mp (h hpc hlast) with hlt | hpermit | ⟨len, hlen, -⟩
  · exact .inl hlt
  · exact .inr hpermit
  · cases hidle.symm.trans hlen

/-- Only a drain of the timer or of a permit goes back to the `select!` without looking at both
slots. -/
theorem Drain.tick_of_drained {d : Drain} (h : (d.drained : Flusher α) = .selecting) :
    d = .tick := by
  cases d with
  | tick => rfl
  | startup | flush => cases h

theorem Ready.flusher {w : Watched α} (hw : Watching P w) (h : FlusherStep P w.state t)
    (htime : InTime w (w.drained P t)) : Ready P (w.drained P t) := by
  intro hpc hlast
  change t.flusher = .selecting at hpc
  change t.triggered P = true
  -- the trigger survives a drain that is in time
  have hlate : ∀ i, w.state.flusher = .truncating .tick i → w.state.triggered P = true := by
    intro i hpc'
    have htaken := hw.taken (by rw [hpc']; rfl) (by rw [hpc']; nofun)
    have hmoved : t.flusher ≠ w.state.flusher := by
      rw [hpc, hpc']
      nofun
    rw [htime i hpc' hmoved] at htaken
    simpa using htaken.symm
  cases h with
  | swappedEmpty _ _ hitems =>
      -- nothing to take: both slots are empty
      have hempty : w.state.sealed.items = [] :=
        Buffers.items_of_allEmpty (Buffers.allEmpty_of_load (Buffers.load_of_take_nil hitems)) _
      rw [triggered_taken, hempty]
      rfl
  | @truncated d i hpc' =>
      obtain ⟨rfl, -⟩ := hw.draining.sealed i (by rw [hpc']; rfl)
      obtain rfl := Drain.tick_of_drained hpc
      rw [← hlate _ hpc']
      exact triggered_congr (by simp [State.active]) rfl rfl
  | truncateFails _ hpc' =>
      obtain rfl := Drain.tick_of_drained hpc
      exact hlate _ hpc'
  | putBack hpc' =>
      rw [Watched.drained, hpc'] at hlast
      cases hlast
  | @checkedEmpty d hpc' hlock hempty =>
      refine triggered_of_nil ?_
      rw [State.active, Drain.buffers_finish, Buffers.items_of_allEmpty hempty]
  | timer | notified | flushReceived | flushClosed | swapped | chunk | chunksDone | storeTrue
  | storeFalse | checkedFull => cases hpc

theorem ready_invariant (P : Params α) :
    (inTimeSystem P).Invariant fun w => Watching P w ∧ Ready P w where
  init h := ⟨(watching_invariant P).init h, fun _ hlast => absurd (hlast.symm.trans h.2.1) nofun⟩
  step := by
    rintro w v ⟨hw, hready⟩ ⟨hstep, htime⟩
    refine ⟨(watching_invariant P).step hw hstep, ?_⟩
    cases hstep with
    | client h =>
        cases h with
        | push | flush | drop => exact hready
    | writer h =>
        have hflusher := h.effect.elim fun _ heffect => heffect.flusher
        intro hpc hlast
        exact h.trigger.triggered (hready (hflusher ▸ hpc) hlast)
    | flusher h => exact Ready.flusher hw h htime

/-- A step that is not in time leaves a full batch to the timer. -/
theorem not_kept {w v : Watched α} (hw : Watching P w) (hstep : WatchedStep P w v)
    (hlate : ¬InTime w v) : ¬Kept P v := by
  simp only [InTime, not_forall] at hlate
  obtain ⟨i, hpc, hmoved, hlate⟩ := hlate
  have hlost : w.state.triggered P = false := by
    have htaken := hw.taken (by rw [hpc]; rfl) (by rw [hpc]; nofun)
    simpa [htaken] using hlate
  have hidle := hw.not_appended hlost
  cases hstep with
  | client h => exact absurd h.effect.2.1 hmoved
  | writer h => exact absurd (h.effect.elim fun _ heffect => heffect.flusher) hmoved
  | @flusher t h =>
      intro hkept
      have hlast : (w.drained P t).last = true := by simp [Watched.drained, hpc, Flusher.returned]
      have hends : t.flusher = .selecting → t.triggered P = false → False := by
        intro hselecting htriggered
        rcases hkept hselecting hlast (h.rx.2 ▸ hidle) with hlt | hpermit
        · cases htriggered.symm.trans (triggered_iff.mpr (.inl hlt))
        · cases htriggered.symm.trans (triggered_iff.mpr (.inr (.inl hpermit)))
      rcases h.of_truncating hpc with rfl | rfl
      · obtain ⟨rfl, -⟩ := hw.draining.sealed i (by rw [hpc]; rfl)
        refine hends rfl ?_
        rw [← hlost]
        exact triggered_congr (by simp [State.active]) rfl rfl
      · exact hends rfl hlost

/-- The size trigger is never lost in a run whose steps are in time, and any other step loses it. -/
theorem trigger_kept_iff (P : Params α) :
    (∀ w, (inTimeSystem P).Reachable w → Kept P w) ∧
    ∀ w v, (watchedSystem P).Reachable w → WatchedStep P w v → ¬InTime w v → ¬Kept P v :=
  ⟨fun _ hw => ((ready_invariant P).holds hw).2.kept,
    fun _ _ hw hstep hlate => not_kept ((watching_invariant P).holds hw) hstep hlate⟩

/-- A push fills the active slot while the flusher waits. -/
theorem trigger_kept_push : ∃ w, (inTimeSystem Params.unspooled).Reachable w ∧
    w.state.flusher = .selecting ∧ w.last = true ∧ w.state.active.items = [true] ∧
      Kept Params.unspooled w := by
  have hstart : (inTimeSystem Params.unspooled).Reachable _ :=
    .init (s := ⟨_, false, false⟩) ⟨⟨none, _, rfl, rfl⟩, rfl, rfl⟩
  have hidle := (hstart.next ⟨.flusher (.swappedEmpty rfl rfl rfl), nofun⟩).next
    ⟨.flusher (.checkedEmpty rfl rfl rfl), nofun⟩
  have hrecv := (hidle.next ⟨.client (.push true rfl (by decide)), nofun⟩).next
    ⟨.writer (.recvMany 1 rfl (by decide) (by decide) (by decide)), nofun⟩
  have hscan := (hrecv.next ⟨.writer (.scanPush rfl), nofun⟩).next
    ⟨.writer (.scanEnd rfl), nofun⟩
  have hlocked := hscan.next ⟨.writer (.pushUnspooled rfl (by decide) rfl), nofun⟩
  have hpushed := (hlocked.next ⟨.writer (.pushExtended rfl), nofun⟩).next
    ⟨.writer (.pushNotified rfl), nofun⟩
  exact ⟨_, hpushed, rfl, rfl, rfl, (trigger_kept_iff Params.unspooled).1 _ hpushed⟩

/-- An item pushed during an outage is put back. The target is reachable again when the next one
fills the other slot: its permit is spent on the leftovers, and the full slot waits. -/
theorem full_batch_waits : ∃ w, (watchedSystem Params.unspooled).Reachable w ∧
    w.state.flusher = .selecting ∧ w.last = true ∧ w.state.writer = .receiving ∧
      ¬(w.state.active.items.length < Params.unspooled.max ∨ w.state.notify = true) := by
  have hstart : (watchedSystem Params.unspooled).Reachable _ :=
    .init (s := ⟨_, false, false⟩) ⟨⟨none, _, rfl, rfl⟩, rfl, rfl⟩
  have hidle := (hstart.next (.flusher (.swappedEmpty rfl rfl rfl))).next
    (.flusher (.checkedEmpty rfl rfl rfl))
  have hrecv := (hidle.next (.client (.push true rfl (by decide)))).next
    (.writer (.recvMany 1 rfl (by decide) (by decide) (by decide)))
  have hscan := (hrecv.next (.writer (.scanPush rfl))).next (.writer (.scanEnd rfl))
  have hpushed := ((hscan.next (.writer (.pushUnspooled rfl (by decide) rfl))).next
    (.writer (.pushExtended rfl))).next (.writer (.pushNotified rfl))
  have htaken := ((hpushed.next (.flusher (.notified rfl rfl))).next
    (.flusher (.swapped rfl rfl (by decide)))).next (.flusher (.chunk rfl (by decide)))
  have hback := (htaken.next (.flusher (.storeFalse rfl))).next (.flusher (.putBack rfl rfl))
  have hrecv' := (hback.next (.client (.push false rfl (by decide)))).next
    (.writer (.recvMany 1 rfl (by decide) (by decide) (by decide)))
  have hscan' := (hrecv'.next (.writer (.scanPush rfl))).next (.writer (.scanEnd rfl))
  have hpushed' := ((hscan'.next (.writer (.pushUnspooled rfl (by decide) rfl))).next
    (.writer (.pushExtended rfl))).next (.writer (.pushNotified rfl))
  have htaken' := ((hpushed'.next (.flusher (.notified rfl rfl))).next
    (.flusher (.swapped rfl rfl (by decide)))).next (.flusher (.chunk rfl (by decide)))
  have hstored := ((htaken'.next (.flusher (.storeTrue rfl))).next
    (.flusher (.chunksDone rfl (by decide)))).next (.flusher (.truncated rfl rfl))
  exact ⟨_, hstored, rfl, rfl, rfl, by decide⟩

end CdvizCollector.Sinks.Batch
