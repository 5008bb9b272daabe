import CdvizCollector.Sources.WindowTiling

/-!
The windows of both polling sources under a clock that may be set back, or that is behind
the instant a source starts at.

The start of a window is stored and its end is taken from the clock, without a look at the
start. Whether a process goes forward is therefore decided by the readings of the clock.
-/

namespace CdvizCollector.Sources

open Lib Checkpoint

/-! ### A clock that is set -/

section Clocked

variable {E : Type}

/-- The readings that `compute_ts_before` makes in a process, the newest first: one for its
first window and one for each move. -/
def readings (s t : Run E) (before : List Timestamp) : List Timestamp :=
  if t.history.length = s.history.length then before
  else
    match t.history with
    | .opened _ _ :: _ => [s.now]
    | .advanced _ :: _ => s.now :: before
    | _ => before

/-- The steps of a source, and those of a clock that may show anything next. -/
inductive Clocked (step : Run E → Run E → Prop) :
    Run E × List Timestamp → Run E × List Timestamp → Prop
  | set {s : Run E} {before : List Timestamp} (now : Timestamp) :
      Clocked step (s, before) ({ s with now }, before)
  | step {s t : Run E} {before : List Timestamp} (hstep : step s t) :
      Clocked step (s, before) (t, readings s t before)

/-- The runs of a source from its first start on, with any checkpoint. -/
def clockedSystem (step : Run E → Run E → Prop) : System (Run E × List Timestamp) where
  init s := s.1.Fresh ∧ s.2 = []
  step := Clocked step

end Clocked

/-- What the process that is there did. -/
def sinceOpened : Tiling.History Timestamp → Tiling.History Timestamp
  | [] => []
  | .opened _ _ :: _ => []
  | entry :: history => entry :: sinceOpened history

def openedAt : Tiling.History Timestamp → Option Timestamp
  | [] => none
  | .opened at' _ :: _ => some at'
  | _ :: history => openedAt history

/-- No window is inverted that was worked on, or left for one that starts at its end, and
neither is the next one, if there is one. -/
structure Forward (filter : TimeWindow) (history : Tiling.History Timestamp) : Prop where
  processed : ∀ w, .processed w ∈ history → w.start ≤ w.stop
  advanced : ∀ w, .advanced w ∈ history → w.start ≤ w.stop
  next : filter.isAtLimit = false → filter.tsAfter ≤ filter.tsBefore

/-- The first reading is after the start, and none is before the reading before it, unless
the limit is reached. -/
def Steady (tsAfter : Timestamp) (limit : Option Timestamp) : List Timestamp → Prop
  | [] => True
  | [now] => (∃ lim ∈ limit, lim ≤ tsAfter) ∨ tsAfter + timeMargin ≤ now
  | now :: before :: rest =>
      ((∃ lim ∈ limit, lim + timeMargin ≤ before) ∨ before ≤ now) ∧
        Steady tsAfter limit (before :: rest)

/-! ### The windows of a process -/

/-- The window of a process with these readings, and what it did with those before. -/
inductive Trail (tsAfter : Timestamp) (limit : Option Timestamp) :
    List Timestamp → TimeWindow → Tiling.History Timestamp → Prop
  | booted (now : Timestamp) :
      Trail tsAfter limit [now] ⟨tsAfter, computeTsBefore limit now, limit⟩ []
  | processed {before : List Timestamp} {filter : TimeWindow}
      {history : Tiling.History Timestamp} (h : Trail tsAfter limit before filter history)
      (hlimit : filter.isAtLimit = false) :
      Trail tsAfter limit before filter (.processed filter.span :: history)
  | advanced {before : List Timestamp} {filter : TimeWindow}
      {history : Tiling.History Timestamp} (now : Timestamp)
      (h : Trail tsAfter limit before filter history) (hlimit : filter.isAtLimit = false) :
      Trail tsAfter limit (now :: before) (filter.next now) (.advanced filter.span :: history)

section Trail

variable {tsAfter : Timestamp} {limit : Option Timestamp} {before : List Timestamp}
  {filter : TimeWindow} {history : Tiling.History Timestamp}

theorem Trail.last (h : Trail tsAfter limit before filter history) :
    filter.tsBeforeLimit = limit ∧
      ∃ now rest, before = now :: rest ∧ filter.tsBefore = computeTsBefore limit now := by
  induction h with
  | booted now => exact ⟨rfl, now, [], rfl, rfl⟩
  | processed _ _ ih => exact ih
  | @advanced before filter history now _ _ ih =>
      refine ⟨ih.1, now, before, rfl, ?_⟩
      rw [TimeWindow.next, ih.1]

theorem isAtLimit_eq_false_iff (filter : TimeWindow) :
    filter.isAtLimit = false ↔ ¬ ∃ lim ∈ filter.tsBeforeLimit, lim ≤ filter.tsAfter := by
  rw [TimeWindow.isAtLimit]
  cases filter.tsBeforeLimit <;> simp

theorem le_computeTsBefore_iff {ts now : Timestamp} :
    ts ≤ computeTsBefore limit now ↔ ts + timeMargin ≤ now ∧ ∀ lim ∈ limit, ts ≤ lim := by
  have hmargin : ts ≤ now - timeMargin ↔ ts + timeMargin ≤ now :=
    ⟨Int.add_le_of_le_sub_right, Int.le_sub_right_of_add_le⟩
  cases limit with
  | none =>
      rw [← hmargin]
      simp [computeTsBefore]
  | some lim =>
      rw [computeTsBefore_some, le_min_iff, hmargin]
      simp

/-- A window that ends with the reading is not inverted, unless the limit is reached. -/
theorem ordered_iff {ts now : Timestamp} :
    ((TimeWindow.mk ts (computeTsBefore limit now) limit).isAtLimit = false →
        ts ≤ computeTsBefore limit now) ↔
      (∃ lim ∈ limit, lim ≤ ts) ∨ ts + timeMargin ≤ now := by
  rw [isAtLimit_eq_false_iff, le_computeTsBefore_iff]
  by_cases hreached : ∃ lim ∈ limit, lim ≤ ts
  · simp only [hreached, not_true_eq_false, false_implies, true_or]
  · have hbelow : ∀ lim ∈ limit, ts ≤ lim := fun lim hlim =>
      le_of_not_ge fun hle => hreached ⟨lim, hlim, hle⟩
    simp only [hreached, not_false_eq_true, true_implies, false_or]
    exact and_iff_left hbelow

/-- The limit is reached by a window that ends where the reading is past it. -/
theorem reached_iff {now : Timestamp} :
    (∃ lim ∈ limit, lim ≤ computeTsBefore limit now) ↔ ∃ lim ∈ limit, lim + timeMargin ≤ now := by
  cases limit with
  | none => simp
  | some lim => simp [le_computeTsBefore_iff]

theorem computeTsBefore_of_not_reached {now : Timestamp}
    (h : ¬ ∃ lim ∈ limit, lim + timeMargin ≤ now) :
    computeTsBefore limit now + timeMargin = now := by
  cases limit with
  | none => exact sub_add_cancel now timeMargin
  | some lim =>
      have hlim : now - timeMargin ≤ lim := by
        refine le_of_not_ge fun hle => h ⟨lim, rfl, ?_⟩
        exact Int.add_le_of_le_sub_right hle
      rw [computeTsBefore_some, min_eq_left hlim, sub_add_cancel]

theorem Trail.forward_iff (h : Trail tsAfter limit before filter history) :
    Forward filter history ↔ Steady tsAfter limit before := by
  induction h with
  | booted now =>
      rw [Steady, ← ordered_iff]
      exact ⟨Forward.next, fun hnext => ⟨by simp, by simp, hnext⟩⟩
  | processed _ hlimit ih =>
      -- the window that is worked on is the next one of the trail before
      rw [← ih]
      constructor
      · rintro ⟨hprocessed, hadvanced, hnext⟩
        exact ⟨fun w hw => hprocessed w (.tail _ hw), fun w hw => hadvanced w (.tail _ hw), hnext⟩
      · rintro ⟨hprocessed, hadvanced, hnext⟩
        refine ⟨?_, fun w hw => hadvanced w (by simpa using hw), hnext⟩
        intro w hw
        rcases List.mem_cons.mp hw with heq | hw
        · cases heq
          exact hnext hlimit
        · exact hprocessed w hw
  | @advanced before filter history now hbefore hlimit ih =>
      obtain ⟨hsame, previous, rest, rfl, hstop⟩ := hbefore.last
      have hnext : ((filter.next now).isAtLimit = false →
          (filter.next now).tsAfter ≤ (filter.next now).tsBefore) ↔
            (∃ lim ∈ limit, lim + timeMargin ≤ previous) ∨ previous ≤ now := by
        have hmove : filter.next now =
            ⟨computeTsBefore limit previous, computeTsBefore limit now, limit⟩ := by
          rw [TimeWindow.next, hstop, hsame]
        rw [hmove, ordered_iff, reached_iff]
        -- below the limit both ends are readings less the same margin
        refine or_congr_right' fun hnot => ?_
        rw [computeTsBefore_of_not_reached hnot]
      rw [Steady, ← ih, ← hnext]
      constructor
      · rintro ⟨hprocessed, hadvanced, hnext⟩
        refine ⟨hnext, fun w hw => hprocessed w (.tail _ hw),
          fun w hw => hadvanced w (.tail _ hw), ?_⟩
        exact fun _ => hadvanced filter.span List.mem_cons_self
      · rintro ⟨hnext, hprocessed, hadvanced, hordered⟩
        refine ⟨fun w hw => hprocessed w (by simpa using hw), ?_, hnext⟩
        intro w hw
        rcases List.mem_cons.mp hw with heq | hw
        · cases heq
          exact hordered hlimit
        · exact hadvanced w hw

end Trail

/-! ### Runs -/

inductive Moved {E : Type} (W : Windows) (filter : E → TimeWindow) (s t : Run E) : Prop
  | kept (hprocess : ∀ e' ∈ t.process, ∃ e ∈ s.process, filter e' = filter e)
      (hhistory : t.history = s.history)
  | opened {e : E} {read : Option File} (he : t.process = some e)
      (hbooted : filter e = W.booted read s.now)
      (hhistory : t.history = .opened (filter e).tsAfter read.isSome :: s.history)
  | processed {e e' : E} (he : s.process = some e) (he' : t.process = some e')
      (hkeep : filter e' = filter e) (hlimit : (filter e).isAtLimit = false)
      (hhistory : t.history = .processed (filter e).span :: s.history)
  | advanced {e e' : E} (he : s.process = some e) (he' : t.process = some e')
      (hnext : filter e' = (filter e).next s.now) (hlimit : (filter e).isAtLimit = false)
      (hhistory : t.history = .advanced (filter e).span :: s.history)

section Moved

variable {E : Type} {W : Windows} {filter : E → TimeWindow} {s t : Run E}
  {before : List Timestamp}

/-- The windows of the process that is there follow from the readings. -/
def Followed (W : Windows) (filter : E → TimeWindow) (s : Run E) (before : List Timestamp) : Prop :=
  ∀ e ∈ s.process, ∃ tsAfter, openedAt s.history = some tsAfter ∧
    Trail tsAfter W.limit before (filter e) (sinceOpened s.history)

theorem Moved.followed (h : Moved W filter s t) (hs : Followed W filter s before) :
    Followed W filter t (readings s t before) := by
  intro e' he'
  cases h with
  | kept hprocess hhistory =>
      obtain ⟨e, he, hkeep⟩ := hprocess e' he'
      rw [readings, hhistory, if_pos rfl, hkeep]
      exact hs e he
  | opened he hbooted hhistory =>
      cases he.symm.trans he'
      rw [readings, hhistory, if_neg (by simp)]
      refine ⟨_, rfl, ?_⟩
      rw [hbooted]
      exact .booted s.now
  | processed he ht hkeep hlimit hhistory =>
      cases ht.symm.trans he'
      obtain ⟨tsAfter, hopened, htrail⟩ := hs _ he
      rw [readings, hhistory, if_neg (by simp), hkeep]
      exact ⟨tsAfter, hopened, .processed htrail hlimit⟩
  | advanced he ht hnext hlimit hhistory =>
      cases ht.symm.trans he'
      obtain ⟨tsAfter, hopened, htrail⟩ := hs _ he
      rw [readings, hhistory, if_neg (by simp), hnext]
      exact ⟨tsAfter, hopened, .advanced s.now htrail hlimit⟩

/-- A source whose steps move its window in this way, as long as its processes are as
they should be. -/
theorem followed_of_reachable {step : Run E → Run E → Prop} {Ok : E → Prop}
    (hok : ∀ {s t}, (∀ e ∈ s.process, Ok e) → step s t → ∀ e ∈ t.process, Ok e)
    (hmoved : ∀ {s t}, (∀ e ∈ s.process, Ok e) → step s t → Moved W filter s t)
    (h : (clockedSystem step).Reachable (s, before)) : Followed W filter s before := by
  have hinvariant : (clockedSystem step).Invariant fun r =>
      (∀ e ∈ r.1.process, Ok e) ∧ Followed W filter r.1 r.2 := by
    constructor
    · rintro ⟨s, before⟩ ⟨⟨hgone, -⟩, -⟩
      have hnone : ∀ e, e ∉ s.process := by
        intro e he
        cases hgone.symm.trans he
      exact ⟨fun e he => absurd he (hnone e), fun e he => absurd he (hnone e)⟩
    · rintro ⟨s, before⟩ ⟨t, after⟩ ⟨hs, hfollowed⟩ hstep
      cases hstep with
      | set now => exact ⟨hs, hfollowed⟩
      | step hstep => exact ⟨hok hs hstep, (hmoved hs hstep).followed hfollowed⟩
  exact (hinvariant.holds h).2

end Moved

theorem HttpPolling.moved_of_step {C : WindowConfig} {s t : Run Extractor}
    (hs : ∀ e ∈ s.process, Looping C e) (hstep : RunStep C s t) :
    Moved C.windows Extractor.filter s t := by
  have hkept : ∀ {e e' : Extractor}, s.process = some e → e'.filter = e.filter →
      ∀ e'' ∈ some e', ∃ e ∈ s.process, e''.filter = e.filter := by
    rintro e e' he hfilter _ ⟨⟩
    exact ⟨e, he, hfilter⟩
  cases hstep with
  | tick now hnow => exact .kept (fun e he => ⟨e, he, rfl⟩) rfl
  | start hread hgone => exact .opened rfl (boot_eq C _ s.now) rfl
  | gone => exact .kept (by rintro _ ⟨⟩) rfl
  | poll he hphase hlimit => exact .processed he rfl rfl hlimit rfl
  | advance he hphase => exact .advanced he rfl rfl ((hs _ he).polling hphase) rfl
  | cancel he | leave he | enter he | waited he | interrupted he | limit he | hold he | abort he
  | save he | resume he => exact .kept (hkept he rfl) rfl

/-- The window of a scan, and of the pause after it, is not at the limit. -/
structure Opendal.Scanning (e : Extractor) : Prop where
  scanning : e.phase = .scanning → e.filter.isAtLimit = false
  pausing : ∀ scanned, e.phase = .pausing scanned → e.filter.isAtLimit = false

theorem Opendal.scanning_step {C : WindowConfig} {s t : Run Extractor}
    (hs : ∀ e ∈ s.process, Scanning e) (hstep : RunStep C s t) : ∀ e ∈ t.process, Scanning e := by
  cases hstep with
  | tick now hnow => exact hs
  | gone => rintro e ⟨⟩
  | cancel he =>
      rintro e' ⟨⟩
      exact { hs _ he with }
  | scan he hphase hcancelled hlimit =>
      rintro e' ⟨⟩
      exact ⟨fun _ => hlimit, by rintro _ ⟨⟩⟩
  | scanned scanned he hphase =>
      rintro e' ⟨⟩
      exact ⟨by rintro ⟨⟩, fun _ _ => (hs _ he).scanning hphase⟩
  | start _ | leave _ | limit _ | retry _ | jump _ | save _ =>
      rintro e' ⟨⟩
      exact ⟨by rintro ⟨⟩, by rintro _ ⟨⟩⟩

theorem Opendal.moved_of_step {C : WindowConfig} {s t : Run Extractor}
    (hs : ∀ e ∈ s.process, Scanning e) (hstep : RunStep C s t) :
    Moved C.windows Extractor.window s t := by
  have hkept : ∀ {e e' : Extractor}, s.process = some e → e'.filter = e.filter →
      ∀ e'' ∈ some e', ∃ e ∈ s.process, e''.window = e.window := by
    rintro e e' he hfilter _ ⟨⟩
    exact ⟨e, he, congrArg Filter.toTimeWindow hfilter⟩
  cases hstep with
  | tick now hnow => exact .kept (fun e he => ⟨e, he, rfl⟩) rfl
  | start hread hgone => exact .opened rfl (boot_eq C _ s.now) rfl
  | gone => exact .kept (by rintro _ ⟨⟩) rfl
  | scan he hphase hcancelled hlimit => exact .processed he rfl rfl hlimit rfl
  | jump he hphase => exact .advanced he rfl rfl ((hs _ he).pausing true hphase) rfl
  | scanned scanned he => exact .kept (hkept he rfl) rfl
  | cancel he | leave he | limit he | retry he | save he => exact .kept (hkept he rfl) rfl

/-- Both sources, with any checkpoint and any readings of the clock: a process goes forward
exactly when its first reading is past where it starts and no later reading is before the one
that came before it, as long as the limit is not reached. -/
theorem window_follows_clock :
    (∀ (C : HttpPolling.WindowConfig) (s : Run HttpPolling.Extractor) (before : List Timestamp),
      (clockedSystem (HttpPolling.RunStep C)).Reachable (s, before) → ∀ e ∈ s.process,
        ∃ tsAfter, openedAt s.history = some tsAfter ∧
          (Forward e.filter (sinceOpened s.history) ↔ Steady tsAfter C.tsBeforeLimit before)) ∧
    (∀ (C : Opendal.WindowConfig) (s : Run Opendal.Extractor) (before : List Timestamp),
      (clockedSystem (Opendal.RunStep C)).Reachable (s, before) → ∀ e ∈ s.process,
        ∃ tsAfter, openedAt s.history = some tsAfter ∧
          (Forward e.window (sinceOpened s.history) ↔ Steady tsAfter C.tsBeforeLimit before)) := by
  constructor
  · intro C s before h e he
    have hfollowed := followed_of_reachable HttpPolling.looping_step HttpPolling.moved_of_step h
    obtain ⟨tsAfter, hopened, htrail⟩ := hfollowed e he
    exact ⟨tsAfter, hopened, htrail.forward_iff⟩
  · intro C s before h e he
    have hfollowed := followed_of_reachable Opendal.scanning_step Opendal.moved_of_step h
    obtain ⟨tsAfter, hopened, htrail⟩ := hfollowed e he
    exact ⟨tsAfter, hopened, htrail.forward_iff⟩

def forgetfulConfig : HttpPolling.WindowConfig :=
  { tsAfter := some 0, tsBeforeLimit := none, store := ⟨false, decimalText⟩ }

/-- Its first window, worked on and left while the clock goes on. -/
theorem window_follows_clock_forward :
    Forward ⟨9000000000, 19000000000, none⟩
      [.advanced ⟨0, 9000000000⟩, .processed ⟨0, 9000000000⟩] := by
  have s0 : (clockedSystem (HttpPolling.RunStep forgetfulConfig)).Reachable
      (⟨none, .absent, 10000000000, []⟩, []) := .init ⟨⟨rfl, rfl⟩, rfl⟩
  have s1 := s0.next (.step (.start .found rfl))
  have s2 := (s1.next (.step (.enter rfl rfl rfl))).next (.step (.waited rfl rfl))
  have s3 := (s2.next (.step (.poll rfl rfl rfl))).next (.set 20000000000)
  have s4 := s3.next (.step (.advance rfl rfl))
  obtain ⟨tsAfter, hopened, hiff⟩ := window_follows_clock.1 _ _ _ s4 _ rfl
  cases hopened
  exact hiff.mpr ⟨.inr (by decide), .inr (by decide)⟩

/-- When the clock is set back by five seconds, an inverted window is polled, and the start
of the next one is before its own. -/
theorem window_moves_back :
    ∃ s before, (clockedSystem (HttpPolling.RunStep forgetfulConfig)).Reachable (s, before) ∧
      .processed ⟨9000000000, 4000000000⟩ ∈ s.history ∧
      .advanced ⟨9000000000, 4000000000⟩ ∈ s.history := by
  have s0 : (clockedSystem (HttpPolling.RunStep forgetfulConfig)).Reachable
      (⟨none, .absent, 10000000000, []⟩, []) := .init ⟨⟨rfl, rfl⟩, rfl⟩
  have s1 := s0.next (.step (.start .found rfl))
  have s2 := (s1.next (.step (.enter rfl rfl rfl))).next (.step (.waited rfl rfl))
  have s3 := (s2.next (.step (.poll rfl rfl rfl))).next (.set 5000000000)
  have s4 := (s3.next (.step (.advance rfl rfl))).next (.step (.save rfl rfl rfl))
  have s5 := (s4.next (.step (.resume rfl rfl))).next (.step (.enter rfl rfl rfl))
  have s6 := (s5.next (.step (.waited rfl rfl))).next (.step (.poll rfl rfl rfl))
  have s7 := s6.next (.step (.advance rfl rfl))
  exact ⟨_, _, s7, .tail _ (.head _), .head _⟩

end CdvizCollector.Sources
