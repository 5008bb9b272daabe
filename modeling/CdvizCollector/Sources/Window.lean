import CdvizCollector.Checkpoint
import CdvizCollector.Lib.Tiling
import Mathlib.Algebra.Order.Group.Int
import Mathlib.Order.Lattice

/-!
What the time windows of the polling sources have in common.

`http_polling` and `opendal` each have a filter and a loop of their own. Both
filters move a window in the same way, and what the loops do to a window, to the
checkpoint and to the clock is a step of `Tiling`.
-/

namespace CdvizCollector.Sources

open Lib Checkpoint

/-! ### The window -/

structure TimeWindow where
  tsAfter : Timestamp
  tsBefore : Timestamp
  tsBeforeLimit : Option Timestamp
deriving DecidableEq, Repr

def timeMargin : Timestamp := 1000000000

/-- `compute_ts_before`: the current instant less the margin, or the limit if
that is earlier. -/
def computeTsBefore (limit : Option Timestamp) (now : Timestamp) : Timestamp :=
  let nowMinusMargin := now - timeMargin
  match limit with
  | some lim => if nowMinusMargin > lim then lim else nowMinusMargin
  | none => nowMinusMargin

theorem computeTsBefore_some (lim now : Timestamp) :
    computeTsBefore (some lim) now = min (now - timeMargin) lim := by
  show (if lim < now - timeMargin then lim else now - timeMargin) = min (now - timeMargin) lim
  rw [min_def]
  rcases le_or_gt (now - timeMargin) lim with h | h
  · rw [if_neg (not_lt_of_ge h), if_pos h]
  · rw [if_pos h, if_neg (not_le_of_gt h)]

theorem computeTsBefore_le {limit : Option Timestamp} {now : Timestamp} :
    ∀ lim ∈ limit, computeTsBefore limit now ≤ lim := by
  intro lim hlim
  rw [Option.mem_def.mp hlim, computeTsBefore_some]
  exact min_le_right _ _

theorem computeTsBefore_mono {limit : Option Timestamp} {now now' : Timestamp} (h : now ≤ now') :
    computeTsBefore limit now ≤ computeTsBefore limit now' := by
  have hmargin : now - timeMargin ≤ now' - timeMargin := Int.sub_le_sub_right h _
  cases limit with
  | none => exact hmargin
  | some lim =>
      rw [computeTsBefore_some, computeTsBefore_some]
      exact min_le_min_right _ hmargin

namespace TimeWindow

def new (tsAfter : Timestamp) (tsBeforeLimit : Option Timestamp) (now : Timestamp) : TimeWindow :=
  { tsAfter, tsBefore := computeTsBefore tsBeforeLimit now, tsBeforeLimit }

/-- The window after this one. -/
def next (filter : TimeWindow) (now : Timestamp) : TimeWindow :=
  { filter with
    tsAfter := filter.tsBefore, tsBefore := computeTsBefore filter.tsBeforeLimit now }

def isAtLimit (filter : TimeWindow) : Bool :=
  filter.tsBeforeLimit.any fun limit => limit ≤ filter.tsAfter

def setTsAfter (filter : TimeWindow) (ts : Timestamp) : TimeWindow := { filter with tsAfter := ts }

/-- The instants of the window. -/
def span (filter : TimeWindow) : Tiling.Window Timestamp := ⟨filter.tsAfter, filter.tsBefore⟩

theorem isAtLimit_iff {filter : TimeWindow}
    (hle : ∀ lim ∈ filter.tsBeforeLimit, filter.tsAfter ≤ lim) :
    filter.isAtLimit = true ↔ filter.tsBeforeLimit = some filter.tsAfter := by
  unfold isAtLimit
  cases hlimit : filter.tsBeforeLimit with
  | none => simp
  | some lim =>
      have hlim := hle lim hlimit
      simp only [Option.any_some, decide_eq_true_eq, Option.some.injEq]
      exact ⟨fun h => le_antisymm h hlim, fun h => h ▸ le_refl _⟩

end TimeWindow

/-! ### The checkpoint of a source -/

/-- The state a source keeps its checkpoint in, if it has one. -/
structure Store where
  enabled : Bool
  text : TimestampText

/-- What a start finds, by what its read of the file gave. -/
def Store.load (store : Store) (read : Option File) : Option Timestamp :=
  if store.enabled then loadTsAfter store.text read else none

theorem Store.load_failed (store : Store) : store.load none = none := by
  unfold Store.load
  cases store.enabled <;> rfl

/-- What saving a checkpoint may make of the file. -/
def Store.Save (store : Store) (ts : Timestamp) (file file' : File) : Prop :=
  if store.enabled then SaveTsAfter store.text ts file file' else file' = file

/-- A save leaves the new checkpoint, the old one or none. -/
theorem Store.load_save {store : Store} {ts : Timestamp} {file file' : File}
    (h : store.Save ts file file') :
    store.load file' = some ts ∨ store.load file' = store.load file ∨ store.load file' = none := by
  unfold Store.Save at h
  unfold Store.load
  cases henabled : store.enabled with
  | false => exact .inr (.inr rfl)
  | true =>
      rw [henabled, if_pos rfl] at h
      rw [if_pos rfl, if_pos rfl]
      exact load_saved h

/-- Where the windows of a source start and end, and where its checkpoint is. -/
structure Windows where
  first : Timestamp
  limit : Option Timestamp
  store : Store

/-- The window of a process that has just loaded its checkpoint. -/
def Windows.booted (W : Windows) (read : Option File) (now : Timestamp) : TimeWindow :=
  ⟨(W.store.load read).getD W.first, computeTsBefore W.limit now, W.limit⟩

/-! ### Runs -/

/-- Why a source ends its loop. -/
inductive StopReason where
  | cancelled
  | atLimit
  | aborted
deriving DecidableEq, Repr

/-- A process that may be gone, with what outlives it, and the windows that were
worked on. -/
structure Run (E : Type) where
  process : Option E
  file : File
  now : Timestamp
  history : Tiling.History Timestamp

/-- No process was started. -/
structure Run.Fresh {E : Type} (s : Run E) : Prop where
  gone : s.process = none
  history : s.history = []

/-- A source on its first start: its window is not empty then, and there is no
checkpoint. -/
structure Run.Initial (W : Windows) {E : Type} (s : Run E) : Prop extends Run.Fresh s where
  unsaved : W.store.load s.file = none
  first_le : W.first ≤ computeTsBefore W.limit s.now

/-- A run in terms of windows: the one in memory, the checkpoint on disk, and how
far the clock lets the source look. -/
def Run.abs (W : Windows) {E : Type} (filter : E → TimeWindow) (s : Run E) :
    Tiling.State Timestamp where
  live := s.process.map fun e => (filter e).span
  checkpoint := W.store.load s.file
  horizon := computeTsBefore W.limit s.now
  history := s.history

section Abs

variable {W : Windows} {E : Type} {filter : E → TimeWindow} {s : Run E} {e e' : E}

theorem abs_live (he : s.process = some e) : (s.abs W filter).live = some (filter e).span :=
  congrArg (Option.map _) he

theorem abs_initial (h : s.Initial W) : (Tiling.system W.first W.limit).init (s.abs W filter) :=
  ⟨by simp [Run.abs, h.gone], h.unsaved, h.history, h.first_le, computeTsBefore_le⟩

/-- A step of a process that keeps its window is none in terms of windows. -/
theorem abs_keep (he : s.process = some e) (hkeep : filter e' = filter e) :
    Run.abs W filter { s with process := some e' } = s.abs W filter := by
  simp [Run.abs, he, hkeep]

theorem abs_tick {now : Timestamp} (hnow : s.now ≤ now) :
    Tiling.Step W.first W.limit (s.abs W filter) (Run.abs W filter { s with now }) :=
  .waited _ (computeTsBefore_mono hnow) computeTsBefore_le

theorem abs_gone : Tiling.Step W.first W.limit (s.abs W filter)
    (Run.abs W filter { s with process := none }) :=
  .closed

theorem abs_start {read : Option File} (hread : Reads s.file read) (hgone : s.process = none)
    (hbooted : filter e = W.booted read s.now) :
    Tiling.Step W.first W.limit (s.abs W filter) (Run.abs W filter { s with
      process := some e, history := .opened (filter e).tsAfter read.isSome :: s.history }) := by
  have hlive : (s.abs W filter).live = none := by simp [Run.abs, hgone]
  have habs : Run.abs W filter { s with
        process := some e, history := .opened (filter e).tsAfter read.isSome :: s.history } =
      { s.abs W filter with
        live := some ⟨(W.store.load read).getD W.first, (s.abs W filter).horizon⟩
        history := .opened ((W.store.load read).getD W.first) read.isSome :: s.history } := by
    show Tiling.State.mk (some (filter e).span) _ _ (.opened (filter e).tsAfter _ :: _) = _
    rw [hbooted]
    rfl
  rw [habs]
  cases hread with
  | found => exact .opened hlive
  | failed =>
      rw [Store.load_failed]
      exact .reopened hlive

theorem abs_processed (he : s.process = some e) (hkeep : filter e' = filter e) :
    Tiling.Step W.first W.limit (s.abs W filter) (Run.abs W filter { s with
      process := some e', history := .processed (filter e).span :: s.history }) := by
  have habs : Run.abs W filter { s with
        process := some e', history := .processed (filter e).span :: s.history } =
      { s.abs W filter with history := .processed (filter e).span :: s.history } := by
    rw [← abs_keep he hkeep]
    rfl
  rw [habs]
  exact .processed (abs_live he)

theorem abs_advanced (he : s.process = some e) (hlimit : (filter e).tsBeforeLimit = W.limit)
    (hnext : filter e' = (filter e).next s.now) :
    Tiling.Step W.first W.limit (s.abs W filter) (Run.abs W filter { s with
      process := some e', history := .advanced (filter e).span :: s.history }) := by
  have habs : Run.abs W filter { s with
        process := some e', history := .advanced (filter e).span :: s.history } =
      { s.abs W filter with
        live := some ⟨(filter e).span.stop, (s.abs W filter).horizon⟩
        history := .advanced (filter e).span :: s.history } := by
    show Tiling.State.mk (some (filter e').span) _ _ _ = _
    rw [hnext]
    simp only [TimeWindow.next, TimeWindow.span, hlimit]
    rfl
  rw [habs]
  exact .advanced (abs_live he)

theorem abs_save (he : s.process = some e) (hkeep : filter e' = filter e) {file : File}
    (hsave : W.store.Save (filter e).tsAfter s.file file) :
    Tiling.Step W.first W.limit (s.abs W filter)
        (Run.abs W filter { s with process := some e', file }) ∨
      Run.abs W filter { s with process := some e', file } = s.abs W filter := by
  have habs : Run.abs W filter { s with process := some e', file } =
      { s.abs W filter with checkpoint := W.store.load file } := by
    rw [← abs_keep he hkeep]
    rfl
  rw [habs]
  rcases Store.load_save hsave with hnew | hold | hnone
  · rw [hnew]
    exact .inl (.saved (abs_live he))
  · rw [hold]
    exact .inr rfl
  · rw [hnone]
    exact .inl .destroyed

end Abs

/-! ### The limit -/

section Limit

variable {W : Windows} {E : Type} {filter : E → TimeWindow} {s : Run E} {e : E}
  (h : Tiling.Tiles W.first W.limit (s.abs W filter)) (he : s.process = some e)

include h he

theorem tsAfter_le_limit : ∀ lim ∈ W.limit, (filter e).tsAfter ≤ lim := by
  intro lim hlim
  have hordered := h.ordered _ (abs_live he)
  exact le_trans hordered.1 (hordered.2 lim hlim)

variable (hlimit : (filter e).tsBeforeLimit = W.limit)

include hlimit

theorem isAtLimit_iff_limit : (filter e).isAtLimit = true ↔ W.limit = some (filter e).tsAfter := by
  have hle := tsAfter_le_limit h he
  rw [← hlimit] at hle ⊢
  exact TimeWindow.isAtLimit_iff hle

theorem lt_limit_of_not_isAtLimit (hnot : (filter e).isAtLimit = false) :
    ∀ lim ∈ W.limit, (filter e).tsAfter < lim := by
  intro lim hlim
  apply lt_of_le_of_ne (tsAfter_le_limit h he lim hlim)
  intro heq
  have hat := (isAtLimit_iff_limit h he hlimit).mpr (heq ▸ hlim)
  rw [hnot] at hat
  contradiction

end Limit

end CdvizCollector.Sources
