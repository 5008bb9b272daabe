import CdvizCollector.Lib.System
import Mathlib.Order.Lattice

/-!
Windows that are worked through one after the other, with a checkpoint.

A process works on one window of a time line at a time, and advances to the
next, which starts where the last one stopped and ends at the horizon, the
latest instant it may look at. Where it is can be saved as a checkpoint; when it
is gone, the next process takes up at the checkpoint, or at the first instant
when there is none or it does not get to see it. Saving may fail, and may destroy
the checkpoint. Processing may have to be repeated, but no instant up to the
checkpoint is ever skipped.
-/

namespace CdvizCollector.Lib.Tiling

universe u

/-- The instants after `start`, up to `stop`. -/
structure Window (T : Type u) where
  start : T
  stop : T

inductive Entry (T : Type u)
  /-- A process took up its work at an instant, having seen the checkpoint or not. -/
  | opened (at' : T) (seen : Bool)
  | processed (w : Window T)
  | advanced (w : Window T)

/-- What the processes did, the newest entry first. -/
abbrev History (T : Type u) := List (Entry T)

structure State (T : Type u) where
  /-- The window of the process, if there is one. -/
  live : Option (Window T)
  checkpoint : Option T
  horizon : T
  history : History T

variable {T : Type u} [LinearOrder T] {first : T} {limit : Option T} {s t : State T}

def Window.Contains (w : Window T) (at' : T) : Prop := w.start < at' ∧ at' ≤ w.stop

/-- Where the next window has to start. -/
def position (first : T) : History T → T
  | [] => first
  | .opened at' _ :: _ => at'
  | .advanced w :: _ => w.stop
  | .processed _ :: history => position first history

/-- The process has not seen the checkpoint when it took up its work, and has not
advanced since. -/
def Blind : History T → Prop
  | [] => False
  | .opened _ seen :: _ => seen = false
  | .advanced _ :: _ => False
  | .processed _ :: history => Blind history

/-- The instants a process may take up its work at. -/
def Mark (first : T) (history : History T) (at' : T) : Prop :=
  at' = first ∨ ∃ w, .advanced w ∈ history ∧ at' = w.stop

/-- Every instant after the first one, up to this one, is in a window that was
advanced. -/
def Covered (first : T) (history : History T) (at' : T) : Prop :=
  ∀ u, first < u → u ≤ at' → ∃ w, .advanced w ∈ history ∧ w.Contains u

/-- Each window starts where the one advanced before it stopped; the first one
of a process starts at a mark. -/
def Tiled (first : T) : History T → Prop
  | [] => True
  | .opened at' _ :: history => Mark first history at' ∧ Tiled first history
  | .processed w :: history => w.start = position first history ∧ Tiled first history
  | .advanced w :: history => w.start = position first history ∧ Tiled first history

inductive Step (first : T) (limit : Option T) : State T → State T → Prop
  | waited {s : State T} (horizon : T) (hle : s.horizon ≤ horizon)
      (hlimit : ∀ l ∈ limit, horizon ≤ l) : Step first limit s { s with horizon }
  | opened {s : State T} (hlive : s.live = none) :
      Step first limit s { s with
        live := some ⟨s.checkpoint.getD first, s.horizon⟩
        history := .opened (s.checkpoint.getD first) true :: s.history }
  | reopened {s : State T} (hlive : s.live = none) :
      Step first limit s { s with
        live := some ⟨first, s.horizon⟩
        history := .opened first false :: s.history }
  | processed {s : State T} {w : Window T} (hlive : s.live = some w) :
      Step first limit s { s with history := .processed w :: s.history }
  | advanced {s : State T} {w : Window T} (hlive : s.live = some w) :
      Step first limit s { s with
        live := some ⟨w.stop, s.horizon⟩
        history := .advanced w :: s.history }
  | saved {s : State T} {w : Window T} (hlive : s.live = some w) :
      Step first limit s { s with checkpoint := some w.start }
  | destroyed {s : State T} : Step first limit s { s with checkpoint := none }
  | closed {s : State T} : Step first limit s { s with live := none }

def system (first : T) (limit : Option T) : System (State T) where
  init s := s.live = none ∧ s.checkpoint = none ∧ s.history = [] ∧ first ≤ s.horizon ∧
    ∀ l ∈ limit, s.horizon ≤ l
  step := Step first limit

/-! ### Longer histories -/

omit [LinearOrder T] in
theorem Mark.mono {history history' : History T} {at' : T} (h : Mark first history at')
    (hsub : history ⊆ history') : Mark first history' at' := by
  rcases h with rfl | ⟨w, hmem, rfl⟩
  · exact .inl rfl
  · exact .inr ⟨w, hsub hmem, rfl⟩

theorem Covered.mono {history history' : History T} {at' : T} (h : Covered first history at')
    (hsub : history ⊆ history') : Covered first history' at' := by
  intro u hfirst hle
  obtain ⟨w, hmem, hcontains⟩ := h u hfirst hle
  exact ⟨w, hsub hmem, hcontains⟩

/-- A window that starts where the covered instants end extends them. -/
theorem Covered.advance {history : History T} {w : Window T} (h : Covered first history w.start) :
    Covered first (.advanced w :: history) w.stop := by
  intro u hfirst hle
  rcases le_or_gt u w.start with hbefore | hafter
  · exact h.mono (List.subset_cons_self _ _) u hfirst hbefore
  · exact ⟨w, .head _, hafter, hle⟩

theorem covered_first (history : History T) : Covered first history first :=
  fun _ hfirst hle => absurd hfirst (not_lt_of_ge hle)

/-! ### The invariant -/

/-- An instant a process can take up its work at without skipping any. -/
structure Resumable (first : T) (history : History T) (horizon at' : T) : Prop where
  mark : Mark first history at'
  covered : Covered first history at'
  le_horizon : at' ≤ horizon

theorem Resumable.mono {history history' : History T} {horizon horizon' at' : T}
    (h : Resumable first history horizon at') (hsub : history ⊆ history')
    (hle : horizon ≤ horizon') : Resumable first history' horizon' at' :=
  ⟨h.mark.mono hsub, h.covered.mono hsub, le_trans h.le_horizon hle⟩

theorem Resumable.cons {history : History T} {horizon at' : T}
    (h : Resumable first history horizon at') (entry : Entry T) :
    Resumable first (entry :: history) horizon at' :=
  h.mono (List.subset_cons_self _ _) (le_refl _)

structure Sound (first : T) (limit : Option T) (s : State T) : Prop where
  tiled : Tiled first s.history
  first_le : first ≤ s.horizon
  horizon_le : ∀ l ∈ limit, s.horizon ≤ l
  position : ∀ w ∈ s.live, w.start = position first s.history
  start : ∀ w ∈ s.live, Resumable first s.history s.horizon w.start
  ordered : ∀ w ∈ s.live, w.start ≤ w.stop
  stop_le : ∀ w ∈ s.live, w.stop ≤ s.horizon
  checkpoint : ∀ c ∈ s.checkpoint, Resumable first s.history s.horizon c
  le_stop : ∀ c ∈ s.checkpoint, ∀ w ∈ s.live, c ≤ w.stop
  behind : ¬Blind s.history → ∀ c ∈ s.checkpoint, ∀ w ∈ s.live, c ≤ w.start

/-- The next process can take up where the checkpoint or the first instant says. -/
theorem Sound.resumable (hs : Sound first limit s) :
    Resumable first s.history s.horizon (s.checkpoint.getD first) := by
  cases hcheckpoint : s.checkpoint with
  | none => exact ⟨.inl rfl, covered_first _, hs.first_le⟩
  | some c => exact hs.checkpoint c hcheckpoint

/-- So can it where the window of a process stops, once that is advanced. -/
theorem Sound.stop_resumable (hs : Sound first limit s) {w : Window T} (hlive : s.live = some w) :
    Resumable first (.advanced w :: s.history) s.horizon w.stop :=
  ⟨.inr ⟨w, .head _, rfl⟩, (hs.start w hlive).covered.advance, hs.stop_le w hlive⟩

theorem sound_step (hs : Sound first limit s) (hstep : Step first limit s t) :
    Sound first limit t := by
  cases hstep with
  | waited horizon hle hlimit =>
      have hsub := List.Subset.refl s.history
      exact { hs with
        first_le := le_trans hs.first_le hle
        horizon_le := hlimit
        start := fun w hw => (hs.start w hw).mono hsub hle
        stop_le := fun w hw => le_trans (hs.stop_le w hw) hle
        checkpoint := fun c hc => (hs.checkpoint c hc).mono hsub hle }
  | opened hlive =>
      have hstart := hs.resumable
      exact { hs with
        tiled := ⟨hstart.mark, hs.tiled⟩
        position := by rintro w ⟨⟩; rfl
        start := by rintro w ⟨⟩; exact hstart.cons _
        ordered := by rintro w ⟨⟩; exact hstart.le_horizon
        stop_le := by rintro w ⟨⟩; exact le_refl _
        checkpoint := fun c hc => (hs.checkpoint c hc).cons _
        le_stop := by rintro c hc w ⟨⟩; exact (hs.checkpoint c hc).le_horizon
        behind := by
          rintro - c hc w ⟨⟩
          rw [Option.mem_def.mp hc]
          exact le_refl c }
  | reopened hlive =>
      have hstart : Resumable first s.history s.horizon first :=
        ⟨.inl rfl, covered_first _, hs.first_le⟩
      exact { hs with
        tiled := ⟨hstart.mark, hs.tiled⟩
        position := by rintro w ⟨⟩; rfl
        start := by rintro w ⟨⟩; exact hstart.cons _
        ordered := by rintro w ⟨⟩; exact hs.first_le
        stop_le := by rintro w ⟨⟩; exact le_refl _
        checkpoint := fun c hc => (hs.checkpoint c hc).cons _
        le_stop := by rintro c hc w ⟨⟩; exact (hs.checkpoint c hc).le_horizon
        behind := fun hseen => absurd rfl hseen }
  | processed hlive =>
      rename_i w
      exact { hs with
        tiled := ⟨hs.position w hlive, hs.tiled⟩
        start := fun w hw => (hs.start w hw).cons _
        checkpoint := fun c hc => (hs.checkpoint c hc).cons _ }
  | advanced hlive =>
      rename_i w
      have hstop := hs.stop_resumable hlive
      exact { hs with
        tiled := ⟨hs.position w hlive, hs.tiled⟩
        position := by rintro w' ⟨⟩; rfl
        start := by rintro w' ⟨⟩; exact hstop
        ordered := by rintro w' ⟨⟩; exact hstop.le_horizon
        stop_le := by rintro w' ⟨⟩; exact le_refl _
        checkpoint := fun c hc => (hs.checkpoint c hc).cons _
        le_stop := by rintro c hc w' ⟨⟩; exact (hs.checkpoint c hc).le_horizon
        -- the new start is the old stop, which no checkpoint is past
        behind := by rintro - c hc w' ⟨⟩; exact hs.le_stop c hc w hlive }
  | saved hlive =>
      rename_i w
      exact { hs with
        checkpoint := by rintro c ⟨⟩; exact hs.start w hlive
        le_stop := by
          rintro c ⟨⟩ w' hw'
          obtain rfl := Option.some.inj (hlive.symm.trans hw')
          exact hs.ordered w hlive
        behind := by
          rintro - c ⟨⟩ w' hw'
          obtain rfl := Option.some.inj (hlive.symm.trans hw')
          exact le_refl _ }
  | destroyed => exact { hs with checkpoint := nofun, le_stop := nofun, behind := fun _ => nofun }
  | closed =>
      exact { hs with
        position := nofun, start := nofun, ordered := nofun, stop_le := nofun
        le_stop := fun _ _ => nofun, behind := fun _ _ _ => nofun }

theorem sound_invariant (first : T) (limit : Option T) :
    (system first limit).Invariant (Sound first limit) where
  init := by
    rintro s ⟨hlive, hcheckpoint, hhistory, hfirst, hlimit⟩
    have hnone : ∀ w, w ∉ s.live := by simp [hlive]
    have hlost : ∀ c, c ∉ s.checkpoint := by simp [hcheckpoint]
    exact { tiled := by rw [hhistory]; trivial
            first_le := hfirst
            horizon_le := hlimit
            position := fun w hw => absurd hw (hnone w)
            start := fun w hw => absurd hw (hnone w)
            ordered := fun w hw => absurd hw (hnone w)
            stop_le := fun w hw => absurd hw (hnone w)
            checkpoint := fun c hc => absurd hc (hlost c)
            le_stop := fun c hc => absurd hc (hlost c)
            behind := fun _ c hc => absurd hc (hlost c) }
  step := sound_step

/-- What the invariant promises to a user: the windows follow on one another and
end at the limit, and a checkpoint lies over instants that all have been worked
through, behind the process unless that has yet to get past a checkpoint it does
not know of. -/
structure Tiles (first : T) (limit : Option T) (s : State T) : Prop where
  tiled : Tiled first s.history
  ordered : ∀ w ∈ s.live, w.start ≤ w.stop ∧ ∀ l ∈ limit, w.stop ≤ l
  behind : ¬Blind s.history → ∀ c ∈ s.checkpoint, ∀ w ∈ s.live, c ≤ w.start
  covered : ∀ c ∈ s.checkpoint, Covered first s.history c

theorem Sound.tiles (hs : Sound first limit s) : Tiles first limit s where
  tiled := hs.tiled
  ordered w hw :=
    ⟨hs.ordered w hw, fun l hl => le_trans (hs.stop_le w hw) (hs.horizon_le l hl)⟩
  behind := hs.behind
  covered c hc := (hs.checkpoint c hc).covered

end CdvizCollector.Lib.Tiling
