import CdvizCollector.Sources.HttpPolling.Window
import CdvizCollector.Sources.Opendal.Window

/-!
The windows of both polling sources, over restarts.

A process that crashes between the move of its window and the save of the
checkpoint loses the move: the next one works on the same instants again. So the
windows of a run do not form one chain; those of a process do, and each process
takes up at an instant before which nothing was skipped. One that fails to read
its checkpoint takes up at the first instant, and the checkpoint is ahead of it
until it has moved.
-/

namespace CdvizCollector.Sources

open Lib Checkpoint

/-- Where the last window that was advanced stopped, in whichever process. -/
def lastAdvanced : Tiling.History Timestamp → Option Timestamp
  | [] => none
  | .advanced w :: _ => some w.stop
  | .opened _ _ :: history | .processed _ :: history => lastAdvanced history

/-- Every window that was processed starts where the last advanced one stopped,
restart or not. -/
def Chained : Tiling.History Timestamp → Prop
  | [] => True
  | .processed w :: history => (∀ stop ∈ lastAdvanced history, w.start = stop) ∧ Chained history
  | .opened _ _ :: history | .advanced _ :: history => Chained history

def sampleConfig : HttpPolling.WindowConfig :=
  { tsAfter := some 0, tsBeforeLimit := none, store := ⟨true, decimalText⟩ }

/-- The first window is processed again after a crash that comes before the
checkpoint is saved. -/
theorem window_processed_again :
    ∃ s, (HttpPolling.runSystem sampleConfig).Reachable s ∧ ¬Chained s.history := by
  have s0 : (HttpPolling.runSystem sampleConfig).Reachable
      { process := none, file := .absent, now := 10000000000, history := [] } :=
    .init ⟨⟨rfl, rfl⟩, rfl, by decide⟩
  have s1 := s0.next (.start .found rfl)
  have s2 := (s1.next (.enter rfl rfl rfl)).next (.waited rfl rfl)
  have s3 := (s2.next (.poll rfl rfl rfl)).next (.advance rfl rfl)
  have s4 := (s3.next .gone).next (.start .found rfl)
  have s5 := (s4.next (.enter rfl rfl rfl)).next (.waited rfl rfl)
  have s6 := s5.next (.poll rfl rfl rfl)
  refine ⟨_, s6, fun hchained => ?_⟩
  exact absurd (hchained.1 9000000000 rfl) (by decide)

/-- For both sources, whatever polls, crashes, saves and restarts there are: the
windows of a process follow on one another, and it takes up at the checkpoint or
the first instant; a window is ordered and ends at the limit; all instants up to
the checkpoint were advanced, and it is past the window in memory only where a
process that failed to read it has yet to advance; and the limit stops a source
exactly when its window reaches it. -/
theorem polling_windows_tile :
    (∀ (C : HttpPolling.WindowConfig) (s : Run HttpPolling.Extractor),
      (HttpPolling.runSystem C).Reachable s →
        Tiling.Tiles C.windows.first C.windows.limit
          (s.abs C.windows HttpPolling.Extractor.filter) ∧
        (∀ t e, HttpPolling.RunStep C s t → s.process = none → t.process = some e →
          e.filter.tsAfter = (C.store.load s.file).getD C.windows.first ∨
            Tiling.Blind t.history ∧ e.filter.tsAfter = C.windows.first) ∧
        HttpPolling.StopsAtLimit C s) ∧
    (∀ (C : Opendal.WindowConfig) (s : Run Opendal.Extractor),
      (Opendal.runSystem C).Reachable s →
        Tiling.Tiles C.windows.first C.windows.limit
          (s.abs C.windows Opendal.Extractor.window) ∧
        (∀ t e, Opendal.RunStep C s t → s.process = none → t.process = some e →
          e.filter.tsAfter = (C.store.load s.file).getD C.windows.first ∨
            Tiling.Blind t.history ∧ e.filter.tsAfter = C.windows.first) ∧
        Opendal.StopsAtLimit C s) := by
  constructor
  · intro C s h
    obtain ⟨htiles, hstops⟩ := HttpPolling.windows_tile h
    exact ⟨htiles, fun _ _ => HttpPolling.takes_up_at_checkpoint, hstops⟩
  · intro C s h
    obtain ⟨htiles, hstops⟩ := Opendal.windows_tile h
    exact ⟨htiles, fun _ _ => Opendal.takes_up_at_checkpoint, hstops⟩

/-! ### A run of each source up to its limit -/

def limitedConfig : HttpPolling.WindowConfig :=
  { tsAfter := some 0, tsBeforeLimit := some 15000000000, store := ⟨true, decimalText⟩ }

/-- Its first process has saved 9 s, and is gone after its next move. -/
def crashedRun : Run HttpPolling.Extractor where
  process := none
  file := checkpointJson decimalText 9000000000
  now := 20000000000
  history := [.advanced ⟨9000000000, 15000000000⟩, .processed ⟨9000000000, 15000000000⟩,
    .advanced ⟨0, 9000000000⟩, .processed ⟨0, 9000000000⟩, .opened 0 true]

theorem limitedConfig_boot : limitedConfig.boot (some crashedRun.file) 20000000000 =
    ⟨9000000000, 15000000000, some 15000000000⟩ := by
  have hload : limitedConfig.store.load (some crashedRun.file) = some 9000000000 :=
    loadTsAfter_checkpointJson decimalText 9000000000
  unfold HttpPolling.WindowConfig.boot
  rw [hload]
  decide

theorem crashedRun_reachable : (HttpPolling.runSystem limitedConfig).Reachable crashedRun := by
  have s0 : (HttpPolling.runSystem limitedConfig).Reachable
      { process := none, file := .absent, now := 10000000000, history := [] } :=
    .init ⟨⟨rfl, rfl⟩, rfl, by decide⟩
  have s1 := s0.next (.start .found rfl)
  have s2 := (s1.next (.enter rfl rfl rfl)).next (.waited rfl rfl)
  have s3 := (s2.next (.poll rfl rfl rfl)).next (.tick 20000000000 (by decide))
  have s4 := (s3.next (.advance rfl rfl)).next (.save rfl rfl .written)
  have s5 := (s4.next (.resume rfl rfl)).next (.enter rfl rfl rfl)
  have s6 := (s5.next (.waited rfl rfl)).next (.poll rfl rfl rfl)
  have s7 := (s6.next (.advance rfl rfl)).next .gone
  exact s7

/-- The next process takes up at 9 s, works on the same window again, and stops. -/
theorem limited_run : ∃ t s e e',
    HttpPolling.RunStep limitedConfig crashedRun t ∧ t.process = some e ∧
    t.history = .opened 9000000000 true :: crashedRun.history ∧
    (HttpPolling.runSystem limitedConfig).Reachable s ∧ s.process = some e' ∧
    e'.phase = .stopped .atLimit ∧ s.file = checkpointJson decimalText 15000000000 ∧
    s.history = [.advanced ⟨9000000000, 15000000000⟩, .processed ⟨9000000000, 15000000000⟩,
      .opened 9000000000 true] ++ crashedRun.history := by
  have hstart : HttpPolling.RunStep limitedConfig crashedRun _ := .start .found rfl
  have s1 := crashedRun_reachable.next hstart
  rw [show crashedRun.now = 20000000000 from rfl, limitedConfig_boot] at hstart s1
  have s2 := (s1.next (.enter rfl rfl rfl)).next (.waited rfl rfl)
  have s3 := (s2.next (.poll rfl rfl rfl)).next (.advance rfl rfl)
  have s4 := (s3.next (.save rfl rfl .written)).next (.resume rfl rfl)
  have s5 := (s4.next (.enter rfl rfl rfl)).next (.waited rfl rfl)
  have s6 := s5.next (.limit rfl rfl rfl)
  exact ⟨_, _, _, _, hstart, rfl, rfl, s6, rfl, rfl, rfl, rfl⟩

def limitedScans : Opendal.WindowConfig :=
  { pathPatterns := ⟨none, none⟩, tsBeforeLimit := some 15000000000, store := ⟨true, decimalText⟩ }

def savedRun : Run Opendal.Extractor where
  process := none
  file := checkpointJson decimalText 9000000000
  now := 20000000000
  history := [.advanced ⟨timestampMin, 9000000000⟩, .processed ⟨timestampMin, 9000000000⟩,
    .opened timestampMin true]

theorem savedRun_reachable : (Opendal.runSystem limitedScans).Reachable savedRun := by
  have s0 : (Opendal.runSystem limitedScans).Reachable
      { process := none, file := .absent, now := 10000000000, history := [] } :=
    .init ⟨⟨rfl, rfl⟩, rfl, by decide⟩
  have s1 := (s0.next (.start .found rfl)).next (.scan rfl rfl rfl rfl)
  have s2 := (s1.next (.scanned true rfl rfl)).next (.tick 20000000000 (by decide))
  have s3 := (s2.next (.jump rfl rfl)).next (.save rfl rfl .written)
  have s4 := s3.next .gone
  exact s4

/-- The next process cannot read the checkpoint, and scans all again. -/
theorem blind_run : ∃ t s e e',
    Opendal.RunStep limitedScans savedRun t ∧ t.process = some e ∧
    e.filter.tsAfter = timestampMin ∧ Tiling.Blind t.history ∧
    (Opendal.runSystem limitedScans).Reachable s ∧ s.process = some e' ∧
    e'.phase = .stopped .atLimit ∧ s.file = savedRun.file ∧
    s.history = [.advanced ⟨timestampMin, 15000000000⟩, .processed ⟨timestampMin, 15000000000⟩,
      .processed ⟨timestampMin, 15000000000⟩, .opened timestampMin false] ++ savedRun.history := by
  have hstart : Opendal.RunStep limitedScans savedRun _ := .start .failed rfl
  have s1 := (savedRun_reachable.next hstart).next (.scan rfl rfl rfl rfl)
  have s2 := (s1.next (.scanned false rfl rfl)).next (.retry rfl rfl)
  have s3 := (s2.next (.scan rfl rfl rfl rfl)).next (.scanned true rfl rfl)
  have s4 := (s3.next (.jump rfl rfl)).next (.save rfl rfl .failed)
  have s5 := s4.next (.limit rfl rfl rfl rfl)
  exact ⟨_, _, _, _, hstart, rfl, rfl, rfl, s5, rfl, rfl, rfl, rfl⟩

theorem polling_windows_tile_limited :
    (∃ t s e e', HttpPolling.RunStep limitedConfig crashedRun t ∧ t.process = some e ∧
      e.filter.tsAfter = 9000000000 ∧
      (HttpPolling.runSystem limitedConfig).Reachable s ∧ s.process = some e' ∧
      Tiling.Tiled 0 s.history ∧ Tiling.Covered 0 s.history 15000000000 ∧
      e'.filter.tsAfter = 15000000000) ∧
    ∃ t s e e', Opendal.RunStep limitedScans savedRun t ∧ t.process = some e ∧
      e.filter.tsAfter = timestampMin ∧ Tiling.Blind t.history ∧
      (Opendal.runSystem limitedScans).Reachable s ∧ s.process = some e' ∧
      Tiling.Tiled timestampMin s.history ∧ 9000000000 ≤ e'.filter.tsAfter ∧
      limitedScans.tsBeforeLimit = some e'.filter.tsAfter := by
  constructor
  · obtain ⟨t, s, e, e', hstep, he, hhistory, hs, he', hphase, hfile, -⟩ := limited_run
    obtain ⟨-, htaken, -⟩ := polling_windows_tile.1 _ _ crashedRun_reachable
    obtain ⟨htiles, -, hstops⟩ := polling_windows_tile.1 _ _ hs
    have hload : limitedConfig.store.load (some crashedRun.file) = some 9000000000 :=
      loadTsAfter_checkpointJson decimalText 9000000000
    have hsaved : limitedConfig.store.load (some s.file) = some 15000000000 := by
      rw [hfile]
      exact loadTsAfter_checkpointJson decimalText 15000000000
    have htaken := htaken t e hstep rfl he
    rw [hload, hhistory] at htaken
    refine ⟨t, s, e, e', hstep, he, ?_, hs, he', htiles.tiled, htiles.covered _ hsaved, ?_⟩
    · exact htaken.resolve_right fun hblind => Bool.noConfusion hblind.1
    · exact (Option.some.inj (hstops.stopped e' he' hphase)).symm
  · obtain ⟨t, s, e, e', hstep, he, hfirst, hblind, hs, he', hphase, hfile, hhistory⟩ := blind_run
    obtain ⟨htiles, -, hstops⟩ := polling_windows_tile.2 _ _ hs
    have hload : limitedScans.store.load (some savedRun.file) = some 9000000000 :=
      loadTsAfter_checkpointJson decimalText 9000000000
    have hseen : ¬Tiling.Blind s.history := by
      rw [hhistory]
      exact id
    rw [← hfile] at hload
    exact ⟨t, s, e, e', hstep, he, hfirst, hblind, hs, he', htiles.tiled,
      htiles.behind hseen _ hload _ (abs_live he'), hstops.stopped e' he' hphase⟩

end CdvizCollector.Sources
