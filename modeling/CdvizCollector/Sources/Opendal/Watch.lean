import CdvizCollector.Sources.Opendal.Scan

/-!
What the scans of an `opendal` source take while one process runs.

A run is a run of the loop with what each scan was given. The window of a scan
is the one of the scan before, if that one failed, and otherwise it lies behind
it; behind the window of the process every instant was in a complete scan.
-/

namespace CdvizCollector.Sources.Opendal

open Lib Checkpoint

structure Scan where
  filter : Filter
  listing : Listing

namespace Scan

variable (C : ScanConfig) (scan : Scan)

def complete : Bool := !scan.listing.failed

/-- What the entries of its listing are taken for. -/
def resources : List Resource := (scan.listing.resources C).map Loaded.toResource

/-- The resources that are handed to the parser. -/
def accepted : List Resource :=
  (runOnce C scan.filter scan.listing).trace.map Loaded.toResource

theorem mem_accepted_iff {file : Resource} :
    file ∈ scan.accepted C ↔ file ∈ scan.resources C ∧ scan.filter.accept file = true := by
  unfold accepted resources
  rw [runOnce_eq]
  simp only [List.mem_map, List.mem_filter]
  constructor
  · rintro ⟨loaded, ⟨hmem, haccept⟩, rfl⟩
    exact ⟨⟨loaded, hmem, rfl⟩, haccept⟩
  · rintro ⟨⟨loaded, hmem, rfl⟩, haccept⟩
    exact ⟨loaded, ⟨hmem, haccept⟩, rfl⟩

end Scan

/-! ### Runs -/

/-- A run, with its scans, the newest first. -/
structure Watch where
  run : Run Extractor
  scans : List Scan

inductive WatchStep (C : ScanConfig) : Watch → Watch → Prop
  | scanned {s : Watch} {e : Extractor} (listing : Listing) (he : s.run.process = some e)
      (hphase : e.phase = .scanning) :
      WatchStep C s {
        run := { s.run with process := some { e with
          phase := .pausing (runOnce C e.filter listing).result.toBool } }
        scans := ⟨e.filter, listing⟩ :: s.scans }
  -- any other step of a process, in which no scan ends
  | other {s : Watch} {e : Extractor} {run : Run Extractor} (he : s.run.process = some e)
      (hstep : RunStep C.toWindowConfig s.run run)
      (hphase : e.phase = .scanning → ∀ e' ∈ run.process, e'.phase = .scanning) :
      WatchStep C s { s with run }

/-- A process that has just been started, with what it read of the file. -/
def started (C : ScanConfig) (read : Option File) (file : File) (now : Timestamp) : Watch where
  run := {
    process := some ⟨C.boot read now, false, .top⟩
    file
    now
    history := [.opened (C.boot read now).tsAfter read.isSome] }
  scans := []

/-- The runs of one process. -/
def watchSystem (C : ScanConfig) (read : Option File) (file : File) (now : Timestamp) :
    System Watch where
  init s := s = started C read file now
  step := WatchStep C

/-- It is a run of the loop that the scans are recorded of. -/
theorem WatchStep.run {C : ScanConfig} {s t : Watch} (hstep : WatchStep C s t) :
    RunStep C.toWindowConfig s.run t.run := by
  cases hstep with
  | scanned listing he hphase => exact .scanned _ he hphase
  | other he hstep hphase => exact hstep

theorem started_step (C : ScanConfig) {read : Option File} {file : File}
    (hread : Reads file read) (now : Timestamp) :
    RunStep C.toWindowConfig ⟨none, file, now, []⟩ (started C read file now).run :=
  .start hread rfl

theorem runOnce_toBool (C : ScanConfig) (filter : Filter) (listing : Listing) :
    (runOnce C filter listing).result.toBool = !listing.failed := by
  rw [runOnce_eq]
  cases h : listing.failed <;> rfl

/-! ### What was scanned -/

variable {C : ScanConfig} {read : Option File} {file : File} {now first : Timestamp}
  {s t : Watch} {e : Extractor}

/-- The window of an earlier scan was left behind, or it failed and the window is
the same. -/
def Scan.Behind (scan : Scan) (filter : Filter) : Prop :=
  scan.complete = false ∧ scan.filter = filter ∨ scan.filter.tsBefore ≤ filter.tsAfter

/-- The window of a process after its scans. -/
structure Advancing (C : ScanConfig) (first now : Timestamp) (scans : List Scan) (e : Extractor) :
    Prop where
  limit : e.filter.tsBeforeLimit = C.tsBeforeLimit
  patterns : e.filter.pathPatterns = C.pathPatterns
  stop_le_now : e.filter.tsBefore ≤ computeTsBefore C.tsBeforeLimit now
  stop_le : ∀ scan ∈ scans, scan.filter.tsBefore ≤ e.filter.tsBefore
  covered : ∀ u, first < u → u ≤ e.filter.tsAfter →
    ∃ scan ∈ scans, scan.complete = true ∧ scan.filter.span.Contains u ∧
      scan.filter.tsBefore ≤ e.filter.tsAfter
  behind : e.phase ≠ .pausing true → ∀ scan ∈ scans, scan.Behind e.filter
  scanned : e.phase = .pausing true → ∃ listing earlier,
    scans = ⟨e.filter, listing⟩ :: earlier ∧ listing.failed = false

structure Watched (C : ScanConfig) (first : Timestamp) (s : Watch) : Prop where
  process : ∀ e ∈ s.run.process, Advancing C first s.run.now s.scans e
  patterns : ∀ scan ∈ s.scans, scan.filter.pathPatterns = C.pathPatterns
  ordered : s.scans.Pairwise fun newer older => older.Behind newer.filter

/-- Where a process is in its loop does not matter but after a complete scan. -/
theorem Advancing.rephase {scans : List Scan} (h : Advancing C first now scans e)
    (hphase : e.phase ≠ .pausing true) {phase : RunPhase} (hnew : phase ≠ .pausing true)
    (cancelled : Bool) : Advancing C first now scans ⟨e.filter, cancelled, phase⟩ :=
  { h with
    behind := fun _ => h.behind hphase
    scanned := fun hdone => absurd hdone hnew }

theorem Advancing.tick {scans : List Scan} (h : Advancing C first now scans e) {now' : Timestamp}
    (hnow : now ≤ now') : Advancing C first now' scans e :=
  { h with stop_le_now := le_trans h.stop_le_now (computeTsBefore_mono hnow) }

/-- After a complete scan the window moves over what it covered. -/
theorem Advancing.jump {scans : List Scan} (h : Advancing C first now scans e)
    (hphase : e.phase = .pausing true) :
    Advancing C first now scans
      { e with filter := e.filter.jumpToNextTsWindow now, phase := .saving } where
  limit := h.limit
  patterns := h.patterns
  stop_le_now := by
    show computeTsBefore e.filter.tsBeforeLimit now ≤ _
    rw [h.limit]
  stop_le := by
    intro scan hscan
    apply le_trans (h.stop_le scan hscan)
    show e.filter.tsBefore ≤ computeTsBefore e.filter.tsBeforeLimit now
    rw [h.limit]
    exact h.stop_le_now
  covered := by
    intro u hfirst hle
    rcases le_or_gt u e.filter.tsAfter with hbefore | hafter
    · obtain ⟨scan, hscan, hcomplete, hcontains, -⟩ := h.covered u hfirst hbefore
      exact ⟨scan, hscan, hcomplete, hcontains, h.stop_le scan hscan⟩
    · obtain ⟨listing, earlier, rfl, hcomplete⟩ := h.scanned hphase
      refine ⟨_, List.mem_cons_self, ?_, ⟨hafter, hle⟩, le_refl _⟩
      show (!listing.failed) = true
      rw [hcomplete]
      rfl
  behind := fun _ scan hscan => .inr (h.stop_le scan hscan)
  scanned := nofun

/-- The scan that ends has the window of the process. -/
theorem Advancing.scan {scans : List Scan} (h : Advancing C first now scans e)
    (hphase : e.phase = .scanning) (listing : Listing) :
    Advancing C first now (⟨e.filter, listing⟩ :: scans)
      { e with phase := .pausing (!listing.failed) } where
  limit := h.limit
  patterns := h.patterns
  stop_le_now := h.stop_le_now
  stop_le := List.forall_mem_cons.mpr ⟨le_refl _, h.stop_le⟩
  covered := by
    intro u hfirst hle
    obtain ⟨scan, hscan, hcovers⟩ := h.covered u hfirst hle
    exact ⟨scan, List.mem_cons_of_mem _ hscan, hcovers⟩
  behind := by
    intro hpausing
    have hfailed : listing.failed = true := by
      cases hfailed : listing.failed with
      | false => exact absurd (by rw [hfailed]; rfl) hpausing
      | true => rfl
    have hnot : e.phase ≠ .pausing true := by
      rw [hphase]
      nofun
    refine List.forall_mem_cons.mpr ⟨.inl ⟨?_, rfl⟩, h.behind hnot⟩
    show (!listing.failed) = false
    rw [hfailed]
    rfl
  scanned := by
    intro hpausing
    have hfailed : listing.failed = false := by
      cases hfailed : listing.failed with
      | false => rfl
      | true =>
          rw [hfailed] at hpausing
          exact absurd hpausing (by simp)
    exact ⟨listing, scans, rfl, hfailed⟩

theorem watched_step (h : Watched C first s) (hstep : WatchStep C s t) : Watched C first t := by
  cases hstep with
  | scanned listing he hphase =>
      have hprocess := h.process _ he
      rw [runOnce_toBool]
      constructor
      · rintro e' ⟨⟩
        exact hprocess.scan hphase listing
      · exact List.forall_mem_cons.mpr ⟨hprocess.patterns, h.patterns⟩
      · refine List.pairwise_cons.mpr ⟨hprocess.behind ?_, h.ordered⟩
        rw [hphase]
        nofun
  | @other e run he hstep hscanning =>
      have hprocess := h.process _ he
      refine { h with process := ?_ }
      have hsame : ∀ {e₀}, s.run.process = some e₀ → e₀ = e := fun he₀ =>
        Option.some.inj (he₀.symm.trans he)
      cases hstep with
      | tick now hnow => exact fun e' he' => (h.process e' he').tick hnow
      | start _ hgone => exact absurd (hgone.symm.trans he) (by simp)
      | gone => rintro e' ⟨⟩
      | cancel he₀ =>
          obtain rfl := hsame he₀
          rintro e' ⟨⟩
          exact { hprocess with }
      | scanned scanned he₀ hphase =>
          obtain rfl := hsame he₀
          have hstill := hscanning hphase _ rfl
          contradiction
      | jump he₀ hphase =>
          obtain rfl := hsame he₀
          rintro e' ⟨⟩
          exact hprocess.jump hphase
      | leave he₀ hphase | limit he₀ hphase | scan he₀ hphase | retry he₀ hphase
      | save he₀ hphase =>
          obtain rfl := hsame he₀
          rintro e' ⟨⟩
          refine hprocess.rephase ?_ (by simp) _
          rw [hphase]
          simp

theorem watched_invariant (C : ScanConfig) (read : Option File) (file : File)
    (now : Timestamp) :
    (watchSystem C read file now).Invariant (Watched C (C.boot read now).tsAfter) where
  init := by
    rintro s rfl
    refine ⟨?_, nofun, .nil⟩
    rintro e ⟨⟩
    have hboot := boot_eq C.toWindowConfig read now
    have hpatterns : (C.boot read now).pathPatterns = C.pathPatterns := by
      unfold WindowConfig.boot
      cases C.store.load read <;> rfl
    exact {
      limit := congrArg TimeWindow.tsBeforeLimit hboot
      patterns := hpatterns
      stop_le_now := (congrArg TimeWindow.tsBefore hboot).le
      stop_le := nofun
      covered := fun u hfirst hle => absurd hfirst (not_lt_of_ge hle)
      behind := fun _ => nofun
      scanned := nofun }
  step := watched_step

/-! ### What was accepted -/

/-- A file that is to be taken. -/
structure Wanted (C : ScanConfig) (file : Resource) : Prop where
  isFile : file.isFile = true
  nonempty : 0 < file.contentLength
  pattern : C.pathPatterns.accept file.path = true

theorem accepted_iff_contains {scan : Scan} (hpatterns : scan.filter.pathPatterns = C.pathPatterns)
    {f : Resource} (hf : Wanted C f) {last : Timestamp} (hlast : last ∈ f.lastModified) :
    f ∈ scan.accepted C ↔ f ∈ scan.resources C ∧ scan.filter.span.Contains last := by
  rw [scan.mem_accepted_iff, Filter.accept_iff, hpatterns]
  simp only [hf.isFile, hf.nonempty, hf.pattern, Option.mem_def.mp hlast, Option.some.injEq,
    exists_eq_left', true_and]

/-- Of two complete scans no instant is in both windows. -/
theorem Watched.disjoint (h : Watched C first s)
    (hcomplete : ∀ scan ∈ s.scans, scan.complete = true)
    (u : Timestamp) : s.scans.Pairwise fun newer older =>
      ¬(newer.filter.span.Contains u ∧ older.filter.span.Contains u) := by
  refine h.ordered.imp_of_mem ?_
  rintro newer older - holder (⟨hfailed, -⟩ | hle) ⟨⟨hafter, -⟩, -, hstop⟩
  · rw [hcomplete older holder] at hfailed
    contradiction
  · exact absurd (le_trans hstop hle) (not_le_of_gt hafter)

theorem countP_eq_one {α : Type} {p : α → Bool} {l : List α} (hex : ∃ a ∈ l, p a = true)
    (hpair : l.Pairwise fun a b => ¬(p a = true ∧ p b = true)) : l.countP p = 1 := by
  induction hpair with
  | nil => simp at hex
  | cons hhead htail ih =>
      rename_i a l
      rw [List.countP_cons]
      cases hp : p a with
      | true =>
          have hzero : l.countP p = 0 := by
            rw [List.countP_eq_zero]
            exact fun b hb hpb => hhead b hb ⟨hp, hpb⟩
          rw [hzero, if_pos rfl]
      | false =>
          obtain ⟨b, hb, hpb⟩ := hex
          rcases List.mem_cons.mp hb with rfl | hb
          · rw [hp] at hpb
            contradiction
          · rw [ih ⟨b, hb, hpb⟩, if_neg (by simp)]

/-! ### Failed listings -/

theorem scans_grow (hrun : Relation.ReflTransGen (WatchStep C) s t) :
    ∃ scans, t.scans = scans ++ s.scans := by
  induction hrun with
  | refl => exact ⟨[], rfl⟩
  | tail _ hstep ih =>
      obtain ⟨scans, hscans⟩ := ih
      cases hstep with
      | scanned listing he hphase => exact ⟨_ :: scans, congrArg _ hscans⟩
      | other he hstep hphase => exact ⟨scans, hscans⟩

/-- Since it began to scan this window, a process has not had a complete listing. -/
structure Held (s t : Watch) (e : Extractor) : Prop where
  file : t.run.file = s.run.file
  process : ∀ e' ∈ t.run.process, e'.filter = e.filter ∧ e'.phase ≠ .pausing true ∧
    e'.phase ≠ .saving

theorem held_step {u : Watch} (h : Held s t e) (hstep : WatchStep C t u)
    (hfailed : ∀ scan, u.scans = scan :: t.scans → scan.complete = false) : Held s u e := by
  cases hstep with
  | scanned listing he hphase =>
      refine ⟨h.file, ?_⟩
      rintro e' ⟨⟩
      have hlisting : (!listing.failed) = false := hfailed _ rfl
      rw [runOnce_toBool, hlisting]
      exact ⟨(h.process _ he).1, by simp, by simp⟩
  | @other e₀ run he hstep hscanning =>
      obtain ⟨hfilter, hdone, hsaving⟩ := h.process _ he
      have hsame : ∀ {e₁}, t.run.process = some e₁ → e₁ = e₀ := fun he₁ =>
        Option.some.inj (he₁.symm.trans he)
      cases hstep with
      | tick now hnow => exact ⟨h.file, h.process⟩
      | start _ hgone => exact absurd (hgone.symm.trans he) (by simp)
      | gone => exact ⟨h.file, nofun⟩
      | cancel he₁ =>
          obtain rfl := hsame he₁
          refine ⟨h.file, ?_⟩
          rintro e' ⟨⟩
          exact ⟨hfilter, hdone, hsaving⟩
      | scanned scanned he₁ hphase =>
          obtain rfl := hsame he₁
          have hstill := hscanning hphase _ rfl
          contradiction
      | jump he₁ hphase =>
          obtain rfl := hsame he₁
          exact absurd hphase hdone
      | save he₁ hphase =>
          obtain rfl := hsame he₁
          exact absurd hphase hsaving
      | leave he₁ | limit he₁ | scan he₁ | retry he₁ =>
          obtain rfl := hsame he₁
          refine ⟨h.file, ?_⟩
          rintro e' ⟨⟩
          exact ⟨hfilter, by simp, by simp⟩

/-- As long as listings fail the window stays, in memory and in the checkpoint. -/
theorem held_run (hrun : Relation.ReflTransGen (WatchStep C) s t) (he : s.run.process = some e)
    (hphase : e.phase = .scanning) {scans : List Scan} (hscans : t.scans = scans ++ s.scans)
    (hfailed : ∀ scan ∈ scans, scan.complete = false) : Held s t e := by
  induction hrun generalizing scans with
  | refl =>
      refine ⟨rfl, fun e' he' => ?_⟩
      obtain rfl := Option.some.inj (he.symm.trans he')
      rw [hphase]
      exact ⟨rfl, by simp, by simp⟩
  | tail hrun hstep ih =>
      rename_i u t
      obtain ⟨before, hbefore⟩ := scans_grow hrun
      have hlast : ∀ scan, t.scans = scan :: u.scans → scans = scan :: before := by
        intro scan hscan
        have happend : scans ++ s.scans = (scan :: before) ++ s.scans := by
          rw [← hscans, hscan, hbefore, List.cons_append]
        exact List.append_cancel_right happend
      have hheld : Held s u e := by
        cases hstep with
        | scanned listing he hphase =>
            have hcons := hlast _ rfl
            exact ih hbefore fun scan hscan => hfailed scan (hcons ▸ List.mem_cons_of_mem _ hscan)
        | other he hstep hphase => exact ih hscans hfailed
      refine held_step hheld hstep fun scan hscan => ?_
      exact hfailed scan (hlast scan hscan ▸ List.mem_cons_self)

/-! ### No file is skipped or repeated -/

/-- The complete scans show the files that are not after their window, as they are. -/
def Visible (C : ScanConfig) (files : Resource → Prop) (s : Watch) : Prop :=
  ∀ scan ∈ s.scans, scan.complete = true → ∀ f, files f → ∀ last ∈ f.lastModified,
    last ≤ scan.filter.tsBefore → f ∈ scan.resources C

section Accepted

variable {files : Resource → Prop} (h : Watched C first s) (hvisible : Visible C files s)
  (he : s.run.process = some e) {f : Resource} (hf : files f) (hwanted : Wanted C f)
  {last : Timestamp} (hlast : last ∈ f.lastModified) (hfirst : first < last)
  (hpassed : last ≤ e.filter.tsAfter)

include h hvisible he hf hwanted hlast hfirst hpassed

theorem exists_accepted : ∃ scan ∈ s.scans, f ∈ scan.accepted C := by
  obtain ⟨scan, hscan, hcomplete, hcontains, -⟩ := (h.process e he).covered last hfirst hpassed
  refine ⟨scan, hscan, (accepted_iff_contains (h.patterns scan hscan) hwanted hlast).mpr ⟨?_, ?_⟩⟩
  · exact hvisible scan hscan hcomplete f hf last hlast hcontains.2
  · exact hcontains

theorem accepted_once (hcomplete : ∀ scan ∈ s.scans, scan.complete = true) :
    s.scans.countP (fun scan => f ∈ scan.accepted C) = 1 := by
  apply countP_eq_one
  · obtain ⟨scan, hscan, haccepted⟩ := exists_accepted h hvisible he hf hwanted hlast hfirst hpassed
    exact ⟨scan, hscan, decide_eq_true haccepted⟩
  · refine (h.disjoint hcomplete last).imp_of_mem ?_
    rintro newer older hnewer holder hdisjoint ⟨hpnewer, hpolder⟩
    apply hdisjoint
    constructor
    · exact ((accepted_iff_contains (h.patterns newer hnewer) hwanted hlast).mp
        (of_decide_eq_true hpnewer)).2
    · exact ((accepted_iff_contains (h.patterns older holder) hwanted hlast).mp
        (of_decide_eq_true hpolder)).2

end Accepted

/-- In every run of a process: a file the window has passed was accepted, and in
one scan only if no listing failed; and while listings fail, neither the window
nor the checkpoint changes. -/
theorem no_file_skipped_or_repeated (hs : (watchSystem C read file now).Reachable s)
    (he : s.run.process = some e) :
    (∀ files, Visible C files s → ∀ f, files f → Wanted C f → ∀ last ∈ f.lastModified,
      (C.boot read now).tsAfter < last → last ≤ e.filter.tsAfter →
        (∃ scan ∈ s.scans, f ∈ scan.accepted C) ∧
        ((∀ scan ∈ s.scans, scan.complete = true) →
          s.scans.countP (fun scan => f ∈ scan.accepted C) = 1)) ∧
    (e.phase = .scanning → ∀ t scans, Relation.ReflTransGen (WatchStep C) s t →
      t.scans = scans ++ s.scans → (∀ scan ∈ scans, scan.complete = false) →
        t.run.file = s.run.file ∧ ∀ e' ∈ t.run.process, e'.filter = e.filter) := by
  have hwatched := (watched_invariant C read file now).holds hs
  constructor
  · intro files hvisible f hf hwanted last hlast hfirst hpassed
    exact ⟨exists_accepted hwatched hvisible he hf hwanted hlast hfirst hpassed,
      accepted_once hwatched hvisible he hf hwanted hlast hfirst hpassed⟩
  · intro hphase t scans hrun hscans hfailed
    have hheld := held_run hrun he hphase hscans hfailed
    exact ⟨hheld.file, fun e' he' => (hheld.process e' he').1⟩

/-! ### A run with a failed listing -/

/-- All files, without a limit. -/
def sampleScans : ScanConfig where
  pathPatterns := ⟨none, none⟩
  tsBeforeLimit := none
  store := ⟨true, decimalText⟩
  root := "/"
  tryReadHeadersJson := false

/-- A file of which the listing tells all. -/
def sampleEntry : Listed where
  entry := ⟨"dir1/file01.txt", ⟨.file, some 8000000000, 12⟩⟩
  statForTime := none
  statForLength := none
  pathExists _ := some false
  readHeaders _ := none

def sampleFile : Resource := ⟨"dir1/file01.txt", true, some 8000000000, 12⟩

theorem sampleFile_wanted : Wanted sampleScans sampleFile := ⟨rfl, by decide, rfl⟩

/-- The first window of the source. -/
def sampleWindow : Filter := sampleScans.boot (some .absent) 10000000000

theorem sample_scanning : ∃ s e,
    (watchSystem sampleScans (some .absent) .absent 10000000000).Reachable s ∧
    s.run.process = some e ∧ e.phase = .scanning ∧ e.filter = sampleWindow ∧
    s.run.file = .absent ∧ s.scans = [] := by
  have s0 : (watchSystem sampleScans (some .absent) .absent 10000000000).Reachable
      (started sampleScans (some .absent) .absent 10000000000) := .init rfl
  exact ⟨_, _, s0.next (.other rfl (.scan rfl rfl rfl rfl) nofun), rfl, rfl, rfl, rfl, rfl⟩

/-- The first listing breaks off behind the file, and the second one is complete. -/
theorem sample_jumped : ∃ s e,
    (watchSystem sampleScans (some .absent) .absent 10000000000).Reachable s ∧
    s.run.process = some e ∧ e.filter.tsAfter = 9000000000 ∧
    s.scans = [⟨sampleWindow, ⟨[sampleEntry], false⟩⟩, ⟨sampleWindow, ⟨[sampleEntry], true⟩⟩] := by
  have s0 : (watchSystem sampleScans (some .absent) .absent 10000000000).Reachable
      (started sampleScans (some .absent) .absent 10000000000) := .init rfl
  have s1 := s0.next (.other rfl (.scan rfl rfl rfl rfl) nofun)
  have s2 := s1.next (.scanned ⟨[sampleEntry], true⟩ rfl rfl)
  have s3 := s2.next (.other rfl (.retry rfl rfl) nofun)
  have s4 := s3.next (.other rfl (.scan rfl rfl rfl rfl) nofun)
  have s5 := s4.next (.scanned ⟨[sampleEntry], false⟩ rfl rfl)
  exact ⟨_, _, s5.next (.other rfl (.jump rfl rfl) nofun), rfl, rfl, rfl⟩

theorem no_file_skipped_or_repeated_sample :
    (∃ s, (watchSystem sampleScans (some .absent) .absent 10000000000).Reachable s ∧
      ∃ scan ∈ s.scans, sampleFile ∈ scan.accepted sampleScans) ∧
    ∃ s, (watchSystem sampleScans (some .absent) .absent 10000000000).Reachable s ∧
      s.scans.map Scan.complete = [false] ∧ s.run.file = .absent ∧
      ∀ e ∈ s.run.process, e.filter = sampleWindow := by
  constructor
  · obtain ⟨s, e, hs, he, hafter, hscans⟩ := sample_jumped
    have hvisible : Visible sampleScans (· = sampleFile) s := by
      rintro scan hscan - f rfl last - -
      rw [hscans] at hscan
      rcases hscan with _ | ⟨_, _ | ⟨_, ⟨⟩⟩⟩ <;> exact List.mem_singleton_self sampleFile
    have haccepted := (no_file_skipped_or_repeated hs he).1 _ hvisible sampleFile rfl
      sampleFile_wanted 8000000000 rfl (by decide) (by rw [hafter]; decide)
    exact ⟨s, hs, haccepted.1⟩
  · obtain ⟨s, e, hs, he, hphase, hfilter, hfile, hscans⟩ := sample_scanning
    have hstep := WatchStep.scanned (C := sampleScans) ⟨[sampleEntry], true⟩ he hphase
    have hheld := (no_file_skipped_or_repeated hs he).2 hphase _ [⟨e.filter, ⟨[sampleEntry], true⟩⟩]
      (.single hstep) rfl (by simp [Scan.complete])
    refine ⟨_, hs.next hstep, by rw [hscans]; rfl, hheld.1.trans hfile, fun e' he' => ?_⟩
    exact (hheld.2 e' he').trans hfilter

end CdvizCollector.Sources.Opendal
