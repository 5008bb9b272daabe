import CdvizCollector.Sources.Opendal.Watch

/-!
Files of which the metadata cannot be read (`Resource::from_entry`).

A stat that fails leaves a resource without a time or a length, which the filter
passes over, and the window moves on: of a failed listing it does not.
-/

namespace CdvizCollector.Sources.Opendal

open Lib Checkpoint

/-! ### The calls made for an entry -/

/-- What `stat` answers, each time it is called for an entry. -/
def Listed.statCalls (listed : Listed) : List (Option Metadata) :=
  let metadata := listed.entry.metadata
  let forTime := if metadata.lastModified.isNone then [listed.statForTime] else []
  let forLength :=
    if metadata.contentLength = 0 ∧ (metadata.lastModified.isNone → listed.statForTime.isNone) then
      [listed.statForLength]
    else []
  forTime ++ forLength

/-- An entry of a file, of which nothing wrong is told. -/
structure Listed.Describes (listed : Listed) (f : Resource) : Prop where
  path : listed.entry.path = f.path
  mode : decide (listed.entry.metadata.mode = .file) = f.isFile
  time : ∀ t ∈ listed.entry.metadata.lastModified, f.lastModified = some t
  length : listed.entry.metadata.contentLength ≠ 0 →
    listed.entry.metadata.contentLength = f.contentLength
  stat : ∀ answer, listed.statForTime = some answer ∨ listed.statForLength = some answer →
    answer.lastModified = f.lastModified ∧ answer.contentLength = f.contentLength

/-- A file that has a time and a length is taken for what it is exactly if no call
that is made for its entry fails. -/
theorem fromEntry_eq_iff {listed : Listed} {f : Resource} (h : listed.Describes f)
    {last : Timestamp} (hlast : last ∈ f.lastModified) (hnonempty : 0 < f.contentLength)
    (root : String) (tryToLoadHeadersJson : Bool) :
    (fromEntry root tryToLoadHeadersJson listed).toResource = f ↔
      ∀ answer ∈ listed.statCalls, answer.isSome = true := by
  obtain ⟨⟨path, mode, lastModified, contentLength⟩, forTime, forLength, _, _⟩ := listed
  obtain ⟨fpath, isFile, _, flength⟩ := f
  obtain ⟨hpath, hmode, htime, hlength, hstat⟩ := h
  simp only at hpath hmode htime hlength hstat hlast hnonempty
  cases hlast
  subst hpath hmode
  have hzero : 0 ≠ flength := (UInt64.pos_iff_ne_zero.mp hnonempty).symm
  simp only [fromEntry, Listed.statCalls, Resource.mk.injEq, true_and]
  cases lastModified with
  | none =>
      cases forTime with
      | none => simp
      | some answer =>
          obtain ⟨hatime, halength⟩ := hstat answer (.inl rfl)
          by_cases hknown : contentLength = 0
          · simp [hknown, hatime, halength]
          · obtain rfl := hlength hknown
            simp [hknown, hatime]
  | some t =>
      cases htime t rfl
      by_cases hknown : contentLength = 0
      · cases forLength with
        | none => simp [hknown, hzero]
        | some answer =>
            obtain ⟨-, halength⟩ := hstat answer (.inr rfl)
            simp [hknown, halength]
      · obtain rfl := hlength hknown
        simp [hknown]

/-! ### What is read before the window has passed it -/

variable {C : ScanConfig} {read : Option File} {file : File} {now first : Timestamp}
  {s : Watch} {e : Extractor}

/-- The metadata of a file could be read in a scan. -/
def Scan.Reads (C : ScanConfig) (scan : Scan) (f : Resource) : Prop :=
  ∃ listed ∈ scan.listing.entries, listed.Describes f ∧
    (fromEntry C.root C.tryReadHeadersJson listed).toResource = f

/-- The window has passed no file that was not read in a scan of a window it was in. -/
def PassesOnlyRead (C : ScanConfig) (first : Timestamp) (files : Resource → Prop) (s : Watch)
    (e : Extractor) : Prop :=
  ∀ f, files f → Wanted C f → ∀ last ∈ f.lastModified, first < last → last ≤ e.filter.tsAfter →
    ∃ scan ∈ s.scans, scan.filter.span.Contains last ∧ scan.Reads C f

/-- For each window that was left behind, its last scan or one that failed before it
listed the files of the window, and no call made for their entries failed. -/
def StatsAnswered (C : ScanConfig) (first : Timestamp) (files : Resource → Prop) (s : Watch)
    (e : Extractor) : Prop :=
  ∀ scan ∈ s.scans, scan.complete = true → scan.filter.tsBefore ≤ e.filter.tsAfter →
    ∀ f, files f → Wanted C f → ∀ last ∈ f.lastModified, first < last →
      scan.filter.span.Contains last →
        ∃ attempt ∈ s.scans, attempt.filter = scan.filter ∧
          ∃ listed ∈ attempt.listing.entries, listed.Describes f ∧
            ∀ answer ∈ listed.statCalls, answer.isSome = true

theorem reads_iff {scan : Scan} {f : Resource} (hf : Wanted C f) {last : Timestamp}
    (hlast : last ∈ f.lastModified) :
    scan.Reads C f ↔ ∃ listed ∈ scan.listing.entries, listed.Describes f ∧
      ∀ answer ∈ listed.statCalls, answer.isSome = true := by
  unfold Scan.Reads
  refine exists_congr fun listed => and_congr_right fun _ => and_congr_right fun hdescribes => ?_
  exact fromEntry_eq_iff hdescribes hlast hf.nonempty _ _

/-- Scans with an instant in common have the same window. -/
theorem Watched.same_window (h : Watched C first s) {scan attempt : Scan} (hscan : scan ∈ s.scans)
    (hattempt : attempt ∈ s.scans) {u : Timestamp} (hcontains : scan.filter.span.Contains u)
    (hcontains' : attempt.filter.span.Contains u) : attempt.filter = scan.filter := by
  have hordered : s.scans.Pairwise fun newer older => newer.filter.span.Contains u →
      older.filter.span.Contains u → older.filter = newer.filter := by
    refine h.ordered.imp ?_
    rintro newer older (⟨-, hsame⟩ | hle) ⟨hafter, -⟩ ⟨-, hstop⟩
    · exact hsame
    · exact absurd (le_trans hstop hle) (not_le_of_gt hafter)
  refine hordered.forall_of_forall_of_flip (fun _ _ _ _ => rfl) ?_ hscan hattempt hcontains
    hcontains'
  exact hordered.imp fun hsame holder hnewer => (hsame hnewer holder).symm

/-- In every run, the window passes files that were not read exactly if there is a
window in which the calls for their entries failed, whenever it was scanned. -/
theorem passes_only_read_iff (hs : (watchSystem C read file now).Reachable s)
    (he : s.run.process = some e) (files : Resource → Prop) :
    PassesOnlyRead C (C.boot read now).tsAfter files s e ↔
      StatsAnswered C (C.boot read now).tsAfter files s e := by
  have hwatched := (watched_invariant C read file now).holds hs
  constructor
  · intro h scan hscan hcomplete hpassed f hf hwanted last hlast hfirst hcontains
    obtain ⟨attempt, hattempt, hcontains', hreads⟩ :=
      h f hf hwanted last hlast hfirst (le_trans hcontains.2 hpassed)
    exact ⟨attempt, hattempt, hwatched.same_window hscan hattempt hcontains hcontains',
      (reads_iff hwanted hlast).mp hreads⟩
  · intro h f hf hwanted last hlast hfirst hpassed
    obtain ⟨scan, hscan, hcomplete, hcontains, hbehind⟩ :=
      (hwatched.process e he).covered last hfirst hpassed
    obtain ⟨attempt, hattempt, hsame, hlisted⟩ :=
      h scan hscan hcomplete hbehind f hf hwanted last hlast hfirst hcontains
    refine ⟨attempt, hattempt, ?_, (reads_iff hwanted hlast).mpr hlisted⟩
    rw [hsame]
    exact hcontains

theorem sampleEntry_describes : sampleEntry.Describes sampleFile where
  path := rfl
  mode := rfl
  time := fun _ h => h
  length := fun _ => rfl
  stat := by
    rintro answer (h | h)
    · exact absurd h (by simp [sampleEntry])
    · exact absurd h (by simp [sampleEntry])

theorem passes_only_read_iff_sample :
    ∃ s e, (watchSystem sampleScans (some .absent) .absent 10000000000).Reachable s ∧
      s.run.process = some e ∧ e.filter.tsAfter = 9000000000 ∧
      PassesOnlyRead sampleScans sampleWindow.tsAfter (· = sampleFile) s e := by
  obtain ⟨s, e, hs, he, hafter, hscans⟩ := sample_jumped
  refine ⟨s, e, hs, he, hafter, (passes_only_read_iff hs he _).mpr ?_⟩
  rintro scan hscan - - f rfl - last - - -
  refine ⟨scan, hscan, rfl, sampleEntry, ?_, sampleEntry_describes, ?_⟩
  · rw [hscans] at hscan
    rcases hscan with _ | ⟨_, _ | ⟨_, ⟨⟩⟩⟩ <;> exact List.mem_singleton_self sampleEntry
  · rintro answer ⟨⟩

/-! ### A file that is lost -/

/-- The file as it is listed with its length and without a time, when the stat made for it
fails. -/
def unreadEntry : Listed where
  entry := ⟨"dir1/file01.txt", ⟨.file, none, 12⟩⟩
  statForTime := none
  statForLength := none
  pathExists _ := some false
  readHeaders _ := none

theorem unreadEntry_describes : unreadEntry.Describes sampleFile where
  path := rfl
  mode := rfl
  time := nofun
  length _ := rfl
  stat := by
    rintro answer (h | h)
    · exact absurd h (by simp [unreadEntry])
    · exact absurd h (by simp [unreadEntry])

/-- One listing, which is complete and shows the file: its window is left behind,
and the file was not read. -/
theorem file_passed_unread :
    ∃ s e, (watchSystem sampleScans (some .absent) .absent 10000000000).Reachable s ∧
      s.run.process = some e ∧ s.scans = [⟨sampleWindow, ⟨[unreadEntry], false⟩⟩] ∧
      unreadEntry.Describes sampleFile ∧
      ¬PassesOnlyRead sampleScans sampleWindow.tsAfter (· = sampleFile) s e := by
  have s0 : (watchSystem sampleScans (some .absent) .absent 10000000000).Reachable
      (started sampleScans (some .absent) .absent 10000000000) := .init rfl
  have s1 := s0.next (.other rfl (.scan rfl rfl rfl rfl) nofun)
  have s2 := s1.next (.scanned ⟨[unreadEntry], false⟩ rfl rfl)
  have s3 := s2.next (.other rfl (.jump rfl rfl) nofun)
  refine ⟨_, _, s3, rfl, rfl, unreadEntry_describes, fun h => ?_⟩
  obtain ⟨scan, hscan, -, listed, hlisted, -, hread⟩ :=
    h sampleFile rfl sampleFile_wanted 8000000000 rfl (by decide) (by decide)
  obtain rfl := List.mem_singleton.mp hscan
  obtain rfl := List.mem_singleton.mp hlisted
  exact absurd (congrArg Resource.lastModified hread) (by decide)

end CdvizCollector.Sources.Opendal
