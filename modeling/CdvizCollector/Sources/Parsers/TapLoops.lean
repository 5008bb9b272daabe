import CdvizCollector.Lib.ByteIndex
import CdvizCollector.Lib.System
import CdvizCollector.Sources.Parsers.TapLines

/-!
The loops of `parse_tap_document`, turn by turn, with slices at byte positions.

Each turn of a loop is a step, and so is each statement between two loops. A slice that is
not at a character boundary panics; the positions are those of a `#` or behind a line feed,
so none is. What a text is read as is the result of the functions on lists.
-/

namespace CdvizCollector.Sources.Tap

open Lib Nom ByteIndex

/-! ### Slices -/

/-- What `test_line` reads up to the line ending. -/
def testLineParts : Parser (TestStatus × Option (List Char) × List Char) := fun input => do
  let (input, status) ← testStatus input
  let (input, _) ← space1 input
  let (input, number) ← opt (terminated digit1 space1) input
  let (input, _) ← opt (pair (char '-') space1) input
  let (input, rest) ← notLineEnding input
  let (input, _) ← lineEnding input
  some (input, status, number, rest)

/-- The description and the directive, by the position of the last `#`; `none` is a panic. -/
def splitDirectiveAt (rest : List Char) : Option (Option String × Option Directive) :=
  match rfind '#' rest with
  | some hashPos => do
      let descPart ← sliceTo rest hashPos
      let directivePart ← sliceFrom rest hashPos
      match directive directivePart with
      | some (_, dir) => some (nonEmpty descPart, some dir)
      | none => some (nonEmpty rest, none)
  | none => some (nonEmpty rest, none)

/-- `test_line`; the outer `none` is a panic. -/
def testLineAt (parseYaml : String → Option Json) (input : List Char) :
    Option (Option (List Char × TestLine)) :=
  match testLineParts input with
  | none => some none
  | some (input, status, number, rest) => do
      let (description, dir) ← splitDirectiveAt rest
      some <| (opt yamlBlock input).map fun r =>
        (r.1,
          { status
            number := number.bind parseUsize
            description
            directive := dir
            yamlDiagnostics := r.2.bind parseYaml })

theorem splitDirectiveAt_eq (rest : List Char) :
    splitDirectiveAt rest = some (splitDirective rest) := by
  by_cases hhash : '#' ∈ rest
  · obtain ⟨before, after, hafter, rfl⟩ := Text.exists_last_separator hhash
    rw [splitDirectiveAt, splitDirective, rfind_append hafter, Text.rsplitOnce_append hafter]
    simp only [sliceTo_append, sliceFrom_append, Option.bind_eq_bind, Option.bind_some]
    cases directive ('#' :: after) <;> rfl
  · rw [splitDirectiveAt, splitDirective, rfind_eq_none_iff.mpr hhash,
      Text.rsplitOnce_of_not_mem hhash]

/-- No slice of a test line panics. -/
theorem testLineAt_eq (parseYaml : String → Option Json) (input : List Char) :
    testLineAt parseYaml input = some (testLine parseYaml input) := by
  have hparts : testLine parseYaml input = (testLineParts input).bind fun parts =>
      (opt yamlBlock parts.1).map fun r =>
        (r.1,
          { status := parts.2.1
            number := parts.2.2.1.bind parseUsize
            description := (splitDirective parts.2.2.2).1
            directive := (splitDirective parts.2.2.2).2
            yamlDiagnostics := r.2.bind parseYaml }) := by
    simp only [testLine, testLineParts, Option.bind_eq_bind, Option.bind_assoc, Option.bind_some,
      Option.map_eq_bind]
    rfl
  rw [testLineAt, hparts]
  cases testLineParts input with
  | none => rfl
  | some parts =>
      simp only [splitDirectiveAt_eq, Option.bind_eq_bind, Option.bind_some]

/-- What follows the next line feed, if there is one; the outer `none` is a panic. -/
def afterNewlineAt (remaining : List Char) : Option (Option (List Char)) :=
  match find '\n' remaining with
  | some newlinePos => (sliceFrom remaining (newlinePos + 1)).map some
  | none => some none

theorem afterNewlineAt_eq (remaining : List Char) :
    afterNewlineAt remaining = some (afterNewline remaining) := by
  rw [afterNewlineAt]
  cases hfind : find '\n' remaining with
  | none =>
      have hskip := afterNewline_append (find_eq_none_iff.mp hfind) []
      rw [List.append_nil] at hskip
      rw [hskip]
      rfl
  | some newlinePos =>
      obtain ⟨front, back, rfl, hfront, rfl⟩ := find_eq_some_iff.mp hfind
      -- a line feed is a single byte
      have hbytes : byteLength front + 1 = byteLength (front ++ ['\n']) := by
        rw [byteLength_append]
        rfl
      have hslice := sliceFrom_append (front ++ ['\n']) back
      rw [← hbytes, List.append_assoc, List.singleton_append] at hslice
      rw [afterNewline_append hfront]
      dsimp only
      rw [hslice]
      rfl

/-! ### Turns -/

/-- Where `parse_tap_document` is: in one of its skipping loops (`leading`, `beforePlan` and
`lines`, the last of which starts the body of the main loop) or behind it. -/
inductive Place where
  | leading
  | version
  | beforePlan
  | plan
  | lines
  | line
deriving DecidableEq

/-- The local variables. -/
structure Loop where
  place : Place
  remaining : List Char
  version : Option UInt8
  plan : Option Plan
  tests : List TestLine

inductive Next where
  | go (s : Loop)
  | done (document : TapDocument)
  | panicked

def Loop.start (input : String) : Loop :=
  { place := .leading, remaining := input.toList, version := none, plan := none, tests := [] }

/-- `while let Ok((rest, _)) = ignorable_line(remaining)`. -/
def Loop.skip (s : Loop) (behind : Place) : Loop :=
  match ignorableLine s.remaining with
  | some (rest, _) => { s with remaining := rest }
  | none => { s with place := behind }

/-- `if let Ok((rest, v)) = tap_version(remaining)`. -/
def Loop.tryVersion (s : Loop) : Loop :=
  match tapVersion s.remaining with
  | some (rest, version) =>
      { s with place := .beforePlan, remaining := rest, version := some version }
  | none => { s with place := .beforePlan }

/-- `if let Ok((rest, p)) = plan_line(remaining)`, before the main loop. -/
def Loop.tryPlan (s : Loop) : Loop :=
  match planLine s.remaining with
  | some (rest, plan) => { s with place := .lines, remaining := rest, plan := some plan }
  | none => { s with place := .lines }

section

variable (parseYaml : String → Option Json)

/-- The body of the main loop behind its skipping loop. -/
def Loop.body (s : Loop) : Next :=
  if s.remaining = [] then .done ⟨s.version, s.plan, s.tests⟩
  else
    match testLineAt parseYaml s.remaining with
    | none => .panicked
    | some (some (rest, test)) =>
        .go { s with place := .lines, remaining := rest, tests := s.tests ++ [test] }
    | some none =>
        match if s.plan.isNone then planLine s.remaining else none with
        | some (rest, plan) => .go { s with place := .lines, remaining := rest, plan := some plan }
        | none =>
            match afterNewlineAt s.remaining with
            | none => .panicked
            | some (some rest) => .go { s with place := .lines, remaining := rest }
            | some none => .done ⟨s.version, s.plan, s.tests⟩

def step (s : Loop) : Next :=
  match s.place with
  | .leading => .go (s.skip .version)
  | .version => .go s.tryVersion
  | .beforePlan => .go (s.skip .plan)
  | .plan => .go s.tryPlan
  | .lines => .go (s.skip .line)
  | .line => s.body parseYaml

/-- `parse_tap_document`, turn by turn. -/
def loops (input : String) : System Loop where
  init s := s = Loop.start input
  step s t := step parseYaml s = .go t

/-- An iteration of a skipping loop, or of the main loop with all of its skipping loop. -/
inductive Iteration : Loop → Loop → Prop
  | skipping {s t : Loop} (hstep : step parseYaml s = .go t) (hplace : t.place = s.place) :
      Iteration s t
  | main {s u v t : Loop} (hs : s.place = .lines)
      (hskip : Relation.ReflTransGen
        (fun u u' => step parseYaml u = .go u' ∧ u'.place = u.place) s u)
      (hleave : step parseYaml u = .go v) (hv : v.place = .line)
      (hbody : step parseYaml v = .go t) : Iteration s t

/-- What the main loop makes of a text. -/
def Loop.readLines (s : Loop) : TapDocument :=
  let (plan, tests) := parseLines parseYaml s.remaining s.plan s.tests
  { version := s.version, plan, tests }

def Loop.skipped (s : Loop) : Loop := { s with remaining := skipIgnorable s.remaining }

/-- The document that is read from a place on. -/
def Loop.finish (s : Loop) : TapDocument :=
  match s.place with
  | .leading => s.skipped.tryVersion.skipped.tryPlan.readLines parseYaml
  | .version => s.tryVersion.skipped.tryPlan.readLines parseYaml
  | .beforePlan => s.skipped.tryPlan.readLines parseYaml
  | .plan => s.tryPlan.readLines parseYaml
  | .lines => s.readLines parseYaml
  | .line => s.readLines parseYaml

end

/-- How many places are at or behind this one. -/
def Place.rank : Place → ℕ
  | .leading => 5
  | .version => 4
  | .beforePlan => 3
  | .plan => 2
  | .lines => 1
  | .line => 0

/-- What is left to do. The main loop goes back from `line` to `lines`, for a shorter text. -/
def Loop.weight (s : Loop) : ℕ := 2 * s.remaining.length + s.place.rank

/-! ### What a turn does -/

/-- Behind the skipping loop of the main loop there is nothing to skip. -/
def Loop.Settled (s : Loop) : Prop := s.place = .line → ignorableLine s.remaining = none

/-- A turn goes on with a back part of the text, and what is read in the end stays the same;
or it ends with that. -/
inductive Progress (parseYaml : String → Option Json) (s : Loop) : Next → Prop
  | go {t : Loop} (hsuffix : t.remaining <:+ s.remaining) (hweight : t.weight < s.weight)
      (hfinish : t.finish parseYaml = s.finish parseYaml) (hsettled : t.Settled)
      (hleaves : t.place = s.place ∨ s.place = .line → Leaves t.remaining s.remaining) :
      Progress parseYaml s (.go t)
  | done : Progress parseYaml s (.done (s.finish parseYaml))

section

variable {parseYaml : String → Option Json} {s : Loop}

theorem tapVersion_suffix {input rest : List Char} {version : UInt8}
    (h : tapVersion input = some (rest, version)) : rest <:+ input := by
  simp only [tapVersion, Option.bind_eq_bind, Option.bind_eq_some_iff, Prod.exists] at h
  obtain ⟨r₁, _, h₁, r₂, _, h₂, r₃, _, h₃, r₄, _, h₄, r₅, _, h₅, r₆, _, h₆, h⟩ := h
  obtain rfl : r₆ = rest := (Prod.mk.inj (Option.some.inj h)).1
  exact (suffix_of_lineEnding h₆).1.trans <| (suffix_of_takeWhile1 h₅).trans <|
    (suffix_of_takeWhile1 h₄).trans <| (suffix_of_tag h₃).trans <|
    (suffix_of_takeWhile1 h₂).trans (suffix_of_tag h₁)

theorem finish_start (parseYaml : String → Option Json) (input : String) :
    (Loop.start input).finish parseYaml = parseTapDocument parseYaml input := by
  simp only [Loop.finish, Loop.start, Loop.skipped, parseTapDocument, takeIf, Loop.tryVersion]
  cases tapVersion (skipIgnorable input.toList) with
  | none =>
      simp only [Loop.tryPlan]
      cases planLine (skipIgnorable (skipIgnorable input.toList)) <;> rfl
  | some r =>
      simp only [Loop.tryPlan]
      cases planLine (skipIgnorable r.1) <;> rfl

/-- One pass of the main loop. -/
theorem parseLines_eq (parseYaml : String → Option Json) (remaining : List Char)
    (plan : Option Plan) (tests : List TestLine) :
    parseLines parseYaml remaining plan tests =
      if skipIgnorable remaining = [] then (plan, tests)
      else
        match testLine parseYaml (skipIgnorable remaining) with
        | some r => parseLines parseYaml r.1 plan (tests ++ [r.2])
        | none =>
            match if plan.isNone then planLine (skipIgnorable remaining) else none with
            | some r => parseLines parseYaml r.1 (some r.2) tests
            | none => ((afterNewline (skipIgnorable remaining)).map fun rest =>
                parseLines parseYaml rest plan tests).getD (plan, tests) := by
  rw [parseLines]
  split
  · rfl
  · split
    · rename_i heq
      rw [heq]
    · rename_i heq
      rw [heq]
      split
      · rename_i heq
        rw [heq]
      · rename_i heq
        rw [heq]
        split
        · rename_i heq
          rw [heq]
          rfl
        · rename_i heq
          rw [heq]
          rfl

theorem parseLines_congr {remaining rest : List Char}
    (h : skipIgnorable remaining = skipIgnorable rest) (plan : Option Plan)
    (tests : List TestLine) :
    parseLines parseYaml remaining plan tests = parseLines parseYaml rest plan tests := by
  rw [parseLines_eq, h, ← parseLines_eq]

/-- A skipping loop goes on behind an ignorable line, or is over. -/
theorem skip_cases (s : Loop) (behind : Place) :
    (∃ rest, s.skip behind = { s with remaining := rest } ∧ Leaves rest s.remaining ∧
      skipIgnorable s.remaining = skipIgnorable rest) ∨
    (s.skip behind = { s with place := behind } ∧ ignorableLine s.remaining = none) := by
  rw [Loop.skip]
  cases hline : ignorableLine s.remaining with
  | some r => exact Or.inl ⟨r.1, rfl, ignorableLine_leaves hline, skipIgnorable_of_some hline⟩
  | none => exact Or.inr ⟨rfl, rfl⟩

theorem tryVersion_spec (s : Loop) :
    s.tryVersion.place = .beforePlan ∧ s.tryVersion.remaining <:+ s.remaining := by
  rw [Loop.tryVersion]
  cases hversion : tapVersion s.remaining with
  | some r => exact ⟨rfl, tapVersion_suffix hversion⟩
  | none => exact ⟨rfl, List.suffix_refl _⟩

theorem tryPlan_spec (s : Loop) :
    s.tryPlan.place = .lines ∧ s.tryPlan.remaining <:+ s.remaining := by
  rw [Loop.tryPlan]
  cases hplan : planLine s.remaining with
  | some r => exact ⟨rfl, (planLine_leaves hplan).1⟩
  | none => exact ⟨rfl, List.suffix_refl _⟩

/-- A turn that goes on to a place further behind. -/
theorem progress_on {t : Loop} (hsuffix : t.remaining <:+ s.remaining)
    (hrank : t.place.rank < s.place.rank) (hsettled : t.Settled)
    (hfinish : t.finish parseYaml = s.finish parseYaml) : Progress parseYaml s (.go t) := by
  refine .go hsuffix ?_ hfinish hsettled ?_
  · have hlength := hsuffix.length_le
    rw [Loop.weight, Loop.weight]
    omega
  · rintro (hplace | hplace)
    · exact absurd (congrArg Place.rank hplace) (Nat.ne_of_lt hrank)
    · rw [hplace] at hrank
      cases hrank

/-- A turn that leaves less of the text, and goes back by one place at most. -/
theorem progress_back {t : Loop} (hleaves : Leaves t.remaining s.remaining)
    (hrank : t.place.rank ≤ s.place.rank + 1) (hsettled : t.Settled)
    (hfinish : t.finish parseYaml = s.finish parseYaml) : Progress parseYaml s (.go t) := by
  refine .go hleaves.1 ?_ hfinish hsettled fun _ => hleaves
  have hlength := hleaves.2
  rw [Loop.weight, Loop.weight]
  omega

/-- A turn of a skipping loop, if what is read behind the loop is what is read in it. -/
theorem progress_skip {behind : Place} (hrank : behind.rank < s.place.rank)
    (hline : s.place ≠ .line)
    (hgo : ∀ {rest}, skipIgnorable s.remaining = skipIgnorable rest →
      Loop.finish parseYaml { s with remaining := rest } = s.finish parseYaml)
    (hbehind : ignorableLine s.remaining = none →
      Loop.finish parseYaml { s with place := behind } = s.finish parseYaml) :
    Progress parseYaml s (.go (s.skip behind)) := by
  rcases skip_cases s behind with ⟨rest, hskip, hleaves, hrest⟩ | ⟨hskip, hnone⟩
  · rw [hskip]
    exact progress_back hleaves (Nat.le_succ _) (fun hplace => absurd hplace hline) (hgo hrest)
  · rw [hskip]
    exact progress_on (List.suffix_refl _) hrank (fun _ => hnone) (hbehind hnone)

theorem readLines_eq {rest : List Char} (h : skipIgnorable s.remaining = skipIgnorable rest) :
    Loop.readLines parseYaml { s with remaining := rest } = s.readLines parseYaml := by
  rw [Loop.readLines, Loop.readLines, parseLines_congr h]

theorem progress_tryVersion (h : s.place = .version) : Progress parseYaml s (.go s.tryVersion) := by
  obtain ⟨hplace, hsuffix⟩ := tryVersion_spec s
  refine progress_on hsuffix ?_ ?_ ?_
  · rw [h, hplace]
    exact Nat.lt_succ_self _
  · exact fun hline => absurd (hplace.symm.trans hline) Place.noConfusion
  · rw [Loop.finish, hplace, Loop.finish, h]

theorem progress_tryPlan (h : s.place = .plan) : Progress parseYaml s (.go s.tryPlan) := by
  obtain ⟨hplace, hsuffix⟩ := tryPlan_spec s
  refine progress_on hsuffix ?_ ?_ ?_
  · rw [h, hplace]
    exact Nat.lt_succ_self _
  · exact fun hline => absurd (hplace.symm.trans hline) Place.noConfusion
  · rw [Loop.finish, hplace, Loop.finish, h]

/-- A pass of the main loop that reads or passes over a line. -/
theorem progress_line {rest : List Char} {plan : Option Plan} {tests : List TestLine}
    (h : s.place = .line) (hleaves : Leaves rest s.remaining)
    (hread : parseLines parseYaml s.remaining s.plan s.tests =
      parseLines parseYaml rest plan tests) :
    Progress parseYaml s
      (.go { s with place := .lines, remaining := rest, plan := plan, tests := tests }) := by
  refine progress_back hleaves ?_ ?_ ?_
  · rw [h]
    exact Nat.le_refl _
  · exact fun hline => absurd hline Place.noConfusion
  · simp only [Loop.finish, h, Loop.readLines, hread]

/-- A pass that is the last one. -/
theorem progress_last (h : s.place = .line)
    (hread : parseLines parseYaml s.remaining s.plan s.tests = (s.plan, s.tests)) :
    Progress parseYaml s (.done ⟨s.version, s.plan, s.tests⟩) := by
  have hfinish : s.finish parseYaml = ⟨s.version, s.plan, s.tests⟩ := by
    simp only [Loop.finish, h, Loop.readLines, hread]
  exact hfinish ▸ .done

theorem progress_body (h : s.place = .line) (hsettled : ignorableLine s.remaining = none) :
    Progress parseYaml s (s.body parseYaml) := by
  have hread := parseLines_eq parseYaml s.remaining s.plan s.tests
  rw [skipIgnorable_of_none hsettled] at hread
  rw [Loop.body, testLineAt_eq, afterNewlineAt_eq]
  split
  · rename_i hnil
    rw [if_pos hnil] at hread
    exact progress_last h hread
  · rename_i hne
    rw [if_neg hne] at hread
    cases htest : testLine parseYaml s.remaining with
    | some r =>
        rw [htest] at hread
        exact progress_line h (testLine_leaves htest) hread
    | none =>
        rw [htest] at hread
        dsimp only at hread ⊢
        cases hplan : if s.plan.isNone then planLine s.remaining else none with
        | some r =>
            rw [hplan] at hread
            have hline : planLine s.remaining = some r := by
              split at hplan
              · exact hplan
              · cases hplan
            exact progress_line h (planLine_leaves hline) hread
        | none =>
            rw [hplan] at hread
            -- neither a test nor a plan: the line is passed over
            cases hafter : afterNewline s.remaining with
            | some rest =>
                rw [hafter] at hread
                exact progress_line h (afterNewline_leaves hafter) hread
            | none =>
                rw [hafter] at hread
                exact progress_last h hread

theorem step_progress (hsettled : s.Settled) : Progress parseYaml s (step parseYaml s) := by
  obtain ⟨place, remaining, version, plan, tests⟩ := s
  cases place with
  | leading =>
      let behind (text : List Char) := Loop.finish parseYaml ⟨.version, text, version, plan, tests⟩
      refine progress_skip (Nat.lt_succ_self _) Place.noConfusion ?_ ?_
      · exact fun hrest => congrArg behind hrest.symm
      · exact fun hnone => congrArg behind (skipIgnorable_of_none hnone).symm
  | version => exact progress_tryVersion rfl
  | beforePlan =>
      let behind (text : List Char) := Loop.finish parseYaml ⟨.plan, text, version, plan, tests⟩
      refine progress_skip (Nat.lt_succ_self _) Place.noConfusion ?_ ?_
      · exact fun hrest => congrArg behind hrest.symm
      · exact fun hnone => congrArg behind (skipIgnorable_of_none hnone).symm
  | plan => exact progress_tryPlan rfl
  | lines =>
      refine progress_skip (Nat.lt_succ_self _) Place.noConfusion ?_ ?_
      · exact fun hrest => readLines_eq hrest
      · exact fun _ => rfl
  | line => exact progress_body rfl (hsettled rfl)

theorem progress_go {t : Loop} (hsettled : s.Settled) (hstep : step parseYaml s = .go t) :
    Progress parseYaml s (.go t) := hstep ▸ step_progress hsettled

/-! ### Runs -/

/-- The text is at a character boundary, and the document read in the end is settled. -/
structure Reads (parseYaml : String → Option Json) (input : String) (s : Loop) : Prop where
  suffix : s.remaining <:+ input.toList
  settled : s.Settled
  finish : s.finish parseYaml = parseTapDocument parseYaml input

theorem reads_invariant (parseYaml : String → Option Json) (input : String) :
    (loops parseYaml input).Invariant (Reads parseYaml input) where
  init := by
    rintro s rfl
    refine ⟨List.suffix_refl _, ?_, finish_start parseYaml input⟩
    intro hplace
    cases hplace
  step := by
    intro s t hs hstep
    cases progress_go hs.settled hstep with
    | go hsuffix _ hfinish hsettled _ =>
        exact ⟨hsuffix.trans hs.suffix, hsettled, hfinish.trans hs.finish⟩

/-- The turns of a skipping loop. -/
theorem skips_suffix {u : Loop} (hsettled : s.Settled)
    (hskip : Relation.ReflTransGen
      (fun u u' => step parseYaml u = .go u' ∧ u'.place = u.place) s u) :
    u.Settled ∧ u.remaining <:+ s.remaining := by
  induction hskip with
  | refl => exact ⟨hsettled, List.suffix_refl _⟩
  | tail _ hstep ih =>
      cases progress_go ih.1 hstep.1 with
      | go hsuffix _ _ hsettled' _ => exact ⟨hsettled', hsuffix.trans ih.2⟩

theorem Iteration.leaves {t : Loop} (h : Iteration parseYaml s t) (hsettled : s.Settled) :
    Leaves t.remaining s.remaining := by
  cases h with
  | skipping hstep hplace =>
      cases progress_go hsettled hstep with
      | go _ _ _ _ hleaves => exact hleaves (Or.inl hplace)
  | main _ hskip hleave hv hbody =>
      obtain ⟨hu, hskipped⟩ := skips_suffix hsettled hskip
      cases progress_go hu hleave with
      | go hsuffix _ _ hsettled' _ =>
          cases progress_go hsettled' hbody with
          | go _ _ _ _ hleaves =>
              exact (hleaves (Or.inr hv)).of_suffix (hsuffix.trans hskipped)

end

/-- On every text the loops end with its document, and no slice panics: what remains is the text
from a character boundary on, and each iteration leaves less of it. -/
theorem parse_tap_document_terminates (parseYaml : String → Option Json) (input : String) :
    (loops parseYaml input).TerminatesIn
        (fun s => step parseYaml s = .done (parseTapDocument parseYaml input))
        (2 * input.toList.length + 5) (Loop.start input) ∧
      ∀ s, (loops parseYaml input).Reachable s →
        (∃ k, sliceFrom input.toList k = some s.remaining) ∧
        step parseYaml s ≠ .panicked ∧
        ∀ t, Iteration parseYaml s t → Leaves t.remaining s.remaining := by
  have hinv := reads_invariant parseYaml input
  constructor
  · refine hinv.terminatesIn (μ := Loop.weight) ?_ ?_ ?_ (.init rfl) (Nat.le_refl _)
    · intro s t hs hstep
      cases progress_go hs.settled hstep with
      | go _ hweight _ _ _ => exact hweight
    · intro s hs hnot
      have hprogress : Progress parseYaml s (step parseYaml s) := step_progress hs.settled
      generalize hnext : step parseYaml s = next at hprogress hnot
      cases hprogress with
      | go => exact ⟨_, hnext⟩
      | done => exact absurd (congrArg Next.done hs.finish) hnot
    · intro s t hdone hstep
      cases hdone.symm.trans hstep
  · intro s hreach
    have hs := hinv.holds hreach
    refine ⟨exists_sliceFrom_iff.mpr hs.suffix, ?_, fun t ht => ht.leaves hs.settled⟩
    intro hpanic
    have hprogress : Progress parseYaml s (step parseYaml s) := step_progress hs.settled
    rw [hpanic] at hprogress
    cases hprogress

end CdvizCollector.Sources.Tap
