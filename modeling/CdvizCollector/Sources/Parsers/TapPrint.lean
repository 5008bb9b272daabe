import CdvizCollector.Sources.Parsers.Tap

/-!
Printed TAP documents, and that the parser reads them back.

The printer writes a version line, a plan first or last, and the test points, one
on each line. A description or a reason is a text that a line keeps as it is: not
empty, trimmed, on one line and without a `#`. It may look like anything else, a
number, a dash, a plan or a status.
-/

namespace CdvizCollector.Sources.Tap

open Lib Nom

/-! ### The printer -/

/-- A description or a reason. -/
structure LineText where
  text : String
  ne_empty : text ≠ ""
  trimmed : Text.trim text = text
  plain : ∀ c ∈ text.toList, c ≠ '#' ∧ c ≠ '\r' ∧ c ≠ '\n'

structure TestPoint where
  status : TestStatus
  number : UInt64
  description : LineText
  directive : Option (DirectiveKind × Option LineText)

structure Printable where
  version : Option UInt8
  plan : Option Plan
  planFirst : Bool
  tests : List TestPoint

def TestStatus.print : TestStatus → String
  | .ok => "ok"
  | .notOk => "not ok"

def DirectiveKind.print : DirectiveKind → String
  | .skip => "SKIP"
  | .todo => "TODO"

def printDirective : Option (DirectiveKind × Option LineText) → String
  | none => ""
  | some (kind, none) => " # " ++ kind.print
  | some (kind, some reason) => " # " ++ kind.print ++ " " ++ reason.text

def TestPoint.print (t : TestPoint) : String :=
  t.status.print ++ " " ++ t.number.toNat.repr ++ " - " ++ t.description.text ++
    printDirective t.directive ++ "\n"

def printVersion (version : UInt8) : String := "TAP version " ++ version.toNat.repr ++ "\n"

def Plan.print (plan : Plan) : String :=
  plan.start.toNat.repr ++ ".." ++ plan.stop.toNat.repr ++ "\n"

def Printable.print (d : Printable) : String :=
  (d.version.map printVersion).getD "" ++
    (if d.planFirst then (d.plan.map Plan.print).getD "" else "") ++
    String.join (d.tests.map TestPoint.print) ++
    (if d.planFirst then "" else (d.plan.map Plan.print).getD "")

/-! ### What is printed -/

def TestPoint.line (t : TestPoint) : TestLine :=
  { status := t.status
    number := some t.number
    description := some t.description.text
    directive := t.directive.map fun d => { kind := d.1, reason := d.2.map LineText.text }
    yamlDiagnostics := none }

def Printable.document (d : Printable) : TapDocument :=
  { version := d.version, plan := d.plan, tests := d.tests.map TestPoint.line }

/-! ### Characters -/

theorem isWhitespace_of_isSpace {c : Char} (h : isSpace c = true) :
    Text.isWhitespace c = true := by
  simp only [isSpace, Bool.or_eq_true, decide_eq_true_eq] at h
  rcases h with rfl | rfl <;> decide

section

variable (t : LineText)

theorem LineText.ne_nil : t.text.toList ≠ [] := by
  rw [Ne, String.toList_eq_nil_iff]
  exact t.ne_empty

theorem LineText.trimBy : Text.trimBy Text.isWhitespace t.text.toList = t.text.toList := by
  rw [← Text.toList_trim, t.trimmed]

/-- It does not start with a blank, whatever follows it. -/
theorem LineText.stops (rest : List Char) : Stops isSpace (t.text.toList ++ rest) := by
  have hhead := Text.head_of_trimBy t.trimBy
  have hne := t.ne_nil
  revert hhead hne
  cases t.text.toList with
  | nil => exact fun _ hne => absurd rfl hne
  | cons c chars =>
      intro hhead _
      rw [List.cons_append, stops_cons, ← Bool.not_eq_true]
      intro hspace
      have hblank := hhead c rfl
      rw [isWhitespace_of_isSpace hspace] at hblank
      cases hblank

theorem LineText.no_hash : '#' ∉ t.text.toList := fun h => (t.plain '#' h).1 rfl

theorem LineText.inLine {c : Char} (h : c ∈ t.text.toList) : isInLine c = true := by
  obtain ⟨-, hcr, hlf⟩ := t.plain c h
  simp [isInLine, hcr, hlf]

theorem nonEmpty_append_blank {blank : List Char}
    (h : ∀ c ∈ blank, Text.isWhitespace c = true) :
    nonEmpty (t.text.toList ++ blank) = some t.text := by
  have htrim : Text.trim (String.ofList (t.text.toList ++ blank)) = t.text := by
    rw [← String.toList_inj, Text.toList_trim, String.toList_ofList,
      Text.trimBy_append_right h, t.trimBy]
  rw [nonEmpty, htrim]
  exact if_neg t.ne_empty

theorem nonEmpty_text : nonEmpty t.text.toList = some t.text := by
  have h := nonEmpty_append_blank t (List.forall_mem_nil _)
  rwa [List.append_nil] at h

end

/-- A printed number is read up to what is not a digit. -/
theorem digit1_repr (n : ℕ) {rest : List Char} (h : Stops Char.isDigit rest) :
    digit1 (n.repr.toList ++ rest) = some (rest, Nat.toDigits 10 n) := by
  rw [Nat.toList_repr]
  exact takeWhile1_append Nat.toDigits_ne_nil
    (fun c hc => Nat.isDigit_of_mem_toDigits (by decide) (by decide) hc) h

/-- It starts with a digit. -/
theorem repr_head (n : ℕ) : ∃ c chars, n.repr.toList = c :: chars ∧ c.isDigit = true := by
  rw [Nat.toList_repr]
  obtain ⟨c, chars, h⟩ := List.exists_cons_of_ne_nil (Nat.toDigits_ne_nil (n := n) (b := 10))
  have hmem : c ∈ Nat.toDigits 10 n := by
    rw [h]
    exact List.mem_cons_self
  exact ⟨c, chars, h, Nat.isDigit_of_mem_toDigits (by decide) (by decide) hmem⟩

theorem repr_stops (n : ℕ) (rest : List Char) : Stops isSpace (n.repr.toList ++ rest) := by
  obtain ⟨c, chars, hhead, hdigit⟩ := repr_head n
  rw [hhead, List.cons_append, stops_cons, ← Bool.not_eq_true]
  intro hspace
  simp only [isSpace, Bool.or_eq_true, decide_eq_true_eq] at hspace
  rcases hspace with rfl | rfl <;> cases hdigit

theorem parseUsize_toDigits (n : UInt64) : parseUsize (Nat.toDigits 10 n.toNat) = some n := by
  have hle : n.toNat ≤ Text.maxU64 := by
    have := n.toNat_lt
    simp only [Text.maxU64]
    omega
  rw [parseUsize, Text.parseDigits_toDigits, Option.bind_some, if_pos hle, UInt64.ofNat_toNat]

theorem parseU8_toDigits (n : UInt8) : parseU8 (Nat.toDigits 10 n.toNat) = some n := by
  have hle : n.toNat ≤ 255 := by
    have := n.toNat_lt
    omega
  rw [parseU8, Text.parseDigits_toDigits, Option.bind_some, if_pos hle, UInt8.ofNat_toNat]

/-! ### Lines -/

theorem stops_digit_newline (rest : List Char) : Stops Char.isDigit ('\n' :: rest) :=
  stops_cons.mpr rfl

theorem lineEnding_newline (rest : List Char) : lineEnding ('\n' :: rest) = some (rest, ()) := rfl

theorem tapVersion_print (version : UInt8) (rest : List Char) :
    tapVersion ((printVersion version).toList ++ rest) = some (rest, version) := by
  have hline : (printVersion version).toList ++ rest =
      "TAP".toList ++ ' ' :: ("version".toList ++ ' ' :: (version.toNat.repr.toList ++
        '\n' :: rest)) := by
    simp [printVersion]
  have htag := tag_append "TAP" (' ' :: ("version".toList ++ ' ' :: (version.toNat.repr.toList ++
    '\n' :: rest)))
  have hblank : Stops isSpace ("version".toList ++ ' ' :: (version.toNat.repr.toList ++
    '\n' :: rest)) := stops_cons.mpr rfl
  have hspace := space1_space hblank
  have hversion := tag_append "version" (' ' :: (version.toNat.repr.toList ++ '\n' :: rest))
  have hnumber := space1_space (repr_stops version.toNat ('\n' :: rest))
  have hdigits := digit1_repr version.toNat (stops_digit_newline rest)
  rw [hline]
  simp only [tapVersion, htag, hspace, hversion, hnumber, hdigits, lineEnding_newline,
    Option.bind_eq_bind, Option.bind_some, parseU8_toDigits, Option.getD_some]

theorem planLine_print (plan : Plan) (rest : List Char) :
    planLine (plan.print.toList ++ rest) = some (rest, plan) := by
  have hline : plan.print.toList ++ rest =
      plan.start.toNat.repr.toList ++ ("..".toList ++ (plan.stop.toNat.repr.toList ++
        '\n' :: rest)) := by
    simp [Plan.print]
  have hdigits : Stops Char.isDigit ("..".toList ++ (plan.stop.toNat.repr.toList ++
    '\n' :: rest)) := stops_cons.mpr rfl
  have hstart := digit1_repr plan.start.toNat hdigits
  have hdots := tag_append ".." (plan.stop.toNat.repr.toList ++ '\n' :: rest)
  have hstop := digit1_repr plan.stop.toNat (stops_digit_newline rest)
  rw [hline]
  simp only [planLine, hstart, hdots, hstop, lineEnding_newline, Option.bind_eq_bind,
    Option.bind_some, parseUsize_toDigits, Option.getD_some]

theorem testStatus_print (status : TestStatus) (rest : List Char) :
    testStatus (status.print.toList ++ rest) = some (rest, status) := by
  cases status with
  | ok => rw [testStatus, alt, value, TestStatus.print, tag_append]; rfl
  | notOk =>
      have hok : tag "ok" ("not ok".toList ++ rest) = none := tag_cons_ne rfl (by decide)
      rw [testStatus, alt, value, value, TestStatus.print, hok, tag_append]
      rfl

theorem directiveKind_print (kind : DirectiveKind) (rest : List Char) :
    alt (value .skip (tag "SKIP")) (value .todo (tag "TODO")) (kind.print.toList ++ rest) =
      some (rest, kind) := by
  cases kind with
  | skip => rw [alt, value, DirectiveKind.print, tag_append]; rfl
  | todo =>
      have hskip : tag "SKIP" ("TODO".toList ++ rest) = none := tag_cons_ne rfl (by decide)
      rw [alt, value, value, DirectiveKind.print, hskip, tag_append]
      rfl

theorem directiveKind_stops (kind : DirectiveKind) (rest : List Char) :
    Stops isSpace (kind.print.toList ++ rest) := by
  cases kind <;> exact stops_cons.mpr rfl

/-- What a printed directive is read as, from its `#` on. -/
theorem directive_print (kind : DirectiveKind) (reason : Option LineText) :
    ∃ rest, directive ('#' :: ' ' :: (kind.print.toList ++
      (reason.map fun r => ' ' :: r.text.toList).getD [])) =
        some (rest, { kind, reason := reason.map LineText.text }) := by
  have hspace0 : ∀ rest, space0 ('#' :: rest) = some ('#' :: rest, []) := fun _ => rfl
  have hspace1 := fun rest => space1_space (directiveKind_stops kind rest)
  cases reason with
  | none =>
      have hnone : opt (preceded space1 notLineEnding) [] = some ([], none) := rfl
      refine ⟨[], ?_⟩
      simp only [directive, hspace0, char_cons_self, hspace1, directiveKind_print, hnone,
        Option.map_none, Option.getD_none, Option.bind_eq_bind, Option.bind_some, Option.bind_none]
  | some r =>
      have hreason : opt (preceded space1 notLineEnding) (' ' :: r.text.toList) =
          some ([], some r.text.toList) := by
        have hstops := r.stops []
        rw [List.append_nil] at hstops
        apply opt_some
        rw [preceded, pair_some (space1_space hstops)
          (notLineEnding_all fun c hc => r.inLine hc)]
        rfl
      refine ⟨[], ?_⟩
      simp only [directive, hspace0, char_cons_self, hspace1, directiveKind_print, hreason,
        Option.map_some, Option.getD_some, Option.bind_eq_bind, Option.bind_some, nonEmpty_text]

theorem splitDirective_print (t : TestPoint) :
    splitDirective (t.description.text.toList ++ (printDirective t.directive).toList) =
      (some t.description.text, t.line.directive) := by
  rcases hdirective : t.directive with _ | ⟨kind, reason⟩
  · have hprint : (printDirective none).toList = [] := rfl
    rw [hprint, List.append_nil, splitDirective,
      Text.rsplitOnce_of_not_mem t.description.no_hash]
    simp only [nonEmpty_text, TestPoint.line, hdirective, Option.map_none]
  · have hprint : t.description.text.toList ++ (printDirective (some (kind, reason))).toList =
        (t.description.text.toList ++ [' ']) ++ '#' :: (' ' :: (kind.print.toList ++
          (reason.map fun r => ' ' :: r.text.toList).getD [])) := by
      cases reason <;> simp [printDirective]
    have hhash : '#' ∉ ' ' :: (kind.print.toList ++
        (reason.map fun r => ' ' :: r.text.toList).getD []) := by
      have hkind : '#' ∉ kind.print.toList := by cases kind <;> decide
      cases reason with
      | none => simp [hkind]
      | some r => simp [hkind, r.no_hash]
    obtain ⟨rest, hread⟩ := directive_print kind reason
    have hspace : ∀ c ∈ [' '], Text.isWhitespace c = true := List.forall_mem_singleton.mpr rfl
    have hblank := nonEmpty_append_blank t.description hspace
    rw [hprint, splitDirective, Text.rsplitOnce_append hhash]
    simp only [hread, hblank, TestPoint.line, hdirective, Option.map_some]

theorem DirectiveKind.inLine (kind : DirectiveKind) :
    ∀ c ∈ (" # " ++ kind.print).toList, isInLine c = true := by
  apply List.all_eq_true.mp
  cases kind <;> rfl

theorem inLine_body (t : TestPoint) :
    ∀ c ∈ t.description.text.toList ++ (printDirective t.directive).toList,
      isInLine c = true := by
  rintro c hc
  rcases List.mem_append.mp hc with hc | hc
  · exact t.description.inLine hc
  · rcases hdirective : t.directive with _ | ⟨kind, _ | reason⟩ <;> rw [hdirective] at hc
    · cases hc
    · exact kind.inLine c hc
    · rw [printDirective, String.toList_append, String.toList_append] at hc
      rcases List.mem_append.mp hc with hc | hc
      · rcases List.mem_append.mp hc with hc | hc
        · exact kind.inLine c hc
        · obtain rfl := List.mem_singleton.mp hc
          rfl
      · exact reason.inLine hc

/-- What follows the number of a printed test point. -/
def TestPoint.afterNumber (t : TestPoint) (rest : List Char) : List Char :=
  '-' :: ' ' :: ((t.description.text.toList ++ (printDirective t.directive).toList) ++
    '\n' :: rest)

theorem TestPoint.toList_print (t : TestPoint) (rest : List Char) :
    t.print.toList ++ rest = t.status.print.toList ++ ' ' :: (t.number.toNat.repr.toList ++
      ' ' :: t.afterNumber rest) := by
  simp [TestPoint.print, TestPoint.afterNumber]

/-- A printed test point is read back, if no YAML block follows it. -/
theorem testLine_print (parseYaml : String → Option Json) (t : TestPoint) {rest : List Char}
    (hyaml : yamlBlock rest = none) :
    testLine parseYaml (t.print.toList ++ rest) = some (rest, t.line) := by
  have hstatus := testStatus_print t.status
    (' ' :: (t.number.toNat.repr.toList ++ ' ' :: t.afterNumber rest))
  have hspace := space1_space (repr_stops t.number.toNat (' ' :: t.afterNumber rest))
  have hnumber : opt (terminated digit1 space1)
      (t.number.toNat.repr.toList ++ ' ' :: t.afterNumber rest) =
        some (t.afterNumber rest, some (Nat.toDigits 10 t.number.toNat)) := by
    have hdigit : Stops Char.isDigit (' ' :: t.afterNumber rest) := stops_cons.mpr rfl
    have hblank : Stops isSpace (t.afterNumber rest) := stops_cons.mpr rfl
    apply opt_some
    rw [terminated, pair_some (digit1_repr t.number.toNat hdigit) (space1_space hblank)]
    rfl
  have hbody : Stops isSpace ((t.description.text.toList ++
      (printDirective t.directive).toList) ++ '\n' :: rest) := by
    rw [List.append_assoc]
    exact t.description.stops _
  have hdash : opt (pair (char '-') space1) (t.afterNumber rest) =
      some ((t.description.text.toList ++ (printDirective t.directive).toList) ++ '\n' :: rest,
        some ('-', [' '])) :=
    opt_some (pair_some (char_cons_self '-' _) (space1_space hbody))
  rw [t.toList_print]
  simp only [testLine, hstatus, hspace, hnumber, hdash, notLineEnding_line (inLine_body t),
    lineEnding_newline, splitDirective_print, opt_none hyaml, Option.bind_eq_bind,
    Option.bind_some, parseUsize_toDigits]
  rfl

/-! ### Documents -/

/-- Neither a comment nor an empty line starts like this. -/
theorem ignorableLine_cons {c : Char} (hhash : c ≠ '#') (hspace : isSpace c = false)
    (hlf : c ≠ '\n') (hcr : c ≠ '\r') (rest : List Char) :
    ignorableLine (c :: rest) = none := by
  have hcomment : commentLine (c :: rest) = none := by
    rw [commentLine, char_cons_ne hhash]
    rfl
  have hspace0 : space0 (c :: rest) = some (c :: rest, []) := by
    simp [space0, takeWhile0, hspace]
  have hline : lineEnding (c :: rest) = none := by
    unfold lineEnding
    split
    · rename_i heq
      exact absurd (List.cons.inj heq).1 hlf
    · rename_i heq
      exact absurd (List.cons.inj heq).1 hcr
    · rfl
  have hempty : emptyLine (c :: rest) = none := by
    simp only [emptyLine, hspace0, hline, Option.bind_eq_bind, Option.bind_some]
  rw [ignorableLine, alt, hcomment, hempty]
  rfl

/-- A line that starts with a digit is a plan at most. -/
theorem digit_line {c : Char} (h : c.isDigit = true) (rest : List Char) :
    ignorableLine (c :: rest) = none ∧ tapVersion (c :: rest) = none ∧
      ∀ parseYaml, testLine parseYaml (c :: rest) = none := by
  have hne : ∀ d : Char, d.isDigit = false → c ≠ d := by
    rintro d hd rfl
    rw [h] at hd
    cases hd
  have htap : tag "TAP" (c :: rest) = none := tag_cons_ne rfl (hne 'T' rfl)
  have hok : tag "ok" (c :: rest) = none := tag_cons_ne rfl (hne 'o' rfl)
  have hnot : tag "not ok" (c :: rest) = none := tag_cons_ne rfl (hne 'n' rfl)
  have hstatus : testStatus (c :: rest) = none := by
    rw [testStatus, alt, value, value, hok, hnot]
    rfl
  refine ⟨?_, ?_, ?_⟩
  · apply ignorableLine_cons (hne '#' rfl) _ (hne '\n' rfl) (hne '\r' rfl)
    simp [isSpace, hne ' ' rfl, hne '\t' rfl]
  · simp only [tapVersion, htap, Option.bind_eq_bind, Option.bind_none]
  · intro parseYaml
    simp only [testLine, hstatus, Option.bind_eq_bind, Option.bind_none]

/-- What can follow a printed line: nothing, a test point or a plan. -/
inductive Continues : List Char → Prop where
  | nil : Continues []
  | test (t : TestPoint) (rest : List Char) : Continues (t.print.toList ++ rest)
  | plan (p : Plan) (rest : List Char) : Continues (p.print.toList ++ rest)

theorem TestStatus.print_head (status : TestStatus) :
    ∃ c chars, status.print.toList = c :: chars ∧ (c = 'o' ∨ c = 'n') := by
  cases status with
  | ok => exact ⟨'o', _, rfl, Or.inl rfl⟩
  | notOk => exact ⟨'n', _, rfl, Or.inr rfl⟩

theorem TestPoint.print_head (t : TestPoint) (rest : List Char) :
    ∃ c chars, t.print.toList ++ rest = c :: chars ∧ (c = 'o' ∨ c = 'n') := by
  obtain ⟨c, chars, hhead, hc⟩ := t.status.print_head
  exact ⟨c, _, by rw [t.toList_print, hhead, List.cons_append], hc⟩

theorem Plan.print_head (p : Plan) (rest : List Char) :
    ∃ c chars, p.print.toList ++ rest = c :: chars ∧ c.isDigit = true := by
  obtain ⟨c, chars, hhead, hc⟩ := repr_head p.start.toNat
  refine ⟨c, chars ++ ("..".toList ++ (p.stop.toNat.repr.toList ++ '\n' :: rest)), ?_, hc⟩
  rw [← List.cons_append, ← hhead]
  simp [Plan.print]

/-- A test point is not skipped, and is neither a version nor a plan. -/
theorem test_line (t : TestPoint) (rest : List Char) :
    ignorableLine (t.print.toList ++ rest) = none ∧ tapVersion (t.print.toList ++ rest) = none ∧
      planLine (t.print.toList ++ rest) = none := by
  obtain ⟨c, chars, hhead, hc⟩ := t.print_head rest
  rw [hhead]
  refine ⟨?_, ?_, ?_⟩
  · rcases hc with rfl | rfl
    · exact ignorableLine_cons (by decide) rfl (by decide) (by decide) chars
    · exact ignorableLine_cons (by decide) rfl (by decide) (by decide) chars
  · have htap : tag "TAP" (c :: chars) = none := by
      rcases hc with rfl | rfl <;> exact tag_cons_ne rfl (by decide)
    simp only [tapVersion, htap, Option.bind_eq_bind, Option.bind_none]
  · have hdigit : digit1 (c :: chars) = none := by
      rcases hc with rfl | rfl <;> exact takeWhile1_stops (stops_cons.mpr rfl)
    simp only [planLine, hdigit, Option.bind_eq_bind, Option.bind_none]

theorem Continues.ignorableLine {rest : List Char} (h : Continues rest) :
    Tap.ignorableLine rest = none := by
  cases h with
  | nil => rfl
  | test t rest => exact (test_line t rest).1
  | plan p rest =>
      obtain ⟨c, chars, hhead, hc⟩ := p.print_head rest
      rw [hhead]
      exact (digit_line hc chars).1

theorem Continues.skipIgnorable {rest : List Char} (h : Continues rest) :
    Tap.skipIgnorable rest = rest := skipIgnorable_of_none h.ignorableLine

/-- It is no YAML block, which is indented. -/
theorem Continues.yamlBlock {rest : List Char} (h : Continues rest) :
    Tap.yamlBlock rest = none := by
  have htag : tag "  ---" rest = none := by
    cases h with
    | nil => rfl
    | test t rest =>
        obtain ⟨c, chars, hhead, hc⟩ := t.print_head rest
        rw [hhead]
        rcases hc with rfl | rfl <;> exact tag_cons_ne rfl (by decide)
    | plan p rest =>
        obtain ⟨c, chars, hhead, hc⟩ := p.print_head rest
        rw [hhead]
        apply tag_cons_ne rfl
        rintro rfl
        cases hc
  simp only [Tap.yamlBlock, htag, Option.bind_eq_bind, Option.bind_none]

theorem Continues.tapVersion {rest : List Char} (h : Continues rest) :
    Tap.tapVersion rest = none := by
  cases h with
  | nil => rfl
  | test t rest => exact (test_line t rest).2.1
  | plan p rest =>
      obtain ⟨c, chars, hhead, hc⟩ := p.print_head rest
      rw [hhead]
      exact (digit_line hc chars).2.1

/-- The printed test points. -/
def printTests (tests : List TestPoint) : List Char :=
  (String.join (tests.map TestPoint.print)).toList

theorem printTests_nil : printTests [] = [] := rfl

theorem printTests_cons (t : TestPoint) (tests : List TestPoint) (rest : List Char) :
    printTests (t :: tests) ++ rest = t.print.toList ++ (printTests tests ++ rest) := by
  simp [printTests, String.join_cons]

theorem continues_tests (tests : List TestPoint) {rest : List Char} (h : Continues rest) :
    Continues (printTests tests ++ rest) := by
  cases tests with
  | nil => exact h
  | cons t tests =>
      rw [printTests_cons]
      exact Continues.test t _

section

variable (parseYaml : String → Option Json)

/-- The loop reads the test points one after the other, and goes on with what follows. -/
theorem parseLines_tests (tests : List TestPoint) {rest : List Char} (h : Continues rest)
    (plan : Option Plan) (acc : List TestLine) :
    parseLines parseYaml (printTests tests ++ rest) plan acc =
      parseLines parseYaml rest plan (acc ++ tests.map TestPoint.line) := by
  induction tests generalizing acc with
  | nil => rw [List.map_nil, List.append_nil]; rfl
  | cons t tests ih =>
      have hrest := continues_tests tests h
      have hskip := (Continues.test t (printTests tests ++ rest)).skipIgnorable
      have hne : t.print.toList ++ (printTests tests ++ rest) ≠ [] := by
        obtain ⟨c, chars, hhead, -⟩ := t.print_head (printTests tests ++ rest)
        rw [hhead]
        exact List.cons_ne_nil _ _
      have htest := testLine_print parseYaml t hrest.yamlBlock
      rw [← hskip] at hne htest
      rw [printTests_cons, parseLines_of_test hne htest, ih, List.append_assoc, List.map_cons,
        List.singleton_append]

theorem parseLines_nil (plan : Option Plan) (tests : List TestLine) :
    parseLines parseYaml [] plan tests = (plan, tests) :=
  parseLines_of_nil Continues.nil.skipIgnorable

theorem parseLines_printTests (plan : Option Plan) (tests : List TestPoint) :
    parseLines parseYaml (printTests tests) plan [] = (plan, tests.map TestPoint.line) := by
  have hread := parseLines_tests parseYaml tests Continues.nil plan []
  rwa [List.append_nil, List.nil_append, parseLines_nil] at hread

/-- The plan after the test points. -/
theorem parseLines_plan (p : Plan) (tests : List TestLine) :
    parseLines parseYaml p.print.toList none tests = (some p, tests) := by
  have hcontinues := Continues.plan p []
  have hread := planLine_print p []
  rw [List.append_nil] at hcontinues hread
  obtain ⟨c, chars, hhead, hc⟩ := p.print_head []
  rw [List.append_nil] at hhead
  have hne : p.print.toList ≠ [] := hhead ▸ List.cons_ne_nil c chars
  have htest : testLine parseYaml p.print.toList = none := hhead ▸ (digit_line hc chars).2.2 _
  rw [← hcontinues.skipIgnorable] at hne htest hread
  rw [parseLines_of_plan hne htest hread, parseLines_nil]

end

/-- The printed document after its version. -/
def Printable.body (d : Printable) : List Char :=
  (if d.planFirst then (d.plan.map fun p => p.print.toList).getD [] else []) ++
    (printTests d.tests ++
      (if d.planFirst then [] else (d.plan.map fun p => p.print.toList).getD []))

theorem Printable.toList_print (d : Printable) :
    d.print.toList = (d.version.map fun v => (printVersion v).toList).getD [] ++ d.body := by
  rcases d with ⟨_ | version, _ | plan, _ | _, tests⟩ <;>
    simp [Printable.print, Printable.body, printTests]

theorem Printable.continues_body (d : Printable) : Continues d.body := by
  rcases d with ⟨version, _ | plan, _ | _, tests⟩
  · exact continues_tests tests Continues.nil
  · exact continues_tests tests Continues.nil
  · have hplan := Continues.plan plan []
    rw [List.append_nil] at hplan
    exact continues_tests tests hplan
  · exact Continues.plan plan _

/-- The version that is read first, or none. -/
theorem tapVersion_document (d : Printable) :
    takeIf tapVersion (skipIgnorable d.print.toList) = (d.body, d.version) := by
  rw [d.toList_print]
  cases hversion : d.version with
  | none =>
      rw [Option.map_none, Option.getD_none, List.nil_append, d.continues_body.skipIgnorable]
      exact takeIf_none d.continues_body.tapVersion
  | some v =>
      have hskip : ignorableLine ((printVersion v).toList ++ d.body) = none := by
        rw [printVersion, String.toList_append, String.toList_append]
        exact ignorableLine_cons (by decide) rfl (by decide) (by decide) _
      rw [Option.map_some, Option.getD_some, skipIgnorable_of_none hskip]
      exact takeIf_some (tapVersion_print v d.body)

/-- No plan is read where the next is a test point, or nothing. -/
theorem planLine_tests (tests : List TestPoint) : planLine (printTests tests) = none := by
  cases tests with
  | nil => rfl
  | cons t tests =>
      have hcons := printTests_cons t tests []
      rw [List.append_nil] at hcons
      rw [hcons]
      exact (test_line t _).2.2

/-- A plan at the start is read before the lines, one at the end with them. -/
theorem parseLines_body (parseYaml : String → Option Json) (d : Printable) :
    ∃ remaining plan, takeIf planLine d.body = (remaining, plan) ∧
      parseLines parseYaml remaining plan [] = (d.plan, d.tests.map TestPoint.line) := by
  rcases d with ⟨version, _ | plan, planFirst, tests⟩
  · have hbody : Printable.body ⟨version, none, planFirst, tests⟩ = printTests tests := by
      cases planFirst <;> simp [Printable.body]
    rw [hbody]
    exact ⟨_, _, takeIf_none (planLine_tests tests), parseLines_printTests parseYaml none tests⟩
  · cases planFirst with
    | true =>
        have hbody : Printable.body ⟨version, some plan, true, tests⟩ =
            plan.print.toList ++ printTests tests := by simp [Printable.body]
        have hplan := takeIf_some (planLine_print plan (printTests tests))
        rw [hbody]
        exact ⟨_, _, hplan, parseLines_printTests parseYaml (some plan) tests⟩
    | false =>
        have hbody : Printable.body ⟨version, some plan, false, tests⟩ =
            printTests tests ++ plan.print.toList := by simp [Printable.body]
        rw [hbody]
        cases tests with
        | nil =>
            -- there is nothing before it, so that it is read as a first one
            have hplan := planLine_print plan []
            rw [List.append_nil] at hplan
            rw [printTests_nil, List.nil_append, takeIf_some hplan]
            exact ⟨[], some plan, rfl, parseLines_nil parseYaml (some plan) []⟩
        | cons t tests =>
            have hcontinues := Continues.plan plan []
            rw [List.append_nil] at hcontinues
            have hread := parseLines_tests parseYaml (t :: tests) hcontinues none []
            rw [List.nil_append, parseLines_plan] at hread
            refine ⟨_, _, takeIf_none ?_, hread⟩
            rw [printTests_cons]
            exact (test_line t _).2.2

/-- What is printed is read back: the version, the plan and every test point in order. -/
theorem parseTapDocument_print (parseYaml : String → Option Json) (d : Printable) :
    parseTapDocument parseYaml d.print = d.document := by
  obtain ⟨remaining, plan, hplan, hlines⟩ := parseLines_body parseYaml d
  simp only [parseTapDocument, tapVersion_document, d.continues_body.skipIgnorable, hplan, hlines]
  rfl

end CdvizCollector.Sources.Tap
