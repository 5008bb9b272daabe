import CdvizCollector.Lib.Json
import CdvizCollector.Lib.Nom

/-!
The parser of TAP documents (`sources/parsers/tap.rs`).

A document is read line by line: what is ignorable is skipped, a line that is
nothing known is skipped too. Every line that is read ends with a line ending, so
each of the loops leaves less than it got, and the functions are total.
-/

namespace CdvizCollector.Sources.Tap

open Lib Nom

/-! ### Documents -/

structure Plan where
  start : UInt64
  /-- `end` -/
  stop : UInt64
deriving DecidableEq, Repr

inductive TestStatus where
  | ok
  | notOk
deriving DecidableEq, Repr

inductive DirectiveKind where
  | skip
  | todo
deriving DecidableEq, Repr

structure Directive where
  kind : DirectiveKind
  reason : Option String
deriving DecidableEq, Repr

structure TestLine where
  status : TestStatus
  number : Option UInt64
  description : Option String
  directive : Option Directive
  yamlDiagnostics : Option Json

structure TapDocument where
  version : Option UInt8
  plan : Option Plan
  tests : List TestLine

/-! ### Lines -/

/-- `str::parse` of decimal digits, at `usize` and at `u8`. -/
def parseUsize (digits : List Char) : Option UInt64 :=
  (Text.parseDigits digits).bind fun n => if n ≤ Text.maxU64 then some (UInt64.ofNat n) else none

def parseU8 (digits : List Char) : Option UInt8 :=
  (Text.parseDigits digits).bind fun n => if n ≤ 255 then some (UInt8.ofNat n) else none

def tapVersion : Parser UInt8 := fun input => do
  let (input, _) ← tag "TAP" input
  let (input, _) ← space1 input
  let (input, _) ← tag "version" input
  let (input, _) ← space1 input
  let (input, version) ← digit1 input
  let (input, _) ← lineEnding input
  some (input, (parseU8 version).getD 14)

def planLine : Parser Plan := fun input => do
  let (input, start) ← digit1 input
  let (input, _) ← tag ".." input
  let (input, stop) ← digit1 input
  let (input, _) ← lineEnding input
  some (input, { start := (parseUsize start).getD 1, stop := (parseUsize stop).getD 0 })

def testStatus : Parser TestStatus :=
  alt (value .ok (tag "ok")) (value .notOk (tag "not ok"))

/-- The trimmed text, unless it is empty. -/
def nonEmpty (chars : List Char) : Option String :=
  let text := Text.trim (String.ofList chars)
  if text = "" then none else some text

def directive : Parser Directive := fun input => do
  let (input, _) ← space0 input
  let (input, _) ← char '#' input
  let (input, _) ← space1 input
  let (input, kind) ← alt (value .skip (tag "SKIP")) (value .todo (tag "TODO")) input
  let (input, reason) ← opt (preceded space1 notLineEnding) input
  some (input, { kind, reason := reason.bind nonEmpty })

/-- The lines of a YAML block without their indentation. -/
def yamlBlock : Parser String := fun input => do
  let (input, _) ← tag "  ---" input
  let (input, _) ← lineEnding input
  let (input, yamlLines) ← takeUntil "  ..." input
  let (input, _) ← tag "  ..." input
  let (input, _) ← lineEnding input
  let lines := (Text.lines '\n' '\r' yamlLines).map fun line =>
    if [' ', ' '].isPrefixOf line then line.drop 2 else line
  some (input, "\n".intercalate (lines.map String.ofList))

/-- The description and the directive in what follows the number and the dash. -/
def splitDirective (rest : List Char) : Option String × Option Directive :=
  match Text.rsplitOnce '#' rest with
  | some (before, after) =>
      match directive ('#' :: after) with
      | some (_, dir) => (nonEmpty before, some dir)
      | none => (nonEmpty rest, none)
  | none => (nonEmpty rest, none)

section

variable (parseYaml : String → Option Json)

def testLine : Parser TestLine := fun input => do
  let (input, status) ← testStatus input
  let (input, _) ← space1 input
  let (input, number) ← opt (terminated digit1 space1) input
  let (input, _) ← opt (pair (char '-') space1) input
  let (input, rest) ← notLineEnding input
  let (input, _) ← lineEnding input
  let (description, dir) := splitDirective rest
  let (input, yaml) ← opt yamlBlock input
  some (input,
    { status
      number := number.bind parseUsize
      description
      directive := dir
      yamlDiagnostics := yaml.bind parseYaml })

end

def commentLine : Parser Unit := fun input => do
  let (input, _) ← char '#' input
  let (input, _) ← notLineEnding input
  lineEnding input

def emptyLine : Parser Unit := fun input => do
  let (input, _) ← space0 input
  lineEnding input

def ignorableLine : Parser Unit := alt commentLine emptyLine

/-- What follows the next line feed. -/
def afterNewline : List Char → Option (List Char)
  | [] => none
  | c :: rest => if c = '\n' then some rest else afterNewline rest

/-! ### What a line leaves -/

/-- A proper back part. -/
def Leaves (rest input : List Char) : Prop := rest <:+ input ∧ rest.length < input.length

theorem Leaves.of_suffix {rest mid input : List Char} (h : Leaves rest mid) (hmid : mid <:+ input) :
    Leaves rest input :=
  ⟨h.1.trans hmid, Nat.lt_of_lt_of_le h.2 hmid.length_le⟩

theorem Leaves.suffix {rest mid input : List Char} (hrest : rest <:+ mid) (h : Leaves mid input) :
    Leaves rest input :=
  ⟨hrest.trans h.1, Nat.lt_of_le_of_lt hrest.length_le h.2⟩

theorem planLine_leaves {input rest : List Char} {plan : Plan}
    (h : planLine input = some (rest, plan)) : Leaves rest input := by
  simp only [planLine, Option.bind_eq_bind, Option.bind_eq_some_iff, Prod.exists] at h
  obtain ⟨r₁, _, h₁, r₂, _, h₂, r₃, _, h₃, r₄, _, h₄, h⟩ := h
  obtain rfl : r₄ = rest := (Prod.mk.inj (Option.some.inj h)).1
  refine Leaves.of_suffix (suffix_of_lineEnding h₄) ?_
  exact (suffix_of_takeWhile1 h₃).trans <| (suffix_of_tag h₂).trans (suffix_of_takeWhile1 h₁)

theorem testStatus_suffix {input rest : List Char} {status : TestStatus}
    (h : testStatus input = some (rest, status)) : rest <:+ input := by
  rcases Option.or_eq_some_iff.mp h with h | ⟨-, h⟩
  · obtain ⟨⟨r, _⟩, htag, heq⟩ := Option.map_eq_some_iff.mp h
    obtain rfl : r = rest := (Prod.mk.inj heq).1
    exact suffix_of_tag htag
  · obtain ⟨⟨r, _⟩, htag, heq⟩ := Option.map_eq_some_iff.mp h
    obtain rfl : r = rest := (Prod.mk.inj heq).1
    exact suffix_of_tag htag

theorem yamlBlock_suffix {input rest : List Char} {yaml : String}
    (h : yamlBlock input = some (rest, yaml)) : rest <:+ input := by
  simp only [yamlBlock, Option.bind_eq_bind, Option.bind_eq_some_iff, Prod.exists] at h
  obtain ⟨r₁, _, h₁, r₂, _, h₂, r₃, _, h₃, r₄, _, h₄, r₅, _, h₅, h⟩ := h
  obtain rfl : r₅ = rest := (Prod.mk.inj (Option.some.inj h)).1
  exact (suffix_of_lineEnding h₅).1.trans <| (suffix_of_tag h₄).trans <|
    (suffix_of_takeUntil h₃).trans <| (suffix_of_lineEnding h₂).1.trans (suffix_of_tag h₁)

theorem testLine_leaves {parseYaml : String → Option Json} {input rest : List Char}
    {test : TestLine} (h : testLine parseYaml input = some (rest, test)) : Leaves rest input := by
  simp only [testLine, Option.bind_eq_bind, Option.bind_eq_some_iff, Prod.exists] at h
  obtain ⟨r₁, _, h₁, r₂, _, h₂, r₃, _, h₃, r₄, _, h₄, r₅, _, h₅, r₆, _, h₆, r₇, _, h₇, h⟩ := h
  obtain rfl : r₇ = rest := (Prod.mk.inj (Option.some.inj h)).1
  have hnumber : r₃ <:+ r₂ := suffix_of_opt (fun r a hr => by
    obtain ⟨⟨r', b⟩, hpair, heq⟩ := Option.map_eq_some_iff.mp hr
    obtain rfl : r' = r := (Prod.mk.inj heq).1
    exact suffix_of_pair (fun _ _ _ => suffix_of_takeWhile1) (fun _ _ _ => suffix_of_takeWhile1)
      hpair) h₃
  have hdash : r₄ <:+ r₃ := suffix_of_opt (fun r a hr =>
    suffix_of_pair (fun _ _ _ hchar => (suffix_of_char hchar).1)
      (fun _ _ _ => suffix_of_takeWhile1) hr) h₄
  -- the line ending is what makes it shorter, the YAML block may follow it
  refine Leaves.suffix (suffix_of_opt (fun _ _ => yamlBlock_suffix) h₇) ?_
  refine Leaves.of_suffix (suffix_of_lineEnding h₆) ?_
  exact (suffix_of_notLineEnding h₅).trans <| hdash.trans <| hnumber.trans <|
    (suffix_of_takeWhile1 h₂).trans (testStatus_suffix h₁)

theorem ignorableLine_leaves {input rest : List Char} {u : Unit}
    (h : ignorableLine input = some (rest, u)) : Leaves rest input := by
  rcases Option.or_eq_some_iff.mp h with h | ⟨-, h⟩
  · simp only [commentLine, Option.bind_eq_bind, Option.bind_eq_some_iff, Prod.exists] at h
    obtain ⟨r₁, _, h₁, r₂, _, h₂, h⟩ := h
    exact Leaves.of_suffix (suffix_of_lineEnding h)
      ((suffix_of_notLineEnding h₂).trans (suffix_of_char h₁).1)
  · simp only [emptyLine, Option.bind_eq_bind, Option.bind_eq_some_iff, Prod.exists] at h
    obtain ⟨r₁, _, h₁, h⟩ := h
    exact Leaves.of_suffix (suffix_of_lineEnding h) (suffix_of_takeWhile0 h₁)

theorem afterNewline_leaves {input rest : List Char} (h : afterNewline input = some rest) :
    Leaves rest input := by
  induction input with
  | nil => cases h
  | cons c input ih =>
      rw [afterNewline] at h
      split at h
      · obtain rfl := Option.some.inj h
        exact ⟨List.suffix_cons _ _, by simp⟩
      · exact (ih h).of_suffix (List.suffix_cons _ _)

/-! ### Loops -/

/-- `while let Ok((rest, _)) = ignorable_line(remaining)`. -/
def skipIgnorable (remaining : List Char) : List Char :=
  match _h : ignorableLine remaining with
  | some (rest, _) => skipIgnorable rest
  | none => remaining
termination_by remaining.length
decreasing_by exact (ignorableLine_leaves _h).2

theorem skipIgnorable_of_some {remaining rest : List Char} {u : Unit}
    (h : ignorableLine remaining = some (rest, u)) :
    skipIgnorable remaining = skipIgnorable rest := by
  rw [skipIgnorable]
  split
  · rename_i heq
    rw [h] at heq
    cases heq
    rfl
  · rename_i heq
    rw [h] at heq
    cases heq

theorem skipIgnorable_of_none {remaining : List Char} (h : ignorableLine remaining = none) :
    skipIgnorable remaining = remaining := by
  rw [skipIgnorable]
  split
  · rename_i heq
    rw [h] at heq
    cases heq
  · rfl

theorem skipIgnorable_suffix (remaining : List Char) : skipIgnorable remaining <:+ remaining := by
  induction remaining using skipIgnorable.induct with
  | case1 remaining rest u h ih =>
      rw [skipIgnorable_of_some h]
      exact ih.trans (ignorableLine_leaves h).1
  | case2 remaining h =>
      exact (skipIgnorable_of_none h).symm ▸ List.suffix_refl remaining

/-- The main loop: test lines, and a plan if there was none. -/
def parseLines (parseYaml : String → Option Json) (remaining : List Char) (plan : Option Plan)
    (tests : List TestLine) : Option Plan × List TestLine :=
  if skipIgnorable remaining = [] then (plan, tests)
  else
    match _htest : testLine parseYaml (skipIgnorable remaining) with
    | some (rest, test) => parseLines parseYaml rest plan (tests ++ [test])
    | none =>
        match _hplan : if plan.isNone then planLine (skipIgnorable remaining) else none with
        | some (rest, p) => parseLines parseYaml rest (some p) tests
        | none =>
            match _hskip : afterNewline (skipIgnorable remaining) with
            | some rest => parseLines parseYaml rest plan tests
            | none => (plan, tests)
termination_by remaining.length
decreasing_by
  · exact ((testLine_leaves _htest).of_suffix (skipIgnorable_suffix _)).2
  · split at _hplan
    · exact ((planLine_leaves _hplan).of_suffix (skipIgnorable_suffix _)).2
    · cases _hplan
  · exact ((afterNewline_leaves _hskip).of_suffix (skipIgnorable_suffix _)).2

section

variable {parseYaml : String → Option Json} {remaining rest : List Char} {plan : Option Plan}
  {tests : List TestLine}

theorem parseLines_of_nil (h : skipIgnorable remaining = []) :
    parseLines parseYaml remaining plan tests = (plan, tests) := by
  rw [parseLines, if_pos h]

theorem parseLines_of_test {test : TestLine} (hne : skipIgnorable remaining ≠ [])
    (h : testLine parseYaml (skipIgnorable remaining) = some (rest, test)) :
    parseLines parseYaml remaining plan tests =
      parseLines parseYaml rest plan (tests ++ [test]) := by
  rw [parseLines, if_neg hne]
  split
  · rename_i heq
    rw [h] at heq
    cases heq
    rfl
  · rename_i heq
    rw [h] at heq
    cases heq

theorem parseLines_of_plan {p : Plan} (hne : skipIgnorable remaining ≠ [])
    (htest : testLine parseYaml (skipIgnorable remaining) = none)
    (h : planLine (skipIgnorable remaining) = some (rest, p)) :
    parseLines parseYaml remaining none tests = parseLines parseYaml rest (some p) tests := by
  rw [parseLines, if_neg hne]
  split
  · rename_i heq
    rw [htest] at heq
    cases heq
  · split
    · rename_i heq
      rw [Option.isNone_none, if_pos rfl, h] at heq
      cases heq
      rfl
    · rename_i heq
      rw [Option.isNone_none, if_pos rfl, h] at heq
      cases heq

end

/-- `if let Ok((rest, value)) = parser(remaining)`. -/
def takeIf {α : Type} (p : Parser α) (remaining : List Char) : List Char × Option α :=
  match p remaining with
  | some (rest, value) => (rest, some value)
  | none => (remaining, none)

theorem takeIf_some {α : Type} {p : Parser α} {remaining rest : List Char} {value : α}
    (h : p remaining = some (rest, value)) : takeIf p remaining = (rest, some value) := by
  rw [takeIf, h]

theorem takeIf_none {α : Type} {p : Parser α} {remaining : List Char} (h : p remaining = none) :
    takeIf p remaining = (remaining, none) := by
  rw [takeIf, h]

/-- `parse_tap_document`; `parseYaml` is `parse_yaml`. -/
def parseTapDocument (parseYaml : String → Option Json) (input : String) : TapDocument :=
  let (remaining, version) := takeIf tapVersion (skipIgnorable input.toList)
  let (remaining, plan) := takeIf planLine (skipIgnorable remaining)
  let (plan, tests) := parseLines parseYaml remaining plan []
  { version, plan, tests }

/-! ### Documents as JSON -/

def Plan.toJson (plan : Plan) : Json :=
  .obj [("end", .num (.posInt plan.stop)), ("start", .num (.posInt plan.start))]

def TestStatus.toJson : TestStatus → Json
  | .ok => .str "ok"
  | .notOk => .str "not_ok"

def DirectiveKind.toJson : DirectiveKind → Json
  | .skip => .str "SKIP"
  | .todo => .str "TODO"

def Directive.toJson (directive : Directive) : Json :=
  .obj [("kind", directive.kind.toJson), ("reason", (directive.reason.map Json.str).getD .null)]

def TestLine.toJson (test : TestLine) : Json :=
  .obj
    [("description", (test.description.map Json.str).getD .null),
      ("directive", (test.directive.map Directive.toJson).getD .null),
      ("number", (test.number.map fun n => Json.num (.posInt n)).getD .null),
      ("status", test.status.toJson),
      ("yaml_diagnostics", test.yamlDiagnostics.getD .null)]

/-- `serde_json::to_value`. -/
def TapDocument.toJson (document : TapDocument) : Json :=
  .obj
    [("plan", (document.plan.map Plan.toJson).getD .null),
      ("tests", .arr (document.tests.map TestLine.toJson)),
      ("version", (document.version.map fun v => Json.num (.posInt v.toUInt64)).getD .null)]

end CdvizCollector.Sources.Tap
