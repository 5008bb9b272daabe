import CdvizCollector.Sources.Parsers.TapLines
import CdvizCollector.Sources.Parsers.TapPrint

/-!
Test lines with a directive and a reason.

The directive of a line is looked for behind its last `#`, and its word is read in
capitals only. So a reason keeps its directive exactly when it has no `#`, and then
if the word is in capitals.
-/

namespace CdvizCollector.Sources.Tap

open Lib Nom

/-- A line `ok N - description # DIRECTIVE reason`. The word of the directive is in
any letter case; the reason is trimmed, and neither text has a line break. -/
structure DirectedPoint where
  status : TestStatus
  digits : List Char
  digits_ne : digits ≠ []
  digits_isDigit : ∀ c ∈ digits, c.isDigit = true
  description : List Char
  description_plain : ∀ c ∈ description, c ≠ '#' ∧ isInLine c = true
  kind : DirectiveKind
  word : String
  word_eq : Text.toAsciiLowercase word = Text.toAsciiLowercase kind.print
  reason : String
  reason_trimmed : Text.trim reason = reason
  reason_inLine : ∀ c ∈ reason.toList, isInLine c = true

namespace DirectedPoint

/-- What follows the `#` of the directive. -/
def tail (p : DirectedPoint) : List Char := ' ' :: (p.word.toList ++ ' ' :: p.reason.toList)

def body (p : DirectedPoint) : List Char := p.description ++ ' ' :: '#' :: p.tail

def line (p : DirectedPoint) : List Char :=
  p.status.print.toList ++ ' ' :: (p.digits ++ ' ' :: '-' :: ' ' :: p.body)

/-- What the line says: its description, unless it is blank, and its directive with
all of the reason. -/
def Says (p : DirectedPoint) (test : TestLine) : Prop :=
  test.description = nonEmpty p.description ∧
    test.directive =
      some { kind := p.kind, reason := if p.reason = "" then none else some p.reason }

end DirectedPoint

/-! ### Texts -/

/-- A character that is no blank is not trimmed off. -/
theorem mem_nonEmpty {chars : List Char} {c : Char} (hc : c ∈ chars)
    (hblank : Text.isWhitespace c = false) :
    ∃ text, nonEmpty chars = some text ∧ c ∈ text.toList := by
  obtain ⟨front, back, hfront, hback, hchars⟩ := Text.exists_trimBy Text.isWhitespace chars
  have hmem : c ∈ Text.trimBy Text.isWhitespace chars := by
    rw [hchars] at hc
    rcases List.mem_append.mp hc with hc | hc
    · rw [hfront c hc] at hblank
      contradiction
    · rcases List.mem_append.mp hc with hc | hc
      · exact hc
      · rw [hback c hc] at hblank
        contradiction
  have htext : (Text.trim (String.ofList chars)).toList = Text.trimBy Text.isWhitespace chars := by
    rw [Text.toList_trim, String.toList_ofList]
  have hne : Text.trim (String.ofList chars) ≠ "" := by
    intro hempty
    rw [← htext, hempty] at hmem
    cases hmem
  exact ⟨_, if_neg hne, htext ▸ hmem⟩

/-- Trimming adds nothing. -/
theorem mem_of_nonEmpty {chars : List Char} {c : Char} {text : String}
    (h : nonEmpty chars = some text) (hc : c ∈ text.toList) : c ∈ chars := by
  unfold nonEmpty at h
  dsimp only at h
  split at h
  · cases h
  · rw [← Option.some.inj h, Text.toList_trim, String.toList_ofList] at hc
    obtain ⟨front, back, -, -, hchars⟩ := Text.exists_trimBy Text.isWhitespace chars
    rw [hchars]
    exact List.mem_append_right _ (List.mem_append_left _ hc)

/-- A description with a `#` in it is not one without. -/
theorem nonEmpty_ne_of_hash {chars chars' : List Char} (h : '#' ∈ chars) (h' : '#' ∉ chars') :
    nonEmpty chars ≠ nonEmpty chars' := by
  intro heq
  obtain ⟨text, htext, hhash⟩ := mem_nonEmpty h (by decide)
  exact h' (mem_of_nonEmpty (heq.symm.trans htext) hhash)

/-- Blanks in front of a text do not matter to it. -/
theorem nonEmpty_dropWhile (chars : List Char) :
    nonEmpty (chars.dropWhile isSpace) = nonEmpty chars := by
  have hblank : ∀ c ∈ chars.takeWhile isSpace, Text.isWhitespace c = true := fun c hc =>
    isWhitespace_of_isSpace (List.all_eq_true.mp List.all_takeWhile c hc)
  have htrim : Text.trim (String.ofList (chars.dropWhile isSpace)) =
      Text.trim (String.ofList chars) := by
    rw [← String.toList_inj, Text.toList_trim, Text.toList_trim, String.toList_ofList,
      String.toList_ofList, ← Text.trimBy_append_left hblank (chars.dropWhile isSpace),
      List.takeWhile_append_dropWhile]
  simp only [nonEmpty, htrim]

theorem nonEmpty_append_space (chars : List Char) : nonEmpty (chars ++ [' ']) = nonEmpty chars := by
  have hspace : ∀ c ∈ [' '], Text.isWhitespace c = true := List.forall_mem_singleton.mpr rfl
  have htrim : Text.trim (String.ofList (chars ++ [' '])) = Text.trim (String.ofList chars) := by
    rw [← String.toList_inj, Text.toList_trim, Text.toList_trim, String.toList_ofList,
      String.toList_ofList, Text.trimBy_append_right hspace]
  simp only [nonEmpty, htrim]

/-- Blanks are dropped in front of a character that is none. -/
theorem dropWhile_append_cons {p : Char → Bool} {c : Char} (hc : p c = false)
    (front back : List Char) :
    (front ++ c :: back).dropWhile p = front.dropWhile p ++ c :: back := by
  rw [List.dropWhile_append, List.dropWhile_cons_of_neg (by rw [hc]; decide)]
  split
  · rename_i hall
    rw [List.isEmpty_iff.mp hall, List.nil_append]
  · rfl

/-! ### Lines -/

/-- A line feed, or a carriage return and a line feed. -/
def LineEnding (ending : List Char) : Prop := ending = ['\n'] ∨ ending = ['\r', '\n']

theorem LineEnding.notLineEnding {ending line : List Char} (h : LineEnding ending)
    (hline : ∀ c ∈ line, isInLine c = true) (rest : List Char) :
    notLineEnding (line ++ (ending ++ rest)) = some (ending ++ rest, line) := by
  rcases h with rfl | rfl
  · exact notLineEnding_line hline
  · have hstops : Stops isInLine ('\r' :: '\n' :: rest) := stops_cons.mpr rfl
    obtain ⟨htake, hdrop⟩ := takeWhile_append_stops hline hstops
    show Nom.notLineEnding (line ++ '\r' :: '\n' :: rest) = some ('\r' :: '\n' :: rest, line)
    rw [Nom.notLineEnding, htake, hdrop]
    rfl

theorem LineEnding.lineEnding {ending : List Char} (h : LineEnding ending) (rest : List Char) :
    lineEnding (ending ++ rest) = some (rest, ()) := by
  rcases h with rfl | rfl
  · rfl
  · rfl

namespace DirectedPoint

variable (p : DirectedPoint)

/-- The word of the directive has the letters of its kind, in some case. -/
theorem not_mem_word {c : Char} (hlower : c.toLower = c)
    (hkind : c ∉ p.kind.print.toList.map Char.toLower) : c ∉ p.word.toList := by
  intro hc
  have hword : p.word.toList.map Char.toLower = p.kind.print.toList.map Char.toLower :=
    String.ofList_injective p.word_eq
  rw [← hword] at hkind
  exact hkind (hlower ▸ List.mem_map_of_mem hc)

theorem hash_not_mem_word : '#' ∉ p.word.toList :=
  p.not_mem_word rfl (by cases p.kind <;> decide)

theorem word_inLine : ∀ c ∈ p.word.toList, isInLine c = true := by
  intro c hc
  rw [isInLine, Bool.not_eq_true', Bool.or_eq_false_iff, decide_eq_false_iff_not,
    decide_eq_false_iff_not]
  constructor
  · rintro rfl
    exact p.not_mem_word rfl (by cases p.kind <;> decide) hc
  · rintro rfl
    exact p.not_mem_word rfl (by cases p.kind <;> decide) hc

theorem word_stops (rest : List Char) : Stops isSpace (p.word.toList ++ rest) := by
  have hword : p.word.toList.map Char.toLower = p.kind.print.toList.map Char.toLower :=
    String.ofList_injective p.word_eq
  cases hchars : p.word.toList with
  | nil =>
      rw [hchars] at hword
      cases hkind : p.kind <;> rw [hkind] at hword <;> cases hword
  | cons c chars =>
      rw [List.cons_append, stops_cons, isSpace, Bool.or_eq_false_iff, decide_eq_false_iff_not,
        decide_eq_false_iff_not]
      have hc : c ∈ p.word.toList := hchars ▸ List.mem_cons_self
      constructor
      · rintro rfl
        exact p.not_mem_word rfl (by cases p.kind <;> decide) hc
      · rintro rfl
        exact p.not_mem_word rfl (by cases p.kind <;> decide) hc

theorem tail_inLine : ∀ c ∈ p.tail, isInLine c = true := by
  intro c hc
  rcases List.mem_cons.mp hc with rfl | hc
  · rfl
  · rcases List.mem_append.mp hc with hc | hc
    · exact p.word_inLine c hc
    · rcases List.mem_cons.mp hc with rfl | hc
      · rfl
      · exact p.reason_inLine c hc

/-- What is in front of the `#` of the directive, from its first character on. -/
def front (p : DirectedPoint) : List Char := (p.description ++ [' ']).dropWhile isSpace

theorem nonEmpty_front : nonEmpty p.front = nonEmpty p.description := by
  rw [front, nonEmpty_dropWhile, nonEmpty_append_space]

theorem front_plain : ∀ c ∈ p.front, c ≠ '#' ∧ isInLine c = true := by
  intro c hc
  rcases List.mem_append.mp ((List.dropWhile_suffix _).subset hc) with hc | hc
  · exact p.description_plain c hc
  · rw [List.mem_singleton.mp hc]
    exact ⟨by decide, rfl⟩

/-- What is read behind the dash. -/
def content (p : DirectedPoint) : List Char := p.front ++ '#' :: p.tail

theorem content_inLine : ∀ c ∈ p.content, isInLine c = true := by
  intro c hc
  rcases List.mem_append.mp hc with hc | hc
  · exact (p.front_plain c hc).2
  · rcases List.mem_cons.mp hc with rfl | hc
    · rfl
    · exact p.tail_inLine c hc

theorem dropWhile_body (rest : List Char) :
    (p.body ++ rest).dropWhile isSpace = p.content ++ rest := by
  have hbody : p.body ++ rest = (p.description ++ [' ']) ++ '#' :: (p.tail ++ rest) := by
    simp [body]
  rw [hbody, dropWhile_append_cons rfl, content, front, List.append_assoc, List.cons_append]

theorem stops_digits (rest : List Char) : Stops isSpace (p.digits ++ rest) := by
  obtain ⟨c, digits, hdigits⟩ := List.exists_cons_of_ne_nil p.digits_ne
  have hdigit := p.digits_isDigit c (hdigits ▸ List.mem_cons_self)
  rw [hdigits, List.cons_append, stops_cons, ← Bool.not_eq_true]
  intro hblank
  simp only [isSpace, Bool.or_eq_true, decide_eq_true_eq] at hblank
  rcases hblank with rfl | rfl <;> cases hdigit

/-- The line is read as the description and the directive that are split off what is
behind the dash. -/
theorem testLine_line (parseYaml : String → Option Json) {ending : List Char}
    (hending : LineEnding ending) (rest : List Char) :
    ∃ left test, testLine parseYaml (p.line ++ (ending ++ rest)) = some (left, test) ∧
      (test.description, test.directive) = splitDirective p.content := by
  let after := p.body ++ (ending ++ rest)
  have hline : p.line ++ (ending ++ rest) = p.status.print.toList ++
      ' ' :: (p.digits ++ ' ' :: '-' :: ' ' :: after) := by
    simp [line, after]
  have hstatus := testStatus_print p.status (' ' :: (p.digits ++ ' ' :: '-' :: ' ' :: after))
  have hspace : space1 (' ' :: (p.digits ++ ' ' :: '-' :: ' ' :: after)) =
      some (p.digits ++ ' ' :: '-' :: ' ' :: after, [' ']) :=
    space1_space (p.stops_digits _)
  have hnumber : opt (terminated digit1 space1) (p.digits ++ ' ' :: '-' :: ' ' :: after) =
      some ('-' :: ' ' :: after, some p.digits) := by
    have hdigit : Stops Char.isDigit (' ' :: '-' :: ' ' :: after) := stops_cons.mpr rfl
    have hblank : Stops isSpace ('-' :: ' ' :: after) := stops_cons.mpr rfl
    have hdigits : digit1 (p.digits ++ ' ' :: '-' :: ' ' :: after) =
        some (' ' :: '-' :: ' ' :: after, p.digits) :=
      takeWhile1_append p.digits_ne p.digits_isDigit hdigit
    apply opt_some
    rw [terminated, pair_some hdigits (space1_space hblank)]
    rfl
  have hdash : opt (pair (char '-') space1) ('-' :: ' ' :: after) =
      some (p.content ++ (ending ++ rest), some ('-', ' ' :: after.takeWhile isSpace)) := by
    have hblank : space1 (' ' :: after) =
        some (after.dropWhile isSpace, ' ' :: after.takeWhile isSpace) := by
      rw [space1, takeWhile1, List.takeWhile_cons_of_pos rfl, List.dropWhile_cons_of_pos rfl,
        if_neg (List.cons_ne_nil _ _)]
    rw [p.dropWhile_body] at hblank
    exact opt_some (pair_some (char_cons_self '-' _) hblank)
  have hrest := hending.notLineEnding p.content_inLine rest
  have hend := hending.lineEnding rest
  obtain ⟨⟨left, yaml⟩, hyaml⟩ := exists_opt yamlBlock rest
  have hread : testLine parseYaml (p.line ++ (ending ++ rest)) = some (left,
      { status := p.status
        number := (some p.digits).bind parseUsize
        description := (splitDirective p.content).1
        directive := (splitDirective p.content).2
        yamlDiagnostics := yaml.bind parseYaml }) := by
    rw [hline]
    simp only [testLine, hstatus, hspace, hnumber, hdash, hrest, hend, hyaml,
      Option.bind_eq_bind, Option.bind_some]
  exact ⟨left, _, hread, rfl⟩

/-! ### The directive -/

theorem nonEmpty_reason :
    nonEmpty p.reason.toList = if p.reason = "" then none else some p.reason := by
  simp only [nonEmpty, String.ofList_toList, p.reason_trimmed]

/-- A word is that of a directive only in capitals. -/
theorem word_of_tag {kind : DirectiveKind} {rest left : List Char} {text : String}
    (h : tag kind.print (p.word.toList ++ rest) = some (left, text)) : p.word = p.kind.print := by
  have hword : p.word.toList.map Char.toLower = p.kind.print.toList.map Char.toLower :=
    String.ofList_injective p.word_eq
  have hlength : p.word.toList.length = kind.print.toList.length := by
    calc p.word.toList.length = (p.word.toList.map Char.toLower).length := by rw [List.length_map]
      _ = (p.kind.print.toList.map Char.toLower).length := by rw [hword]
      _ = kind.print.toList.length := by cases p.kind <;> cases kind <;> decide
  have hchars : p.word.toList = kind.print.toList := List.append_inj_left (append_of_tag h) hlength
  rw [hchars] at hword
  have hkind : kind = p.kind := by
    revert hword
    cases kind <;> cases p.kind <;> decide
  rw [← hkind, ← String.toList_inj, hchars]

theorem directive_tail (hword : p.word = p.kind.print) :
    ∃ left, directive ('#' :: p.tail) =
      some (left, { kind := p.kind, reason := nonEmpty p.reason.toList }) := by
  have hspace0 : space0 ('#' :: p.tail) = some ('#' :: p.tail, []) := rfl
  have hspace1 : space1 p.tail = some (p.word.toList ++ ' ' :: p.reason.toList, [' ']) :=
    space1_space (p.word_stops _)
  have hkind := directiveKind_print p.kind (' ' :: p.reason.toList)
  rw [← hword] at hkind
  have hblank : space1 (' ' :: p.reason.toList) =
      some (p.reason.toList.dropWhile isSpace, ' ' :: p.reason.toList.takeWhile isSpace) := by
    rw [space1, takeWhile1, List.takeWhile_cons_of_pos rfl, List.dropWhile_cons_of_pos rfl,
      if_neg (List.cons_ne_nil _ _)]
  have hinLine : ∀ c ∈ p.reason.toList.dropWhile isSpace, isInLine c = true :=
    fun c hc => p.reason_inLine c ((List.dropWhile_suffix _).subset hc)
  have hreason : opt (preceded space1 notLineEnding) (' ' :: p.reason.toList) =
      some ([], some (p.reason.toList.dropWhile isSpace)) := by
    apply opt_some
    rw [preceded, pair_some hblank (notLineEnding_all hinLine)]
    rfl
  refine ⟨[], ?_⟩
  simp only [directive, hspace0, char_cons_self, hspace1, hkind, hreason, Option.bind_eq_bind,
    Option.bind_some, nonEmpty_dropWhile]

theorem directive_tail_none (hword : p.word ≠ p.kind.print) : directive ('#' :: p.tail) = none := by
  have hspace0 : space0 ('#' :: p.tail) = some ('#' :: p.tail, []) := rfl
  have hspace1 : space1 p.tail = some (p.word.toList ++ ' ' :: p.reason.toList, [' ']) :=
    space1_space (p.word_stops _)
  have htag : ∀ kind : DirectiveKind,
      tag kind.print (p.word.toList ++ ' ' :: p.reason.toList) = none := fun kind => by
    rw [← Option.not_isSome_iff_eq_none]
    intro hsome
    obtain ⟨⟨left, text⟩, h⟩ := Option.isSome_iff_exists.mp hsome
    exact hword (p.word_of_tag h)
  have hkind : alt (value DirectiveKind.skip (tag "SKIP")) (value DirectiveKind.todo (tag "TODO"))
      (p.word.toList ++ ' ' :: p.reason.toList) = none := by
    have hskip : tag "SKIP" (p.word.toList ++ ' ' :: p.reason.toList) = none := htag .skip
    have htodo : tag "TODO" (p.word.toList ++ ' ' :: p.reason.toList) = none := htag .todo
    rw [alt, value, value, hskip, htodo]
    rfl
  simp only [directive, hspace0, char_cons_self, hspace1, hkind, Option.bind_eq_bind,
    Option.bind_some, Option.bind_none]

theorem hash_not_mem_description : '#' ∉ p.description := fun h => (p.description_plain _ h).1 rfl

/-- A description that still has the `#` of the directive is not the one of the line. -/
theorem nonEmpty_ne_description (rest : List Char) :
    nonEmpty (p.front ++ '#' :: rest) ≠ nonEmpty p.description :=
  nonEmpty_ne_of_hash (List.mem_append_right _ List.mem_cons_self) p.hash_not_mem_description

theorem splitDirective_iff :
    splitDirective p.content = (nonEmpty p.description,
        some { kind := p.kind, reason := nonEmpty p.reason.toList }) ↔
      p.word = p.kind.print ∧ '#' ∉ p.reason.toList := by
  by_cases hhash : '#' ∈ p.reason.toList
  · -- the last `#` is one of the reason, and the other one goes to the description
    obtain ⟨before, after, hafter, hreason⟩ := Text.exists_last_separator hhash
    have hcontent : p.content =
        (p.front ++ '#' :: (' ' :: (p.word.toList ++ ' ' :: before))) ++ '#' :: after := by
      simp [content, tail, hreason]
    have hwhole : nonEmpty p.content ≠ nonEmpty p.description := p.nonEmpty_ne_description _
    refine iff_of_false (fun h => ?_) (fun h => h.2 hhash)
    rw [splitDirective, hcontent, Text.rsplitOnce_append hafter] at h
    rw [hcontent] at hwhole
    cases hdirective : directive ('#' :: after) with
    | none =>
        simp only [hdirective] at h
        exact hwhole (Prod.mk.inj h).1
    | some r =>
        simp only [hdirective] at h
        exact p.nonEmpty_ne_description _ (Prod.mk.inj h).1
  · have htail : '#' ∉ p.tail := by
      rw [tail, List.mem_cons, List.mem_append, List.mem_cons]
      rintro (h | h | h | h)
      · cases h
      · exact p.hash_not_mem_word h
      · cases h
      · exact hhash h
    rw [splitDirective, content, Text.rsplitOnce_append htail]
    by_cases hword : p.word = p.kind.print
    · obtain ⟨left, hdirective⟩ := p.directive_tail hword
      simp only [hdirective, nonEmpty_front, hword, hhash, not_false_eq_true, and_self]
    · -- no directive is found, and its `#` stays in the description
      simp only [p.directive_tail_none hword]
      refine iff_of_false (fun h => ?_) (fun h => hword h.1)
      exact p.nonEmpty_ne_description p.tail (Prod.mk.inj h).1

end DirectedPoint

/-- A test line with a directive is read, and it says what the line says exactly when
the word of the directive is in capitals and the reason has no `#`. -/
theorem directive_survives_iff (parseYaml : String → Option Json) (p : DirectedPoint)
    {ending : List Char} (hending : LineEnding ending) (rest : List Char) :
    ∃ left test, testLine parseYaml (p.line ++ (ending ++ rest)) = some (left, test) ∧
      (p.Says test ↔ p.word = p.kind.print ∧ '#' ∉ p.reason.toList) := by
  obtain ⟨left, test, hread, hsplit⟩ := p.testLine_line parseYaml hending rest
  refine ⟨left, test, hread, ?_⟩
  rw [← p.splitDirective_iff, ← hsplit, DirectedPoint.Says, Prod.mk.injEq, p.nonEmpty_reason]

/-- The line `ok 1 - a # SKIP see #12`. -/
def issuePoint : DirectedPoint where
  status := .ok
  digits := ['1']
  digits_ne := List.cons_ne_nil _ _
  digits_isDigit := Text.forall_mem_of_all (by decide)
  description := ['a']
  description_plain := Text.forall_mem_of_all (by decide)
  kind := .skip
  word := "SKIP"
  word_eq := rfl
  reason := "see #12"
  reason_trimmed := by decide
  reason_inLine := Text.forall_mem_of_all (by decide)

/-- A reason with the number of an issue is read as part of the description, without
a directive. -/
theorem issue_number_loses_directive :
    ¬∀ (parseYaml : String → Option Json) (p : DirectedPoint) (rest : List Char),
      ∃ left test, testLine parseYaml (p.line ++ (['\n'] ++ rest)) = some (left, test) ∧
        p.Says test := by
  intro hclaim
  obtain ⟨left, test, hread, -, hdirective⟩ := hclaim (fun _ => none) issuePoint []
  have hplain : (testLine (fun _ => none) (issuePoint.line ++ (['\n'] ++ []))).map
      (fun r => r.2.directive) = some none := by decide
  rw [hread, Option.map_some, hdirective] at hplain
  cases hplain

theorem directive_survives_iff_issue :
    ∃ left test, testLine (fun _ => none) (issuePoint.line ++ (['\n'] ++ [])) = some (left, test) ∧
      (issuePoint.Says test ↔
        issuePoint.word = issuePoint.kind.print ∧ '#' ∉ issuePoint.reason.toList) :=
  directive_survives_iff (fun _ => none) issuePoint (.inl rfl) []

end CdvizCollector.Sources.Tap
