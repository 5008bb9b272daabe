import CdvizCollector.Sources.Parsers.Tap

/-!
Which lines of a document are read as test lines.

The loop of the parser goes from the start of a line to the start of a line, and
over the YAML block behind a test line at once. Its run is followed here with the
place where each test line is read, and compared with the lines of the text.
-/

namespace CdvizCollector.Sources.Tap

open Lib Nom

/-! ### Within a line -/

theorem afterNewline_append {front : List Char} (h : '\n' ∉ front) (rest : List Char) :
    afterNewline (front ++ rest) = afterNewline rest := by
  induction front with
  | nil => rfl
  | cons c front ih =>
      rw [List.mem_cons, not_or] at h
      rw [List.cons_append, afterNewline, if_neg (Ne.symm h.1), ih h.2]

/-- What is before the rest is part of one line. -/
def Within (rest input : List Char) : Prop :=
  ∃ front, (∀ c ∈ front, isInLine c = true) ∧ input = front ++ rest

theorem Within.refl (input : List Char) : Within input input :=
  ⟨[], List.forall_mem_nil _, rfl⟩

theorem Within.trans {rest mid input : List Char} (h : Within rest mid)
    (hmid : Within mid input) : Within rest input := by
  obtain ⟨back, hback, rfl⟩ := h
  obtain ⟨front, hfront, rfl⟩ := hmid
  refine ⟨front ++ back, ?_, (List.append_assoc _ _ _).symm⟩
  intro c hc
  rcases List.mem_append.mp hc with hc | hc
  · exact hfront c hc
  · exact hback c hc

theorem Within.dropWhile_isInLine {rest input : List Char} (h : Within rest input) :
    input.dropWhile isInLine = rest.dropWhile isInLine := by
  obtain ⟨front, hfront, rfl⟩ := h
  exact Text.dropWhile_append_of_all hfront rest

theorem Within.afterNewline {rest input : List Char} (h : Within rest input) :
    Tap.afterNewline input = Tap.afterNewline rest := by
  obtain ⟨front, hfront, rfl⟩ := h
  refine afterNewline_append ?_ rest
  intro hmem
  cases hfront '\n' hmem

theorem within_dropWhile {p : Char → Bool} (hp : ∀ c, p c = true → isInLine c = true)
    (input : List Char) : Within (input.dropWhile p) input :=
  ⟨input.takeWhile p, fun c hc => hp c (List.all_eq_true.mp List.all_takeWhile c hc),
    List.takeWhile_append_dropWhile.symm⟩

theorem isInLine_of_isSpace {c : Char} (h : isSpace c = true) : isInLine c = true := by
  simp only [isSpace, Bool.or_eq_true, decide_eq_true_eq] at h
  rcases h with rfl | rfl <;> rfl

theorem isInLine_of_isDigit {c : Char} (h : c.isDigit = true) : isInLine c = true := by
  have hne : ∀ d : Char, d.isDigit = false → c ≠ d := by
    rintro d hd rfl
    rw [h] at hd
    cases hd
  simp [isInLine, hne '\n' rfl, hne '\r' rfl]

section

variable {input rest : List Char}

theorem within_of_tag {text a : String} (htext : ∀ c ∈ text.toList, isInLine c = true)
    (h : tag text input = some (rest, a)) : Within rest input :=
  ⟨text.toList, htext, append_of_tag h⟩

theorem within_of_char {c a : Char} (hc : isInLine c = true)
    (h : char c input = some (rest, a)) : Within rest input := by
  cases input with
  | nil => cases h
  | cons d input =>
      simp only [char] at h
      split at h
      · rename_i heq
        cases h
        exact ⟨[d], List.forall_mem_singleton.mpr (heq ▸ hc), rfl⟩
      · cases h

theorem within_of_takeWhile1 {p : Char → Bool} {a : List Char}
    (hp : ∀ c, p c = true → isInLine c = true) (h : takeWhile1 p input = some (rest, a)) :
    Within rest input := by
  unfold takeWhile1 at h
  split at h
  · cases h
  · cases h
    exact within_dropWhile hp input

theorem eq_of_notLineEnding {a : List Char} (h : notLineEnding input = some (rest, a)) :
    rest = input.dropWhile isInLine := by
  unfold notLineEnding at h
  split at h
  · rename_i heq
    cases h
    exact heq.symm
  · cases h
  · cases h
    rfl

theorem within_of_notLineEnding {a : List Char}
    (h : notLineEnding input = some (rest, a)) : Within rest input := by
  rw [eq_of_notLineEnding h]
  exact within_dropWhile (fun _ hc => hc) input

theorem within_of_opt {α : Type} {p : Parser α} {a : Option α}
    (hp : ∀ rest a, p input = some (rest, a) → Within rest input)
    (h : opt p input = some (rest, a)) : Within rest input := by
  unfold opt at h
  split at h
  · rename_i heq
    cases h
    exact hp _ _ heq
  · cases h
    exact Within.refl input

theorem within_of_pair {α β : Type} {p : Parser α} {q : Parser β} {c : α × β}
    (hp : ∀ input rest a, p input = some (rest, a) → Within rest input)
    (hq : ∀ input rest b, q input = some (rest, b) → Within rest input)
    (h : pair p q input = some (rest, c)) : Within rest input := by
  obtain ⟨⟨mid, a⟩, ha, h⟩ := Option.bind_eq_some_iff.mp h
  obtain ⟨⟨rest', b⟩, hb, h⟩ := Option.bind_eq_some_iff.mp h
  cases h
  exact (hq _ _ _ hb).trans (hp _ _ _ ha)

theorem within_of_testStatus {status : TestStatus} (h : testStatus input = some (rest, status)) :
    Within rest input := by
  rcases Option.or_eq_some_iff.mp h with h | ⟨-, h⟩
  · obtain ⟨⟨r, _⟩, htag, heq⟩ := Option.map_eq_some_iff.mp h
    obtain rfl : r = rest := (Prod.mk.inj heq).1
    exact within_of_tag (List.all_eq_true.mp rfl) htag
  · obtain ⟨⟨r, _⟩, htag, heq⟩ := Option.map_eq_some_iff.mp h
    obtain rfl : r = rest := (Prod.mk.inj heq).1
    exact within_of_tag (List.all_eq_true.mp rfl) htag

theorem afterNewline_of_lineEnding {u : Unit} (h : lineEnding input = some (rest, u)) :
    afterNewline input = some rest := by
  unfold lineEnding at h
  split at h
  · cases h
    rfl
  · cases h
    rfl
  · cases h

end

/-! ### The lines of a text -/

/-- The end of a line, or of the text. -/
def atLineEnd (text : List Char) : Bool := text.isEmpty || (lineEnding text).isSome

def atBlank (text : List Char) : Bool := text.head?.any isSpace

/-- The line has a line ending, and no carriage return before it. -/
def isEnded (text : List Char) : Bool := (lineEnding (text.dropWhile isInLine)).isSome

/-- The line is a status, a blank and anything else. -/
def isTestLine (text : List Char) : Bool :=
  (testStatus text).any fun r => atBlank r.1 && isEnded text

/-- The line behind the first one. -/
def lineAfter (text : List Char) : List Char := (afterNewline text).getD []

/-- What follows a line: the next one, or what is behind the YAML block of a test line. -/
def nextLine (text : List Char) : List Char :=
  if isTestLine text then (takeIf yamlBlock (lineAfter text)).1 else lineAfter text

theorem takeIf_yamlBlock_suffix (text : List Char) : (takeIf yamlBlock text).1 <:+ text := by
  unfold takeIf
  split
  · rename_i heq
    exact yamlBlock_suffix heq
  · exact List.suffix_refl text

theorem lineAfter_leaves {text : List Char} (h : text ≠ []) : Leaves (lineAfter text) text := by
  rw [lineAfter]
  cases hafter : afterNewline text with
  | none => exact ⟨List.nil_suffix, List.length_pos_iff.mpr h⟩
  | some rest => exact afterNewline_leaves hafter

theorem nextLine_leaves {text : List Char} (h : text ≠ []) : Leaves (nextLine text) text := by
  rw [nextLine]
  split
  · exact (lineAfter_leaves h).suffix (takeIf_yamlBlock_suffix _)
  · exact lineAfter_leaves h

/-- The lines outside YAML blocks, each with all that follows it. -/
def outside (text : List Char) : List (List Char) :=
  if text = [] then [] else text :: outside (nextLine text)
termination_by text.length
decreasing_by
  rename_i h
  exact (nextLine_leaves h).2

/-! ### What is read of a test line -/

theorem space1_of_atBlank {input : List Char} (h : atBlank input = true) :
    space1 input = some (input.dropWhile isSpace, input.takeWhile isSpace) := by
  cases input with
  | nil => cases h
  | cons c input =>
      have hc : isSpace c = true := h
      rw [space1, takeWhile1, if_neg]
      rw [List.takeWhile_cons_of_pos hc]
      exact List.cons_ne_nil _ _

theorem atBlank_of_space1 {input rest a : List Char} (h : space1 input = some (rest, a)) :
    atBlank input = true := by
  cases input with
  | nil => cases h
  | cons c input =>
      by_cases hc : isSpace c = true
      · exact hc
      · rw [space1, takeWhile1, if_pos (List.takeWhile_cons_of_neg hc)] at h
        cases h

theorem notLineEnding_of_isEnded {input : List Char} (h : isEnded input = true) :
    notLineEnding input = some (input.dropWhile isInLine, input.takeWhile isInLine) := by
  unfold isEnded at h
  unfold notLineEnding
  split
  · rename_i heq
    rw [heq]
  · rename_i hcr heq
    rw [heq] at h
    unfold lineEnding at h
    split at h
    · rename_i hlf
      cases hlf
    · rename_i rest hlf
      exact absurd (List.cons.inj hlf).2 (hcr rest)
    · cases h
  · rfl

theorem Within.isEnded {rest input : List Char} (h : Within rest input) :
    Tap.isEnded input = Tap.isEnded rest := by
  rw [Tap.isEnded, Tap.isEnded, h.dropWhile_isInLine]

/-- The number that the parser takes of what follows the status. -/
def numberRead (rest : List Char) : Option UInt64 :=
  ((opt (terminated digit1 space1) (rest.dropWhile isSpace)).bind Prod.snd).bind parseUsize

theorem within_of_number {input rest : List Char} {number : Option (List Char)}
    (h : opt (terminated digit1 space1) input = some (rest, number)) : Within rest input := by
  refine within_of_opt ?_ h
  intro r a hr
  obtain ⟨⟨r', b⟩, hpair, heq⟩ := Option.map_eq_some_iff.mp hr
  obtain rfl : r' = r := (Prod.mk.inj heq).1
  exact within_of_pair (fun _ _ _ => within_of_takeWhile1 fun _ => isInLine_of_isDigit)
    (fun _ _ _ => within_of_takeWhile1 fun _ => isInLine_of_isSpace) hpair

theorem within_of_dash {input rest : List Char} {dash : Option (Char × List Char)}
    (h : opt (pair (char '-') space1) input = some (rest, dash)) : Within rest input := by
  refine within_of_opt ?_ h
  intro r a hr
  exact within_of_pair (fun _ _ _ => within_of_char rfl)
    (fun _ _ _ => within_of_takeWhile1 fun _ => isInLine_of_isSpace) hr

theorem exists_opt {α : Type} (p : Parser α) (input : List Char) :
    ∃ r, opt p input = some r := by
  unfold opt
  split <;> exact ⟨_, rfl⟩

section

variable {parseYaml : String → Option Json} {text : List Char}

theorem isTestLine_iff : isTestLine text = true ↔ ∃ rest status,
    testStatus text = some (rest, status) ∧ atBlank rest = true ∧ isEnded text = true := by
  rw [isTestLine, Option.any_eq_true]
  constructor
  · rintro ⟨⟨rest, status⟩, hstatus, hline⟩
    exact ⟨rest, status, hstatus, Bool.and_eq_true_iff.mp hline⟩
  · rintro ⟨rest, status, hstatus, hline⟩
    exact ⟨(rest, status), hstatus, Bool.and_eq_true_iff.mpr hline⟩

/-- A test line is read, with its YAML block if one follows. -/
theorem testLine_of_isTestLine (parseYaml : String → Option Json) (h : isTestLine text = true) :
    ∃ rest status test, testStatus text = some (rest, status) ∧
      testLine parseYaml text = some (nextLine text, test) ∧
      test.status = status ∧ test.number = numberRead rest := by
  obtain ⟨r₁, status, hstatus, hblank, hended⟩ := isTestLine_iff.mp h
  have hspace := space1_of_atBlank hblank
  obtain ⟨⟨r₃, number⟩, hnumber⟩ := exists_opt (terminated digit1 space1) (r₁.dropWhile isSpace)
  obtain ⟨⟨r₄, dash⟩, hdash⟩ := exists_opt (pair (char '-') space1) r₃
  have hwithin : Within r₄ text :=
    (within_of_dash hdash).trans <| (within_of_number hnumber).trans <|
      (within_dropWhile (fun _ => isInLine_of_isSpace) r₁).trans (within_of_testStatus hstatus)
  have hrest := notLineEnding_of_isEnded (hwithin.isEnded ▸ hended)
  obtain ⟨⟨r₆, _⟩, hend⟩ := Option.isSome_iff_exists.mp hended
  rw [hwithin.dropWhile_isInLine] at hend
  have hafter : lineAfter text = r₆ := by
    rw [lineAfter, hwithin.afterNewline, (within_of_notLineEnding hrest).afterNewline,
      afterNewline_of_lineEnding hend]
    rfl
  obtain ⟨⟨r₇, yaml⟩, hyaml⟩ := exists_opt yamlBlock r₆
  have hnext : nextLine text = r₇ := by
    rw [nextLine, if_pos h, hafter]
    rcases hblock : yamlBlock r₆ with _ | ⟨rest, text⟩
    · rw [opt, hblock] at hyaml
      cases hyaml
      rw [takeIf_none hblock]
    · rw [opt, hblock] at hyaml
      cases hyaml
      rw [takeIf_some hblock]
  let content := splitDirective (r₄.takeWhile isInLine)
  have hread : testLine parseYaml text = some (r₇,
      { status
        number := number.bind parseUsize
        description := content.1
        directive := content.2
        yamlDiagnostics := yaml.bind parseYaml }) := by
    simp only [testLine, hstatus, hspace, hnumber, hdash, hrest, hend, hyaml,
      Option.bind_eq_bind, Option.bind_some, content]
  refine ⟨r₁, status, _, hstatus, hnext ▸ hread, rfl, ?_⟩
  rw [numberRead, hnumber]
  rfl

/-- Nothing else is read as one. -/
theorem isTestLine_of_testLine {r : List Char × TestLine} (h : testLine parseYaml text = some r) :
    isTestLine text = true := by
  simp only [testLine, Option.bind_eq_bind, Option.bind_eq_some_iff, Prod.exists] at h
  obtain ⟨r₁, _, h₁, r₂, _, h₂, r₃, _, h₃, r₄, _, h₄, r₅, _, h₅, r₆, _, h₆, -⟩ := h
  have hwithin : Within r₄ text :=
    (within_of_dash h₄).trans <| (within_of_number h₃).trans <|
      (within_of_takeWhile1 (fun _ => isInLine_of_isSpace) h₂).trans (within_of_testStatus h₁)
  refine isTestLine_iff.mpr ⟨r₁, _, h₁, atBlank_of_space1 h₂, ?_⟩
  rw [hwithin.isEnded, isEnded, ← eq_of_notLineEnding h₅, h₆]
  rfl

end

/-! ### Where the test lines are read -/

/-- The main loop again, with the text that each test line is read at the start of. -/
def testLinesAt (parseYaml : String → Option Json) (remaining : List Char) (plan : Option Plan) :
    List (List Char × TestLine) :=
  if skipIgnorable remaining = [] then []
  else
    match _htest : testLine parseYaml (skipIgnorable remaining) with
    | some (rest, test) => (skipIgnorable remaining, test) :: testLinesAt parseYaml rest plan
    | none =>
        match _hplan : if plan.isNone then planLine (skipIgnorable remaining) else none with
        | some (rest, p) => testLinesAt parseYaml rest (some p)
        | none =>
            match _hskip : afterNewline (skipIgnorable remaining) with
            | some rest => testLinesAt parseYaml rest plan
            | none => []
termination_by remaining.length
decreasing_by
  · exact ((testLine_leaves _htest).of_suffix (skipIgnorable_suffix _)).2
  · split at _hplan
    · exact ((planLine_leaves _hplan).of_suffix (skipIgnorable_suffix _)).2
    · cases _hplan
  · exact ((afterNewline_leaves _hskip).of_suffix (skipIgnorable_suffix _)).2

section

variable {parseYaml : String → Option Json} {remaining rest : List Char} {plan : Option Plan}

theorem testLinesAt_of_nil (h : skipIgnorable remaining = []) :
    testLinesAt parseYaml remaining plan = [] := by
  rw [testLinesAt, if_pos h]

theorem testLinesAt_of_test {test : TestLine} (hne : skipIgnorable remaining ≠ [])
    (h : testLine parseYaml (skipIgnorable remaining) = some (rest, test)) :
    testLinesAt parseYaml remaining plan =
      (skipIgnorable remaining, test) :: testLinesAt parseYaml rest plan := by
  rw [testLinesAt, if_neg hne]
  split
  · rename_i heq
    rw [h] at heq
    cases heq
    rfl
  · rename_i heq
    rw [h] at heq
    cases heq

/-- Any other line is passed over, as a plan or as nothing known. -/
theorem testLinesAt_of_none (hne : skipIgnorable remaining ≠ [])
    (h : testLine parseYaml (skipIgnorable remaining) = none) :
    testLinesAt parseYaml remaining plan =
      match if plan.isNone then planLine (skipIgnorable remaining) else none with
      | some (rest, p) => testLinesAt parseYaml rest (some p)
      | none => ((afterNewline (skipIgnorable remaining)).map fun rest =>
          testLinesAt parseYaml rest plan).getD [] := by
  rw [testLinesAt, if_neg hne]
  split
  · rename_i heq
    rw [h] at heq
    cases heq
  · split
    · rename_i heq
      rw [heq]
    · rename_i heq
      rw [heq]
      split
      · rename_i hskip
        rw [hskip]
        rfl
      · rename_i hskip
        rw [hskip]
        rfl

end

/-- The two loops read the same. -/
theorem parseLines_tests_eq (parseYaml : String → Option Json) (remaining : List Char)
    (plan : Option Plan) (tests : List TestLine) :
    (parseLines parseYaml remaining plan tests).2 =
      tests ++ (testLinesAt parseYaml remaining plan).map Prod.snd := by
  fun_induction parseLines parseYaml remaining plan tests with
  | case1 remaining plan tests hnil =>
      rw [testLinesAt_of_nil hnil, List.map_nil, List.append_nil]
  | case2 remaining plan tests hne rest test htest ih =>
      rw [ih, testLinesAt_of_test hne htest, List.map_cons, List.append_assoc]
      rfl
  | case3 remaining plan tests hne htest rest p hplan ih =>
      rw [dite_eq_ite] at hplan
      rw [ih, testLinesAt_of_none hne htest, hplan]
  | case4 remaining plan tests hne htest hplan rest hskip ih =>
      rw [dite_eq_ite] at hplan
      rw [ih, testLinesAt_of_none hne htest, hplan, hskip]
      rfl
  | case5 remaining plan tests hne htest hplan hskip =>
      rw [dite_eq_ite] at hplan
      rw [testLinesAt_of_none hne htest, hplan, hskip]
      exact (List.append_nil tests).symm

/-! ### The lines that are passed over -/

section

variable {text rest : List Char}

theorem head_of_isTestLine (h : isTestLine text = true) :
    text.head? = some 'o' ∨ text.head? = some 'n' := by
  obtain ⟨rest, status, hstatus, -⟩ := isTestLine_iff.mp h
  rcases Option.or_eq_some_iff.mp hstatus with hok | ⟨-, hnot⟩
  · obtain ⟨r, htag, -⟩ := Option.map_eq_some_iff.mp hok
    cases text with
    | nil => cases htag
    | cons c text =>
        by_cases hc : c = 'o'
        · exact Or.inl (congrArg some hc)
        · rw [tag_cons_ne rfl hc] at htag
          cases htag
  · obtain ⟨r, htag, -⟩ := Option.map_eq_some_iff.mp hnot
    cases text with
    | nil => cases htag
    | cons c text =>
        by_cases hc : c = 'n'
        · exact Or.inr (congrArg some hc)
        · rw [tag_cons_ne rfl hc] at htag
          cases htag

/-- A line that starts with nothing a status starts with. -/
theorem nextLine_of_head (ho : text.head? ≠ some 'o') (hn : text.head? ≠ some 'n') :
    isTestLine text = false ∧ nextLine text = lineAfter text := by
  have hfalse : isTestLine text = false := by
    rw [← Bool.not_eq_true]
    intro h
    rcases head_of_isTestLine h with h | h
    · exact ho h
    · exact hn h
  refine ⟨hfalse, ?_⟩
  rw [nextLine, if_neg]
  rw [hfalse]
  exact Bool.false_ne_true

/-- The text goes on with the rest, behind a line that is no test line. -/
structure PassesOver (rest text : List Char) : Prop where
  ne_nil : text ≠ []
  noTest : isTestLine text = false
  next : nextLine text = rest

/-- A line of another kind: it starts with something else, and is read to its end. -/
theorem passesOver_of_head {c : Char} (hhead : text.head? = some c) (ho : c ≠ 'o') (hn : c ≠ 'n')
    (hafter : afterNewline text = some rest) : PassesOver rest text := by
  have ho' : text.head? ≠ some 'o' := by
    rw [hhead]
    exact fun h => ho (Option.some.inj h)
  have hn' : text.head? ≠ some 'n' := by
    rw [hhead]
    exact fun h => hn (Option.some.inj h)
  have hline := nextLine_of_head ho' hn'
  refine ⟨?_, hline.1, ?_⟩
  · rintro rfl
    cases hhead
  · rw [hline.2, lineAfter, hafter]
    rfl

theorem head_of_tag {s a : String} {c : Char} {chars : List Char} (hs : s.toList = c :: chars)
    (h : tag s text = some (rest, a)) : text.head? = some c := by
  cases text with
  | nil =>
      rw [tag, hs] at h
      cases h
  | cons d text =>
      by_cases hd : d = c
      · exact congrArg some hd
      · rw [tag_cons_ne hs hd] at h
        cases h

theorem head_of_takeWhile1 {p : Char → Bool} {a : List Char}
    (h : takeWhile1 p text = some (rest, a)) : ∃ c, text.head? = some c ∧ p c = true := by
  cases text with
  | nil => cases h
  | cons c text =>
      refine ⟨c, rfl, ?_⟩
      by_contra hc
      rw [takeWhile1, if_pos (List.takeWhile_cons_of_neg hc)] at h
      cases h

theorem passesOver_of_tapVersion {v : UInt8} (h : tapVersion text = some (rest, v)) :
    PassesOver rest text := by
  simp only [tapVersion, Option.bind_eq_bind, Option.bind_eq_some_iff, Prod.exists] at h
  obtain ⟨r₁, _, h₁, r₂, _, h₂, r₃, _, h₃, r₄, _, h₄, r₅, _, h₅, r₆, _, h₆, h⟩ := h
  obtain rfl : r₆ = rest := (Prod.mk.inj (Option.some.inj h)).1
  have hwithin : Within r₅ text :=
    (within_of_takeWhile1 (fun _ => isInLine_of_isDigit) h₅).trans <|
      (within_of_takeWhile1 (fun _ => isInLine_of_isSpace) h₄).trans <|
      (within_of_tag (List.all_eq_true.mp rfl) h₃).trans <|
      (within_of_takeWhile1 (fun _ => isInLine_of_isSpace) h₂).trans <|
      within_of_tag (List.all_eq_true.mp rfl) h₁
  apply passesOver_of_head (head_of_tag rfl h₁) (by decide) (by decide)
  rw [hwithin.afterNewline, afterNewline_of_lineEnding h₆]

theorem passesOver_of_planLine {plan : Plan} (h : planLine text = some (rest, plan)) :
    PassesOver rest text := by
  simp only [planLine, Option.bind_eq_bind, Option.bind_eq_some_iff, Prod.exists] at h
  obtain ⟨r₁, _, h₁, r₂, _, h₂, r₃, _, h₃, r₄, _, h₄, h⟩ := h
  obtain rfl : r₄ = rest := (Prod.mk.inj (Option.some.inj h)).1
  have hwithin : Within r₃ text :=
    (within_of_takeWhile1 (fun _ => isInLine_of_isDigit) h₃).trans <|
      (within_of_tag (List.all_eq_true.mp rfl) h₂).trans <|
      within_of_takeWhile1 (fun _ => isInLine_of_isDigit) h₁
  obtain ⟨c, hhead, hdigit⟩ := head_of_takeWhile1 h₁
  refine passesOver_of_head hhead ?_ ?_ ?_
  · rintro rfl
    cases hdigit
  · rintro rfl
    cases hdigit
  · rw [hwithin.afterNewline, afterNewline_of_lineEnding h₄]

theorem passesOver_of_commentLine {u : Unit} (h : commentLine text = some (rest, u)) :
    PassesOver rest text := by
  simp only [commentLine, Option.bind_eq_bind, Option.bind_eq_some_iff, Prod.exists] at h
  obtain ⟨r₁, _, h₁, r₂, _, h₂, h⟩ := h
  have hhead : text.head? = some '#' := by
    cases text with
    | nil => cases h₁
    | cons c text =>
        by_cases hc : c = '#'
        · exact congrArg some hc
        · rw [char_cons_ne hc] at h₁
          cases h₁
  apply passesOver_of_head hhead (by decide) (by decide)
  rw [(within_of_char rfl h₁).afterNewline, (within_of_notLineEnding h₂).afterNewline,
    afterNewline_of_lineEnding h]

theorem passesOver_of_emptyLine {u : Unit} (h : emptyLine text = some (rest, u)) :
    PassesOver rest text := by
  simp only [emptyLine, Option.bind_eq_bind, Option.bind_eq_some_iff, Prod.exists] at h
  obtain ⟨r₁, _, h₁, h⟩ := h
  obtain rfl : text.dropWhile isSpace = r₁ := (Prod.mk.inj (Option.some.inj h₁)).1
  have hafter : afterNewline text = some rest := by
    rw [(within_dropWhile (fun _ => isInLine_of_isSpace) text).afterNewline,
      afterNewline_of_lineEnding h]
  cases text with
  | nil => cases h
  | cons c text =>
      by_cases hc : isSpace c = true
      · refine passesOver_of_head rfl ?_ ?_ hafter
        · rintro rfl
          cases hc
        · rintro rfl
          cases hc
      · rw [List.dropWhile_cons_of_neg hc] at h
        refine passesOver_of_head rfl ?_ ?_ hafter
        · rintro rfl
          cases h
        · rintro rfl
          cases h

theorem passesOver_of_ignorableLine {u : Unit} (h : ignorableLine text = some (rest, u)) :
    PassesOver rest text := by
  rcases Option.or_eq_some_iff.mp h with h | ⟨-, h⟩
  · exact passesOver_of_commentLine h
  · exact passesOver_of_emptyLine h

end

/-! ### The run over the lines -/

@[simp] theorem outside_nil : outside [] = [] := by
  rw [outside, if_pos rfl]

theorem outside_of_ne_nil {text : List Char} (h : text ≠ []) :
    outside text = text :: outside (nextLine text) := by
  rw [outside, if_neg h]

section

variable (parseYaml : String → Option Json)

/-- The test lines that the lines outside YAML blocks are. -/
def readOutside (text : List Char) : List (List Char × TestLine) :=
  (outside text).filterMap fun line => (testLine parseYaml line).map fun r => (line, r.2)

variable {parseYaml}

theorem testLine_eq_none_iff {text : List Char} :
    testLine parseYaml text = none ↔ isTestLine text = false := by
  constructor
  · intro h
    rw [← Bool.not_eq_true]
    intro htest
    obtain ⟨rest, status, test, -, hread, -⟩ := testLine_of_isTestLine parseYaml htest
    rw [h] at hread
    cases hread
  · intro h
    rw [Option.eq_none_iff_forall_not_mem]
    intro r hr
    rw [isTestLine_of_testLine hr] at h
    cases h

theorem next_of_testLine {text rest : List Char} {test : TestLine}
    (h : testLine parseYaml text = some (rest, test)) : nextLine text = rest := by
  obtain ⟨_, _, test', -, hread, -⟩ := testLine_of_isTestLine parseYaml (isTestLine_of_testLine h)
  rw [h] at hread
  exact (Prod.mk.inj (Option.some.inj hread)).1.symm

theorem readOutside_of_test {text rest : List Char} {test : TestLine} (hne : text ≠ [])
    (h : testLine parseYaml text = some (rest, test)) :
    readOutside parseYaml text = (text, test) :: readOutside parseYaml rest := by
  rw [readOutside, outside_of_ne_nil hne, next_of_testLine h, List.filterMap_cons, h]
  rfl

theorem PassesOver.readOutside {text rest : List Char} (h : PassesOver rest text) :
    Tap.readOutside parseYaml text = Tap.readOutside parseYaml rest := by
  rw [Tap.readOutside, outside_of_ne_nil h.ne_nil, h.next, List.filterMap_cons,
    testLine_eq_none_iff.mpr h.noTest]
  rfl

theorem readOutside_skipIgnorable (text : List Char) :
    readOutside parseYaml (skipIgnorable text) = readOutside parseYaml text := by
  induction text using skipIgnorable.induct with
  | case1 text rest u h ih =>
      rw [skipIgnorable_of_some h, ih, (passesOver_of_ignorableLine h).readOutside]
  | case2 text h => rw [skipIgnorable_of_none h]

theorem readOutside_takeIf {α : Type} {p : Parser α}
    (hp : ∀ text rest a, p text = some (rest, a) → PassesOver rest text) (text : List Char) :
    readOutside parseYaml (takeIf p text).1 = readOutside parseYaml text := by
  cases h : p text with
  | none => rw [takeIf_none h]
  | some r =>
      obtain ⟨rest, a⟩ := r
      rw [takeIf_some h, (hp text rest a h).readOutside]

/-- The loop goes over the lines outside YAML blocks, each is tried once. -/
theorem testLinesAt_eq (parseYaml : String → Option Json) (text : List Char)
    (plan : Option Plan) : testLinesAt parseYaml text plan = readOutside parseYaml text := by
  rw [← readOutside_skipIgnorable]
  fun_induction testLinesAt parseYaml text plan with
  | case1 text plan hnil =>
      rw [hnil, readOutside, outside_nil, List.filterMap_nil]
  | case2 text plan hne rest test htest ih =>
      rw [readOutside_of_test hne htest, ih, readOutside_skipIgnorable]
  | case3 text plan hne htest rest p hplan ih =>
      rw [dite_eq_ite] at hplan
      have hread : planLine (skipIgnorable text) = some (rest, p) := by
        split at hplan
        · exact hplan
        · cases hplan
      rw [ih, readOutside_skipIgnorable, (passesOver_of_planLine hread).readOutside]
  | case4 text plan hne htest hplan rest hskip ih =>
      have hpass : PassesOver rest (skipIgnorable text) := by
        refine ⟨hne, testLine_eq_none_iff.mp htest, ?_⟩
        rw [nextLine, if_neg, lineAfter, hskip, Option.getD_some]
        rw [testLine_eq_none_iff.mp htest]
        exact Bool.false_ne_true
      rw [ih, readOutside_skipIgnorable, hpass.readOutside]
  | case5 text plan hne htest hplan hskip =>
      have hpass : PassesOver [] (skipIgnorable text) := by
        refine ⟨hne, testLine_eq_none_iff.mp htest, ?_⟩
        rw [nextLine, if_neg, lineAfter, hskip, Option.getD_none]
        rw [testLine_eq_none_iff.mp htest]
        exact Bool.false_ne_true
      rw [hpass.readOutside, readOutside, outside_nil, List.filterMap_nil]

end

/-- The test lines of a document, each with the text that it is read at the start of. -/
def readAt (parseYaml : String → Option Json) (input : String) : List (List Char × TestLine) :=
  let (remaining, _) := takeIf tapVersion (skipIgnorable input.toList)
  let (remaining, plan) := takeIf planLine (skipIgnorable remaining)
  testLinesAt parseYaml remaining plan

theorem parseTapDocument_tests (parseYaml : String → Option Json) (input : String) :
    (parseTapDocument parseYaml input).tests = (readAt parseYaml input).map Prod.snd := by
  rw [parseTapDocument, readAt]
  exact parseLines_tests_eq parseYaml _ _ []

theorem readAt_eq (parseYaml : String → Option Json) (input : String) :
    readAt parseYaml input = readOutside parseYaml input.toList := by
  have hloop : readAt parseYaml input = readOutside parseYaml
      (takeIf planLine (skipIgnorable
        (takeIf tapVersion (skipIgnorable input.toList)).1)).1 := testLinesAt_eq parseYaml _ _
  rw [hloop, readOutside_takeIf fun _ _ _ => passesOver_of_planLine,
    readOutside_skipIgnorable, readOutside_takeIf fun _ _ _ => passesOver_of_tapVersion,
    readOutside_skipIgnorable]

end CdvizCollector.Sources.Tap
