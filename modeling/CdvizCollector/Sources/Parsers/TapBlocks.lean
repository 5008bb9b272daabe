import CdvizCollector.Sources.Parsers.TapLines
import CdvizCollector.Sources.Parsers.TapPrint

/-!
YAML blocks and the lines in them.

A block goes from `  ---` on the line behind a test line to the first `  ...`,
wherever that is. What stands between the two is not read, indented or not.
-/

namespace CdvizCollector.Sources.Tap

open Lib Nom

/-! ### Blocks -/

/-- The text starts with a block, and goes on with the rest. -/
def IsBlock (text rest : List Char) : Prop :=
  ∃ begun body ended, text = "  ---".toList ++ begun ∧
    lineEnding begun = some (body ++ ("  ...".toList ++ ended), ()) ∧
    lineEnding ended = some (rest, ()) ∧
    -- the three dots occur there for the first time
    ∀ front back, body = front ++ back → back ≠ [] →
      ¬"  ...".toList <+: back ++ ("  ...".toList ++ ended)

theorem isBlock_iff {text rest : List Char} :
    IsBlock text rest ↔ (yamlBlock text).map Prod.fst = some rest := by
  constructor
  · rintro ⟨begun, body, ended, rfl, hbegun, hended, hfirst⟩
    have huntil := takeUntil_eq_some_iff.mpr ⟨rfl, List.prefix_append _ ended, hfirst⟩
    simp only [yamlBlock, tag_append, hbegun, huntil, hended, Option.bind_eq_bind,
      Option.bind_some, Option.map_some]
  · intro hblock
    obtain ⟨⟨r, yaml⟩, h, rfl⟩ := Option.map_eq_some_iff.mp hblock
    clear hblock
    simp only [yamlBlock, Option.bind_eq_bind, Option.bind_eq_some_iff, Prod.exists] at h
    obtain ⟨r₁, _, h₁, r₂, _, h₂, r₃, body, h₃, r₄, _, h₄, r₅, _, h₅, h⟩ := h
    obtain rfl : r₅ = r := (Prod.mk.inj (Option.some.inj h)).1
    obtain ⟨rfl, -, hfirst⟩ := takeUntil_eq_some_iff.mp h₃
    rw [append_of_tag h₄] at h₂ hfirst
    exact ⟨r₁, body, r₄, append_of_tag h₁, h₂, h₅, hfirst⟩

/-- The line starts at column 0. -/
def StartsLine (line text : List Char) : Prop :=
  ∃ before, text = before ++ line ∧ ∀ c ∈ before.getLast?, c = '\n'

/-- The line is in the block behind a test line. -/
def InBlock (line text : List Char) : Prop :=
  ∃ test ∈ outside text, isTestLine test = true ∧ StartsLine line (lineAfter test) ∧
    ∃ rest, IsBlock (lineAfter test) rest ∧ rest.length < line.length

/-! ### A line is outside the blocks or in one -/

section

variable {line text rest : List Char}

/-- Behind the first line the lines are those of what follows. -/
theorem StartsLine.eq_or_after (h : StartsLine line text) :
    line = text ∨ StartsLine line (lineAfter text) := by
  obtain ⟨before, rfl, hlast⟩ := h
  cases hlf : before.getLast? with
  | none => exact Or.inl (by rw [List.getLast?_eq_none_iff.mp hlf, List.nil_append])
  | some c =>
      right
      obtain rfl := hlast c hlf
      obtain ⟨front, back, rfl, hfront⟩ := List.eq_append_cons_of_mem (List.mem_of_getLast? hlf)
      have hafter : lineAfter (front ++ '\n' :: back ++ line) = back ++ line := by
        rw [lineAfter, List.append_assoc, afterNewline_append hfront]
        rfl
      refine ⟨back, hafter, ?_⟩
      intro d hd
      rw [List.getLast?_append_of_ne_nil _ (List.cons_ne_nil _ _), List.getLast?_cons] at hlf
      rw [Option.mem_def.mp hd] at hlf
      exact Option.some.inj hlf

/-- A line that starts within the back part starts a line there. -/
theorem StartsLine.of_suffix (h : StartsLine line text) (hrest : rest <:+ text)
    (hle : line.length ≤ rest.length) : StartsLine line rest := by
  obtain ⟨before, rfl, hlast⟩ := h
  obtain ⟨front, heq⟩ := hrest
  obtain ⟨back, hback⟩ : line <:+ rest :=
    List.suffix_of_suffix_length_le (List.suffix_append before line) ⟨front, heq⟩ hle
  subst hback
  have hbefore : before = front ++ back := by
    rw [← List.append_assoc] at heq
    exact (List.append_cancel_right heq).symm
  refine ⟨back, rfl, ?_⟩
  intro c hc
  have hne : back ≠ [] := by
    rintro rfl
    cases hc
  refine hlast c ?_
  rw [hbefore, List.getLast?_append_of_ne_nil _ hne]
  exact hc

theorem lineAfter_suffix (text : List Char) : lineAfter text <:+ text := by
  by_cases h : text = []
  · rw [h]
    exact List.suffix_refl []
  · exact (lineAfter_leaves h).1

/-- What is gone over behind the first line is a block. -/
theorem nextLine_eq_or_block (text : List Char) :
    nextLine text = lineAfter text ∨
      isTestLine text = true ∧ IsBlock (lineAfter text) (nextLine text) := by
  rw [nextLine]
  split
  · rename_i hline
    cases hblock : yamlBlock (lineAfter text) with
    | none => exact Or.inl (by rw [takeIf_none hblock])
    | some r =>
        obtain ⟨rest, yaml⟩ := r
        refine Or.inr ⟨hline, isBlock_iff.mpr ?_⟩
        rw [takeIf_some hblock, hblock]
        rfl
  · exact Or.inl rfl

theorem InBlock.of_next (hne : text ≠ []) (h : InBlock line (nextLine text)) :
    InBlock line text := by
  obtain ⟨test, hmem, hblock⟩ := h
  refine ⟨test, ?_, hblock⟩
  rw [outside_of_ne_nil hne]
  exact List.mem_cons_of_mem text hmem

theorem outside_or_inBlock (hne : line ≠ []) (h : StartsLine line text) :
    line ∈ outside text ∨ InBlock line text := by
  induction text using outside.induct with
  | case1 =>
      obtain ⟨before, heq, -⟩ := h
      exact absurd (List.append_eq_nil_iff.mp heq.symm).2 hne
  | case2 text htext ih =>
      rw [outside_of_ne_nil htext, List.mem_cons]
      rcases h.eq_or_after with heq | hafter
      · exact Or.inl (Or.inl heq)
      · rcases nextLine_eq_or_block text with hnext | ⟨htest, hblock⟩
        · rcases ih (hnext ▸ hafter) with hmem | hin
          · exact Or.inl (Or.inr hmem)
          · exact Or.inr (hin.of_next htext)
        · by_cases hle : line.length ≤ (nextLine text).length
          · have hsuffix : nextLine text <:+ lineAfter text := by
              rw [nextLine, if_pos htest]
              exact takeIf_yamlBlock_suffix _
            rcases ih (hafter.of_suffix hsuffix hle) with hmem | hin
            · exact Or.inl (Or.inr hmem)
            · exact Or.inr (hin.of_next htext)
          · refine Or.inr ⟨text, ?_, htest, hafter, _, hblock, Nat.lt_of_not_le hle⟩
            rw [outside_of_ne_nil htext]
            exact List.mem_cons_self

theorem suffix_of_mem_outside (h : line ∈ outside text) : line <:+ text := by
  induction text using outside.induct with
  | case1 =>
      rw [outside_nil] at h
      cases h
  | case2 text htext ih =>
      rw [outside_of_ne_nil htext] at h
      rcases List.mem_cons.mp h with rfl | h
      · exact List.suffix_refl line
      · exact (ih h).trans (nextLine_leaves htext).1

/-- A line of a block is not outside. -/
theorem not_mem_outside_of_inBlock (h : InBlock line text) : line ∉ outside text := by
  obtain ⟨test, hmem, htest, hline, rest, hblock, hlt⟩ := h
  have hrest : nextLine test = rest := by
    have hyaml := isBlock_iff.mp hblock
    obtain ⟨⟨rest', yaml⟩, hr, rfl⟩ := Option.map_eq_some_iff.mp hyaml
    rw [nextLine, if_pos htest, takeIf_some hr]
  obtain ⟨before, hbefore, -⟩ := hline
  induction text using outside.induct with
  | case1 =>
      rw [outside_nil] at hmem
      cases hmem
  | case2 text htext ih =>
      have hle : line.length ≤ (lineAfter test).length := by
        rw [hbefore, List.length_append]
        omega
      rw [outside_of_ne_nil htext] at hmem ⊢
      rw [List.mem_cons, not_or]
      rcases List.mem_cons.mp hmem with rfl | hmem
      · have hafter := (lineAfter_leaves htext).2
        refine ⟨?_, ?_⟩
        · rintro rfl
          omega
        · intro hin
          have := (suffix_of_mem_outside hin).length_le
          rw [hrest] at this
          omega
      · have htestle := (suffix_of_mem_outside hmem).length_le
        have hafter := (lineAfter_suffix test).length_le
        have hnext := (nextLine_leaves htext).2
        refine ⟨?_, ih hmem⟩
        rintro rfl
        omega

theorem nodup_outside (text : List Char) : (outside text).Nodup := by
  induction text using outside.induct with
  | case1 =>
      rw [outside_nil]
      exact List.nodup_nil
  | case2 text htext ih =>
      rw [outside_of_ne_nil htext, List.nodup_cons]
      refine ⟨?_, ih⟩
      intro hmem
      have hle := (suffix_of_mem_outside hmem).length_le
      have hlt := (nextLine_leaves htext).2
      omega

end

/-! ### Numbered test points -/

/-- The first line of the text is `ok N - text` or `not ok N - text`. -/
def IsNumberedPoint (line : List Char) : Prop :=
  ∃ (status : TestStatus) (number description rest : List Char),
    line = status.print.toList ++
      ' ' :: (number ++ (" - ".toList ++ (description ++ '\n' :: rest))) ∧
    number ≠ [] ∧ (∀ c ∈ number, c.isDigit = true) ∧
    ∀ c ∈ description, c ≠ '#' ∧ c ≠ '\n' ∧ c ≠ '\r'

theorem IsNumberedPoint.isTestLine {line : List Char} (h : IsNumberedPoint line) :
    Tap.isTestLine line = true := by
  obtain ⟨status, number, description, rest, rfl, -, hnumber, hdescription⟩ := h
  refine isTestLine_iff.mpr ⟨_, status, testStatus_print status _, rfl, ?_⟩
  have hwithin : Within ('\n' :: rest) (status.print.toList ++
      ' ' :: (number ++ (" - ".toList ++ (description ++ '\n' :: rest)))) := by
    refine ⟨status.print.toList ++ ' ' :: (number ++ (" - ".toList ++ description)), ?_, ?_⟩
    · intro c hc
      rw [List.mem_append, List.mem_cons, List.mem_append, List.mem_append] at hc
      rcases hc with hc | rfl | hc | hc | hc
      · cases status with
        | ok => exact List.all_eq_true.mp rfl c hc
        | notOk => exact List.all_eq_true.mp rfl c hc
      · rfl
      · exact isInLine_of_isDigit (hnumber c hc)
      · exact List.all_eq_true.mp rfl c hc
      · simp [isInLine, (hdescription c hc).2]
    · simp only [List.append_assoc, List.cons_append]
  rw [hwithin.isEnded]
  rfl

/-- Each such line is read, as one test line. -/
def NumberedPointsRead (parseYaml : String → Option Json) (input : String) : Prop :=
  ∀ line, StartsLine line input.toList → IsNumberedPoint line →
    ((readAt parseYaml input).map Prod.fst).count line = 1

theorem readAt_fst (parseYaml : String → Option Json) (input : String) :
    (readAt parseYaml input).map Prod.fst =
      (outside input.toList).filter fun line => isTestLine line := by
  rw [readAt_eq, readOutside, List.map_filterMap, ← List.filterMap_eq_filter]
  refine congrArg (fun f => List.filterMap f _) (funext fun line => ?_)
  by_cases hline : isTestLine line = true
  · obtain ⟨_, _, test, -, hread, -⟩ := testLine_of_isTestLine parseYaml hline
    rw [hread, Option.guard, if_pos hline]
    rfl
  · rw [testLine_eq_none_iff.mpr (Bool.eq_false_iff.mpr hline), Option.guard, if_neg hline]
    rfl

/-- The numbered test points are all read where none is in a block. -/
theorem numbered_points_read_iff (parseYaml : String → Option Json) (input : String) :
    NumberedPointsRead parseYaml input ↔
      ∀ line, StartsLine line input.toList → IsNumberedPoint line →
        ¬InBlock line input.toList := by
  refine forall_congr' fun line => forall_congr' fun hstarts => forall_congr' fun hpoint => ?_
  have hnodup := (nodup_outside input.toList).filter fun line => isTestLine line
  have hne : line ≠ [] := by
    rintro rfl
    cases hpoint.isTestLine
  rw [readAt_fst]
  constructor
  · intro hcount hin
    have hmem : line ∈ (outside input.toList).filter fun line => isTestLine line :=
      List.count_pos_iff.mp (by rw [hcount]; exact Nat.one_pos)
    exact not_mem_outside_of_inBlock hin (List.mem_filter.mp hmem).1
  · intro hout
    have hmem := (outside_or_inBlock hne hstarts).resolve_right hout
    rw [List.Nodup.count hnodup, if_pos (List.mem_filter.mpr ⟨hmem, hpoint.isTestLine⟩)]

/-- A second test point that stands between the marks of a block. -/
theorem point_in_block_not_read :
    ¬NumberedPointsRead (fun _ => none) "ok 1 - a\n  ---\nok 2 - b\n  ...\n" := by
  intro h
  have hcount := h "ok 2 - b\n  ...\n".toList
    ⟨"ok 1 - a\n  ---\n".toList, by rw [← String.toList_append]; rfl, ?_⟩
    ⟨.ok, ['2'], ['b'], "  ...\n".toList, rfl, List.cons_ne_nil _ _, ?_, ?_⟩
  · have hread : ((readAt (fun _ => none) "ok 1 - a\n  ---\nok 2 - b\n  ...\n").map
        Prod.fst).count "ok 2 - b\n  ...\n".toList = 0 := by decide +kernel
    rw [hread] at hcount
    cases hcount
  · have hlast : "ok 1 - a\n  ---\n".toList.getLast? = some '\n' := by decide
    intro c hc
    rw [hlast] at hc
    exact (Option.some.inj hc).symm
  · exact List.forall_mem_singleton.mpr rfl
  · exact List.forall_mem_singleton.mpr (by decide)

end CdvizCollector.Sources.Tap
