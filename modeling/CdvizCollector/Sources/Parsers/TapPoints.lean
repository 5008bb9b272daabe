import CdvizCollector.Sources.Parsers.TapLines
import Mathlib.Data.List.Forall2

/-!
The test points of a text and the test lines of its document.

A test point is a line at column 0 with a status that the line ends behind, or a
blank; its number is a word of digits. The parser wants a blank behind the status
and behind the number, and a line ending.
-/

namespace CdvizCollector.Sources.Tap

open Lib Nom

/-! ### Two readings of the same lines -/

section

variable {α β γ : Type} {f : α → Option β} {g : α → Option γ} {R : β → γ → Prop}

theorem length_filterMap_le (hle : ∀ a, f a = none → g a = none) (l : List α) :
    (l.filterMap g).length ≤ (l.filterMap f).length := by
  induction l with
  | nil => exact Nat.le_refl _
  | cons a l ih =>
      cases hf : f a with
      | none =>
          rw [List.filterMap_cons_none hf, List.filterMap_cons_none (hle a hf)]
          exact ih
      | some b =>
          rw [List.filterMap_cons_some hf, List.length_cons]
          cases hg : g a with
          | none =>
              rw [List.filterMap_cons_none hg]
              omega
          | some c =>
              rw [List.filterMap_cons_some hg, List.length_cons]
              omega

/-- Where the second reading finds nothing more than the first, one lost element is too few. -/
theorem forall₂_filterMap_iff (hle : ∀ a, f a = none → g a = none) (l : List α) :
    List.Forall₂ R (l.filterMap f) (l.filterMap g) ↔ ∀ a ∈ l, Option.Rel R (f a) (g a) := by
  induction l with
  | nil => exact iff_of_true List.Forall₂.nil (List.forall_mem_nil _)
  | cons a l ih =>
      rw [List.forall_mem_cons, ← ih]
      cases hf : f a with
      | none =>
          rw [List.filterMap_cons_none hf, List.filterMap_cons_none (hle a hf), hle a hf]
          exact (and_iff_right Option.Rel.none).symm
      | some b =>
          rw [List.filterMap_cons_some hf]
          cases hg : g a with
          | none =>
              rw [List.filterMap_cons_none hg]
              refine iff_of_false ?_ (by rintro ⟨⟨⟩, -⟩)
              intro h
              have hlength := h.length_eq
              have := length_filterMap_le hle l
              rw [List.length_cons] at hlength
              omega
          | some c =>
              rw [List.filterMap_cons_some hg, List.forall₂_cons]
              refine and_congr_left fun _ => ?_
              constructor
              · exact Option.Rel.some
              · rintro ⟨h⟩
                exact h

end

/-! ### Test points -/

structure Point where
  status : TestStatus
  number : Option ℕ
deriving DecidableEq, Repr

/-- The number behind the status, and what follows it. -/
def numberAt (rest : List Char) : Option (ℕ × List Char) :=
  let word := rest.dropWhile isSpace
  let after := word.dropWhile Char.isDigit
  if atLineEnd after || atBlank after then
    (Text.parseDigits (word.takeWhile Char.isDigit)).map fun n => (n, after)
  else none

/-- The test point that the first line of the text is. -/
def pointAt (text : List Char) : Option Point :=
  (testStatus text).bind fun (rest, status) =>
    if atLineEnd rest || atBlank rest then
      some { status, number := (numberAt rest).map Prod.fst }
    else none

def points (text : List Char) : List Point := (outside text).filterMap pointAt

def Point.ReadAs (p : Point) (test : TestLine) : Prop :=
  test.status = p.status ∧ ∀ n ∈ p.number, test.number.map UInt64.toNat = some n

/-- Each test point outside YAML blocks is one test line, in the order of the lines. -/
def PointsRead (parseYaml : String → Option Json) (input : String) : Prop :=
  List.Forall₂ Point.ReadAs (points input.toList) (parseTapDocument parseYaml input).tests

/-- A status with a blank behind it, in a line with an end and no other carriage return; a
number has a blank behind it, and fits. -/
structure Legible (text : List Char) : Prop where
  line : isTestLine text = true
  number : ∀ rest status n after, testStatus text = some (rest, status) →
    numberAt rest = some (n, after) → atBlank after = true ∧ n ≤ Text.maxU64

/-- The parser takes the digits for a number where a blank is behind them. -/
theorem numberRead_eq (rest : List Char) :
    numberRead rest =
      if atBlank ((rest.dropWhile isSpace).dropWhile Char.isDigit) then
        parseUsize ((rest.dropWhile isSpace).takeWhile Char.isDigit)
      else none := by
  rw [numberRead]
  generalize rest.dropWhile isSpace = word
  by_cases hdigits : word.takeWhile Char.isDigit = []
  · have hnone : opt (terminated digit1 space1) word = some (word, none) := by
      refine opt_none ?_
      rw [terminated, pair, digit1, takeWhile1, if_pos hdigits]
      rfl
    rw [hnone, hdigits]
    split <;> rfl
  · have hdigit : digit1 word =
        some (word.dropWhile Char.isDigit, word.takeWhile Char.isDigit) := by
      rw [digit1, takeWhile1, if_neg hdigits]
    by_cases hblank : atBlank (word.dropWhile Char.isDigit) = true
    · have hpair := pair_some hdigit (space1_of_atBlank hblank)
      rw [if_pos hblank, opt_some (congrArg (Option.map _) hpair)]
      rfl
    · have hspace : space1 (word.dropWhile Char.isDigit) = none := by
        rw [Option.eq_none_iff_forall_not_mem]
        intro r hr
        exact hblank (atBlank_of_space1 hr)
      have hnone : opt (terminated digit1 space1) word = some (word, none) := by
        refine opt_none ?_
        simp only [terminated, pair, hdigit, hspace, Option.bind_eq_bind, Option.bind_some,
          Option.bind_none, Option.map_none]
      rw [if_neg hblank, hnone]
      rfl

theorem parseUsize_toNat (digits : List Char) (n : ℕ) :
    (parseUsize digits).map UInt64.toNat = some n ↔
      Text.parseDigits digits = some n ∧ n ≤ Text.maxU64 := by
  rw [parseUsize]
  cases Text.parseDigits digits with
  | none => exact iff_of_false (by rintro ⟨⟩) (by rintro ⟨⟨⟩, -⟩)
  | some m =>
      rw [Option.bind_some, Option.some_inj]
      by_cases hm : m ≤ Text.maxU64
      · have hnat : (UInt64.ofNat m).toNat = m := by
          rw [UInt64.toNat_ofNat']
          exact Nat.mod_eq_of_lt (Nat.lt_succ_of_le hm)
        rw [if_pos hm, Option.map_some, hnat, Option.some_inj]
        exact ⟨fun h => ⟨h, h ▸ hm⟩, And.left⟩
      · rw [if_neg hm, Option.map_none]
        refine iff_of_false (by rintro ⟨⟩) ?_
        rintro ⟨rfl, hle⟩
        exact hm hle

theorem numberRead_iff {rest after : List Char} {n : ℕ} (h : numberAt rest = some (n, after)) :
    (numberRead rest).map UInt64.toNat = some n ↔
      atBlank after = true ∧ n ≤ Text.maxU64 := by
  rw [numberAt] at h
  split at h
  · obtain ⟨m, hparse, heq⟩ := Option.map_eq_some_iff.mp h
    cases heq
    rw [numberRead_eq]
    split
    · rename_i hblank
      rw [parseUsize_toNat, and_iff_right hparse, and_iff_right hblank]
    · rename_i hblank
      exact iff_of_false (by rintro ⟨⟩) fun hle => hblank hle.1
  · cases h

theorem pointAt_of_isTestLine {text rest : List Char} {status : TestStatus}
    (hline : isTestLine text = true) (hstatus : testStatus text = some (rest, status)) :
    pointAt text = some { status, number := (numberAt rest).map Prod.fst } := by
  obtain ⟨r, s, hr, hblank, -⟩ := isTestLine_iff.mp hline
  rw [hstatus] at hr
  cases hr
  rw [pointAt, hstatus, Option.bind_some]
  exact if_pos (by rw [hblank, Bool.or_true])

/-- A test point is read for what it is where it is legible. -/
theorem readAs_iff (parseYaml : String → Option Json) (text : List Char) :
    Option.Rel Point.ReadAs (pointAt text) ((testLine parseYaml text).map Prod.snd) ↔
      ((pointAt text).isSome → Legible text) := by
  by_cases hline : isTestLine text = true
  · obtain ⟨rest, status, test, hstatus, hread, htest, hnumber⟩ :=
      testLine_of_isTestLine parseYaml hline
    have hlegible : Legible text ↔ ∀ n after, numberAt rest = some (n, after) →
        atBlank after = true ∧ n ≤ Text.maxU64 := by
      refine ⟨fun h n after => h.number rest status n after hstatus, fun h => ⟨hline, ?_⟩⟩
      intro rest' status' n after hstatus' hnum
      rw [hstatus] at hstatus'
      cases hstatus'
      exact h n after hnum
    rw [pointAt_of_isTestLine hline hstatus, hread, Option.map_some, hlegible]
    have hforce : ∀ P : Prop, (Option.isSome (some (Point.mk status
        ((numberAt rest).map Prod.fst))) = true → P) ↔ P :=
      fun P => ⟨fun h => h rfl, fun h _ => h⟩
    rw [hforce]
    constructor
    · rintro ⟨-, hread⟩ n after hnum
      rw [← numberRead_iff hnum, ← hnumber]
      exact hread n (Option.mem_def.mpr (by rw [hnum]; rfl))
    · intro h
      refine Option.Rel.some ⟨htest, ?_⟩
      intro n hn
      obtain ⟨⟨m, after⟩, hnum, rfl⟩ := Option.map_eq_some_iff.mp (Option.mem_def.mp hn)
      rw [hnumber]
      exact (numberRead_iff hnum).mpr (h m after hnum)
  · rw [testLine_eq_none_iff.mpr (Bool.eq_false_iff.mpr hline), Option.map_none]
    cases hpoint : pointAt text with
    | none => exact iff_of_true Option.Rel.none (by rintro ⟨⟩)
    | some p => exact iff_of_false (by rintro ⟨⟩) fun h => hline (h rfl).line

theorem tests_eq (parseYaml : String → Option Json) (input : String) :
    (parseTapDocument parseYaml input).tests =
      (outside input.toList).filterMap fun line => (testLine parseYaml line).map Prod.snd := by
  rw [parseTapDocument_tests, readAt_eq, readOutside, List.map_filterMap]
  refine congrArg (fun f => List.filterMap f _) (funext fun line => ?_)
  rw [Option.map_map]
  rfl

/-- Every test point is read for what it is, unless one of them has no blank behind its status,
no line ending, a carriage return in its line, or a number without a blank behind it or
beyond 64 bits. -/
theorem points_read_iff (parseYaml : String → Option Json) (input : String) :
    PointsRead parseYaml input ↔
      ∀ line ∈ outside input.toList, (pointAt line).isSome = true → Legible line := by
  have hle : ∀ line, pointAt line = none → (testLine parseYaml line).map Prod.snd = none := by
    intro line hpoint
    rw [Option.map_eq_none_iff, testLine_eq_none_iff, Bool.eq_false_iff]
    intro hline
    obtain ⟨rest, status, hstatus, -⟩ := isTestLine_iff.mp hline
    rw [pointAt_of_isTestLine hline hstatus] at hpoint
    cases hpoint
  rw [PointsRead, points, tests_eq, forall₂_filterMap_iff hle]
  exact forall₂_congr fun line _ => readAs_iff parseYaml line

/-- The text `ok` on a line of its own is a test point, and no test line is read. -/
theorem bare_ok_not_read : ¬PointsRead (fun _ => none) "ok\n" := by
  have hpoints : points "ok\n".toList = [⟨.ok, none⟩] := by decide +kernel
  have htests : (parseTapDocument (fun _ => none) "ok\n").tests.length = 0 := by decide +kernel
  intro h
  have hlength := List.Forall₂.length_eq h
  rw [hpoints, htests] at hlength
  cases hlength

end CdvizCollector.Sources.Tap
