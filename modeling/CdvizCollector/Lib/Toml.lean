import Mathlib.Data.List.Forall2
import Mathlib.Data.List.Nodup
import Mathlib.Data.Nat.Notation

/-!
The part of TOML that programs write: lines that assign a boolean, a basic string
or an array of them to a dotted key.

What is written is a `Line`, given by its characters, and what is meant an
`Entry`; `Line.Denotes` is the grammar between the two. A parser of the whole
format is known by what it does with such lines (`Parser`): it reads them if no
two assignments are in conflict, and it refuses a text as soon as a string in it
has a control character that is not escaped. `parse` is one for the lines alone.
-/

namespace CdvizCollector.Lib.Toml

/-! ### Documents -/

/-- A value that is not a table with entries. Those that are not written here
(numbers, dates, other arrays, empty tables) are kept as they are written. -/
inductive Leaf where
  | bool (b : Bool)
  | str (s : String)
  | strs (elems : List String)
  | other (written : String)
deriving DecidableEq, Repr

/-- A leaf of a table and the keys that lead to it. -/
abbrev Entry := List String × Leaf

/-- A table by its leaves, in some order. -/
abbrev Document := List Entry

/-- No assignment is made twice or goes through another one. -/
def PrefixFree (paths : List (List String)) : Prop :=
  paths.Pairwise fun p q => ¬p <+: q ∧ ¬q <+: p

instance : DecidablePred PrefixFree := fun paths =>
  inferInstanceAs (Decidable (paths.Pairwise fun p q => ¬p <+: q ∧ ¬q <+: p))

/-! ### Characters -/

def isBareChar (c : Char) : Bool := c.isAlphanum || c = '_' || c = '-'

def isBareKey (key : String) : Bool := key ≠ "" && key.toList.all isBareChar

/-- The control characters, which are not allowed in a string; a tab is. -/
def isControl (c : Char) : Bool := (c.toNat < 0x20 && c ≠ '\t') || c.toNat = 0x7F

def isPlain (c : Char) : Bool := c ≠ '"' && c ≠ '\\' && !isControl c

/-- The characters after a backslash, and what they stand for. -/
def escapes : List (Char × Char) :=
  [('b', '\x08'), ('t', '\t'), ('n', '\n'), ('f', '\x0c'), ('r', '\r'), ('"', '"'), ('\\', '\\')]

def hexDigit (c : Char) : Option ℕ :=
  let n := c.toNat
  if 48 ≤ n ∧ n ≤ 57 then some (n - 48)
  else if 97 ≤ n ∧ n ≤ 102 then some (n - 87)
  else if 65 ≤ n ∧ n ≤ 70 then some (n - 55)
  else none

/-- The character of four hexadecimal digits, surrogates apart. -/
def hexChar (a b c d : Char) : Option Char := do
  let n := ((← hexDigit a) * 16 + (← hexDigit b)) * 256 + (← hexDigit c) * 16 + (← hexDigit d)
  if n.isValidChar then some (Char.ofNat n) else none

/-- What a basic string has between its quotes, and what it stands for. -/
inductive Spells : List Char → List Char → Prop
  | nil : Spells [] []
  | plain {c : Char} {raw s : List Char} (hplain : isPlain c = true) (h : Spells raw s) :
      Spells (c :: raw) (c :: s)
  | escape {e c : Char} {raw s : List Char} (hescape : escapes.lookup e = some c)
      (h : Spells raw s) : Spells ('\\' :: e :: raw) (c :: s)
  | unicode {a b c d char : Char} {raw s : List Char} (hchar : hexChar a b c d = some char)
      (h : Spells raw s) : Spells ('\\' :: 'u' :: a :: b :: c :: d :: raw) (char :: s)

/-- A control character follows what is spelled well. -/
def Broken (raw : List Char) : Prop :=
  ∃ before c after s, raw = before ++ c :: after ∧ Spells before s ∧ isControl c = true

/-- What is read between the quotes of a basic string, and its value: there are no control
characters, and the escapes, of whatever kinds there are, stand for less than they take. -/
structure Scanned (raw s : List Char) : Prop where
  not_control : ∀ c ∈ raw, isControl c = false
  shorter : (∀ c ∈ raw, isPlain c = true) ∧ s = raw ∨ s.length < raw.length

/-- A text that makes the quote before it, with the one after it, the opening of a
multi-line string. -/
def opensMultiline (raw : String) : Bool := ['"', '"'].isPrefixOf (raw.toList ++ ['"'])

/-! ### Lines -/

def quoted (raw : String) : String := "\"" ++ raw ++ "\""

def assignment (path : List String) (value : String) : String :=
  ".".intercalate path ++ " = " ++ value ++ "\n"

/-- A value as it is written; `gap` follows a comma. -/
inductive Expr where
  | bool (b : Bool)
  | string (raw : String)
  | strings (gap : String) (raws : List String)

def Expr.text : Expr → String
  | .bool b => if b then "true" else "false"
  | .string raw => quoted raw
  | .strings gap raws => "[" ++ ("," ++ gap).intercalate (raws.map quoted) ++ "]"

/-- The gap of an array, if there is one, is of spaces. -/
def Blank (gap : String) : Prop := ∀ c ∈ gap.toList, c = ' '

inductive Expr.Denotes : Expr → Leaf → Prop
  | bool (b : Bool) : Denotes (.bool b) (.bool b)
  | string {raw s : String} (h : Spells raw.toList s.toList) : Denotes (.string raw) (.str s)
  | strings {gap : String} {raws elems : List String} (hgap : Blank gap)
      (h : List.Forall₂ (fun raw s => Spells raw.toList s.toList) raws elems) :
      Denotes (.strings gap raws) (.strs elems)

theorem Expr.denotes_string_iff {raw s : String} :
    (Expr.string raw).Denotes (.str s) ↔ Spells raw.toList s.toList :=
  ⟨fun h => by cases h with | string h => exact h, .string⟩

theorem Expr.denotes_strings_iff {gap : String} (hgap : Blank gap) {raws elems : List String} :
    (Expr.strings gap raws).Denotes (.strs elems) ↔
      List.Forall₂ (fun raw s => Spells raw.toList s.toList) raws elems :=
  ⟨fun h => by cases h with | strings _ h => exact h, .strings hgap⟩

inductive Expr.Broken : Expr → Prop
  | string {raw : String} (h : Toml.Broken raw.toList) : Broken (.string raw)
  | strings {gap raw : String} {before after elems : List String} (hgap : Blank gap)
      (hbefore : List.Forall₂ (fun raw s => Spells raw.toList s.toList) before elems)
      (h : Toml.Broken raw.toList) : Broken (.strings gap (before ++ raw :: after))

structure Line where
  path : List String
  expr : Expr

def Line.text (line : Line) : String := assignment line.path line.expr.text

def text (lines : List Line) : String := String.join (lines.map Line.text)

/-- A path that needs no quotes. -/
def BarePath (path : List String) : Prop := path ≠ [] ∧ ∀ key ∈ path, isBareKey key = true

structure Line.Denotes (line : Line) (entry : Entry) : Prop where
  path : line.path = entry.1
  bare : BarePath line.path
  expr : line.expr.Denotes entry.2

/-- What a parser of TOML does with lines. -/
structure Parser (parse : String → Option Document) : Prop where
  reads : ∀ {lines : List Line} {doc : Document}, List.Forall₂ Line.Denotes lines doc →
    PrefixFree (doc.map Prod.fst) → ∃ doc', parse (text lines) = some doc' ∧ doc'.Perm doc
  conflict : ∀ {lines : List Line} {doc : Document}, List.Forall₂ Line.Denotes lines doc →
    ¬PrefixFree (doc.map Prod.fst) → parse (text lines) = none
  broken : ∀ {lines : List Line} {doc : Document} {line : Line},
    List.Forall₂ Line.Denotes lines doc → BarePath line.path → line.expr.Broken →
      ∀ more, parse (text lines ++ line.text ++ more) = none
  string : ∀ {lines : List Line} {doc doc' : Document} {path : List String} {raw more : String},
    List.Forall₂ Line.Denotes lines doc → BarePath path → opensMultiline raw = false →
      parse (text lines ++ (Line.mk path (.string raw)).text ++ more) = some doc' →
        ∃ before s after, raw.toList ++ ('"' :: '\n' :: more.toList) = before ++ '"' :: after ∧
          Scanned before s ∧ (path, .str (String.ofList s)) ∈ doc'
  table : ∀ {written : String} {doc : Document}, parse written = some doc →
    PrefixFree (doc.map Prod.fst)

@[simp] theorem text_append (l l' : List Line) : text (l ++ l') = text l ++ text l' := by
  simp [text]

@[simp] theorem text_cons (line : Line) (l : List Line) :
    text (line :: l) = line.text ++ text l := by
  simp [text]

theorem spells_plain {raw : List Char} (h : ∀ c ∈ raw, isPlain c = true) : Spells raw raw := by
  induction raw with
  | nil => exact .nil
  | cons c raw ih =>
      rw [List.forall_mem_cons] at h
      exact .plain h.1 (ih h.2)

/-- A string that is written as it is. -/
inductive Line.Verbatim : Line → Entry → Prop
  | intro {path : List String} {raw : String} (h : opensMultiline raw = false) :
      Verbatim ⟨path, .string raw⟩ (path, .str raw)

/-- Lines that are written well but for the control characters they may have, or for
being written as they are. -/
def Line.Attempts (line : Line) (entry : Entry) : Prop :=
  line.Denotes entry ∨ BarePath line.path ∧ (line.expr.Broken ∨ line.Verbatim entry)

theorem denotes_or_not {lines : List Line} {doc : Document}
    (h : List.Forall₂ Line.Attempts lines doc) :
    List.Forall₂ Line.Denotes lines doc ∨ ∃ before line after doc' entry,
      lines = before ++ line :: after ∧ List.Forall₂ Line.Denotes before doc' ∧ entry ∈ doc ∧
        BarePath line.path ∧ ¬line.Denotes entry ∧ (line.expr.Broken ∨ line.Verbatim entry) := by
  induction h with
  | nil => exact .inl .nil
  | @cons line entry lines doc hline _ ih =>
      by_cases hdenotes : line.Denotes entry
      · rcases ih with hlines | ⟨before, other, after, doc', entry', rfl, hbefore, hmem, hother⟩
        · exact .inl (.cons hdenotes hlines)
        · exact .inr ⟨line :: before, other, after, entry :: doc', entry', rfl,
            .cons hdenotes hbefore, List.mem_cons_of_mem _ hmem, hother⟩
      · obtain ⟨hbare, hwritten⟩ := hline.resolve_left hdenotes
        exact .inr ⟨[], line, lines, [], entry, rfl, .nil, List.mem_cons_self, hbare, hdenotes,
          hwritten⟩

/-- What is read of a text that is followed by its closing quote and a line end is not the
text, unless it is plain. -/
theorem Scanned.plain {raw before after more : List Char} (h : Scanned before raw)
    (hsplit : raw ++ '"' :: '\n' :: more = before ++ '"' :: after) :
    ∀ c ∈ raw, isPlain c = true := by
  rcases h.shorter with ⟨hplain, rfl⟩ | hlt
  · exact hplain
  · -- the string goes on past the closing quote, and the line end is in it
    exfalso
    rcases List.append_eq_append_iff.mp hsplit with ⟨rest, hbefore, hrest⟩ | ⟨rest, hraw, -⟩
    · cases rest with
      | nil =>
          rw [hbefore, List.append_nil] at hlt
          exact Nat.lt_irrefl _ hlt
      | cons c rest =>
          rw [List.cons_append, List.cons.injEq] at hrest
          cases rest with
          | nil =>
              have hquote := (List.cons.inj hrest.2).1
              exact absurd hquote (by decide)
          | cons d rest =>
              have hend : '\n' = d := (List.cons.inj hrest.2).1
              have hmem : '\n' ∈ before := by
                rw [hbefore, ← hend]
                simp
              have hcontrol := h.not_control _ hmem
              exact absurd hcontrol (by decide)
    · have hlength := congrArg List.length hraw
      rw [List.length_append] at hlength
      omega

theorem PrefixFree.unique {doc : Document} (h : PrefixFree (doc.map Prod.fst)) {path : List String}
    {leaf leaf' : Leaf} (hleaf : (path, leaf) ∈ doc) (hleaf' : (path, leaf') ∈ doc) :
    leaf = leaf' := by
  have hnodup : (doc.map Prod.fst).Nodup := by
    refine List.Pairwise.imp (fun hpair => ?_) h
    rintro rfl
    exact hpair.1 (List.prefix_refl _)
  exact (Prod.mk.inj (List.inj_on_of_nodup_map hnodup hleaf hleaf' rfl)).2

theorem Parser.parses_iff {parse : String → Option Document} (h : Parser parse)
    {lines : List Line} {doc : Document} (hlines : List.Forall₂ Line.Attempts lines doc) :
    (∃ doc', parse (text lines) = some doc' ∧ doc'.Perm doc) ↔
      List.Forall₂ Line.Denotes lines doc ∧ PrefixFree (doc.map Prod.fst) := by
  constructor
  · rintro ⟨doc', hparse, hperm⟩
    rcases denotes_or_not hlines with hdenotes |
      ⟨before, line, after, entries, entry, rfl, hbefore, hmem, hbare, hnot, hwritten⟩
    · refine ⟨hdenotes, ?_⟩
      by_contra hconflict
      rw [h.conflict hdenotes hconflict] at hparse
      contradiction
    · exfalso
      rw [text_append, text_cons, ← String.append_assoc] at hparse
      rcases hwritten with hbroken | hsingle
      · rw [h.broken hbefore hbare hbroken (text after)] at hparse
        contradiction
      · obtain @⟨path, raw, hsingle⟩ := hsingle
        obtain ⟨read, s, rest, hsplit, hscanned, hread⟩ :=
          h.string hbefore hbare hsingle hparse
        have hsame := (h.table hparse).unique hread (hperm.mem_iff.mpr hmem)
        have hs : s = raw.toList := by
          rw [← Leaf.str.inj hsame, String.toList_ofList]
        subst hs
        exact hnot ⟨rfl, hbare, .string (spells_plain (hscanned.plain hsplit))⟩
  · rintro ⟨hdenotes, hfree⟩
    exact h.reads hdenotes hfree

/-! ### Escaping -/

theorem Spells.append {raw raw' s s' : List Char} (h : Spells raw s) (h' : Spells raw' s') :
    Spells (raw ++ raw') (s ++ s') := by
  induction h with
  | nil => exact h'
  | plain hplain _ ih => exact .plain hplain ih
  | escape hescape _ ih => exact .escape hescape ih
  | unicode hchar _ ih => exact .unicode hchar ih

theorem not_isControl {c : Char} (h : 0x20 ≤ c.toNat ∧ c.toNat < 0x7F) :
    isControl c = false := by
  simp only [isControl, Bool.or_eq_false_iff, Bool.and_eq_false_iff, decide_eq_false_iff_not]
  omega

theorem hexDigit_not_control {c : Char} {n : ℕ} (h : hexDigit c = some n) :
    isControl c = false := by
  apply not_isControl
  unfold hexDigit at h
  grind

theorem hexChar_not_control {a b c d char : Char} (h : hexChar a b c d = some char) :
    ∀ digit ∈ [a, b, c, d], isControl digit = false := by
  simp only [hexChar, Option.bind_eq_bind, Option.bind_eq_some_iff] at h
  obtain ⟨_, ha, _, hb, _, hc, _, hd, -⟩ := h
  simp [hexDigit_not_control ha, hexDigit_not_control hb, hexDigit_not_control hc,
    hexDigit_not_control hd]

theorem escape_not_control {e c : Char} (h : escapes.lookup e = some c) :
    isControl e = false := by
  have hall : ∀ entry ∈ escapes, isControl entry.1 = false := by decide
  obtain ⟨before, after, hsplit, -⟩ := List.lookup_eq_some_iff.mp h
  exact hall (e, c) (hsplit ▸ List.mem_append_right before List.mem_cons_self)

/-- Nothing that is spelled well has a control character. -/
theorem Spells.not_control {raw s : List Char} (h : Spells raw s) :
    ∀ c ∈ raw, isControl c = false := by
  induction h with
  | nil => simp
  | plain hplain _ ih =>
      refine List.forall_mem_cons.mpr ⟨?_, ih⟩
      simp_all [isPlain]
  | escape hescape _ ih =>
      exact List.forall_mem_cons.mpr
        ⟨by decide, List.forall_mem_cons.mpr ⟨escape_not_control hescape, ih⟩⟩
  | unicode hchar _ ih =>
      have hdigits := hexChar_not_control hchar
      refine List.forall_mem_cons.mpr ⟨by decide, List.forall_mem_cons.mpr ⟨by decide, ?_⟩⟩
      simp only [List.forall_mem_cons] at hdigits ⊢
      exact ⟨hdigits.1, hdigits.2.1, hdigits.2.2.1, hdigits.2.2.2.1, ih⟩

/-- A way to escape characters one by one: each is spelled, or it is a control
character and left as it is. -/
def Escaping (f : Char → List Char) : Prop :=
  ∀ c, Spells (f c) [c] ∨ f c = [c] ∧ isControl c = true

section Escaping

variable {f : Char → List Char} (hf : Escaping f)

include hf

theorem Escaping.spells_iff (s : List Char) :
    Spells (s.flatMap f) s ↔ ∀ c ∈ s, isControl c = true → f c ≠ [c] := by
  constructor
  · intro h c hc hcontrol hsame
    have hmem : c ∈ s.flatMap f := List.mem_flatMap.mpr ⟨c, hc, by simp [hsame]⟩
    rw [h.not_control c hmem] at hcontrol
    contradiction
  · intro h
    induction s with
    | nil => exact .nil
    | cons c s ih =>
        rw [List.forall_mem_cons] at h
        have hc : Spells (f c) [c] := (hf c).resolve_right fun hsame => h.1 hsame.2 hsame.1
        exact hc.append (ih h.2)

theorem Escaping.spells_or_broken (s : List Char) :
    Spells (s.flatMap f) s ∨ Broken (s.flatMap f) := by
  induction s with
  | nil => exact .inl .nil
  | cons c s ih =>
      rw [List.flatMap_cons]
      rcases hf c with hc | ⟨hsame, hcontrol⟩
      · rcases ih with hs | ⟨before, d, after, s', hraw, hbefore, hcontrol⟩
        · exact .inl (hc.append hs)
        · refine .inr ⟨f c ++ before, d, after, [c] ++ s', ?_, hc.append hbefore, hcontrol⟩
          rw [hraw, List.append_assoc]
      · exact .inr ⟨[], c, s.flatMap f, [], by simp [hsame], .nil, hcontrol⟩

end Escaping

/-- An array whose strings are spelled, but for the control characters. -/
theorem strings_denotes_or_broken {gap : String} (hgap : Blank gap) {raws elems : List String}
    (h : List.Forall₂ (fun (raw s : String) => Spells raw.toList s.toList ∨ Broken raw.toList)
      raws elems) :
    (Expr.strings gap raws).Denotes (.strs elems) ∨ (Expr.strings gap raws).Broken := by
  have hsplit : List.Forall₂ (fun (raw s : String) => Spells raw.toList s.toList) raws elems ∨
      ∃ (before : List String) (raw : String) (after elems' : List String),
        raws = before ++ raw :: after ∧
          List.Forall₂ (fun (raw s : String) => Spells raw.toList s.toList) before elems' ∧
          Broken raw.toList := by
    induction h with
    | nil => exact .inl .nil
    | @cons raw s raws elems hraw _ ih =>
        rcases hraw with hraw | hraw
        · rcases ih with hraws | ⟨before, broken, after, elems', rfl, hbefore, hbroken⟩
          · exact .inl (.cons hraw hraws)
          · exact .inr ⟨raw :: before, broken, after, s :: elems', rfl, .cons hraw hbefore,
              hbroken⟩
        · exact .inr ⟨[], raw, raws, [], rfl, .nil, hraw⟩
  rcases hsplit with hraws | ⟨before, raw, after, elems', rfl, hbefore, hbroken⟩
  · exact .inl (.strings hgap hraws)
  · exact .inr (.strings hgap hbefore hbroken)

/-! ### A parser of lines -/

/-- A string after its opening quote, and what is left. -/
def scan : List Char → Option (List Char × List Char)
  | [] => none
  | '"' :: rest => some ([], rest)
  | '\\' :: 'u' :: a :: b :: c :: d :: rest =>
      (hexChar a b c d).bind fun char => (scan rest).map fun r => (char :: r.1, r.2)
  | '\\' :: e :: rest =>
      (escapes.lookup e).bind fun char => (scan rest).map fun r => (char :: r.1, r.2)
  | c :: rest => if isPlain c then (scan rest).map fun r => (c :: r.1, r.2) else none

theorem scan_plain {c : Char} (h : isPlain c = true) (rest : List Char) :
    scan (c :: rest) = (scan rest).map fun r => (c :: r.1, r.2) := by
  have hquote : c ≠ '"' := by rintro rfl; contradiction
  have hslash : c ≠ '\\' := by rintro rfl; contradiction
  rw [scan]
  · rw [if_pos h]
  all_goals simp_all

theorem scan_escape {e c : Char} (h : escapes.lookup e = some c) (rest : List Char) :
    scan ('\\' :: e :: rest) = (scan rest).map fun r => (c :: r.1, r.2) := by
  have hu : e ≠ 'u' := by rintro rfl; contradiction
  rw [scan, h, Option.bind_some]
  simp_all

theorem scan_control {c : Char} (h : isControl c = true) (rest : List Char) :
    scan (c :: rest) = none := by
  have hquote : c ≠ '"' := by rintro rfl; contradiction
  have hslash : c ≠ '\\' := by rintro rfl; contradiction
  rw [scan]
  · simp [isPlain, h]
  all_goals simp_all

/-- What is spelled well is read, and what follows it is read on. -/
theorem Spells.scan_append {raw s : List Char} (h : Spells raw s) (rest : List Char) :
    scan (raw ++ rest) = (scan rest).map fun r => (s ++ r.1, r.2) := by
  induction h with
  | nil => simp
  | plain hplain _ ih => simp [scan_plain hplain, ih, Function.comp_def]
  | escape hescape _ ih => simp [scan_escape hescape, ih, Function.comp_def]
  | unicode hchar _ ih => simp [scan, hchar, ih, Function.comp_def]

theorem Spells.scan_quote {raw s : List Char} (h : Spells raw s) (rest : List Char) :
    scan (raw ++ '"' :: rest) = some (s, rest) := by
  simp [h.scan_append, scan]

theorem Broken.scan {raw : List Char} (h : Broken raw) (rest : List Char) :
    Toml.scan (raw ++ rest) = none := by
  obtain ⟨before, c, after, s, rfl, hbefore, hcontrol⟩ := h
  rw [List.append_assoc, hbefore.scan_append, List.cons_append, scan_control hcontrol]
  rfl

/-- What is scanned was spelled. -/
theorem scan_sound {cs s rest : List Char} (h : scan cs = some (s, rest)) :
    ∃ raw, cs = raw ++ '"' :: rest ∧ Spells raw s := by
  fun_induction scan cs generalizing s with
  | case1 => contradiction
  | case2 rest' =>
      cases h
      exact ⟨[], rfl, .nil⟩
  | case3 a b c d rest' ih =>
      obtain ⟨char, hchar, h⟩ := Option.bind_eq_some_iff.mp h
      obtain ⟨⟨s', rest''⟩, hscan, heq⟩ := Option.map_eq_some_iff.mp h
      cases heq
      obtain ⟨raw, rfl, hspells⟩ := ih hscan
      exact ⟨'\\' :: 'u' :: a :: b :: c :: d :: raw, rfl, .unicode hchar hspells⟩
  | case4 e rest' _ ih =>
      obtain ⟨char, hchar, h⟩ := Option.bind_eq_some_iff.mp h
      obtain ⟨⟨s', rest''⟩, hscan, heq⟩ := Option.map_eq_some_iff.mp h
      cases heq
      obtain ⟨raw, rfl, hspells⟩ := ih hscan
      exact ⟨'\\' :: e :: raw, rfl, .escape hchar hspells⟩
  | case5 c rest' _ _ _ hplain ih =>
      obtain ⟨⟨s', rest''⟩, hscan, heq⟩ := Option.map_eq_some_iff.mp h
      cases heq
      obtain ⟨raw, rfl, hspells⟩ := ih hscan
      exact ⟨c :: raw, rfl, .plain hplain hspells⟩
  | case6 => contradiction

theorem Spells.scanned {raw s : List Char} (h : Spells raw s) : Scanned raw s := by
  refine ⟨h.not_control, ?_⟩
  have hle : ∀ {raw s : List Char}, Spells raw s → s.length ≤ raw.length := by
    intro raw s h
    induction h with
    | nil => exact Nat.le_refl _
    | plain _ _ ih => exact Nat.succ_le_succ ih
    | escape _ _ ih =>
        simp only [List.length_cons]
        omega
    | unicode _ _ ih =>
        simp only [List.length_cons]
        omega
  induction h with
  | nil => exact .inl ⟨by simp, rfl⟩
  | plain hplain _ ih =>
      rcases ih with ⟨hall, rfl⟩ | hlt
      · exact .inl ⟨List.forall_mem_cons.mpr ⟨hplain, hall⟩, rfl⟩
      · exact .inr (Nat.succ_lt_succ hlt)
  | escape _ hrest _ =>
      have := hle hrest
      simp only [List.length_cons]
      omega
  | unicode _ hrest _ =>
      have := hle hrest
      simp only [List.length_cons]
      omega

theorem spells_self_iff {raw : List Char} :
    Spells raw raw ↔ ∀ c ∈ raw, isPlain c = true := by
  constructor
  · intro h
    rcases h.scanned.shorter with ⟨hplain, -⟩ | hlt
    · exact hplain
    · exact absurd hlt (Nat.lt_irrefl _)
  · exact spells_plain

theorem opensMultiline_of_plain {raw : String} (h : ∀ c ∈ raw.toList, isPlain c = true) :
    opensMultiline raw = false := by
  unfold opensMultiline
  cases hraw : raw.toList with
  | nil => decide
  | cons c rest =>
      have hquote : c ≠ '"' := by
        rintro rfl
        have hplain := h '"' (hraw ▸ List.mem_cons_self)
        exact absurd hplain (by decide)
      show ('"' == c && _) = false
      rw [beq_eq_false_iff_ne.mpr hquote.symm, Bool.false_and]

/-- The strings of an array that is not empty, and what is left after it; `n`
bounds their number. -/
def readItems : ℕ → List Char → Option (List String × List Char)
  | n + 1, '"' :: rest =>
      (scan rest).bind fun r =>
        match r.2 with
        | ']' :: rest => some ([String.ofList r.1], rest)
        | ',' :: rest =>
            (readItems n (rest.dropWhile (· = ' '))).map fun items =>
              (String.ofList r.1 :: items.1, items.2)
        | _ => none
  | _, _ => none

def readExpr : List Char → Option (Leaf × List Char)
  | 't' :: 'r' :: 'u' :: 'e' :: rest => some (.bool true, rest)
  | 'f' :: 'a' :: 'l' :: 's' :: 'e' :: rest => some (.bool false, rest)
  | '"' :: rest => (scan rest).map fun r => (.str (String.ofList r.1), r.2)
  | '[' :: ']' :: rest => some (.strs [], rest)
  | '[' :: rest => (readItems rest.length rest).map fun r => (.strs r.1, r.2)
  | _ => none

/-- The keys of a path, of the first of which `key` has been read. -/
def readPath (key : List Char) : List Char → Option (List String × List Char)
  | ' ' :: '=' :: ' ' :: rest => if key = [] then none else some ([String.ofList key], rest)
  | '.' :: rest =>
      if key = [] then none
      else (readPath [] rest).map fun r => (String.ofList key :: r.1, r.2)
  | c :: rest => if isBareChar c then readPath (key ++ [c]) rest else none
  | [] => none

/-- The lines of a text; `n` bounds their number. -/
def readLines : ℕ → List Char → Option Document
  | _, [] => some []
  | 0, _ => none
  | n + 1, text =>
      (readPath [] text).bind fun path =>
        (readExpr path.2).bind fun expr =>
          match expr.2 with
          | '\n' :: rest => (readLines n rest).map fun doc => (path.1, expr.1) :: doc
          | _ => none

def parse (s : String) : Option Document :=
  (readLines s.length s.toList).filter fun doc => PrefixFree (doc.map Prod.fst)

/-! ### What the parser reads -/

/-- The rest of an array after its first string. -/
def itemsAfter (gap : String) (raws : List String) : List Char :=
  raws.flatMap fun raw => ',' :: gap.toList ++ '"' :: raw.toList ++ ['"']

theorem toList_intercalate_quoted (gap raw : String) (raws : List String) :
    (("," ++ gap).intercalate ((raw :: raws).map quoted)).toList =
      '"' :: raw.toList ++ '"' :: itemsAfter gap raws := by
  induction raws generalizing raw with
  | nil => simp [quoted, itemsAfter]
  | cons raw' raws ih =>
      rw [List.map_cons, List.map_cons, String.intercalate_cons_cons, ← List.map_cons,
        String.toList_append, ih]
      simp [quoted, itemsAfter]

theorem dropWhile_gap {gap : String} (hgap : Blank gap) (rest : List Char) :
    (gap.toList ++ '"' :: rest).dropWhile (· = ' ') = '"' :: rest := by
  rw [List.dropWhile_append_of_pos (by simpa [Blank] using hgap)]
  simp

theorem readItems_append {gap : String} (hgap : Blank gap) {raws elems : List String}
    (h : List.Forall₂ (fun raw s => Spells raw.toList s.toList) raws elems) {raw s : String}
    (hraw : Spells raw.toList s.toList) {n : ℕ} (hn : raws.length < n) (rest : List Char) :
    readItems n ('"' :: raw.toList ++ '"' :: (itemsAfter gap raws ++ ']' :: rest)) =
      some (s :: elems, rest) := by
  induction h generalizing raw s n with
  | nil =>
      obtain ⟨n, rfl⟩ := Nat.exists_eq_add_one_of_ne_zero (Nat.ne_zero_of_lt hn)
      simp [readItems, itemsAfter, hraw.scan_quote]
  | @cons raw' s' raws elems hraw' _ ih =>
      obtain ⟨n, rfl⟩ := Nat.exists_eq_add_one_of_ne_zero (Nat.ne_zero_of_lt hn)
      have hrest := ih hraw' (Nat.lt_of_succ_lt_succ hn)
      simp only [readItems, List.cons_append, hraw.scan_quote, Option.bind_some, itemsAfter,
        List.flatMap_cons, List.append_assoc, dropWhile_gap hgap] at hrest ⊢
      simp [hrest]

theorem readItems_broken {gap : String} (hgap : Blank gap) {before elems : List String}
    (h : List.Forall₂ (fun raw s => Spells raw.toList s.toList) before elems) {raw : String}
    (hraw : Broken raw.toList) {after : List String} (rest : List Char) :
    ∀ {first : String} {others : List String} (n : ℕ), first :: others = before ++ raw :: after →
      readItems n ('"' :: first.toList ++ '"' :: (itemsAfter gap others ++ rest)) = none := by
  induction h with
  | nil =>
      rintro first others n ⟨⟩
      cases n with
      | zero => rfl
      | succ n => simp [readItems, hraw.scan]
  | @cons raw' s' before elems hraw' _ ih =>
      intro first others n hsplit
      rw [List.cons_append, List.cons.injEq] at hsplit
      obtain ⟨rfl, rfl⟩ := hsplit
      cases n with
      | zero => rfl
      | succ n =>
          obtain ⟨second, others, hothers⟩ := List.exists_cons_of_ne_nil
            (show before ++ raw :: after ≠ [] by simp)
          have hrest := ih n hothers.symm
          rw [hothers]
          simp only [readItems, List.cons_append, hraw'.scan_quote, Option.bind_some, itemsAfter,
            List.flatMap_cons, List.append_assoc, dropWhile_gap hgap] at hrest ⊢
          simp [hrest]

theorem length_le_itemsAfter (gap : String) (raws : List String) :
    raws.length ≤ (itemsAfter gap raws).length := by
  induction raws with
  | nil => simp
  | cons raw raws ih =>
      simp only [itemsAfter, List.flatMap_cons, List.length_append, List.length_cons] at ih ⊢
      omega

/-- An array that is not empty, after its opening bracket. -/
theorem readExpr_strings (gap raw : String) (raws : List String) (rest : List Char) :
    readExpr ((Expr.strings gap (raw :: raws)).text.toList ++ rest) =
      let items := '"' :: raw.toList ++ '"' :: (itemsAfter gap raws ++ ']' :: rest)
      (readItems items.length items).map fun r => (.strs r.1, r.2) := by
  simp only [Expr.text, String.toList_append, toList_intercalate_quoted]
  simp [readExpr]

theorem Expr.Denotes.read {expr : Expr} {leaf : Leaf} (h : expr.Denotes leaf)
    (rest : List Char) : readExpr (expr.text.toList ++ rest) = some (leaf, rest) := by
  cases h with
  | bool b => cases b <;> simp [Expr.text, readExpr]
  | string h => simp [Expr.text, quoted, readExpr, h.scan_quote]
  | @strings gap raws elems hgap h =>
      cases h with
      | nil => simp [Expr.text, readExpr]
      | @cons raw s raws elems hraw hraws =>
          have hlength := length_le_itemsAfter gap raws
          rw [readExpr_strings]
          simp only
          rw [readItems_append hgap hraws hraw]
          · rfl
          · simp only [List.length_append, List.length_cons]
            omega

theorem Expr.Broken.read {expr : Expr} (h : expr.Broken) (rest : List Char) :
    readExpr (expr.text.toList ++ rest) = none := by
  cases h with
  | string h => simp [Expr.text, quoted, readExpr, h.scan]
  | @strings gap raw before after elems hgap hbefore h =>
      obtain ⟨first, others, hsplit⟩ := List.exists_cons_of_ne_nil
        (show before ++ raw :: after ≠ [] by simp)
      rw [hsplit, readExpr_strings]
      simp only
      rw [readItems_broken hgap hbefore h _ _ hsplit.symm]
      rfl

theorem readPath_bare {cs : List Char} (h : ∀ c ∈ cs, isBareChar c = true) (key rest : List Char) :
    readPath key (cs ++ rest) = readPath (key ++ cs) rest := by
  induction cs generalizing key with
  | nil => simp
  | cons c cs ih =>
      rw [List.forall_mem_cons] at h
      have hdot : c ≠ '.' := by
        rintro rfl
        exact absurd h.1 (by decide)
      have hblank : c ≠ ' ' := by
        rintro rfl
        exact absurd h.1 (by decide)
      rw [List.cons_append, readPath]
      · rw [if_pos h.1, ih h.2, List.append_assoc, List.singleton_append]
      all_goals simp_all

theorem isBareKey_iff {key : String} :
    isBareKey key = true ↔ key.toList ≠ [] ∧ ∀ c ∈ key.toList, isBareChar c = true := by
  simp [isBareKey]

theorem BarePath.read {path : List String} (h : BarePath path) (rest : List Char) :
    readPath [] ((".".intercalate path).toList ++ (" = ".toList ++ rest)) = some (path, rest) := by
  obtain ⟨hne, hbare⟩ := h
  induction path with
  | nil => contradiction
  | cons key path ih =>
      obtain ⟨hkey, hchars⟩ := isBareKey_iff.mp (hbare key List.mem_cons_self)
      cases path with
      | nil =>
          rw [String.intercalate_singleton, readPath_bare hchars]
          simp [readPath, hkey]
      | cons key' path =>
          have hrest := ih (by simp) fun k hk => hbare k (List.mem_cons_of_mem _ hk)
          rw [String.intercalate_cons_cons, String.toList_append, String.toList_append,
            List.append_assoc, List.append_assoc, readPath_bare hchars, List.nil_append,
            show ".".toList = ['.'] from rfl, List.singleton_append, readPath, if_neg hkey, hrest]
          simp

/-- The characters of a line, as its parts are read. -/
theorem toList_assignment (path : List String) (value : String) (rest : List Char) :
    (assignment path value).toList ++ rest =
      (".".intercalate path).toList ++ (" = ".toList ++ (value.toList ++ '\n' :: rest)) := by
  simp [assignment]

theorem assignment_ne_nil (path : List String) (value : String) (rest : List Char) :
    (assignment path value).toList ++ rest ≠ [] := by
  rw [toList_assignment]
  simp

theorem readLines_cons {line : Line} {entry : Entry} (h : line.Denotes entry) (n : ℕ)
    (rest : List Char) : readLines (n + 1) (line.text.toList ++ rest) =
      (readLines n rest).map (entry :: ·) := by
  obtain ⟨c, cs, hcs⟩ := List.exists_cons_of_ne_nil
    (assignment_ne_nil line.path line.expr.text rest)
  have hpath : readPath [] (c :: cs) = some (entry.1, line.expr.text.toList ++ '\n' :: rest) := by
    rw [← hcs, toList_assignment, h.bare.read, h.path]
  rw [Line.text, hcs, readLines, hpath, Option.bind_some, h.expr.read, Option.bind_some]
  · rfl
  · simp

theorem readLines_broken {line : Line} (hbare : BarePath line.path) (h : line.expr.Broken) (n : ℕ)
    (rest : List Char) : readLines n (line.text.toList ++ rest) = none := by
  obtain ⟨c, cs, hcs⟩ := List.exists_cons_of_ne_nil
    (assignment_ne_nil line.path line.expr.text rest)
  have hpath : readPath [] (c :: cs) =
      some (line.path, line.expr.text.toList ++ '\n' :: rest) := by
    rw [← hcs, toList_assignment, hbare.read]
  rw [Line.text, hcs]
  cases n with
  | zero => simp [readLines]
  | succ n =>
      rw [readLines, hpath, Option.bind_some, h.read, Option.bind_none]
      simp

/-- A string that is read, whatever it is. -/
theorem readLines_string {path : List String} (hbare : BarePath path) {raw : String} {n : ℕ}
    {more : List Char} {doc : Document}
    (h : readLines n ((Line.mk path (.string raw)).text.toList ++ more) = some doc) :
    ∃ s rest, scan (raw.toList ++ '"' :: '\n' :: more) = some (s, rest) ∧
      (path, .str (String.ofList s)) ∈ doc := by
  obtain ⟨c, cs, hcs⟩ := List.exists_cons_of_ne_nil
    (assignment_ne_nil path (quoted raw) more)
  have hpath : readPath [] (c :: cs) =
      some (path, '"' :: (raw.toList ++ '"' :: '\n' :: more)) := by
    rw [← hcs, toList_assignment, hbare.read]
    simp [quoted]
  rw [Line.text, Expr.text, hcs] at h
  cases n with
  | zero => simp [readLines] at h
  | succ n =>
      rw [readLines, hpath, Option.bind_some] at h
      · obtain ⟨⟨leaf, rest⟩, hexpr, hrest⟩ := Option.bind_eq_some_iff.mp h
        obtain ⟨⟨s, rest'⟩, hscan, heq⟩ := Option.map_eq_some_iff.mp hexpr
        cases heq
        split at hrest
        · obtain ⟨doc', -, rfl⟩ := Option.map_eq_some_iff.mp hrest
          exact ⟨s, _, hscan, List.mem_cons_self⟩
        · contradiction
      · simp

theorem readLines_append {lines : List Line} {doc : Document}
    (h : List.Forall₂ Line.Denotes lines doc) (rest : List Char) :
    ∀ n, (readLines (lines.length + n) ((text lines).toList ++ rest)) =
      (readLines n rest).map (doc ++ ·) := by
  induction h with
  | nil => intro n; simp [text]
  | @cons line entry lines doc hline _ ih =>
      intro n
      rw [text_cons, String.toList_append, List.append_assoc, List.length_cons,
        Nat.add_right_comm, readLines_cons hline, ih]
      simp [Function.comp_def]

theorem length_le_text (lines : List Line) : lines.length ≤ (text lines).length := by
  induction lines with
  | nil => simp
  | cons line lines ih =>
      have hpos : 0 < line.text.length := by
        rw [Line.text, assignment, String.length_append]
        exact Nat.add_pos_right _ (by decide)
      rw [text_cons, String.length_append, List.length_cons]
      omega

theorem readLines_text {lines : List Line} {doc : Document}
    (h : List.Forall₂ Line.Denotes lines doc) :
    readLines (text lines).length (text lines).toList = some doc := by
  obtain ⟨n, hn⟩ := Nat.exists_eq_add_of_le (length_le_text lines)
  have hread := readLines_append h [] n
  rw [List.append_nil, ← hn] at hread
  rw [hread]
  cases n <;> simp [readLines]

theorem parse_isParser : Parser parse where
  reads {lines doc} h hfree := by
    refine ⟨doc, ?_, List.Perm.refl doc⟩
    rw [parse, readLines_text h, Option.filter_some, if_pos (decide_eq_true hfree)]
  conflict {lines doc} h hconflict := by
    rw [parse, readLines_text h, Option.filter_some, if_neg (by simpa using hconflict)]
  broken {lines doc line} h hbare hbroken more := by
    have hlength : lines.length ≤ (text lines ++ line.text ++ more).length := by
      have := length_le_text lines
      rw [String.length_append, String.length_append]
      omega
    obtain ⟨n, hn⟩ := Nat.exists_eq_add_of_le hlength
    rw [parse, hn, String.toList_append, String.toList_append, List.append_assoc,
      readLines_append h, readLines_broken hbare hbroken]
    rfl
  string {lines doc doc' path raw more} h hbare _ hparse := by
    have hlength : lines.length ≤
        (text lines ++ (Line.mk path (.string raw)).text ++ more).length := by
      have := length_le_text lines
      rw [String.length_append, String.length_append]
      omega
    obtain ⟨n, hn⟩ := Nat.exists_eq_add_of_le hlength
    obtain ⟨hread, -⟩ := Option.filter_eq_some_iff.mp hparse
    rw [hn, String.toList_append, String.toList_append, List.append_assoc,
      readLines_append h] at hread
    obtain ⟨doc'', hline, rfl⟩ := Option.map_eq_some_iff.mp hread
    obtain ⟨s, rest, hscan, hmem⟩ := readLines_string hbare hline
    obtain ⟨before, hsplit, hspells⟩ := scan_sound hscan
    exact ⟨before, s, rest, hsplit, hspells.scanned, List.mem_append_right _ hmem⟩
  table hparse := by
    obtain ⟨-, hfree⟩ := Option.filter_eq_some_iff.mp hparse
    exact of_decide_eq_true hfree

end CdvizCollector.Lib.Toml
