import CdvizCollector.Lib.Json
import CdvizCollector.Lib.Path
import CdvizCollector.Lib.Removal
import CdvizCollector.Lib.Result

/-!
The differences between the outputs of `transform` and what is expected of them
(`tools/difference.rs`).

An output `base.json.new` is compared with `base.json`. The files are listed, and the
names of a pair are made from the name of either: the endings are removed wherever they
are in it, and put back.
-/

namespace CdvizCollector.Tools.Outputs

open Lib Lib.Removal

/-! ### Files -/

/-- What is under a path: a file, or a directory or a link; and what it is read as. -/
structure Entry where
  isFile : Bool
  text : Except String String

abbrev FileSystem := List Char → Option Entry

/-- `fs::read_to_string`. -/
def FileSystem.readToString (fs : FileSystem) (path : List Char) : Except String String :=
  match fs path with
  | some entry => entry.text
  | none => .error "No such file or directory (os error 2)"

def json : List Char := ".json".toList

def jsonNew : List Char := ".json.new".toList

def extractFilename (path : List Char) : Except String (List Char) :=
  let name := Path.fileName path
  if name = [] ∨ name = "..".toList then .error "could not extract filename" else .ok name

/-- `Path::with_file_name`. -/
def withFileName (path name : List Char) : List Char := (Path.split path).1 ++ name

/-! ### Comparisons -/

structure Comparison where
  label : List Char
  expected : List Char
  actual : List Char
deriving DecidableEq

inductive Difference where
  | presence (expected actual : Bool)
  | stringContent (expected actual : String)
deriving DecidableEq

def baseName (filename : List Char) : List Char := removeAll json (removeAll jsonNew filename)

def Comparison.fromXxxJson (path : List Char) : Except String Comparison := do
  let filename ← extractFilename path
  let base := baseName filename
  return {
    label := withFileName path base
    expected := withFileName path (base ++ json)
    actual := withFileName path (base ++ jsonNew) }

/-- What is used of `serde_json`. -/
structure SerdeJson where
  fromStr : String → Option Json
  toStringPretty : Json → Option String

/-- What is parsed can be printed, and is not printed as another value. -/
structure SerdeJson.Lawful (S : SerdeJson) : Prop where
  total : ∀ {content value}, S.fromStr content = some value →
    (S.toStringPretty value).isSome = true
  injective : ∀ {content content' value value'}, S.fromStr content = some value →
    S.fromStr content' = some value' → S.toStringPretty value = S.toStringPretty value' →
    value = value'

section Find

variable (S : SerdeJson) (fs : FileSystem)

def normalizeJson (content : String) : Option String :=
  (S.fromStr content).bind S.toStringPretty

def compareContents (expected actual : String) : Option Difference :=
  match normalizeJson S expected, normalizeJson S actual with
  | some e, some a => if e ≠ a then some (.stringContent e a) else none
  | _, _ => if expected ≠ actual then some (.stringContent expected actual) else none

/-- What the loop of `find_differences` adds for a file. -/
def findDifference (path : List Char) : Except String (Option (Comparison × Difference)) := do
  let filename ← extractFilename path
  if jsonNew.isSuffixOf filename then
    let comparison ← Comparison.fromXxxJson path
    if (fs comparison.expected).isSome then
      let expected ← fs.readToString comparison.expected
      let actual ← fs.readToString comparison.actual
      return (compareContents S expected actual).map fun difference => (comparison, difference)
    else return some (comparison, .presence false true)
  else if json.isSuffixOf filename then
    let comparison ← Comparison.fromXxxJson path
    -- whatever has the name of the output
    if (fs comparison.actual).isSome then return none
    else return some (comparison, .presence true false)
  else return none

/-- The `HashMap` of the differences; nothing depends on the order of its entries. -/
abbrev Differences := List (Comparison × Difference)

def addDifference (differences : Differences) :
    Option (Comparison × Difference) → Differences
  | some (comparison, difference) =>
      (comparison, difference) :: Assoc.remove comparison differences
  | none => differences

/-- A step of the loop. -/
def compareFile (differences : Differences) (path : List Char) : Except String Differences := do
  let found ← findDifference S fs path
  return addDifference differences found

def findDifferences (files : List (List Char)) : Except String Differences :=
  files.foldlM (compareFile S fs) []

end Find

/-! ### What is claimed of them -/

/-- What `list_output_files` lists, in any order: the files with one of the endings. -/
def Listing (fs : FileSystem) (files : List (List Char)) : Prop :=
  ∀ path, path ∈ files ↔
    (∃ entry, fs path = some entry ∧ entry.isFile = true) ∧ (json <:+ path ∨ jsonNew <:+ path)

/-- A listed file is one of the pair. -/
def IsBase (files : List (List Char)) (base : List Char) : Prop :=
  base ++ json ∈ files ∨ base ++ jsonNew ∈ files

/-- Equal values, or equal texts when one is not JSON. -/
def SameContent (S : SerdeJson) (expected actual : String) : Prop :=
  match S.fromStr expected, S.fromStr actual with
  | some e, some a => e = a
  | _, _ => expected = actual

/-- Both files of the pair are there, with the same content. -/
def Same (S : SerdeJson) (fs : FileSystem) (base : List Char) : Prop :=
  ∃ expected actual, fs.readToString (base ++ json) = .ok expected ∧
    fs.readToString (base ++ jsonNew) = .ok actual ∧ SameContent S expected actual

structure Exact (S : SerdeJson) (fs : FileSystem) (files : List (List Char)) : Prop where
  empty_iff : findDifferences S fs files = .ok [] ↔ ∀ base, IsBase files base → Same S fs base
  named : ∀ differences, findDifferences S fs files = .ok differences →
    ∀ comparison difference, (comparison, difference) ∈ differences →
      ∃ base, IsBase files base ∧ comparison.expected = base ++ json ∧
        comparison.actual = base ++ jsonNew

/-! ### Names -/

theorem borderless_json : Borderless json := by decide

theorem jsonNew_not_occurs {stem : List Char} (h : ¬ json <:+: stem) :
    ¬ jsonNew <:+: stem ++ json := by
  rintro ⟨front, back, heq⟩
  have hback : ".new".toList ++ back = [] :=
    borderless_json.back_eq_nil h (show _ = front ++ _ by
      rw [← heq, List.append_assoc]
      rfl)
  exact absurd (List.append_eq_nil_iff.mp hback).1 (by decide)

/-- The endings are removed and nothing else, unless one is in the stem. -/
theorem baseName_json_iff {stem : List Char} :
    baseName (stem ++ json) = stem ↔ ¬ json <:+: stem := by
  constructor
  · intro h hoccurs
    have hlength := congrArg List.length h
    have hstem := length_removeAll_of_infix (by decide) hoccurs
    by_cases hnew : jsonNew <:+: stem ++ json
    · have hremoved := length_removeAll_of_infix (by decide) hnew
      have hle := length_removeAll_le json (removeAll jsonNew (stem ++ json))
      have hlong : json.length + 4 = jsonNew.length := by decide
      rw [List.length_append] at hremoved
      rw [baseName] at hlength
      omega
    · have hsplit := borderless_json.removeAll_append (by decide) stem []
      rw [baseName, removeAll_of_not_occurs hnew] at hlength
      rw [List.append_nil, removeAll_nil, List.append_nil] at hsplit
      have hpos : 0 < json.length := by decide
      rw [hsplit] at hlength
      omega
  · intro h
    have hsplit := borderless_json.removeAll_append (by decide) stem []
    rw [List.append_nil, removeAll_nil, List.append_nil] at hsplit
    rw [baseName, removeAll_of_not_occurs (jsonNew_not_occurs h), hsplit, removeAll_of_not_occurs h]

theorem baseName_jsonNew_iff {stem : List Char} :
    baseName (stem ++ jsonNew) = stem ↔ ¬ json <:+: stem := by
  have hborderless : Borderless jsonNew := by decide
  have hsplit := hborderless.removeAll_append (by decide) stem []
  rw [List.append_nil, removeAll_nil, List.append_nil] at hsplit
  rw [baseName, hsplit]
  constructor
  · intro h hoccurs
    have hlength := congrArg List.length h
    by_cases hnew : jsonNew <:+: stem
    · have hremoved := length_removeAll_of_infix (by decide) hnew
      have hle := length_removeAll_le json (removeAll jsonNew stem)
      have hpos : 0 < jsonNew.length := by decide
      omega
    · rw [removeAll_of_not_occurs hnew] at hlength
      have hremoved := length_removeAll_of_infix (by decide) hoccurs
      have hpos : 0 < json.length := by decide
      omega
  · intro h
    have hnew : ¬ jsonNew <:+: stem := fun hoccurs =>
      h (List.IsInfix.trans ⟨[], ".new".toList, rfl⟩ hoccurs)
    rw [removeAll_of_not_occurs hnew, removeAll_of_not_occurs h]

/-! ### One file -/

/-- The comparison that is made for a file of a pair, from what its name is taken for. -/
def rebuilt (base ending : List Char) : Comparison :=
  let front := (Path.split base).1
  let name := baseName (Path.fileName base ++ ending)
  ⟨front ++ name, front ++ (name ++ json), front ++ (name ++ jsonNew)⟩

theorem rebuilt_of_baseName {base ending : List Char}
    (h : baseName (Path.fileName base ++ ending) = Path.fileName base) :
    rebuilt base ending = ⟨base, base ++ json, base ++ jsonNew⟩ := by
  have hbase := (Path.split_spec base).2.2
  simp only [rebuilt, h, ← List.append_assoc, hbase]

theorem split_append_ending {base ending : List Char} (h : '/' ∉ ending) :
    Path.split (base ++ ending) = ((Path.split base).1, Path.fileName base ++ ending) := by
  obtain ⟨hfront, hname, hbase⟩ := Path.split_spec base
  have hslash : '/' ∉ Path.fileName base ++ ending := by
    simp [hname, h]
  conv_lhs => rw [← hbase, List.append_assoc]
  rw [Path.split_append hfront hslash]

theorem extractFilename_append {base ending : List Char} (h : '/' ∉ ending)
    (hlong : 2 < ending.length) :
    extractFilename (base ++ ending) = .ok (Path.fileName base ++ ending) := by
  have hname : Path.fileName (base ++ ending) = Path.fileName base ++ ending := by
    rw [Path.fileName, split_append_ending h]
  rw [extractFilename, hname]
  refine if_neg ?_
  rintro (hnil | hdots)
  · rw [(List.append_eq_nil_iff.mp hnil).2] at hlong
    contradiction
  · have hlength := congrArg List.length hdots
    rw [List.length_append] at hlength
    have htwo : "..".toList.length = 2 := by decide
    omega

theorem fromXxxJson_append {base ending : List Char} (h : '/' ∉ ending)
    (hlong : 2 < ending.length) :
    Comparison.fromXxxJson (base ++ ending) = .ok (rebuilt base ending) := by
  rw [Comparison.fromXxxJson, extractFilename_append h hlong]
  simp only [withFileName, split_append_ending h]
  rfl

theorem json_ne_jsonNew (base base' : List Char) : base ++ json ≠ base' ++ jsonNew := by
  intro heq
  have hsuffix : jsonNew <:+ base ++ json := heq ▸ List.suffix_append base' jsonNew
  have := List.suffix_of_suffix_length_le (List.suffix_append base json) hsuffix (by decide)
  exact absurd this (by decide)

section Find

variable (S : SerdeJson) (fs : FileSystem) (base : List Char)

theorem findDifference_json : findDifference S fs (base ++ json) =
    .ok (if (fs (rebuilt base json).actual).isSome then none
      else some (rebuilt base json, .presence true false)) := by
  have hnot : jsonNew.isSuffixOf (Path.fileName base ++ json) = false := by
    by_contra hsuffix
    rw [Bool.not_eq_false, List.isSuffixOf_iff_suffix] at hsuffix
    obtain ⟨front, hfront⟩ := hsuffix
    exact json_ne_jsonNew _ _ hfront.symm
  have hjson : json.isSuffixOf (Path.fileName base ++ json) = true :=
    List.isSuffixOf_iff_suffix.mpr (List.suffix_append _ _)
  rw [findDifference, extractFilename_append (by decide) (by decide),
    fromXxxJson_append (by decide) (by decide)]
  simp only [bind, Except.bind, hnot, hjson, Bool.false_eq_true, if_false, if_true]
  split <;> rfl

theorem findDifference_jsonNew : findDifference S fs (base ++ jsonNew) =
    if (fs (rebuilt base jsonNew).expected).isSome then do
      let expected ← fs.readToString (rebuilt base jsonNew).expected
      let actual ← fs.readToString (rebuilt base jsonNew).actual
      return (compareContents S expected actual).map fun difference =>
        (rebuilt base jsonNew, difference)
    else .ok (some (rebuilt base jsonNew, .presence false true)) := by
  have hnew : jsonNew.isSuffixOf (Path.fileName base ++ jsonNew) = true :=
    List.isSuffixOf_iff_suffix.mpr (List.suffix_append _ _)
  rw [findDifference, extractFilename_append (by decide) (by decide),
    fromXxxJson_append (by decide) (by decide)]
  simp only [bind, Except.bind, hnew]
  rfl

end Find

theorem compareContents_eq_none_iff {S : SerdeJson} (hS : S.Lawful) {expected actual : String} :
    compareContents S expected actual = none ↔ SameContent S expected actual := by
  unfold compareContents SameContent normalizeJson
  cases he : S.fromStr expected with
  | none => simp
  | some e =>
      cases ha : S.fromStr actual with
      | none => simp
      | some a =>
          obtain ⟨printedE, hprintedE⟩ := Option.isSome_iff_exists.mp (hS.total he)
          obtain ⟨printedA, hprintedA⟩ := Option.isSome_iff_exists.mp (hS.total ha)
          have hinjective : printedE = printedA ↔ e = a := by
            constructor
            · rintro rfl
              exact hS.injective he ha (hprintedE.trans hprintedA.symm)
            · rintro rfl
              exact Option.some.inj (hprintedE.symm.trans hprintedA)
          simp only [Option.bind_some, hprintedE, hprintedA]
          rw [← hinjective]
          simp

/-! ### All files -/

section Fold

variable {S : SerdeJson} {fs : FileSystem}

/-- The loop goes on when the step succeeds. -/
theorem fold_eq_ok_iff {path : List Char} {files : List (List Char)}
    {acc differences : Differences} :
    (path :: files).foldlM (compareFile S fs) acc = .ok differences ↔
      ∃ found, findDifference S fs path = .ok found ∧
        files.foldlM (compareFile S fs) (addDifference acc found) = .ok differences := by
  rw [List.foldlM_cons, bind_eq_ok_iff]
  constructor
  · rintro ⟨_, hstep, hrest⟩
    obtain ⟨found, hfound, rfl⟩ := bind_pure_eq_ok_iff.mp hstep
    exact ⟨found, hfound, hrest⟩
  · rintro ⟨found, hfound, hrest⟩
    exact ⟨_, bind_pure_eq_ok_iff.mpr ⟨found, hfound, rfl⟩, hrest⟩

theorem findDifferences_eq_nil_iff {files : List (List Char)} :
    findDifferences S fs files = .ok [] ↔ ∀ path ∈ files, findDifference S fs path = .ok none := by
  suffices hfold : ∀ acc : Differences, files.foldlM (compareFile S fs) acc = .ok [] ↔
      acc = [] ∧ ∀ path ∈ files, findDifference S fs path = .ok none by
    rw [findDifferences, hfold, and_iff_right rfl]
  induction files with
  | nil => simp [pure, Except.pure]
  | cons path files ih =>
      intro acc
      rw [fold_eq_ok_iff, List.forall_mem_cons]
      constructor
      · rintro ⟨found, hfound, hrest⟩
        obtain ⟨hnil, hall⟩ := (ih _).mp hrest
        cases found with
        | none => exact ⟨hnil, hfound, hall⟩
        | some found => cases hnil
      · rintro ⟨rfl, hfound, hall⟩
        exact ⟨none, hfound, (ih _).mpr ⟨rfl, hall⟩⟩

theorem exists_of_mem_findDifferences {files : List (List Char)} {differences : Differences}
    (h : findDifferences S fs files = .ok differences) {comparison : Comparison}
    {difference : Difference} (hmem : (comparison, difference) ∈ differences) :
    ∃ path ∈ files, findDifference S fs path = .ok (some (comparison, difference)) := by
  suffices hfold : ∀ acc : Differences, files.foldlM (compareFile S fs) acc = .ok differences →
        (comparison, difference) ∈ acc ∨
          ∃ path ∈ files, findDifference S fs path = .ok (some (comparison, difference)) by
    exact (hfold [] h).resolve_left List.not_mem_nil
  clear h
  induction files with
  | nil =>
      intro acc h
      cases h
      exact .inl hmem
  | cons path files ih =>
      intro acc h
      obtain ⟨found, hfound, hrest⟩ := fold_eq_ok_iff.mp h
      rcases ih _ hrest with hacc | ⟨path', hpath', hlater⟩
      · cases found with
        | none => exact .inl hacc
        | some found =>
            rcases List.mem_cons.mp hacc with heq | hacc
            · exact .inr ⟨path, List.mem_cons_self, heq ▸ hfound⟩
            · exact .inl (List.mem_filter.mp hacc).1
      · exact .inr ⟨path', List.mem_cons_of_mem _ hpath', hlater⟩

end Fold

/-! ### Exactness -/

/-- Nothing but the names of its files and of the other things in it is known of a directory. -/
structure Within (listed others : List Char → Prop) (fs : FileSystem)
    (files : List (List Char)) : Prop where
  listing : Listing fs files
  names : ∀ path ∈ files, listed path
  rest : ∀ path entry, fs path = some entry → entry.isFile = false → others path

/-- No stem has the ending in it, and beside a `base.json` no directory or link is called
`base.json.new`. -/
structure Separate (listed others : List Char → Prop) : Prop where
  stems : ∀ base, listed (base ++ json) ∨ listed (base ++ jsonNew) →
    ¬ json <:+: Path.fileName base
  plain : ∀ base, listed (base ++ json) → ¬ others (base ++ jsonNew)

section Separate

variable {S : SerdeJson} {listed others : List Char → Prop} {fs : FileSystem}
  {files : List (List Char)} {base : List Char}

theorem Separate.rebuilt (h : Separate listed others) (hfs : Within listed others fs files)
    (hbase : IsBase files base) :
    rebuilt base json = ⟨base, base ++ json, base ++ jsonNew⟩ ∧
      rebuilt base jsonNew = ⟨base, base ++ json, base ++ jsonNew⟩ := by
  have hclean := h.stems base (hbase.imp (hfs.names _) (hfs.names _))
  exact ⟨rebuilt_of_baseName (baseName_json_iff.mpr hclean),
    rebuilt_of_baseName (baseName_jsonNew_iff.mpr hclean)⟩

/-- A file is one of a pair. -/
theorem Within.exists_base (hfs : Within listed others fs files) {path : List Char}
    (hpath : path ∈ files) : ∃ base, IsBase files base ∧
      (path = base ++ json ∨ path = base ++ jsonNew) := by
  rcases ((hfs.listing path).mp hpath).2 with ⟨base, rfl⟩ | ⟨base, rfl⟩
  · exact ⟨base, .inl hpath, .inl rfl⟩
  · exact ⟨base, .inr hpath, .inr rfl⟩

theorem present_of_readToString {path : List Char} {text : String}
    (h : fs.readToString path = .ok text) : (fs path).isSome = true := by
  unfold FileSystem.readToString at h
  cases hentry : fs path with
  | some entry => rfl
  | none =>
      rw [hentry] at h
      contradiction

/-- Nothing is added for an output exactly when it is as expected. -/
theorem findDifference_jsonNew_eq_none_iff (hS : S.Lawful)
    (hrebuilt : rebuilt base jsonNew = ⟨base, base ++ json, base ++ jsonNew⟩) :
    findDifference S fs (base ++ jsonNew) = .ok none ↔ Same S fs base := by
  rw [findDifference_jsonNew, hrebuilt]
  dsimp only
  constructor
  · intro h
    split at h
    · cases hexpected : fs.readToString (base ++ json) with
      | error e =>
          rw [hexpected] at h
          contradiction
      | ok expected =>
          cases hactual : fs.readToString (base ++ jsonNew) with
          | error e =>
              rw [hexpected, hactual] at h
              contradiction
          | ok actual =>
              rw [hexpected, hactual] at h
              have hnone := Option.map_eq_none_iff.mp (Except.ok.inj h)
              exact ⟨expected, actual, hexpected, hactual,
                (compareContents_eq_none_iff hS).mp hnone⟩
    · cases h
  · rintro ⟨expected, actual, hexpected, hactual, hsame⟩
    rw [if_pos (present_of_readToString hexpected), hexpected, hactual]
    have hnone := (compareContents_eq_none_iff hS).mpr hsame
    simp only [bind, Except.bind, hnone, Option.map_none]
    rfl

/-- What is added for a file names the pair. -/
theorem Separate.named (h : Separate listed others) (hfs : Within listed others fs files)
    {path : List Char} (hpath : path ∈ files) {comparison : Comparison} {difference : Difference}
    (hfound : findDifference S fs path = .ok (some (comparison, difference))) :
    ∃ base, IsBase files base ∧ comparison.expected = base ++ json ∧
      comparison.actual = base ++ jsonNew := by
  obtain ⟨base, hbase, rfl | rfl⟩ := hfs.exists_base hpath
  · rw [findDifference_json, (h.rebuilt hfs hbase).1] at hfound
    split at hfound
    · cases hfound
    · cases hfound
      exact ⟨base, hbase, rfl, rfl⟩
  · rw [findDifference_jsonNew, (h.rebuilt hfs hbase).2] at hfound
    dsimp only at hfound
    refine ⟨base, hbase, ?_⟩
    split at hfound
    · cases hexpected : fs.readToString (base ++ json) with
      | error e =>
          rw [hexpected] at hfound
          contradiction
      | ok expected =>
          cases hactual : fs.readToString (base ++ jsonNew) with
          | error e =>
              rw [hexpected, hactual] at hfound
              contradiction
          | ok actual =>
              rw [hexpected, hactual] at hfound
              obtain ⟨found, -, hpair⟩ := Option.map_eq_some_iff.mp (Except.ok.inj hfound)
              cases hpair
              exact ⟨rfl, rfl⟩
    · cases hfound
      exact ⟨rfl, rfl⟩

theorem Separate.exact (h : Separate listed others) (hS : S.Lawful)
    (hfs : Within listed others fs files) : Exact S fs files := by
  constructor
  · rw [findDifferences_eq_nil_iff]
    constructor
    · intro hall base hbase
      refine (findDifference_jsonNew_eq_none_iff hS (h.rebuilt hfs hbase).2).mp ?_
      rcases hbase with hjson | hnew
      · -- the counterpart is there, so that it is a file, and listed
        have hnone := hall _ hjson
        rw [findDifference_json, (h.rebuilt hfs (.inl hjson)).1] at hnone
        dsimp only at hnone
        split at hnone
        · rename_i hsome
          obtain ⟨entry, hentry⟩ := Option.isSome_iff_exists.mp hsome
          have hfile : entry.isFile = true := by
            by_contra hother
            rw [Bool.not_eq_true] at hother
            exact h.plain base (hfs.names _ hjson) (hfs.rest _ entry hentry hother)
          exact hall _ ((hfs.listing _).mpr
            ⟨⟨entry, hentry, hfile⟩, .inr (List.suffix_append _ _)⟩)
        · cases hnone
      · exact hall _ hnew
    · intro hsame path hpath
      obtain ⟨base, hbase, rfl | rfl⟩ := hfs.exists_base hpath
      · obtain ⟨_, _, -, hactual, -⟩ := hsame base hbase
        rw [findDifference_json, (h.rebuilt hfs hbase).1]
        exact congrArg _ (if_pos (present_of_readToString hactual))
      · exact (findDifference_jsonNew_eq_none_iff hS (h.rebuilt hfs hbase).2).mpr
          (hsame base hbase)
  · intro differences hdifferences comparison difference hmem
    obtain ⟨path, hpath, hfound⟩ := exists_of_mem_findDifferences hdifferences hmem
    exact h.named hfs hpath hfound

end Separate

section Needed

variable {S : SerdeJson} {listed others : List Char → Prop} {base : List Char}

/-- A directory with one file. -/
def only (path : List Char) : FileSystem := fun p => if p = path then some ⟨true, .ok ""⟩ else none

theorem within_only {path : List Char} (hlisted : listed path)
    (hpath : json <:+ path ∨ jsonNew <:+ path) : Within listed others (only path) [path] where
  listing p := by
    unfold only
    by_cases heq : p = path
    · subst heq
      simp [hpath]
    · simp [heq]
  names p hp := List.mem_singleton.mp hp ▸ hlisted
  rest p entry hentry hother := by
    unfold only at hentry
    split at hentry
    · cases hentry
      contradiction
    · contradiction

/-- The difference for the file that is alone has its name only if the stem is kept. -/
theorem rebuilt_of_named {ending : List Char} (difference : Difference)
    (hfound : findDifference S (only (base ++ ending)) (base ++ ending) =
      .ok (some (rebuilt base ending, difference)))
    (hnamed : ∀ base', IsBase [base ++ ending] base' →
      (rebuilt base ending).expected = base' ++ json → base' = base)
    (h : Exact S (only (base ++ ending)) [base ++ ending]) :
    baseName (Path.fileName base ++ ending) = Path.fileName base := by
  have hdifferences : findDifferences S (only (base ++ ending)) [base ++ ending] =
      .ok [(rebuilt base ending, difference)] := by
    rw [findDifferences, fold_eq_ok_iff]
    exact ⟨_, hfound, rfl⟩
  obtain ⟨base', hbase', hexpected, -⟩ := h.named _ hdifferences _ _ List.mem_cons_self
  have heq := hnamed base' hbase' hexpected
  subst heq
  have hbase := (Path.split_spec base').2.2
  rw [rebuilt] at hexpected
  conv_rhs at hexpected => rw [← hbase, List.append_assoc]
  exact List.append_cancel_right (List.append_cancel_left hexpected)

theorem not_infix_of_exact (hlisted : listed (base ++ json) ∨ listed (base ++ jsonNew))
    (h : ∀ fs files, Within listed others fs files → Exact S fs files) :
    ¬ json <:+: Path.fileName base := by
  rcases hlisted with hjson | hnew
  · refine baseName_json_iff.mp (rebuilt_of_named (.presence true false) ?_ ?_
      (h _ _ (within_only hjson (.inl (List.suffix_append _ _)))))
    · rw [findDifference_json]
      have hnone : only (base ++ json) (rebuilt base json).actual = none :=
        if_neg fun heq => json_ne_jsonNew base _ (by rw [← heq, rebuilt, List.append_assoc])
      rw [hnone]
      rfl
    · rintro base' (hmem | hmem) -
      · exact List.append_cancel_right (List.mem_singleton.mp hmem)
      · exact absurd (List.mem_singleton.mp hmem).symm (json_ne_jsonNew _ _)
  · refine baseName_jsonNew_iff.mp (rebuilt_of_named (.presence false true) ?_ ?_
      (h _ _ (within_only hnew (.inr (List.suffix_append _ _)))))
    · rw [findDifference_jsonNew]
      have hnone : only (base ++ jsonNew) (rebuilt base jsonNew).expected = none :=
        if_neg fun heq => json_ne_jsonNew _ base (by rw [← heq, rebuilt, List.append_assoc])
      rw [hnone]
      rfl
    · rintro base' (hmem | hmem) -
      · exact absurd (List.mem_singleton.mp hmem) (json_ne_jsonNew _ _)
      · exact List.append_cancel_right (List.mem_singleton.mp hmem)

/-- A file, and a directory in the place of its output. -/
def shadowed (base : List Char) : FileSystem := fun path =>
  if path = base ++ json then some ⟨true, .ok ""⟩
  else if path = base ++ jsonNew then some ⟨false, .error "Is a directory (os error 21)"⟩
  else none

theorem within_shadowed (hlisted : listed (base ++ json)) (hothers : others (base ++ jsonNew)) :
    Within listed others (shadowed base) [base ++ json] where
  listing path := by
    unfold shadowed
    by_cases heq : path = base ++ json
    · subst heq
      simp
    · have hne : jsonNew ≠ json := by decide
      by_cases hnew : path = base ++ jsonNew <;> simp [heq, hnew, hne]
  names path hpath := List.mem_singleton.mp hpath ▸ hlisted
  rest path entry hentry hother := by
    unfold shadowed at hentry
    split at hentry
    · cases hentry
      contradiction
    · split at hentry
      · rename_i heq
        exact heq ▸ hothers
      · contradiction

theorem not_others_of_exact (hlisted : listed (base ++ json))
    (h : ∀ fs files, Within listed others fs files → Exact S fs files) :
    ¬ others (base ++ jsonNew) := by
  intro hothers
  have hclean := not_infix_of_exact (.inl hlisted) h
  have hrebuilt := rebuilt_of_baseName (baseName_json_iff.mpr hclean)
  have hentry : shadowed base (base ++ jsonNew) =
      some ⟨false, .error "Is a directory (os error 21)"⟩ := by
    rw [shadowed, if_neg (json_ne_jsonNew base base).symm, if_pos rfl]
  have hexact := h _ _ (within_shadowed hlisted hothers)
  have hempty : findDifferences S (shadowed base) [base ++ json] = .ok [] := by
    rw [findDifferences_eq_nil_iff]
    intro path hpath
    rw [List.mem_singleton.mp hpath, findDifference_json, hrebuilt, hentry]
    rfl
  obtain ⟨_, actual, -, hactual, -⟩ := hexact.empty_iff.mp hempty base (.inl List.mem_cons_self)
  rw [FileSystem.readToString, hentry] at hactual
  contradiction

end Needed

/-- For which names of the files of a directory, and of what else is in it, the differences
are exact whatever the files hold. -/
theorem find_differences_exact_iff {S : SerdeJson} (hS : S.Lawful)
    (listed others : List Char → Prop) :
    (∀ fs files, Within listed others fs files → Exact S fs files) ↔ Separate listed others := by
  constructor
  · intro h
    exact ⟨fun base hlisted => not_infix_of_exact hlisted h,
      fun base hlisted => not_others_of_exact hlisted h⟩
  · intro h fs files hfs
    exact h.exact hS hfs

/-! ### Samples -/

/-- The empty object is what is parsed. -/
def sampleSerde : SerdeJson where
  fromStr content := if content = "{}" then some (.obj []) else none
  toStringPretty
    | .obj [] => some "{}"
    | _ => none

theorem sampleSerde_lawful : sampleSerde.Lawful where
  total {content value} h := by
    simp only [sampleSerde, Option.ite_none_right_eq_some, Option.some.injEq] at h
    obtain ⟨-, rfl⟩ := h
    rfl
  injective {content content' value value'} h h' _ := by
    simp only [sampleSerde, Option.ite_none_right_eq_some, Option.some.injEq] at h h'
    rw [← h.2, ← h'.2]

/-- The files of a list, with a text. -/
def sampleFiles (files : List String) (text : String) : FileSystem := fun path =>
  if path ∈ files.map String.toList then some ⟨true, .ok text⟩ else none

theorem sampleFiles_listing {files : List String} {text : String}
    (h : ∀ path ∈ files.map String.toList, json <:+ path ∨ jsonNew <:+ path) :
    Listing (sampleFiles files text) (files.map String.toList) := by
  intro path
  unfold sampleFiles
  by_cases hpath : path ∈ files.map String.toList
  · simp [hpath, h path hpath]
  · simp [hpath]

/-- An expected output and the output. -/
theorem find_differences_exact_iff_foo : findDifferences sampleSerde
    (sampleFiles ["out/foo.json", "out/foo.json.new"] "{}")
    (["out/foo.json", "out/foo.json.new"].map String.toList) = .ok [] := by
  have hbase : ∀ base, base ++ json ∈ ["out/foo.json", "out/foo.json.new"].map String.toList ∨
      base ++ jsonNew ∈ ["out/foo.json", "out/foo.json.new"].map String.toList →
        base = "out/foo".toList := by
    have hjson : "out/foo.json".toList = "out/foo".toList ++ json := rfl
    have hnew : "out/foo.json.new".toList = "out/foo".toList ++ jsonNew := rfl
    simp only [List.map_cons, List.map_nil, List.mem_cons, List.not_mem_nil, or_false, hjson, hnew]
    rintro base ((h | h) | (h | h))
    · exact List.append_cancel_right h
    · exact absurd h (json_ne_jsonNew _ _)
    · exact absurd h.symm (json_ne_jsonNew _ _)
    · exact List.append_cancel_right h
  have hexact := (find_differences_exact_iff sampleSerde_lawful
      (· ∈ ["out/foo.json", "out/foo.json.new"].map String.toList) fun _ => False).mpr
    ⟨fun base hlisted => by rw [hbase base hlisted]; decide, fun _ _ => id⟩
    (sampleFiles ["out/foo.json", "out/foo.json.new"] "{}")
    (["out/foo.json", "out/foo.json.new"].map String.toList)
    ⟨sampleFiles_listing (by decide), fun _ hpath => hpath, fun path entry hentry hother => by
      simp only [sampleFiles, Option.ite_none_right_eq_some, Option.some.injEq] at hentry
      rw [← hentry.2] at hother
      contradiction⟩
  refine hexact.empty_iff.mpr ?_
  intro base hlisted
  rw [hbase base hlisted]
  exact ⟨"{}", "{}", rfl, rfl, rfl⟩

/-- A missing output is not found when its name is taken for that of another. -/
theorem json_in_stem_unchecked :
    ¬ ∀ (S : SerdeJson), S.Lawful → ∀ fs files, Listing fs files → Exact S fs files := by
  intro h
  have hexact := h sampleSerde sampleSerde_lawful
    (sampleFiles ["out/a.json.json", "out/a.json", "out/a.json.new"] "{}") _
    (sampleFiles_listing (by decide))
  obtain ⟨_, _, -, hactual, -⟩ := hexact.empty_iff.mp rfl "out/a.json".toList (.inl (by decide))
  contradiction

end CdvizCollector.Tools.Outputs
