import CdvizCollector.Lib.FileTree
import CdvizCollector.Lib.FirstBy
import CdvizCollector.Sources.Parsers

/-!
The result files that are collected after the process of `send --run` has ended.

A pattern that is an absolute path is looked at directly, any other is compared with the paths
below the working directory. Both give paths, and repetitions are told by the components of
these, which do not tell where a path leads.
-/

namespace CdvizCollector.Sources.Subprocess

open Lib Lib.FileTree

/-- The files there are, with their text where it can be read, and the working directory. -/
structure World where
  root : Node (Option String)
  cwd : List Name

/-- What globs match: `globset::Glob::new`, with the paths it matches where it compiles. -/
abbrev Globset := List Char → Option (List Char → Bool)

/-- A path as it is spelled: by an absolute pattern, or by the names below `.`. -/
inductive PathBuf where
  | absolute (pattern : List Char)
  | walked (names : List Name)
deriving DecidableEq, Repr

namespace PathBuf

/-- `Path::components`, by which paths are compared. -/
def components : PathBuf → List Name
  | .absolute pattern => ['/'] :: FileTree.components (pattern.splitOn '/')
  | .walked names => ['.'] :: names

/-- `to_string_lossy`. -/
def toString : PathBuf → String
  | .absolute pattern => String.ofList pattern
  | .walked names => String.ofList (['/'].intercalate (['.'] :: names))

def target (W : World) : PathBuf → Option (List Name)
  | .absolute pattern => W.root.resolve [] (pattern.splitOn '/')
  | .walked names => some (W.cwd ++ names)

/-- `Path::is_file`. -/
def isFile (W : World) (path : PathBuf) : Bool :=
  match (path.target W).bind W.root.lookup with
  | some (.file _) => true
  | _ => false

/-- `std::fs::read_to_string`. -/
def readToString (W : World) (path : PathBuf) : Option String :=
  match (path.target W).bind W.root.lookup with
  | some (.file content) => content
  | _ => none

end PathBuf

/-! ### Collection -/

/-- An absolute path without the characters that make it a glob. -/
def isLiteral (pattern : List Char) : Bool :=
  pattern.head? = some '/' && !pattern.any fun c => c ∈ ['*', '?', '[', '{']

def relative (names : List Name) : List Char := ['/'].intercalate names

/-- `walk_dir` from the working directory, with the names below it. -/
def walkDir (W : World) (matcher : List Char → Bool) : List (List Name) :=
  match W.root.lookup W.cwd with
  | some (.dir listable entries) =>
      walkNode (fun names => matcher (relative names)) [] (.dir listable entries)
  | _ => []

def collectGlobMatches (W : World) (G : Globset) (pattern : List Char) : List PathBuf :=
  if isLiteral pattern then
    if (PathBuf.absolute pattern).isFile W then [.absolute pattern] else []
  else
    match G pattern with
    | some matcher => (walkDir W matcher).map .walked
    | none => []

/-- The paths in the set, the newest first, and the results. -/
structure Collected where
  seen : List PathBuf
  results : List Json

/-- What the content of a file adds to the results. -/
def items (W : World) (F : Parsers.Formats) (parser : Parsers.Config) (path : PathBuf) :
    List Json :=
  match path.readToString W with
  | none => []
  | some content =>
      match Parsers.parseWithConfig F content parser (some path.toString) with
      | .ok (.arr elems) => elems
      | .ok parsed => [parsed]
      | .error _ => []

def collectPath (W : World) (F : Parsers.Formats) (parser : Parsers.Config) (state : Collected)
    (path : PathBuf) : Collected :=
  if path.components ∈ state.seen.map PathBuf.components then state
  -- the path is in the set, whether or not its file is read
  else ⟨path :: state.seen, state.results ++ items W F parser path⟩

def collect (W : World) (G : Globset) (F : Parsers.Formats) (parser : Parsers.Config)
    (globs : List (List Char)) : Collected :=
  globs.foldl
    (fun state pattern =>
      (collectGlobMatches W G pattern).foldl (collectPath W F parser) state)
    ⟨[], []⟩

def finishedBody (W : World) (G : Globset) (F : Parsers.Formats) (parser : Parsers.Config)
    (noData : Bool) (globs : List (List Char)) : Json :=
  if !noData && !globs.isEmpty then .arr (collect W G F parser globs).results else .arr []

def collectedPaths (W : World) (G : Globset) (F : Parsers.Formats) (parser : Parsers.Config)
    (globs : List (List Char)) : List PathBuf :=
  (collect W G F parser globs).seen.reverse

/-! ### What is collected -/

section Collection

variable {W : World} {G : Globset} {F : Parsers.Formats} {parser : Parsers.Config}

/-- The paths are the first ones with their components, and the results are theirs. -/
theorem foldl_collectPath (paths : List PathBuf) (state : Collected) :
    paths.foldl (collectPath W F parser) state =
      ⟨(firstBy PathBuf.components (state.seen.map PathBuf.components) paths).reverse ++ state.seen,
        state.results ++
          (firstBy PathBuf.components (state.seen.map PathBuf.components) paths).flatMap
            (items W F parser)⟩ := by
  induction paths generalizing state with
  | nil => simp [firstBy]
  | cons path rest ih =>
      rw [List.foldl_cons, ih, collectPath, firstBy]
      split
      · rfl
      · simp

theorem collectedPaths_eq (globs : List (List Char)) :
    collectedPaths W G F parser globs =
      firstBy PathBuf.components [] (globs.flatMap (collectGlobMatches W G)) := by
  rw [collectedPaths, collect, ← List.foldl_flatMap, foldl_collectPath]
  simp

theorem collect_results (globs : List (List Char)) :
    (collect W G F parser globs).results =
      (collectedPaths W G F parser globs).flatMap (items W F parser) := by
  rw [collectedPaths_eq, collect, ← List.foldl_flatMap, foldl_collectPath]
  rfl

/-- The body has what the files read add to it, and nothing else. -/
theorem finishedBody_eq (globs : List (List Char)) :
    finishedBody W G F parser false globs =
      .arr ((collectedPaths W G F parser globs).flatMap (items W F parser)) := by
  cases globs with
  | nil => rfl
  | cons pattern rest =>
      rw [← collect_results]
      rfl

end Collection

/-! ### What is found -/

section Found

variable {W : World} {G : Globset}

def ListedBelow (W : World) (names : List Name) : Prop :=
  ∃ listable entries, W.root.lookup W.cwd = some (.dir listable entries) ∧
    Listed (.dir listable entries) names

theorem mem_walkDir_iff {matcher : List Char → Bool} {names : List Name} :
    names ∈ walkDir W matcher ↔ ListedBelow W names ∧ matcher (relative names) = true := by
  rw [walkDir]
  constructor
  · intro h
    split at h
    · rename_i listable entries hdir
      obtain ⟨names', rfl, hlisted, hmatch⟩ := (mem_walkNode_iff [] _).mp h
      exact ⟨⟨listable, entries, hdir, hlisted⟩, hmatch⟩
    · contradiction
  · rintro ⟨⟨listable, entries, hdir, hlisted⟩, hmatch⟩
    rw [hdir]
    exact (mem_walkNode_iff [] _).mpr ⟨names, rfl, hlisted, hmatch⟩

theorem walked_mem_iff {pattern : List Char} {names : List Name} :
    PathBuf.walked names ∈ collectGlobMatches W G pattern ↔
      isLiteral pattern = false ∧
        ∃ matcher ∈ G pattern, ListedBelow W names ∧ matcher (relative names) = true := by
  rw [collectGlobMatches]
  by_cases hliteral : isLiteral pattern = true
  · rw [if_pos hliteral, hliteral]
    constructor
    · intro h
      split at h
      · cases List.mem_singleton.mp h
      · contradiction
    · rintro ⟨h, -⟩
      contradiction
  · rw [if_neg hliteral]
    cases hglob : G pattern with
    | none => simp
    | some matcher => simp [hliteral, mem_walkDir_iff]

theorem absolute_mem_iff {pattern spelling : List Char} :
    PathBuf.absolute spelling ∈ collectGlobMatches W G pattern ↔
      spelling = pattern ∧ isLiteral pattern = true ∧
        (PathBuf.absolute pattern).isFile W = true := by
  rw [collectGlobMatches]
  by_cases hliteral : isLiteral pattern = true
  · rw [if_pos hliteral]
    split
    · rename_i hfile
      simp [hliteral, hfile]
    · rename_i hfile
      simp [hfile]
  · rw [if_neg hliteral]
    cases hglob : G pattern with
    | none => simp [hliteral]
    | some matcher => simp [hliteral]

theorem target_isSome {pattern : List Char} {path : PathBuf}
    (h : path ∈ collectGlobMatches W G pattern) : (path.target W).isSome := by
  cases path with
  | walked names => rfl
  | absolute spelling =>
      obtain ⟨rfl, -, hfile⟩ := absolute_mem_iff.mp h
      rw [PathBuf.isFile] at hfile
      cases htarget : (PathBuf.absolute spelling).target W with
      | none =>
          rw [htarget] at hfile
          contradiction
      | some place => rfl

theorem target_eq_of_components {path path' : PathBuf} (hplace : (path.target W).isSome)
    (hplace' : (path'.target W).isSome) (h : path.components = path'.components) :
    path.target W = path'.target W := by
  cases path with
  | walked names =>
      cases path' with
      | walked names' =>
          rw [(List.cons.inj h).2]
      | absolute pattern =>
          exact absurd (List.cons.inj h).1 (by decide)
  | absolute pattern =>
      cases path' with
      | walked names =>
          exact absurd (List.cons.inj h).1 (by decide)
      | absolute pattern' =>
          obtain ⟨place, hplace⟩ := Option.isSome_iff_exists.mp hplace
          obtain ⟨place', hplace'⟩ := Option.isSome_iff_exists.mp hplace'
          rw [hplace, hplace',
            resolve_eq_of_components hplace hplace' (List.cons.inj h).2]

end Found

/-! ### Once -/

/-- The files a pattern is for. An absolute path names one; a glob is compared with the path of
a file, from the top where the pattern starts there and from the working directory elsewhere. -/
def Matches (W : World) (G : Globset) (pattern : List Char) (file : List Name) : Prop :=
  if isLiteral pattern then W.root.resolve [] (pattern.splitOn '/') = some file
  else
    ∃ matcher ∈ G pattern,
      if pattern.head? = some '/' then matcher ('/' :: relative file) = true
      else ∃ names, file = W.cwd ++ names ∧ matcher (relative names) = true

def Readable (W : World) (file : List Name) : Prop :=
  ∃ content, W.root.lookup file = some (.file (some content))

/-- The body has what the paths that are read add to it, and one of these leads to each
readable file that is matched. -/
structure CollectsOnce (W : World) (G : Globset) (F : Parsers.Formats)
    (parser : Parsers.Config) (globs : List (List Char)) : Prop where
  body : finishedBody W G F parser false globs =
    .arr ((collectedPaths W G F parser globs).flatMap (items W F parser))
  once : ∀ file, Readable W file → (∃ pattern ∈ globs, Matches W G pattern file) →
    ((collectedPaths W G F parser globs).filter fun path =>
      path.target W = some file).length = 1

def Spells (W : World) (pattern : List Char) (file : List Name) : Prop :=
  isLiteral pattern = true ∧ W.root.resolve [] (pattern.splitOn '/') = some file

def Lists (W : World) (G : Globset) (pattern : List Char) (file : List Name) : Prop :=
  isLiteral pattern = false ∧
    ∃ matcher ∈ G pattern, ∃ names, file = W.cwd ++ names ∧ ListedBelow W names ∧
      matcher (relative names) = true

/-- Either only globs find the file, or only absolute paths with the same components. -/
def FoundOneWay (W : World) (G : Globset) (globs : List (List Char)) (file : List Name) : Prop :=
  ((∃ pattern ∈ globs, Lists W G pattern file) ∧ ∀ pattern ∈ globs, ¬ Spells W pattern file) ∨
    (∀ pattern ∈ globs, ¬ Lists W G pattern file) ∧
      (∃ pattern ∈ globs, Spells W pattern file) ∧
      ∀ pattern ∈ globs, ∀ pattern' ∈ globs,
        Spells W pattern file → Spells W pattern' file →
        components (pattern.splitOn '/') = components (pattern'.splitOn '/')

section Once

variable {W : World} {G : Globset} {globs : List (List Char)} {file : List Name}

/-- All that the patterns find, in their order. -/
def found (W : World) (G : Globset) (globs : List (List Char)) : List PathBuf :=
  globs.flatMap (collectGlobMatches W G)

theorem lists_iff :
    (∃ pattern ∈ globs, Lists W G pattern file) ↔
      ∃ names, .walked names ∈ found W G globs ∧
        (PathBuf.walked names).target W = some file := by
  constructor
  · rintro ⟨pattern, hpattern, hglob, matcher, hmatcher, names, rfl, hlisted, hmatch⟩
    refine ⟨names, ?_, rfl⟩
    exact List.mem_flatMap.mpr
      ⟨pattern, hpattern, walked_mem_iff.mpr ⟨hglob, matcher, hmatcher, hlisted, hmatch⟩⟩
  · rintro ⟨names, hfound, htarget⟩
    obtain ⟨pattern, hpattern, hmem⟩ := List.mem_flatMap.mp hfound
    obtain ⟨hglob, matcher, hmatcher, hlisted, hmatch⟩ := walked_mem_iff.mp hmem
    exact ⟨pattern, hpattern, hglob, matcher, hmatcher, names,
      (Option.some.inj htarget).symm, hlisted, hmatch⟩

theorem spells_iff (hreadable : Readable W file) {pattern : List Char} :
    (pattern ∈ globs ∧ Spells W pattern file) ↔
      .absolute pattern ∈ found W G globs ∧
        (PathBuf.absolute pattern).target W = some file := by
  obtain ⟨content, hcontent⟩ := hreadable
  constructor
  · rintro ⟨hpattern, hliteral, hresolve⟩
    have hfile : (PathBuf.absolute pattern).isFile W = true := by
      rw [PathBuf.isFile, PathBuf.target, hresolve, Option.bind_some, hcontent]
    refine ⟨List.mem_flatMap.mpr ⟨pattern, hpattern, ?_⟩, hresolve⟩
    exact absolute_mem_iff.mpr ⟨rfl, hliteral, hfile⟩
  · rintro ⟨hfound, htarget⟩
    obtain ⟨pattern', hpattern, hmem⟩ := List.mem_flatMap.mp hfound
    obtain ⟨rfl, hliteral, -⟩ := absolute_mem_iff.mp hmem
    exact ⟨hpattern, hliteral, htarget⟩

theorem foundOneWay_of_components (hreadable : Readable W file)
    (hsome : ∃ path ∈ found W G globs, path.target W = some file)
    (hall : ∀ a ∈ found W G globs, ∀ b ∈ found W G globs, a.target W = some file →
      b.target W = some file → a.components = b.components) : FoundOneWay W G globs file := by
  obtain ⟨path, hfound, htarget⟩ := hsome
  cases path with
  | walked names =>
      refine .inl ⟨lists_iff.mpr ⟨names, hfound, htarget⟩, ?_⟩
      intro pattern hpattern hspells
      obtain ⟨hfound', htarget'⟩ := (spells_iff hreadable).mp ⟨hpattern, hspells⟩
      have hcomponents := hall _ hfound _ hfound' htarget htarget'
      -- the one starts with `.` and the other with the root
      exact absurd (List.cons.inj hcomponents).1 (by decide)
  | absolute spelling =>
      obtain ⟨hspelling, hspells⟩ := (spells_iff hreadable).mpr ⟨hfound, htarget⟩
      refine .inr ⟨?_, ⟨spelling, hspelling, hspells⟩, ?_⟩
      · intro pattern hpattern hlists
        obtain ⟨names, hfound', htarget'⟩ := lists_iff.mp ⟨pattern, hpattern, hlists⟩
        have hcomponents := hall _ hfound _ hfound' htarget htarget'
        exact absurd (List.cons.inj hcomponents).1 (by decide)
      · intro pattern hpattern pattern' hpattern' hspells hspells'
        obtain ⟨hfound, htarget⟩ := (spells_iff hreadable).mp ⟨hpattern, hspells⟩
        obtain ⟨hfound', htarget'⟩ := (spells_iff hreadable).mp ⟨hpattern', hspells'⟩
        exact (List.cons.inj (hall _ hfound _ hfound' htarget htarget')).2

/-- One of the paths to a file that is found in one way has the components of all. -/
theorem exists_components_of_foundOneWay (hreadable : Readable W file)
    (h : FoundOneWay W G globs file) :
    ∃ path ∈ found W G globs, path.target W = some file ∧
      ∀ path' ∈ found W G globs, path'.target W = some file →
        path'.components = path.components := by
  rcases h with ⟨hlists, hspells⟩ | ⟨hlists, ⟨spelling, hspelling, hspells⟩, hall⟩
  · obtain ⟨names, hfound, htarget⟩ := lists_iff.mp hlists
    refine ⟨.walked names, hfound, htarget, ?_⟩
    intro path hpath hplace
    cases path with
    | walked names' =>
        have hnames := Option.some.inj (hplace.trans htarget.symm)
        rw [List.append_cancel_left hnames]
    | absolute pattern =>
        obtain ⟨hpattern, h⟩ := (spells_iff hreadable).mpr ⟨hpath, hplace⟩
        exact absurd h (hspells pattern hpattern)
  · obtain ⟨hfound, htarget⟩ := (spells_iff hreadable).mp ⟨hspelling, hspells⟩
    refine ⟨.absolute spelling, hfound, htarget, ?_⟩
    intro path hpath hplace
    cases path with
    | walked names =>
        obtain ⟨pattern, hpattern, h⟩ := lists_iff.mpr ⟨names, hpath, hplace⟩
        exact absurd h (hlists pattern hpattern)
    | absolute pattern =>
        obtain ⟨hpattern, h⟩ := (spells_iff hreadable).mpr ⟨hpath, hplace⟩
        rw [PathBuf.components, PathBuf.components,
          hall pattern hpattern spelling hspelling h hspells]

/-- One path is left for a file exactly when the file is found in one way. -/
theorem length_collected_eq_one_iff (F : Parsers.Formats) (parser : Parsers.Config)
    (hreadable : Readable W file) :
    ((collectedPaths W G F parser globs).filter fun path =>
        path.target W = some file).length = 1 ↔ FoundOneWay W G globs file := by
  have hsame : ∀ a ∈ found W G globs, ∀ b ∈ found W G globs, a.components = b.components →
      decide (a.target W = some file) = decide (b.target W = some file) := by
    intro a ha b hb hcomponents
    obtain ⟨pattern, -, ha⟩ := List.mem_flatMap.mp ha
    obtain ⟨pattern', -, hb⟩ := List.mem_flatMap.mp hb
    rw [target_eq_of_components (target_isSome ha) (target_isSome hb) hcomponents]
  rw [collectedPaths_eq]
  refine (length_filter_firstBy_eq_one_iff hsame).trans ?_
  simp only [decide_eq_true_eq]
  constructor
  · rintro ⟨hsome, hall⟩
    exact foundOneWay_of_components hreadable hsome hall
  · intro h
    obtain ⟨path, hfound, htarget, hall⟩ := exists_components_of_foundOneWay hreadable h
    refine ⟨⟨path, hfound, htarget⟩, ?_⟩
    intro a ha b hb hplace hplace'
    rw [hall a ha hplace, hall b hb hplace']

end Once

/-- Every file that is matched is collected once exactly when each is found in one way. -/
theorem collects_once_iff (W : World) (G : Globset) (F : Parsers.Formats)
    (parser : Parsers.Config) (globs : List (List Char)) :
    CollectsOnce W G F parser globs ↔
      ∀ file, Readable W file → (∃ pattern ∈ globs, Matches W G pattern file) →
        FoundOneWay W G globs file := by
  constructor
  · intro h file hreadable hmatched
    exact (length_collected_eq_one_iff F parser hreadable).mp (h.once file hreadable hmatched)
  · intro h
    refine ⟨finishedBody_eq globs, ?_⟩
    intro file hreadable hmatched
    exact (length_collected_eq_one_iff F parser hreadable).mpr (h file hreadable hmatched)

/-- `/work/foo.xml`, seen from `/work`. -/
def oneReport : World where
  root := .dir true [("work".toList, .dir true [("foo.xml".toList, .file (some "<a/>"))])]
  cwd := ["work".toList]

/-- The matcher of one glob, for files of a name in any directory. -/
def anyFoo : Globset := fun pattern =>
  if pattern = "**/foo.xml".toList then
    some fun path => path = "foo.xml".toList || "/foo.xml".toList.isSuffixOf path
  else none

/-- A file that is given by its absolute path and by a glob is in the body twice. -/
theorem absolute_and_glob_twice :
    let F : Parsers.Formats :=
      ⟨fun _ => .error "", fun _ => .error "", fun _ => .error "", fun _ => ⟨.error "", []⟩⟩
    let globs := ["/work/foo.xml".toList, "**/foo.xml".toList]
    finishedBody oneReport anyFoo F .text false globs =
        .arr [.obj [("text", .str "<a/>")], .obj [("text", .str "<a/>")]] ∧
      ¬ CollectsOnce oneReport anyFoo F .text globs := by
  intro F globs
  refine ⟨rfl, ?_⟩
  intro h
  have hreadable : Readable oneReport ["work".toList, "foo.xml".toList] := ⟨"<a/>", rfl⟩
  have hmatched : Matches oneReport anyFoo "/work/foo.xml".toList
      ["work".toList, "foo.xml".toList] := by
    rw [Matches, if_pos (by decide +kernel)]
    decide +kernel
  have hone := h.once _ hreadable ⟨_, List.mem_cons_self, hmatched⟩
  exact absurd hone (by decide +kernel)

end CdvizCollector.Sources.Subprocess
