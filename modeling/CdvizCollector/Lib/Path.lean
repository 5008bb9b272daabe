import CdvizCollector.Lib.Text

/-!
Paths as `std::path` reads them on Unix, on the paths that are names joined by single slashes.

The last name is what most functions are about, so a path is taken apart into the directory with
its slash and the name after it.
-/

namespace CdvizCollector.Lib.Path

/-- What may stand before a name: nothing, or something that ends in a slash. -/
def Slashed (front : List Char) : Prop := front = [] ∨ front.getLast? = some '/'

instance (front : List Char) : Decidable (Slashed front) := inferInstanceAs (Decidable (_ ∨ _))

/-- What stands before the last name, and the name. -/
def split (path : List Char) : List Char × List Char :=
  match Text.rsplitOnce '/' path with
  | some (parent, name) => (parent ++ ['/'], name)
  | none => ([], path)

/-- `Path::parent`. -/
def parent (path : List Char) : List Char :=
  match Text.rsplitOnce '/' path with
  | some (parent, _) => parent
  | none => []

/-- `Path::file_name`. -/
def fileName (path : List Char) : List Char := (split path).2

/-- `Path::file_stem`: the name up to its last dot, unless it is the first character. -/
def fileStem (path : List Char) : List Char :=
  match Text.rsplitOnce '.' (fileName path) with
  | some (before, _) => if before = [] then fileName path else before
  | none => fileName path

/-- `Path::with_extension`. -/
def withExtension (path extension : List Char) : List Char :=
  (split path).1 ++ (fileStem path ++ '.' :: extension)

/-- A directory with a slash, unless it is empty. -/
def slashed (directory : List Char) : List Char :=
  if Slashed directory then directory else directory ++ ['/']

/-- `Path::join`. -/
def join (directory path : List Char) : List Char :=
  if path.head? = some '/' then path else slashed directory ++ path

/-- A relative path of one or more names. -/
def Normal (path : List Char) : Prop :=
  ∀ name ∈ path.splitOn '/', name ≠ [] ∧ name ≠ ['.'] ∧ name ≠ ['.', '.']

instance (path : List Char) : Decidable (Normal path) := List.decidableBAll ..

theorem Normal.relative {path : List Char} (h : Normal path) : path.head? ≠ some '/' := by
  intro hhead
  obtain ⟨rest, rfl⟩ := List.head?_eq_some_iff.mp hhead
  have hnil : [] ∈ ('/' :: rest).splitOn '/' := by
    rw [List.splitOn, List.splitOnP_cons_eq_if_modifyHead]
    simp
  exact (h [] hnil).1 rfl

theorem slashed_slashed (directory : List Char) : Slashed (slashed directory) := by
  rw [slashed]
  split
  · assumption
  · exact .inr List.getLast?_concat

theorem Slashed.append {front more : List Char} (hfront : Slashed front) (hmore : Slashed more) :
    Slashed (front ++ more) := by
  rcases hmore with rfl | hmore
  · rwa [List.append_nil]
  · exact .inr (by rw [List.getLast?_append, hmore]; rfl)

theorem split_append {front name : List Char} (hfront : Slashed front) (hname : '/' ∉ name) :
    split (front ++ name) = (front, name) := by
  rcases hfront with rfl | hfront
  · rw [List.nil_append, split, Text.rsplitOnce_of_not_mem hname]
  · obtain ⟨directory, rfl⟩ := List.getLast?_eq_some_iff.mp hfront
    rw [split, List.append_assoc, List.singleton_append, Text.rsplitOnce_append hname]

/-- A path is what stands before its last name and the name. -/
theorem exists_split (path : List Char) :
    ∃ front name, Slashed front ∧ '/' ∉ name ∧ path = front ++ name := by
  by_cases hslash : '/' ∈ path
  · obtain ⟨directory, name, hname, rfl⟩ := Text.exists_last_separator hslash
    exact ⟨directory ++ ['/'], name, .inr List.getLast?_concat, hname, by simp⟩
  · exact ⟨[], path, .inl rfl, hslash, rfl⟩

theorem split_spec (path : List Char) :
    Slashed (split path).1 ∧ '/' ∉ fileName path ∧ (split path).1 ++ fileName path = path := by
  obtain ⟨front, name, hfront, hname, rfl⟩ := exists_split path
  rw [fileName, split_append hfront hname]
  exact ⟨hfront, hname, rfl⟩

/-- It can be split in one way only. -/
theorem append_inj {front front' name name' : List Char} (hfront : Slashed front)
    (hfront' : Slashed front') (hname : '/' ∉ name) (hname' : '/' ∉ name') :
    front ++ name = front' ++ name' ↔ front = front' ∧ name = name' := by
  constructor
  · intro h
    have hsplit := congrArg split h
    rw [split_append hfront hname, split_append hfront' hname'] at hsplit
    exact Prod.mk.inj hsplit
  · rintro ⟨rfl, rfl⟩
    rfl

theorem fileName_append {front name : List Char} (hfront : Slashed front) (hname : '/' ∉ name) :
    fileName (front ++ name) = name := by
  rw [fileName, split_append hfront hname]

/-- The stem of a path is the stem of its name. -/
theorem fileStem_fileName {front : List Char} (hfront : Slashed front) (path : List Char) :
    fileStem (front ++ fileName path) = fileStem path := by
  rw [fileStem, fileStem, fileName_append hfront (split_spec path).2.1]

theorem not_mem_fileStem (path : List Char) : '/' ∉ fileStem path := by
  have hname := (split_spec path).2.1
  rw [fileStem]
  by_cases hdot : '.' ∈ fileName path
  · obtain ⟨before, after, hafter, hsplit⟩ := Text.exists_last_separator hdot
    rw [hsplit] at hname ⊢
    rw [Text.rsplitOnce_append hafter]
    dsimp only
    split
    · exact hname
    · exact fun hmem => hname (List.mem_append_left _ hmem)
  · rwa [Text.rsplitOnce_of_not_mem hdot]

/-- A stem with an extension behind it is read back. -/
theorem fileStem_append {front stem extension : List Char} (hfront : Slashed front)
    (hstem : '/' ∉ stem) (hne : stem ≠ []) (hextension : '/' ∉ extension ∧ '.' ∉ extension) :
    fileStem (front ++ (stem ++ '.' :: extension)) = stem := by
  have hname : '/' ∉ stem ++ '.' :: extension := by
    simp [hstem, hextension.1]
  rw [fileStem, fileName_append hfront hname, Text.rsplitOnce_append hextension.2]
  exact if_neg hne

/-- The directory of a relative path, and what stands before its name. -/
theorem split_fst_eq_parent {path : List Char} (h : path.head? ≠ some '/') :
    (split path).1 = if parent path = [] then [] else parent path ++ ['/'] := by
  by_cases hslash : '/' ∈ path
  · obtain ⟨directory, name, hname, rfl⟩ := Text.exists_last_separator hslash
    have hne : directory ≠ [] := by
      rintro rfl
      exact h rfl
    rw [split, parent, Text.rsplitOnce_append hname]
    exact (if_neg hne).symm
  · rw [split, parent, Text.rsplitOnce_of_not_mem hslash]
    rfl

/-- Relative paths have the same directory if the same stands before their names. -/
theorem split_fst_inj {path path' : List Char} (h : path.head? ≠ some '/')
    (h' : path'.head? ≠ some '/') :
    (split path).1 = (split path').1 ↔ parent path = parent path' := by
  rw [split_fst_eq_parent h, split_fst_eq_parent h']
  constructor
  · intro heq
    split at heq <;> split at heq
    · rename_i hnil hnil'
      rw [hnil, hnil']
    · exact absurd heq.symm (by simp)
    · exact absurd heq (by simp)
    · exact List.append_cancel_right heq
  · intro heq
    rw [heq]

end CdvizCollector.Lib.Path
