import Mathlib.Data.List.Basic

/-!
Trees of files, without links.

A file is known by the names that lead to it from the top. A path may spell them in several
ways; what it names is found by going through it.
-/

namespace CdvizCollector.Lib.FileTree

abbrev Name := List Char

/-- A file with its content, or a directory; that it can be gone through does not mean that
its entries can be listed. -/
inductive Node (α : Type) where
  | file (content : α)
  | dir (listable : Bool) (entries : List (Name × Node α))

variable {α : Type}

/-- What the names lead to. -/
def Node.lookup : Node α → List Name → Option (Node α)
  | node, [] => some node
  | .file _, _ :: _ => none
  | .dir _ entries, name :: rest => (entries.lookup name).bind fun node => node.lookup rest

/-! ### Listing -/

mutual

/-- The paths that are accepted, below a node that is at a path. -/
def walkNode (accept : List Name → Bool) (path : List Name) : Node α → List (List Name)
  | .file _ => if accept path then [path] else []
  | .dir listable entries => if listable then walkEntries accept path entries else []

def walkEntries (accept : List Name → Bool) (path : List Name) :
    List (Name × Node α) → List (List Name)
  | [] => []
  | (name, node) :: rest => walkNode accept (path ++ [name]) node ++ walkEntries accept path rest

end

/-- A file that is listed, by the names that lead to it through directories that can be. -/
inductive Listed : Node α → List Name → Prop
  | file (content : α) : Listed (.file content) []
  | dir {entries : List (Name × Node α)} {name : Name} {node : Node α} {rest : List Name}
      (hentry : (name, node) ∈ entries) (hrest : Listed node rest) :
      Listed (.dir true entries) (name :: rest)

mutual

theorem mem_walkNode_iff {accept : List Name → Bool} {found : List Name} (path : List Name) :
    ∀ node : Node α, found ∈ walkNode accept path node ↔
      ∃ names, found = path ++ names ∧ Listed node names ∧ accept found = true
  | .file content => by
      rw [walkNode]
      constructor
      · intro h
        split at h
        · rename_i haccept
          rw [List.mem_singleton.mp h]
          exact ⟨[], (List.append_nil path).symm, .file content, haccept⟩
        · contradiction
      · rintro ⟨names, rfl, hlisted, haccept⟩
        cases hlisted
        rw [List.append_nil] at haccept ⊢
        rw [if_pos haccept]
        exact List.mem_singleton_self path
  | .dir listable entries => by
      rw [walkNode]
      constructor
      · intro h
        split at h
        · rename_i hlistable
          obtain ⟨name, node, rest, hentry, rfl, hlisted, haccept⟩ :=
            (mem_walkEntries_iff path entries).mp h
          exact ⟨name :: rest, rfl, hlistable ▸ .dir hentry hlisted, haccept⟩
        · contradiction
      · rintro ⟨names, rfl, hlisted, haccept⟩
        cases hlisted with
        | dir hentry hrest =>
            rw [if_pos rfl]
            exact (mem_walkEntries_iff path entries).mpr
              ⟨_, _, _, hentry, rfl, hrest, haccept⟩

theorem mem_walkEntries_iff {accept : List Name → Bool} {found : List Name} (path : List Name) :
    ∀ entries : List (Name × Node α), found ∈ walkEntries accept path entries ↔
      ∃ name node rest, (name, node) ∈ entries ∧ found = path ++ name :: rest ∧
        Listed node rest ∧ accept found = true
  | [] => by simp [walkEntries]
  | (name, node) :: entries => by
      rw [walkEntries, List.mem_append, mem_walkNode_iff (path ++ [name]) node,
        mem_walkEntries_iff path entries]
      constructor
      · rintro (⟨rest, rfl, hlisted, haccept⟩ | ⟨name', node', rest, hentry, rfl, hlisted, haccept⟩)
        · exact ⟨name, node, rest, List.mem_cons_self, by simp, hlisted, haccept⟩
        · exact ⟨name', node', rest, List.mem_cons_of_mem _ hentry, rfl, hlisted, haccept⟩
      · rintro ⟨name', node', rest, hentry, rfl, hlisted, haccept⟩
        rcases List.mem_cons.mp hentry with heq | hentry
        · cases heq
          exact .inl ⟨rest, by simp, hlisted, haccept⟩
        · exact .inr ⟨name', node', rest, hentry, rfl, hlisted, haccept⟩

end

/-! ### Paths -/

/-- Where a path leads from a position, part by part: a part is looked up in a directory. -/
def Node.resolve (root : Node α) : List Name → List Name → Option (List Name)
  | position, [] => some position
  | position, part :: rest =>
      match root.lookup position with
      | some (.dir _ _) =>
          if part = [] ∨ part = ['.'] then root.resolve position rest
          -- the top is its own parent
          else if part = ['.', '.'] then root.resolve position.dropLast rest
          else root.resolve (position ++ [part]) rest
      | _ => none

/-- The parts of a path that make it what it is. -/
def components (parts : List Name) : List Name :=
  parts.filter fun part => part ≠ [] ∧ part ≠ ['.']

/-- The other parts lead nowhere else. -/
theorem resolve_components {root : Node α} {position parts place : List Name}
    (h : root.resolve position parts = some place) :
    root.resolve position (components parts) = some place := by
  induction parts generalizing position with
  | nil => exact h
  | cons part rest ih =>
      rw [Node.resolve] at h
      split at h
      · rename_i listable entries hdir
        by_cases hblank : part = [] ∨ part = ['.']
        · rw [if_pos hblank] at h
          have hdrop : components (part :: rest) = components rest := by
            rw [components, List.filter_cons_of_neg (by simpa [or_iff_not_imp_left] using hblank)]
            rfl
          rw [hdrop]
          exact ih h
        · rw [if_neg hblank] at h
          have hkeep : components (part :: rest) = part :: components rest := by
            rw [components, List.filter_cons_of_pos (by simpa [not_or] using hblank)]
            rfl
          rw [hkeep, Node.resolve, hdir]
          simp only
          rw [if_neg hblank]
          split at h
          · rename_i hparent
            rw [if_pos hparent]
            exact ih h
          · rename_i hparent
            rw [if_neg hparent]
            exact ih h
      · contradiction

/-- Two paths with the same components lead to one place, if they lead anywhere. -/
theorem resolve_eq_of_components {root : Node α} {position parts parts' place place' : List Name}
    (h : root.resolve position parts = some place)
    (h' : root.resolve position parts' = some place')
    (heq : components parts = components parts') : place = place' := by
  have hfirst := resolve_components h
  rw [heq, resolve_components h'] at hfirst
  exact (Option.some.inj hfirst).symm

end CdvizCollector.Lib.FileTree
