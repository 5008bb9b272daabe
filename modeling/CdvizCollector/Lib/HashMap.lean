import CdvizCollector.Lib.Result

/-!
Hash maps by name.

A map is the list of its entries in the order of its iteration, which is arbitrary
but stays the same while only values change.
-/

namespace CdvizCollector.Lib

variable {α ε : Type}

/-- Each value in turn, up to the first that fails. -/
def eachValue (f : α → Except ε α) (entries : List (String × α)) :
    Except ε (List (String × α)) :=
  entries.mapM fun entry => do
    let value ← f entry.2
    return (entry.1, value)

theorem keys_eachValue {f : α → Except ε α} {entries entries' : List (String × α)}
    (h : eachValue f entries = .ok entries') :
    entries'.map Prod.fst = entries.map Prod.fst := by
  refine map_of_mapM_eq_ok (fun entry entry' hentry => ?_) h
  obtain ⟨value, -, rfl⟩ := bind_pure_eq_ok_iff.mp hentry
  rfl

/-- `HashMap<String, α>`. -/
@[ext]
structure HashMap (α : Type) where
  entries : List (String × α)
  distinct : (entries.map Prod.fst).Nodup

namespace HashMap

def keys (map : HashMap α) : List String := map.entries.map Prod.fst

def get (map : HashMap α) (key : String) : Option α := map.entries.lookup key

/-- `iter_mut().try_for_each`. -/
def tryForEach (f : α → Except ε α) (map : HashMap α) : Except ε (HashMap α) :=
  match h : eachValue f map.entries with
  | .ok entries => .ok { entries, distinct := keys_eachValue h ▸ map.distinct }
  | .error e => .error e

/-- `iter_mut().for_each`. -/
def forEach (f : α → α) (map : HashMap α) : HashMap α where
  entries := map.entries.map fun entry => (entry.1, f entry.2)
  distinct := by simpa [Function.comp_def] using map.distinct

/-- The keys, sorted. -/
def names (map : HashMap α) : List String := map.keys.mergeSort fun a b => decide (a ≤ b)

theorem mem_names {map : HashMap α} {key : String} :
    key ∈ map.names ↔ ∃ value, (key, value) ∈ map.entries := by
  simp [names, keys]

theorem mem_of_get {map : HashMap α} {key : String} {value : α} (h : map.get key = some value) :
    (key, value) ∈ map.entries := by
  obtain ⟨before, after, hentries, -⟩ := List.lookup_eq_some_iff.mp h
  rw [hentries]
  exact List.mem_append_right before List.mem_cons_self

/-- What is looked up is the entry. -/
theorem get_of_mem {map : HashMap α} {key : String} {value : α}
    (h : (key, value) ∈ map.entries) : map.get key = some value := by
  obtain ⟨entries, hdistinct⟩ := map
  rw [get]
  induction entries with
  | nil => contradiction
  | cons entry entries ih =>
      obtain ⟨hnot, hrest⟩ := List.nodup_cons.mp hdistinct
      rcases List.mem_cons.mp h with rfl | hmem
      · exact List.lookup_cons_self
      · have hne : key ≠ entry.1 := by
          intro heq
          exact hnot (heq ▸ List.mem_map_of_mem hmem)
        rw [List.lookup_cons, beq_eq_false_iff_ne.mpr hne]
        exact ih hrest hmem

/-- A visit of all entries by name is one of the entries. -/
theorem forall_names_iff {map : HashMap α} {P : String → α → Prop} :
    (∀ name ∈ map.names, ∀ value, map.get name = some value → P name value) ↔
      ∀ entry ∈ map.entries, P entry.1 entry.2 := by
  constructor
  · intro h entry hmem
    exact h entry.1 (mem_names.mpr ⟨_, hmem⟩) entry.2 (get_of_mem hmem)
  · intro h name hname value hvalue
    obtain ⟨value', hmem⟩ := mem_names.mp hname
    rw [get_of_mem hmem] at hvalue
    exact Option.some.inj hvalue ▸ h _ hmem

theorem tryForEach_failFirst {f : α → Except ε α} {errors : α → List ε} {g : α → α}
    (h : ∀ a, f a = failFirst (errors a) (g a)) (map : HashMap α) :
    map.tryForEach f =
      failFirst (map.entries.flatMap fun entry => errors entry.2) (map.forEach g) := by
  have heach : eachValue f map.entries =
      failFirst (map.entries.flatMap fun entry => errors entry.2)
        (map.entries.map fun entry => (entry.1, g entry.2)) := by
    refine mapM_failFirst (fun entry => ?_) map.entries
    rw [h entry.2]
    exact failFirst_map
  rw [tryForEach]
  split
  · rename_i entries hentries
    rw [heach, failFirst_eq_ok_iff] at hentries
    obtain ⟨herrors, rfl⟩ := hentries
    rw [herrors]
    rfl
  · rename_i e he
    rw [heach, failFirst_eq_error_iff] at he
    obtain ⟨errors', herrors⟩ := List.head?_eq_some_iff.mp he
    rw [herrors]
    rfl

end HashMap

end CdvizCollector.Lib
