import CdvizCollector.Lib.Assoc

/-!
Trees of configuration, as `figment` and `toml` have them.

A table is the list of its entries by increasing key, the order of the `BTreeMap`
behind it. Numbers, booleans and dates are given by how they are written. The tags
that tell from which provider a value comes are left out.
-/

namespace CdvizCollector.Config

open Lib

inductive Value where
  | str (s : String)
  | scalar (written : String)
  | array (items : List Value)
  | dict (entries : List (String × Value))
deriving Repr, Inhabited

abbrev Dict := List (String × Value)

/-- The tables are in order, those in arrays apart. -/
inductive Ordered : Dict → Prop
  | intro {dict : Dict} (sorted : Assoc.Sorted dict)
      (nested : ∀ {key : String} {entries : Dict}, dict.lookup key = some (.dict entries) →
        Ordered entries) : Ordered dict

theorem Ordered.sorted {dict : Dict} (h : Ordered dict) : Assoc.Sorted dict := by
  cases h with | intro hsorted _ => exact hsorted

theorem Ordered.nested {dict : Dict} (h : Ordered dict) {key : String} {entries : Dict}
    (hkey : dict.lookup key = some (.dict entries)) : Ordered entries := by
  cases h with | intro _ hnested => exact hnested hkey

theorem Ordered.of_mem {dict : Dict} (hsorted : Assoc.Sorted dict)
    (h : ∀ key entries, (key, Value.dict entries) ∈ dict → Ordered entries) : Ordered dict :=
  .intro hsorted fun hkey => h _ _ ((Assoc.mem_iff_lookup hsorted).mpr hkey)

/-! ### Keys -/

/-- A table of the tree has a key of the kind. -/
inductive HasKey (P : String → Prop) : Value → Prop
  | here {dict : Dict} {key : String} {value : Value} (h : (key, value) ∈ dict) (hkey : P key) :
      HasKey P (.dict dict)
  | table {dict : Dict} {key : String} {value : Value} (h : (key, value) ∈ dict)
      (hvalue : HasKey P value) : HasKey P (.dict dict)
  | item {items : List Value} {value : Value} (h : value ∈ items) (hvalue : HasKey P value) :
      HasKey P (.array items)

theorem hasKey_dict_cons {P : String → Prop} {key : String} {value : Value} {dict : Dict} :
    HasKey P (.dict ((key, value) :: dict)) ↔
      (P key ∨ HasKey P value) ∨ HasKey P (.dict dict) := by
  constructor
  · intro h
    cases h with
    | here h hkey =>
        rcases List.mem_cons.mp h with h | h
        · exact .inl (.inl ((Prod.mk.inj h).1 ▸ hkey))
        · exact .inr (.here h hkey)
    | table h hvalue =>
        rcases List.mem_cons.mp h with h | h
        · exact .inl (.inr ((Prod.mk.inj h).2 ▸ hvalue))
        · exact .inr (.table h hvalue)
  · rintro ((hkey | hvalue) | h)
    · exact .here List.mem_cons_self hkey
    · exact .table List.mem_cons_self hvalue
    · cases h with
      | here h hkey => exact .here (List.mem_cons_of_mem _ h) hkey
      | table h hvalue => exact .table (List.mem_cons_of_mem _ h) hvalue

theorem hasKey_array_cons {P : String → Prop} {value : Value} {items : List Value} :
    HasKey P (.array (value :: items)) ↔ HasKey P value ∨ HasKey P (.array items) := by
  constructor
  · intro h
    cases h with
    | item h hvalue =>
        rcases List.mem_cons.mp h with rfl | h
        · exact .inl hvalue
        · exact .inr (.item h hvalue)
  · rintro (hvalue | h)
    · exact .item List.mem_cons_self hvalue
    · cases h with
      | item h hvalue => exact .item (List.mem_cons_of_mem _ h) hvalue

/-- `str::ends_with`. -/
def endsWith (suffix s : String) : Bool := suffix.toList.isSuffixOf s.toList

theorem endsWith_iff {suffix s : String} :
    endsWith suffix s = true ↔ suffix.toList <:+ s.toList :=
  List.isSuffixOf_iff_suffix

mutual

def rawValueContainsFileKey : Value → Bool
  | .dict table => tableContainsFileKey table
  | .array items => itemsContainFileKey items
  | _ => false

def tableContainsFileKey : Dict → Bool
  | [] => false
  | (key, value) :: table =>
      ((endsWith "_file" key && !endsWith "_rfile" key) || rawValueContainsFileKey value) ||
        tableContainsFileKey table

def itemsContainFileKey : List Value → Bool
  | [] => false
  | value :: items => rawValueContainsFileKey value || itemsContainFileKey items

end

/-- A key that ends in `_rfile` does not end in `_file`, so that nothing is excepted. -/
theorem fileKey_iff {key : String} :
    (endsWith "_file" key && !endsWith "_rfile" key) = true ↔ endsWith "_file" key = true := by
  rw [Bool.and_eq_true, Bool.not_eq_true', and_iff_left_iff_imp]
  intro hfile
  by_contra hrfile
  rw [Bool.not_eq_false, endsWith_iff] at hrfile
  have hsuffix := List.suffix_of_suffix_length_le (endsWith_iff.mp hfile) hrfile (by decide)
  exact absurd hsuffix (by decide)

theorem tableContainsFileKey_iff {table : Dict} (h : ∀ entry ∈ table,
    (rawValueContainsFileKey entry.2 = true ↔
      HasKey (fun key => endsWith "_file" key = true) entry.2)) :
    tableContainsFileKey table = true ↔
      HasKey (fun key => endsWith "_file" key = true) (.dict table) := by
  induction table with
  | nil => exact ⟨by simp [tableContainsFileKey], fun h => by cases h <;> contradiction⟩
  | cons entry table ih =>
      obtain ⟨hentry, htable⟩ := List.forall_mem_cons.mp h
      rw [hasKey_dict_cons, ← hentry, ← ih htable, ← fileKey_iff, tableContainsFileKey,
        Bool.or_eq_true, Bool.or_eq_true]

theorem itemsContainFileKey_iff {items : List Value} (h : ∀ value ∈ items,
    (rawValueContainsFileKey value = true ↔
      HasKey (fun key => endsWith "_file" key = true) value)) :
    itemsContainFileKey items = true ↔
      HasKey (fun key => endsWith "_file" key = true) (.array items) := by
  induction items with
  | nil => exact ⟨by simp [itemsContainFileKey], fun h => by cases h; contradiction⟩
  | cons value items ih =>
      obtain ⟨hvalue, hitems⟩ := List.forall_mem_cons.mp h
      rw [hasKey_array_cons, ← hvalue, ← ih hitems, itemsContainFileKey, Bool.or_eq_true]

theorem sizeOf_lt_of_mem_table {entry : String × Value} {table : Dict} (h : entry ∈ table) :
    sizeOf entry.2 < sizeOf table := by
  have hlt := List.sizeOf_lt_of_mem h
  obtain ⟨key, value⟩ := entry
  rw [Prod.mk.sizeOf_spec] at hlt
  show sizeOf value < sizeOf table
  omega

theorem rawValueContainsFileKey_iff : ∀ value : Value,
    rawValueContainsFileKey value = true ↔ HasKey (fun key => endsWith "_file" key = true) value
  | .dict table => tableContainsFileKey_iff fun entry hmem =>
      have hlt := sizeOf_lt_of_mem_table hmem
      rawValueContainsFileKey_iff entry.2
  | .array items => itemsContainFileKey_iff fun value hmem =>
      have hlt := List.sizeOf_lt_of_mem hmem
      rawValueContainsFileKey_iff value
  | .str _ => ⟨by simp [rawValueContainsFileKey], fun h => by cases h⟩
  | .scalar _ => ⟨by simp [rawValueContainsFileKey], fun h => by cases h⟩
termination_by value => sizeOf value

/-! ### Operations -/

mutual

/-- `Value::coalesce` with `Order::Merge`: tables are merged, and otherwise the new
value is taken. -/
def Value.coalesce : Value → Value → Value
  | .dict old, .dict new => .dict (coalesce old new)
  | _, new => new

def coalesce : Dict → Dict → Dict
  | [], new => new
  | (key, value) :: old, new =>
      Assoc.insert key
        (match new.lookup key with
          | some newValue => value.coalesce newValue
          | none => value)
        (coalesce old (Assoc.remove key new))

end

theorem lookup_coalesce (old new : Dict) (key : String) :
    (coalesce old new).lookup key =
      match old.lookup key, new.lookup key with
      | some value, some newValue => some (value.coalesce newValue)
      | some value, none => some value
      | none, newValue => newValue := by
  induction old generalizing new with
  | nil => rfl
  | cons entry old ih =>
      obtain ⟨k, value⟩ := entry
      rw [coalesce]
      by_cases hkey : key = k
      · subst hkey
        rw [Assoc.lookup_insert_self, List.lookup_cons_self]
        cases new.lookup key <;> rfl
      · have hbeq : (key == k) = false := beq_eq_false_iff_ne.mpr hkey
        rw [Assoc.lookup_insert_of_ne hkey, ih, Assoc.lookup_remove_of_ne hkey, List.lookup_cons,
          hbeq]

mutual

def Value.substituteNow (now : String) : Value → Value
  | .str s => .str (if s = "$now" then now else s)
  | .scalar written => .scalar written
  | .array items => .array (substituteNowItems now items)
  | .dict entries => .dict (substituteNow now entries)

def substituteNowItems (now : String) : List Value → List Value
  | [] => []
  | value :: items => value.substituteNow now :: substituteNowItems now items

def substituteNow (now : String) : Dict → Dict
  | [] => []
  | (key, value) :: dict => (key, value.substituteNow now) :: substituteNow now dict

end

theorem lookup_substituteNow (now : String) (dict : Dict) (key : String) :
    (substituteNow now dict).lookup key = (dict.lookup key).map (Value.substituteNow now) := by
  induction dict with
  | nil => rfl
  | cons entry dict ih =>
      obtain ⟨k, value⟩ := entry
      rw [substituteNow, List.lookup_cons, List.lookup_cons, ih]
      cases key == k <;> rfl

mutual

/-- How deep tables are nested, without those in arrays. -/
def Value.nesting : Value → ℕ
  | .dict entries => nesting entries + 1
  | _ => 0

def nesting : Dict → ℕ
  | [] => 0
  | (_, value) :: dict => max value.nesting (nesting dict)

end

theorem nesting_lt_of_mem {dict : Dict} {key : String} {entries : Dict}
    (h : (key, .dict entries) ∈ dict) : nesting entries < nesting dict := by
  induction dict with
  | nil => contradiction
  | cons entry dict ih =>
      rw [nesting]
      rcases List.mem_cons.mp h with rfl | h
      · rw [Value.nesting]
        omega
      · have hdict := ih h
        omega

end CdvizCollector.Config
