import CdvizCollector.Config.RemoteContent

/-!
Which references are resolved when the adapter of remote files succeeds.

A reference may stand in any table of the tree, those in arrays too. The adapter goes
into the tables of a table only, and takes the keys of a table once. What it leaves is
the tree with its references replaced unless one of them is in an array, its key has the
suffix twice, or its place is taken by something else.
-/

namespace CdvizCollector.Config

open Lib

section Resolution

variable (opendal : Opendal) (remotes : Remotes)

/-- A tree, and the same tree with the references of all its tables replaced by the
content of the files and the other entries as they were. -/
inductive Resolves : Value → Value → Prop
  | str (s : String) : Resolves (.str s) (.str s)
  | scalar (written : String) : Resolves (.scalar written) (.scalar written)
  | array {items items' : List Value} (length : items'.length = items.length)
      (item : ∀ (i : ℕ) (value value' : Value), items[i]? = some value →
        items'[i]? = some value' → Resolves value value') :
      Resolves (.array items) (.array items')
  | dict {entries entries' : Dict}
      (keys : ∀ name, (entries'.lookup name).isSome ↔ (entries.lookup (name ++ suffix)).isSome ∨
        isReference name = false ∧ (entries.lookup name).isSome)
      (replaced : ∀ name value, entries.lookup (name ++ suffix) = some value →
        ∃ content, (resolve opendal remotes (name ++ suffix) value).result = .ok content ∧
          entries'.lookup name = some (.str content))
      (other : ∀ name value value', isReference name = false → entries.lookup name = some value →
        entries'.lookup name = some value' → Resolves value value') :
      Resolves (.dict entries) (.dict entries')

/-- No key that ends in the suffix remains, and the rest is as it should be. -/
structure Resolution (dict dict' : Dict) : Prop where
  noneLeft : ¬ HasKey (fun key => isReference key = true) (.dict dict')
  resolves : Resolves opendal remotes (.dict dict) (.dict dict')

/-- The references are where the adapter gets to, and each has a place of its own. -/
inductive Placed : Dict → Prop
  | intro {dict : Dict}
      (single : ∀ name, (dict.lookup (name ++ suffix)).isSome → isReference name = false)
      (free : ∀ name reference value, dict.lookup (name ++ suffix) = some reference →
        dict.lookup name = some value → ∃ content,
          (resolve opendal remotes (name ++ suffix) reference).result = .ok content ∧
            value = .str content)
      (arrays : ∀ name items, dict.lookup name = some (.array items) →
        ¬ HasKey (fun key => isReference key = true) (.array items))
      (tables : ∀ name entries, dict.lookup name = some (.dict entries) → Placed entries) :
      Placed dict

/-! ### One table -/

/-- What is in a table after both loops, when `process` is what is done with its tables. -/
structure Rewritten (process : Dict → Run Dict) (dict dict' : Dict) : Prop where
  sorted : Assoc.Sorted dict'
  replaced : ∀ name value, dict.lookup (name ++ suffix) = some value →
    ∃ content, (resolve opendal remotes (name ++ suffix) value).result = .ok content ∧
      dict'.lookup name = some (.str content)
  removed : ∀ name, isReference name = true → dict.lookup (name ++ suffix) = none →
    dict'.lookup name = none
  kept : ∀ name, isReference name = false → dict.lookup (name ++ suffix) = none →
    Option.Rel (fun value value' => (processNested process (name, value)).result =
      .ok (name, value')) (dict.lookup name) (dict'.lookup name)

end Resolution

section Nested

variable {process : Dict → Run Dict}

theorem processNested_key {key key' : String} {value value' : Value}
    (h : (processNested process (key, value)).result = .ok (key', value')) : key' = key := by
  cases value with
  | dict nested =>
      obtain ⟨nested', -, hentry⟩ := Traced.result_bind_eq_ok_iff.mp h
      cases hentry
      rfl
  | _ => cases h; rfl

/-- The second loop changes values under the keys they have. -/
theorem lookup_processNested {table dict' : Dict}
    (h : List.Forall₂ (fun entry entry' => (processNested process entry).result = .ok entry')
      table dict') (name : String) :
    Option.Rel (fun value value' => (processNested process (name, value)).result =
      .ok (name, value')) (table.lookup name) (dict'.lookup name) := by
  induction h with
  | nil => exact .none
  | @cons entry entry' table dict' hentry _ ih =>
      obtain ⟨key, value⟩ := entry
      obtain ⟨key', value'⟩ := entry'
      have hkey : key' = key := processNested_key hentry
      subst hkey
      by_cases hname : name = key'
      · subst hname
        rw [List.lookup_cons_self, List.lookup_cons_self]
        exact .some hentry
      · have hbeq : (name == key') = false := beq_eq_false_iff_ne.mpr hname
        rw [List.lookup_cons, List.lookup_cons, hbeq]
        exact ih

theorem sorted_processNested {table dict' : Dict}
    (h : List.Forall₂ (fun entry entry' => (processNested process entry).result = .ok entry')
      table dict') (hsorted : Assoc.Sorted table) : Assoc.Sorted dict' := by
  have hkeys : dict'.map Prod.fst = table.map Prod.fst := by
    induction h with
    | nil => rfl
    | cons hentry _ ih =>
        rw [List.map_cons, List.map_cons, processNested_key hentry,
          ih (List.pairwise_cons.mp hsorted).2]
  have hpairwise : (dict'.map Prod.fst).Pairwise (· < ·) := by
    rw [hkeys]
    exact List.pairwise_map.mpr hsorted
  exact List.pairwise_map.mp hpairwise

/-- What becomes of a value that is kept. -/
theorem processNested_eq_ok_iff {name : String} {value value' : Value} :
    (processNested process (name, value)).result = .ok (name, value') ↔
      (∃ entries entries', value = .dict entries ∧ value' = .dict entries' ∧
        (process entries).result = .ok entries') ∨
      (∀ entries, value ≠ .dict entries) ∧ value' = value := by
  cases value with
  | dict entries =>
      simp only [processNested, Traced.result_bind_eq_ok_iff, Traced.result_pure]
      constructor
      · rintro ⟨entries', hentries, hvalue⟩
        cases hvalue
        exact .inl ⟨entries, entries', rfl, rfl, hentries⟩
      · rintro (⟨_, entries', hdict, rfl, hentries⟩ | ⟨hnot, -⟩)
        · cases hdict
          exact ⟨entries', hentries, rfl⟩
        · exact absurd rfl (hnot entries)
  | _ => simp [processNested, eq_comm]

end Nested

theorem mem_of_lookup {dict : Dict} {key : String} {value : Value}
    (h : dict.lookup key = some value) : (key, value) ∈ dict := by
  obtain ⟨before, after, rfl, -⟩ := List.lookup_eq_some_iff.mp h
  simp

section Keys

variable {opendal : Opendal} {remotes : Remotes} {keys : List String} (hkeys : Independent keys)
  {dict current table : Dict}
  (hcurrent : ∀ key ∈ keys, ∃ value, dict.lookup key = some value ∧
    current.lookup key = some value)
  (h : (keys.foldlM (processKey opendal remotes) current).result = .ok table)

/-- The first step of the loop, and what stands for the rest of it. -/
theorem processKeys_cons {key : String} (hkeys : Independent (key :: keys))
    (hcurrent : ∀ key' ∈ key :: keys, ∃ value, dict.lookup key' = some value ∧
      current.lookup key' = some value)
    (h : ((key :: keys).foldlM (processKey opendal remotes) current).result = .ok table) :
    ∃ value content, dict.lookup key = some value ∧
      (resolve opendal remotes key value).result = .ok content ∧
      let next := Assoc.insert (stripSuffix key) (Value.str content) (Assoc.remove key current)
      (keys.foldlM (processKey opendal remotes) next).result = .ok table ∧
        ∀ key' ∈ keys, ∃ value, dict.lookup key' = some value ∧
          next.lookup key' = some value := by
  obtain ⟨hkey, -⟩ := List.pairwise_cons.mp hkeys
  obtain ⟨⟨value, hvalue, hlookup⟩, hrest⟩ := List.forall_mem_cons.mp hcurrent
  rw [List.foldlM_cons, processKey_of_lookup hlookup] at h
  obtain ⟨next, hstep, hnext⟩ := Traced.result_bind_eq_ok_iff.mp h
  obtain ⟨content, hcontent, hinsert⟩ := Traced.result_bind_eq_ok_iff.mp hstep
  cases hinsert
  refine ⟨value, content, hvalue, hcontent, hnext, ?_⟩
  intro key' hkey'
  rw [lookup_processed (hkey key' hkey').1 (hkey key' hkey').2]
  exact hrest key' hkey'

include hkeys hcurrent h

theorem lookup_processKeys_other {name : String}
    (hname : ∀ key ∈ keys, key ≠ name ∧ stripSuffix key ≠ name) :
    table.lookup name = current.lookup name := by
  induction keys generalizing current with
  | nil =>
      cases h
      rfl
  | cons key keys ih =>
      obtain ⟨value, content, -, -, hnext, hrest⟩ := processKeys_cons hkeys hcurrent h
      obtain ⟨⟨hne, hstrip⟩, hothers⟩ := List.forall_mem_cons.mp hname
      rw [ih (List.pairwise_cons.mp hkeys).2 hrest hnext hothers, lookup_processed hne hstrip]

theorem lookup_processKeys_removed {name : String} (hmem : name ∈ keys)
    (hname : ∀ key ∈ keys, stripSuffix key ≠ name) : table.lookup name = none := by
  induction keys generalizing current with
  | nil => contradiction
  | cons key keys ih =>
      obtain ⟨value, content, -, -, hnext, hrest⟩ := processKeys_cons hkeys hcurrent h
      obtain ⟨hkey, htail⟩ := List.pairwise_cons.mp hkeys
      obtain ⟨hstrip, hothers⟩ := List.forall_mem_cons.mp hname
      -- the step of the key removes it, and no later one puts it back
      rcases List.mem_cons.mp hmem with rfl | hmem
      · have hlater := lookup_processKeys_other htail hrest hnext fun key hother =>
          ⟨(hkey key hother).1.symm, hothers key hother⟩
        rw [hlater, Assoc.lookup_insert_of_ne hstrip.symm, Assoc.lookup_remove_self]
      · exact ih htail hrest hnext hmem hothers

theorem lookup_processKeys_replaced (hreferences : ∀ key ∈ keys, isReference key = true)
    {key : String} {value : Value} (hmem : key ∈ keys) (hvalue : dict.lookup key = some value) :
    ∃ content, (resolve opendal remotes key value).result = .ok content ∧
      table.lookup (stripSuffix key) = some (.str content) := by
  induction keys generalizing current with
  | nil => contradiction
  | cons first keys ih =>
      obtain ⟨firstValue, content, hfirst, hcontent, hnext, hrest⟩ :=
        processKeys_cons hkeys hcurrent h
      obtain ⟨hkey, htail⟩ := List.pairwise_cons.mp hkeys
      obtain ⟨hreference, hothers⟩ := List.forall_mem_cons.mp hreferences
      rcases List.mem_cons.mp hmem with rfl | hmem
      · have hsame : value = firstValue := Option.some.inj (hvalue.symm.trans hfirst)
        have hlater := lookup_processKeys_other htail hrest hnext fun other hother => by
          refine ⟨(hkey other hother).2.symm, ?_⟩
          intro hstrip
          refine (hkey other hother).1 ?_
          rw [← append_stripSuffix hreference, ← hstrip,
            append_stripSuffix (hothers other hother)]
        refine ⟨content, hsame ▸ hcontent, ?_⟩
        rw [hlater, Assoc.lookup_insert_self]
      · exact ih htail hrest hnext hothers hmem

end Keys

section References

variable {dict : Dict} {name : String}

theorem stripSuffix_ne (hnone : dict.lookup (name ++ suffix) = none) {key : String}
    (hkey : key ∈ (dict.map Prod.fst).filter isReference) : stripSuffix key ≠ name := by
  rintro rfl
  obtain ⟨hreference, value, hvalue⟩ := mem_references.mp hkey
  rw [append_stripSuffix hreference, hvalue] at hnone
  contradiction

/-- After the first loop no reference is there that was not put in the place of one. -/
theorem lookup_reference_eq_none {opendal : Opendal} {remotes : Remotes} {table : Dict}
    (hsorted : Assoc.Sorted dict)
    (htable : (((dict.map Prod.fst).filter isReference).foldlM
      (processKey opendal remotes) dict).result = .ok table)
    (hreference : isReference name = true) (hnone : dict.lookup (name ++ suffix) = none) :
    table.lookup name = none := by
  have hkeys := independent_references hsorted
  have hcurrent : ∀ key ∈ (dict.map Prod.fst).filter isReference, ∃ value,
      dict.lookup key = some value ∧ dict.lookup key = some value :=
    fun key hkey => lookup_references hkey
  cases hname : dict.lookup name with
  | none =>
      rw [lookup_processKeys_other hkeys hcurrent htable, hname]
      intro key hkey
      refine ⟨?_, stripSuffix_ne hnone hkey⟩
      rintro rfl
      obtain ⟨-, value, hvalue⟩ := mem_references.mp hkey
      rw [hname] at hvalue
      contradiction
  | some value =>
      exact lookup_processKeys_removed hkeys hcurrent htable
        (mem_references.mpr ⟨hreference, value, hname⟩) fun key hkey => stripSuffix_ne hnone hkey

end References

/-- Nothing is changed where no reference is replaced, and no later one is in the way. -/
theorem rewritten_of_processDict {opendal : Opendal} {remotes : Remotes} {depth : ℕ}
    {dict dict' : Dict} (hsorted : Assoc.Sorted dict)
    (h : (processDict opendal remotes (depth + 1) dict).result = .ok dict') :
    Rewritten opendal remotes (processDict opendal remotes depth) dict dict' := by
  obtain ⟨table, htable, hmapped⟩ := Traced.result_bind_eq_ok_iff.mp h
  have hkeys := independent_references hsorted
  have hcurrent : ∀ key ∈ (dict.map Prod.fst).filter isReference, ∃ value,
      dict.lookup key = some value ∧ dict.lookup key = some value :=
    fun key hkey => lookup_references hkey
  have hnested := Traced.forall₂_of_mapM hmapped
  have hlookup := lookup_processNested hnested
  refine ⟨?_, ?_, ?_, ?_⟩
  · have hprocessed := processKeys_processed hkeys hcurrent htable
    exact sorted_processNested hnested (hprocessed.sorted hsorted)
  · intro name value hvalue
    have hmem : name ++ suffix ∈ (dict.map Prod.fst).filter isReference :=
      mem_references.mpr ⟨isReference_append name, value, hvalue⟩
    obtain ⟨content, hcontent, hplace⟩ := lookup_processKeys_replaced hkeys hcurrent htable
      (fun key hkey => (mem_references.mp hkey).1) hmem hvalue
    rw [stripSuffix_append] at hplace
    have hname := hlookup name
    rw [hplace] at hname
    refine ⟨content, hcontent, ?_⟩
    generalize dict'.lookup name = value' at hname ⊢
    -- the content is a text, which the second loop leaves as it is
    cases hname with
    | some hstep =>
        rcases processNested_eq_ok_iff.mp hstep with ⟨entries, _, hdict, _⟩ | ⟨-, rfl⟩
        · cases hdict
        · rfl
  · intro name hreference hnone
    have hname := hlookup name
    rw [lookup_reference_eq_none hsorted htable hreference hnone] at hname
    generalize dict'.lookup name = value' at hname ⊢
    cases hname
    rfl
  · intro name hreference hnone
    have hsame : table.lookup name = dict.lookup name :=
      lookup_processKeys_other hkeys hcurrent htable fun key hkey => by
        refine ⟨?_, stripSuffix_ne hnone hkey⟩
        rintro rfl
        rw [(mem_references.mp hkey).1] at hreference
        contradiction
    rw [← hsame]
    exact hlookup name

/-- A key that is taken away after the loops, when no reference was put in its place. -/
theorem Rewritten.remove {opendal : Opendal} {remotes : Remotes} {process : Dict → Run Dict}
    {dict dict' : Dict} (h : Rewritten opendal remotes process dict dict') (key : String)
    (hkey : isReference key = false) (hfree : dict.lookup (key ++ suffix) = none) :
    Rewritten opendal remotes process (Assoc.remove key dict) (Assoc.remove key dict') := by
  have hsuffix : ∀ name : String, name ++ suffix ≠ key := by
    rintro name rfl
    rw [isReference_append] at hkey
    contradiction
  have hreferences : ∀ name, (Assoc.remove key dict).lookup (name ++ suffix) =
      dict.lookup (name ++ suffix) := fun name => Assoc.lookup_remove_of_ne (hsuffix name) dict
  refine ⟨h.sorted.remove key, ?_, ?_, ?_⟩
  · intro name value hvalue
    rw [hreferences] at hvalue
    have hne : name ≠ key := by
      rintro rfl
      rw [hfree] at hvalue
      contradiction
    rw [Assoc.lookup_remove_of_ne hne]
    exact h.replaced name value hvalue
  · intro name hreference hnone
    have hne : name ≠ key := by
      rintro rfl
      rw [hkey] at hreference
      contradiction
    rw [hreferences] at hnone
    rw [Assoc.lookup_remove_of_ne hne]
    exact h.removed name hreference hnone
  · intro name hreference hnone
    rw [hreferences] at hnone
    by_cases hne : name = key
    · subst hne
      rw [Assoc.lookup_remove_self, Assoc.lookup_remove_self]
      exact .none
    · rw [Assoc.lookup_remove_of_ne hne, Assoc.lookup_remove_of_ne hne]
      exact h.kept name hreference hnone

/-! ### The tree -/

section Tree

variable {opendal : Opendal} {remotes : Remotes}

/-- What has no references is what it becomes. -/
theorem resolves_self (value : Value)
    (h : ¬ HasKey (fun key => isReference key = true) value) :
    Resolves opendal remotes value value := by
  match value with
  | .str s => exact .str s
  | .scalar written => exact .scalar written
  | .array items =>
      refine .array rfl ?_
      intro i value value' hvalue hvalue'
      rw [hvalue] at hvalue'
      cases hvalue'
      have hmem : value ∈ items := List.mem_of_getElem? hvalue
      exact resolves_self value fun hkey => h (.item hmem hkey)
  | .dict entries =>
      have hnone : ∀ name, entries.lookup (name ++ suffix) = none := by
        intro name
        by_contra hsome
        obtain ⟨value, hvalue⟩ := Option.ne_none_iff_exists'.mp hsome
        exact h (.here (mem_of_lookup hvalue) (isReference_append name))
      have hplain : ∀ name, (entries.lookup name).isSome → isReference name = false := by
        intro name hsome
        obtain ⟨value, hvalue⟩ := Option.isSome_iff_exists.mp hsome
        by_contra hreference
        rw [Bool.not_eq_false] at hreference
        exact h (.here (mem_of_lookup hvalue) hreference)
      refine .dict ?_ ?_ ?_
      · intro name
        simp only [hnone, Option.isSome_none, Bool.false_eq_true, false_or]
        exact ⟨fun hsome => ⟨hplain name hsome, hsome⟩, And.right⟩
      · intro name value hvalue
        rw [hnone] at hvalue
        contradiction
      · intro name value value' _ hvalue hvalue'
        rw [hvalue] at hvalue'
        cases hvalue'
        have hmem : (name, value) ∈ entries := mem_of_lookup hvalue
        exact resolves_self value fun hkey => h (.table hmem hkey)
termination_by sizeOf value
decreasing_by
  · have := List.sizeOf_lt_of_mem hmem
    simp only [Value.array.sizeOf_spec]
    omega
  · have := List.sizeOf_lt_of_mem hmem
    simp only [Value.dict.sizeOf_spec, Prod.mk.sizeOf_spec] at this ⊢
    omega

variable {process : Dict → Run Dict} {dict dict' : Dict}

theorem Rewritten.kept_some (h : Rewritten opendal remotes process dict dict')
    {name : String} {value : Value} (hname : isReference name = false)
    (hnone : dict.lookup (name ++ suffix) = none) (hvalue : dict.lookup name = some value) :
    ∃ value', dict'.lookup name = some value' ∧
      (processNested process (name, value)).result = .ok (name, value') := by
  have hrel := h.kept name hname hnone
  rw [hvalue] at hrel
  generalize dict'.lookup name = place at hrel ⊢
  cases hrel with
  | some hstep => exact ⟨_, rfl, hstep⟩

/-- A value that is no text is kept, where only texts are in the place of references. -/
theorem Rewritten.kept_of_not_str (h : Rewritten opendal remotes process dict dict')
    (hfree : ∀ name reference value, dict.lookup (name ++ suffix) = some reference →
      dict.lookup name = some value → ∃ content, value = .str content)
    {name : String} {value : Value} (hvalue : dict.lookup name = some value)
    (hstr : ∀ s, value ≠ .str s) :
    isReference name = false ∧ ∃ value', dict'.lookup name = some value' ∧
      (processNested process (name, value)).result = .ok (name, value') := by
  have hname : isReference name = false := by
    by_contra hreference
    rw [Bool.not_eq_false] at hreference
    rw [← append_stripSuffix hreference] at hvalue
    obtain ⟨content, hcontent, -⟩ := h.replaced _ value hvalue
    obtain ⟨operator, path, hrefers⟩ := refers_of_resolve hcontent
    cases hrefers
    exact hstr _ rfl
  have hnone : dict.lookup (name ++ suffix) = none := by
    by_contra hsome
    obtain ⟨reference, hreference⟩ := Option.ne_none_iff_exists'.mp hsome
    obtain ⟨content, hcontent⟩ := hfree name reference value hreference hvalue
    exact hstr content hcontent
  exact ⟨hname, h.kept_some hname hnone hvalue⟩

theorem placed_of_resolution (h : Rewritten opendal remotes process dict dict')
    (hnested : ∀ name entries entries', dict.lookup name = some (.dict entries) →
      (process entries).result = .ok entries' →
      Resolution opendal remotes entries entries' → Placed opendal remotes entries)
    (hresolution : Resolution opendal remotes dict dict') : Placed opendal remotes dict := by
  obtain ⟨hnone, hresolves⟩ := hresolution
  cases hresolves with
  | dict _ _ hother =>
      have hsingle : ∀ name, (dict.lookup (name ++ suffix)).isSome → isReference name = false := by
        intro name hsome
        obtain ⟨value, hvalue⟩ := Option.isSome_iff_exists.mp hsome
        obtain ⟨content, -, hplace⟩ := h.replaced name value hvalue
        by_contra hreference
        rw [Bool.not_eq_false] at hreference
        exact hnone (.here (mem_of_lookup hplace) hreference)
      have hfree : ∀ name reference value, dict.lookup (name ++ suffix) = some reference →
          dict.lookup name = some value → ∃ content,
            (resolve opendal remotes (name ++ suffix) reference).result = .ok content ∧
              value = .str content := by
        intro name reference value hreference hvalue
        obtain ⟨content, hcontent, hplace⟩ := h.replaced name reference hreference
        have hname := hsingle name (Option.isSome_iff_exists.mpr ⟨reference, hreference⟩)
        cases hother name value (.str content) hname hvalue hplace
        exact ⟨content, hcontent, rfl⟩
      have htexts : ∀ name reference value, dict.lookup (name ++ suffix) = some reference →
          dict.lookup name = some value → ∃ content, value = .str content := by
        intro name reference value hreference hvalue
        obtain ⟨content, -, hcontent⟩ := hfree name reference value hreference hvalue
        exact ⟨content, hcontent⟩
      refine .intro hsingle hfree ?_ ?_
      · -- an array is kept with all its references
        intro name items hitems hkey
        obtain ⟨-, value', hplace, hstep⟩ := h.kept_of_not_str htexts hitems (by simp)
        rcases processNested_eq_ok_iff.mp hstep with ⟨entries, _, hdict, _⟩ | ⟨-, rfl⟩
        · cases hdict
        · exact hnone (.table (mem_of_lookup hplace) hkey)
      · intro name entries hentries
        obtain ⟨hname, value', hplace, hstep⟩ := h.kept_of_not_str htexts hentries (by simp)
        rcases processNested_eq_ok_iff.mp hstep with ⟨_, entries', hdict, rfl, hdone⟩ | ⟨hnot, -⟩
        · cases hdict
          refine hnested name entries entries' hentries hdone ⟨?_, ?_⟩
          · exact fun hkey => hnone (.table (mem_of_lookup hplace) hkey)
          · exact hother name _ _ hname hentries hplace
        · exact absurd rfl (hnot entries)

/-- Where an entry of the rewritten table comes from. -/
theorem Rewritten.source (h : Rewritten opendal remotes process dict dict')
    {name : String} {value' : Value} (hplace : dict'.lookup name = some value') :
    (∃ reference content, dict.lookup (name ++ suffix) = some reference ∧
      (resolve opendal remotes (name ++ suffix) reference).result = .ok content ∧
      value' = .str content) ∨
    (dict.lookup (name ++ suffix) = none ∧ isReference name = false ∧
      ∃ value, dict.lookup name = some value ∧
        (processNested process (name, value)).result = .ok (name, value')) := by
  cases hsuffix : dict.lookup (name ++ suffix) with
  | some reference =>
      obtain ⟨content, hcontent, hreplaced⟩ := h.replaced name reference hsuffix
      rw [hreplaced] at hplace
      cases hplace
      exact .inl ⟨reference, content, rfl, hcontent, rfl⟩
  | none =>
      cases hname : isReference name with
      | true =>
          rw [h.removed name hname hsuffix] at hplace
          contradiction
      | false =>
          have hrel := h.kept name hname hsuffix
          rw [hplace] at hrel
          generalize dict.lookup name = place at hrel
          cases hrel with
          | some hstep => exact .inr ⟨rfl, rfl, _, rfl, hstep⟩

theorem noneLeft_of_placed (h : Rewritten opendal remotes process dict dict')
    (hnested : ∀ name entries entries', dict.lookup name = some (.dict entries) →
      (process entries).result = .ok entries' →
      ¬ HasKey (fun key => isReference key = true) (.dict entries'))
    (hplaced : Placed opendal remotes dict) :
    ¬ HasKey (fun key => isReference key = true) (.dict dict') := by
  obtain ⟨hsingle, -, harrays, -⟩ := hplaced
  intro hkey
  cases hkey with
  | @here _ name value' hmem hreference =>
      have hplace := (Assoc.mem_iff_lookup h.sorted).mp hmem
      rcases h.source hplace with ⟨reference, _, hsuffix, -, -⟩ | ⟨-, hname, -⟩
      · rw [hsingle name (Option.isSome_iff_exists.mpr ⟨reference, hsuffix⟩)] at hreference
        contradiction
      · rw [hname] at hreference
        contradiction
  | @table _ name value' hmem hvalue =>
      have hplace := (Assoc.mem_iff_lookup h.sorted).mp hmem
      rcases h.source hplace with ⟨_, content, -, -, rfl⟩ | ⟨-, -, value, hlookup, hstep⟩
      · cases hvalue
      · rcases processNested_eq_ok_iff.mp hstep with
          ⟨entries, entries', rfl, rfl, hdone⟩ | ⟨hnot, rfl⟩
        · exact hnested name entries entries' hlookup hdone hvalue
        · cases value' with
          | array items => exact harrays name items hlookup hvalue
          | dict entries => exact hnot entries rfl
          | str _ => cases hvalue
          | scalar _ => cases hvalue

theorem resolves_of_placed (h : Rewritten opendal remotes process dict dict')
    (hnested : ∀ name entries entries', dict.lookup name = some (.dict entries) →
      (process entries).result = .ok entries' →
      Resolves opendal remotes (.dict entries) (.dict entries'))
    (hplaced : Placed opendal remotes dict) :
    Resolves opendal remotes (.dict dict) (.dict dict') := by
  obtain ⟨-, hfree, harrays, -⟩ := hplaced
  refine .dict ?_ h.replaced ?_
  · intro name
    constructor
    · intro hsome
      obtain ⟨value', hplace⟩ := Option.isSome_iff_exists.mp hsome
      rcases h.source hplace with ⟨reference, _, hsuffix, -, -⟩ | ⟨-, hname, value, hvalue, -⟩
      · exact .inl (Option.isSome_iff_exists.mpr ⟨reference, hsuffix⟩)
      · exact .inr ⟨hname, Option.isSome_iff_exists.mpr ⟨value, hvalue⟩⟩
    · intro hbefore
      cases hsuffix : dict.lookup (name ++ suffix) with
      | some reference =>
          obtain ⟨content, -, hplace⟩ := h.replaced name reference hsuffix
          rw [hplace, Option.isSome_some]
      | none =>
          rw [hsuffix] at hbefore
          rcases hbefore with hbefore | ⟨hname, hsome⟩
          · contradiction
          · obtain ⟨value, hvalue⟩ := Option.isSome_iff_exists.mp hsome
            obtain ⟨value', hplace, -⟩ := h.kept_some hname hsuffix hvalue
            rw [hplace, Option.isSome_some]
  · intro name value value' hname hvalue hplace
    rcases h.source hplace with
      ⟨reference, content, hsuffix, hcontent, rfl⟩ | ⟨-, -, before, hbefore, hstep⟩
    · obtain ⟨content', hcontent', rfl⟩ := hfree name reference value hsuffix hvalue
      rw [hcontent] at hcontent'
      cases hcontent'
      exact .str content
    · rw [hvalue] at hbefore
      cases hbefore
      rcases processNested_eq_ok_iff.mp hstep with
        ⟨entries, entries', rfl, rfl, hdone⟩ | ⟨hnot, rfl⟩
      · exact hnested name entries entries' hvalue hdone
      · refine resolves_self value' fun hkey => ?_
        cases value' with
        | array items => exact harrays name items hvalue hkey
        | dict entries => exact hnot entries rfl
        | str _ => cases hkey
        | scalar _ => cases hkey

/-- A table is resolved when its references are placed, if so are the tables in it. -/
theorem Rewritten.resolution_iff (h : Rewritten opendal remotes process dict dict')
    (hnested : ∀ name entries entries', dict.lookup name = some (.dict entries) →
      (process entries).result = .ok entries' →
      (Resolution opendal remotes entries entries' ↔ Placed opendal remotes entries)) :
    Resolution opendal remotes dict dict' ↔ Placed opendal remotes dict := by
  constructor
  · exact placed_of_resolution h fun name entries entries' hentries hdone =>
      (hnested name entries entries' hentries hdone).mp
  · intro hplaced
    have hall : ∀ name entries entries', dict.lookup name = some (.dict entries) →
        (process entries).result = .ok entries' → Resolution opendal remotes entries entries' := by
      intro name entries entries' hentries hdone
      refine (hnested name entries entries' hentries hdone).mpr ?_
      cases hplaced with
      | intro _ _ _ htables => exact htables name entries hentries
    constructor
    · exact noneLeft_of_placed h (fun name entries entries' hentries hdone =>
        (hall name entries entries' hentries hdone).noneLeft) hplaced
    · exact resolves_of_placed h (fun name entries entries' hentries hdone =>
        (hall name entries entries' hentries hdone).resolves) hplaced

theorem processDict_resolution_iff {depth : ℕ} (hordered : Ordered dict)
    (hdepth : nesting dict < depth)
    (h : (processDict opendal remotes depth dict).result = .ok dict') :
    Resolution opendal remotes dict dict' ↔ Placed opendal remotes dict := by
  induction depth generalizing dict dict' with
  | zero => contradiction
  | succ depth ih =>
      refine (rewritten_of_processDict hordered.sorted h).resolution_iff ?_
      intro name entries entries' hentries hdone
      have hlt := nesting_lt_of_mem (mem_of_lookup hentries)
      exact ih (hordered.nested hentries) (by omega) hdone

end Tree

/-! ### The adapter -/

theorem remoteFileAdapter_ok {opendal : Opendal} {provider : Run Dict} {remotes : Remotes}
    {dict dict' : Dict} (hprovider : provider.result = .ok dict)
    (hremotes : extractRemoteConfigs dict = .ok remotes)
    (h : (remoteFileAdapter opendal provider).result = .ok dict') :
    ∃ full, (processDict opendal remotes (nesting dict + 1) dict).result = .ok full ∧
      dict' = Assoc.remove "remote" full := by
  obtain ⟨_, hdict, hrest⟩ := Traced.result_bind_eq_ok_iff.mp h
  cases hprovider.symm.trans hdict
  obtain ⟨_, hbase, hrest⟩ := Traced.result_bind_eq_ok_iff.mp hrest
  cases hprovider.symm.trans hbase
  obtain ⟨_, hextracted, hrest⟩ := Traced.result_bind_eq_ok_iff.mp hrest
  cases hremotes.symm.trans hextracted
  obtain ⟨full, hfull, hremoved⟩ := Traced.result_bind_eq_ok_iff.mp hrest
  cases hremoved
  exact ⟨full, hfull, rfl⟩

/-- The section `remote` is taken away once it has served: it is no part of what is to be
resolved, and what a reference `remote_rfile` puts in its place is taken away with it. -/
theorem remote_references_resolved_iff {opendal : Opendal} {provider : Run Dict}
    {remotes : Remotes} {dict dict' : Dict} (hprovider : provider.result = .ok dict)
    (hordered : Ordered dict) (hremotes : extractRemoteConfigs dict = .ok remotes)
    (h : (remoteFileAdapter opendal provider).result = .ok dict') :
    Resolution opendal remotes (Assoc.remove "remote" dict) dict' ↔
      Placed opendal remotes (Assoc.remove "remote" dict) ∧
        dict.lookup "remote_rfile" = none := by
  obtain ⟨full, hfull, rfl⟩ := remoteFileAdapter_ok hprovider hremotes h
  have hrewritten := rewritten_of_processDict hordered.sorted hfull
  have hsuffix : "remote_rfile" = "remote" ++ suffix := rfl
  have hne : "remote_rfile" ≠ "remote" := by decide
  cases hfree : dict.lookup "remote_rfile" with
  | some reference =>
      -- its content should be under `remote`, which is taken away
      simp only [reduceCtorEq, and_false, iff_false]
      rintro ⟨-, hresolves⟩
      cases hresolves with
      | dict hkeys _ _ =>
          have hplace := (hkeys "remote").mpr (.inl (by
            rw [← hsuffix, Assoc.lookup_remove_of_ne hne, hfree, Option.isSome_some]))
          rw [Assoc.lookup_remove_self] at hplace
          contradiction
  | none =>
      rw [hsuffix] at hfree
      have hremoved := hrewritten.remove "remote" (by decide) hfree
      rw [hremoved.resolution_iff, and_iff_left rfl]
      intro name entries entries' hentries hdone
      have hname : name ≠ "remote" := by
        rintro rfl
        rw [Assoc.lookup_remove_self] at hentries
        contradiction
      rw [Assoc.lookup_remove_of_ne hname] at hentries
      have hlt := nesting_lt_of_mem (mem_of_lookup hentries)
      exact processDict_resolution_iff (hordered.nested hentries) hlt hdone

/-! ### Samples -/

theorem lookup_singleton_iff {name key : String} {value value' : Value} :
    List.lookup name [(key, value)] = some value' ↔ name = key ∧ value = value' := by
  rw [← Assoc.mem_iff_lookup (List.pairwise_singleton _ _), List.mem_singleton, Prod.mk.injEq,
    eq_comm (a := value')]

theorem Placed.table {opendal : Opendal} {remotes : Remotes} {key : String} {entries : Dict}
    (hkey : isReference key = false) (h : Placed opendal remotes entries) :
    Placed opendal remotes [(key, .dict entries)] := by
  have hnone : ∀ name, List.lookup (name ++ suffix) [(key, Value.dict entries)] = none := by
    intro name
    by_contra hsome
    obtain ⟨value, hvalue⟩ := Option.ne_none_iff_exists'.mp hsome
    rw [← (lookup_singleton_iff.mp hvalue).1, isReference_append] at hkey
    contradiction
  refine .intro ?_ ?_ ?_ ?_
  · intro name hsome
    rw [hnone] at hsome
    contradiction
  · intro name reference value hreference
    rw [hnone] at hreference
    contradiction
  · intro name items hitems
    cases (lookup_singleton_iff.mp hitems).2
  · intro name nested hnested
    cases (lookup_singleton_iff.mp hnested).2
    exact h

theorem Placed.reference {opendal : Opendal} {remotes : Remotes} {uri : String}
    (key : String) (hkey : isReference key = false) :
    Placed opendal remotes [(key ++ suffix, .str uri)] := by
  refine .intro ?_ ?_ ?_ ?_
  · intro name hsome
    obtain ⟨value, hvalue⟩ := Option.isSome_iff_exists.mp hsome
    have hname := (lookup_singleton_iff.mp hvalue).1
    rw [← stripSuffix_append name, hname, stripSuffix_append, hkey]
  · intro name reference value hreference hvalue
    have hname := (lookup_singleton_iff.mp hvalue).1
    have hnext := (lookup_singleton_iff.mp hreference).1
    have hlong := congrArg (fun key => key.toList.length) (hnext.trans hname.symm)
    simp [suffix] at hlong
  · intro name items hitems
    cases (lookup_singleton_iff.mp hitems).2
  · intro name nested hnested
    cases (lookup_singleton_iff.mp hnested).2

theorem ordered_table {key : String} {entries : Dict} (h : Ordered entries) :
    Ordered [(key, .dict entries)] := by
  refine .of_mem (List.pairwise_singleton _ _) ?_
  simp only [List.mem_singleton, Prod.mk.injEq, Value.dict.injEq]
  rintro _ _ ⟨-, rfl⟩
  exact h

/-- A remote of the web, and tables that refer to it. -/
def sampleTree (key : String) (value : Value) : Dict :=
  [("remote", .dict [("community",
    .dict [("endpoint", .str "https://cdviz.example.com/"), ("type", .str "http")])]),
    (key, value)]

theorem sampleTree_ordered {key : String} {value : Value} (hkey : "remote" < key)
    (h : ∀ entries, value = .dict entries → Ordered entries) :
    Ordered (sampleTree key value) := by
  refine .of_mem (by simpa [sampleTree, Assoc.Sorted] using hkey) ?_
  simp only [sampleTree, List.mem_cons, Prod.mk.injEq]
  rintro _ _ (⟨-, hremote⟩ | ⟨-, hvalue⟩ | hnil)
  · cases hremote
    exact ordered_table (.of_mem (by unfold Assoc.Sorted; decide) (by simp))
  · exact h _ hvalue.symm
  · contradiction

/-- A transformer with a table of its own. -/
theorem remote_references_resolved_iff_table :
    Resolution sampleOpendal [("community", ⟨"http", [("endpoint", "https://cdviz.example.com/")]⟩)]
      [("transformers", .dict [("t", .dict [("template_rfile", .str "community:///to_v0_5.vrl")])])]
      [("transformers", .dict [("t", .dict [("template", .str ". = [.]")])])] := by
  have hordered : Ordered (sampleTree "transformers"
      (.dict [("t", .dict [("template_rfile", .str "community:///to_v0_5.vrl")])])) := by
    refine sampleTree_ordered (by decide) ?_
    rintro _ ⟨⟩
    exact ordered_table (.of_mem (List.pairwise_singleton _ _) (by simp))
  have hplaced : ∀ remotes, Placed sampleOpendal remotes [("transformers",
      .dict [("t", .dict [("template_rfile", .str "community:///to_v0_5.vrl")])])] := fun _ =>
    .table (by decide) (.table (by decide) (Placed.reference "template" (by decide)))
  exact (@remote_references_resolved_iff _ (pure (sampleTree "transformers" _)) _ _ _ rfl
    hordered rfl rfl).mpr ⟨hplaced _, rfl⟩

/-- A transformer that stands in the list `transformers` of a source: the reference is
still there, and no content was put beside it. -/
theorem reference_in_array_left :
    ¬ ∀ (opendal : Opendal) (provider : Run Dict) (remotes : Remotes) (dict dict' : Dict),
      provider.result = .ok dict → Ordered dict → extractRemoteConfigs dict = .ok remotes →
      (remoteFileAdapter opendal provider).result = .ok dict' →
      Resolution opendal remotes (Assoc.remove "remote" dict) dict' := by
  intro hall
  have hordered : Ordered (sampleTree "sources" (.dict [("github", .dict [("transformers",
      .array [.dict [("template_rfile", .str "community:///to_v0_5.vrl"),
        ("type", .str "vrl")]])])])) := by
    refine sampleTree_ordered (by decide) ?_
    rintro _ ⟨⟩
    exact ordered_table (.of_mem (List.pairwise_singleton _ _) (by simp))
  obtain ⟨hnone, -⟩ := hall sampleOpendal (pure (sampleTree "sources" _)) _ _ _ rfl hordered rfl rfl
  refine hnone (.table List.mem_cons_self (.table List.mem_cons_self (.table List.mem_cons_self
    (.item List.mem_cons_self (.here List.mem_cons_self ?_)))))
  decide

end CdvizCollector.Config
