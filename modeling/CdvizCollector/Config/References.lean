import CdvizCollector.Config.RemoteFile

/-!
What the adapter of remote files does with a whole tree.

The references it follows are those in the tables it gets to: not those in arrays, and
not those below an entry that is itself replaced by the content of a file. It succeeds
when all of them are resolved, and what it reads is what they read.
-/

namespace CdvizCollector.Config

open Lib

/-- An entry that the adapter replaces by the content of a file. -/
inductive Reference : Dict → String → Value → Prop
  | here {dict : Dict} {key : String} {value : Value} (hkey : isReference key = true)
      (h : dict.lookup key = some value) : Reference dict key value
  | inside {dict nested : Dict} {name key : String} {value : Value}
      (hnested : dict.lookup name = some (.dict nested)) (hname : isReference name = false)
      (hkept : dict.lookup (name ++ suffix) = none) (h : Reference nested key value) :
      Reference dict key value

/-! ### Keys -/

theorem stripSuffix_append (name : String) : stripSuffix (name ++ suffix) = name := by
  unfold stripSuffix
  rw [String.toList_append, List.length_append, Nat.add_sub_cancel, List.take_left,
    String.ofList_toList]

theorem isReference_append (name : String) : isReference (name ++ suffix) = true := by
  rw [isReference, endsWith_iff, String.toList_append]
  exact List.suffix_append _ _

theorem append_stripSuffix {key : String} (h : isReference key = true) :
    stripSuffix key ++ suffix = key := by
  obtain ⟨name, hname⟩ := endsWith_iff.mp h
  have hkey : key = String.ofList name ++ suffix := by
    rw [← String.toList_inj, String.toList_append, String.toList_ofList, hname]
  rw [hkey, stripSuffix_append]

/-- A key stands before the reference that is stored under it. -/
theorem stripSuffix_ne_of_lt {key key' : String} (h : isReference key = true)
    (hlt : key < key') : stripSuffix key ≠ key' := by
  rintro rfl
  have hprefix : (stripSuffix key).toList <+: key.toList := by
    rw [← append_stripSuffix h, String.toList_append]
    simp [stripSuffix_append]
  exact hprefix.le hlt

/-- Keys of which none is changed by the processing of an earlier one. -/
def Independent (keys : List String) : Prop :=
  keys.Pairwise fun key key' => key ≠ key' ∧ stripSuffix key ≠ key'

theorem independent_references {dict : Dict} (h : Assoc.Sorted dict) :
    Independent ((dict.map Prod.fst).filter isReference) := by
  have hkeys : ((dict.map Prod.fst).filter isReference).Pairwise (· < ·) :=
    (List.pairwise_map.mpr h).filter _
  refine hkeys.imp_of_mem fun hkey _ hlt => ⟨String.ne_of_lt hlt, ?_⟩
  exact stripSuffix_ne_of_lt (List.mem_filter.mp hkey).2 hlt

theorem mem_references {dict : Dict} {key : String} :
    key ∈ (dict.map Prod.fst).filter isReference ↔
      isReference key = true ∧ ∃ value, dict.lookup key = some value := by
  rw [List.mem_filter, and_comm, List.mem_map, ← Option.isSome_iff_exists,
    List.lookup_isSome_iff]
  simp

/-! ### One table -/

section Table

variable {opendal : Opendal} {remotes : Remotes}

theorem processKey_of_lookup {dict : Dict} {key : String} {value : Value}
    (h : dict.lookup key = some value) :
    processKey opendal remotes dict key = (do
      let content ← resolve opendal remotes key value
      return Assoc.insert (stripSuffix key) (.str content) (Assoc.remove key dict)) := by
  rw [processKey, h]

/-- A step changes nothing at the keys that are left. -/
theorem lookup_processed {dict : Dict} {key key' content : String}
    (hne : key ≠ key') (hstrip : stripSuffix key ≠ key') :
    (Assoc.insert (stripSuffix key) (Value.str content) (Assoc.remove key dict)).lookup key' =
      dict.lookup key' := by
  rw [Assoc.lookup_insert_of_ne hstrip.symm, Assoc.lookup_remove_of_ne hne.symm]

/-- The tables that are left after a step. -/
theorem lookup_processed_dict_iff {dict nested : Dict} {key content name : String} :
    (Assoc.insert (stripSuffix key) (Value.str content) (Assoc.remove key dict)).lookup name =
        some (.dict nested) ↔
      dict.lookup name = some (.dict nested) ∧ key ≠ name ∧ stripSuffix key ≠ name := by
  by_cases hstrip : stripSuffix key = name
  · subst hstrip
    simp [Assoc.lookup_insert_self]
  · by_cases hne : key = name
    · subst hne
      rw [Assoc.lookup_insert_of_ne (Ne.symm hstrip), Assoc.lookup_remove_self]
      simp
    · rw [lookup_processed hne hstrip]
      simp [hne, hstrip]

variable {keys : List String} (hkeys : Independent keys) {dict : Dict}

include hkeys

theorem processKeys_ok_iff {current : Dict}
    (hcurrent : ∀ key ∈ keys, ∃ value, dict.lookup key = some value ∧
      current.lookup key = some value) :
    (∃ dict', (keys.foldlM (processKey opendal remotes) current).result = .ok dict') ↔
      ∀ key ∈ keys, ∀ value, dict.lookup key = some value →
        ∃ content, (resolve opendal remotes key value).result = .ok content := by
  induction keys generalizing current with
  | nil => simp
  | cons key keys ih =>
      obtain ⟨hkey, hkeys⟩ := List.pairwise_cons.mp hkeys
      obtain ⟨⟨value, hvalue, hlookup⟩, hrest⟩ := List.forall_mem_cons.mp hcurrent
      rw [List.foldlM_cons, processKey_of_lookup hlookup, List.forall_mem_cons]
      simp only [Traced.result_bind_eq_ok_iff]
      have hnext : ∀ content, ∀ key' ∈ keys, ∃ value, dict.lookup key' = some value ∧
          (Assoc.insert (stripSuffix key) (Value.str content)
            (Assoc.remove key current)).lookup key' = some value := by
        intro content key' hkey'
        rw [lookup_processed (hkey key' hkey').1 (hkey key' hkey').2]
        exact hrest key' hkey'
      constructor
      · rintro ⟨dict', next, ⟨content, hcontent, hstep⟩, hdict'⟩
        cases hstep
        refine ⟨?_, (ih hkeys (hnext content)).mp ⟨dict', hdict'⟩⟩
        intro value' hvalue'
        rw [hvalue] at hvalue'
        cases hvalue'
        exact ⟨content, hcontent⟩
      · rintro ⟨hfirst, hothers⟩
        obtain ⟨content, hcontent⟩ := hfirst value hvalue
        obtain ⟨dict', hdict'⟩ := (ih hkeys (hnext content)).mpr hothers
        exact ⟨dict', _, ⟨content, hcontent, rfl⟩, hdict'⟩

/-- What is known of a table once its references are replaced. -/
structure Processed (dict current dict' : Dict) (keys : List String) (trace : List String)
    (opened : String → Value → List String) : Prop where
  trace : ∀ file, file ∈ trace ↔
    ∃ key ∈ keys, ∃ value, dict.lookup key = some value ∧ file ∈ opened key value
  sorted : Assoc.Sorted current → Assoc.Sorted dict'
  nested : ∀ name nested, dict'.lookup name = some (.dict nested) ↔
    current.lookup name = some (.dict nested) ∧ ∀ key ∈ keys, key ≠ name ∧ stripSuffix key ≠ name

theorem processKeys_processed {current dict' : Dict}
    (hcurrent : ∀ key ∈ keys, ∃ value, dict.lookup key = some value ∧
      current.lookup key = some value)
    (h : (keys.foldlM (processKey opendal remotes) current).result = .ok dict') :
    Processed dict current dict' keys (keys.foldlM (processKey opendal remotes) current).trace
      fun key value => (resolve opendal remotes key value).trace := by
  induction keys generalizing current with
  | nil =>
      cases h
      constructor <;> simp
  | cons key keys ih =>
      obtain ⟨hkey, hkeys⟩ := List.pairwise_cons.mp hkeys
      obtain ⟨⟨value, hvalue, hlookup⟩, hrest⟩ := List.forall_mem_cons.mp hcurrent
      rw [List.foldlM_cons] at h ⊢
      obtain ⟨next, hstep, hnext⟩ := Traced.result_bind_eq_ok_iff.mp h
      have hfiles : ∀ file, file ∈ (processKey opendal remotes current key).trace ↔
          file ∈ (resolve opendal remotes key value).trace := by
        intro file
        rw [processKey_of_lookup hlookup] at hstep ⊢
        obtain ⟨content, hcontent, -⟩ := Traced.result_bind_eq_ok_iff.mp hstep
        rw [Traced.mem_trace_bind hcontent, Traced.trace_pure]
        simp
      rw [processKey_of_lookup hlookup] at hstep
      obtain ⟨content, -, hinsert⟩ := Traced.result_bind_eq_ok_iff.mp hstep
      cases hinsert
      have hprocessed := ih hkeys (fun key' hkey' => by
        rw [lookup_processed (hkey key' hkey').1 (hkey key' hkey').2]
        exact hrest key' hkey') hnext
      rw [← processKey_of_lookup hlookup] at hstep
      constructor
      · intro file
        rw [Traced.mem_trace_bind hstep, hfiles, hprocessed.trace]
        simp [hvalue]
      · intro hsorted
        exact hprocessed.sorted ((hsorted.remove key).insert (stripSuffix key) (.str content))
      · intro name nested
        rw [hprocessed.nested, lookup_processed_dict_iff, List.forall_mem_cons, and_assoc]

end Table

/-! ### The tree -/

theorem processNested_ok_iff {process : Dict → Run Dict} {entry : String × Value} :
    (∃ entry', (processNested process entry).result = .ok entry') ↔
      ∀ nested, entry.2 = .dict nested → ∃ nested', (process nested).result = .ok nested' := by
  obtain ⟨name, value⟩ := entry
  cases value with
  | dict nested =>
      simp only [processNested, Traced.result_bind_eq_ok_iff, Value.dict.injEq, forall_eq']
      constructor
      · rintro ⟨-, nested', hnested', -⟩
        exact ⟨nested', hnested'⟩
      · rintro ⟨nested', hnested'⟩
        exact ⟨_, nested', hnested', rfl⟩
  | _ => simp [processNested]

theorem mem_trace_processNested {process : Dict → Run Dict} {entry : String × Value}
    {file : String} : file ∈ (processNested process entry).trace ↔
      ∃ nested, entry.2 = .dict nested ∧ file ∈ (process nested).trace := by
  obtain ⟨name, value⟩ := entry
  cases value with
  | dict nested =>
      simp only [processNested, Value.dict.injEq, exists_eq_left']
      cases h : (process nested).result with
      | error e => rw [Traced.bind_of_error h]
      | ok nested' => rw [Traced.mem_trace_bind h, Traced.trace_pure]; simp
  | _ => simp [processNested]

/-- The references are those in the table itself, and those of the tables that are left
when they are replaced. -/
theorem reference_iff {dict dict' : Dict} {trace : List String}
    {opened : String → Value → List String}
    (h : Processed dict dict dict' ((dict.map Prod.fst).filter isReference) trace opened)
    {key : String} {value : Value} :
    Reference dict key value ↔
      (key ∈ (dict.map Prod.fst).filter isReference ∧ dict.lookup key = some value) ∨
        ∃ name nested, dict'.lookup name = some (.dict nested) ∧ Reference nested key value := by
  constructor
  · intro href
    cases href with
    | here hkey hvalue => exact .inl ⟨mem_references.mpr ⟨hkey, value, hvalue⟩, hvalue⟩
    | @inside _ nested name _ _ hnested hname hkept href =>
        refine .inr ⟨name, nested, (h.nested name nested).mpr ⟨hnested, ?_⟩, href⟩
        intro other hother
        obtain ⟨hisRef, otherValue, hotherValue⟩ := mem_references.mp hother
        constructor
        · rintro rfl
          rw [hisRef] at hname
          contradiction
        · rintro rfl
          rw [append_stripSuffix hisRef, hotherValue] at hkept
          contradiction
  · rintro (⟨hmem, hvalue⟩ | ⟨name, nested, hnested, href⟩)
    · exact .here (mem_references.mp hmem).1 hvalue
    · obtain ⟨hlookup, hkept⟩ := (h.nested name nested).mp hnested
      refine .inside hlookup ?_ ?_ href
      · by_contra hname
        rw [Bool.not_eq_false] at hname
        exact (hkept name (mem_references.mpr ⟨hname, _, hlookup⟩)).1 rfl
      · by_contra hsome
        obtain ⟨other, hother⟩ := Option.ne_none_iff_exists'.mp hsome
        refine (hkept _ (mem_references.mpr ⟨isReference_append name, other, hother⟩)).2 ?_
        exact stripSuffix_append name

section Tree

variable {opendal : Opendal} {remotes : Remotes} {dict : Dict}

theorem lookup_references {key : String} (h : key ∈ (dict.map Prod.fst).filter isReference) :
    ∃ value, dict.lookup key = some value ∧ dict.lookup key = some value := by
  obtain ⟨-, value, hvalue⟩ := mem_references.mp h
  exact ⟨value, hvalue, hvalue⟩

/-- The tables that are left after the first loop have tables of the tree in them. -/
theorem Processed.table {dict dict' : Dict} {keys trace : List String}
    {opened : String → Value → List String} (h : Processed dict dict dict' keys trace opened)
    (hordered : Ordered dict) {name : String} {nested : Dict}
    (hmem : (name, Value.dict nested) ∈ dict') :
    dict'.lookup name = some (.dict nested) ∧ Ordered nested ∧ nesting nested < nesting dict := by
  have hlookup := (Assoc.mem_iff_lookup (h.sorted hordered.sorted)).mp hmem
  have hbefore := ((h.nested name nested).mp hlookup).1
  exact ⟨hlookup, hordered.nested hbefore,
    nesting_lt_of_mem ((Assoc.mem_iff_lookup hordered.sorted).mpr hbefore)⟩

/-- Where `process` does with smaller tables what it should, the second loop succeeds
when the references of the tables that are left are resolved. -/
theorem processNested_all_ok_iff {process : Dict → Run Dict} {dict' : Dict}
    {keys trace : List String} {opened : String → Value → List String}
    (h : Processed dict dict dict' keys trace opened) (hordered : Ordered dict)
    (hprocess : ∀ nested, Ordered nested → nesting nested < nesting dict →
      ((∃ nested', (process nested).result = .ok nested') ↔ ∀ key value,
        Reference nested key value →
          ∃ content, (resolve opendal remotes key value).result = .ok content)) :
    (∃ dict'', (dict'.mapM (processNested process)).result = .ok dict'') ↔
      ∀ name nested, dict'.lookup name = some (.dict nested) → ∀ key value,
        Reference nested key value →
          ∃ content, (resolve opendal remotes key value).result = .ok content := by
  rw [Traced.mapM_ok_iff]
  simp only [processNested_ok_iff, Prod.forall]
  constructor
  · intro hall name nested hlookup
    have hmem := (Assoc.mem_iff_lookup (h.sorted hordered.sorted)).mpr hlookup
    obtain ⟨-, hnested, hlt⟩ := h.table hordered hmem
    exact (hprocess nested hnested hlt).mp (hall name _ hmem nested rfl)
  · rintro hall name _ hmem nested rfl
    obtain ⟨hlookup, hnested, hlt⟩ := h.table hordered hmem
    exact (hprocess nested hnested hlt).mpr (hall name nested hlookup)

theorem processDict_ok_iff {depth : ℕ} (hordered : Ordered dict) (hdepth : nesting dict < depth) :
    (∃ dict', (processDict opendal remotes depth dict).result = .ok dict') ↔
      ∀ key value, Reference dict key value →
        ∃ content, (resolve opendal remotes key value).result = .ok content := by
  induction depth generalizing dict with
  | zero => contradiction
  | succ depth ih =>
      have hindependent := independent_references hordered.sorted
      have hkeys := @processKeys_ok_iff opendal remotes _ hindependent dict dict
        fun key hkey => lookup_references hkey
      have hsmaller : ∀ nested, Ordered nested → nesting nested < nesting dict → _ :=
        fun nested hnested hlt => ih hnested (by omega)
      rw [processDict]
      simp only [Traced.result_bind_eq_ok_iff]
      constructor
      · rintro ⟨dict'', dict', hdict', hdict''⟩ key value href
        have hprocessed := processKeys_processed hindependent
          (fun key hkey => lookup_references hkey) hdict'
        rcases (reference_iff hprocessed).mp href with
          ⟨hmem, hvalue⟩ | ⟨name, nested, hnested, href⟩
        · exact hkeys.mp ⟨dict', hdict'⟩ key hmem value hvalue
        · exact (processNested_all_ok_iff hprocessed hordered hsmaller).mp ⟨dict'', hdict''⟩ name
            nested hnested key value href
      · intro h
        obtain ⟨dict', hdict'⟩ := hkeys.mpr fun key hmem value hvalue =>
          h key value (.here (mem_references.mp hmem).1 hvalue)
        have hprocessed := processKeys_processed hindependent
          (fun key hkey => lookup_references hkey) hdict'
        obtain ⟨dict'', hdict''⟩ :=
          (processNested_all_ok_iff hprocessed hordered hsmaller).mpr fun name nested hnested key
            value href =>
              h key value ((reference_iff hprocessed).mpr (.inr ⟨name, nested, hnested, href⟩))
        exact ⟨dict'', dict', hdict', hdict''⟩

/-- And it reads what these references read. -/
theorem mem_trace_processNested_all {process : Dict → Run Dict} {dict' dict'' : Dict}
    {keys trace : List String} {opened : String → Value → List String}
    (h : Processed dict dict dict' keys trace opened) (hordered : Ordered dict)
    (hdone : (dict'.mapM (processNested process)).result = .ok dict'') {file : String}
    (hprocess : ∀ nested, Ordered nested → nesting nested < nesting dict →
      (∃ nested', (process nested).result = .ok nested') →
        (file ∈ (process nested).trace ↔ ∃ key value, Reference nested key value ∧
          file ∈ (resolve opendal remotes key value).trace)) :
    file ∈ (dict'.mapM (processNested process)).trace ↔
      ∃ name nested, dict'.lookup name = some (.dict nested) ∧ ∃ key value,
        Reference nested key value ∧ file ∈ (resolve opendal remotes key value).trace := by
  have hnested : ∀ name nested, (name, Value.dict nested) ∈ dict' →
      (file ∈ (process nested).trace ↔ ∃ key value, Reference nested key value ∧
        file ∈ (resolve opendal remotes key value).trace) := by
    intro name nested hmem
    obtain ⟨-, hnested, hlt⟩ := h.table hordered hmem
    have hall := Traced.mapM_ok_iff.mp ⟨dict'', hdone⟩ _ hmem
    exact hprocess nested hnested hlt (processNested_ok_iff.mp hall nested rfl)
  rw [Traced.mem_trace_mapM hdone]
  constructor
  · rintro ⟨⟨name, value⟩, hmem, hfile⟩
    obtain ⟨nested, rfl, hopened⟩ := mem_trace_processNested.mp hfile
    exact ⟨name, nested, (h.table hordered hmem).1, (hnested name nested hmem).mp hopened⟩
  · rintro ⟨name, nested, hlookup, hfile⟩
    have hmem := (Assoc.mem_iff_lookup (h.sorted hordered.sorted)).mpr hlookup
    exact ⟨(name, .dict nested), hmem,
      mem_trace_processNested.mpr ⟨nested, rfl, (hnested name nested hmem).mpr hfile⟩⟩

theorem mem_trace_processDict {depth : ℕ} (hordered : Ordered dict)
    (hdepth : nesting dict < depth) {dict' : Dict}
    (h : (processDict opendal remotes depth dict).result = .ok dict') {file : String} :
    file ∈ (processDict opendal remotes depth dict).trace ↔
      ∃ key value, Reference dict key value ∧
        file ∈ (resolve opendal remotes key value).trace := by
  induction depth generalizing dict dict' with
  | zero => contradiction
  | succ depth ih =>
      rw [processDict] at h ⊢
      obtain ⟨table, htable, hmapped⟩ := Traced.result_bind_eq_ok_iff.mp h
      have hprocessed := processKeys_processed (independent_references hordered.sorted)
        (fun key hkey => lookup_references hkey) htable
      rw [Traced.mem_trace_bind htable, hprocessed.trace,
        mem_trace_processNested_all hprocessed hordered hmapped fun nested hnested hlt hdone =>
          hdone.elim fun nested' hnested' => ih hnested (by omega) hnested']
      constructor
      · rintro (⟨key, hmem, value, hvalue, hfile⟩ |
          ⟨name, nested, hlookup, key, value, href, hfile⟩)
        · exact ⟨key, value, (reference_iff hprocessed).mpr (.inl ⟨hmem, hvalue⟩), hfile⟩
        · exact ⟨key, value, (reference_iff hprocessed).mpr (.inr ⟨name, nested, hlookup, href⟩),
            hfile⟩
      · rintro ⟨key, value, href, hfile⟩
        rcases (reference_iff hprocessed).mp href with
          ⟨hmem, hvalue⟩ | ⟨name, nested, hlookup, href⟩
        · exact .inl ⟨key, hmem, value, hvalue, hfile⟩
        · exact .inr ⟨name, nested, hlookup, key, value, href, hfile⟩

end Tree

end CdvizCollector.Config
