import CdvizCollector.Lib.JsonTree

/-!
The body of a log record (`to_any_value` in `sinks/otel.rs`).

A CDEvent is exported as a structured value, without its nulls, which OpenTelemetry
has no value for. What a reader of the body gets back is told by `AnyValue.toJson`.
-/

namespace CdvizCollector.Sinks.Otel

open Lib

/-- The values of OpenTelemetry, but for bytes, which no JSON gives. The entries of a
map are listed by key. -/
inductive AnyValue where
  | boolean (b : Bool)
  | int (i : Int64)
  | double (bits : UInt64)
  | string (s : String)
  | listAny (values : List AnyValue)
  | map (entries : List (String × AnyValue))
deriving Repr, Inhabited

mutual

def toAnyValue : Json → Option AnyValue
  | .null => none
  | .bool b => some (.boolean b)
  | .num n => (n.asI64.map .int).or (n.asF64.map .double)
  | .str s => some (.string s)
  | .arr elems => some (.listAny (toAnyValues elems))
  | .obj fields => some (.map (toEntries fields))

/-- The elements of an array that have a value. -/
def toAnyValues : List Json → List AnyValue
  | [] => []
  | elem :: elems =>
      match toAnyValue elem with
      | some value => value :: toAnyValues elems
      | none => toAnyValues elems

/-- The entries of an object that have a value. -/
def toEntries : Json.Fields → List (String × AnyValue)
  | [] => []
  | (key, field) :: fields =>
      match toAnyValue field with
      | some value => (key, value) :: toEntries fields
      | none => toEntries fields

end

namespace AnyValue

mutual

/-- A body read as JSON. -/
def toJson : AnyValue → Json
  | .boolean b => .bool b
  | .int i => .num (.ofI64 i)
  | .double bits => .num (.float bits)
  | .string s => .str s
  | .listAny values => .arr (toElems values)
  | .map entries => .obj (toFields entries)

def toElems : List AnyValue → List Json
  | [] => []
  | value :: values => value.toJson :: toElems values

def toFields : List (String × AnyValue) → Json.Fields
  | [] => []
  | (key, value) :: entries => (key, value.toJson) :: toFields entries

end

def get (key : String) : AnyValue → Option AnyValue
  | .map entries => entries.lookup key
  | _ => none

/-- What is found along a path of keys. -/
def atPath (path : List String) (value : AnyValue) : Option AnyValue :=
  path.foldlM (fun target key => target.get key) value

end AnyValue

/-! ### Reading back -/

mutual

/-- A body that is read as JSON and exported again is the same. -/
theorem toAnyValue_toJson : ∀ value : AnyValue, toAnyValue value.toJson = some value
  | .boolean _ | .double _ | .string _ => rfl
  | .int i => by
      rw [AnyValue.toJson, toAnyValue, Number.asI64_ofI64]
      rfl
  | .listAny values => by
      rw [AnyValue.toJson, toAnyValue, toAnyValues_toElems values]
  | .map entries => by
      rw [AnyValue.toJson, toAnyValue, toEntries_toFields entries]

theorem toAnyValues_toElems :
    ∀ values : List AnyValue, toAnyValues (AnyValue.toElems values) = values
  | [] => rfl
  | value :: values => by
      rw [AnyValue.toElems, toAnyValues, toAnyValue_toJson value, toAnyValues_toElems values]

theorem toEntries_toFields :
    ∀ entries : List (String × AnyValue), toEntries (AnyValue.toFields entries) = entries
  | [] => rfl
  | (key, value) :: entries => by
      rw [AnyValue.toFields, toEntries, toAnyValue_toJson value, toEntries_toFields entries]

end

/-! ### What is exported as it is -/

/-- No value of the tree is null, and its numbers are exact. -/
inductive Exportable : Json → Prop
  | bool (b : Bool) : Exportable (.bool b)
  | num {n : Number} (h : n.Exact) : Exportable (.num n)
  | str (s : String) : Exportable (.str s)
  | arr {elems : List Json} (h : ∀ elem ∈ elems, Exportable elem) : Exportable (.arr elems)
  | obj {fields : Json.Fields} (h : ∀ entry ∈ fields, Exportable entry.2) :
      Exportable (.obj fields)

/-- The body gives the value back. -/
def Kept (value : Json) : Prop := (toAnyValue value).map AnyValue.toJson = some value

theorem kept_num_iff {n : Number} : Kept (.num n) ↔ n.Exact := by
  cases n with
  | posInt n =>
      by_cases hle : n.toNat ≤ Text.maxI64
      · apply iff_of_true _ hle
        show Option.map AnyValue.toJson (((Number.posInt n).asI64.map .int).or _) = _
        rw [Number.asI64, if_pos hle]
        show some (Json.num (.ofI64 n.toInt64)) = _
        rw [Number.ofI64_toInt64 hle]
      · apply iff_of_false _ hle
        show Option.map AnyValue.toJson (((Number.posInt n).asI64.map .int).or _) ≠ _
        rw [Number.asI64, if_neg hle]
        intro h
        exact absurd (Json.num.inj (Option.some.inj h)) Number.noConfusion
  | negInt i =>
      show some (Json.num (.ofI64 i)) = _ ↔ i < 0
      rw [Option.some.injEq, Json.num.injEq, Number.ofI64]
      split
      · rename_i hle
        exact iff_of_false Number.noConfusion (Int64.not_lt.mpr hle)
      · rename_i hlt
        exact iff_of_true rfl (Int64.not_le.mp hlt)
  | float bits => exact iff_of_true rfl trivial

theorem kept_iff_of_some {elem : Json} {value : AnyValue} (h : toAnyValue elem = some value) :
    Kept elem ↔ value.toJson = elem := by
  rw [Kept, h, Option.map_some, Option.some.injEq]

theorem not_kept_of_none {elem : Json} (h : toAnyValue elem = none) : ¬Kept elem := by
  rw [Kept, h]
  exact fun h => absurd h.symm (Option.some_ne_none elem)

theorem length_toElems_le (elems : List Json) :
    (AnyValue.toElems (toAnyValues elems)).length ≤ elems.length := by
  induction elems with
  | nil => exact Nat.le_refl 0
  | cons elem elems ih =>
      rw [toAnyValues]
      cases toAnyValue elem with
      | none => exact Nat.le_succ_of_le ih
      | some value => exact Nat.succ_le_succ ih

theorem length_toFields_le (fields : Json.Fields) :
    (AnyValue.toFields (toEntries fields)).length ≤ fields.length := by
  induction fields with
  | nil => exact Nat.le_refl 0
  | cons entry fields ih =>
      rw [toEntries]
      cases toAnyValue entry.2 with
      | none => exact Nat.le_succ_of_le ih
      | some value => exact Nat.succ_le_succ ih

/-- An array is given back if its elements are: one that is left out makes it shorter. -/
theorem toElems_eq_iff (elems : List Json) :
    AnyValue.toElems (toAnyValues elems) = elems ↔ ∀ elem ∈ elems, Kept elem := by
  induction elems with
  | nil => exact iff_of_true rfl fun _ h => absurd h List.not_mem_nil
  | cons elem elems ih =>
      rw [toAnyValues, List.forall_mem_cons, ← ih]
      cases hvalue : toAnyValue elem with
      | none =>
          apply iff_of_false
          · intro h
            have hle := length_toElems_le elems
            rw [show AnyValue.toElems (toAnyValues elems) = elem :: elems from h,
              List.length_cons] at hle
            omega
          · exact fun h => not_kept_of_none hvalue h.1
      | some value =>
          rw [kept_iff_of_some hvalue]
          show value.toJson :: AnyValue.toElems (toAnyValues elems) = elem :: elems ↔ _
          rw [List.cons.injEq]

theorem toFields_eq_iff (fields : Json.Fields) :
    AnyValue.toFields (toEntries fields) = fields ↔ ∀ entry ∈ fields, Kept entry.2 := by
  induction fields with
  | nil => exact iff_of_true rfl fun _ h => absurd h List.not_mem_nil
  | cons entry fields ih =>
      obtain ⟨key, field⟩ := entry
      rw [toEntries, List.forall_mem_cons, ← ih]
      cases hvalue : toAnyValue field with
      | none =>
          apply iff_of_false
          · intro h
            have hle := length_toFields_le fields
            rw [show AnyValue.toFields (toEntries fields) = (key, field) :: fields from h,
              List.length_cons] at hle
            omega
          · exact fun h => not_kept_of_none hvalue h.1
      | some value =>
          rw [kept_iff_of_some hvalue]
          show (key, value.toJson) :: AnyValue.toFields (toEntries fields) = _ ↔ _
          rw [List.cons.injEq, Prod.mk.injEq, eq_self_iff_true, true_and]

theorem kept_arr_iff {elems : List Json} : Kept (.arr elems) ↔ ∀ elem ∈ elems, Kept elem := by
  rw [← toElems_eq_iff, Kept, toAnyValue, Option.map_some, AnyValue.toJson, Option.some.injEq,
    Json.arr.injEq]

theorem kept_obj_iff {fields : Json.Fields} :
    Kept (.obj fields) ↔ ∀ entry ∈ fields, Kept entry.2 := by
  rw [← toFields_eq_iff, Kept, toAnyValue, Option.map_some, AnyValue.toJson, Option.some.injEq,
    Json.obj.injEq]

theorem exportable_of_kept : ∀ value : Json, Kept value → Exportable value
  | .null, h => absurd h (not_kept_of_none rfl)
  | .bool b, _ => .bool b
  | .num _, h => .num (kept_num_iff.mp h)
  | .str s, _ => .str s
  | .arr elems, h => .arr fun elem hmem =>
      have := List.sizeOf_lt_of_mem hmem
      exportable_of_kept elem (kept_arr_iff.mp h elem hmem)
  | .obj fields, h => .obj fun entry hmem =>
      have := List.sizeOf_lt_of_mem hmem
      exportable_of_kept entry.2 (kept_obj_iff.mp h entry hmem)
termination_by value => sizeOf value
decreasing_by
  · simp only [Json.arr.sizeOf_spec]
    omega
  · have hentry : sizeOf entry.2 < sizeOf entry := by
      obtain ⟨key, field⟩ := entry
      simp only [Prod.mk.sizeOf_spec]
      omega
    simp only [Json.obj.sizeOf_spec]
    omega

theorem kept_iff_exportable {value : Json} : Kept value ↔ Exportable value := by
  refine ⟨exportable_of_kept value, fun h => ?_⟩
  induction h with
  | bool b | str s => rfl
  | num h => exact kept_num_iff.mpr h
  | arr _ ih => exact kept_arr_iff.mpr ih
  | obj _ ih => exact kept_obj_iff.mpr ih

/-! ### Paths -/

/-- The entry under a key is exported as it is alone. -/
theorem lookup_toEntries {fields : Json.Fields} (hkeys : (fields.map Prod.fst).Nodup)
    (key : String) : (toEntries fields).lookup key = (fields.lookup key).bind toAnyValue := by
  induction fields with
  | nil => rfl
  | cons entry fields ih =>
      obtain ⟨k, field⟩ := entry
      rw [List.map_cons, List.nodup_cons] at hkeys
      rw [toEntries, List.lookup_cons]
      by_cases hkey : key = k
      · subst hkey
        rw [beq_self_eq_true]
        show _ = toAnyValue field
        cases hvalue : toAnyValue field with
        | some value => exact List.lookup_cons_self
        | none =>
            show (toEntries fields).lookup key = none
            have hnone : fields.lookup key = none := by
              rw [List.lookup_eq_none_iff]
              intro entry hmem
              rw [bne_iff_ne]
              rintro rfl
              exact hkeys.1 (show entry.1 ∈ fields.map Prod.fst from List.mem_map_of_mem hmem)
            rw [ih hkeys.2, hnone, Option.bind_none]
      · have hbeq : (key == k) = false := beq_eq_false_iff_ne.mpr hkey
        rw [hbeq]
        show _ = (fields.lookup key).bind toAnyValue
        rw [← ih hkeys.2]
        cases toAnyValue field with
        | none => rfl
        | some value =>
            show ((k, value) :: toEntries fields).lookup key = _
            rw [List.lookup_cons, hbeq]

theorem get_toAnyValue {value : Json} (hdistinct : value.Distinct) (key : String) :
    (toAnyValue value).bind (AnyValue.get key) = (value.get key).bind toAnyValue := by
  cases hdistinct with
  | null | bool b | str s | arr h => rfl
  | num n =>
      show (toAnyValue (.num n)).bind (AnyValue.get key) = none
      rw [toAnyValue]
      cases n.asI64 with
      | some i => rfl
      | none => cases n.asF64 <;> rfl
  | obj hkeys h => exact lookup_toEntries hkeys key

theorem atPath_toAnyValue (path : List String) :
    ∀ {value : Json}, value.Distinct →
      (toAnyValue value).bind (AnyValue.atPath path) = (value.atPath path).bind toAnyValue := by
  induction path with
  | nil =>
      intro value _
      show (toAnyValue value).bind some = (some value).bind toAnyValue
      rw [Option.bind_fun_some, Option.bind_some]
  | cons key path ih =>
      intro value hdistinct
      show (toAnyValue value).bind (fun target => (target.get key).bind (AnyValue.atPath path)) =
        ((value.get key).bind (Json.atPath path)).bind toAnyValue
      rw [← Option.bind_assoc, get_toAnyValue hdistinct]
      cases hfield : value.get key with
      | none => rfl
      | some field => exact ih (hdistinct.get hfield)

/-- What is found in the body at a path of keys is what the event has there, exported.
The body gives the event back exactly if it has no null and no integer above those of 64
bits with a sign, and to export what is given back changes nothing. -/
theorem body_reads_as_event {event : Json} (hdistinct : event.Distinct) :
    (∀ path : List String, (toAnyValue event).bind (AnyValue.atPath path) =
        (event.atPath path).bind toAnyValue) ∧
      ((toAnyValue event).map AnyValue.toJson = some event ↔ Exportable event) ∧
      ∀ body, toAnyValue event = some body → toAnyValue body.toJson = toAnyValue event := by
  refine ⟨fun path => atPath_toAnyValue path hdistinct, kept_iff_exportable, ?_⟩
  intro body hbody
  rw [toAnyValue_toJson, hbody]

def nulledEvent : Json := .obj [("context", .obj [("id", .str "x")]), ("parent", .null)]

/-- A null goes missing, and nothing else: the id is read where the event has it. -/
theorem body_reads_as_event_sample :
    ∃ body, toAnyValue nulledEvent = some body ∧
      body.atPath ["context", "id"] = some (.string "x") ∧
      body.toJson ≠ nulledEvent ∧ toAnyValue body.toJson = some body := by
  have hdistinct : nulledEvent.Distinct := by
    refine .obj (show ["context", "parent"].Nodup by decide) ?_
    rw [List.forall_mem_cons]
    refine ⟨.obj (show ["id"].Nodup by decide) fun entry hmem => ?_, fun entry hmem => ?_⟩
    · rw [List.mem_singleton.mp hmem]
      exact .str "x"
    · rw [List.mem_singleton.mp hmem]
      exact .null
  obtain ⟨hpath, hkept, hagain⟩ := body_reads_as_event hdistinct
  refine ⟨_, rfl, hpath ["context", "id"], fun hback => ?_, hagain _ rfl⟩
  cases hkept.mp (congrArg some hback) with
  | obj hfields => cases hfields ("parent", .null) (List.mem_cons_of_mem _ List.mem_cons_self)

end CdvizCollector.Sinks.Otel
