import CdvizCollector.Lib.Assoc
import CdvizCollector.Lib.Text

/-!
JSON values, after `serde_json::Value` without its `preserve_order` feature.

An object is the list of its entries by increasing key, the order of the
`BTreeMap` behind `serde_json::Map`. Of the operations on values, indexed
assignment is the one that can panic: `Json.indexMut` returns `none` there.
Printing and parsing text is left to the users of this module.
-/

namespace CdvizCollector.Lib

/-- `serde_json::Number`; a float is given by its bits. -/
inductive Number where
  | posInt (n : UInt64)
  | negInt (n : Int64)
  | float (bits : UInt64)
deriving DecidableEq, Repr

inductive Json where
  | null
  | bool (b : Bool)
  | num (n : Number)
  | str (s : String)
  | arr (elems : List Json)
  | obj (fields : List (String × Json))
deriving Repr, Inhabited

namespace Json

/-- The entries of an object. -/
abbrev Fields := List (String × Json)

/-- `Value::get` with a key. -/
def get (key : String) : Json → Option Json
  | .obj fields => fields.lookup key
  | _ => none

def asStr : Json → Option String
  | .str s => some s
  | _ => none

def asArray : Json → Option (List Json)
  | .arr elems => some elems
  | _ => none

def asObject : Json → Option Fields
  | .obj fields => some fields
  | _ => none

def isNull : Json → Bool
  | .null => true
  | _ => false

/-- `json!` of a map of strings. -/
def ofStrings (entries : List (String × String)) : Json :=
  .obj (Assoc.ofList (entries.map fun entry => (entry.1, .str entry.2)))

/-- `f` applied in place to `value[key]`. Indexing turns `null` into an object
and adds a missing key as `null`; it panics on any other value. -/
def indexMut (key : String) (f : Json → Option Json) : Json → Option Json
  | .null => (f .null).map fun v => .obj [(key, v)]
  | .obj fields =>
      (f ((fields.lookup key).getD .null)).map fun v => .obj (Assoc.insert key v fields)
  | _ => none

/-! ### Pointers -/

/-- `str::replace` of a tilde followed by `code`. -/
def replaceEscape (code char : Char) : List Char → List Char
  | '~' :: c :: rest =>
      if c = code then char :: replaceEscape code char rest
      else '~' :: replaceEscape code char (c :: rest)
  | c :: rest => c :: replaceEscape code char rest
  | [] => []

/-- `parse_index`: decimal digits without a sign or a leading zero, within 64 bits. -/
def parseIndex (token : List Char) : Option Nat :=
  if token.head? = some '+' ∨ (token.head? = some '0' ∧ token.length ≠ 1) then none
  else (Text.parseDigits token).bind fun n => if n ≤ Text.maxU64 then some n else none

/-- One step of `Value::pointer`. -/
def pointerStep (target : Json) (token : List Char) : Option Json :=
  let token := replaceEscape '0' '~' (replaceEscape '1' '/' token)
  match target with
  | .obj fields => fields.lookup (String.ofList token)
  | .arr elems => (parseIndex token).bind fun i => elems[i]?
  | _ => none

/-- `Value::pointer`. -/
def pointer (path : String) (value : Json) : Option Json :=
  match path.toList with
  | [] => some value
  | '/' :: rest => (rest.splitOn '/').foldlM pointerStep value
  | _ => none

example : (Json.obj [("a/b", .arr [.null, .str "x"])]).pointer "/a~1b/1" = some (.str "x") := by
  rfl

/-! ### Indexed assignment -/

/-- The values that can be assigned to by key. -/
def isIndexable : Json → Bool
  | .null | .obj _ => true
  | _ => false

theorem indexMut_isSome_iff (key : String) (f : Json → Option Json) (value : Json) :
    (value.indexMut key f).isSome ↔
      value.isIndexable ∧ (f ((value.get key).getD .null)).isSome := by
  cases value <;> simp [indexMut, isIndexable, get]

theorem isIndexable_indexMut {key : String} {f : Json → Option Json} {value value' : Json}
    (h : value.indexMut key f = some value') : value'.isIndexable := by
  cases value with
  | null | obj fields =>
      simp only [indexMut, Option.map_eq_some_iff] at h
      obtain ⟨v, -, rfl⟩ := h
      rfl
  | bool b | num n | str s | arr elems => simp [indexMut] at h

/-- A value that cannot be indexed has no entries. -/
theorem get_of_not_isIndexable {key : String} {value : Json} (h : ¬value.isIndexable) :
    value.get key = none := by
  cases value <;> simp_all [isIndexable, get]

theorem get_indexMut_self {key : String} {f : Json → Option Json} {value value' : Json}
    (h : value.indexMut key f = some value') :
    value'.get key = f ((value.get key).getD .null) := by
  cases value with
  | null =>
      simp only [indexMut, Option.map_eq_some_iff] at h
      obtain ⟨v, hv, rfl⟩ := h
      simp [get, hv]
  | obj fields =>
      simp only [indexMut, Option.map_eq_some_iff] at h
      obtain ⟨v, hv, rfl⟩ := h
      simp [get, hv]
  | bool b | num n | str s | arr elems => simp [indexMut] at h

theorem get_indexMut_of_ne {key other : String} {f : Json → Option Json} {value value' : Json}
    (hne : other ≠ key) (h : value.indexMut key f = some value') :
    value'.get other = value.get other := by
  cases value with
  | null =>
      simp only [indexMut, Option.map_eq_some_iff] at h
      obtain ⟨v, -, rfl⟩ := h
      have hbeq : (other == key) = false := beq_eq_false_iff_ne.mpr hne
      simp [get, List.lookup_cons, hbeq]
  | obj fields =>
      simp only [indexMut, Option.map_eq_some_iff] at h
      obtain ⟨v, -, rfl⟩ := h
      exact Assoc.lookup_insert_of_ne hne v fields
  | bool b | num n | str s | arr elems => simp [indexMut] at h

end Json

end CdvizCollector.Lib
