import CdvizCollector.Lib.Binary64
import CdvizCollector.Lib.Json

/-!
JSON values as trees: what is found along a path of keys, and the numbers read as
those of other types.
-/

namespace CdvizCollector.Lib

/-! ### Numbers -/

/-- `Number::as_i64`. -/
def Number.asI64 : Number → Option Int64
  | .posInt n => if n.toNat ≤ Text.maxI64 then some n.toInt64 else none
  | .negInt i => some i
  | .float _ => none

/-- `Number::as_f64`, by its bits. -/
def Number.asF64 : Number → Option UInt64
  | .posInt n => some (Binary64.toBits (Binary64.ofNat n.toNat))
  | .negInt i => some (Binary64.negBits (Binary64.ofNat i.toInt.natAbs))
  | .float bits => some bits

/-- `Number::from` of an `i64`. -/
def Number.ofI64 (i : Int64) : Number := if 0 ≤ i then .posInt i.toUInt64 else .negInt i

theorem Number.asI64_ofI64 (i : Int64) : (Number.ofI64 i).asI64 = some i := by
  unfold Number.ofI64
  split
  · rename_i hle
    have hnat : i.toUInt64.toNat ≤ Text.maxI64 := by
      have hlt : i.toInt < 2 ^ 63 := Int64.toInt_lt i
      rw [Int64.toNat_toUInt64_of_le hle]
      show i.toInt.toNat ≤ 9223372036854775807
      omega
    rw [Number.asI64, if_pos hnat, Int64.toInt64_toUInt64]
  · rfl

theorem Number.ofI64_toInt64 {n : UInt64} (h : n.toNat ≤ Text.maxI64) :
    Number.ofI64 n.toInt64 = .posInt n := by
  have hlt : n.toInt64.toUInt64.toNat < 2 ^ 63 := Nat.lt_succ_of_le h
  have hnat : n.toInt64.toBitVec.toInt = n.toInt64.toBitVec.toNat := by
    apply BitVec.toInt_eq_toNat_of_lt
    rw [Int64.toNat_toBitVec]
    omega
  have hle : 0 ≤ n.toInt64 := by
    rw [Int64.le_iff_toInt_le]
    show 0 ≤ n.toInt64.toBitVec.toInt
    omega
  rw [Number.ofI64, if_pos hle, UInt64.toUInt64_toInt64]

/-- The numbers whose type and value are kept when an `i64` is read where there is one,
and an `f64` otherwise. -/
def Number.Exact : Number → Prop
  | .posInt n => n.toNat ≤ Text.maxI64
  | .negInt i => i < 0
  | .float _ => True

namespace Json

def atPath (path : List String) (value : Json) : Option Json :=
  path.foldlM (fun target key => target.get key) value

/-- No object of the tree has two entries under one key. -/
inductive Distinct : Json → Prop
  | null : Distinct .null
  | bool (b : Bool) : Distinct (.bool b)
  | num (n : Number) : Distinct (.num n)
  | str (s : String) : Distinct (.str s)
  | arr {elems : List Json} (h : ∀ elem ∈ elems, Distinct elem) : Distinct (.arr elems)
  | obj {fields : Fields} (keys : (fields.map Prod.fst).Nodup)
      (h : ∀ entry ∈ fields, Distinct entry.2) : Distinct (.obj fields)

theorem Distinct.get {value field : Json} {key : String} (h : value.Distinct)
    (hfield : value.get key = some field) : field.Distinct := by
  cases h with
  | null | bool b | num n | str s | arr h => contradiction
  | obj keys h =>
      have hmem := List.lookup_eq_some_iff.mp hfield
      obtain ⟨l₁, l₂, rfl, -⟩ := hmem
      exact h (key, field) (List.mem_append_right _ List.mem_cons_self)

end Json

end CdvizCollector.Lib
