import Mathlib.Data.List.Basic

/-!
Positions in a text by the bytes in front of them, as `str::find` gives them and slices
take them.

A slice that does not start or end between two characters panics, and so does one that goes
past the end.
-/

namespace CdvizCollector.Lib.ByteIndex

/-- `str::len`. -/
def byteLength : List Char → ℕ
  | [] => 0
  | c :: rest => c.utf8Size + byteLength rest

/-- `str::find` of a character. -/
def find (c : Char) : List Char → Option ℕ
  | [] => none
  | d :: rest => if d = c then some 0 else (find c rest).map fun k => d.utf8Size + k

/-- `str::rfind` of a character. -/
def rfind (c : Char) : List Char → Option ℕ
  | [] => none
  | d :: rest =>
      match rfind c rest with
      | some k => some (d.utf8Size + k)
      | none => if d = c then some 0 else none

/-- `text[..k]` and `text[k..]`, where `none` is a panic. -/
def splitAt : List Char → ℕ → Option (List Char × List Char)
  | chars, 0 => some ([], chars)
  | [], _ + 1 => none
  | c :: rest, k + 1 =>
      if c.utf8Size ≤ k + 1 then
        (splitAt rest (k + 1 - c.utf8Size)).map fun parts => (c :: parts.1, parts.2)
      else none

/-- `&text[..k]`. -/
def sliceTo (chars : List Char) (k : ℕ) : Option (List Char) := (splitAt chars k).map Prod.fst

/-- `&text[k..]`. -/
def sliceFrom (chars : List Char) (k : ℕ) : Option (List Char) := (splitAt chars k).map Prod.snd

@[simp] theorem byteLength_nil : byteLength [] = 0 := rfl

@[simp] theorem byteLength_cons (c : Char) (chars : List Char) :
    byteLength (c :: chars) = c.utf8Size + byteLength chars := rfl

@[simp] theorem byteLength_append (front back : List Char) :
    byteLength (front ++ back) = byteLength front + byteLength back := by
  induction front with
  | nil => exact (Nat.zero_add _).symm
  | cons c front ih =>
      rw [List.cons_append, byteLength_cons, byteLength_cons, ih, Nat.add_assoc]

theorem splitAt_zero (chars : List Char) : splitAt chars 0 = some ([], chars) := by
  cases chars <;> rfl

theorem splitAt_cons {c : Char} {k : ℕ} (h : c.utf8Size ≤ k) (rest : List Char) :
    splitAt (c :: rest) k =
      (splitAt rest (k - c.utf8Size)).map fun parts => (c :: parts.1, parts.2) := by
  have hpos := c.utf8Size_pos
  obtain ⟨j, rfl⟩ : ∃ j, k = j + 1 := Nat.exists_eq_succ_of_ne_zero (by omega)
  rw [splitAt, if_pos h]

theorem splitAt_append (front back : List Char) :
    splitAt (front ++ back) (byteLength front) = some (front, back) := by
  induction front with
  | nil => exact splitAt_zero back
  | cons c front ih =>
      rw [List.cons_append, byteLength_cons, splitAt_cons (Nat.le_add_right _ _),
        Nat.add_sub_cancel_left, ih, Option.map_some]

/-- A text is cut only where the bytes of a front part of it end. -/
theorem of_splitAt {chars : List Char} {parts : List Char × List Char} {k : ℕ}
    (h : splitAt chars k = some parts) :
    chars = parts.1 ++ parts.2 ∧ byteLength parts.1 = k := by
  induction chars generalizing k parts with
  | nil =>
      cases k with
      | zero =>
          cases h
          exact ⟨rfl, rfl⟩
      | succ k => contradiction
  | cons c rest ih =>
      cases k with
      | zero =>
          cases h
          exact ⟨rfl, rfl⟩
      | succ k =>
          rw [splitAt] at h
          split at h
          · rename_i hfits
            obtain ⟨tail, hrest, rfl⟩ := Option.map_eq_some_iff.mp h
            obtain ⟨hsplit, hlength⟩ := ih hrest
            refine ⟨congrArg (c :: ·) hsplit, ?_⟩
            rw [byteLength_cons, hlength]
            omega
          · contradiction

theorem sliceTo_append (front back : List Char) :
    sliceTo (front ++ back) (byteLength front) = some front := by
  rw [sliceTo, splitAt_append, Option.map_some]

theorem sliceFrom_append (front back : List Char) :
    sliceFrom (front ++ back) (byteLength front) = some back := by
  rw [sliceFrom, splitAt_append, Option.map_some]

/-- What a slice leaves is a back part, and every back part starts at some byte. -/
theorem exists_sliceFrom_iff {chars back : List Char} :
    (∃ k, sliceFrom chars k = some back) ↔ back <:+ chars := by
  constructor
  · rintro ⟨k, h⟩
    obtain ⟨parts, hsplit, rfl⟩ := Option.map_eq_some_iff.mp h
    exact ⟨parts.1, (of_splitAt hsplit).1.symm⟩
  · rintro ⟨front, rfl⟩
    exact ⟨byteLength front, sliceFrom_append front back⟩

/-! ### Characters -/

/-- The first occurrence: what is in front of it has none. -/
theorem find_eq_some_iff {c : Char} {chars : List Char} {k : ℕ} :
    find c chars = some k ↔
      ∃ front back, chars = front ++ c :: back ∧ c ∉ front ∧ byteLength front = k := by
  induction chars generalizing k with
  | nil => simp [find]
  | cons d rest ih =>
      rw [find]
      split
      · rename_i heq
        subst heq
        constructor
        · intro h
          cases h
          exact ⟨[], rest, rfl, List.not_mem_nil, rfl⟩
        · rintro ⟨front, back, hchars, hfirst, rfl⟩
          cases front with
          | nil => rfl
          | cons a front =>
              cases hchars
              exact absurd List.mem_cons_self hfirst
      · rename_i hne
        rw [Option.map_eq_some_iff]
        constructor
        · rintro ⟨j, hj, rfl⟩
          obtain ⟨front, back, rfl, hfirst, rfl⟩ := ih.mp hj
          refine ⟨d :: front, back, rfl, ?_, byteLength_cons d front⟩
          rw [List.mem_cons, not_or]
          exact ⟨Ne.symm hne, hfirst⟩
        · rintro ⟨front, back, hchars, hfirst, rfl⟩
          cases front with
          | nil =>
              cases hchars
              exact absurd rfl hne
          | cons a front =>
              cases hchars
              rw [List.mem_cons, not_or] at hfirst
              exact ⟨_, ih.mpr ⟨front, back, rfl, hfirst.2, rfl⟩, (byteLength_cons d front).symm⟩

theorem find_eq_none_iff {c : Char} {chars : List Char} : find c chars = none ↔ c ∉ chars := by
  induction chars with
  | nil => simp [find]
  | cons d rest ih =>
      rw [find, List.mem_cons, not_or]
      split
      · rename_i heq
        simp [heq]
      · rename_i hne
        rw [Option.map_eq_none_iff, ih]
        exact (and_iff_right (Ne.symm hne)).symm

theorem rfind_eq_none_iff {c : Char} {chars : List Char} : rfind c chars = none ↔ c ∉ chars := by
  induction chars with
  | nil => simp [rfind]
  | cons d rest ih =>
      rw [rfind, List.mem_cons, not_or, ← ih]
      cases rfind c rest with
      | some k => simp
      | none => simp [eq_comm]

/-- The last occurrence. -/
theorem rfind_append {c : Char} {back : List Char} (h : c ∉ back) (front : List Char) :
    rfind c (front ++ c :: back) = some (byteLength front) := by
  induction front with
  | nil =>
      rw [List.nil_append, rfind, rfind_eq_none_iff.mpr h]
      exact if_pos rfl
  | cons d front ih => rw [List.cons_append, rfind, ih, byteLength_cons]

end CdvizCollector.Lib.ByteIndex
