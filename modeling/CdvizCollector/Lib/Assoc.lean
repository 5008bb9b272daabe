import Mathlib.Data.List.Basic
import Mathlib.Order.Defs.LinearOrder

/-!
Finite maps as lists of entries by increasing key.

One representation serves ordered maps and, where the order in which a hash map
is traversed does not matter, hash maps too. A later entry under a key replaces
an earlier one, so a map collected from a list holds the last value of each key.
-/

namespace CdvizCollector.Lib.Assoc

variable {κ β : Type} [DecidableEq κ] [LT κ] [DecidableLT κ]

/-- An entry under the key is replaced. -/
def insert (key : κ) (value : β) : List (κ × β) → List (κ × β)
  | [] => [(key, value)]
  | (k, v) :: rest =>
      if key = k then (key, value) :: rest
      else if key < k then (key, value) :: (k, v) :: rest
      else (k, v) :: insert key value rest

def remove (key : κ) (entries : List (κ × β)) : List (κ × β) :=
  entries.filter fun entry => entry.1 ≠ key

/-- The map collected from entries that may repeat a key. -/
def ofList (entries : List (κ × β)) : List (κ × β) :=
  entries.foldl (fun map entry => insert entry.1 entry.2 map) []

@[simp] theorem lookup_insert_self (key : κ) (value : β) (entries : List (κ × β)) :
    (insert key value entries).lookup key = some value := by
  induction entries with
  | nil => simp [insert]
  | cons entry rest ih =>
      obtain ⟨k, v⟩ := entry
      by_cases heq : key = k
      · simp [insert, heq]
      · have hbeq : (key == k) = false := beq_eq_false_iff_ne.mpr heq
        by_cases hlt : key < k
        · simp [insert, heq, hlt]
        · simp [insert, heq, hlt, List.lookup_cons, hbeq, ih]

theorem lookup_insert_of_ne {key other : κ} (h : other ≠ key) (value : β)
    (entries : List (κ × β)) : (insert key value entries).lookup other = entries.lookup other := by
  have hbeq : (other == key) = false := beq_eq_false_iff_ne.mpr h
  induction entries with
  | nil => simp [insert, List.lookup_cons, hbeq]
  | cons entry rest ih =>
      obtain ⟨k, v⟩ := entry
      by_cases heq : key = k
      · subst heq
        simp [insert, List.lookup_cons, hbeq]
      · by_cases hlt : key < k
        · simp [insert, heq, hlt, List.lookup_cons, hbeq]
        · simp [insert, heq, hlt, List.lookup_cons, ih]

/-- A second value under one key replaces the first. -/
theorem insert_insert (key : κ) (value value' : β) (entries : List (κ × β)) :
    insert key value' (insert key value entries) = insert key value' entries := by
  induction entries with
  | nil => simp [insert]
  | cons entry rest ih =>
      obtain ⟨k, v⟩ := entry
      by_cases heq : key = k
      · simp [insert, heq]
      · by_cases hlt : key < k
        · simp [insert, heq, hlt]
        · simp [insert, heq, hlt, ih]

theorem remove_insert (key : κ) (value : β) (entries : List (κ × β)) :
    remove key (insert key value entries) = remove key entries := by
  induction entries with
  | nil => simp [insert, remove]
  | cons entry rest ih =>
      obtain ⟨k, v⟩ := entry
      by_cases heq : key = k
      · simp [insert, remove, heq]
      · by_cases hlt : key < k
        · simp [insert, remove, heq, hlt]
        · rw [insert, if_neg heq, if_neg hlt]
          simp only [remove, List.filter_cons] at ih ⊢
          rw [ih]

/-- A collected map holds the last value given for a key. -/
theorem lookup_ofList (entries : List (κ × β)) (key : κ) :
    (ofList entries).lookup key = entries.reverse.lookup key := by
  suffices hfold : ∀ map : List (κ × β),
      (entries.foldl (fun map entry => insert entry.1 entry.2 map) map).lookup key =
        (entries.reverse.lookup key).or (map.lookup key) by
    simpa [ofList] using hfold []
  induction entries with
  | nil => intro map; simp
  | cons entry rest ih =>
      intro map
      obtain ⟨k, v⟩ := entry
      rw [List.foldl_cons, ih, List.reverse_cons, List.lookup_append]
      by_cases heq : key = k
      · subst heq
        cases rest.reverse.lookup key <;> simp
      · have hbeq : (key == k) = false := beq_eq_false_iff_ne.mpr heq
        rw [lookup_insert_of_ne heq]
        cases rest.reverse.lookup key <;> simp [List.lookup_cons, hbeq]

section Remove

variable {κ β : Type} [DecidableEq κ]

theorem lookup_remove_self (key : κ) (entries : List (κ × β)) :
    (remove key entries).lookup key = none := by
  rw [List.lookup_eq_none_iff]
  intro entry hentry
  have hne : entry.1 ≠ key := of_decide_eq_true (List.mem_filter.mp hentry).2
  exact bne_iff_ne.mpr hne.symm

theorem lookup_remove_of_ne {key other : κ} (h : other ≠ key) (entries : List (κ × β)) :
    (remove key entries).lookup other = entries.lookup other := by
  induction entries with
  | nil => rfl
  | cons entry rest ih =>
      obtain ⟨k, v⟩ := entry
      by_cases heq : k = key
      · have hbeq : (other == k) = false := beq_eq_false_iff_ne.mpr (heq ▸ h)
        rw [List.lookup_cons, hbeq, ← ih]
        simp [remove, heq]
      · have hkeep : remove key ((k, v) :: rest) = (k, v) :: remove key rest := by
          simp [remove, heq]
        rw [hkeep, List.lookup_cons, List.lookup_cons, ih]

end Remove

/-! ### Order -/

/-- The keys increase. -/
def Sorted {κ β : Type} [LT κ] (entries : List (κ × β)) : Prop :=
  entries.Pairwise fun a b => a.1 < b.1

section Sorted

variable {κ β : Type} [DecidableEq κ] [LT κ] {entries : List (κ × β)}

theorem mem_iff_lookup [LE κ] [Std.LawfulOrderLT κ] (h : Sorted entries) {key : κ}
    {value : β} :
    (key, value) ∈ entries ↔ entries.lookup key = some value := by
  induction entries with
  | nil => simp
  | cons entry rest ih =>
      obtain ⟨k, v⟩ := entry
      obtain ⟨hlt, hrest⟩ := List.pairwise_cons.mp h
      by_cases heq : key = k
      · subst heq
        have hnot : (key, value) ∉ rest := fun hmem => Std.lt_irrefl (hlt (key, value) hmem)
        simp [hnot, eq_comm]
      · have hbeq : (key == k) = false := beq_eq_false_iff_ne.mpr heq
        simp [List.lookup_cons, hbeq, heq, ih hrest]

theorem mem_insert [DecidableLT κ] {key k : κ} {value v : β}
    (h : (k, v) ∈ insert key value entries) :
    (k = key ∧ v = value) ∨ (k, v) ∈ entries := by
  induction entries with
  | nil => simpa [insert] using h
  | cons entry rest ih =>
      unfold insert at h
      split_ifs at h with heq hlt
      · rcases List.mem_cons.mp h with h | h
        · exact .inl (Prod.mk.inj h)
        · exact .inr (List.mem_cons_of_mem _ h)
      · rcases List.mem_cons.mp h with h | h
        · exact .inl (Prod.mk.inj h)
        · exact .inr h
      · rcases List.mem_cons.mp h with h | h
        · exact .inr (h ▸ List.mem_cons_self)
        · exact (ih h).imp_right (List.mem_cons_of_mem _)

theorem Sorted.insert [DecidableLT κ] [LE κ] [Std.IsLinearOrder κ] [Std.LawfulOrderLT κ]
    (h : Sorted entries) (key : κ) (value : β) :
    Sorted (insert key value entries) := by
  induction entries with
  | nil => exact List.pairwise_singleton _ _
  | cons entry rest ih =>
      obtain ⟨k, v⟩ := entry
      obtain ⟨hlt, hrest⟩ := List.pairwise_cons.mp h
      unfold Assoc.insert
      split_ifs with heq hkey
      · exact List.pairwise_cons.mpr ⟨fun a ha => heq ▸ hlt a ha, hrest⟩
      · refine List.pairwise_cons.mpr ⟨fun a ha => ?_, h⟩
        rcases List.mem_cons.mp ha with rfl | ha
        · exact hkey
        · exact Std.lt_trans hkey (hlt a ha)
      · refine List.pairwise_cons.mpr ⟨fun a ha => ?_, ih hrest⟩
        rcases mem_insert ha with ⟨hk, -⟩ | ha
        · exact hk ▸ Std.lt_of_le_of_ne (Std.not_lt.mp hkey) (Ne.symm heq)
        · exact hlt a ha

theorem Sorted.remove (h : Sorted entries) (key : κ) : Sorted (remove key entries) :=
  h.sublist List.filter_sublist

end Sorted

end CdvizCollector.Lib.Assoc
