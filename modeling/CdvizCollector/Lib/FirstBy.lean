import Mathlib.Data.List.Nodup

/-!
The elements of a list without those whose key was seen before.
-/

namespace CdvizCollector.Lib

variable {α κ : Type} [DecidableEq κ] {key : α → κ}

/-- The first of the elements with each key that is not among those already seen. -/
def firstBy (key : α → κ) : List κ → List α → List α
  | _, [] => []
  | seen, a :: rest =>
      if key a ∈ seen then firstBy key seen rest else a :: firstBy key (key a :: seen) rest

theorem mem_of_mem_firstBy {seen : List κ} {l : List α} {a : α} (h : a ∈ firstBy key seen l) :
    a ∈ l ∧ key a ∉ seen := by
  induction l generalizing seen with
  | nil => contradiction
  | cons b rest ih =>
      rw [firstBy] at h
      split at h
      · obtain ⟨hmem, hseen⟩ := ih h
        exact ⟨List.mem_cons_of_mem _ hmem, hseen⟩
      · rename_i hnew
        rcases List.mem_cons.mp h with rfl | h
        · exact ⟨List.mem_cons_self, hnew⟩
        · obtain ⟨hmem, hseen⟩ := ih h
          exact ⟨List.mem_cons_of_mem _ hmem, fun h => hseen (List.mem_cons_of_mem _ h)⟩

theorem exists_mem_firstBy {seen : List κ} {l : List α} {a : α} (hmem : a ∈ l)
    (hseen : key a ∉ seen) : ∃ b ∈ firstBy key seen l, key b = key a := by
  induction l generalizing seen with
  | nil => contradiction
  | cons b rest ih =>
      rw [firstBy]
      rcases List.mem_cons.mp hmem with rfl | hrest
      · rw [if_neg hseen]
        exact ⟨a, List.mem_cons_self, rfl⟩
      · split
        · exact ih hrest hseen
        · by_cases hkey : key b = key a
          · exact ⟨b, List.mem_cons_self, hkey⟩
          · have hnew : key a ∉ key b :: seen := by
              rw [List.mem_cons, not_or]
              exact ⟨Ne.symm hkey, hseen⟩
            obtain ⟨c, hc, hsame⟩ := ih hrest hnew
            exact ⟨c, List.mem_cons_of_mem _ hc, hsame⟩

/-- No key is there twice. -/
theorem pairwise_firstBy (seen : List κ) (l : List α) :
    (firstBy key seen l).Pairwise fun a b => key a ≠ key b := by
  induction l generalizing seen with
  | nil => exact .nil
  | cons a rest ih =>
      rw [firstBy]
      split
      · exact ih seen
      · refine List.pairwise_cons.mpr ⟨?_, ih _⟩
        intro b hb hkey
        exact (mem_of_mem_firstBy hb).2 (hkey ▸ List.mem_cons_self)

/-- Where elements with one key are alike in `p`, one element with `p` is left exactly when
there is one and all of them have its key. -/
theorem length_filter_firstBy_eq_one_iff {p : α → Bool} {l : List α}
    (hkey : ∀ a ∈ l, ∀ b ∈ l, key a = key b → p a = p b) :
    ((firstBy key [] l).filter p).length = 1 ↔
      (∃ a ∈ l, p a = true) ∧
        ∀ a ∈ l, ∀ b ∈ l, p a = true → p b = true → key a = key b := by
  -- every element with `p` is represented by one that is left
  have hfirst : ∀ a ∈ l, p a = true → ∃ b ∈ (firstBy key [] l).filter p, key b = key a := by
    intro a ha hpa
    obtain ⟨b, hb, hsame⟩ := exists_mem_firstBy ha (List.not_mem_nil (a := key a))
    have hpb := hkey b (mem_of_mem_firstBy hb).1 a ha hsame
    exact ⟨b, List.mem_filter.mpr ⟨hb, hpb.trans hpa⟩, hsame⟩
  constructor
  · intro hone
    obtain ⟨c, hc⟩ := List.length_eq_one_iff.mp hone
    have hcmem : c ∈ (firstBy key [] l).filter p := hc ▸ List.mem_singleton_self c
    obtain ⟨hcl, hpc⟩ := List.mem_filter.mp hcmem
    refine ⟨⟨c, (mem_of_mem_firstBy hcl).1, hpc⟩, ?_⟩
    intro a ha b hb hpa hpb
    obtain ⟨a', ha', hsame⟩ := hfirst a ha hpa
    obtain ⟨b', hb', hsame'⟩ := hfirst b hb hpb
    rw [hc] at ha' hb'
    rw [← hsame, ← hsame', List.mem_singleton.mp ha', List.mem_singleton.mp hb']
  · rintro ⟨⟨a, ha, hpa⟩, hall⟩
    obtain ⟨b, hb, -⟩ := hfirst a ha hpa
    have hpairwise := (@pairwise_firstBy _ _ _ key [] l).filter p
    match hleft : (firstBy key [] l).filter p with
    | [] =>
        rw [hleft] at hb
        contradiction
    | [_] => rfl
    | c :: d :: rest =>
        rw [hleft] at hpairwise
        have hc := List.mem_filter.mp (hleft ▸ List.mem_cons_self)
        have hd := List.mem_filter.mp (hleft ▸ List.mem_cons_of_mem _ List.mem_cons_self)
        have hsame := hall c (mem_of_mem_firstBy hc.1).1 d (mem_of_mem_firstBy hd.1).1 hc.2 hd.2
        exact absurd hsame ((List.pairwise_cons.mp hpairwise).1 d List.mem_cons_self)

end CdvizCollector.Lib
