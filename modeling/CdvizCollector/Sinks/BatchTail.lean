import CdvizCollector.Sinks.BatchSpool

/-!
What `Slot::open` reads of a file whose writes were cut short.

A group is appended in one write, and a crash may leave any front part of it in
the file. The run after the crash appends behind it. Each record starts with a
line feed, so a torn one is a line of its own, which no item is read from. It is
read as text all the same: one that ends inside a character is an error for the
whole file.
-/

namespace CdvizCollector.Sinks.Batch

open Lib

variable {α : Type} {J : ItemCodec α}

/-- The items are JSON objects or arrays, whose text is not complete before its
last bracket. -/
structure ItemCodec.Delimited (J : ItemCodec α) : Prop extends J.Lawful where
  torn : ∀ x text, text.toList <+: (J.toWriter x).toList → text ≠ J.toWriter x →
    J.fromStr text = none

/-- A call of `push_all`, and how many bytes of its records reached the file. -/
structure GroupWrite (α : Type) where
  group : List α
  cut : ℕ

def GroupWrite.bytes (J : ItemCodec α) (w : GroupWrite α) : List UInt8 :=
  (records J w.group).take w.cut

/-- The items whose records are among the first `cut` bytes. -/
def completed (J : ItemCodec α) : List α → ℕ → List α
  | [], _ => []
  | item :: group, cut =>
      if (records J [item]).length ≤ cut then
        item :: completed J group (cut - (records J [item]).length)
      else []

/-- The content of the file after the writes. -/
def spoolFile (J : ItemCodec α) (writes : List (GroupWrite α)) : List UInt8 :=
  writes.flatMap (GroupWrite.bytes J)

theorem readItems_append (lines more : List (List UInt8)) :
    readItems J (lines ++ more) =
      (readItems J lines).bind fun items => (readItems J more).map (items ++ ·) := by
  induction lines with
  | nil => simp [readItems]
  | cons line lines ih =>
      simp only [List.cons_append, readItems, ih]
      cases Text.decodeUtf8 line with
      | none => rfl
      | some text =>
          simp only
          split
          · rfl
          · cases J.fromStr text with
            | none => rfl
            | some item => cases readItems J lines <;> cases readItems J more <;> rfl

/-! ### The pieces of a write -/

/-- The lines a write adds: whole records, and the part of the one that is torn. -/
def pieces (J : ItemCodec α) : List α → ℕ → List (List UInt8)
  | [], _ => []
  | item :: group, cut =>
      if (records J [item]).length ≤ cut then
        Text.utf8 (J.toWriter item) :: pieces J group (cut - (records J [item]).length)
      else if cut = 0 then []
      else [(Text.utf8 (J.toWriter item)).take (cut - 1)]

theorem records_cons (J : ItemCodec α) (item : α) (group : List α) :
    records J (item :: group) = LF :: Text.utf8 (J.toWriter item) ++ records J group := rfl

theorem take_records (J : ItemCodec α) (group : List α) (cut : ℕ) :
    (records J group).take cut = (pieces J group cut).flatMap fun p => LF :: p := by
  induction group generalizing cut with
  | nil => simp [records, pieces]
  | cons item group ih =>
      have hlength : (records J [item]).length = (Text.utf8 (J.toWriter item)).length + 1 := by
        simp [records]
      rw [pieces, records_cons, List.take_append]
      split
      · rename_i hle
        rw [List.take_of_length_le (by rw [List.length_cons]; omega), List.flatMap_cons, ← ih,
          hlength, List.length_cons]
      · rename_i hlt
        have hrest : cut - (LF :: Text.utf8 (J.toWriter item)).length = 0 := by
          rw [List.length_cons]
          omega
        rw [hrest, List.take_zero, List.append_nil]
        cases cut with
        | zero => rfl
        | succ cut => simp

theorem pieces_no_newline (hJ : J.Lawful) {group : List α} {cut : ℕ} {p : List UInt8}
    (h : p ∈ pieces J group cut) : LF ∉ p ∧ CR ∉ p := by
  induction group generalizing cut with
  | nil => cases h
  | cons item group ih =>
      rw [pieces] at h
      split at h
      · rcases List.mem_cons.mp h with rfl | h
        · exact utf8_no_newline hJ item
        · exact ih h
      · split at h
        · cases h
        · rw [List.mem_singleton.mp h]
          exact ⟨fun hmem => (utf8_no_newline hJ item).1 (List.mem_of_mem_take hmem),
            fun hmem => (utf8_no_newline hJ item).2 (List.mem_of_mem_take hmem)⟩

/-- Of a torn record no item is read, if it is text. -/
theorem readItems_torn (hJ : J.Delimited) (item : α) {cut : ℕ}
    (h : cut < (Text.utf8 (J.toWriter item)).length) :
    readItems J [(Text.utf8 (J.toWriter item)).take cut] =
      if (Text.decodeUtf8 ((Text.utf8 (J.toWriter item)).take cut)).isSome then some []
      else none := by
  cases htext : Text.decodeUtf8 ((Text.utf8 (J.toWriter item)).take cut) with
  | none => simp [readItems, htext]
  | some text =>
      have hbytes := Text.utf8_of_decodeUtf8 htext
      have hnone : J.fromStr text = none := by
        apply hJ.torn item
        · apply Text.prefix_of_utf8_prefix
          rw [hbytes]
          exact List.take_prefix _ _
        · rintro rfl
          have hlength := congrArg List.length hbytes
          rw [List.length_take] at hlength
          omega
      simp [readItems, htext, hnone]

/-- Of one write the complete records are read, if what was written is text. -/
theorem readItems_pieces (hJ : J.Delimited) (group : List α) (cut : ℕ) :
    readItems J (pieces J group cut) =
      if (Text.decodeUtf8 ((records J group).take cut)).isSome then some (completed J group cut)
      else none := by
  induction group generalizing cut with
  | nil =>
      have hempty : Text.decodeUtf8 [] = some "" := Text.decodeUtf8_utf8 ""
      simp [pieces, completed, readItems, records, hempty]
  | cons item group ih =>
      have hrecord : records J [item] = Text.utf8 ("\n" ++ J.toWriter item) := by
        rw [Text.utf8_append]
        simp only [records, List.flatMap_cons, List.flatMap_nil, List.append_nil]
        rfl
      have hsplit : records J (item :: group) = records J [item] ++ records J group :=
        records_append J [item] group
      rw [pieces, completed, hsplit, List.take_append]
      split
      · rename_i hle
        rw [List.take_of_length_le hle, hrecord, Text.isSome_decodeUtf8_append, ← hrecord]
        rw [readItems_item hJ.toLawful, ih]
        split <;> rfl
      · rename_i hlt
        have hrest : cut - (records J [item]).length = 0 := by omega
        rw [hrest, List.take_zero, List.append_nil]
        cases cut with
        | zero =>
            have hempty : Text.decodeUtf8 [] = some "" := Text.decodeUtf8_utf8 ""
            simp [readItems, hempty]
        | succ cut =>
            rw [if_neg (Nat.succ_ne_zero cut), Nat.add_sub_cancel]
            have htake : (records J [item]).take (cut + 1) =
                Text.utf8 "\n" ++ (Text.utf8 (J.toWriter item)).take cut := by
              simp only [records, List.flatMap_cons, List.flatMap_nil, List.append_nil,
                List.take_succ_cons]
              rfl
            have hcut : cut < (Text.utf8 (J.toWriter item)).length := by
              simp [records] at hlt
              omega
            rw [readItems_torn hJ item hcut, htake, Text.isSome_decodeUtf8_append]

/-! ### The whole file -/

theorem readItems_writes (hJ : J.Delimited) (writes : List (GroupWrite α)) :
    readItems J (writes.flatMap fun w => pieces J w.group w.cut) =
      if ∀ w ∈ writes, (Text.decodeUtf8 (w.bytes J)).isSome then
        some (writes.flatMap fun w => completed J w.group w.cut)
      else none := by
  induction writes with
  | nil => simp [readItems]
  | cons w writes ih =>
      rw [List.flatMap_cons, readItems_append, ih, readItems_pieces hJ]
      simp only [List.forall_mem_cons]
      by_cases hw : (Text.decodeUtf8 (w.bytes J)).isSome
      · have hbytes : (Text.decodeUtf8 ((records J w.group).take w.cut)).isSome := hw
        by_cases hrest : ∀ w ∈ writes, (Text.decodeUtf8 (w.bytes J)).isSome
        · rw [if_pos hbytes, if_pos hrest, if_pos ⟨hw, hrest⟩]
          rfl
        · rw [if_pos hbytes, if_neg hrest]
          exact (if_neg fun h => hrest h.2).symm
      · have hbytes : ¬(Text.decodeUtf8 ((records J w.group).take w.cut)).isSome := hw
        rw [if_neg hbytes]
        exact (if_neg fun h => hw h.1).symm

/-- `Slot::open` gives back the items whose records were completely written
exactly if no write was cut inside a character. -/
theorem open_recovers_completed_iff (hJ : J.Delimited) (writes : List (GroupWrite α)) :
    Slot.openSpool J (some (spoolFile J writes)) = some
        { items := writes.flatMap fun w => completed J w.group w.cut
          file := some (spoolFile J writes) } ↔
      ∀ w ∈ writes, (Text.decodeUtf8 (w.bytes J)).isSome := by
  have hfile : spoolFile J writes =
      (writes.flatMap fun w => pieces J w.group w.cut).flatMap fun p => LF :: p := by
    rw [List.flatMap_assoc, spoolFile]
    congr 1
    funext w
    exact take_records J w.group w.cut
  have hread := readItems_writes hJ writes
  rw [← readItems_lines fun p hp => by
    obtain ⟨w, -, hp⟩ := List.mem_flatMap.mp hp
    exact pieces_no_newline hJ.toLawful hp, ← hfile] at hread
  simp only [Slot.openSpool, hread]
  split
  · rename_i h
    exact iff_of_true rfl h
  · rename_i h
    exact iff_of_false (by simp) h

/-- The codec of one array, with a text that is not ASCII. -/
def ItemCodec.accent : ItemCodec Unit where
  toWriter _ := "[\"é\"]"
  fromStr text := if text = "[\"é\"]" then some () else none

theorem ItemCodec.accent_delimited : ItemCodec.accent.Delimited where
  fromStr_toWriter _ := rfl
  no_newline _ := show '\n' ∉ "[\"é\"]".toList by decide
  no_return _ := show '\r' ∉ "[\"é\"]".toList by decide
  not_blank _ := show Text.isBlank "[\"é\"]" = false by decide
  torn _ _ _ hne := if_neg hne

/-- A record that is torn behind its first character, and one of the next run. -/
theorem open_recovers_completed_iff_sample :
    Slot.openSpool ItemCodec.accent (some (spoolFile ItemCodec.accent [⟨[()], 2⟩, ⟨[()], 7⟩])) =
      some { items := [()], file := some (spoolFile ItemCodec.accent [⟨[()], 2⟩, ⟨[()], 7⟩]) } :=
  (open_recovers_completed_iff ItemCodec.accent_delimited [⟨[()], 2⟩, ⟨[()], 7⟩]).mpr (by decide)

/-- A record torn inside the accented character: the file is not opened any more. -/
theorem torn_character_prevents_open :
    ¬ ∀ (J : ItemCodec Unit), J.Delimited → ∀ (before group later : List Unit) (cut : ℕ),
      Slot.openSpool J (some (records J before ++ (records J group).take cut ++
        records J later)) = some
          { items := before ++ completed J group cut ++ later
            file := some (records J before ++ (records J group).take cut ++ records J later) } := by
  intro h
  have hfails : (Slot.openSpool ItemCodec.accent
      (some (records ItemCodec.accent [] ++ (records ItemCodec.accent [()]).take 4 ++
        records ItemCodec.accent []))).isNone = true := by decide
  rw [h ItemCodec.accent ItemCodec.accent_delimited [] [()] [] 4] at hfails
  cases hfails

end CdvizCollector.Sinks.Batch
