import CdvizCollector.Lib.Text

/-!
Lines as a buffered reader gives them, after `BufRead::read_line`.

A reader keeps the line end, and decodes each line by itself. The bytes of a text
are cut where the text is, since a line feed occurs in the bytes of no other
character.
-/

namespace CdvizCollector.Lib.Text

/-! ### Pieces -/

section

variable {β : Type} [DecidableEq β]

/-- The lines with what ends them. -/
def rawLines (nl : β) (text : List β) : List (List β) :=
  let pieces := text.splitOn nl
  pieces.dropLast.map (· ++ [nl]) ++ (pieces.getLast?.toList.filter (· ≠ []))

/-- A line without what ends it. -/
def chomp (nl cr : β) (line : List β) : List β :=
  if line.getLast? = some nl then stripCr cr line.dropLast else line

theorem not_mem_of_mem_splitOn {nl : β} {text piece : List β} (h : piece ∈ text.splitOn nl) :
    nl ∉ piece := by
  induction text generalizing piece with
  | nil =>
      rw [List.splitOn_nil, List.mem_singleton] at h
      rw [h]
      exact List.not_mem_nil
  | cons c text ih =>
      rw [List.splitOn_cons_eq_if_modifyHead] at h
      split at h
      · rcases List.mem_cons.mp h with rfl | h
        · exact List.not_mem_nil
        · exact ih h
      · rename_i hne
        cases hsplit : text.splitOn nl with
        | nil => exact absurd hsplit (List.splitOn_ne_nil nl text)
        | cons first others =>
            rw [hsplit, List.modifyHead_cons] at h
            rcases List.mem_cons.mp h with rfl | h
            · have hfirst := ih (hsplit ▸ List.mem_cons_self)
              rw [List.mem_cons, not_or]
              exact ⟨fun heq => hne (beq_iff_eq.mpr heq.symm), hfirst⟩
            · exact ih (hsplit ▸ List.mem_cons_of_mem _ h)

theorem chomp_append_nl (nl cr : β) (piece : List β) :
    chomp nl cr (piece ++ [nl]) = stripCr cr piece := by
  rw [chomp, if_pos List.getLast?_concat, List.dropLast_concat]

theorem chomp_of_not_mem {nl : β} (cr : β) {piece : List β} (h : nl ∉ piece) :
    chomp nl cr piece = piece := by
  rw [chomp, if_neg]
  exact fun hlast => h (List.mem_of_getLast? hlast)

/-- `str::lines` and a buffered reader find the same lines. -/
theorem lines_eq_map_chomp (nl cr : β) (text : List β) :
    lines nl cr text = (rawLines nl text).map (chomp nl cr) := by
  have hends : ∀ piece ∈ (text.splitOn nl).getLast?.toList.filter (· ≠ []),
      chomp nl cr piece = piece := by
    intro piece hmem
    have hlast := Option.mem_toList.mp (List.mem_filter.mp hmem).1
    exact chomp_of_not_mem cr (not_mem_of_mem_splitOn (List.mem_of_getLast? hlast))
  rw [lines, rawLines, List.map_append, List.map_map, List.map_congr_left hends, List.map_id']
  congr 1
  apply List.map_congr_left
  intro piece _
  exact (chomp_append_nl nl cr piece).symm

end

/-! ### Bytes -/

section

variable {α β : Type} [DecidableEq α] [DecidableEq β] {enc : α → List β} {a : α} {b : β}

theorem splitOn_append_of_not_mem {front : List β} (h : b ∉ front) (text : List β) :
    (front ++ text).splitOn b = (text.splitOn b).modifyHead (front ++ ·) := by
  induction front with
  | nil =>
      rw [List.nil_append]
      exact (congrFun List.modifyHead_id _).symm
  | cons c front ih =>
      rw [List.mem_cons, not_or] at h
      have hne : ¬(c == b) = true := fun heq => h.1 (beq_iff_eq.mp heq).symm
      rw [List.cons_append, List.splitOn_cons_eq_if_modifyHead, if_neg hne, ih h.2,
        List.modifyHead_modifyHead]
      rfl

/-- An encoding that keeps the separator to itself is cut where the text is. -/
theorem splitOn_flatMap (hsep : enc a = [b]) (hother : ∀ c, c ≠ a → b ∉ enc c) (text : List α) :
    (text.flatMap enc).splitOn b = (text.splitOn a).map fun piece => piece.flatMap enc := by
  induction text with
  | nil => rfl
  | cons c text ih =>
      rw [List.flatMap_cons, List.splitOn_cons_eq_if_modifyHead]
      split
      · rename_i heq
        obtain rfl := beq_iff_eq.mp heq
        rw [hsep, List.singleton_append, List.splitOn_cons_eq_if_modifyHead, if_pos BEq.rfl, ih]
        rfl
      · rename_i hne
        have hc : c ≠ a := fun heq => hne (beq_iff_eq.mpr heq)
        rw [splitOn_append_of_not_mem (hother c hc), ih]
        cases text.splitOn a <;> rfl

theorem rawLines_flatMap (hsep : enc a = [b]) (hother : ∀ c, c ≠ a → b ∉ enc c)
    (hne : ∀ c, enc c ≠ []) (text : List α) :
    rawLines b (text.flatMap enc) = (rawLines a text).map fun line => line.flatMap enc := by
  have hnil : ∀ line : List α, line.flatMap enc = [] ↔ line = [] := by
    intro line
    cases line with
    | nil => exact iff_of_true rfl rfl
    | cons c line =>
        refine iff_of_false ?_ (List.cons_ne_nil c line)
        rw [List.flatMap_cons]
        exact fun h => hne c (List.append_eq_nil_iff.mp h).1
  have hended : ∀ line : List α, (line ++ [a]).flatMap enc = line.flatMap enc ++ [b] := by
    intro line
    rw [List.flatMap_append, List.flatMap_singleton, hsep]
  rw [rawLines, rawLines, splitOn_flatMap hsep hother, List.map_append, List.map_map,
    ← List.map_dropLast, List.map_map]
  congr 1
  · exact List.map_congr_left fun line _ => (hended line).symm
  · cases hlast : (text.splitOn a).getLast? with
    | none => simp [hlast]
    | some last =>
        by_cases hempty : last = []
        · simp [hlast, hempty]
        · simp [hlast, hempty, (hnil last).not.mpr hempty]

end

theorem lf_not_mem_utf8EncodeChar {c : Char} (h : c ≠ '\n') :
    (10 : UInt8) ∉ String.utf8EncodeChar c :=
  fun hmem => h (mem_utf8EncodeChar_ascii (a := '\n') (by decide) hmem)

/-- The lines of the bytes of a text are the bytes of its lines. -/
theorem rawLines_utf8 (s : String) :
    rawLines 10 (utf8 s) =
      (rawLines '\n' s.toList).map fun line => utf8 (String.ofList line) := by
  rw [utf8, rawLines_flatMap (a := '\n') rfl (fun c hc => lf_not_mem_utf8EncodeChar hc)
    fun c => by simp]
  apply List.map_congr_left
  intro line _
  rw [utf8, String.toList_ofList]

/-! ### The end of a line -/

/-- A line without its end is a front part; the rest is the line end. -/
theorem exists_chomp {β : Type} [DecidableEq β] (nl cr : β) (line : List β) :
    ∃ back, (∀ d ∈ back, d = nl ∨ d = cr) ∧ line = chomp nl cr line ++ back := by
  have hlast : ∀ {c : β} {l : List β}, l.getLast? = some c → l = l.dropLast ++ [c] := by
    intro c l h
    obtain ⟨front, rfl⟩ := List.getLast?_eq_some_iff.mp h
    rw [List.dropLast_concat]
  rw [chomp]
  split
  · rename_i hnl
    rw [stripCr]
    split
    · rename_i hcr
      refine ⟨[cr, nl], by simp, ?_⟩
      calc line = line.dropLast ++ [nl] := hlast hnl
        _ = line.dropLast.dropLast ++ [cr] ++ [nl] := by rw [← hlast hcr]
        _ = line.dropLast.dropLast ++ [cr, nl] := List.append_assoc _ _ _
    · exact ⟨[nl], by simp, hlast hnl⟩
  · exact ⟨[], by simp, (List.append_nil line).symm⟩

/-- `str::trim_end_matches` of a character. -/
def trimEndMatches (c : Char) (chars : List Char) : List Char :=
  (chars.reverse.dropWhile (· = c)).reverse

/-- What is trimmed off is only the character. -/
theorem exists_trimEndMatches (c : Char) (chars : List Char) :
    ∃ back, (∀ d ∈ back, d = c) ∧ chars = trimEndMatches c chars ++ back := by
  obtain ⟨back, hback, hchars⟩ := exists_reverse_dropWhile (· = c) chars
  exact ⟨back, fun d hd => of_decide_eq_true (hback d hd), hchars⟩

theorem trimEndMatches_append {c : Char} {back : List Char} (h : ∀ d ∈ back, d = c)
    (chars : List Char) : trimEndMatches c (chars ++ back) = trimEndMatches c chars := by
  rw [trimEndMatches, List.reverse_append, dropWhile_append_of_all, trimEndMatches]
  intro d hd
  exact decide_eq_true (h d (List.mem_reverse.mp hd))

/-- A text that does not end in the character stays, and no other one. -/
theorem trimEndMatches_eq_self_iff {c : Char} {chars : List Char} :
    trimEndMatches c chars = chars ↔ chars.getLast? ≠ some c := by
  rw [trimEndMatches, List.reverse_eq_iff, ← List.head?_reverse]
  cases chars.reverse with
  | nil => simp
  | cons d rest =>
      by_cases h : d = c
      · have hle := (List.dropWhile_suffix (l := rest) fun e => decide (e = c)).length_le
        refine iff_of_false ?_ (by simp [h])
        rw [List.dropWhile_cons_of_pos (by simp [h])]
        intro heq
        rw [heq, List.length_cons] at hle
        omega
      · exact iff_of_true (List.dropWhile_cons_of_neg (by simp [h])) (by simp [h])

theorem trimEndMatches_of_not_mem {c : Char} {chars : List Char} (h : c ∉ chars) :
    trimEndMatches c chars = chars :=
  trimEndMatches_eq_self_iff.mpr fun hlast => h (List.mem_of_getLast? hlast)

/-! ### Strings -/

/-- `str::lines`. -/
def textLines (s : String) : List String := (lines '\n' '\r' s.toList).map String.ofList

/-- The lines of a string with their line ends. -/
def readerLines (s : String) : List String := (rawLines '\n' s.toList).map String.ofList

def chompLine (line : String) : String := String.ofList (chomp '\n' '\r' line.toList)

/-- Where line ends are trimmed off, leaving them out before changes nothing. -/
theorem trimBy_chompLine {p : Char → Bool} (hlf : p '\n' = true) (hcr : p '\r' = true)
    (line : String) : trimBy p (chompLine line).toList = trimBy p line.toList := by
  obtain ⟨back, hback, hline⟩ := exists_chomp '\n' '\r' line.toList
  have hblank : ∀ c ∈ back, p c = true := by
    intro c hc
    rcases hback c hc with rfl | rfl
    · exact hlf
    · exact hcr
  rw [chompLine, String.toList_ofList]
  conv_rhs => rw [hline, trimBy_append_right hblank]

theorem trim_chompLine (line : String) : trim (chompLine line) = trim line := by
  rw [← String.toList_inj, toList_trim, toList_trim, trimBy_chompLine rfl rfl]

theorem isBlank_chompLine (line : String) : isBlank (chompLine line) = isBlank line := by
  rw [Bool.eq_iff_iff, ← trim_eq_empty_iff, ← trim_eq_empty_iff, trim_chompLine]

theorem textLines_eq (s : String) : textLines s = (readerLines s).map chompLine := by
  rw [textLines, readerLines, lines_eq_map_chomp, List.map_map, List.map_map]
  apply List.map_congr_left
  intro line _
  rw [Function.comp_apply, Function.comp_apply, chompLine, String.toList_ofList]

theorem rawLines_utf8_eq (s : String) : rawLines 10 (utf8 s) = (readerLines s).map utf8 := by
  rw [rawLines_utf8, readerLines, List.map_map]
  rfl

end CdvizCollector.Lib.Text
