import Mathlib.Data.Int.Notation
import Mathlib.Data.List.Basic
import Mathlib.Data.Nat.Notation

/-!
Text as it is read from files and streams: UTF-8 bytes, lines, blanks.

The conventions are the ones of Rust's standard library. A line is ended by a
line feed, a carriage return right before it belongs to the line end, and a
text that ends in a line feed has no further, empty line. Blanks are the
characters of the Unicode property `White_Space`.
-/

namespace CdvizCollector.Lib.Text

/-! ### UTF-8 -/

/-- The UTF-8 bytes of a string. -/
def utf8 (s : String) : List UInt8 := s.toList.flatMap String.utf8EncodeChar

/-- The string a sequence of bytes encodes, if it is valid UTF-8. -/
def decodeUtf8 (bytes : List UInt8) : Option String := String.fromUTF8? bytes.toByteArray

theorem toByteArray_utf8 (s : String) : (utf8 s).toByteArray = s.toByteArray :=
  String.utf8Encode_toList

@[simp] theorem decodeUtf8_utf8 (s : String) : decodeUtf8 (utf8 s) = some s := by
  have hvalid : s.toByteArray.IsValidUTF8 := s.isValidUTF8
  simp [decodeUtf8, String.fromUTF8?, toByteArray_utf8, hvalid, String.fromUTF8]

theorem utf8_injective : Function.Injective utf8 := by
  intro s t h
  have := congrArg decodeUtf8 h
  rw [decodeUtf8_utf8, decodeUtf8_utf8] at this
  exact Option.some.inj this

@[simp] theorem utf8_append (s t : String) : utf8 (s ++ t) = utf8 s ++ utf8 t := by
  simp [utf8]

/-- Decoding gives back the string that has these bytes. -/
theorem utf8_of_decodeUtf8 {bytes : List UInt8} {s : String} (h : decodeUtf8 bytes = some s) :
    utf8 s = bytes := by
  unfold decodeUtf8 String.fromUTF8? at h
  split at h
  · rename_i hvalid
    have hbytes : s.toByteArray = bytes.toByteArray := by
      rw [← Option.some.inj h]
      rfl
    rw [← toByteArray_utf8] at hbytes
    exact List.toByteArray_inj.mp hbytes
  · cases h

theorem isSome_decodeUtf8_iff {bytes : List UInt8} :
    (decodeUtf8 bytes).isSome ↔ bytes.toByteArray.IsValidUTF8 := by
  unfold decodeUtf8 String.fromUTF8?
  split
  · rename_i hvalid
    exact iff_of_true rfl hvalid
  · rename_i hvalid
    exact iff_of_false (by simp) hvalid

/-- Valid text in front changes nothing. -/
theorem isSome_decodeUtf8_append (s : String) (bytes : List UInt8) :
    (decodeUtf8 (utf8 s ++ bytes)).isSome = (decodeUtf8 bytes).isSome := by
  rw [Bool.eq_iff_iff, isSome_decodeUtf8_iff, isSome_decodeUtf8_iff, utf8]
  induction s.toList with
  | nil => rfl
  | cons c chars ih =>
      rw [List.flatMap_cons, List.append_assoc, List.toByteArray_append,
        ← List.utf8Encode_singleton, ByteArray.isValidUTF8_utf8Encode_singleton_append_iff, ih]

/-- No character is read from a part of its bytes. -/
theorem prefix_of_utf8_prefix {s t : String} (h : utf8 s <+: utf8 t) : s.toList <+: t.toList := by
  obtain ⟨rest, hrest⟩ := h
  apply List.isPrefix_of_utf8Encode_append_eq_utf8Encode rest.toByteArray
  rw [String.utf8Encode_toList, String.utf8Encode_toList, ← toByteArray_utf8, ← toByteArray_utf8,
    ← hrest, List.toByteArray_append]

/-- The string of a sequence of ASCII bytes. -/
def ofAscii (bytes : List UInt8) : String :=
  String.ofList (bytes.map fun b => Char.ofNat b.toNat)

theorem utf8_ofAscii {bytes : List UInt8} (h : ∀ b ∈ bytes, b.toNat < 128) :
    utf8 (ofAscii bytes) = bytes := by
  induction bytes with
  | nil => rfl
  | cons b bytes ih =>
      have hb : b.toNat < 128 := h b List.mem_cons_self
      have hvalid : b.toNat.isValidChar := .inl (by omega)
      have hval : (Char.ofNat b.toNat).val.toNat = b.toNat := by
        rw [Char.ofNat, dif_pos hvalid]
        rfl
      have hchar : String.utf8EncodeChar (Char.ofNat b.toNat) = [b] := by
        simp only [String.utf8EncodeChar, hval]
        rw [if_pos (by omega), UInt8.ofNat_toNat]
      have htail := ih fun b hmem => h b (List.mem_cons_of_mem _ hmem)
      simp only [utf8, ofAscii, String.toList_ofList] at htail ⊢
      rw [List.map_cons, List.flatMap_cons, hchar, htail, List.singleton_append]

/-- An ASCII character occurs in the bytes of a string only where the string has
it: the bytes of every other character are 128 or more. -/
theorem mem_utf8EncodeChar_ascii {a c : Char} (ha : a.toNat < 128)
    (h : UInt8.ofNat a.toNat ∈ String.utf8EncodeChar c) : c = a := by
  have hbyte : (UInt8.ofNat a.toNat).toNat = a.toNat := by
    simp only [UInt8.toNat_ofNat']; omega
  have hle : c.val.toNat ≤ 0x7f := by
    by_contra hbig
    have hmem : ∀ b ∈ String.utf8EncodeChar c, 128 ≤ b.toNat := by
      intro b hb
      simp only [String.utf8EncodeChar, if_neg hbig] at hb
      split at hb
      · simp only [List.mem_cons, List.not_mem_nil, or_false] at hb
        rcases hb with rfl | rfl <;> simp only [UInt8.toNat_ofNat'] <;> omega
      · split at hb
        · simp only [List.mem_cons, List.not_mem_nil, or_false] at hb
          rcases hb with rfl | rfl | rfl <;> simp only [UInt8.toNat_ofNat'] <;> omega
        · simp only [List.mem_cons, List.not_mem_nil, or_false] at hb
          rcases hb with rfl | rfl | rfl | rfl <;> simp only [UInt8.toNat_ofNat'] <;> omega
    have := hmem _ h
    omega
  simp only [String.utf8EncodeChar, if_pos hle, List.mem_singleton] at h
  have hnat : a.toNat = c.val.toNat := by
    have := congrArg UInt8.toNat h
    rw [hbyte, UInt8.toNat_ofNat'] at this
    omega
  exact Char.ext (UInt32.toNat_inj.mp hnat.symm)

theorem mem_utf8_ascii {a : Char} {s : String} (ha : a.toNat < 128)
    (h : UInt8.ofNat a.toNat ∈ utf8 s) : a ∈ s.toList := by
  obtain ⟨c, hc, hb⟩ := List.mem_flatMap.mp h
  exact mem_utf8EncodeChar_ascii ha hb ▸ hc

/-! ### Blanks -/

/-- The Unicode property `White_Space`, `char::is_whitespace`. -/
def isWhitespace (c : Char) : Bool :=
  let n := c.toNat
  (9 ≤ n && n ≤ 13) || n = 0x20 || n = 0x85 || n = 0xA0 || n = 0x1680 ||
    (0x2000 ≤ n && n ≤ 0x200A) || n = 0x2028 || n = 0x2029 || n = 0x202F || n = 0x205F ||
    n = 0x3000

/-- `s.trim().is_empty()`. -/
def isBlank (s : String) : Bool := s.toList.all isWhitespace

/-- `str::trim`. -/
def trim (s : String) : String :=
  String.ofList ((s.toList.dropWhile isWhitespace).reverse.dropWhile isWhitespace).reverse

/-- Without such characters at either end, `str::trim_matches`. -/
def trimBy (p : Char → Bool) (chars : List Char) : List Char :=
  ((chars.dropWhile p).reverse.dropWhile p).reverse

theorem toList_trim (s : String) : (trim s).toList = trimBy isWhitespace s.toList :=
  String.toList_ofList

section

variable {p : Char → Bool}

theorem dropWhile_append_of_all {front : List Char} (h : ∀ c ∈ front, p c = true)
    (rest : List Char) : (front ++ rest).dropWhile p = rest.dropWhile p := by
  induction front with
  | nil => rfl
  | cons c front ih =>
      rw [List.forall_mem_cons] at h
      rw [List.cons_append, List.dropWhile_cons_of_pos h.1, ih h.2]

theorem trimBy_append_left {front : List Char} (h : ∀ c ∈ front, p c = true)
    (chars : List Char) : trimBy p (front ++ chars) = trimBy p chars := by
  rw [trimBy, dropWhile_append_of_all h, trimBy]

theorem trimBy_append_right {back : List Char} (h : ∀ c ∈ back, p c = true)
    (chars : List Char) : trimBy p (chars ++ back) = trimBy p chars := by
  have hback : ∀ c ∈ back.reverse, p c = true :=
    fun c hc => h c (List.mem_reverse.mp hc)
  rw [trimBy, trimBy, List.dropWhile_append]
  split
  · rename_i hall
    have hnil := List.isEmpty_iff.mp hall
    have hdrop := dropWhile_append_of_all h []
    rw [List.append_nil, List.dropWhile_nil] at hdrop
    rw [hnil, hdrop]
  · rw [List.reverse_append, dropWhile_append_of_all hback]

/-- What is trimmed off at the end. -/
theorem exists_reverse_dropWhile (p : Char → Bool) (chars : List Char) :
    ∃ back, (∀ c ∈ back, p c = true) ∧ chars = (chars.reverse.dropWhile p).reverse ++ back := by
  refine ⟨(chars.reverse.takeWhile p).reverse, ?_, ?_⟩
  · intro c hc
    exact List.all_eq_true.mp List.all_takeWhile c (List.mem_reverse.mp hc)
  · rw [← List.reverse_append, List.takeWhile_append_dropWhile, List.reverse_reverse]

/-- What is trimmed off at both ends. -/
theorem exists_trimBy (p : Char → Bool) (chars : List Char) :
    ∃ front back, (∀ c ∈ front, p c = true) ∧ (∀ c ∈ back, p c = true) ∧
      chars = front ++ (trimBy p chars ++ back) := by
  obtain ⟨back, hback, hchars⟩ := exists_reverse_dropWhile p (chars.dropWhile p)
  have hfront : ∀ c ∈ chars.takeWhile p, p c = true := List.all_eq_true.mp List.all_takeWhile
  refine ⟨chars.takeWhile p, back, hfront, hback, ?_⟩
  rw [trimBy, ← hchars, List.takeWhile_append_dropWhile]

theorem trimBy_trimBy (chars : List Char) : trimBy p (trimBy p chars) = trimBy p chars := by
  obtain ⟨front, back, hfront, hback, hchars⟩ := exists_trimBy p chars
  calc trimBy p (trimBy p chars)
      = trimBy p (front ++ (trimBy p chars ++ back)) := by
        rw [trimBy_append_left hfront, trimBy_append_right hback]
    _ = trimBy p chars := by rw [← hchars]

theorem trimBy_eq_nil_iff {chars : List Char} : trimBy p chars = [] ↔ ∀ c ∈ chars, p c = true := by
  constructor
  · intro h
    obtain ⟨front, back, hfront, hback, hchars⟩ := exists_trimBy p chars
    rw [h, List.nil_append] at hchars
    rw [hchars]
    exact fun c hc => (List.mem_append.mp hc).elim (hfront c) (hback c)
  · intro h
    have htrim := trimBy_append_left h []
    rw [List.append_nil] at htrim
    exact htrim

/-- A text that is trimmed already starts with no blank. -/
theorem head_of_trimBy {chars : List Char} (h : trimBy p chars = chars) :
    ∀ c ∈ chars.head?, p c = false := by
  have hsuffix : chars.dropWhile p <:+ chars := List.dropWhile_suffix _
  have hlength : chars.length ≤ (chars.dropWhile p).length := by
    calc chars.length = (trimBy p chars).length := by rw [h]
      _ ≤ (chars.dropWhile p).reverse.length := by
        rw [trimBy, List.length_reverse]
        exact (List.dropWhile_suffix _).length_le
      _ = (chars.dropWhile p).length := List.length_reverse
  have hdrop := hsuffix.eq_of_length (Nat.le_antisymm hsuffix.length_le hlength)
  intro c hc
  cases chars with
  | nil => cases hc
  | cons d chars =>
      obtain rfl : d = c := Option.some.inj hc
      rw [← Bool.not_eq_true]
      intro hblank
      rw [List.dropWhile_cons_of_pos hblank] at hdrop
      have hle := (List.dropWhile_suffix (l := chars) p).length_le
      rw [hdrop, List.length_cons] at hle
      omega

end

theorem trim_eq_empty_iff {s : String} : trim s = "" ↔ isBlank s = true := by
  rw [← String.toList_eq_nil_iff, toList_trim, trimBy_eq_nil_iff, isBlank, List.all_eq_true]

/-- `str::to_lowercase` and `to_ascii_lowercase`, on the ASCII letters. -/
def toAsciiLowercase (s : String) : String := String.ofList (s.toList.map Char.toLower)

/-- A property of the characters of a text is checked one by one. -/
theorem forall_mem_of_all {p : Char → Prop} [DecidablePred p] {chars : List Char}
    (h : chars.all (fun c => decide (p c)) = true) : ∀ c ∈ chars, p c :=
  fun c hc => of_decide_eq_true (List.all_eq_true.mp h c hc)

/-! ### Splitting -/

/-- `str::rsplit_once`: what is before and after the last separator. -/
def rsplitOnce (separator : Char) : List Char → Option (List Char × List Char)
  | [] => none
  | c :: rest =>
      match rsplitOnce separator rest with
      | some (before, after) => some (c :: before, after)
      | none => if c = separator then some ([], rest) else none

theorem rsplitOnce_of_not_mem {separator : Char} {chars : List Char} (h : separator ∉ chars) :
    rsplitOnce separator chars = none := by
  induction chars with
  | nil => rfl
  | cons c chars ih =>
      rw [List.mem_cons, not_or] at h
      rw [rsplitOnce, ih h.2]
      exact if_neg fun heq => h.1 heq.symm

theorem rsplitOnce_append {separator : Char} {after : List Char} (h : separator ∉ after)
    (before : List Char) :
    rsplitOnce separator (before ++ separator :: after) = some (before, after) := by
  induction before with
  | nil =>
      rw [List.nil_append, rsplitOnce, rsplitOnce_of_not_mem h]
      exact if_pos rfl
  | cons c before ih => rw [List.cons_append, rsplitOnce, ih]

theorem exists_last_separator {separator : Char} {chars : List Char} (h : separator ∈ chars) :
    ∃ before after, separator ∉ after ∧ chars = before ++ separator :: after := by
  induction chars with
  | nil => cases h
  | cons c chars ih =>
      by_cases hrest : separator ∈ chars
      · obtain ⟨before, after, hafter, rfl⟩ := ih hrest
        exact ⟨c :: before, after, hafter, rfl⟩
      · obtain rfl := (List.mem_cons.mp h).resolve_right hrest
        exact ⟨[], chars, hrest, rfl⟩

/-- What has no separator stays behind the last one. -/
theorem rsplitOnce_append_of_not_mem {separator : Char} {back : List Char} (h : separator ∉ back)
    (chars : List Char) : rsplitOnce separator (chars ++ back) =
      (rsplitOnce separator chars).map fun r => (r.1, r.2 ++ back) := by
  induction chars with
  | nil => rw [List.nil_append, rsplitOnce_of_not_mem h, rsplitOnce, Option.map_none]
  | cons c chars ih =>
      rw [List.cons_append, rsplitOnce, rsplitOnce, ih]
      cases rsplitOnce separator chars with
      | some r => rfl
      | none =>
          rw [Option.map_none]
          by_cases hc : c = separator
          · simp only [hc, if_true, Option.map_some]
          · simp only [hc, if_false, Option.map_none]

/-! ### Numbers -/

/-- The number a sequence of decimal digits denotes; none when it is empty. -/
def parseDigits (digits : List Char) : Option ℕ :=
  if digits = [] ∨ ¬digits.all Char.isDigit then none
  else some (digits.foldl (fun n c => 10 * n + (c.toNat - '0'.toNat)) 0)

/-- A printed number is read back. -/
theorem parseDigits_toDigits (n : ℕ) : parseDigits (Nat.toDigits 10 n) = some n := by
  have hdigits : (Nat.toDigits 10 n).all Char.isDigit = true := by
    rw [List.all_eq_true]
    exact fun c hc => Nat.isDigit_of_mem_toDigits (by decide) (by decide) hc
  rw [parseDigits, if_neg (by simp [hdigits, Nat.toDigits_ne_nil])]
  exact congrArg some Nat.ofDigitChars_ten_toDigits

/-- `u64::MAX` and `i64::MAX`. -/
def maxU64 : ℕ := 18446744073709551615
def maxI64 : ℕ := 9223372036854775807

/-- `str::parse::<u64>`: a plus sign or none, then digits, within 64 bits. -/
def parseU64 (s : String) : Option ℕ :=
  let digits :=
    match s.toList with
    | '+' :: digits => digits
    | digits => digits
  (parseDigits digits).filter fun n => n ≤ maxU64

/-- `str::parse::<i64>`: an optional sign, then digits, within 64 bits. -/
def parseI64 (s : String) : Option ℤ :=
  match s.toList with
  | '-' :: digits =>
      (parseDigits digits).bind fun n => if n ≤ maxI64 + 1 then some (-(n : ℤ)) else none
  | '+' :: digits => (parseDigits digits).bind fun n => if n ≤ maxI64 then some (n : ℤ) else none
  | digits => (parseDigits digits).bind fun n => if n ≤ maxI64 then some (n : ℤ) else none

/-! ### Lines -/

section Lines

variable {β : Type} [DecidableEq β]

/-- Drop one trailing `cr`. -/
def stripCr (cr : β) (line : List β) : List β :=
  if line.getLast? = some cr then line.dropLast else line

/-- The lines of a text: pieces ended by `nl`, and a last piece when it is not
empty. -/
def lines (nl cr : β) (text : List β) : List (List β) :=
  let pieces := text.splitOn nl
  pieces.dropLast.map (stripCr cr) ++ (pieces.getLast?.toList.filter (· ≠ []))

theorem stripCr_of_not_mem {cr : β} {line : List β} (h : cr ∉ line) :
    stripCr cr line = line := by
  rw [stripCr, if_neg]
  intro hlast
  exact h (List.mem_of_getLast? hlast)

/-- A text that starts a new line is read after the lines before it. -/
theorem lines_append_nl (nl cr : β) (pre post : List β) :
    lines nl cr (pre ++ nl :: post) =
      ((pre.splitOn nl).map (stripCr cr)) ++ lines nl cr post := by
  have hne : post.splitOn nl ≠ [] := List.splitOn_ne_nil nl post
  simp only [lines, List.splitOn_append_cons_self, List.dropLast_append_of_ne_nil hne,
    List.map_append, List.getLast?_append_of_ne_nil _ hne, List.append_assoc]

@[simp] theorem lines_nil (nl cr : β) : lines nl cr [] = [] := by
  simp [lines, List.splitOn_eq_singleton]

theorem lines_single {nl : β} (cr : β) {line : List β} (hnl : nl ∉ line) (hne : line ≠ []) :
    lines nl cr line = [line] := by
  simp [lines, List.splitOn_eq_singleton hnl, hne]

end Lines

end CdvizCollector.Lib.Text
