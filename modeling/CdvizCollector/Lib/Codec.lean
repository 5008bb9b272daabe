import CdvizCollector.Lib.Text

/-!
The two text encodings of bytes: hexadecimal, and base64 with its standard
alphabet and padding.

Hexadecimal is written in lowercase and read in either case. Base64 is read
strictly: the padding must be there, and the bits it leaves over must be zero.
-/

namespace CdvizCollector.Lib.Codec

/-! ### Digits -/

/-- The digits of an alphabet, by their values. -/
def digitChar (alphabet : String) (n : ℕ) : Char := (alphabet.toList[n]?).getD '0'

def lowerHex : String := "0123456789abcdef"

def base64Alphabet : String := "ABCDEFGHIJKLMNOPQRSTUVWXYZabcdefghijklmnopqrstuvwxyz0123456789+/"

/-- The byte of an ASCII digit. -/
def digitByte (alphabet : String) (n : ℕ) : UInt8 := UInt8.ofNat (digitChar alphabet n).toNat

def hexValue (b : UInt8) : Option ℕ :=
  let n := b.toNat
  if 48 ≤ n ∧ n ≤ 57 then some (n - 48)
  else if 97 ≤ n ∧ n ≤ 102 then some (n - 87)
  else if 65 ≤ n ∧ n ≤ 70 then some (n - 55)
  else none

def base64Value (b : UInt8) : Option ℕ :=
  let n := b.toNat
  if 65 ≤ n ∧ n ≤ 90 then some (n - 65)
  else if 97 ≤ n ∧ n ≤ 122 then some (n - 71)
  else if 48 ≤ n ∧ n ≤ 57 then some (n + 4)
  else if n = 43 then some 62
  else if n = 47 then some 63
  else none

theorem hexValue_digitByte {n : ℕ} (h : n < 16) : hexValue (digitByte lowerHex n) = some n := by
  have hall : ∀ n ∈ List.range 16, hexValue (digitByte lowerHex n) = some n := by decide
  exact hall n (List.mem_range.mpr h)

theorem base64Value_digitByte {n : ℕ} (h : n < 64) :
    base64Value (digitByte base64Alphabet n) = some n := by
  have hall : ∀ n ∈ List.range 64, base64Value (digitByte base64Alphabet n) = some n := by decide
  exact hall n (List.mem_range.mpr h)

/-- A printable ASCII character other than a space. -/
def Printable (b : UInt8) : Prop := 33 ≤ b.toNat ∧ b.toNat < 127

theorem hexValue_printable {b : UInt8} {n : ℕ} (h : hexValue b = some n) : Printable b := by
  unfold hexValue at h
  grind [Printable]

theorem base64Value_printable {b : UInt8} {n : ℕ} (h : base64Value b = some n) : Printable b := by
  unfold base64Value at h
  grind [Printable]

/-! ### Hexadecimal -/

/-- `hex_string`, by bytes. -/
def hexBytes (bytes : List UInt8) : List UInt8 :=
  bytes.flatMap fun b => [digitByte lowerHex (b.toNat / 16), digitByte lowerHex (b.toNat % 16)]

/-- `hex_decode`. -/
def hexDecode : List UInt8 → Option (List UInt8)
  | [] => some []
  | [_] => none
  | a :: b :: rest =>
      match hexValue a, hexValue b, hexDecode rest with
      | some x, some y, some bytes => some (UInt8.ofNat (16 * x + y) :: bytes)
      | _, _, _ => none

theorem hexDecode_hexBytes (bytes : List UInt8) : hexDecode (hexBytes bytes) = some bytes := by
  induction bytes with
  | nil => rfl
  | cons b bytes ih =>
      have hb := b.toNat_lt
      have hhigh : hexValue (digitByte lowerHex (b.toNat / 16)) = some (b.toNat / 16) :=
        hexValue_digitByte (by omega)
      have hlow : hexValue (digitByte lowerHex (b.toNat % 16)) = some (b.toNat % 16) :=
        hexValue_digitByte (by omega)
      rw [hexBytes, List.flatMap_cons, ← hexBytes, List.cons_append, List.cons_append,
        List.nil_append, hexDecode, hhigh, hlow, ih]
      simp only [Nat.div_add_mod, UInt8.ofNat_toNat]

theorem hexDecode_spec {text bytes : List UInt8} (h : hexDecode text = some bytes) :
    text.length % 2 = 0 ∧ ∀ b ∈ text, Printable b := by
  fun_induction hexDecode text generalizing bytes with
  | case1 => exact ⟨rfl, by simp⟩
  | case2 => cases h
  | case3 a b rest x y tail htail hy hx ih =>
      obtain ⟨hlen, hrest⟩ := ih htail
      refine ⟨by simp only [List.length_cons]; omega, ?_⟩
      intro c hc
      rcases List.mem_cons.mp hc with rfl | hc
      · exact hexValue_printable hx
      · rcases List.mem_cons.mp hc with rfl | hc
        · exact hexValue_printable hy
        · exact hrest c hc
  | case4 => cases h

/-! ### Base64 -/

/-- The byte `=` that fills the last group. -/
def padding : UInt8 := 61

/-- `STANDARD.encode`, by bytes: three bytes are four digits of six bits. -/
def base64Bytes : List UInt8 → List UInt8
  | [] => []
  | [a] =>
      [digitByte base64Alphabet (a.toNat / 4), digitByte base64Alphabet (a.toNat % 4 * 16),
        padding, padding]
  | [a, b] =>
      [digitByte base64Alphabet (a.toNat / 4),
        digitByte base64Alphabet (a.toNat % 4 * 16 + b.toNat / 16),
        digitByte base64Alphabet (b.toNat % 16 * 4), padding]
  | a :: b :: c :: rest =>
      digitByte base64Alphabet (a.toNat / 4) ::
        digitByte base64Alphabet (a.toNat % 4 * 16 + b.toNat / 16) ::
        digitByte base64Alphabet (b.toNat % 16 * 4 + c.toNat / 64) ::
        digitByte base64Alphabet (c.toNat % 64) :: base64Bytes rest

/-- The bytes of the first two digits of a group, the third and the fourth. -/
def firstByte (x y : ℕ) : UInt8 := UInt8.ofNat (x * 4 + y / 16)
def secondByte (y z : ℕ) : UInt8 := UInt8.ofNat (y % 16 * 16 + z / 4)
def thirdByte (z w : ℕ) : UInt8 := UInt8.ofNat (z % 4 * 64 + w)

/-- The last group, when it is filled up. -/
def decodePadded (x y : ℕ) (c d : UInt8) : Option (List UInt8) :=
  if d ≠ padding then none
  else if c = padding then if y % 16 = 0 then some [firstByte x y] else none
  else
    match base64Value c with
    | some z => if z % 4 = 0 then some [firstByte x y, secondByte y z] else none
    | none => none

/-- `STANDARD.decode`. -/
def base64Decode : List UInt8 → Option (List UInt8)
  | [] => some []
  | a :: b :: c :: d :: rest =>
      match base64Value a, base64Value b with
      | some x, some y =>
          match base64Value c, base64Value d with
          | some z, some w =>
              (base64Decode rest).map fun bytes =>
                firstByte x y :: secondByte y z :: thirdByte z w :: bytes
          | _, _ => if rest = [] then decodePadded x y c d else none
      | _, _ => none
  | _ => none

theorem base64Value_padding : base64Value padding = none := rfl

theorem base64Decode_base64Bytes (bytes : List UInt8) :
    base64Decode (base64Bytes bytes) = some bytes := by
  fun_induction base64Bytes bytes with
  | case1 => rfl
  | case2 a =>
      have ha := a.toNat_lt
      rw [base64Decode, base64Value_digitByte (by omega), base64Value_digitByte (by omega),
        base64Value_padding]
      simp only [decodePadded, firstByte, ne_eq, not_true_eq_false, if_true, if_false]
      rw [if_pos (by omega)]
      have hfirst : a.toNat / 4 * 4 + a.toNat % 4 * 16 / 16 = a.toNat := by omega
      rw [hfirst, UInt8.ofNat_toNat]
  | case3 a b =>
      have ha := a.toNat_lt
      have hb := b.toNat_lt
      have hthird : base64Value (digitByte base64Alphabet (b.toNat % 16 * 4)) =
          some (b.toNat % 16 * 4) := base64Value_digitByte (by omega)
      have hne : digitByte base64Alphabet (b.toNat % 16 * 4) ≠ padding := by
        intro heq
        rw [heq, base64Value_padding] at hthird
        cases hthird
      rw [base64Decode, base64Value_digitByte (by omega), base64Value_digitByte (by omega),
        base64Value_padding, hthird]
      simp only [decodePadded, hthird, hne, ne_eq, not_true_eq_false, if_true, if_false]
      rw [if_pos (by omega)]
      have hfirst : a.toNat / 4 * 4 + (a.toNat % 4 * 16 + b.toNat / 16) / 16 = a.toNat := by omega
      have hsecond : (a.toNat % 4 * 16 + b.toNat / 16) % 16 * 16 + b.toNat % 16 * 4 / 4 =
          b.toNat := by omega
      rw [firstByte, secondByte, hfirst, hsecond, UInt8.ofNat_toNat, UInt8.ofNat_toNat]
  | case4 a b c rest ih =>
      have ha := a.toNat_lt
      have hb := b.toNat_lt
      have hc := c.toNat_lt
      rw [base64Decode, base64Value_digitByte (by omega), base64Value_digitByte (by omega),
        base64Value_digitByte (by omega), base64Value_digitByte (by omega), ih]
      have hfirst : a.toNat / 4 * 4 + (a.toNat % 4 * 16 + b.toNat / 16) / 16 = a.toNat := by omega
      have hsecond : (a.toNat % 4 * 16 + b.toNat / 16) % 16 * 16 +
          (b.toNat % 16 * 4 + c.toNat / 64) / 4 = b.toNat := by omega
      have hthird : (b.toNat % 16 * 4 + c.toNat / 64) % 4 * 64 + c.toNat % 64 = c.toNat := by omega
      simp only [Option.map_some, firstByte, secondByte, thirdByte, hfirst, hsecond, hthird,
        UInt8.ofNat_toNat]

theorem padding_printable : Printable padding := ⟨by decide, by decide⟩

theorem decodePadded_printable {x y : ℕ} {c d : UInt8} {bytes : List UInt8}
    (h : decodePadded x y c d = some bytes) : Printable c ∧ Printable d := by
  unfold decodePadded at h
  by_cases hd : d = padding
  · refine ⟨?_, hd ▸ padding_printable⟩
    by_cases hc : c = padding
    · exact hc ▸ padding_printable
    · rw [if_neg (not_not.mpr hd), if_neg hc] at h
      cases hz : base64Value c with
      | none => simp [hz] at h
      | some z => exact base64Value_printable hz
  · rw [if_pos hd] at h
    cases h

theorem base64Decode_printable {text bytes : List UInt8} (h : base64Decode text = some bytes) :
    ∀ b ∈ text, Printable b := by
  fun_induction base64Decode text generalizing bytes with
  | case1 => simp
  | case2 a b c d rest x y hb ha z w hd hc ih =>
      obtain ⟨tail, htail, -⟩ := Option.map_eq_some_iff.mp h
      simp only [List.forall_mem_cons]
      exact ⟨base64Value_printable ha, base64Value_printable hb, base64Value_printable hc,
        base64Value_printable hd, ih htail⟩
  | case3 a b c d x y hb ha hnone =>
      obtain ⟨hc, hd⟩ := decodePadded_printable h
      simp only [List.forall_mem_cons]
      exact ⟨base64Value_printable ha, base64Value_printable hb, hc, hd, by simp⟩
  | case4 => cases h
  | case5 => cases h
  | case6 => cases h

example : base64Bytes [104, 105, 33, 10] = [97, 71, 107, 104, 67, 103, 61, 61] := by decide

end CdvizCollector.Lib.Codec
