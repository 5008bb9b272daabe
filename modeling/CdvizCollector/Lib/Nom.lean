import CdvizCollector.Lib.Text

/-!
Parser combinators over complete input, after `nom`.

A parser gives what is left of the input together with a value, or it fails. Each
is given with what it reads of an input that starts as it should, and with the
fact that what it leaves is a back part of the input.
-/

namespace CdvizCollector.Lib.Nom

abbrev Parser (α : Type) := List Char → Option (List Char × α)

variable {α β : Type}

/-! ### Characters and texts -/

def tag (text : String) : Parser String := fun input =>
  if text.toList.isPrefixOf input then some (input.drop text.toList.length, text) else none

def char (c : Char) : Parser Char
  | d :: input => if d = c then some (input, c) else none
  | [] => none

/-- The longest front part of such characters, `take_while`. -/
def takeWhile0 (p : Char → Bool) : Parser (List Char) := fun input =>
  some (input.dropWhile p, input.takeWhile p)

/-- The same if it is not empty, `take_while1`. -/
def takeWhile1 (p : Char → Bool) : Parser (List Char) := fun input =>
  if input.takeWhile p = [] then none else some (input.dropWhile p, input.takeWhile p)

def isSpace (c : Char) : Bool := c = ' ' || c = '\t'

def space0 : Parser (List Char) := takeWhile0 isSpace

def space1 : Parser (List Char) := takeWhile1 isSpace

def digit1 : Parser (List Char) := takeWhile1 Char.isDigit

/-- A line feed, or a carriage return and a line feed. -/
def lineEnding : Parser Unit
  | '\n' :: input => some (input, ())
  | '\r' :: '\n' :: input => some (input, ())
  | _ => none

def isInLine (c : Char) : Bool := !(c = '\n' || c = '\r')

/-- What is before the line ending; it fails at a carriage return that is none. -/
def notLineEnding : Parser (List Char) := fun input =>
  match input.dropWhile isInLine with
  | '\r' :: '\n' :: rest => some ('\r' :: '\n' :: rest, input.takeWhile isInLine)
  | '\r' :: _ => none
  | rest => some (rest, input.takeWhile isInLine)

/-- What is before the first occurrence of the text. -/
def takeUntil (text : String) : Parser (List Char)
  | [] => if text = "" then some ([], []) else none
  | c :: input =>
      if text.toList.isPrefixOf (c :: input) then some (c :: input, [])
      else (takeUntil text input).map fun r => (r.1, c :: r.2)

/-! ### Combinators -/

def opt (p : Parser α) : Parser (Option α) := fun input =>
  match p input with
  | some (rest, a) => some (rest, some a)
  | none => some (input, none)

def alt (p q : Parser α) : Parser α := fun input => (p input).or (q input)

def value (a : α) (p : Parser β) : Parser α := fun input => (p input).map fun r => (r.1, a)

def pair (p : Parser α) (q : Parser β) : Parser (α × β) := fun input => do
  let (input, a) ← p input
  let (input, b) ← q input
  some (input, a, b)

def preceded (p : Parser β) (q : Parser α) : Parser α := fun input =>
  (pair p q input).map fun r => (r.1, r.2.2)

def terminated (p : Parser α) (q : Parser β) : Parser α := fun input =>
  (pair p q input).map fun r => (r.1, r.2.1)

/-! ### What is read -/

theorem tag_append (text : String) (rest : List Char) :
    tag text (text.toList ++ rest) = some (rest, text) := by
  rw [tag, if_pos (List.isPrefixOf_iff_prefix.mpr (List.prefix_append _ _)),
    List.drop_left]

theorem tag_cons_ne {text : String} {c d : Char} {chars input : List Char}
    (htext : text.toList = c :: chars) (hne : d ≠ c) : tag text (d :: input) = none := by
  rw [tag, if_neg]
  rw [htext, List.isPrefixOf_iff_prefix, List.cons_prefix_cons]
  exact fun h => hne h.1.symm

@[simp] theorem char_cons_self (c : Char) (rest : List Char) :
    char c (c :: rest) = some (rest, c) := if_pos rfl

theorem char_cons_ne {c d : Char} (h : d ≠ c) (rest : List Char) : char c (d :: rest) = none :=
  if_neg h

/-- The input does not start with such a character. -/
def Stops (p : Char → Bool) (input : List Char) : Prop := ∀ c ∈ input.head?, p c = false

@[simp] theorem stops_nil (p : Char → Bool) : Stops p [] := by simp [Stops]

@[simp] theorem stops_cons {p : Char → Bool} {c : Char} {rest : List Char} :
    Stops p (c :: rest) ↔ p c = false := by simp [Stops]

theorem takeWhile_append_stops {p : Char → Bool} {chars rest : List Char}
    (hchars : ∀ c ∈ chars, p c = true) (hrest : Stops p rest) :
    (chars ++ rest).takeWhile p = chars ∧ (chars ++ rest).dropWhile p = rest := by
  induction chars with
  | nil =>
      cases rest with
      | nil => exact ⟨rfl, rfl⟩
      | cons c rest =>
          rw [stops_cons] at hrest
          simp [hrest]
  | cons c chars ih =>
      rw [List.forall_mem_cons] at hchars
      obtain ⟨htake, hdrop⟩ := ih hchars.2
      simp [hchars.1, htake, hdrop]

theorem takeWhile1_append {p : Char → Bool} {chars rest : List Char} (hne : chars ≠ [])
    (hchars : ∀ c ∈ chars, p c = true) (hrest : Stops p rest) :
    takeWhile1 p (chars ++ rest) = some (rest, chars) := by
  obtain ⟨htake, hdrop⟩ := takeWhile_append_stops hchars hrest
  rw [takeWhile1, htake, hdrop, if_neg hne]

theorem takeWhile1_stops {p : Char → Bool} {input : List Char} (h : Stops p input) :
    takeWhile1 p input = none := by
  have htake := (takeWhile_append_stops (List.forall_mem_nil _) h).1
  rw [List.nil_append] at htake
  rw [takeWhile1, if_pos htake]

/-- One blank before something else. -/
theorem space1_space {rest : List Char} (h : Stops isSpace rest) :
    space1 (' ' :: rest) = some (rest, [' ']) :=
  takeWhile1_append (List.cons_ne_nil ' ' []) (List.forall_mem_singleton.mpr rfl) h

theorem stops_newline (rest : List Char) : Stops isInLine ('\n' :: rest) :=
  stops_cons.mpr rfl

theorem notLineEnding_line {line rest : List Char} (hline : ∀ c ∈ line, isInLine c = true) :
    notLineEnding (line ++ '\n' :: rest) = some ('\n' :: rest, line) := by
  obtain ⟨htake, hdrop⟩ := takeWhile_append_stops hline (stops_newline rest)
  rw [notLineEnding, htake, hdrop]
  rfl

theorem notLineEnding_all {line : List Char} (hline : ∀ c ∈ line, isInLine c = true) :
    notLineEnding line = some ([], line) := by
  obtain ⟨htake, hdrop⟩ := takeWhile_append_stops hline (stops_nil _)
  rw [List.append_nil] at htake hdrop
  rw [notLineEnding, htake, hdrop]

theorem opt_some {p : Parser α} {input rest : List Char} {a : α} (h : p input = some (rest, a)) :
    opt p input = some (rest, some a) := by
  rw [opt, h]

theorem opt_none {p : Parser α} {input : List Char} (h : p input = none) :
    opt p input = some (input, none) := by
  rw [opt, h]

theorem pair_some {p : Parser α} {q : Parser β} {input mid rest : List Char} {a : α} {b : β}
    (hp : p input = some (mid, a)) (hq : q mid = some (rest, b)) :
    pair p q input = some (rest, a, b) := by
  simp [pair, hp, hq]

/-! ### What is left -/

theorem append_of_tag {text a : String} {input rest : List Char}
    (h : tag text input = some (rest, a)) : input = text.toList ++ rest := by
  unfold tag at h
  split at h
  · rename_i hprefix
    obtain ⟨back, rfl⟩ := List.isPrefixOf_iff_prefix.mp hprefix
    cases h
    rw [List.drop_left]
  · cases h

theorem suffix_of_tag {text : String} {input rest : List Char} {a : String}
    (h : tag text input = some (rest, a)) : rest <:+ input := by
  rw [append_of_tag h]
  exact List.suffix_append _ rest

theorem suffix_of_char {c a : Char} {input rest : List Char} (h : char c input = some (rest, a)) :
    rest <:+ input ∧ rest.length < input.length := by
  cases input with
  | nil => cases h
  | cons d input =>
      simp only [char] at h
      split at h
      · obtain ⟨rfl, -⟩ := Prod.mk.inj (Option.some.inj h)
        exact ⟨List.suffix_cons _ _, by simp⟩
      · cases h

theorem suffix_of_takeWhile0 {p : Char → Bool} {input rest a : List Char}
    (h : takeWhile0 p input = some (rest, a)) : rest <:+ input := by
  cases h
  exact List.dropWhile_suffix p

theorem suffix_of_takeWhile1 {p : Char → Bool} {input rest a : List Char}
    (h : takeWhile1 p input = some (rest, a)) : rest <:+ input := by
  unfold takeWhile1 at h
  split at h
  · cases h
  · cases h
    exact List.dropWhile_suffix p

/-- A line ending is not empty. -/
theorem suffix_of_lineEnding {input rest : List Char} {a : Unit}
    (h : lineEnding input = some (rest, a)) : rest <:+ input ∧ rest.length < input.length := by
  unfold lineEnding at h
  split at h
  · cases h
    exact ⟨List.suffix_cons _ _, by simp⟩
  · cases h
    refine ⟨(List.suffix_cons _ _).trans (List.suffix_cons _ _), ?_⟩
    rw [List.length_cons, List.length_cons]
    omega
  · cases h

theorem suffix_of_notLineEnding {input rest a : List Char}
    (h : notLineEnding input = some (rest, a)) : rest <:+ input := by
  have hdrop : input.dropWhile isInLine <:+ input := List.dropWhile_suffix _
  unfold notLineEnding at h
  split at h
  · rename_i heq
    cases h
    exact heq ▸ hdrop
  · cases h
  · cases h
    exact hdrop

/-- What is taken ends where the text occurs first. -/
theorem takeUntil_eq_some_iff {text : String} {input rest a : List Char} :
    takeUntil text input = some (rest, a) ↔ input = a ++ rest ∧ text.toList <+: rest ∧
      ∀ front back, a = front ++ back → back ≠ [] → ¬text.toList <+: back ++ rest := by
  induction input generalizing a with
  | nil =>
      rw [takeUntil]
      constructor
      · intro h
        split at h
        · rename_i htext
          cases h
          refine ⟨rfl, by simp [htext], ?_⟩
          intro front back heq hne
          exact absurd (List.append_eq_nil_iff.mp heq.symm).2 hne
        · cases h
      · rintro ⟨hnil, hprefix, -⟩
        obtain ⟨rfl, rfl⟩ := List.append_eq_nil_iff.mp hnil.symm
        rw [if_pos (String.toList_eq_nil_iff.mp (List.prefix_nil.mp hprefix))]
  | cons c input ih =>
      rw [takeUntil]
      by_cases hprefix : text.toList <+: c :: input
      · rw [if_pos (List.isPrefixOf_iff_prefix.mpr hprefix)]
        constructor
        · intro h
          cases h
          refine ⟨rfl, hprefix, ?_⟩
          intro front back heq hne
          exact absurd (List.append_eq_nil_iff.mp heq.symm).2 hne
        · rintro ⟨hinput, -, hfirst⟩
          cases a with
          | nil => rw [hinput, List.nil_append]
          | cons d a =>
              exact absurd (hinput ▸ hprefix) (hfirst [] (d :: a) rfl (List.cons_ne_nil d a))
      · rw [if_neg (mt List.isPrefixOf_iff_prefix.mp hprefix), Option.map_eq_some_iff]
        constructor
        · rintro ⟨r, hr, heq⟩
          cases heq
          obtain ⟨hinput, hrest, hfirst⟩ := ih.mp hr
          refine ⟨by rw [hinput, List.cons_append], hrest, ?_⟩
          intro front back heq hne
          cases front with
          | nil =>
              rw [List.nil_append] at heq
              rw [← heq, List.cons_append, ← hinput]
              exact hprefix
          | cons d front => exact hfirst front back (List.cons.inj heq).2 hne
        · rintro ⟨hinput, hrest, hfirst⟩
          cases a with
          | nil => exact absurd (hinput ▸ hrest) hprefix
          | cons d a =>
              obtain ⟨rfl, rfl⟩ := List.cons.inj hinput
              refine ⟨(rest, a), ih.mpr ⟨rfl, hrest, ?_⟩, rfl⟩
              intro front back heq hne
              exact hfirst (c :: front) back (by rw [heq, List.cons_append]) hne

/-- Nothing is found where the first character of the text does not occur. -/
theorem takeUntil_append {text : String} {c : Char} {chars front : List Char}
    (htext : text.toList = c :: chars) (h : c ∉ front) (rest : List Char) :
    takeUntil text (front ++ rest) = (takeUntil text rest).map fun r => (r.1, front ++ r.2) := by
  induction front with
  | nil =>
      rw [List.nil_append]
      exact Option.map_id'.symm
  | cons d front ih =>
      rw [List.mem_cons, not_or] at h
      have hprefix : ¬text.toList.isPrefixOf (d :: (front ++ rest)) = true := by
        rw [htext, List.isPrefixOf_iff_prefix, List.cons_prefix_cons]
        exact fun hpre => h.1 hpre.1
      rw [List.cons_append, takeUntil, if_neg hprefix, ih h.2, Option.map_map]
      rfl

theorem takeUntil_of_prefix {text : String} {input : List Char} (h : text.toList <+: input) :
    takeUntil text input = some (input, []) := by
  cases input with
  | nil => rw [takeUntil, if_pos (String.toList_eq_nil_iff.mp (List.prefix_nil.mp h))]
  | cons c input => rw [takeUntil, if_pos (List.isPrefixOf_iff_prefix.mpr h)]

theorem suffix_of_takeUntil {text : String} {input rest a : List Char}
    (h : takeUntil text input = some (rest, a)) : rest <:+ input := by
  rw [(takeUntil_eq_some_iff.mp h).1]
  exact List.suffix_append a rest

theorem suffix_of_opt {p : Parser α} {input rest : List Char} {a : Option α}
    (hp : ∀ rest a, p input = some (rest, a) → rest <:+ input)
    (h : opt p input = some (rest, a)) : rest <:+ input := by
  unfold opt at h
  split at h
  · rename_i heq
    cases h
    exact hp _ _ heq
  · cases h
    exact List.suffix_refl _

theorem suffix_of_pair {p : Parser α} {q : Parser β} {input rest : List Char} {c : α × β}
    (hp : ∀ input rest a, p input = some (rest, a) → rest <:+ input)
    (hq : ∀ input rest b, q input = some (rest, b) → rest <:+ input)
    (h : pair p q input = some (rest, c)) : rest <:+ input := by
  obtain ⟨⟨mid, a⟩, ha, h⟩ := Option.bind_eq_some_iff.mp h
  obtain ⟨⟨rest', b⟩, hb, h⟩ := Option.bind_eq_some_iff.mp h
  cases h
  exact (hq _ _ _ hb).trans (hp _ _ _ ha)

end CdvizCollector.Lib.Nom
