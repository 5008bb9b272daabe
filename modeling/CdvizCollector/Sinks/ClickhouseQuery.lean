import CdvizCollector.Lib.LineReader
import CdvizCollector.Lib.Result
import CdvizCollector.Sinks.Clickhouse

/-!
Query templates of the ClickHouse sink (`sinks/clickhouse.rs`), and where the
values of several rows are bound.

A statement for several rows repeats what follows the last `VALUES`. The driver
binds the values to the question marks in their order, whatever row they are of.
-/

namespace CdvizCollector.Sinks.Clickhouse

open Lib

/-! ### Parsing a template -/

inductive PlaceholderField
  | payload
  | id
  | timestamp
  | type
  | source
  | subject
  | predicate
  | specversion
deriving DecidableEq, Repr

def PlaceholderField.fromStr : String → Option PlaceholderField
  | "payload" => some .payload
  | "id" => some .id
  | "timestamp" => some .timestamp
  | "type" => some .type
  | "source" => some .source
  | "subject" => some .subject
  | "predicate" => some .predicate
  | "specversion" => some .specversion
  | _ => none

/-- A parsed query with the fields to bind. -/
structure QueryTemplate extends ParsedQuery where
  fields : List PlaceholderField
deriving DecidableEq

def unknownPlaceholder (placeholder : String) : String :=
  r"Unknown placeholder '{" ++ placeholder ++ r"}' in query template. Supported: " ++
    "{payload}, {id}, {timestamp}, {type}, {source}, " ++
    "{subject}, {predicate}, {specversion}"

def noPlaceholder : String :=
  "Query template must contain at least one placeholder (e.g., {id}, {payload})"

/-- The template with a question mark for each placeholder, and the fields of these. A
placeholder ends at the next brace, or with the template. -/
def substitute (template : List Char) : Except String (List Char × List PlaceholderField) :=
  match template with
  | [] => .ok ([], [])
  | c :: rest =>
      if c = '{' then
        let placeholder := String.ofList (rest.takeWhile (· ≠ '}'))
        match PlaceholderField.fromStr placeholder with
        | none => .error (unknownPlaceholder placeholder)
        | some field => do
            let (sql, fields) ← substitute ((rest.dropWhile (· ≠ '}')).drop 1)
            return ('?' :: sql, field :: fields)
      else do
        let (sql, fields) ← substitute rest
        return (c :: sql, fields)
termination_by template.length
decreasing_by
  · have hle := (List.dropWhile_suffix (l := rest) fun d => decide (d ≠ '}')).length_le
    rw [List.length_drop, List.length_cons]
    omega
  · simp

def isIdent (c : Option Char) : Bool := c.any fun c => c.isAlphanum || c = '_'

/-- `VALUES` is a word of its own there. -/
def isValuesAt (sql : List Char) (idx : ℕ) : Bool :=
  "VALUES".toList.isPrefixOf ((sql.drop idx).map Char.toUpper) &&
    !isIdent (sql.take idx).getLast? && !isIdent (sql.drop (idx + 6)).head?

def valuesIdx (sql : List Char) : Option ℕ :=
  ((List.range sql.length).filter (isValuesAt sql)).getLast?

/-- `str::trim_end`. -/
def trimEnd (chars : List Char) : List Char := (chars.reverse.dropWhile Text.isWhitespace).reverse

/-- What the tuple is cut out of. -/
def cutTuple (tail : List Char) : List Char :=
  trimEnd (Text.trimEndMatches ';' (Text.trimBy Text.isWhitespace tail))

def splitValues (sql : List Char) : Option (List Char × List Char) :=
  (valuesIdx sql).bind fun idx =>
    let tuple := cutTuple (sql.drop (idx + 6))
    if tuple.head? = some '(' ∧ tuple.getLast? = some ')' then some (sql.take (idx + 6), tuple)
    else none

/-- `ParsedQuery::parse`. -/
def QueryTemplate.parse (template : String) : Except String QueryTemplate := do
  let (sql, fields) ← substitute template.toList
  if fields = [] then throw noPlaceholder
  return {
    sql := String.ofList sql
    fields
    values := (splitValues sql).map fun (head, tuple) => (String.ofList head, String.ofList tuple) }

/-- A question mark for each field, where the template has none of its own. -/
theorem count_substitute {template sql : List Char} {fields : List PlaceholderField}
    (h : substitute template = .ok (sql, fields)) (hplain : '?' ∉ template) :
    sql.count '?' = fields.length := by
  induction template using substitute.induct generalizing sql fields with
  | case1 =>
      rw [substitute] at h
      cases h
      rfl
  | case2 rest placeholder =>
      rename_i hfield
      rw [substitute, if_pos rfl] at h
      dsimp only at h
      rw [hfield] at h
      cases h
  | case3 rest placeholder field hfield =>
      rename_i ih
      rw [substitute, if_pos rfl] at h
      dsimp only at h
      rw [hfield] at h
      obtain ⟨⟨sql', fields'⟩, hrest, hpair⟩ := bind_eq_ok_iff.mp h
      cases hpair
      rw [List.mem_cons, not_or] at hplain
      have hnot : '?' ∉ (rest.dropWhile (· ≠ '}')).drop 1 := fun hmem =>
        hplain.2 ((List.dropWhile_suffix _).subset ((List.drop_suffix 1 _).subset hmem))
      rw [List.count_cons_self, List.length_cons, ih hrest hnot]
  | case4 c rest hc ih =>
      rw [substitute, if_neg hc] at h
      obtain ⟨⟨sql', fields'⟩, hrest, hpair⟩ := bind_eq_ok_iff.mp h
      cases hpair
      rw [List.mem_cons, not_or] at hplain
      rw [List.count_cons_of_ne (Ne.symm hplain.1), ih hrest hplain.2]

def Blank (c : Char) : Prop := Text.isWhitespace c = true ∨ c = ';'

theorem exists_cutTuple (tail : List Char) :
    ∃ blanks back, (∀ c ∈ blanks, Blank c) ∧ (∀ c ∈ back, Blank c) ∧
      tail = blanks ++ (cutTuple tail ++ back) := by
  obtain ⟨blanks, back₁, hblanks, hback₁, htail⟩ := Text.exists_trimBy Text.isWhitespace tail
  obtain ⟨back₂, hback₂, hmiddle⟩ :=
    Text.exists_trimEndMatches ';' (Text.trimBy Text.isWhitespace tail)
  obtain ⟨back₃, hback₃, hinner⟩ := Text.exists_reverse_dropWhile Text.isWhitespace
    (Text.trimEndMatches ';' (Text.trimBy Text.isWhitespace tail))
  refine ⟨blanks, back₃ ++ (back₂ ++ back₁), fun c hc => .inl (hblanks c hc), ?_, ?_⟩
  · intro c hc
    rcases List.mem_append.mp hc with hc | hc
    · exact .inl (hback₃ c hc)
    · rcases List.mem_append.mp hc with hc | hc
      · exact .inr (hback₂ c hc)
      · exact .inl (hback₁ c hc)
  · calc tail = blanks ++ (Text.trimBy Text.isWhitespace tail ++ back₁) := htail
      _ = blanks ++ (cutTuple tail ++ back₃ ++ back₂ ++ back₁) := by
          rw [cutTuple, trimEnd, ← hinner, ← hmiddle]
      _ = blanks ++ (cutTuple tail ++ (back₃ ++ (back₂ ++ back₁))) := by
          simp only [List.append_assoc]

theorem exists_parentheses {tuple : List Char} (hfirst : tuple.head? = some '(')
    (hlast : tuple.getLast? = some ')') : ∃ inner, tuple = '(' :: (inner ++ [')']) := by
  obtain ⟨front, rfl⟩ := List.getLast?_eq_some_iff.mp hlast
  cases front with
  | nil => cases hfirst
  | cons c inner =>
      cases hfirst
      exact ⟨inner, rfl⟩

theorem exists_splitValues {sql head tuple : List Char}
    (h : splitValues sql = some (head, tuple)) :
    ∃ blanks inner back, (∀ c ∈ blanks, Blank c) ∧ (∀ c ∈ back, Blank c) ∧
      tuple = '(' :: (inner ++ [')']) ∧ sql = head ++ (blanks ++ (tuple ++ back)) := by
  obtain ⟨idx, -, hidx⟩ := Option.bind_eq_some_iff.mp h
  dsimp only at hidx
  split at hidx
  · rename_i hends
    cases hidx
    obtain ⟨inner, hinner⟩ := exists_parentheses hends.1 hends.2
    obtain ⟨blanks, back, hblanks, hback, htail⟩ := exists_cutTuple (sql.drop (idx + 6))
    refine ⟨blanks, inner, back, hblanks, hback, hinner, ?_⟩
    rw [← htail, List.take_append_drop]
  · cases hidx

/-! ### Where values are bound -/

/-- The offsets of the question marks, counted from `start`. -/
def holesFrom (start : ℕ) : List Char → List ℕ
  | [] => []
  | c :: rest => if c = '?' then start :: holesFrom (start + 1) rest else holesFrom (start + 1) rest

def holes (sql : List Char) : List ℕ := holesFrom 0 sql

theorem holesFrom_append (start : ℕ) (left right : List Char) :
    holesFrom start (left ++ right) =
      holesFrom start left ++ holesFrom (start + left.length) right := by
  induction left generalizing start with
  | nil => rfl
  | cons c left ih =>
      have hlength : start + 1 + left.length = start + (c :: left).length := by
        rw [List.length_cons]
        omega
      rw [List.cons_append, holesFrom, holesFrom, ih, hlength]
      split
      · rfl
      · rfl

theorem holesFrom_eq_map (start : ℕ) (sql : List Char) :
    holesFrom start sql = (holes sql).map (start + ·) := by
  have hgeneral : ∀ base, holesFrom (start + base) sql = (holesFrom base sql).map (start + ·) := by
    induction sql with
    | nil => exact fun _ => rfl
    | cons c sql ih =>
        intro base
        rw [holesFrom, holesFrom, Nat.add_assoc, ih]
        split
        · rfl
        · rfl
  exact hgeneral 0

theorem holesFrom_of_not_mem {start : ℕ} {sql : List Char} (h : '?' ∉ sql) :
    holesFrom start sql = [] := by
  induction sql generalizing start with
  | nil => rfl
  | cons c sql ih =>
      rw [List.mem_cons, not_or] at h
      rw [holesFrom, if_neg (Ne.symm h.1), ih h.2]

theorem length_holesFrom (start : ℕ) (sql : List Char) :
    (holesFrom start sql).length = sql.count '?' := by
  induction sql generalizing start with
  | nil => rfl
  | cons c sql ih =>
      rw [holesFrom]
      split
      · rename_i hc
        rw [List.length_cons, ih, hc, List.count_cons_self]
      · rename_i hc
        rw [ih, List.count_cons_of_ne hc]

/-- The values in their order, each for a question mark. -/
def bindings (sql : String) (values : List String) : List (ℕ × String) :=
  (holes sql.toList).zip values

/-! ### What the driver reads as other than a value -/

/-- For the driver `??` is a question mark of the text and `?fields` stands for column names. -/
def marks : List (List Char) := ["??".toList, "?fields".toList]

def Plain (sql : List Char) : Prop := ∀ mark ∈ marks, ¬mark <:+: sql

instance : DecidablePred Plain := fun sql =>
  inferInstanceAs (Decidable (∀ mark ∈ marks, ¬mark <:+: sql))

/-- What the store relies on. A statement is refused where the number of its question marks is
not that of the values, and where one of its question marks takes no value. -/
structure BindsInOrder (driver : String → List String → Option (List (ℕ × String))) : Prop where
  plain : ∀ sql values, Plain sql.toList →
    driver sql values =
      if sql.toList.count '?' = values.length then some (bindings sql values) else none
  marked : ∀ sql values, ¬Plain sql.toList → sql.toList.count '?' ≤ values.length →
    driver sql values = none

/-- The driver at statements where every question mark takes a value. -/
def plainDriver (sql : String) (values : List String) : Option (List (ℕ × String)) :=
  if Plain sql.toList ∧ sql.toList.count '?' = values.length then some (bindings sql values)
  else none

theorem plainDriver_binds : BindsInOrder plainDriver where
  plain sql values hsql := by
    simp only [plainDriver, hsql, true_and]
  marked sql values hsql _ := if_neg fun h => hsql h.1

theorem marks_apart : ∀ mark ∈ marks, '?' ∈ mark ∧
    ∀ c ∈ mark, c ≠ '(' ∧ c ≠ ')' ∧ c ≠ ',' ∧ ¬Blank c := by
  have hblank : ∀ c, Blank c ↔ (Text.isWhitespace c || c == ';') = true := by
    intro c
    rw [Bool.or_eq_true, beq_iff_eq]
    rfl
  simp only [hblank]
  intro mark hmark
  rcases List.mem_pair.mp hmark with rfl | rfl
  · exact ⟨by decide, Text.forall_mem_of_all (by decide)⟩
  · exact ⟨by decide, Text.forall_mem_of_all (by decide)⟩

theorem infix_append_cons {α : Type} {mark left right : List α} {c : α} (hc : c ∉ mark) :
    mark <:+: left ++ c :: right ↔ mark <:+: left ∨ mark <:+: right := by
  constructor
  · rintro ⟨front, back, h⟩
    rcases List.append_eq_append_iff.mp h with ⟨rest, hleft, -⟩ | ⟨rest, hfront, hrest⟩
    · exact .inl ⟨front, rest, hleft.symm⟩
    · cases rest with
      | nil =>
          rw [List.append_nil] at hfront
          exact .inl ⟨front, [], by rw [List.append_nil, hfront]⟩
      | cons d rest =>
          obtain ⟨rfl, hright⟩ := List.cons.inj hrest
          rcases List.append_eq_append_iff.mp hfront with ⟨middle, -, hmark⟩ | ⟨middle, -, hmark⟩
          · exact absurd (hmark ▸ List.mem_append_right _ (List.mem_cons_self ..)) hc
          · cases middle with
            | nil =>
                obtain rfl : c :: rest = mark := hmark
                exact absurd (List.mem_cons_self ..) hc
            | cons e more =>
                obtain ⟨-, hrest⟩ := List.cons.inj hmark
                refine .inr ⟨more, back, ?_⟩
                rw [hright, hrest]
                rfl
  · rintro (h | h)
    · exact h.trans (List.prefix_append left _).isInfix
    · exact h.trans ((List.suffix_cons c right).trans (List.suffix_append left _)).isInfix

section

variable {mark : List Char} (hmark : mark ∈ marks)

include hmark

theorem not_infix_blanks {blanks : List Char} (hblanks : ∀ c ∈ blanks, Blank c) :
    ¬mark <:+: blanks := by
  intro h
  obtain ⟨hmem, hapart⟩ := marks_apart mark hmark
  exact (hapart _ hmem).2.2.2 (hblanks _ (h.subset hmem))

theorem infix_append_blanks {left blanks : List Char} (hblanks : ∀ c ∈ blanks, Blank c) :
    mark <:+: left ++ blanks ↔ mark <:+: left := by
  cases blanks with
  | nil => rw [List.append_nil]
  | cons c blanks =>
      have hc : c ∉ mark := fun hmem =>
        ((marks_apart mark hmark).2 c hmem).2.2.2 (hblanks c (List.mem_cons_self ..))
      rw [infix_append_cons hc, or_iff_left]
      exact not_infix_blanks hmark fun c hc => hblanks c (List.mem_cons_of_mem _ hc)

theorem infix_cons {right : List Char} {c : Char} (hc : c ∉ mark) :
    mark <:+: c :: right ↔ mark <:+: right := by
  have hsplit : mark <:+: [] ++ c :: right ↔ mark <:+: [] ∨ mark <:+: right :=
    infix_append_cons hc
  have hnil : ¬mark <:+: [] := not_infix_blanks hmark (by rintro c ⟨⟩)
  rw [List.nil_append] at hsplit
  rw [hsplit, or_iff_right hnil]

theorem infix_append_parentheses {left inner right : List Char} :
    mark <:+: left ++ '(' :: (inner ++ ')' :: right) ↔
      mark <:+: left ∨ mark <:+: inner ∨ mark <:+: right := by
  have hapart := (marks_apart mark hmark).2
  rw [infix_append_cons fun h => (hapart _ h).1 rfl,
    infix_append_cons fun h => (hapart _ h).2.1 rfl]

theorem infix_copies {inner : List Char} (n : ℕ) :
    mark <:+: [',', ' '].intercalate (List.replicate (n + 1) ('(' :: (inner ++ [')']))) ↔
      mark <:+: inner := by
  have hapart := (marks_apart mark hmark).2
  have hopen : '(' ∉ mark := fun h => (hapart _ h).1 rfl
  have hclose : ')' ∉ mark := fun h => (hapart _ h).2.1 rfl
  have hcomma : ',' ∉ mark := fun h => (hapart _ h).2.2.1 rfl
  have hspace : ' ' ∉ mark := fun h => (hapart _ h).2.2.2 (.inl rfl)
  induction n with
  | zero =>
      rw [List.replicate_one, List.intercalate_singleton, infix_cons hmark hopen,
        infix_append_cons hclose, or_iff_left]
      exact not_infix_blanks hmark (by rintro c ⟨⟩)
  | succ n ih =>
      have hshape : [',', ' '].intercalate (List.replicate (n + 2) ('(' :: (inner ++ [')']))) =
          '(' :: (inner ++ ')' :: ',' :: ' ' ::
            [',', ' '].intercalate (List.replicate (n + 1) ('(' :: (inner ++ [')'])))) := by
        rw [List.replicate_succ, List.replicate_succ, List.intercalate_cons_cons,
          ← List.replicate_succ]
        simp only [List.cons_append, List.append_assoc, List.nil_append]
      rw [hshape, infix_cons hmark hopen, infix_append_cons hclose, infix_cons hmark hcomma,
        infix_cons hmark hspace]
      exact (or_congr_right ih).trans (or_self_iff ..)

end

/-! ### The statement for several rows -/

/-- Where the copy of the tuple for the row starts. -/
def copyAt (head tuple : List Char) (i : ℕ) : ℕ := head.length + 1 + i * (tuple.length + 2)

/-- A place in the head or in the tuple. -/
inductive Place
  | head (offset : ℕ)
  | tuple (offset : ℕ)

/-- The place in a statement where the tuple starts at `start`. -/
def Place.offset (start : ℕ) : Place → ℕ
  | .head offset => offset
  | .tuple offset => start + offset

/-- Where a statement for one row and one for `n` rows have the head and the tuple. -/
structure Repeats (single batch head tuple : List Char) (start n : ℕ) : Prop where
  head_single : head <+: single
  tuple_single : tuple <+: single.drop start
  head_batch : head <+: batch
  tuple_batch : ∀ i < n, tuple <+: batch.drop (copyAt head tuple i)

theorem copy_prefix {tuple : List Char} {n i : ℕ} (hi : i < n) :
    tuple <+: ([',', ' '].intercalate (List.replicate n tuple)).drop (i * (tuple.length + 2)) := by
  induction n generalizing i with
  | zero => cases hi
  | succ n ih =>
      cases n with
      | zero =>
          obtain rfl : i = 0 := Nat.lt_one_iff.mp hi
          rw [List.replicate_one, List.intercalate_singleton, Nat.zero_mul]
          exact List.prefix_refl tuple
      | succ n =>
          rw [List.replicate_succ, List.replicate_succ, List.intercalate_cons_cons,
            ← List.replicate_succ]
          cases i with
          | zero =>
              rw [Nat.zero_mul, List.append_assoc]
              exact List.prefix_append ..
          | succ i =>
              have hskip : (i + 1) * (tuple.length + 2) =
                  (tuple ++ [',', ' ']).length + i * (tuple.length + 2) := by
                rw [List.length_append, Nat.succ_mul, Nat.add_comm]
                rfl
              rw [hskip, List.drop_length_add_append]
              exact ih (Nat.lt_of_succ_lt_succ hi)

theorem repeats_of_split (head blanks tuple back : List Char) (n : ℕ) :
    Repeats (head ++ (blanks ++ (tuple ++ back)))
      (head ++ ' ' :: [',', ' '].intercalate (List.replicate n tuple)) head tuple
      (head.length + blanks.length) n where
  head_single := List.prefix_append ..
  tuple_single := by
    rw [← List.append_assoc, ← List.length_append, List.drop_left]
    exact List.prefix_append ..
  head_batch := List.prefix_append ..
  tuple_batch i hi := by
    have hskip : copyAt head tuple i = (head ++ [' ']).length + i * (tuple.length + 2) := by
      rw [List.length_append]
      rfl
    rw [hskip, List.append_cons head ' ' ([',', ' '].intercalate (List.replicate n tuple)),
      List.drop_length_add_append]
    exact copy_prefix hi

theorem holesFrom_copies (start : ℕ) (tuple : List Char) (n : ℕ) :
    holesFrom start ([',', ' '].intercalate (List.replicate n tuple)) =
      ((List.range n).map fun i =>
        (holes tuple).map (start + i * (tuple.length + 2) + ·)).flatten := by
  induction n generalizing start with
  | zero => rfl
  | succ n ih =>
      have hfirst : holesFrom start tuple =
          (holes tuple).map (start + 0 * (tuple.length + 2) + ·) := by
        rw [holesFrom_eq_map, Nat.zero_mul, Nat.add_zero]
      rw [List.range_succ_eq_map, List.map_cons, List.flatten_cons, List.map_map, ← hfirst]
      cases n with
      | zero =>
          rw [List.replicate_one, List.intercalate_singleton]
          exact (List.append_nil _).symm
      | succ n =>
          rw [List.replicate_succ, List.replicate_succ, List.intercalate_cons_cons,
            ← List.replicate_succ, holesFrom_append, holesFrom_append, ih]
          have hseparator : ∀ base, holesFrom base [',', ' '] = [] := fun _ => rfl
          rw [hseparator, List.append_nil]
          refine congrArg (fun rest => holesFrom start tuple ++ List.flatten rest)
            (List.map_congr_left fun i _ => List.map_congr_left fun o _ => ?_)
          rw [List.length_append, Nat.succ_mul]
          change start + (tuple.length + 2) + i * (tuple.length + 2) + o = _
          omega

theorem getElem?_flatten_of_length {α : Type} {m : ℕ} {lists : List (List α)}
    (hlength : ∀ list ∈ lists, list.length = m) (i : ℕ) {j : ℕ} (hj : j < m) :
    lists.flatten[i * m + j]? = lists[i]?.bind (·[j]?) := by
  induction lists generalizing i with
  | nil => rfl
  | cons list lists ih =>
      have hlist : list.length = m := hlength list (List.mem_cons_self ..)
      rw [List.flatten_cons]
      cases i with
      | zero =>
          rw [Nat.zero_mul, Nat.zero_add, List.getElem?_append_left (by omega)]
          rfl
      | succ i =>
          have hindex : (i + 1) * m + j = list.length + (i * m + j) := by
            rw [hlist, Nat.succ_mul]
            omega
          rw [hindex, List.getElem?_append_right (Nat.le_add_right ..), Nat.add_sub_cancel_left]
          exact ih (fun other hother => hlength other (List.mem_cons_of_mem _ hother)) i

theorem length_flatten_of_length {α : Type} {m : ℕ} {lists : List (List α)}
    (hlength : ∀ list ∈ lists, list.length = m) : lists.flatten.length = lists.length * m := by
  have hlengths : lists.map List.length = List.replicate lists.length m :=
    List.eq_replicate_iff.mpr ⟨List.length_map _, List.forall_mem_map.mpr hlength⟩
  rw [List.length_flatten, hlengths, List.sum_replicate_nat]

theorem toList_batchSql {q : ParsedQuery} {head tuple : String}
    (hvalues : q.values = some (head, tuple)) (n : ℕ) :
    ∃ sql, q.batchSql n = some sql ∧ sql.toList = head.toList ++ ' ' ::
      [',', ' '].intercalate (List.replicate n tuple.toList) := by
  refine ⟨head ++ " " ++ ", ".intercalate (List.replicate n tuple), ?_, ?_⟩
  · rw [ParsedQuery.batchSql, hvalues]
    rfl
  · rw [String.toList_append, String.toList_append, String.toList_intercalate,
      List.map_replicate, List.append_assoc]
    rfl

section

variable {head blanks tuple back : List Char}

theorem not_mem_of_blank {chars : List Char} (h : ∀ c ∈ chars, Blank c) : '?' ∉ chars := by
  intro hmem
  rcases h '?' hmem with h | h
  · cases h
  · cases h

theorem holes_single (hblanks : ∀ c ∈ blanks, Blank c) (hback : ∀ c ∈ back, Blank c) :
    holes (head ++ (blanks ++ (tuple ++ back))) =
      holes head ++ (holes tuple).map (head.length + blanks.length + ·) := by
  rw [holes, holesFrom_append, holesFrom_append, holesFrom_append,
    holesFrom_of_not_mem (not_mem_of_blank hblanks), holesFrom_of_not_mem (not_mem_of_blank hback),
    List.append_nil, List.nil_append, Nat.zero_add, ← holesFrom_eq_map]
  rfl

theorem holes_batch (n : ℕ) :
    holes (head ++ ' ' :: [',', ' '].intercalate (List.replicate n tuple)) =
      holes head ++ ((List.range n).map fun i =>
        (holes tuple).map (copyAt head tuple i + ·)).flatten := by
  rw [holes, holesFrom_append, holesFrom, if_neg (by decide), holesFrom_copies, Nat.zero_add]
  rfl

theorem count_single (hblanks : ∀ c ∈ blanks, Blank c) (hback : ∀ c ∈ back, Blank c) :
    (head ++ (blanks ++ (tuple ++ back))).count '?' = head.count '?' + tuple.count '?' := by
  rw [List.count_append, List.count_append, List.count_append,
    List.count_eq_zero_of_not_mem (not_mem_of_blank hblanks),
    List.count_eq_zero_of_not_mem (not_mem_of_blank hback), Nat.zero_add, Nat.add_zero]

theorem forall_length_copies (head tuple : List Char) (n : ℕ) :
    ∀ list ∈ (List.range n).map fun i => (holes tuple).map (copyAt head tuple i + ·),
      list.length = tuple.count '?' := by
  refine List.forall_mem_map.mpr fun i _ => ?_
  rw [List.length_map, holes, length_holesFrom]

theorem count_batch (n : ℕ) :
    (head ++ ' ' :: [',', ' '].intercalate (List.replicate n tuple)).count '?' =
      head.count '?' + n * tuple.count '?' := by
  have hlength := length_flatten_of_length (forall_length_copies head tuple n)
  rw [← length_holesFrom 0, ← holes, holes_batch, List.length_append, hlength, List.length_map,
    List.length_range, holes, length_holesFrom]

/-- With one row, or with a head that has no placeholder, the question marks of the row's own
statement are those of its copy. -/
theorem exists_place (hblanks : ∀ c ∈ blanks, Blank c) (hback : ∀ c ∈ back, Blank c)
    {n i j : ℕ} (hi : i < n) (hj : j < head.count '?' + tuple.count '?')
    (hone : head.count '?' = 0 ∨ n = 1) :
    ∃ place : Place, (n = 1 ∨ ∃ o, place = .tuple o) ∧
      (holes (head ++ (blanks ++ (tuple ++ back))))[j]? =
        some (place.offset (head.length + blanks.length)) ∧
      (holes (head ++ ' ' :: [',', ' '].intercalate (List.replicate n tuple)))[
          i * (head.count '?' + tuple.count '?') + j]? =
        some (place.offset (copyAt head tuple i)) := by
  have hhead : (holes head).length = head.count '?' := length_holesFrom 0 head
  have htuple : (holes tuple).length = tuple.count '?' := length_holesFrom 0 tuple
  rw [holes_single hblanks hback, holes_batch]
  rcases Nat.lt_or_ge j (head.count '?') with hlt | hge
  · obtain rfl : n = 1 := hone.resolve_left (by omega)
    obtain rfl : i = 0 := by omega
    rw [Nat.zero_mul, Nat.zero_add, List.getElem?_append_left (by omega),
      List.getElem?_append_left (by omega), List.getElem?_eq_getElem (by omega)]
    exact ⟨.head _, .inl rfl, rfl, rfl⟩
  · obtain ⟨k, rfl⟩ := Nat.exists_eq_add_of_le hge
    have hk : k < tuple.count '?' := by omega
    obtain ⟨o, ho⟩ : ∃ o, (holes tuple)[k]? = some o :=
      ⟨_, List.getElem?_eq_getElem (by omega)⟩
    have hindex : i * (head.count '?' + tuple.count '?') + (head.count '?' + k) =
        (holes head).length + (i * tuple.count '?' + k) := by
      rcases hone with hzero | rfl
      · rw [hhead, hzero, Nat.zero_add, Nat.zero_add, Nat.zero_add]
      · obtain rfl : i = 0 := by omega
        omega
    rw [hindex, List.getElem?_append_right (by omega), List.getElem?_append_right (by omega),
      Nat.add_sub_cancel_left, getElem?_flatten_of_length (forall_length_copies _ _ n) i hk, hhead,
      Nat.add_sub_cancel_left, List.getElem?_map, List.getElem?_map, List.getElem?_range hi, ho]
    refine ⟨.tuple o, .inr ⟨o, rfl⟩, rfl, ?_⟩
    change ((holes tuple).map (copyAt head tuple i + ·))[k]? = _
    rw [List.getElem?_map, ho]
    rfl

theorem plain_iff {sql left right : List Char}
    (h : ∀ mark ∈ marks, mark <:+: sql ↔ mark <:+: left ∨ mark <:+: right) :
    Plain sql ↔ Plain left ∧ Plain right := by
  constructor
  · intro hsql
    exact ⟨fun mark hmark hleft => hsql mark hmark ((h mark hmark).mpr (.inl hleft)),
      fun mark hmark hright => hsql mark hmark ((h mark hmark).mpr (.inr hright))⟩
  · rintro ⟨hleft, hright⟩ mark hmark hsql
    exact ((h mark hmark).mp hsql).elim (hleft mark hmark) (hright mark hmark)

theorem plain_single {inner : List Char} (hblanks : ∀ c ∈ blanks, Blank c)
    (hback : ∀ c ∈ back, Blank c) (htuple : tuple = '(' :: (inner ++ [')'])) :
    Plain (head ++ (blanks ++ (tuple ++ back))) ↔ Plain head ∧ Plain inner := by
  have hshape : head ++ (blanks ++ (tuple ++ back)) =
      head ++ blanks ++ '(' :: (inner ++ ')' :: back) := by
    rw [htuple]
    simp only [List.append_assoc, List.cons_append, List.nil_append]
  refine plain_iff fun mark hmark => ?_
  rw [hshape, infix_append_parentheses hmark, infix_append_blanks hmark hblanks,
    or_iff_left (not_infix_blanks hmark hback)]

theorem plain_batch {inner : List Char} (htuple : tuple = '(' :: (inner ++ [')'])) {n : ℕ}
    (hn : n ≠ 0) : Plain (head ++ ' ' :: [',', ' '].intercalate (List.replicate n tuple)) ↔
      Plain head ∧ Plain inner := by
  obtain ⟨n, rfl⟩ := Nat.exists_eq_succ_of_ne_zero hn
  refine plain_iff fun mark hmark => ?_
  have hspace : ' ' ∉ mark := fun h => ((marks_apart mark hmark).2 _ h).2.2.2 (.inl rfl)
  rw [infix_append_cons hspace, htuple, infix_copies hmark]

end

/-- `a + n * b` values where `n * (a + b)` are needed. -/
theorem count_eq_iff {a b n : ℕ} (hn : n ≠ 0) :
    a + n * b = n * (a + b) ↔ a = 0 ∨ n = 1 := by
  have hle : a ≤ n * a := Nat.le_mul_of_pos_left a (Nat.pos_of_ne_zero hn)
  rw [Nat.mul_add]
  constructor
  · intro h
    have hmul : n * a = 1 * a := by omega
    rcases Nat.eq_zero_or_pos a with ha | ha
    · exact .inl ha
    · exact .inr (Nat.eq_of_mul_eq_mul_right ha hmul)
  · rintro (rfl | rfl)
    · omega
    · omega

/-- A statement that is refused is followed by those of the rows. -/
theorem store_refused (db : ChStore) {rows : List Row} {sql : String}
    (hsql : db.parsedQuery.batchSql rows.length = some sql) (hlength : rows.length ≠ 1)
    (hrefused : db.server.answer 0 = .error .other) :
    db.store rows [] =
      storeRows db rows [{ chain := 0, call := { sql, rows }, answer := .error .other }] := by
  have hcall : executeQuery db 0 { sql, rows } [] =
      (.error .other, [{ chain := 0, call := { sql, rows }, answer := .error .other }]) := by
    rw [executeQuery, List.length_nil, hrefused]
    rfl
  have hfinal : Retry.transient isTransientClickhouseError
      (executeQuery db 0 { sql, rows } []).1 = false := by
    rw [hcall]
    rfl
  have hretry := Retry.retryOnTransient_of_not_transient hfinal (db.server.retries 0)
  rw [ChStore.store, hsql]
  dsimp only
  rw [hretry, hcall]
  dsimp only
  rw [if_neg (by decide), if_neg (by rwa [beq_iff_eq])]

/-- The driver refuses the row's own statement and that for all rows, or each value of the row
`i` is bound in the copy `i` of the tuple, or in the head where there is no other row, and at
the place it has in the row's own statement. -/
def Aligned (driver : String → List String → Option (List (ℕ × String))) (q : QueryTemplate)
    (sql : String) (head tuple : List Char) (start : ℕ) (rows : List Row) : Prop :=
  ∀ i row, rows[i]? = some row →
    driver q.sql row = none ∧ driver sql rows.flatten = none ∨
    ∃ single all, driver q.sql row = some single ∧ driver sql rows.flatten = some all ∧
      ∀ j value, row[j]? = some value → ∃ place : Place,
        (rows.length = 1 ∨ ∃ o, place = .tuple o) ∧
          single[j]? = some (place.offset start, value) ∧
          all[i * q.fields.length + j]? = some (place.offset (copyAt head tuple i), value)

section

variable {driver : String → List String → Option (List (ℕ × String))}
  (hdriver : BindsInOrder driver)

include hdriver

theorem refused_of_count_lt {sql : String} {values : List String}
    (hlt : sql.toList.count '?' < values.length) : driver sql values = none := by
  by_cases hsql : Plain sql.toList
  · rw [hdriver.plain sql values hsql, if_neg (Nat.ne_of_lt hlt)]
  · exact hdriver.marked sql values hsql (Nat.le_of_lt hlt)

theorem aligned_of_count {q : QueryTemplate} {sql : String}
    {head blanks inner tuple back : List Char}
    (hsingle : q.sql.toList = head ++ (blanks ++ (tuple ++ back)))
    (hblanks : ∀ c ∈ blanks, Blank c) (hback : ∀ c ∈ back, Blank c)
    (htuple : tuple = '(' :: (inner ++ [')'])) {rows : List Row}
    (hbatch : sql.toList =
      head ++ ' ' :: [',', ' '].intercalate (List.replicate rows.length tuple))
    (hfields : head.count '?' + tuple.count '?' = q.fields.length)
    (hlength : ∀ row ∈ rows, row.length = q.fields.length)
    (hcount : sql.toList.count '?' = rows.flatten.length)
    (hone : head.count '?' = 0 ∨ rows.length = 1) :
    Aligned driver q sql head tuple (head.length + blanks.length) rows := by
  intro i row hrow
  have hi : i < rows.length := (List.getElem?_eq_some_iff.mp hrow).1
  have hrowLength := hlength row (List.mem_of_getElem? hrow)
  have hsingleCount : q.sql.toList.count '?' = row.length := by
    rw [hsingle, count_single hblanks hback, hfields, hrowLength]
  have hplain : Plain q.sql.toList ↔ Plain sql.toList := by
    rw [hsingle, hbatch, plain_single hblanks hback htuple, plain_batch htuple (by omega)]
  by_cases hq : Plain q.sql.toList
  · refine .inr ⟨bindings q.sql row, bindings sql rows.flatten, ?_, ?_, ?_⟩
    · rw [hdriver.plain _ _ hq, if_pos hsingleCount]
    · rw [hdriver.plain _ _ (hplain.mp hq), if_pos hcount]
    · intro j value hvalue
      have hj : j < q.fields.length := hrowLength ▸ (List.getElem?_eq_some_iff.mp hvalue).1
      obtain ⟨place, hplace, hone, hall⟩ := exists_place hblanks hback hi (hfields ▸ hj) hone
      rw [← hsingle] at hone
      rw [← hbatch, hfields] at hall
      refine ⟨place, hplace, ?_, ?_⟩
      · exact List.getElem?_zip_eq_some.mpr ⟨hone, hvalue⟩
      · refine List.getElem?_zip_eq_some.mpr ⟨hall, ?_⟩
        rw [getElem?_flatten_of_length hlength i hj, hrow]
        exact hvalue
  · refine .inl ⟨hdriver.marked _ _ hq (Nat.le_of_eq hsingleCount), ?_⟩
    exact hdriver.marked _ _ (fun hsql => hq (hplain.mpr hsql)) (Nat.le_of_eq hcount)

end

/-- What `parse` has made of a template. -/
theorem parse_eq_ok {template : String} {q : QueryTemplate}
    (h : QueryTemplate.parse template = .ok q) :
    ∃ sql, substitute template.toList = .ok (sql, q.fields) ∧ q.sql = String.ofList sql ∧
      q.values = (splitValues sql).map fun (head, tuple) =>
        (String.ofList head, String.ofList tuple) := by
  obtain ⟨⟨sql, fields⟩, hsubstitute, h⟩ := bind_eq_ok_iff.mp h
  dsimp only at h
  split at h
  · cases h
  · cases h
    exact ⟨sql, hsubstitute, rfl, rfl⟩

/-- A statement for several rows has the values of each row where that row's own statement has
them, or the driver refuses it and the rows are inserted one by one. -/
theorem batch_refines_single {driver : String → List String → Option (List (ℕ × String))}
    (hdriver : BindsInOrder driver) {template : String} {q : QueryTemplate}
    (hparse : QueryTemplate.parse template = .ok q) (hplain : '?' ∉ template.toList)
    {head tuple : String} (hvalues : q.values = some (head, tuple)) {rows : List Row}
    (hrows : rows ≠ []) (hlength : ∀ row ∈ rows, row.length = q.fields.length) :
    ∃ sql start, q.batchSql rows.length = some sql ∧
      Repeats q.sql.toList sql.toList head.toList tuple.toList start rows.length ∧
      (sql.toList.count '?' = rows.flatten.length ∧
          Aligned driver q sql head.toList tuple.toList start rows ∨
        sql.toList.count '?' ≠ rows.flatten.length ∧ driver sql rows.flatten = none ∧
          ∀ db : ChStore, db.parsedQuery = q.toParsedQuery →
            db.server.answer 0 = .error .other →
            db.store rows [] =
              storeRows db rows [{ chain := 0, call := { sql, rows }, answer := .error .other }]) :=
  by
  obtain ⟨chars, hsubstitute, hq, hsplit⟩ := parse_eq_ok hparse
  obtain ⟨⟨head', tuple'⟩, hchars, hpair⟩ := Option.map_eq_some_iff.mp (hsplit.symm.trans hvalues)
  cases hpair
  obtain ⟨blanks, inner, back, hblanks, hback, htuple, rfl⟩ := exists_splitValues hchars
  obtain ⟨sql, hsql, hbatch⟩ := toList_batchSql hvalues rows.length
  rw [String.toList_ofList, String.toList_ofList] at hbatch ⊢
  have hsingle : q.sql.toList = head' ++ (blanks ++ (tuple' ++ back)) := by
    rw [hq, String.toList_ofList]
  have hfields : head'.count '?' + tuple'.count '?' = q.fields.length := by
    rw [← count_single hblanks hback, count_substitute hsubstitute hplain]
  have hn : rows.length ≠ 0 := fun h => hrows (List.eq_nil_of_length_eq_zero h)
  have hcount : sql.toList.count '?' = head'.count '?' + rows.length * tuple'.count '?' := by
    rw [hbatch, count_batch]
  have hvaluesCount : rows.flatten.length =
      rows.length * (head'.count '?' + tuple'.count '?') := by
    rw [length_flatten_of_length hlength, hfields]
  have hiff : sql.toList.count '?' = rows.flatten.length ↔
      head'.count '?' = 0 ∨ rows.length = 1 := by
    rw [hcount, hvaluesCount, count_eq_iff hn]
  refine ⟨sql, head'.length + blanks.length, hsql, ?_, ?_⟩
  · rw [hsingle, hbatch]
    exact repeats_of_split head' blanks tuple' back rows.length
  by_cases hone : head'.count '?' = 0 ∨ rows.length = 1
  · exact .inl ⟨hiff.mpr hone, aligned_of_count hdriver hsingle hblanks hback htuple hbatch hfields
      hlength (hiff.mpr hone) hone⟩
  · have hne : sql.toList.count '?' ≠ rows.flatten.length := fun h => hone (hiff.mp h)
    have hle : head'.count '?' ≤ rows.length * head'.count '?' :=
      Nat.le_mul_of_pos_left _ (Nat.pos_of_ne_zero hn)
    have hlt : sql.toList.count '?' < rows.flatten.length := by
      refine Nat.lt_of_le_of_ne ?_ hne
      rw [hcount, hvaluesCount, Nat.mul_add]
      omega
    refine .inr ⟨hne, refused_of_count_lt hdriver hlt, fun db hdb hrefused => ?_⟩
    exact store_refused db (hdb ▸ hsql) (fun h => hone (.inr h)) hrefused

def twoPlaceholders : QueryTemplate where
  sql := "INSERT INTO t VALUES (?, ?)"
  values := some ("INSERT INTO t VALUES", "(?, ?)")
  fields := [.id, .type]

/-- Two rows of two values. -/
theorem batch_refines_single_sample :
    ∃ sql start, twoPlaceholders.batchSql 2 = some sql ∧
      Repeats twoPlaceholders.sql.toList sql.toList "INSERT INTO t VALUES".toList
        "(?, ?)".toList start 2 := by
  obtain ⟨sql, start, hsql, hrepeats, -⟩ := batch_refines_single plainDriver_binds
    (show QueryTemplate.parse "INSERT INTO t VALUES ({id}, {type})" =
      .ok twoPlaceholders by decide +kernel)
    (by decide) rfl (show [["1", "created"], ["2", "deleted"]] ≠ [] by decide) (by decide)
  exact ⟨sql, start, hsql, hrepeats⟩

end CdvizCollector.Sinks.Clickhouse
