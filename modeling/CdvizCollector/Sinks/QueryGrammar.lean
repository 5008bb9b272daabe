import CdvizCollector.Sinks.ClickhouseQuery

/-!
The grammar of query templates, and what `ParsedQuery::parse` accepts of it.

A placeholder is a supported name in braces. The scanner takes the end of the
template for a closing brace, so one placeholder may stay open there. The question
marks of the parsed query are those it puts for placeholders as long as the template
has none of its own.
-/

namespace CdvizCollector.Sinks.Clickhouse

open Lib

/-! ### Names -/

/-- The name a field is written with. -/
def PlaceholderField.name : PlaceholderField → String
  | .payload => "payload"
  | .id => "id"
  | .timestamp => "timestamp"
  | .type => "type"
  | .source => "source"
  | .subject => "subject"
  | .predicate => "predicate"
  | .specversion => "specversion"

theorem fromStr_eq_some_iff {s : String} {field : PlaceholderField} :
    PlaceholderField.fromStr s = some field ↔ s = field.name := by
  constructor
  · intro h
    unfold PlaceholderField.fromStr at h
    split at h <;> cases h <;> rfl
  · rintro rfl
    cases field <;> rfl

/-- A name has letters only. -/
theorem name_isAlpha (field : PlaceholderField) : ∀ c ∈ field.name.toList, c.isAlpha = true := by
  apply Text.forall_mem_of_all
  cases field <;> decide

theorem not_mem_name {c : Char} (h : c.isAlpha = false) (field : PlaceholderField) :
    c ∉ field.name.toList := by
  intro hc
  rw [name_isAlpha field c hc] at h
  contradiction

theorem takeWhile_name (field : PlaceholderField) (rest : List Char) :
    (field.name.toList ++ '}' :: rest).takeWhile (· ≠ '}') = field.name.toList ∧
      ((field.name.toList ++ '}' :: rest).dropWhile (· ≠ '}')).drop 1 = rest := by
  have hname : ∀ c ∈ field.name.toList, decide (c ≠ '}') = true := fun c hc =>
    decide_eq_true fun heq => not_mem_name (c := '}') (by decide) field (heq ▸ hc)
  constructor
  · rw [List.takeWhile_append_of_pos hname, List.takeWhile_cons_of_neg (by decide),
      List.append_nil]
  · rw [List.dropWhile_append_of_pos hname, List.dropWhile_cons_of_neg (by decide)]
    rfl

theorem name_append_inj {field field' : PlaceholderField} {rest rest' : List Char}
    (h : field.name.toList ++ '}' :: rest = field'.name.toList ++ '}' :: rest') :
    field = field' ∧ rest = rest' := by
  obtain ⟨htake, hdrop⟩ := takeWhile_name field rest
  obtain ⟨htake', hdrop'⟩ := takeWhile_name field' rest'
  rw [h] at htake hdrop
  have hname : field.name = field'.name := String.toList_inj.mp (htake.symm.trans htake')
  have hfield : some field = some field' := by
    rw [← fromStr_eq_some_iff.mpr hname, fromStr_eq_some_iff.mpr rfl]
  exact ⟨Option.some.inj hfield, hdrop.symm.trans hdrop'⟩

/-! ### What the scanner accepts -/

/-- The templates the scanner accepts, with the fields it reads; `left` tells whether
the last placeholder is left open. -/
inductive Reads : Bool → List Char → List PlaceholderField → Prop
  | nil : Reads false [] []
  | left (field : PlaceholderField) : Reads true ('{' :: field.name.toList) [field]
  | text {left : Bool} {c : Char} {rest : List Char} {fields : List PlaceholderField}
      (hc : c ≠ '{') (h : Reads left rest fields) : Reads left (c :: rest) fields
  | placeholder {left : Bool} (field : PlaceholderField) {rest : List Char}
      {fields : List PlaceholderField} (h : Reads left rest fields) :
      Reads left ('{' :: (field.name.toList ++ '}' :: rest)) (field :: fields)

theorem substitute_text {c : Char} (hc : c ≠ '{') (rest : List Char) :
    substitute (c :: rest) = (do
      let (sql, fields) ← substitute rest
      return (c :: sql, fields)) := by
  rw [substitute, if_neg hc]

theorem substitute_placeholder {rest : List Char} {field : PlaceholderField}
    (h : PlaceholderField.fromStr (String.ofList (rest.takeWhile (· ≠ '}'))) = some field) :
    substitute ('{' :: rest) = (do
      let (sql, fields) ← substitute ((rest.dropWhile (· ≠ '}')).drop 1)
      return ('?' :: sql, field :: fields)) := by
  rw [substitute, if_pos rfl]
  dsimp only
  rw [h]

theorem substitute_name (field : PlaceholderField) (rest : List Char) :
    substitute ('{' :: (field.name.toList ++ '}' :: rest)) = (do
      let (sql, fields) ← substitute rest
      return ('?' :: sql, field :: fields)) := by
  obtain ⟨htake, hdrop⟩ := takeWhile_name field rest
  rw [@substitute_placeholder _ field, hdrop]
  rw [htake, String.ofList_toList, fromStr_eq_some_iff]

/-- The brace of a placeholder is followed by a name, and then closed or the end. -/
theorem name_of_fromStr {rest : List Char} {field : PlaceholderField}
    (h : PlaceholderField.fromStr (String.ofList (rest.takeWhile (· ≠ '}'))) = some field) :
    (rest = field.name.toList ∧ (rest.dropWhile (· ≠ '}')).drop 1 = []) ∨
      rest = field.name.toList ++ '}' :: (rest.dropWhile (· ≠ '}')).drop 1 := by
  have hname : rest.takeWhile (· ≠ '}') = field.name.toList := by
    rw [← fromStr_eq_some_iff.mp h, String.toList_ofList]
  have hsplit := List.takeWhile_append_dropWhile (p := (· ≠ '}')) (l := rest)
  rw [hname] at hsplit
  cases hdrop : rest.dropWhile (· ≠ '}') with
  | nil =>
      rw [hdrop, List.append_nil] at hsplit
      exact .inl ⟨hsplit.symm, rfl⟩
  | cons c back =>
      have hc : c = '}' := by
        have hstop := List.head?_dropWhile_not (fun c => decide (c ≠ '}')) rest
        rw [hdrop] at hstop
        simpa using hstop
      rw [hdrop, hc] at hsplit
      exact .inr hsplit.symm

theorem reads_of_substitute {template sql : List Char} {fields : List PlaceholderField}
    (h : substitute template = .ok (sql, fields)) : ∃ left, Reads left template fields := by
  induction template using substitute.induct generalizing sql fields with
  | case1 =>
      rw [substitute] at h
      cases h
      exact ⟨false, .nil⟩
  | case2 rest placeholder =>
      rename_i hfield
      rw [substitute, if_pos rfl] at h
      dsimp only at h
      rw [hfield] at h
      cases h
  | case3 rest placeholder field hfield =>
      rename_i ih
      rw [substitute_placeholder hfield] at h
      obtain ⟨⟨sql', fields'⟩, hrest, hpair⟩ := bind_eq_ok_iff.mp h
      cases hpair
      rcases name_of_fromStr hfield with ⟨hopen, hnil⟩ | hclosed
      · -- the name goes up to the end, where nothing is left to scan
        rw [hnil, substitute] at hrest
        cases hrest
        rw [hopen]
        exact ⟨true, .left field⟩
      · obtain ⟨left, hreads⟩ := ih hrest
        rw [hclosed]
        exact ⟨left, .placeholder field hreads⟩
  | case4 c rest hc ih =>
      rw [substitute_text hc] at h
      obtain ⟨⟨sql', fields'⟩, hrest, hpair⟩ := bind_eq_ok_iff.mp h
      cases hpair
      obtain ⟨left, hreads⟩ := ih hrest
      exact ⟨left, .text hc hreads⟩

theorem substitute_left (field : PlaceholderField) :
    substitute ('{' :: field.name.toList) = .ok (['?'], [field]) := by
  have hname : field.name.toList.takeWhile (· ≠ '}') = field.name.toList ∧
      (field.name.toList.dropWhile (· ≠ '}')).drop 1 = [] := by
    cases field <;> decide
  rw [@substitute_placeholder _ field, hname.2, substitute]
  · rfl
  · rw [hname.1, String.ofList_toList, fromStr_eq_some_iff]

theorem substitute_of_reads {left : Bool} {template : List Char}
    {fields : List PlaceholderField} (h : Reads left template fields) :
    ∃ sql, substitute template = .ok (sql, fields) := by
  induction h with
  | nil => exact ⟨[], by rw [substitute]⟩
  | left field => exact ⟨['?'], substitute_left field⟩
  | text hc _ ih =>
      obtain ⟨sql, hsql⟩ := ih
      exact ⟨_, by rw [substitute_text hc, hsql]; rfl⟩
  | placeholder field _ ih =>
      obtain ⟨sql, hsql⟩ := ih
      exact ⟨_, by rw [substitute_name, hsql]; rfl⟩

/-- A closed part of a template is scanned for itself. -/
theorem substitute_append {front sql : List Char} {fields : List PlaceholderField}
    (hfront : Reads false front fields) (hsql : substitute front = .ok (sql, fields))
    {back sql' : List Char} {fields' : List PlaceholderField}
    (hback : substitute back = .ok (sql', fields')) :
    substitute (front ++ back) = .ok (sql ++ sql', fields ++ fields') := by
  generalize hleft : false = left at hfront
  induction hfront generalizing sql with
  | nil =>
      rw [substitute] at hsql
      cases hsql
      exact hback
  | left field => cases hleft
  | text hc _ ih =>
      rw [substitute_text hc] at hsql
      obtain ⟨⟨sql', fields'⟩, hrest, hpair⟩ := bind_eq_ok_iff.mp hsql
      cases hpair
      rw [List.cons_append, substitute_text hc, ih hrest hleft]
      rfl
  | placeholder field _ ih =>
      rw [substitute_name] at hsql
      obtain ⟨⟨sql', fields'⟩, hrest, hpair⟩ := bind_eq_ok_iff.mp hsql
      cases hpair
      rw [List.cons_append, List.append_assoc, List.cons_append, substitute_name, ih hrest hleft]
      rfl

/-- The question marks of a parsed query: one for each field, and those of the template. -/
theorem count_sql {left : Bool} {template sql : List Char} {fields : List PlaceholderField}
    (h : Reads left template fields) (hsql : substitute template = .ok (sql, fields)) :
    sql.count '?' = fields.length + template.count '?' := by
  have hname : ∀ field : PlaceholderField, field.name.toList.count '?' = 0 := fun field =>
    List.count_eq_zero.mpr (not_mem_name (by decide) field)
  induction h generalizing sql with
  | nil =>
      rw [substitute] at hsql
      cases hsql
      rfl
  | left field =>
      rw [substitute_left] at hsql
      cases hsql
      have hcount : ('{' :: field.name.toList).count '?' = 0 := by
        rw [List.count_cons_of_ne (by decide), hname]
      rw [hcount]
      rfl
  | @text left c rest fields hc _ ih =>
      rw [substitute_text hc] at hsql
      obtain ⟨⟨sql', fields'⟩, hrest, hpair⟩ := bind_eq_ok_iff.mp hsql
      cases hpair
      rw [List.count_cons, List.count_cons, ih hrest]
      omega
  | @placeholder left field rest fields _ ih =>
      rw [substitute_name] at hsql
      obtain ⟨⟨sql', fields'⟩, hrest, hpair⟩ := bind_eq_ok_iff.mp hsql
      cases hpair
      rw [List.count_cons_self, ih hrest, List.count_cons_of_ne (by decide), List.count_append,
        hname, List.count_cons_of_ne (by decide), List.length_cons]
      omega

/-! ### The grammar -/

/-- Every opening brace starts a placeholder with a supported name that is closed. -/
def Closed (template : List Char) : Prop :=
  ∀ before after, template = before ++ '{' :: after →
    ∃ name field rest, PlaceholderField.fromStr name = some field ∧
      after = name.toList ++ '}' :: rest

/-- A placeholder with a supported name is left open at the end, behind closed ones. -/
def OpenEnd (template : List Char) : Prop :=
  ∃ front name field, Closed front ∧ PlaceholderField.fromStr name = some field ∧
    template = front ++ '{' :: name.toList

/-- A brace is not in a placeholder but in front of it or behind. -/
theorem brace_behind_placeholder {field : PlaceholderField} {before after rest : List Char}
    (h : before ++ '{' :: after = '{' :: (field.name.toList ++ '}' :: rest)) :
    (before = [] ∧ after = field.name.toList ++ '}' :: rest) ∨
      ∃ before', before = '{' :: (field.name.toList ++ '}' :: before') ∧
        rest = before' ++ '{' :: after := by
  cases before with
  | nil => exact .inl ⟨rfl, List.tail_eq_of_cons_eq h⟩
  | cons c before =>
      rw [List.cons_append, List.cons.injEq] at h
      obtain ⟨rfl, h⟩ := h
      have hnot : '{' ∉ field.name.toList := not_mem_name (by decide) field
      rcases List.append_eq_append_iff.mp h with ⟨middle, hname, htail⟩ | ⟨middle, rfl, hrest⟩
      · cases middle with
        | nil => cases htail
        | cons d middle =>
            rw [List.cons_append, List.cons.injEq] at htail
            rw [hname, ← htail.1] at hnot
            exact absurd (List.mem_append_right _ List.mem_cons_self) hnot
      · cases middle with
        | nil => cases hrest
        | cons d middle =>
            rw [List.cons_append, List.cons.injEq] at hrest
            refine .inr ⟨middle, ?_, hrest.2⟩
            rw [← hrest.1]

/-- At an opening brace a closed template comes apart. -/
theorem Reads.split {before after : List Char} {fields : List PlaceholderField}
    (h : Reads false (before ++ '{' :: after) fields) :
    ∃ front field back rest, Reads false before front ∧
      after = field.name.toList ++ '}' :: rest ∧ Reads false rest back ∧
      fields = front ++ field :: back := by
  generalize htemplate : before ++ '{' :: after = template at h
  generalize hleft : false = left at h
  induction h generalizing before with
  | nil => cases before <;> cases htemplate
  | left field => cases hleft
  | text hc _ ih =>
      cases before with
      | nil => exact absurd (List.head_eq_of_cons_eq htemplate).symm hc
      | cons d before =>
          rw [List.cons_append, List.cons.injEq] at htemplate
          obtain ⟨front, field, back, rest, hfront, hafter, hback, hfields⟩ :=
            ih htemplate.2 hleft
          rw [htemplate.1]
          exact ⟨front, field, back, rest, .text hc hfront, hafter, hback, hfields⟩
  | @placeholder left field rest fields hrest ih =>
      rcases brace_behind_placeholder htemplate with ⟨rfl, hafter⟩ | ⟨before', rfl, htail⟩
      · subst hleft
        exact ⟨[], field, fields, rest, .nil, hafter, hrest, rfl⟩
      · obtain ⟨front, field', back, rest', hfront, hafter, hback, rfl⟩ := ih htail.symm hleft
        exact ⟨field :: front, field', back, rest', .placeholder field hfront, hafter, hback, rfl⟩

theorem closed_of_reads {template : List Char} {fields : List PlaceholderField}
    (h : Reads false template fields) : Closed template := by
  rintro before after rfl
  obtain ⟨front, field, back, rest, -, hafter, -, -⟩ := h.split
  exact ⟨field.name, field, rest, fromStr_eq_some_iff.mpr rfl, hafter⟩

theorem Closed.of_append (front : List Char) {back : List Char} (h : Closed (front ++ back)) :
    Closed back := by
  rintro before after rfl
  exact h (front ++ before) after (List.append_assoc _ _ _).symm

theorem exists_reads_of_closed {template : List Char} (h : Closed template) :
    ∃ fields, Reads false template fields := by
  generalize hlength : template.length = n
  induction n using Nat.strongRecOn generalizing template with
  | ind n ih =>
      cases template with
      | nil => exact ⟨[], .nil⟩
      | cons c rest =>
          rw [List.length_cons] at hlength
          by_cases hc : c = '{'
          · subst hc
            obtain ⟨name, field, back, hfield, rfl⟩ := h [] rest rfl
            obtain rfl := fromStr_eq_some_iff.mp hfield
            have hback : Closed back :=
              Closed.of_append ('{' :: (field.name.toList ++ ['}'])) (by simpa using h)
            rw [List.length_append, List.length_cons] at hlength
            obtain ⟨fields, hreads⟩ := ih back.length (by omega) hback rfl
            exact ⟨field :: fields, .placeholder field hreads⟩
          · obtain ⟨fields, hreads⟩ :=
              ih rest.length (by omega) (Closed.of_append [c] h) rfl
            exact ⟨fields, .text hc hreads⟩

theorem Reads.append {front back : List Char} {fields fields' : List PlaceholderField}
    {left : Bool} (hfront : Reads false front fields) (hback : Reads left back fields') :
    Reads left (front ++ back) (fields ++ fields') := by
  generalize hclosed : false = closed at hfront
  induction hfront with
  | nil => exact hback
  | left field => cases hclosed
  | text hc _ ih => exact .text hc (ih hclosed)
  | placeholder field _ ih =>
      rw [List.cons_append, List.append_assoc, List.cons_append]
      exact .placeholder field (ih hclosed)

theorem openEnd_iff_reads {template : List Char} :
    OpenEnd template ↔ ∃ fields, Reads true template fields := by
  constructor
  · rintro ⟨front, name, field, hfront, hfield, rfl⟩
    obtain rfl := fromStr_eq_some_iff.mp hfield
    obtain ⟨fields, hreads⟩ := exists_reads_of_closed hfront
    exact ⟨_, hreads.append (.left field)⟩
  · rintro ⟨fields, h⟩
    have hopen : ∃ (front : List Char) (field : PlaceholderField) (fields : _),
        Reads false front fields ∧
        template = front ++ '{' :: field.name.toList := by
      generalize hleft : true = left at h
      induction h with
      | nil => cases hleft
      | left field => exact ⟨[], field, [], .nil, rfl⟩
      | text hc _ ih =>
          obtain ⟨front, field, fields, hfront, rfl⟩ := ih hleft
          exact ⟨_, field, fields, .text hc hfront, rfl⟩
      | placeholder field' _ ih =>
          obtain ⟨front, field, fields, hfront, rfl⟩ := ih hleft
          exact ⟨_, field, _, .placeholder field' hfront, by simp⟩
    obtain ⟨front, field, fields, hfront, rfl⟩ := hopen
    exact ⟨front, field.name, field, closed_of_reads hfront, fromStr_eq_some_iff.mpr rfl, rfl⟩

/-- The last brace of such a template is not closed. -/
theorem not_closed_of_openEnd {template : List Char} (h : OpenEnd template) : ¬Closed template := by
  obtain ⟨front, name, field, -, hfield, rfl⟩ := h
  obtain rfl := fromStr_eq_some_iff.mp hfield
  intro hclosed
  obtain ⟨name', field', rest, -, hname⟩ := hclosed front field.name.toList rfl
  have hnot : '}' ∉ field.name.toList := not_mem_name (by decide) field
  rw [hname] at hnot
  exact hnot (List.mem_append_right _ List.mem_cons_self)

/-! ### Parsing -/

/-- A template as it is documented: it has placeholders, and each is closed. -/
def Wellformed (template : List Char) : Prop := '{' ∈ template ∧ Closed template

/-- One question mark for each field, and the one put for a placeholder has as many in
front of it as there are placeholders in front of that. -/
def InOrder (template : List Char) (q : QueryTemplate) : Prop :=
  q.sql.toList.count '?' = q.fields.length ∧
    ∀ before name after field,
      template = before ++ '{' :: (String.toList name ++ '}' :: after) →
      PlaceholderField.fromStr name = some field →
      ∃ sql fields sql' fields', substitute before = .ok (sql, fields) ∧
        q.sql.toList = sql ++ '?' :: sql' ∧ q.fields = fields ++ field :: fields' ∧
        sql.count '?' = fields.length

theorem substitute_of_parse {template : String} {q : QueryTemplate}
    (h : QueryTemplate.parse template = .ok q) :
    q.fields ≠ [] ∧ substitute template.toList = .ok (q.sql.toList, q.fields) := by
  obtain ⟨⟨sql, fields⟩, hsql, hrest⟩ := bind_eq_ok_iff.mp h
  dsimp only at hrest
  split at hrest
  · cases hrest
  · rename_i hne
    cases hrest
    exact ⟨hne, by rw [hsql, String.toList_ofList]⟩

theorem exists_parse {template : String} {sql : List Char} {fields : List PlaceholderField}
    (h : substitute template.toList = .ok (sql, fields)) (hne : fields ≠ []) :
    ∃ q, QueryTemplate.parse template = .ok q := by
  let q : QueryTemplate :=
    { sql := String.ofList sql
      fields
      values := (splitValues sql).map fun parts => (String.ofList parts.1, String.ofList parts.2) }
  refine ⟨q, bind_eq_ok_iff.mpr ⟨(sql, fields), h, ?_⟩⟩
  dsimp only
  rw [if_neg hne]
  rfl

/-- A field is read where a brace is. -/
theorem Reads.fields_ne_nil_iff {left : Bool} {template : List Char}
    {fields : List PlaceholderField} (h : Reads left template fields) :
    fields ≠ [] ↔ '{' ∈ template := by
  induction h with
  | nil => simp
  | left field => simp
  | text hc _ ih => rw [ih, List.mem_cons, or_iff_right (Ne.symm hc)]
  | placeholder field _ _ => simp

/-- What is accepted: the well-formed templates, and those left open at the end. -/
theorem parse_isOk_iff (template : String) :
    (∃ q, QueryTemplate.parse template = .ok q) ↔
      Wellformed template.toList ∨ OpenEnd template.toList := by
  constructor
  · rintro ⟨q, hq⟩
    obtain ⟨hne, hsql⟩ := substitute_of_parse hq
    obtain ⟨left, hreads⟩ := reads_of_substitute hsql
    cases left with
    | false => exact .inl ⟨hreads.fields_ne_nil_iff.mp hne, closed_of_reads hreads⟩
    | true => exact .inr (openEnd_iff_reads.mpr ⟨_, hreads⟩)
  · intro h
    have hreads : ∃ left fields, Reads left template.toList fields ∧ '{' ∈ template.toList := by
      rcases h with ⟨hmem, hclosed⟩ | hopen
      · obtain ⟨fields, hreads⟩ := exists_reads_of_closed hclosed
        exact ⟨false, fields, hreads, hmem⟩
      · obtain ⟨fields, hreads⟩ := openEnd_iff_reads.mp hopen
        obtain ⟨front, name, field, -, -, heq⟩ := hopen
        exact ⟨true, fields, hreads, heq ▸ List.mem_append_right _ List.mem_cons_self⟩
    obtain ⟨left, fields, hreads, hmem⟩ := hreads
    obtain ⟨sql, hsql⟩ := substitute_of_reads hreads
    exact exists_parse hsql (hreads.fields_ne_nil_iff.mpr hmem)

/-- Without question marks of its own a template is parsed to a query in order. -/
theorem inOrder_iff {template : String} {q : QueryTemplate}
    (hq : QueryTemplate.parse template = .ok q) (hclosed : Closed template.toList) :
    InOrder template.toList q ↔ '?' ∉ template.toList := by
  obtain ⟨-, hsql⟩ := substitute_of_parse hq
  obtain ⟨fields, hreads⟩ := exists_reads_of_closed hclosed
  obtain rfl : fields = q.fields := by
    obtain ⟨sql, hsql'⟩ := substitute_of_reads hreads
    exact (Prod.mk.inj (Except.ok.inj (hsql'.symm.trans hsql))).2
  have hcount := count_sql hreads hsql
  constructor
  · intro h
    rw [← List.count_eq_zero]
    have hequal := h.1
    omega
  · intro hplain
    rw [List.count_eq_zero.mpr hplain, Nat.add_zero] at hcount
    refine ⟨hcount, fun before name after field htemplate hfield => ?_⟩
    obtain rfl := fromStr_eq_some_iff.mp hfield
    rw [htemplate] at hreads hsql hplain
    obtain ⟨front, field', back, rest, hfront, hafter, hback, hfields⟩ := hreads.split
    obtain ⟨rfl, rfl⟩ := name_append_inj hafter
    obtain ⟨sql, hbefore⟩ := substitute_of_reads hfront
    obtain ⟨sql', hrest⟩ := substitute_of_reads hback
    have hback : substitute ('{' :: (field.name.toList ++ '}' :: after)) =
        .ok ('?' :: sql', field :: back) := by
      rw [substitute_name, hrest]
      rfl
    rw [substitute_append hfront hbefore hback] at hsql
    have hpair := Prod.mk.inj (Except.ok.inj hsql)
    refine ⟨sql, front, sql', back, hbefore, hpair.1.symm, hpair.2.symm, ?_⟩
    have hnone : '?' ∉ before := fun hmem => hplain (List.mem_append_left _ hmem)
    rw [count_sql hfront hbefore, List.count_eq_zero.mpr hnone, Nat.add_zero]

/-- Exactly the well-formed templates are accepted, and their queries are in order. -/
def Exact (template : String) : Prop :=
  ((∃ q, QueryTemplate.parse template = .ok q) ↔ Wellformed template.toList) ∧
    ∀ q, QueryTemplate.parse template = .ok q → InOrder template.toList q

/-- Parsing is exact but for the templates that end in an open placeholder, and for
well-formed ones with question marks of their own. -/
theorem parse_exact_iff (template : String) :
    Exact template ↔ ¬OpenEnd template.toList ∧
      (Wellformed template.toList → '?' ∉ template.toList) := by
  have haccepted := parse_isOk_iff template
  constructor
  · rintro ⟨hok, horder⟩
    constructor
    · intro hopen
      exact not_closed_of_openEnd hopen (hok.mp (haccepted.mpr (.inr hopen))).2
    · intro hwell
      obtain ⟨q, hq⟩ := haccepted.mpr (.inl hwell)
      exact (inOrder_iff hq hwell.2).mp (horder q hq)
  · rintro ⟨hopen, hplain⟩
    have hok : (∃ q, QueryTemplate.parse template = .ok q) ↔ Wellformed template.toList := by
      rw [haccepted, or_iff_left hopen]
    refine ⟨hok, fun q hq => ?_⟩
    have hwell := hok.mp ⟨q, hq⟩
    exact (inOrder_iff hq hwell.2).mpr (hplain hwell)

theorem closed_of_not_mem {template : List Char} (h : '{' ∉ template) : Closed template := by
  rintro before after rfl
  exact absurd (List.mem_append_right _ List.mem_cons_self) h

/-- The placeholder of `INSERT INTO events VALUES ({id` is accepted without its brace. -/
theorem open_placeholder_accepted : ¬Exact r"INSERT INTO events VALUES ({id" := by
  rintro ⟨hok, -⟩
  have hopen : OpenEnd r"INSERT INTO events VALUES ({id".toList :=
    ⟨"INSERT INTO events VALUES (".toList, "id", .id, closed_of_not_mem (by decide), rfl, rfl⟩
  have haccepted := (parse_isOk_iff r"INSERT INTO events VALUES ({id").mpr (.inr hopen)
  exact not_closed_of_openEnd hopen (hok.mp haccepted).2

end CdvizCollector.Sinks.Clickhouse
