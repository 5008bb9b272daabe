import CdvizCollector.Sources.HttpPolling.Request
import CdvizCollector.Sources.Opendal.Parsers

/-!
What the implementations of one format have in common.

A text is parsed as a whole, line by line from a file, and as the body of a
response. JSON lines and CSV rows come out the same. Lines of text do not: a file
keeps their blanks, and a file that is named a log is taken apart where a text is
not.
-/

namespace CdvizCollector.Sources

open Lib Parsers Opendal

/-- The elements of an array, or the single value. -/
def elements : Json → List Json
  | .arr elems => elems
  | value => [value]

/-- A parser that succeeds, and the bodies of what it sends. -/
def Emits (parsing : Parsing Unit) (bodies : List Json) : Prop :=
  parsing.result = .ok () ∧ parsing.trace.map Event.body = bodies

/-- The texts between the line feeds, without the carriage returns they end with
and without the empty ones. -/
def lineTexts (data : String) : List String :=
  ((data.toList.splitOn '\n').map fun piece =>
    String.ofList (Text.trimEndMatches '\r' piece)).filter (· ≠ "")

section

variable (P : ParserContext) (resource : Loaded)

theorem emits_map (bodies : List Json) :
    Emits ⟨bodies.map (toEvent P resource), .ok ()⟩ bodies := by
  refine ⟨rfl, ?_⟩
  rw [List.map_map]
  exact List.map_id bodies

/-! ### JSON lines -/

variable {P} (hjson : SkipsBlanks P.formats.fromStr)

include hjson

theorem parseJson_of_chompLine {line : String} {v : Json}
    (h : parseJson P.formats (Text.chompLine line) = .ok v) : parseJson P.formats line = .ok v := by
  have hread := hjson.toOption_congr (Text.trimBy_chompLine rfl rfl line)
  rw [parseJson_eq_ok_iff] at h ⊢
  rw [h] at hread
  cases hline : P.formats.fromStr line with
  | error e => rw [hline] at hread; cases hread
  | ok v' => rw [hline] at hread; cases hread; rfl

/-- Line by line from a file as from a text. -/
theorem forM_parseJsonlLine (lines : List String) {vs : List Json}
    (h : ((lines.map Text.chompLine).filter fun line => !Text.isBlank line).mapM
      (parseJson P.formats) = .ok vs) :
    lines.forM (parseJsonlLine P resource) = ⟨vs.map (toEvent P resource), .ok ()⟩ := by
  induction lines generalizing vs with
  | nil => cases h; rfl
  | cons line lines ih =>
      rw [List.forM_eq_forM, List.forM_cons]
      rw [List.forM_eq_forM] at ih
      cases hblank : Text.isBlank line with
      | true =>
          rw [List.map_cons,
            List.filter_cons_of_neg (by simp [Text.isBlank_chompLine, hblank])] at h
          rw [parseJsonlLine, if_pos hblank, ih h]
          rfl
      | false =>
          rw [List.map_cons,
            List.filter_cons_of_pos (by simp [Text.isBlank_chompLine, hblank])] at h
          obtain ⟨v, rest, hv, hrest, rfl⟩ := mapM_cons_eq_ok h
          have hline := parseJson_of_chompLine hjson hv
          rw [parseJsonlLine, if_neg (by simp [hblank]), ih hrest, hline]
          rfl

/-- The body of a response is parsed alike. -/
theorem mapM_trim (lines : List String) {vs : List Json}
    (h : (lines.filter fun line => !Text.isBlank line).mapM (parseJson P.formats) = .ok vs) :
    ((lines.map Text.trim).filter (· ≠ "")).mapM
      (fun line => (P.formats.fromStr line).toOption) = some vs := by
  induction lines generalizing vs with
  | nil => cases h; rfl
  | cons line lines ih =>
      cases hblank : Text.isBlank line with
      | true =>
          have htrim := Text.trim_eq_empty_iff.mpr hblank
          rw [List.filter_cons_of_neg (by simp [hblank])] at h
          rw [List.map_cons, List.filter_cons_of_neg (by simp [htrim])]
          exact ih h
      | false =>
          have htrim : Text.trim line ≠ "" := by
            rw [Ne, Text.trim_eq_empty_iff, hblank]
            exact Bool.false_ne_true
          rw [List.filter_cons_of_pos (by simp [hblank])] at h
          obtain ⟨v, rest, hv, hrest, rfl⟩ := mapM_cons_eq_ok h
          have hline := parseJson_eq_ok_iff.mp hv
          rw [List.map_cons, List.filter_cons_of_pos (by simp [htrim]), List.mapM_cons,
            hjson.trim hline, ih hrest]
          rfl

theorem forEachLine_jsonl {data : String} {v : Json} (h : parseJsonl P.formats data = .ok v) :
    forEachLine (Text.utf8 data) (parseJsonlLine P resource) =
      ⟨(elements v).map (toEvent P resource), .ok ()⟩ := by
  obtain ⟨vs, hvs, rfl⟩ := map_eq_ok h
  rw [Text.textLines_eq] at hvs
  rw [forEachLine_utf8, forM_parseJsonlLine resource hjson _ hvs]
  rfl

theorem parse_response {data : String} {v : Json} (h : parseJsonl P.formats data = .ok v) :
    HttpPolling.ResolvedParser.jsonl.parse (fun line => (P.formats.fromStr line).toOption) data =
      some (elements v) := by
  obtain ⟨vs, hvs, rfl⟩ := map_eq_ok h
  exact mapM_trim hjson _ hvs

end

/-! ### CSV rows -/

section

variable {P : ParserContext} (resource : Loaded)

theorem forM_records (headers : List String) (records : List (Except String (List String)))
    {events : List Json}
    (h : (records.mapM fun record => do
      let record ← record.mapError Error.report
      return csvRow headers record) = .ok events) :
    (records.forM fun record => do
      let record ← Traced.ofExcept (record.mapError Error.report)
      send P resource (csvRow headers record)) =
      ⟨events.map (toEvent P resource), .ok ()⟩ := by
  induction records generalizing events with
  | nil => cases h; rfl
  | cons record records ih =>
      obtain ⟨event, rest, hevent, hrest, rfl⟩ := mapM_cons_eq_ok h
      cases record with
      | error e => cases hevent
      | ok fields =>
          cases hevent
          rw [List.forM_eq_forM] at ih
          rw [List.forM_eq_forM, List.forM_cons, ih hrest]
          rfl

theorem parseCsv_of_parseCsvRow {data : String} {v : Json}
    (h : parseCsvRow P.formats data = .ok v) :
    parseCsv P resource (Text.utf8 data) = ⟨(elements v).map (toEvent P resource), .ok ()⟩ := by
  cases hheaders : (P.formats.csv (Text.utf8 data)).headers with
  | error e =>
      simp only [parseCsvRow, hheaders] at h
      cases h
  | ok headers =>
      simp only [parseCsvRow, hheaders] at h
      obtain ⟨events, hevents, rfl⟩ := map_eq_ok h
      simp only [parseCsv, hheaders]
      exact forM_records resource headers _ hevents

/-! ### Lines of text -/

theorem lineText_eq (piece : List Char) (hpiece : '\n' ∉ piece) :
    lineText (String.ofList piece) = String.ofList (Text.trimEndMatches '\r' piece) ∧
      lineText (String.ofList (piece ++ ['\n'])) =
        String.ofList (Text.trimEndMatches '\r' piece) := by
  have hends : ∀ d ∈ ['\n'], d = '\n' := by simp
  constructor
  · rw [lineText, String.toList_ofList, Text.trimEndMatches_of_not_mem hpiece]
  · rw [lineText, String.toList_ofList, Text.trimEndMatches_append hends,
      Text.trimEndMatches_of_not_mem hpiece]

/-- A file is taken apart at the line feeds of its text. -/
theorem lineTexts_eq (data : String) :
    ((Text.readerLines data).map lineText).filter (· ≠ "") = lineTexts data := by
  have hpiece : ∀ piece ∈ data.toList.splitOn '\n', '\n' ∉ piece :=
    fun piece h => Text.not_mem_of_mem_splitOn h
  rw [lineTexts, Text.readerLines, Text.rawLines]
  obtain ⟨front, last, hpieces⟩ :=
    List.eq_nil_or_concat (data.toList.splitOn '\n') |>.resolve_left (List.splitOn_ne_nil _ _)
  rw [List.concat_eq_append] at hpieces
  rw [hpieces] at hpiece ⊢
  have hfront : (front.map fun piece => lineText (String.ofList (piece ++ ['\n']))) =
      front.map fun piece => String.ofList (Text.trimEndMatches '\r' piece) := by
    apply List.map_congr_left
    intro piece hmem
    exact (lineText_eq piece (hpiece piece (List.mem_append_left _ hmem))).2
  have hlast : ((([last].filter (· ≠ [])).map String.ofList).map lineText).filter (· ≠ "") =
      ([String.ofList (Text.trimEndMatches '\r' last)]).filter (· ≠ "") := by
    by_cases hempty : last = []
    · subst hempty
      rfl
    · have hline := (lineText_eq last (hpiece last (List.mem_append_right _ (by simp)))).1
      rw [List.filter_cons_of_pos (by simp [hempty]), List.filter_nil, List.map_singleton,
        List.map_singleton, hline]
  rw [List.dropLast_concat, List.getLast?_concat, Option.toList_some, List.map_append,
    List.map_append, List.filter_append, hlast, List.map_append, List.filter_append,
    List.map_singleton, ← hfront, List.map_map, List.map_map]
  rfl

theorem trim_lineText (line : String) : Text.trim (lineText line) = Text.trim line := by
  obtain ⟨lf, hlf, hline⟩ := Text.exists_trimEndMatches '\n' line.toList
  obtain ⟨cr, hcr, hrest⟩ :=
    Text.exists_trimEndMatches '\r' (Text.trimEndMatches '\n' line.toList)
  have hlf' : ∀ c ∈ lf, Text.isWhitespace c = true := fun c hc => hlf c hc ▸ rfl
  have hcr' : ∀ c ∈ cr, Text.isWhitespace c = true := fun c hc => hcr c hc ▸ rfl
  rw [← String.toList_inj, Text.toList_trim, Text.toList_trim, lineText, String.toList_ofList]
  conv_rhs => rw [hline, Text.trimBy_append_right hlf', hrest, Text.trimBy_append_right hcr']

/-- What trimming leaves nothing of can be left out before. -/
theorem filter_map_filter {f : String → String} (hf : f "" = "") (texts : List String) :
    ((texts.filter (· ≠ "")).map f).filter (· ≠ "") = (texts.map f).filter (· ≠ "") := by
  induction texts with
  | nil => rfl
  | cons text texts ih =>
      by_cases hempty : text = ""
      · rw [List.filter_cons_of_neg (by simp [hempty]), ih, List.map_cons,
          List.filter_cons_of_neg (by simp [hempty, hf])]
      · rw [List.filter_cons_of_pos (by simp [hempty]), List.map_cons, List.map_cons,
          List.filter_cons, List.filter_cons, ih]

/-- The lines of a text are the ones of a file, trimmed and without the blank ones. -/
theorem elements_parseTextLine (data : String) :
    elements (parseTextLine data) =
      (((lineTexts data).map Text.trim).filter (· ≠ "")).map parseText := by
  have hchomp : Text.trim ∘ Text.chompLine = Text.trim := funext Text.trim_chompLine
  have hline : Text.trim ∘ lineText = Text.trim := funext trim_lineText
  have hlines : (Text.textLines data).map Text.trim = (Text.readerLines data).map Text.trim := by
    rw [Text.textLines_eq, List.map_map, hchomp]
  rw [← lineTexts_eq, filter_map_filter (by decide), List.map_map, hline, ← hlines]
  rfl

theorem parseText_injective : Function.Injective parseText := by
  intro s t h
  simpa [parseText] using h

/-- The lines come out the same if they are trimmed already, and only then. -/
theorem filter_trim_eq_iff {texts : List String} (hne : ∀ t ∈ texts, t ≠ "") :
    texts = (texts.map Text.trim).filter (· ≠ "") ↔ ∀ t ∈ texts, Text.trim t = t := by
  constructor
  · intro h
    have hlength := congrArg List.length h
    have hall : (texts.map Text.trim).filter (· ≠ "") = texts.map Text.trim := by
      apply List.Sublist.eq_of_length List.filter_sublist
      rw [← hlength, List.length_map]
    have hmap : texts.map Text.trim = texts.map id := by
      rw [← hall, ← h, List.map_id]
    exact List.map_inj_left.mp hmap
  · intro h
    have hmap : texts.map Text.trim = texts := by
      rw [List.map_congr_left h, List.map_id']
    rw [hmap, List.filter_eq_self.mpr fun t ht => decide_eq_true (hne t ht)]

theorem forEachLine_textLine (data : String) :
    forEachLine (Text.utf8 data) (parseTextLineLine P resource) =
      ⟨((lineTexts data).map parseText).map (toEvent P resource), .ok ()⟩ := by
  rw [forEachLine_utf8, forM_parseTextLineLine, lineTexts_eq, List.map_map]
  rfl

/-- A text is the only line of a file if it is not empty and has no line end. -/
theorem lineTexts_eq_singleton_iff (data : String) :
    lineTexts data = [data] ↔
      data ≠ "" ∧ '\n' ∉ data.toList ∧ data.toList.getLast? ≠ some '\r' := by
  constructor
  · intro h
    have hmem : data ∈ lineTexts data := h ▸ List.mem_singleton_self data
    obtain ⟨hpiece, hne⟩ := List.mem_filter.mp hmem
    obtain ⟨piece, hsplit, hdata⟩ := List.mem_map.mp hpiece
    have hchars : Text.trimEndMatches '\r' piece = data.toList := by
      rw [← hdata, String.toList_ofList]
    obtain ⟨back, -, happend⟩ := Text.exists_trimEndMatches '\r' piece
    have hlf : '\n' ∉ data.toList := by
      intro hmem
      rw [← hchars] at hmem
      refine Text.not_mem_of_mem_splitOn hsplit ?_
      rw [happend]
      exact List.mem_append_left _ hmem
    -- so the text is its own only piece
    rw [List.splitOn_eq_singleton hlf, List.mem_singleton] at hsplit
    rw [hsplit] at hchars
    exact ⟨of_decide_eq_true hne, hlf, Text.trimEndMatches_eq_self_iff.mp hchars⟩
  · rintro ⟨hne, hlf, hcr⟩
    rw [lineTexts, List.splitOn_eq_singleton hlf, List.map_singleton,
      Text.trimEndMatches_eq_self_iff.mpr hcr, String.ofList_toList,
      List.filter_cons_of_pos (by simp [hne]), List.filter_nil]

end

/-! ### The implementations -/

theorem Emits.iff_eq {parsing : Parsing Unit} {bodies others : List Json}
    (h : Emits parsing bodies) : Emits parsing others ↔ bodies = others := by
  constructor
  · intro hothers
    rw [← h.2, hothers.2]
  · intro heq
    exact heq ▸ h

/-- By the extension, the parser of JSON lines, of CSV rows or of lines of text. -/
theorem autoParser_eq (P : ParserContext) (resource : Loaded) :
    (lowerExtension resource.path = some "jsonl" →
      AutoParser.parse P resource = JsonlParser.parse P resource) ∧
    (lowerExtension resource.path = some "csv" →
      AutoParser.parse P resource = CsvRowParser.parse P resource) ∧
    (lowerExtension resource.path = some "log" →
      AutoParser.parse P resource = TextLineParser.parse P resource) := by
  refine ⟨?_, ?_, ?_⟩ <;> intro hext <;> rw [AutoParser.parse, hext] <;> rfl

section

variable {P : ParserContext} {resource : Loaded} {data : String}
  (hread : P.read resource.path = .ok (Text.utf8 data))

include hread

theorem emits_jsonl (hjson : SkipsBlanks P.formats.fromStr) {v : Json}
    (h : parseJsonl P.formats data = .ok v) :
    Emits (JsonlParser.parse P resource) (elements v) := by
  rw [JsonlParser.parse, readBytes_bind hread, forEachLine_jsonl resource hjson h]
  exact emits_map P resource _

theorem emits_csvRow {v : Json} (h : parseCsvRow P.formats data = .ok v) :
    Emits (CsvRowParser.parse P resource) (elements v) := by
  rw [CsvRowParser.parse, readBytes_bind hread, parseCsv_of_parseCsvRow resource h]
  exact emits_map P resource _

theorem emits_textLine :
    Emits (TextLineParser.parse P resource) ((lineTexts data).map parseText) := by
  rw [TextLineParser.parse, readBytes_bind hread, forEachLine_textLine]
  exact emits_map P resource _

end

/-- JSON lines and CSV rows are the same for a text, a file and a response. The
lines of a file are the lines of its text if these are trimmed, and a log is one
event in both if it is one line. -/
theorem parsers_agree (P : ParserContext) (hjson : SkipsBlanks P.formats.fromStr)
    (resource : Loaded) (data : String)
    (hread : P.read resource.path = .ok (Text.utf8 data)) :
    (∀ config filename v, config = .jsonl ∨ config = .csvRow →
      parseWithConfig P.formats data config filename = .ok v →
      Emits (parse P resource config) (elements v)) ∧
    (∀ name v, lowerExtension name = lowerExtension resource.path →
      (lowerExtension name = some "jsonl" ∨ lowerExtension name = some "csv") →
      parseWithConfig P.formats data .auto (some name) = .ok v →
      Emits (parse P resource .auto) (elements v)) ∧
    (∀ filename v, parseWithConfig P.formats data .jsonl filename = .ok v →
      HttpPolling.ResolvedParser.jsonl.parse (fun s => (P.formats.fromStr s).toOption) data =
        some (elements v)) ∧
    (∀ filename v, parseWithConfig P.formats data .textLine filename = .ok v →
      Emits (parse P resource .textLine) ((lineTexts data).map parseText) ∧
      elements v = (((lineTexts data).map Text.trim).filter (· ≠ "")).map parseText ∧
      (Emits (parse P resource .textLine) (elements v) ↔
        ∀ text ∈ lineTexts data, Text.trim text = text)) ∧
    (∀ name v, lowerExtension name = lowerExtension resource.path →
      lowerExtension name = some "log" →
      parseWithConfig P.formats data .auto (some name) = .ok v →
      Emits (parse P resource .auto) ((lineTexts data).map parseText) ∧
      elements v = [parseText data] ∧
      (Emits (parse P resource .auto) (elements v) ↔
        data ≠ "" ∧ '\n' ∉ data.toList ∧ data.toList.getLast? ≠ some '\r')) := by
  have hlines := emits_textLine hread
  have hne : ∀ text ∈ lineTexts data, text ≠ "" :=
    fun text h => of_decide_eq_true (List.mem_filter.mp h).2
  refine ⟨?_, ?_, ?_, ?_, ?_⟩
  · rintro config filename v (rfl | rfl) h
    · exact emits_jsonl hread hjson h
    · exact emits_csvRow hread h
  · rintro name v hname hext h
    have hauto := autoParser_eq P resource
    rcases hext with hext | hext
    · rw [parseWithConfig, Option.bind_some, hext] at h
      rw [parse, hauto.1 (hname ▸ hext)]
      exact emits_jsonl hread hjson h
    · rw [parseWithConfig, Option.bind_some, hext] at h
      rw [parse, hauto.2.1 (hname ▸ hext)]
      exact emits_csvRow hread h
  · intro filename v h
    exact parse_response hjson h
  · rintro filename v h
    obtain rfl := Except.ok.inj h
    have helements := elements_parseTextLine data
    refine ⟨hlines, helements, ?_⟩
    rw [parse, hlines.iff_eq, helements, (List.map_injective_iff.mpr parseText_injective).eq_iff]
    exact filter_trim_eq_iff hne
  · rintro name v hname hext h
    rw [parseWithConfig, Option.bind_some, hext] at h
    obtain rfl := Except.ok.inj h
    have hauto := autoParser_eq P resource
    have hlog : Emits (parse P resource .auto) ((lineTexts data).map parseText) := by
      rw [parse, hauto.2.2 (hname ▸ hext)]
      exact hlines
    have helements : elements (parseText data) = [data].map parseText := rfl
    refine ⟨hlog, helements, ?_⟩
    rw [hlog.iff_eq, helements, (List.map_injective_iff.mpr parseText_injective).eq_iff]
    exact lineTexts_eq_singleton_iff data

/-! ### A sample -/

/-- JSON where the only value is a one. -/
def readOne (s : String) : Except String Json :=
  if Text.trimBy isJsonBlank s.toList = ['1'] then .ok (.num (.posInt 1))
  else .error "expected value"

theorem skipsBlanks_readOne : SkipsBlanks readOne where
  skips s := by rw [readOne, readOne, String.toList_ofList, Text.trimBy_trimBy]
  trimmed s v h := by
    have hone : Text.trimBy isJsonBlank s.toList = ['1'] := by
      by_contra hne
      rw [readOne, if_neg hne] at h
      cases h
    rw [hone]
    rfl

/-- Two lines, which JSON and CSV read as well. -/
def sampleText : String := "1\n 1\r\n"

def sampleContext : ParserContext where
  formats :=
    { fromStr := readOne
      xmlToJson := fun _ => .error "not an element"
      yaml := fun _ => .ok (.str "1 1")
      csv := fun _ => ⟨.ok ["1"], [.ok [" 1"]]⟩ }
  baseMetadata := .obj []
  read := fun _ => .ok (Text.utf8 sampleText)
  entryName := id
  timestampText := fun _ => ""

def sampleResource (path : String) : Loaded where
  path
  isFile := true
  lastModified := none
  contentLength := 6
  root := "/"
  xHeaders := []

theorem parsers_agree_sample :
    Emits (parse sampleContext (sampleResource "a") .jsonl)
        [.num (.posInt 1), .num (.posInt 1)] ∧
      Emits (parse sampleContext (sampleResource "a.csv") .auto) [.obj [("1", .str " 1")]] ∧
      HttpPolling.ResolvedParser.jsonl.parse (fun s => (readOne s).toOption) sampleText =
        some [.num (.posInt 1), .num (.posInt 1)] ∧
      Emits (parse sampleContext (sampleResource "a") .textLine)
        ((lineTexts sampleText).map parseText) ∧
      Emits (parse sampleContext (sampleResource "a.log") .auto)
        ((lineTexts sampleText).map parseText) := by
  have hcsv := parsers_agree sampleContext skipsBlanks_readOne (sampleResource "a.csv")
    sampleText rfl
  have hlog := parsers_agree sampleContext skipsBlanks_readOne (sampleResource "a.log")
    sampleText rfl
  obtain ⟨hexplicit, -, hhttp, htext, -⟩ := parsers_agree sampleContext skipsBlanks_readOne
    (sampleResource "a") sampleText rfl
  refine ⟨?_, ?_, ?_, ?_, ?_⟩
  · exact hexplicit .jsonl none (.arr [.num (.posInt 1), .num (.posInt 1)]) (Or.inl rfl) rfl
  · exact hcsv.2.1 "a.csv" (.arr [.obj [("1", .str " 1")]]) rfl (Or.inr rfl) rfl
  · exact hhttp none (.arr [.num (.posInt 1), .num (.posInt 1)]) rfl
  · exact (htext none _ rfl).1
  · exact (hlog.2.2.2.2 "a.log" _ rfl rfl rfl).1

/-- A blank at the start of a line is kept in a file, and a log is taken apart there. -/
theorem file_lines_differ :
    parseWithConfig sampleContext.formats sampleText .textLine none =
        .ok (.arr [parseText "1", parseText "1"]) ∧
      ¬Emits (parse sampleContext (sampleResource "a") .textLine)
        [parseText "1", parseText "1"] ∧
      parseWithConfig sampleContext.formats sampleText .auto (some "a.log") =
        .ok (parseText sampleText) ∧
      ¬Emits (parse sampleContext (sampleResource "a.log") .auto) [parseText sampleText] := by
  have hlines : lineTexts sampleText = ["1", " 1"] := by decide +kernel
  have htext : Emits (parse sampleContext (sampleResource "a") .textLine)
      ((lineTexts sampleText).map parseText) := emits_textLine rfl
  have hlog : Emits (parse sampleContext (sampleResource "a.log") .auto)
      ((lineTexts sampleText).map parseText) := by
    rw [parse, (autoParser_eq _ _).2.2 rfl]
    exact emits_textLine rfl
  rw [hlines] at htext hlog
  refine ⟨rfl, ?_, rfl, ?_⟩
  · rw [htext.iff_eq]
    simp [parseText]
  · rw [hlog.iff_eq]
    simp [parseText]

end CdvizCollector.Sources
