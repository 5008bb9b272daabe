import CdvizCollector.Lib.Result
import CdvizCollector.Tools.Send

/-!
What the overrides of the `send` command say, once they are parsed.

Each option belongs to a path and has a meaning there, and it is written in a
certain way; an `Override` has all three. What is escaped is written well but for
some control characters. What is neither escaped nor checked (the URL, the
duration, the headers and the run type) may be anything, a quote and a line end
included, and then more is said than the option.
-/

namespace CdvizCollector.Tools.Send

open Lib Lib.Toml

structure Override where
  path : List String
  meant : Leaf
  written : Expr

def Override.entry (o : Override) : Entry := (o.path, o.meant)

def Override.line (o : Override) : Line := ⟨o.path, o.written⟩

/-- A text that `escape_toml_string` writes. -/
def escaped (path : List String) (value : String) : Override :=
  ⟨path, .str (Text.trim value), .string (escapeTomlString value)⟩

/-- A text that is written as it is. -/
def verbatim (path : List String) (value : String) : Override := ⟨path, .str value, .string value⟩

def flag (path : List String) (b : Bool) : Override := ⟨path, .bool b, .bool b⟩

/-- A list that `serde_json` writes. -/
def jsonList (path : List String) (values : List String) : Override :=
  ⟨path, .strs values, .strings "" (values.map escapeJsonString)⟩

/-! ### The options -/

/-- What `append_http_sink_toml` is to say. -/
def sinkOverrides (args : SendArgs) : List Override :=
  (match args.url with
    | none => []
    | some url =>
        [flag ["sinks", "http", "enabled"] true, verbatim ["sinks", "http", "destination"] url,
          flag ["sinks", "debug", "enabled"] false] ++
        (args.totalDurationOfRetries.toList.map
          (verbatim ["sinks", "http", "total_duration_of_retries"])) ++
        args.headerOptions.flatMap fun option =>
          [verbatim ["sinks", "http", "headers", Text.trim option.1, "type"] "static",
            verbatim ["sinks", "http", "headers", Text.trim option.1, "value"]
              (Text.trim option.2)]) ++
  if args.logFullResponseOnError then
    [flag ["sinks", "http", "log_full_response_on_error"] true]
  else []

def metadataOption (option : String × String) : Override :=
  escaped ["sources", "cli", "extractor", "metadata", Text.trim option.1] option.2

/-- What `convert_args_into_toml` is to say. -/
def overrides (args : SendArgs) : List Override :=
  [escaped ["sources", "cli", "extractor", "data"] ("\n".intercalate args.data),
    verbatim ["sources", "cli", "extractor", "parser"] args.parser.name] ++
  args.metadataOptions.map metadataOption ++ sinkOverrides args

/-- The values of a key, as one text or as a list. -/
def metadataOverride (runType : String) (group : String × List String) : Override :=
  let path := ["sources", runType, "extractor", "metadata", "run", "overrides", group.1]
  match group.2 with
  | [value] => escaped path value
  | values => ⟨path, .strs (values.map Text.trim), .strings " " (values.map escapeTomlString)⟩

def runOptions (args : SendArgs) (runType : String) : List Override :=
  [flag ["sources", runType, "enabled"] true, flag ["sources", "cli", "enabled"] false] ++
  (if args.command = [] then []
    else [jsonList ["sources", runType, "extractor", "command"] args.command]) ++
  (if args.data = [] then []
    else [jsonList ["sources", runType, "extractor", "data_globs"] args.data]) ++
  (if args.noData then [flag ["sources", runType, "extractor", "no_data"] true] else []) ++
  (if args.failOnCollectorError then
    [flag ["sources", runType, "extractor", "fail_on_collector_error"] true] else [])

/-- What `convert_run_args_into_toml` is to say. -/
def runOverrides (args : SendArgs) (runType : String) : List Override :=
  runOptions args runType ++ (metaMap args.metadataOptions).map (metadataOverride runType) ++
    sinkOverrides args

/-! ### The text -/

theorem appendHttpSinkToml_eq (args : SendArgs) :
    appendHttpSinkToml args = (sinkOverrides args).map fun o => o.line.text := by
  unfold appendHttpSinkToml sinkOverrides
  rw [List.map_append]
  congr 1
  · cases args.url with
    | none => rfl
    | some url =>
        simp only [List.map_append, List.map_map, List.map_flatMap]
        rfl
  · split <;> rfl

theorem validateTomlBareKey_eq_ok_iff {key : String} :
    validateTomlBareKey key = .ok () ↔ isBareKey key = true := by
  have hcheck : validateTomlBareKey key =
      if key = "" then .error .emptyKey
      else if !key.toList.all isBareChar then .error (.invalidKey key) else .ok () := rfl
  rw [hcheck, isBareKey]
  by_cases hempty : key = ""
  · simp [hempty]
  · cases hall : key.toList.all isBareChar <;> simp [hempty]

/-- Keys that are checked one after the other. -/
theorem mapM_validated {α : Type} (key : α → String) (write : α → String) {l : List α}
    {written : List String} :
    (l.mapM fun a => do
        validateTomlBareKey (key a)
        return write a) = .ok written ↔
      (∀ a ∈ l, isBareKey (key a) = true) ∧ written = l.map write := by
  induction l generalizing written with
  | nil =>
      constructor
      · intro h
        exact ⟨by simp, (Except.ok.inj h).symm⟩
      · rintro ⟨-, rfl⟩
        rfl
  | cons a l ih =>
      rw [List.mapM_cons, List.forall_mem_cons, List.map_cons]
      cases hkey : validateTomlBareKey (key a) with
      | error e =>
          have hinvalid : isBareKey (key a) ≠ true := by
            intro hvalid
            rw [validateTomlBareKey_eq_ok_iff.mpr hvalid] at hkey
            contradiction
          simp [bind, Except.bind, hinvalid]
      | ok u =>
          have hvalid := validateTomlBareKey_eq_ok_iff.mp hkey
          cases hrest : l.mapM fun a => do
              validateTomlBareKey (key a)
              return write a with
          | error e =>
              have hnot : ¬∀ a ∈ l, isBareKey (key a) = true := by
                intro hall
                rw [ih.mpr ⟨hall, rfl⟩] at hrest
                contradiction
              simp only [bind, Except.bind, pure, Except.pure] at hrest ⊢
              simp [hnot]
          | ok rest =>
              obtain ⟨hall, rfl⟩ := ih.mp hrest
              simp only [bind, Except.bind, pure, Except.pure] at hrest ⊢
              constructor
              · intro h
                exact ⟨⟨hvalid, hall⟩, (Except.ok.inj h).symm⟩
              · rintro ⟨-, rfl⟩
                rfl

/-- The keys of the metadata are bare ones. -/
def SendArgs.ValidKeys (args : SendArgs) : Prop :=
  ∀ option ∈ args.metadataOptions, isBareKey (Text.trim option.1) = true

theorem convertArgsIntoToml_eq_ok_iff {args : SendArgs} {written : String} :
    convertArgsIntoToml args = .ok written ↔
      args.ValidKeys ∧ text ((overrides args).map Override.line) = written := by
  have hconvert : convertArgsIntoToml args =
      (args.metadataOptions.mapM fun option => do
        validateTomlBareKey (Text.trim option.1)
        return (metadataOption option).line.text) >>= fun metadata =>
          pure (String.join ([(escaped ["sources", "cli", "extractor", "data"]
              ("\n".intercalate args.data)).line.text,
            (verbatim ["sources", "cli", "extractor", "parser"] args.parser.name).line.text] ++
            metadata ++ appendHttpSinkToml args)) := rfl
  rw [hconvert, bind_pure_eq_ok_iff]
  simp only [mapM_validated, appendHttpSinkToml_eq, text, overrides, List.map_append,
    List.map_map]
  constructor
  · rintro ⟨metadata, ⟨hvalid, rfl⟩, rfl⟩
    exact ⟨hvalid, rfl⟩
  · rintro ⟨hvalid, rfl⟩
    exact ⟨_, ⟨hvalid, rfl⟩, rfl⟩

theorem jsonList_text (path values : List String) :
    (jsonList path values).line.text = assignment path (jsonStrings values) := by
  simp [jsonList, Override.line, Line.text, Expr.text, jsonStrings, Function.comp_def]

theorem metadataOverride_text (runType : String) (group : String × List String) :
    (metadataOverride runType group).line.text =
      let path := ["sources", runType, "extractor", "metadata", "run", "overrides", group.1]
      match group.2 with
      | [value] => assignment path (quoted (escapeTomlString value))
      | values => assignment path ("[" ++
          ", ".intercalate (values.map fun v => quoted (escapeTomlString v)) ++ "]") := by
  have hgap : "," ++ " " = ", " := by decide
  obtain ⟨key, values⟩ := group
  rcases values with _ | ⟨value, _ | ⟨value', values⟩⟩
  · simp [metadataOverride, Override.line, Line.text, Expr.text]
  · rfl
  · simp [metadataOverride, Override.line, Line.text, Expr.text, hgap, Function.comp_def]

theorem runLines_eq (args : SendArgs) (runType : String) :
    runLines args runType = (runOptions args runType).map fun o => o.line.text := by
  unfold runLines runOptions
  simp only [List.map_append, apply_ite (List.map _), List.map_cons, List.map_nil, jsonList_text]
  rfl

theorem convertRunArgsIntoToml_eq_ok_iff {args : SendArgs} {runType written : String} :
    convertRunArgsIntoToml args runType = .ok written ↔
      (∀ group ∈ metaMap args.metadataOptions, isBareKey group.1 = true) ∧
        text ((runOverrides args runType).map Override.line) = written := by
  have hstep : ∀ group : String × List String, (do
      validateTomlBareKey group.1
      return (metadataOverride runType group).line.text) = (do
      validateTomlBareKey group.1
      let path := ["sources", runType, "extractor", "metadata", "run", "overrides", group.1]
      match group.2 with
      | [value] => return assignment path (quoted (escapeTomlString value))
      | values => return assignment path ("[" ++
          ", ".intercalate (values.map fun v => quoted (escapeTomlString v)) ++ "]")) := by
    intro group
    rw [metadataOverride_text]
    obtain ⟨key, values⟩ := group
    rcases values with _ | ⟨value, _ | ⟨value', values⟩⟩ <;> rfl
  have hconvert : convertRunArgsIntoToml args runType =
      ((metaMap args.metadataOptions).mapM fun group => do
        validateTomlBareKey group.1
        return (metadataOverride runType group).line.text) >>= fun metadata =>
          pure (String.join (runLines args runType ++ metadata ++ appendHttpSinkToml args)) := by
    simp only [hstep]
    rfl
  rw [hconvert, bind_pure_eq_ok_iff]
  simp only [mapM_validated, appendHttpSinkToml_eq, runLines_eq, text, runOverrides,
    List.map_append, List.map_map]
  constructor
  · rintro ⟨metadata, ⟨hvalid, rfl⟩, rfl⟩
    exact ⟨hvalid, rfl⟩
  · rintro ⟨hvalid, rfl⟩
    exact ⟨_, ⟨hvalid, rfl⟩, rfl⟩

/-! ### What is written well -/

/-- Characters that mean themselves between quotes. -/
def Plain (s : String) : Prop := ∀ c ∈ s.toList, isPlain c = true

instance : DecidablePred Plain := fun s =>
  decidable_of_iff (s.toList.all isPlain = true) List.all_eq_true

/-- No control character is left in the text once it is trimmed and escaped. -/
def Escapable (s : String) : Prop :=
  ∀ c ∈ (Text.trim s).toList, isControl c = true → c = '\n' ∨ c = '\r'

theorem escapable_iff_all {s : String} :
    ((Text.trim s).toList.all fun c => !isControl c || c = '\n' || c = '\r') = true ↔
      Escapable s := by
  rw [List.all_eq_true]
  refine forall₂_congr fun c _ => ?_
  cases isControl c <;> simp

instance : DecidablePred Escapable := fun _ => decidable_of_iff _ escapable_iff_all

def JsonEscapable (s : String) : Prop := '\x7f' ∉ s.toList

theorem spells_escape_iff {s : String} :
    Spells (escapeTomlString s).toList (Text.trim s).toList ↔ Escapable s := by
  rw [toList_escapeTomlString, escaping_toml.spells_iff]
  refine forall₂_congr fun c hc => imp_congr_right fun hcontrol => ?_
  unfold escapeTomlChar
  split_ifs with hslash hquote hnl hcr htab
  · subst hslash; simp [isControl] at hcontrol
  · subst hquote; simp [isControl] at hcontrol
  · simp [hnl]
  · simp [hcr]
  · subst htab; simp [isControl] at hcontrol
  · simp [hnl, hcr]

theorem spells_escapeJson_iff {s : String} :
    Spells (escapeJsonString s).toList s.toList ↔ JsonEscapable s := by
  rw [escapeJsonString, String.toList_ofList, escaping_json.spells_iff]
  constructor
  · intro h hmem
    exact h _ hmem (by decide) (by decide)
  · intro h c hc hcontrol
    have hne : c ≠ '\x7f' := by
      rintro rfl
      exact h hc
    have hlow : c.toNat < 0x20 := by
      simp only [isControl, Bool.or_eq_true, Bool.and_eq_true, decide_eq_true_eq] at hcontrol
      rcases hcontrol with hcontrol | hcontrol
      · exact hcontrol.1
      · have hval : c.val.toNat = (Char.val '\x7f').toNat := hcontrol
        exact absurd (Char.ext (UInt32.toNat_inj.mp hval)) hne
    unfold escapeJsonChar
    split_ifs <;> simp

def Override.Denotes (o : Override) : Prop := o.line.Denotes o.entry

def Override.Attempts (o : Override) : Prop := o.line.Attempts o.entry

theorem flag_denotes {path : List String} (hbare : BarePath path) (b : Bool) :
    (flag path b).Denotes :=
  ⟨rfl, hbare, .bool b⟩

section Written

variable {path : List String} (hbare : BarePath path)

include hbare

theorem verbatim_denotes_iff (value : String) : (verbatim path value).Denotes ↔ Plain value := by
  rw [Plain, ← spells_self_iff, ← Expr.denotes_string_iff]
  exact ⟨fun h => h.expr, fun h => ⟨rfl, hbare, h⟩⟩

theorem verbatim_attempts {value : String} (h : opensMultiline value = false) :
    (verbatim path value).Attempts :=
  .inr ⟨hbare, .inr (.intro h)⟩

theorem escaped_denotes_iff (value : String) :
    (escaped path value).Denotes ↔ Escapable value := by
  rw [← spells_escape_iff, ← Expr.denotes_string_iff]
  exact ⟨fun h => h.expr, fun h => ⟨rfl, hbare, h⟩⟩

theorem escaped_attempts (value : String) : (escaped path value).Attempts := by
  rcases escaping_toml.spells_or_broken (Text.trim value).toList with h | h
  · rw [← toList_escapeTomlString] at h
    exact .inl ⟨rfl, hbare, .string h⟩
  · rw [← toList_escapeTomlString] at h
    exact .inr ⟨hbare, .inl (.string h)⟩

theorem strings_denotes_iff {gap : String} (hgap : Blank gap) {f g : String → String}
    (values : List String) :
    (⟨path, .strs (values.map g), .strings gap (values.map f)⟩ : Override).Denotes ↔
      ∀ v ∈ values, Spells (f v).toList (g v).toList := by
  have hforall : List.Forall₂ (fun (raw s : String) => Spells raw.toList s.toList)
      (values.map f) (values.map g) ↔ ∀ v ∈ values, Spells (f v).toList (g v).toList := by
    rw [List.forall₂_map_left_iff, List.forall₂_map_right_iff, List.forall₂_same]
  rw [← hforall, ← Expr.denotes_strings_iff hgap]
  exact ⟨fun h => h.expr, fun h => ⟨rfl, hbare, h⟩⟩

theorem strings_attempts {gap : String} (hgap : Blank gap) {f g : String → String}
    (hspells : ∀ v, Spells (f v).toList (g v).toList ∨ Broken (f v).toList)
    (values : List String) :
    (⟨path, .strs (values.map g), .strings gap (values.map f)⟩ : Override).Attempts := by
  have hvalues : List.Forall₂ (fun (raw s : String) =>
      Spells raw.toList s.toList ∨ Broken raw.toList) (values.map f) (values.map g) := by
    rw [List.forall₂_map_left_iff, List.forall₂_map_right_iff, List.forall₂_same]
    exact fun v _ => hspells v
  rcases strings_denotes_or_broken hgap hvalues with h | h
  · exact .inl ⟨rfl, hbare, h⟩
  · exact .inr ⟨hbare, .inl h⟩

theorem jsonList_denotes_iff (values : List String) :
    (jsonList path values).Denotes ↔ ∀ v ∈ values, JsonEscapable v := by
  have hgap : Blank "" := by simp [Blank]
  have h := strings_denotes_iff hbare hgap (f := escapeJsonString) (g := id) values
  simp only [List.map_id, id_eq, spells_escapeJson_iff] at h
  exact h

theorem jsonList_attempts (values : List String) : (jsonList path values).Attempts := by
  have hgap : Blank "" := by simp [Blank]
  have h := strings_attempts hbare hgap (f := escapeJsonString) (g := id) (fun v => by
      rw [escapeJsonString, String.toList_ofList]
      exact escaping_json.spells_or_broken v.toList) values
  rw [List.map_id] at h
  exact h

end Written

/-- The path of the metadata under a key. -/
def metadataPath (runType key : String) : List String :=
  ["sources", runType, "extractor", "metadata", "run", "overrides", key]

theorem metadataOverride_denotes_iff {runType : String} {group : String × List String}
    (hbare : BarePath (metadataPath runType group.1)) :
    (metadataOverride runType group).Denotes ↔ ∀ v ∈ group.2, Escapable v := by
  have hgap : Blank " " := by simp [Blank]
  have hlist := strings_denotes_iff hbare hgap (f := escapeTomlString) (g := Text.trim) group.2
  simp only [spells_escape_iff] at hlist
  obtain ⟨key, values⟩ := group
  rcases values with _ | ⟨value, _ | ⟨value', values⟩⟩
  · exact hlist
  · rw [List.forall_mem_singleton]
    exact escaped_denotes_iff hbare value
  · exact hlist

theorem metadataOverride_attempts {runType : String} {group : String × List String}
    (hbare : BarePath (metadataPath runType group.1)) :
    (metadataOverride runType group).Attempts := by
  have hgap : Blank " " := by simp [Blank]
  have hlist := strings_attempts hbare hgap (f := escapeTomlString) (g := Text.trim)
    (fun v => by
      rw [toList_escapeTomlString]
      exact escaping_toml.spells_or_broken _) group.2
  obtain ⟨key, values⟩ := group
  rcases values with _ | ⟨value, _ | ⟨value', values⟩⟩
  · exact hlist
  · exact escaped_attempts hbare value
  · exact hlist

/-- Overrides that are written well but for control characters, or as they are, are what
is parsed exactly when they are spelled well and no two of them are in conflict. -/
theorem parses_overrides_iff {parse : String → Option Document} (hparse : Parser parse)
    {os : List Override} (h : ∀ o ∈ os, o.Attempts) :
    (∃ doc, parse (text (os.map Override.line)) = some doc ∧ doc.Perm (os.map Override.entry)) ↔
      (∀ o ∈ os, o.Denotes) ∧ PrefixFree (os.map Override.path) := by
  have hlines : List.Forall₂ Line.Attempts (os.map Override.line) (os.map Override.entry) := by
    rw [List.forall₂_map_left_iff, List.forall₂_map_right_iff, List.forall₂_same]
    exact h
  rw [hparse.parses_iff hlines, List.forall₂_map_left_iff, List.forall₂_map_right_iff,
    List.forall₂_same, List.map_map]
  rfl

end CdvizCollector.Tools.Send
