import CdvizCollector.Tools.SendPaths

/-!
When the overrides of the `send` command say what they are to say.

What is escaped is safe but for control characters, and the keys of the metadata
are checked. The URL, the duration, the headers and the run type are written as
they are: what they say is theirs if they are plain, and otherwise a string that
they end is followed by whatever they go on with (`forged_option`).
-/

namespace CdvizCollector.Tools.Send

open Lib Lib.Toml

/-- Everything that is written into the sink's options as it is can be. -/
structure PlainSink (args : SendArgs) (url : String) : Prop where
  url : Plain url
  duration : ∀ duration ∈ args.totalDurationOfRetries, Plain duration
  headers : ∀ option ∈ args.headerOptions,
    isBareKey (Text.trim option.1) = true ∧ Plain (Text.trim option.2)

/-- With a URL, that is; the other arguments of the sink are not used without. -/
def SendArgs.PlainSinks (args : SendArgs) : Prop := ∀ url ∈ args.url, PlainSink args url

structure SafeArgs (args : SendArgs) : Prop where
  sinks : args.PlainSinks
  headersOnce : args.HeadersOnce
  data : Escapable ("\n".intercalate args.data)
  metadata : ∀ option ∈ args.metadataOptions, Escapable option.2
  metadataOnce : (args.metadataOptions.map fun option => Text.trim option.1).Nodup

structure SafeRunArgs (args : SendArgs) (runType : String) : Prop where
  sinks : args.PlainSinks
  headersOnce : args.HeadersOnce
  bareRunType : isBareKey runType = true
  runType : runType ≠ "cli"
  command : ∀ arg ∈ args.command, JsonEscapable arg
  data : ∀ arg ∈ args.data, JsonEscapable arg
  metadata : ∀ option ∈ args.metadataOptions, Escapable option.2

theorem barePath_iff {path : List String} :
    BarePath path ↔ path ≠ [] ∧ path.all isBareKey = true := by
  rw [BarePath, List.all_eq_true]

/-- What is written as it is opens no multi-line string, and the keys are bare. -/
structure ReadableSink (args : SendArgs) (url : String) : Prop where
  url : opensMultiline url = false
  duration : ∀ duration ∈ args.totalDurationOfRetries, opensMultiline duration = false
  headers : ∀ option ∈ args.headerOptions,
    isBareKey (Text.trim option.1) = true ∧ opensMultiline (Text.trim option.2) = false

def SendArgs.ReadableSinks (args : SendArgs) : Prop := ∀ url ∈ args.url, ReadableSink args url

theorem SendArgs.PlainSinks.readable {args : SendArgs} (h : args.PlainSinks) :
    args.ReadableSinks := by
  intro url hurl
  have hplain := h url hurl
  exact {
    url := opensMultiline_of_plain hplain.url
    duration := fun duration hduration =>
      opensMultiline_of_plain (hplain.duration duration hduration)
    headers := fun option hoption =>
      ⟨(hplain.headers option hoption).1,
        opensMultiline_of_plain (hplain.headers option hoption).2⟩ }

theorem barePath_header {key last : String} (hkey : isBareKey key = true)
    (hlast : isBareKey last = true) : BarePath ["sinks", "http", "headers", key, last] := by
  rw [barePath_iff]
  refine ⟨by simp, ?_⟩
  simp only [List.all_cons, hkey, hlast, List.all_nil, Bool.and_true]
  decide

theorem forall_mem_sinkOverrides {args : SendArgs} {P : Override → Prop} :
    (∀ o ∈ sinkOverrides args, P o) ↔
      (∀ url ∈ args.url, P (flag ["sinks", "http", "enabled"] true) ∧
        P (verbatim ["sinks", "http", "destination"] url) ∧
        P (flag ["sinks", "debug", "enabled"] false) ∧
        (∀ duration ∈ args.totalDurationOfRetries,
          P (verbatim ["sinks", "http", "total_duration_of_retries"] duration)) ∧
        ∀ option ∈ args.headerOptions,
          P (verbatim ["sinks", "http", "headers", Text.trim option.1, "type"] "static") ∧
          P (verbatim ["sinks", "http", "headers", Text.trim option.1, "value"]
            (Text.trim option.2))) ∧
      (args.logFullResponseOnError = true →
        P (flag ["sinks", "http", "log_full_response_on_error"] true)) := by
  unfold sinkOverrides
  rw [List.forall_mem_append]
  refine and_congr ?_ ?_
  · cases args.url with
    | none => simp
    | some url =>
        simp only [List.forall_mem_append, List.forall_mem_cons, List.forall_mem_map,
          List.mem_flatMap, forall_exists_index, and_imp, List.not_mem_nil, false_imp_iff,
          implies_true, and_true, Option.mem_toList, Option.mem_some_iff, forall_eq', and_assoc]
        refine and_congr_right fun _ => and_congr_right fun _ => and_congr_right fun _ =>
          and_congr_right fun _ => ?_
        rw [forall_comm]
        refine forall_congr' fun option => ?_
        rw [forall_comm]
        exact forall_congr' fun hoption => by
          simp only [List.mem_cons, List.not_mem_nil, or_false, forall_eq_or_imp, forall_eq]
  · cases args.logFullResponseOnError <;> simp

section Sinks

variable {args : SendArgs} (hreadable : args.ReadableSinks)

include hreadable

theorem sinkOverrides_denotes_iff :
    (∀ o ∈ sinkOverrides args, o.Denotes) ↔ args.PlainSinks := by
  have hflag : ∀ rest : List String, rest.all isBareKey = true → ∀ b : Bool,
      (flag ("sinks" :: rest) b).Denotes := fun rest hrest b =>
    flag_denotes ⟨by simp, List.forall_mem_cons.mpr ⟨by decide, List.all_eq_true.mp hrest⟩⟩ b
  have henabled := hflag ["http", "enabled"] (by decide) true
  have hdebug := hflag ["debug", "enabled"] (by decide) false
  have hlog := hflag ["http", "log_full_response_on_error"] (by decide) true
  rw [forall_mem_sinkOverrides]
  simp only [henabled, hdebug, hlog, true_and, implies_true, and_true]
  refine forall₂_congr fun url hurl => ?_
  have hstatic : Plain "static" := by decide
  have hheaders : ∀ option ∈ args.headerOptions,
      ((verbatim ["sinks", "http", "headers", Text.trim option.1, "type"] "static").Denotes ∧
        (verbatim ["sinks", "http", "headers", Text.trim option.1, "value"]
          (Text.trim option.2)).Denotes ↔
        isBareKey (Text.trim option.1) = true ∧ Plain (Text.trim option.2)) := by
    intro option hoption
    obtain ⟨hkey, -⟩ := (hreadable url hurl).headers option hoption
    rw [verbatim_denotes_iff (barePath_header hkey (by decide)),
      verbatim_denotes_iff (barePath_header hkey (by decide))]
    exact and_congr_left fun _ => iff_of_true hstatic hkey
  have hduration : BarePath ["sinks", "http", "total_duration_of_retries"] :=
    barePath_iff.mpr (by decide)
  simp only [verbatim_denotes_iff hduration]
  rw [verbatim_denotes_iff (barePath_iff.mpr (by decide)), forall₂_congr hheaders]
  exact ⟨fun h => ⟨h.1, h.2.1, h.2.2⟩, fun h => ⟨h.url, h.duration, h.headers⟩⟩

theorem sinkOverrides_attempts : ∀ o ∈ sinkOverrides args, o.Attempts := by
  have hflag : ∀ rest : List String, rest.all isBareKey = true → ∀ b : Bool,
      (flag ("sinks" :: rest) b).Attempts := fun rest hrest b =>
    .inl (flag_denotes
      ⟨by simp, List.forall_mem_cons.mpr ⟨by decide, List.all_eq_true.mp hrest⟩⟩ b)
  rw [forall_mem_sinkOverrides]
  refine ⟨fun url hurl => ?_, fun _ => hflag _ (by decide) _⟩
  have hsink := hreadable url hurl
  refine ⟨hflag _ (by decide) _, verbatim_attempts (barePath_iff.mpr (by decide)) hsink.url,
    hflag _ (by decide) _, fun duration hduration => ?_, fun option hoption => ?_⟩
  · exact verbatim_attempts (barePath_iff.mpr (by decide)) (hsink.duration duration hduration)
  · obtain ⟨hkey, hvalue⟩ := hsink.headers option hoption
    exact ⟨verbatim_attempts (barePath_header hkey (by decide)) (by decide),
      verbatim_attempts (barePath_header hkey (by decide)) hvalue⟩

end Sinks

theorem parserName_plain (parser : ParserSelection) : Plain parser.name := by
  cases parser <;> decide

theorem barePath_concat {path : List String} (hpath : BarePath path) {key : String}
    (hkey : isBareKey key = true) : BarePath (path ++ [key]) :=
  ⟨by simp, List.forall_mem_append.mpr ⟨hpath.2, List.forall_mem_singleton.mpr hkey⟩⟩

section Cli

variable {args : SendArgs} (hreadable : args.ReadableSinks) (hkeys : args.ValidKeys)

theorem barePath_metadata {key : String} (hkey : isBareKey key = true) :
    BarePath ["sources", "cli", "extractor", "metadata", key] := by
  have hpath : BarePath ["sources", "cli", "extractor", "metadata"] := barePath_iff.mpr (by decide)
  exact barePath_concat hpath hkey

include hreadable hkeys

theorem overrides_denotes_iff :
    (∀ o ∈ overrides args, o.Denotes) ↔ (Escapable ("\n".intercalate args.data) ∧
      ∀ option ∈ args.metadataOptions, Escapable option.2) ∧ args.PlainSinks := by
  have hparser : (verbatim ["sources", "cli", "extractor", "parser"] args.parser.name).Denotes :=
    (verbatim_denotes_iff (barePath_iff.mpr (by decide)) _).mpr (parserName_plain args.parser)
  have hpath : BarePath ["sources", "cli", "extractor", "data"] := barePath_iff.mpr (by decide)
  have hdata := escaped_denotes_iff hpath ("\n".intercalate args.data)
  have hmetadata : (∀ option ∈ args.metadataOptions, (metadataOption option).Denotes) ↔
      ∀ option ∈ args.metadataOptions, Escapable option.2 :=
    forall₂_congr fun option hoption =>
      escaped_denotes_iff (barePath_metadata (hkeys option hoption)) option.2
  simp only [overrides, List.forall_mem_append, List.forall_mem_cons, List.forall_mem_map, hparser,
    hdata, hmetadata, sinkOverrides_denotes_iff hreadable, List.not_mem_nil, false_imp_iff,
    implies_true, and_true]

theorem overrides_attempts : ∀ o ∈ overrides args, o.Attempts := by
  simp only [overrides, List.forall_mem_append, List.forall_mem_cons, List.forall_mem_map]
  refine ⟨⟨⟨?_, ?_, by simp⟩, ?_⟩, sinkOverrides_attempts hreadable⟩
  · exact escaped_attempts (barePath_iff.mpr (by decide)) _
  · exact verbatim_attempts (barePath_iff.mpr (by decide))
      (opensMultiline_of_plain (parserName_plain args.parser))
  · exact fun option hoption =>
      escaped_attempts (barePath_metadata (hkeys option hoption)) option.2

end Cli

section Run

variable {args : SendArgs} {runType : String} (hreadable : args.ReadableSinks)
  (hrun : isBareKey runType = true)

theorem SendArgs.validKeys_iff :
    args.ValidKeys ↔ ∀ group ∈ metaMap args.metadataOptions, isBareKey group.1 = true := by
  have hgroups := (metaMap_groups args.metadataOptions).keys
  constructor
  · intro h group hgroup
    obtain ⟨option, hoption, hkey⟩ := (hgroups group.1).mp (List.mem_map_of_mem hgroup)
    exact hkey ▸ h option hoption
  · intro h option hoption
    obtain ⟨group, hgroup, hkey⟩ := List.mem_map.mp ((hgroups _).mpr ⟨option, hoption, rfl⟩)
    exact hkey ▸ h group hgroup

theorem forall_values_iff (P : String → Prop) :
    (∀ group ∈ metaMap args.metadataOptions, ∀ v ∈ group.2, P v) ↔
      ∀ option ∈ args.metadataOptions, P option.2 := by
  have hgroups := (metaMap_groups args.metadataOptions).values
  constructor
  · intro h option hoption
    obtain ⟨values, hgroup, hv⟩ :=
      (hgroups (Text.trim option.1) option.2).mpr ⟨option, hoption, rfl, rfl⟩
    exact h _ hgroup _ hv
  · rintro h ⟨k, values⟩ hgroup v hv
    obtain ⟨option, hoption, -, rfl⟩ := (hgroups k v).mp ⟨values, hgroup, hv⟩
    exact h option hoption

include hrun

theorem barePath_run {rest : List String} (hrest : rest.all isBareKey = true) :
    BarePath ("sources" :: runType :: rest) := by
  refine ⟨by simp, List.forall_mem_cons.mpr ⟨by decide, List.forall_mem_cons.mpr ⟨hrun, ?_⟩⟩⟩
  exact List.all_eq_true.mp hrest

theorem barePath_runMetadata {key : String} (hkey : isBareKey key = true) :
    BarePath (metadataPath runType key) := by
  have hpath : BarePath ["sources", runType, "extractor", "metadata", "run", "overrides"] :=
    barePath_run hrun (by decide)
  exact barePath_concat hpath hkey

theorem runFlag_denotes (rest : List String) (hrest : rest.all isBareKey = true) (b : Bool) :
    (flag ("sources" :: runType :: rest) b).Denotes :=
  flag_denotes (barePath_run hrun hrest) b

theorem runList_denotes_iff (rest : List String) (hrest : rest.all isBareKey = true)
    (values : List String) :
    (∀ o ∈ if values = [] then [] else [jsonList ("sources" :: runType :: rest) values],
      o.Denotes) ↔ ∀ value ∈ values, JsonEscapable value := by
  split
  · rename_i hnil
    simp [hnil]
  · rw [List.forall_mem_singleton]
    exact jsonList_denotes_iff (barePath_run hrun hrest) values

theorem runOptions_denotes_iff :
    (∀ o ∈ runOptions args runType, o.Denotes) ↔
      (∀ arg ∈ args.command, JsonEscapable arg) ∧ ∀ arg ∈ args.data, JsonEscapable arg := by
  have hcli : (flag ["sources", "cli", "enabled"] false).Denotes :=
    flag_denotes (barePath_iff.mpr (by decide)) false
  have hflag : ∀ (rest : List String) (given : Bool), rest.all isBareKey = true →
      ∀ o ∈ if given then [flag ("sources" :: runType :: rest) true] else [], o.Denotes := by
    intro rest given hrest
    split
    · exact List.forall_mem_singleton.mpr (runFlag_denotes hrun rest hrest true)
    · simp
  have hcommand := runList_denotes_iff hrun ["extractor", "command"] (by decide) args.command
  have hdata := runList_denotes_iff hrun ["extractor", "data_globs"] (by decide) args.data
  have hnoData := hflag ["extractor", "no_data"] args.noData (by decide)
  have hfail := hflag ["extractor", "fail_on_collector_error"] args.failOnCollectorError
    (by decide)
  simp only [runOptions, List.forall_mem_append, hcommand, hdata]
  constructor
  · rintro ⟨⟨⟨⟨-, hcommand⟩, hdata⟩, -⟩, -⟩
    exact ⟨hcommand, hdata⟩
  · rintro ⟨hcommand, hdata⟩
    refine ⟨⟨⟨⟨?_, hcommand⟩, hdata⟩, hnoData⟩, hfail⟩
    exact List.forall_mem_cons.mpr
      ⟨runFlag_denotes hrun _ (by decide) _, List.forall_mem_singleton.mpr hcli⟩

theorem runOptions_attempts : ∀ o ∈ runOptions args runType, o.Attempts := by
  have hcli : (flag ["sources", "cli", "enabled"] false).Attempts :=
    .inl (flag_denotes (barePath_iff.mpr (by decide)) false)
  have hflag : ∀ (rest : List String) (b : Bool), rest.all isBareKey = true →
      (flag ("sources" :: runType :: rest) b).Attempts :=
    fun rest b hrest => .inl (runFlag_denotes hrun rest hrest b)
  intro o ho
  simp only [runOptions, List.mem_append, List.mem_cons, List.not_mem_nil, or_false,
    List.mem_ite_nil_left, List.mem_ite_nil_right] at ho
  rcases ho with ((((rfl | rfl) | ⟨-, rfl⟩) | ⟨-, rfl⟩) | ⟨-, rfl⟩) | ⟨-, rfl⟩
  · exact hflag _ _ (by decide)
  · exact hcli
  · exact jsonList_attempts (barePath_run hrun (by decide)) _
  · exact jsonList_attempts (barePath_run hrun (by decide)) _
  · exact hflag _ _ (by decide)
  · exact hflag _ _ (by decide)

include hreadable

theorem runOverrides_denotes_iff (hkeys : args.ValidKeys) :
    (∀ o ∈ runOverrides args runType, o.Denotes) ↔
      (((∀ arg ∈ args.command, JsonEscapable arg) ∧ ∀ arg ∈ args.data, JsonEscapable arg) ∧
        ∀ option ∈ args.metadataOptions, Escapable option.2) ∧ args.PlainSinks := by
  rw [SendArgs.validKeys_iff] at hkeys
  have hmetadata : (∀ group ∈ metaMap args.metadataOptions,
      (metadataOverride runType group).Denotes) ↔
        ∀ option ∈ args.metadataOptions, Escapable option.2 := by
    rw [← forall_values_iff Escapable]
    exact forall₂_congr fun group hgroup =>
      metadataOverride_denotes_iff (barePath_runMetadata hrun (hkeys group hgroup))
  simp only [runOverrides, List.forall_mem_append, List.forall_mem_map, hmetadata,
    runOptions_denotes_iff hrun, sinkOverrides_denotes_iff hreadable]

theorem runOverrides_attempts (hkeys : args.ValidKeys) :
    ∀ o ∈ runOverrides args runType, o.Attempts := by
  rw [SendArgs.validKeys_iff] at hkeys
  simp only [runOverrides, List.forall_mem_append, List.forall_mem_map]
  refine ⟨⟨runOptions_attempts hrun, fun group hgroup => ?_⟩, sinkOverrides_attempts hreadable⟩
  exact metadataOverride_attempts (barePath_runMetadata hrun (hkeys group hgroup))

end Run

/-! ### What is parsed -/

/-- If the arguments are converted, the text is parsed to the entries, in some order. -/
def Intended (parse : String → Option Document) (converted : Except SendError String)
    (entries : Document) : Prop :=
  ∀ written, converted = .ok written → ∃ doc, parse written = some doc ∧ doc.Perm entries

section Parsed

variable {parse : String → Option Document} (hparse : Parser parse) {args : SendArgs}

include hparse

/-- What is converted to the text of overrides says them, wherever they are written
without being escaped, exactly when they are spelled well and not in conflict. -/
theorem intended_iff_denotes {converted : Except SendError String} {accepted : Prop}
    {os : List Override}
    (hconverted : ∀ written, converted = .ok written ↔
      accepted ∧ text (os.map Override.line) = written)
    (hattempts : accepted → ∀ o ∈ os, o.Attempts) :
    Intended parse converted (os.map Override.entry) ↔
      (accepted → (∀ o ∈ os, o.Denotes) ∧ PrefixFree (os.map Override.path)) := by
  simp only [Intended, hconverted]
  constructor
  · intro h haccepted
    exact (parses_overrides_iff hparse (hattempts haccepted)).mp (h _ ⟨haccepted, rfl⟩)
  · rintro h written ⟨haccepted, rfl⟩
    exact (parses_overrides_iff hparse (hattempts haccepted)).mpr (h haccepted)

theorem intended_iff (hreadable : args.ReadableSinks) :
    Intended parse (convertArgsIntoToml args) ((overrides args).map Override.entry) ↔
      (args.ValidKeys → SafeArgs args) := by
  rw [intended_iff_denotes hparse (fun _ => convertArgsIntoToml_eq_ok_iff)
    (overrides_attempts hreadable)]
  refine forall_congr' fun hkeys => ?_
  rw [overrides_denotes_iff hreadable hkeys, prefixFree_overrides]
  constructor
  · rintro ⟨⟨⟨hdata, hmetadata⟩, hsinks⟩, honce, hheaders⟩
    exact ⟨hsinks, hheaders, hdata, hmetadata, honce⟩
  · intro h
    exact ⟨⟨⟨h.data, h.metadata⟩, h.sinks⟩, h.metadataOnce, h.headersOnce⟩

theorem runIntended_iff (hreadable : args.ReadableSinks) {runType : String}
    (hrun : isBareKey runType = true) :
    Intended parse (convertRunArgsIntoToml args runType)
        ((runOverrides args runType).map Override.entry) ↔
      (args.ValidKeys → SafeRunArgs args runType) := by
  have hconverted : ∀ written, convertRunArgsIntoToml args runType = .ok written ↔
      args.ValidKeys ∧ text ((runOverrides args runType).map Override.line) = written := by
    intro written
    rw [SendArgs.validKeys_iff]
    exact convertRunArgsIntoToml_eq_ok_iff
  rw [intended_iff_denotes hparse hconverted (runOverrides_attempts hreadable hrun)]
  refine forall_congr' fun hkeys => ?_
  rw [runOverrides_denotes_iff hreadable hrun hkeys, prefixFree_runOverrides]
  constructor
  · rintro ⟨⟨⟨⟨hcommand, hdata⟩, hmetadata⟩, hsinks⟩, hcli, hheaders⟩
    exact ⟨hsinks, hheaders, hrun, hcli, hcommand, hdata, hmetadata⟩
  · intro h
    exact ⟨⟨⟨⟨h.command, h.data⟩, h.metadata⟩, h.sinks⟩, h.runType, h.headersOnce⟩

end Parsed

/-- Whatever parses the text, it says the options and no more if they are safe;
and where what is written as it is can be read as a string on its line, only then. -/
theorem overrides_say_the_options {parse : String → Option Document} (hparse : Parser parse)
    (args : SendArgs) :
    ((args.ValidKeys → SafeArgs args) →
      Intended parse (convertArgsIntoToml args) ((overrides args).map Override.entry)) ∧
    (args.ReadableSinks →
      Intended parse (convertArgsIntoToml args) ((overrides args).map Override.entry) →
        args.ValidKeys → SafeArgs args) ∧
    ∀ runType,
      ((args.ValidKeys → SafeRunArgs args runType) →
        Intended parse (convertRunArgsIntoToml args runType)
          ((runOverrides args runType).map Override.entry)) ∧
      (args.ReadableSinks → isBareKey runType = true →
        Intended parse (convertRunArgsIntoToml args runType)
          ((runOverrides args runType).map Override.entry) →
        args.ValidKeys → SafeRunArgs args runType) := by
  refine ⟨?_, fun hreadable => (intended_iff hparse hreadable).mp, fun runType => ⟨?_,
    fun hreadable hrun => (runIntended_iff hparse hreadable hrun).mp⟩⟩
  · intro h written hwritten
    obtain ⟨hkeys, -⟩ := convertArgsIntoToml_eq_ok_iff.mp hwritten
    exact (intended_iff hparse (h hkeys).sinks.readable).mpr h written hwritten
  · intro h written hwritten
    obtain ⟨hkeys, -⟩ := convertRunArgsIntoToml_eq_ok_iff.mp hwritten
    rw [← SendArgs.validKeys_iff] at hkeys
    have hsafe := h hkeys
    exact (runIntended_iff hparse hsafe.sinks.readable hsafe.bareRunType).mpr h written hwritten

/-- Arguments with all that is escaped: quotes, a line end, a tab and a trailing backslash. -/
def sampleArgs : SendArgs where
  data := ["say \"a\\\\b\"", "\tsecond line "]
  url := some "https://cdviz.example.com/webhook"
  totalDurationOfRetries := some "1m"
  headers := ["Authorization: Bearer t", "passed over"]
  parser := .jsonl
  noData := true
  metadata := ["env=prod", "note = say \"hi\"\nagain\\ "]
  failOnCollectorError := false
  logFullResponseOnError := true
  command := ["sh", "-c", "echo \"a\tb\""]

theorem sampleArgs_plainSinks : sampleArgs.PlainSinks := by
  rintro url ⟨⟩
  constructor
  · decide
  · rintro duration ⟨⟩
    decide
  · decide

theorem sampleArgs_safe : SafeArgs sampleArgs where
  sinks := sampleArgs_plainSinks
  headersOnce := by unfold SendArgs.HeadersOnce; decide
  data := by decide
  metadata := by decide
  metadataOnce := by decide

theorem sampleArgs_safeRun : SafeRunArgs sampleArgs "taprun" where
  sinks := sampleArgs_plainSinks
  headersOnce := by unfold SendArgs.HeadersOnce; decide
  bareRunType := by decide
  runType := by decide
  command := by unfold JsonEscapable; decide
  data := by unfold JsonEscapable; decide
  metadata := by decide

theorem overrides_say_the_options_sample :
    Intended parse (convertArgsIntoToml sampleArgs) ((overrides sampleArgs).map Override.entry) ∧
    Intended parse (convertRunArgsIntoToml sampleArgs "taprun")
      ((runOverrides sampleArgs "taprun").map Override.entry) ∧
    SafeArgs sampleArgs ∧ SafeRunArgs sampleArgs "taprun" := by
  obtain ⟨hsafe, hneeded, hrun⟩ := overrides_say_the_options parse_isParser sampleArgs
  obtain ⟨hsafeRun, hneededRun⟩ := hrun "taprun"
  have hkeys : sampleArgs.ValidKeys := by unfold SendArgs.ValidKeys; decide
  have hcli := hsafe fun _ => sampleArgs_safe
  have htaprun := hsafeRun fun _ => sampleArgs_safeRun
  have hreadable := sampleArgs_plainSinks.readable
  exact ⟨hcli, htaprun, hneeded hreadable hcli hkeys,
    hneededRun hreadable (by decide) htaprun hkeys⟩

/-! ### A forged option -/

/-- The duration ends its string and sets a metadata key on a line of its own. -/
def forgingArgs : SendArgs where
  data := []
  url := some "https://cdviz.example.com/webhook"
  totalDurationOfRetries := some "1m\"\nsources.cli.extractor.metadata.forged = \"x"
  headers := []
  parser := .auto
  noData := false
  metadata := []
  failOnCollectorError := false
  logFullResponseOnError := false
  command := []

/-- What is said before the duration. -/
def unforgedOverrides : List Override :=
  [escaped ["sources", "cli", "extractor", "data"] "",
    verbatim ["sources", "cli", "extractor", "parser"] "auto",
    flag ["sinks", "http", "enabled"] true,
    verbatim ["sinks", "http", "destination"] "https://cdviz.example.com/webhook",
    flag ["sinks", "debug", "enabled"] false]

def forgedOverrides : List Override :=
  [verbatim ["sinks", "http", "total_duration_of_retries"] "1m",
    verbatim ["sources", "cli", "extractor", "metadata", "forged"] "x"]

/-- The string of the duration is closed by the duration, and a line follows. -/
theorem forged_text :
    (verbatim ["sinks", "http", "total_duration_of_retries"]
      "1m\"\nsources.cli.extractor.metadata.forged = \"x").line.text =
      text (forgedOverrides.map Override.line) := by
  decide

theorem overrides_forgingArgs : overrides forgingArgs =
    unforgedOverrides ++ [verbatim ["sinks", "http", "total_duration_of_retries"]
      "1m\"\nsources.cli.extractor.metadata.forged = \"x"] := by
  rfl

theorem convert_forgingArgs : convertArgsIntoToml forgingArgs =
    .ok (text ((unforgedOverrides ++ forgedOverrides).map Override.line)) := by
  rw [convertArgsIntoToml_eq_ok_iff]
  refine ⟨by unfold SendArgs.ValidKeys; decide, ?_⟩
  rw [overrides_forgingArgs, List.map_append, List.map_append, text_append, text_append,
    ← forged_text]
  simp [Override.line, text]

/-- No parser finds the options, and only them, in what is written then. -/
theorem forged_option : ¬∃ parse, Parser parse ∧
    Intended parse (convertArgsIntoToml forgingArgs)
      ((overrides forgingArgs).map Override.entry) := by
  rintro ⟨parse, hparse, hintended⟩
  obtain ⟨doc, hdoc, hperm⟩ := hintended _ convert_forgingArgs
  have hdenotes : ∀ o ∈ unforgedOverrides ++ forgedOverrides, o.Denotes := by
    have hurl : Plain "https://cdviz.example.com/webhook" := by decide
    simp only [unforgedOverrides, forgedOverrides, List.forall_mem_append, List.forall_mem_cons]
    refine ⟨⟨?_, ?_, ?_, ?_, ?_, by simp⟩, ?_, ?_, by simp⟩
    · exact (escaped_denotes_iff (barePath_iff.mpr (by decide)) _).mpr (by decide)
    · exact (verbatim_denotes_iff (barePath_iff.mpr (by decide)) _).mpr (parserName_plain .auto)
    · exact flag_denotes (barePath_iff.mpr (by decide)) _
    · exact (verbatim_denotes_iff (barePath_iff.mpr (by decide)) _).mpr hurl
    · exact flag_denotes (barePath_iff.mpr (by decide)) _
    · exact (verbatim_denotes_iff (barePath_iff.mpr (by decide)) _).mpr (by decide)
    · exact (verbatim_denotes_iff (barePath_iff.mpr (by decide)) _).mpr (by decide)
  obtain ⟨doc', hdoc', hperm'⟩ := (parses_overrides_iff hparse fun o ho => .inl (hdenotes o ho)).mpr
    ⟨hdenotes, by decide⟩
  rw [hdoc] at hdoc'
  cases hdoc'
  have hlength := hperm.length_eq.symm.trans hperm'.length_eq
  rw [overrides_forgingArgs] at hlength
  exact absurd hlength (by decide)

end CdvizCollector.Tools.Send
