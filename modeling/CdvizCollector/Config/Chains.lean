import CdvizCollector.Lib.HashMap
import CdvizCollector.Sources.QueueDepth
import CdvizCollector.Transformers.Chain

/-!
From the configuration to the chains that run (`config/mod.rs`, `tools/config.rs`).

The builder looks up the transformers that chains refer to, and puts those of the
pipeline at the end of the chain of each source. The check then compiles each
transformer it finds; a start compiles the chains of what is enabled. What a start
does besides (to open a database, to listen, ...) is left out.
-/

namespace CdvizCollector

namespace Config

open Lib Transformers

/-! ### The configuration -/

/-- `sources::Config`. -/
structure SourceConfig (ξ : Type) where
  enabled : Bool
  extractor : ξ
  chain : TransformerChainConfig

/-- `sinks::Config`; of the settings of a sink only its chain. -/
inductive SinkConfig where
  | clickhouse (enabled : Bool)
  | db (enabled : Bool)
  | debug (enabled : Bool) (chain : TransformerChainConfig)
  | http (enabled : Bool) (chain : TransformerChainConfig)
  | kafka (enabled : Bool)
  | nats (enabled : Bool)
  | otel (enabled : Bool)
  | folder (enabled : Bool)
  | sse (enabled : Bool)

structure PipelineConfig where
  queueCapacity : ℕ
  transformerRefs : List String
  transformers : List NamedConfig

end Config

open Transformers Sources

/-- `config::Config`, as far as chains go. -/
structure Config (ξ : Type) where
  sources : Lib.HashMap (Config.SourceConfig ξ)
  sinks : Lib.HashMap Config.SinkConfig
  transformers : Lib.HashMap Transformers.Config
  pipeline : Config.PipelineConfig

namespace Config

open Lib

variable {ξ : Type}

namespace SourceConfig

def resolveTransformers (configs : List (String × Transformers.Config))
    (source : SourceConfig ξ) : Except TransformerNotFound (SourceConfig ξ) := do
  let chain ← source.chain.resolve configs
  return { source with chain }

def appendTransformers (extra : List NamedConfig) (source : SourceConfig ξ) : SourceConfig ξ :=
  { source with chain := source.chain.append extra }

end SourceConfig

namespace SinkConfig

/-- The other kinds have no chain, and ignore one. -/
def resolveTransformers (configs : List (String × Transformers.Config)) :
    SinkConfig → Except TransformerNotFound SinkConfig
  | .debug enabled chain => do
      let chain ← chain.resolve configs
      return .debug enabled chain
  | .http enabled chain => do
      let chain ← chain.resolve configs
      return .http enabled chain
  | sink => .ok sink

def chainTransformers : SinkConfig → List NamedConfig
  | .debug _ chain => chain.transformers
  | .http _ chain => chain.transformers
  | _ => []

def isEnabled : SinkConfig → Bool
  | .clickhouse enabled => enabled
  | .db enabled => enabled
  | .debug enabled _ => enabled
  | .http enabled _ => enabled
  | .kafka enabled => enabled
  | .nats enabled => enabled
  | .otel enabled => enabled
  | .folder enabled => enabled
  | .sse enabled => enabled

end SinkConfig

/-- `ConfigBuilder::build`, from the extracted configuration on. -/
def resolveChains (config : Config ξ) : Except TransformerNotFound (Config ξ) := do
  let configs := config.transformers.entries
  let sources ← config.sources.tryForEach (SourceConfig.resolveTransformers configs)
  let sinks ← config.sinks.tryForEach (SinkConfig.resolveTransformers configs)
  let global ← resolveTransformerRefsNamed config.pipeline.transformerRefs configs
  let sources :=
    if global.isEmpty then sources
    else sources.forEach (SourceConfig.appendTransformers global)
  return { config with sources, sinks, pipeline := { config.pipeline with transformers := global } }

/-! ### The check -/

/-- One transformer on its own. `render` is the `Debug` form of a report. -/
def tryCompile (compile : Compiler) (render : String → String) (label : String)
    (config : Transformers.Config) : List String :=
  match config.makeTransformer compile with
  | .ok _ => []
  | .error e => [label ++ ": " ++ render e]

/-- The transformers of a chain, with their positions. -/
def tryCompileChain (compile : Compiler) (render : String → String) (label : String)
    (configs : List NamedConfig) : List String :=
  configs.zipIdx.flatMap fun entry =>
    tryCompile compile render (label ++ " [" ++ toString entry.2 ++ "]") entry.1.config

/-- What `config --check` finds to report. -/
def compileErrors (compile : Compiler) (render : String → String) (config : Config ξ) :
    List String :=
  (config.transformers.names.flatMap fun name =>
    (config.transformers.get name).elim [] fun transformer =>
      tryCompile compile render ("transformer '" ++ name ++ "'") transformer) ++
  tryCompileChain compile render "pipeline transformer" config.pipeline.transformers ++
  (config.sources.names.flatMap fun name =>
    (config.sources.get name).elim [] fun source =>
      tryCompileChain compile render ("source '" ++ name ++ "' transformer")
        source.chain.transformers) ++
  (config.sinks.names.flatMap fun name =>
    (config.sinks.get name).elim [] fun sink =>
      tryCompileChain compile render ("sink '" ++ name ++ "' transformer") sink.chainTransformers)

/-! ### The start -/

/-- What `sources::make` gives to the extractor. -/
structure SourcePipe where
  name : String
  terminal : Processor
  stages : List Stage

/-- `sources::make`, up to the extractor. `sourceUrl` appends the name of the source
to the root URL as a query. -/
def make (compile : Compiler) (sourceUrl : String → String) (supportsBackpressure : ξ → Bool)
    (queueCapacity : ℕ) (name : String) (source : SourceConfig ξ) : Except String SourcePipe := do
  let highWatermark := if supportsBackpressure source.extractor then some queueCapacity else none
  let stages ← buildTransformerChain compile source.chain.transformers
  return { name, terminal := .new (sourceUrl name) highWatermark, stages }

def createSources (compile : Compiler) (sourceUrl : String → String)
    (supportsBackpressure : ξ → Bool) (config : Config ξ) : Except String (List SourcePipe) :=
  (config.sources.entries.filter fun entry => entry.2.enabled).mapM fun entry =>
    make compile sourceUrl supportsBackpressure config.pipeline.queueCapacity entry.1 entry.2

/-- `create_sinks_and_routes`, the chains of the sinks alone. -/
def createSinks (compile : Compiler) (config : Config ξ) :
    Except String (List (String × List Stage)) :=
  (config.sinks.entries.filter fun entry => entry.2.isEnabled).mapM fun entry => do
    let stages ← buildTransformerChain compile entry.2.chainTransformers
    return (entry.1, stages)

/-! ### What the builder does to chains -/

/-- The names that a sink refers to. -/
def SinkConfig.transformerRefs : SinkConfig → List String
  | .debug _ chain => chain.transformerRefs
  | .http _ chain => chain.transformerRefs
  | _ => []

/-- What is referred to and is not in the pool, in the order of the builder. -/
def notFound (config : Config ξ) : List TransformerNotFound :=
  (config.sources.entries.flatMap fun entry =>
    missing config.transformers.entries entry.2.chain.transformerRefs) ++
  ((config.sinks.entries.flatMap fun entry =>
    missing config.transformers.entries entry.2.transformerRefs) ++
  missing config.transformers.entries config.pipeline.transformerRefs)

def SourceConfig.resolved (configs : List (String × Transformers.Config))
    (source : SourceConfig ξ) : SourceConfig ξ :=
  { source with chain := source.chain.resolved configs }

def SinkConfig.resolved (configs : List (String × Transformers.Config)) :
    SinkConfig → SinkConfig
  | .debug enabled chain => .debug enabled (chain.resolved configs)
  | .http enabled chain => .http enabled (chain.resolved configs)
  | sink => sink

/-- The configuration with its chains resolved. -/
def resolved (config : Config ξ) : Config ξ :=
  let configs := config.transformers.entries
  let global := config.pipeline.transformerRefs.map (named configs)
  { config with
    sources := (config.sources.forEach (SourceConfig.resolved configs)).forEach
      (SourceConfig.appendTransformers global)
    sinks := config.sinks.forEach (SinkConfig.resolved configs)
    pipeline := { config.pipeline with transformers := global } }

theorem SourceConfig.resolveTransformers_eq (configs : List (String × Transformers.Config))
    (source : SourceConfig ξ) :
    source.resolveTransformers configs =
      failFirst (missing configs source.chain.transformerRefs) (source.resolved configs) := by
  rw [SourceConfig.resolveTransformers, TransformerChainConfig.resolve_eq]
  exact failFirst_map

theorem SinkConfig.resolveTransformers_eq (configs : List (String × Transformers.Config))
    (sink : SinkConfig) :
    sink.resolveTransformers configs =
      failFirst (missing configs sink.transformerRefs) (sink.resolved configs) := by
  cases sink with
  | debug enabled chain | http enabled chain =>
      rw [SinkConfig.resolveTransformers, TransformerChainConfig.resolve_eq]
      exact failFirst_map
  | clickhouse | db | kafka | nats | otel | folder | sse => rfl

theorem HashMap.forEach_append_nil (map : Lib.HashMap (SourceConfig ξ)) :
    map.forEach (SourceConfig.appendTransformers []) = map := by
  ext
  simp [Lib.HashMap.forEach, SourceConfig.appendTransformers, TransformerChainConfig.append]

theorem resolveChains_eq (config : Config ξ) :
    resolveChains config = failFirst (notFound config) (resolved config) := by
  rw [resolveChains, HashMap.tryForEach_failFirst (SourceConfig.resolveTransformers_eq _),
    notFound]
  refine failFirst_bind (f := fun _ => resolved config) ?_
  rw [HashMap.tryForEach_failFirst (SinkConfig.resolveTransformers_eq _)]
  refine failFirst_bind (f := fun _ => resolved config) ?_
  rw [resolveTransformerRefsNamed_eq, failFirst_map]
  congr 1
  rw [resolved]
  by_cases hglobal : config.pipeline.transformerRefs = []
  · simp only [hglobal, List.map_nil, List.isEmpty_nil, if_true, HashMap.forEach_append_nil]
  · simp only [List.isEmpty_map, List.isEmpty_iff, hglobal, if_false]

/-- All that chains refer to is in the pool, whether they are enabled or not. -/
structure Found (config : Config ξ) : Prop where
  sources : ∀ entry ∈ config.sources.entries, ∀ ref ∈ entry.2.chain.transformerRefs,
    ∃ transformer, config.transformers.get ref = some transformer
  sinks : ∀ entry ∈ config.sinks.entries, ∀ ref ∈ entry.2.transformerRefs,
    ∃ transformer, config.transformers.get ref = some transformer
  pipeline : ∀ ref ∈ config.pipeline.transformerRefs,
    ∃ transformer, config.transformers.get ref = some transformer

theorem notFound_eq_nil_iff {config : Config ξ} : notFound config = [] ↔ config.Found := by
  simp only [notFound, List.append_eq_nil_iff, List.flatMap_eq_nil_iff, missing_eq_nil_iff]
  exact ⟨fun ⟨hsources, hsinks, hpipeline⟩ => ⟨hsources, hsinks, hpipeline⟩,
    fun h => ⟨h.sources, h.sinks, h.pipeline⟩⟩

theorem resolveChains_eq_ok_iff {config built : Config ξ} :
    resolveChains config = .ok built ↔ config.Found ∧ resolved config = built := by
  rw [resolveChains_eq, failFirst_eq_ok_iff, notFound_eq_nil_iff]

/-! ### What the check says -/

theorem tryCompile_eq_nil_iff {compile : Compiler} {render : String → String} {label : String}
    {config : Transformers.Config} :
    tryCompile compile render label config = [] ↔
      ∃ t, config.makeTransformer compile = .ok t := by
  rw [tryCompile]
  cases config.makeTransformer compile with
  | ok t => exact iff_of_true rfl ⟨t, rfl⟩
  | error e => simp

theorem tryCompileChain_eq_nil_iff {compile : Compiler} {render : String → String}
    {label : String} {configs : List NamedConfig} :
    tryCompileChain compile render label configs = [] ↔
      ∃ stages, buildTransformerChain compile configs = .ok stages := by
  rw [buildTransformerChain, buildFrom_isOk_iff, tryCompileChain, List.flatMap_eq_nil_iff]
  constructor
  · intro h nc hmem
    obtain ⟨i, hi, rfl⟩ := List.mem_iff_getElem.mp hmem
    have hentry : (configs[i], i) ∈ configs.zipIdx :=
      List.mk_mem_zipIdx_iff_getElem?.mpr (List.getElem?_eq_getElem hi)
    exact tryCompile_eq_nil_iff.mp (h _ hentry)
  · intro h entry hentry
    exact tryCompile_eq_nil_iff.mpr (h _ (List.fst_mem_of_mem_zipIdx hentry))

theorem flatMap_names_eq_nil_iff {α : Type} {map : Lib.HashMap α}
    {errors : String → α → List String} :
    (map.names.flatMap fun name => (map.get name).elim [] (errors name)) = [] ↔
      ∀ entry ∈ map.entries, errors entry.1 entry.2 = [] := by
  rw [List.flatMap_eq_nil_iff,
    ← HashMap.forall_names_iff (P := fun name value => errors name value = [])]
  refine forall_congr' fun name => imp_congr_right fun _ => ?_
  cases map.get name with
  | none => simp
  | some value => simp

/-- A name that is in the pool stands for something of the pool. -/
theorem named_config_mem {config : Config ξ} {ref : String}
    (h : ∃ transformer, config.transformers.get ref = some transformer) :
    ∃ entry ∈ config.transformers.entries,
      (named config.transformers.entries ref).config = entry.2 := by
  obtain ⟨transformer, htransformer⟩ := h
  refine ⟨(ref, transformer), HashMap.mem_of_get htransformer, ?_⟩
  rw [HashMap.get] at htransformer
  rw [named, htransformer, Option.getD_some]

/-- The check of a configuration finds nothing exactly if the whole pool compiles and
the chain of each source and of each sink is built, enabled or not. -/
theorem compileErrors_eq_nil_iff (compile : Compiler) (render : String → String)
    {config built : Config ξ} (hbuilt : resolveChains config = .ok built) :
    compileErrors compile render built = [] ↔
      (∀ entry ∈ config.transformers.entries,
        ∃ t, entry.2.makeTransformer compile = .ok t) ∧
      (∀ entry ∈ built.sources.entries,
        ∃ stages, buildTransformerChain compile entry.2.chain.transformers = .ok stages) ∧
      (∀ entry ∈ built.sinks.entries,
        ∃ stages, buildTransformerChain compile entry.2.chainTransformers = .ok stages) := by
  obtain ⟨hfound, rfl⟩ := resolveChains_eq_ok_iff.mp hbuilt
  simp only [compileErrors, List.append_eq_nil_iff, flatMap_names_eq_nil_iff,
    tryCompile_eq_nil_iff, tryCompileChain_eq_nil_iff]
  refine ⟨fun ⟨⟨⟨hpool, _⟩, hsources⟩, hsinks⟩ => ⟨hpool, hsources, hsinks⟩, ?_⟩
  intro ⟨hpool, hsources, hsinks⟩
  refine ⟨⟨⟨hpool, ?_⟩, hsources⟩, hsinks⟩
  apply (buildFrom_isOk_iff _).mpr
  intro nc hmem
  obtain ⟨ref, href, rfl⟩ := List.mem_map.mp hmem
  obtain ⟨entry, hentry, heq⟩ := named_config_mem (hfound.pipeline ref href)
  rw [heq]
  exact hpool entry hentry

/-! ### What a start builds -/

theorem make_eq_ok_iff {compile : Compiler} {sourceUrl : String → String}
    {supportsBackpressure : ξ → Bool} {queueCapacity : ℕ} {name : String}
    {source : SourceConfig ξ} {pipe : SourcePipe} :
    make compile sourceUrl supportsBackpressure queueCapacity name source = .ok pipe ↔
      ∃ stages, buildTransformerChain compile source.chain.transformers = .ok stages ∧
        { name, stages, terminal := .new (sourceUrl name)
            (if supportsBackpressure source.extractor then some queueCapacity else none) } =
          pipe :=
  bind_pure_eq_ok_iff

/-- A start builds the chains of all sources and sinks that are enabled. -/
structure Started (config : Config ξ) (pipes : List SourcePipe)
    (chains : List (String × List Stage)) : Prop where
  sources : pipes.map SourcePipe.name =
    (config.sources.entries.filter fun entry => entry.2.enabled).map Prod.fst
  sinks : chains.map Prod.fst =
    (config.sinks.entries.filter fun entry => entry.2.isEnabled).map Prod.fst

theorem started_of_ok {compile : Compiler} {sourceUrl : String → String}
    {supportsBackpressure : ξ → Bool} {config : Config ξ} {pipes : List SourcePipe}
    {chains : List (String × List Stage)}
    (hpipes : createSources compile sourceUrl supportsBackpressure config = .ok pipes)
    (hchains : createSinks compile config = .ok chains) : config.Started pipes chains := by
  constructor
  · refine map_of_mapM_eq_ok (fun entry pipe hmake => ?_) hpipes
    obtain ⟨stages, -, rfl⟩ := make_eq_ok_iff.mp hmake
    rfl
  · refine map_of_mapM_eq_ok (fun entry chain hchain => ?_) hchains
    obtain ⟨stages, -, rfl⟩ := bind_pure_eq_ok_iff.mp hchain
    rfl

theorem exists_createSources (compile : Compiler) (sourceUrl : String → String)
    (supportsBackpressure : ξ → Bool) {config : Config ξ}
    (h : ∀ entry ∈ config.sources.entries,
      ∃ stages, buildTransformerChain compile entry.2.chain.transformers = .ok stages) :
    ∃ pipes, createSources compile sourceUrl supportsBackpressure config = .ok pipes := by
  refine exists_mapM_eq_ok fun entry hmem => ?_
  obtain ⟨stages, hstages⟩ := h entry (List.mem_of_mem_filter hmem)
  exact ⟨_, make_eq_ok_iff.mpr ⟨stages, hstages, rfl⟩⟩

theorem exists_createSinks (compile : Compiler) {config : Config ξ}
    (h : ∀ entry ∈ config.sinks.entries,
      ∃ stages, buildTransformerChain compile entry.2.chainTransformers = .ok stages) :
    ∃ chains, createSinks compile config = .ok chains := by
  refine exists_mapM_eq_ok fun entry hmem => ?_
  obtain ⟨stages, hstages⟩ := h entry (List.mem_of_mem_filter hmem)
  exact ⟨_, bind_pure_eq_ok_iff.mpr ⟨stages, hstages, rfl⟩⟩

/-- The check of a configuration finds nothing exactly if the pool compiles and all
chains are built, and then a start builds those it needs. -/
theorem check_covers_start (compile : Compiler) (render : String → String)
    (sourceUrl : String → String) (supportsBackpressure : ξ → Bool) {config built : Config ξ}
    (hbuilt : resolveChains config = .ok built) :
    (compileErrors compile render built = [] ↔
      (∀ entry ∈ config.transformers.entries,
        ∃ t, entry.2.makeTransformer compile = .ok t) ∧
      (∀ entry ∈ built.sources.entries,
        ∃ stages, buildTransformerChain compile entry.2.chain.transformers = .ok stages) ∧
      (∀ entry ∈ built.sinks.entries,
        ∃ stages, buildTransformerChain compile entry.2.chainTransformers = .ok stages)) ∧
    (compileErrors compile render built = [] →
      ∃ pipes chains, createSources compile sourceUrl supportsBackpressure built = .ok pipes ∧
        createSinks compile built = .ok chains ∧ built.Started pipes chains) := by
  have hiff := compileErrors_eq_nil_iff compile render hbuilt
  refine ⟨hiff, fun hnone => ?_⟩
  obtain ⟨-, hsources, hsinks⟩ := hiff.mp hnone
  obtain ⟨pipes, hpipes⟩ := exists_createSources compile sourceUrl supportsBackpressure hsources
  obtain ⟨chains, hchains⟩ := exists_createSinks compile hsinks
  exact ⟨pipes, chains, hpipes, hchains, started_of_ok hpipes hchains⟩

/-- A compiler that knows the identity. -/
def sampleCompile : Compiler := fun template =>
  if template = "[.]" then .ok fun event => .ok (.arr [event]) else .error "unexpected token"

/-- One source and one sink, with transformers of all three origins. -/
def sampleConfig : Config Unit where
  sources :=
    { entries := [("webhook", {
        enabled := true
        extractor := ()
        chain := {
          transformerRefs := ["unique"]
          transformers := [{ key := none, config := .vrl "" }] } })]
      distinct := by decide }
  sinks :=
    { entries := [("debug", .debug true { transformerRefs := ["quiet"], transformers := [] })]
      distinct := by decide }
  transformers :=
    { entries := [("unique", .deduplicate 10 "/context/id"), ("quiet", .discardAll),
        ("log", .log "transformers::log")]
      distinct := by decide }
  pipeline := { queueCapacity := 1024, transformerRefs := ["log"], transformers := [] }

theorem resolveChains_sampleConfig : resolveChains sampleConfig = .ok (resolved sampleConfig) := by
  rw [resolveChains_eq]
  rfl

theorem check_covers_start_sample :
    compileErrors sampleCompile id (resolved sampleConfig) = [] ∧
      ∃ pipes chains,
        createSources sampleCompile id (fun _ => true) (resolved sampleConfig) = .ok pipes ∧
        createSinks sampleCompile (resolved sampleConfig) = .ok chains ∧
        (resolved sampleConfig).Started pipes chains := by
  have hcheck := check_covers_start sampleCompile id id (fun _ => true) resolveChains_sampleConfig
  have hnone : compileErrors sampleCompile id (resolved sampleConfig) = [] := by
    apply hcheck.1.mpr
    refine ⟨fun entry hentry => ?_, fun entry hentry => ?_, fun entry hentry => ?_⟩
    · rcases List.mem_cons.mp hentry with rfl | hentry
      · exact ⟨_, rfl⟩
      · rcases List.mem_cons.mp hentry with rfl | hentry
        · exact ⟨_, rfl⟩
        · exact (List.mem_singleton.mp hentry) ▸ ⟨_, rfl⟩
    · exact (List.mem_singleton.mp hentry) ▸ ⟨_, rfl⟩
    · exact (List.mem_singleton.mp hentry) ▸ ⟨_, rfl⟩
  exact ⟨hnone, hcheck.2 hnone⟩

/-! ### How the pipe of a source runs -/

/-- The pipe of a source does what its own transformers do in front of those of the
pipeline, each of them with what it remembers itself. -/
structure RunsBefore (global own : List Transformer) (pipe : SourcePipe) : Prop where
  stages : pipe.stages.map Stage.transformer = own ++ global
  names : (pipe.stages.map Stage.name).Nodup
  runs : ∀ {ω : Type} (text : Json → String) (terminal : Pipe ω) (s : Memory × (Memory × ω))
    (event : Event), s.1.length = own.length →
      chain text terminal (pipe.stages.map Stage.transformer) (joined s) event =
        (chain text (chain text terminal global) own s event).map id joined

theorem runsBefore_of_make {compile : Compiler} {sourceUrl : String → String}
    {supportsBackpressure : ξ → Bool} {queueCapacity : ℕ} {name : String}
    {source : SourceConfig ξ} {pipe : SourcePipe} {configs others : List NamedConfig}
    (hchain : source.chain.transformers = configs ++ others)
    (hmake : make compile sourceUrl supportsBackpressure queueCapacity name source = .ok pipe) :
    ∃ own global, Compiled compile configs own ∧ Compiled compile others global ∧
      RunsBefore global own pipe := by
  obtain ⟨stages, hstages, rfl⟩ := make_eq_ok_iff.mp hmake
  have hcompiled := (compiled_of_buildFrom _ hstages).1
  rw [hchain] at hcompiled
  obtain ⟨own, global, happend, hown, hglobal⟩ := hcompiled.append_left
  refine ⟨own, global, hown, hglobal, happend, names_nodup_of_buildTransformerChain hstages, ?_⟩
  intro ω text terminal s event hlength
  rw [happend, chain_append text terminal own global s event hlength]

/-- After a start, the pipe of each enabled source runs the transformers written in
place, then those the source names, then those the pipeline names, which are the
same for all sources. -/
theorem sources_run_own_then_global {compile : Compiler} {sourceUrl : String → String}
    {supportsBackpressure : ξ → Bool} {config built : Config ξ} {pipes : List SourcePipe}
    (hbuilt : resolveChains config = .ok built)
    (hpipes : createSources compile sourceUrl supportsBackpressure built = .ok pipes) :
    ∃ global, List.Forall₂ (fun entry pipe => pipe.name = entry.1 ∧
        Compiled compile
          (config.pipeline.transformerRefs.map (named config.transformers.entries)) global ∧
        ∃ own, Compiled compile (entry.2.chain.transformers ++
            entry.2.chain.transformerRefs.map (named config.transformers.entries)) own ∧
          RunsBefore global own pipe)
      (config.sources.entries.filter fun entry => entry.2.enabled) pipes := by
  obtain ⟨-, rfl⟩ := resolveChains_eq_ok_iff.mp hbuilt
  have hentries : ((resolved config).sources.entries.filter fun entry => entry.2.enabled) =
      (config.sources.entries.filter fun entry => entry.2.enabled).map fun entry =>
        (entry.1, SourceConfig.appendTransformers
          (config.pipeline.transformerRefs.map (named config.transformers.entries))
          (entry.2.resolved config.transformers.entries)) := by
    show List.filter _ (List.map _ (List.map _ _)) = _
    rw [List.map_map, List.filter_map]
    rfl
  have hmakes := forall₂_of_mapM_eq_ok hpipes
  rw [hentries, List.forall₂_map_left_iff] at hmakes
  -- the configurations of the pipeline stand for the same transformers everywhere
  by_cases hglobal : ∃ global, Compiled compile
      (config.pipeline.transformerRefs.map (named config.transformers.entries)) global
  · obtain ⟨global, hglobal⟩ := hglobal
    refine ⟨global, hmakes.imp fun entry pipe hmake => ?_⟩
    obtain ⟨own, global', hown, hglobal', hruns⟩ := runsBefore_of_make rfl hmake
    obtain ⟨stages, -, rfl⟩ := make_eq_ok_iff.mp hmake
    exact ⟨rfl, hglobal, own, hown, hglobal'.unique hglobal ▸ hruns⟩
  · refine ⟨[], hmakes.imp fun entry pipe hmake => ?_⟩
    obtain ⟨own, global', -, hglobal', -⟩ := runsBefore_of_make rfl hmake
    exact absurd ⟨global', hglobal'⟩ hglobal

/-- What the source of the sample is given. -/
def samplePipe : SourcePipe where
  name := "webhook"
  terminal := .new "webhook" (some 1024)
  stages := [{ name := "vrl#0", transformer := .vrl fun event => .ok (.arr [event]) },
    { name := "unique#1", transformer := .deduplicate 10 "/context/id" },
    { name := "log#2", transformer := .log "transformers::log" }]

theorem sources_run_own_then_global_sample :
    ∃ global own,
      Compiled sampleCompile [{ key := some "log", config := .log "transformers::log" }] global ∧
      Compiled sampleCompile [{ key := none, config := .vrl "" },
        { key := some "unique", config := .deduplicate 10 "/context/id" }] own ∧
      RunsBefore global own samplePipe := by
  have hpipes : createSources sampleCompile id (fun _ => true) (resolved sampleConfig) =
      .ok [samplePipe] := rfl
  obtain ⟨global, hruns⟩ := sources_run_own_then_global resolveChains_sampleConfig hpipes
  obtain ⟨⟨-, hglobal, own, hown, hpipe⟩, -⟩ := List.forall₂_cons.mp hruns
  exact ⟨global, own, hglobal, hown, hpipe⟩

end Config

end CdvizCollector
