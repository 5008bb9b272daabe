import CdvizCollector.Config.References

/-!
How the configuration is built (`config/mod.rs`).

The base configuration, the one of the user, the environment and the overrides of the
command line are merged, and the adapters that read files are applied once to the result.
The user's configuration may come from a remote source; a key that ends in `_file` is then
refused. The TOML parser and printer, the environment, `FileAdapter` and OpenDAL are
parameters.
-/

namespace CdvizCollector.Config

open Lib

/-- What is used from outside. -/
structure World where
  /-- `Toml::string` as a provider. -/
  parse : String → Except String Dict
  /-- `toml::to_string`. -/
  print : Dict → Except String String
  /-- `Toml::file` as a provider. -/
  file : String → Run Dict
  /-- `Env::prefixed("CDVIZ_COLLECTOR__").split("__")` as a provider. -/
  env : Except String Dict
  now : String
  /-- `FileAdapter` on the data of its provider. -/
  expandFiles : Dict → Run Dict
  opendal : Opendal

/-- What the code relies on: what is printed is parsed to the same, the tables are ordered
maps, and without a key that ends in `_file` the file adapter has nothing to do. -/
structure World.Lawful (W : World) : Prop where
  parse_print : ∀ {dict : Dict} {text : String}, W.print dict = .ok text →
    W.parse text = .ok dict
  ordered : ∀ {text : String} {dict : Dict}, W.parse text = .ok dict → Ordered dict
  expandFiles : ∀ {dict : Dict}, ¬HasKey (fun key => endsWith "_file" key = true) (.dict dict) →
    W.expandFiles dict = pure dict

def World.toml (W : World) (text : String) : Run Dict := .ofExcept ((W.parse text).mapError .toml)

/-- `Figment::merge`; a figment is the data of its providers, or an error. Of several
errors, which `figment` chains, the first is kept. -/
def merge (figment provider : Run Dict) : Run Dict :=
  ⟨figment.trace ++ provider.trace,
    match figment.result, provider.result with
    | .ok old, .ok new => .ok (coalesce old new)
    | .error e, _ => .error e
    | .ok _, .error e => .error e⟩

/-! ### The builder -/

inductive ResolvedConfigSource where
  | none
  | file (path : String)
  | content (text : String)
deriving DecidableEq, Repr

structure ConfigBuilder where
  baseConfig : Option String
  configFile : Option String
  configContent : Option String
  cliOverrides : Option String
  keyValueOverrides : Option String
  enableEnvVars : Bool
  sourceIsRemote : Bool
deriving DecidableEq, Repr

namespace ConfigBuilder

def withResolvedSource (builder : ConfigBuilder) : ResolvedConfigSource → ConfigBuilder
  | .none => builder
  | .file path => { builder with configFile := some path }
  | .content text => { builder with sourceIsRemote := true, configContent := some text }

/-- A layer of TOML, if it is there. -/
def mergeToml (W : World) (figment : Run Dict) : Option String → Run Dict
  | some text => merge figment (W.toml text)
  | none => figment

/-- The environment, if it is enabled. -/
def mergeEnv (W : World) (figment : Run Dict) (enabled : Bool) : Run Dict :=
  if enabled then merge figment (.ofExcept (W.env.mapError .toml)) else figment

def buildRawFigment (W : World) (builder : ConfigBuilder) : Run Dict :=
  let figment := mergeToml W (pure []) builder.baseConfig
  let figment :=
    match builder.configContent, builder.configFile with
    | some content, _ => merge figment (W.toml content)
    | none, some path => merge figment (W.file path)
    | none, none => figment
  let figment := mergeEnv W figment builder.enableEnvVars
  let figment := mergeToml W figment builder.cliOverrides
  mergeToml W figment builder.keyValueOverrides

/-- `build_figment`. The figment it returns has asked its provider already, so that an
error of the adapters is in it and comes out when it is extracted. -/
def buildFigment (W : World) (builder : ConfigBuilder) : Run Dict := do
  let rawValue ← builder.buildRawFigment W
  let rawValue := substituteNow W.now rawValue
  let rawToml ← .ofExcept ((W.print rawValue).mapError .toml)
  if builder.sourceIsRemote && rawValueContainsFileKey (.dict rawValue) then
    .fail .fileKey
  else
    let provider := do
      let dict ← W.toml rawToml
      W.expandFiles dict
    merge (pure []) (remoteFileAdapter W.opendal provider)

end ConfigBuilder

/-! ### Layers -/

theorem merge_eq_ok_iff {figment provider : Run Dict} {dict : Dict} :
    (merge figment provider).result = .ok dict ↔
      ∃ old new, figment.result = .ok old ∧ provider.result = .ok new ∧
        coalesce old new = dict := by
  unfold merge
  cases figment.result with
  | error e => simp
  | ok old => cases provider.result <;> simp

@[simp] theorem merge_nil (provider : Run Dict) : merge (pure []) provider = provider := by
  obtain ⟨trace, result⟩ := provider
  cases result <;> rfl

theorem lookup_coalesce_right {old new : Dict} {key : String} (h : new.lookup key = none) :
    (coalesce old new).lookup key = old.lookup key := by
  rw [lookup_coalesce, h]
  cases old.lookup key <;> rfl

theorem lookup_coalesce_left {old new : Dict} {key : String} (h : old.lookup key = none) :
    (coalesce old new).lookup key = new.lookup key := by
  rw [lookup_coalesce, h]

theorem result_toml_eq_ok_iff {W : World} {text : String} {dict : Dict} :
    (W.toml text).result = .ok dict ↔ W.parse text = .ok dict :=
  Traced.ofExcept_mapError_eq_ok_iff

end CdvizCollector.Config
