import CdvizCollector.Config.Builder

/-!
Configurations that are fetched from a remote source, and the local files they get read.

A key that ends in `_file` is refused in them. One that ends in `_rfile` is not, and the
remote it refers to may be of their own making: one of the service `fs` has the local
filesystem for its files.
-/

namespace CdvizCollector.Config

open Lib

/-- The build fails, or no local file is read that the configuration names. -/
def Confined (run : Run Dict) : Prop := (∃ e, run.result = .error e) ∨ run.trace = []

theorem confined_iff {run : Run Dict} :
    Confined run ↔ ∀ dict, run.result = .ok dict → run.trace = [] := by
  unfold Confined
  cases run.result <;> simp

/-! ### References -/

/-- The operator that a reference is read with, and the path. -/
inductive Refers (opendal : Opendal) (remotes : Remotes) : Value → opendal.Operator → String → Prop
  | intro {uri name path : String} {remote : RemoteConfig} {operator : opendal.Operator}
      (huri : RemoteUri.parse uri = .ok ⟨name, path⟩) (hremote : remotes.lookup name = some remote)
      (hoperator : buildOperator opendal remote = .ok operator) :
      Refers opendal remotes (.str uri) operator path

/-- A reference that is replaced by a text. -/
def Resolvable (opendal : Opendal) (remotes : Remotes) (value : Value) : Prop :=
  ∃ operator path bytes, Refers opendal remotes value operator path ∧
    opendal.read operator path = .ok bytes ∧ (Text.decodeUtf8 bytes).isSome = true

section Resolve

variable {opendal : Opendal} {remotes : Remotes} {value : Value}

theorem resolve_of_refers {operator : opendal.Operator} {path : String} (key : String)
    (h : Refers opendal remotes value operator path) :
    ∃ error, resolve opendal remotes key value =
      (readText opendal operator path).mapError error := by
  cases h with
  | @intro uri name _ remote _ huri hremote hoperator =>
      refine ⟨.readFailed path name, ?_⟩
      have hparsed :
          (Traced.ofExcept ((RemoteUri.parse uri).mapError .remote) : Run RemoteUri).result
          = .ok ⟨name, path⟩ :=
        Traced.ofExcept_mapError_eq_ok_iff.mpr huri
      have hread : readRemoteFile opendal remote path = readText opendal operator path := by
        rw [readRemoteFile, hoperator]
      rw [← hread]
      show (Traced.ofExcept ((RemoteUri.parse uri).mapError .remote) : Run RemoteUri) >>= _ = _
      rw [Traced.bind_of_ok hparsed, Traced.trace_ofExcept, List.nil_append]
      simp only [hremote]

theorem readText_ok_iff {operator : opendal.Operator} {path : String}
    {error : RemoteFileError → ConfigError} :
    (∃ content, ((readText opendal operator path).mapError error).result = .ok content) ↔
      ∃ bytes, opendal.read operator path = .ok bytes ∧
        (Text.decodeUtf8 bytes).isSome = true := by
  unfold readText Traced.mapError
  cases opendal.read operator path with
  | error e => simp [Except.mapError]
  | ok bytes => cases h : Text.decodeUtf8 bytes <;> simp [Except.mapError, h]

theorem refers_of_resolve {key content : String}
    (h : (resolve opendal remotes key value).result = .ok content) :
    ∃ operator path, Refers opendal remotes value operator path := by
  cases value with
  | str uri =>
      obtain ⟨⟨name, path⟩, hparsed, hrest⟩ := Traced.result_bind_eq_ok_iff.mp h
      have huri : RemoteUri.parse uri = .ok ⟨name, path⟩ :=
        Traced.ofExcept_mapError_eq_ok_iff.mp hparsed
      cases hremote : remotes.lookup name with
      | none => simp [hremote, Traced.fail] at hrest
      | some remote =>
          cases hoperator : buildOperator opendal remote with
          | error e =>
              simp [hremote, readRemoteFile, hoperator, Traced.fail, Traced.mapError,
                Except.mapError] at hrest
          | ok operator => exact ⟨operator, path, .intro huri hremote hoperator⟩
  | _ => simp [resolve, Traced.fail] at h

theorem resolve_ok_iff {key : String} :
    (∃ content, (resolve opendal remotes key value).result = .ok content) ↔
      Resolvable opendal remotes value := by
  constructor
  · rintro ⟨content, h⟩
    obtain ⟨operator, path, hrefers⟩ := refers_of_resolve h
    obtain ⟨error, heq⟩ := resolve_of_refers key hrefers
    rw [heq] at h
    obtain ⟨bytes, hread, hdecode⟩ := readText_ok_iff.mp ⟨content, h⟩
    exact ⟨operator, path, bytes, hrefers, hread, hdecode⟩
  · rintro ⟨operator, path, bytes, hrefers, hread, hdecode⟩
    obtain ⟨error, heq⟩ := resolve_of_refers key hrefers
    rw [heq]
    exact readText_ok_iff.mpr ⟨bytes, hread, hdecode⟩

theorem mem_trace_resolve {key content file : String}
    (h : (resolve opendal remotes key value).result = .ok content) :
    file ∈ (resolve opendal remotes key value).trace ↔
      ∃ operator path, Refers opendal remotes value operator path ∧
        file ∈ opendal.opened operator path := by
  constructor
  · intro hfile
    obtain ⟨operator, path, hrefers⟩ := refers_of_resolve h
    obtain ⟨error, heq⟩ := resolve_of_refers key hrefers
    rw [heq] at hfile
    exact ⟨operator, path, hrefers, hfile⟩
  · rintro ⟨operator, path, hrefers, hfile⟩
    obtain ⟨error, heq⟩ := resolve_of_refers key hrefers
    rw [heq]
    exact hfile

end Resolve

/-! ### Layers -/

/-- The layers but the user's define no remote. -/
structure ConfigBuilder.Trusted (W : World) (builder : ConfigBuilder) : Prop where
  base : ∀ text ∈ builder.baseConfig, ∀ {dict}, W.parse text = .ok dict →
    dict.lookup "remote" = none
  env : builder.enableEnvVars = true → ∀ {dict}, W.env = .ok dict → dict.lookup "remote" = none
  cli : ∀ text ∈ builder.cliOverrides, ∀ {dict}, W.parse text = .ok dict →
    dict.lookup "remote" = none
  keyValue : ∀ text ∈ builder.keyValueOverrides, ∀ {dict}, W.parse text = .ok dict →
    dict.lookup "remote" = none

theorem trace_mergeToml (W : World) (figment : Run Dict) (layer : Option String) :
    (ConfigBuilder.mergeToml W figment layer).trace = figment.trace := by
  cases layer with
  | none => rfl
  | some text => exact List.append_nil _

theorem lookup_mergeToml {W : World} {figment : Run Dict} {layer : Option String} {key : String}
    (hlayer : ∀ text ∈ layer, ∀ {dict}, W.parse text = .ok dict → dict.lookup key = none)
    {dict : Dict} (h : (ConfigBuilder.mergeToml W figment layer).result = .ok dict) :
    ∃ old, figment.result = .ok old ∧ dict.lookup key = old.lookup key := by
  cases layer with
  | none => exact ⟨dict, h, rfl⟩
  | some text =>
      obtain ⟨old, new, hold, hnew, rfl⟩ := merge_eq_ok_iff.mp h
      exact ⟨old, hold, lookup_coalesce_right (hlayer text rfl (result_toml_eq_ok_iff.mp hnew))⟩

theorem trace_mergeEnv (W : World) (figment : Run Dict) (enabled : Bool) :
    (ConfigBuilder.mergeEnv W figment enabled).trace = figment.trace := by
  cases enabled with
  | false => rfl
  | true => exact List.append_nil _

theorem lookup_mergeEnv {W : World} {figment : Run Dict} {enabled : Bool} {key : String}
    (henv : enabled = true → ∀ {dict}, W.env = .ok dict → dict.lookup key = none)
    {dict : Dict} (h : (ConfigBuilder.mergeEnv W figment enabled).result = .ok dict) :
    ∃ old, figment.result = .ok old ∧ dict.lookup key = old.lookup key := by
  cases enabled with
  | false => exact ⟨dict, h, rfl⟩
  | true =>
      obtain ⟨old, new, hold, hnew, rfl⟩ := merge_eq_ok_iff.mp h
      have hparsed : W.env = .ok new := Traced.ofExcept_mapError_eq_ok_iff.mp hnew
      exact ⟨old, hold, lookup_coalesce_right (henv rfl hparsed)⟩

section Content

variable {W : World} {builder : ConfigBuilder} {content : String}

theorem buildRawFigment_content :
    (builder.withResolvedSource (.content content)).buildRawFigment W =
      ConfigBuilder.mergeToml W (ConfigBuilder.mergeToml W (ConfigBuilder.mergeEnv W
        (merge (ConfigBuilder.mergeToml W (pure []) builder.baseConfig) (W.toml content))
        builder.enableEnvVars) builder.cliOverrides) builder.keyValueOverrides := by
  rfl

theorem trace_buildRawFigment :
    ((builder.withResolvedSource (.content content)).buildRawFigment W).trace = [] := by
  rw [buildRawFigment_content, trace_mergeToml, trace_mergeToml, trace_mergeEnv]
  show (ConfigBuilder.mergeToml W (pure []) builder.baseConfig).trace ++ [] = []
  rw [trace_mergeToml]
  rfl

/-- What the merged document has for remotes is the content's. -/
theorem lookup_remote_raw (htrusted : builder.Trusted W) {raw : Dict}
    (h : ((builder.withResolvedSource (.content content)).buildRawFigment W).result = .ok raw) :
    ∃ dict, W.parse content = .ok dict ∧ raw.lookup "remote" = dict.lookup "remote" := by
  rw [buildRawFigment_content] at h
  obtain ⟨withCli, hcli, hkeyValue⟩ := lookup_mergeToml htrusted.keyValue h
  obtain ⟨withEnv, henv, hcliLookup⟩ := lookup_mergeToml htrusted.cli hcli
  obtain ⟨user, huser, henvLookup⟩ := lookup_mergeEnv htrusted.env henv
  obtain ⟨base, dict, hbase, hdict, rfl⟩ := merge_eq_ok_iff.mp huser
  obtain ⟨empty, hempty, hbaseLookup⟩ := lookup_mergeToml htrusted.base hbase
  cases hempty
  refine ⟨dict, result_toml_eq_ok_iff.mp hdict, ?_⟩
  rw [hkeyValue, hcliLookup, henvLookup, lookup_coalesce_left hbaseLookup]

end Content

/-! ### The build -/

/-- The remotes that a content defines. -/
def definitions (W : World) (content : String) : Except ConfigError Remotes := do
  let dict ← (W.parse content).mapError .toml
  extractRemoteConfigs (substituteNow W.now dict)

/-- What is known of the merged document before a reference is followed. -/
structure Accepted (W : World) (builder : ConfigBuilder) (content : String) (document : Dict)
    (remotes : Remotes) : Prop where
  merged : ∃ raw, ((builder.withResolvedSource (.content content)).buildRawFigment W).result =
    .ok raw ∧ substituteNow W.now raw = document
  printed : ∃ text, W.print document = .ok text
  noFileKey : ¬HasKey (fun key => endsWith "_file" key = true) (.dict document)
  remotes : definitions W content = .ok remotes

section Build

variable {W : World} (hW : W.Lawful) {builder : ConfigBuilder} (htrusted : builder.Trusted W)
  {content : String}

theorem extractRemoteConfigs_congr {dict dict' : Dict}
    (h : dict.lookup "remote" = dict'.lookup "remote") :
    extractRemoteConfigs dict = extractRemoteConfigs dict' := by
  rw [extractRemoteConfigs, h, extractRemoteConfigs]

include htrusted in
theorem definitions_eq {raw : Dict}
    (h : ((builder.withResolvedSource (.content content)).buildRawFigment W).result = .ok raw) :
    definitions W content = extractRemoteConfigs (substituteNow W.now raw) := by
  obtain ⟨dict, hdict, hlookup⟩ := lookup_remote_raw htrusted h
  have hremote : (substituteNow W.now dict).lookup "remote" =
      (substituteNow W.now raw).lookup "remote" := by
    rw [lookup_substituteNow, lookup_substituteNow, hlookup]
  rw [← extractRemoteConfigs_congr hremote, definitions, hdict]
  rfl

include hW in
/-- The adapters are applied to the document itself. -/
theorem provider_eq {document : Dict} {text : String} (hprint : W.print document = .ok text)
    (hkey : ¬HasKey (fun key => endsWith "_file" key = true) (.dict document)) :
    (do
      let dict ← W.toml text
      W.expandFiles dict) = (pure document : Run Dict) := by
  have hparse : (W.toml text).result = .ok document :=
    result_toml_eq_ok_iff.mpr (hW.parse_print hprint)
  rw [Traced.bind_of_ok hparse, hW.expandFiles hkey]
  rfl

include hW

theorem buildFigment_of_raw {raw : Dict} {text : String}
    (hraw : ((builder.withResolvedSource (.content content)).buildRawFigment W).result = .ok raw)
    (hprint : W.print (substituteNow W.now raw) = .ok text)
    (hkey : ¬HasKey (fun key => endsWith "_file" key = true)
      (.dict (substituteNow W.now raw))) :
    (builder.withResolvedSource (.content content)).buildFigment W =
      remoteFileAdapter W.opendal (pure (substituteNow W.now raw)) := by
  have hprinted : (Traced.ofExcept ((W.print (substituteNow W.now raw)).mapError .toml) :
      Run String).result = .ok text :=
    Traced.ofExcept_mapError_eq_ok_iff.mpr hprint
  have hgate : rawValueContainsFileKey (.dict (substituteNow W.now raw)) = false := by
    rw [← Bool.not_eq_true, rawValueContainsFileKey_iff]
    exact hkey
  rw [ConfigBuilder.buildFigment, Traced.bind_of_ok hraw, trace_buildRawFigment, List.nil_append]
  show (Traced.ofExcept _ >>= _ : Run Dict) = _
  rw [Traced.bind_of_ok hprinted, Traced.trace_ofExcept, List.nil_append, hgate, Bool.and_false,
    if_neg Bool.false_ne_true, provider_eq hW hprint hkey, merge_nil]

include htrusted

theorem buildFigment_of_accepted {document : Dict} {remotes : Remotes}
    (h : Accepted W builder content document remotes) :
    (builder.withResolvedSource (.content content)).buildFigment W = (do
      let dict ← processDict W.opendal remotes (nesting document + 1) document
      return Assoc.remove "remote" dict) := by
  obtain ⟨raw, hraw, rfl⟩ := h.merged
  obtain ⟨text, hprint⟩ := h.printed
  have hremotes : (Traced.ofExcept (extractRemoteConfigs (substituteNow W.now raw)) :
      Run Remotes).result = .ok remotes := by
    rw [← definitions_eq htrusted hraw, h.remotes]
    rfl
  rw [buildFigment_of_raw hW hraw hprint h.noFileKey, remoteFileAdapter, pure_bind, pure_bind,
    Traced.bind_of_ok hremotes, Traced.trace_ofExcept, List.nil_append]

theorem accepted_of_ok {figment : Dict}
    (h : ((builder.withResolvedSource (.content content)).buildFigment W).result = .ok figment) :
    ∃ document remotes, Accepted W builder content document remotes := by
  obtain ⟨raw, hraw, hrest⟩ := Traced.result_bind_eq_ok_iff.mp h
  obtain ⟨text, hprinted, hrest⟩ := Traced.result_bind_eq_ok_iff.mp hrest
  have hprint : W.print (substituteNow W.now raw) = .ok text :=
    Traced.ofExcept_mapError_eq_ok_iff.mp hprinted
  have hkey : ¬HasKey (fun key => endsWith "_file" key = true)
      (.dict (substituteNow W.now raw)) := by
    rw [← rawValueContainsFileKey_iff]
    intro hcontains
    simp [hcontains, ConfigBuilder.withResolvedSource, Traced.fail] at hrest
  rw [buildFigment_of_raw hW hraw hprint hkey, remoteFileAdapter, pure_bind, pure_bind] at h
  obtain ⟨remotes, hremotes, -⟩ := Traced.result_bind_eq_ok_iff.mp h
  refine ⟨_, remotes, ⟨raw, hraw, rfl⟩, ⟨text, hprint⟩, hkey, ?_⟩
  rw [definitions_eq htrusted hraw]
  exact hremotes

end Build

/-! ### Samples -/

/-- A document with a remote and a reference to it. -/
def sampleDocument (serviceType parameter value uri : String) : Dict :=
  [("remote", .dict [("community", .dict [(parameter, .str value), ("type", .str serviceType)])]),
    ("transformers", .dict [("t", .dict [("template_rfile", .str uri)])])]

/-- How it is written. -/
def sampleContent (serviceType parameter value uri : String) : String :=
  "[remote.community]\n" ++ parameter ++ " = \"" ++ value ++ "\"\ntype = \"" ++ serviceType ++
    "\"\n\n[transformers.t]\ntemplate_rfile = \"" ++ uri ++ "\"\n"

/-- Two of the services, with a file each. -/
def sampleOpendal : Opendal where
  Operator := String × String
  viaIter uri parameters :=
    match uri, parameters.lookup "root", parameters.lookup "endpoint" with
    | "fs", some root, _ => .ok ("fs", root)
    | "http", _, some endpoint => .ok ("http", endpoint)
    | _, _, _ => .error "the service is not enabled or not configured"
  read operator path :=
    if operator.2 ++ path = "/etc/passwd" ∨
        operator.2 ++ path = "https://cdviz.example.com/to_v0_5.vrl" then
      .ok (Text.utf8 ". = [.]")
    else .error "NotFound"
  opened operator path := if operator.1 = "fs" then [operator.2 ++ path] else []

/-- The outside for one document. -/
def sampleWorld (serviceType parameter value uri : String) : World where
  parse text :=
    if text = sampleContent serviceType parameter value uri then
      .ok (sampleDocument serviceType parameter value uri)
    else if text = "" then .ok []
    else .error "another document"
  print
    | [("remote", .dict [("community", .dict [(p, .str v), ("type", .str t)])]),
        ("transformers", .dict [("t", .dict [("template_rfile", .str u)])])] =>
        if p = parameter ∧ v = value ∧ t = serviceType ∧ u = uri then
          .ok (sampleContent serviceType parameter value uri)
        else .error "another document"
    | _ => .error "another document"
  file _ := pure []
  env := .ok []
  now := "2026-01-01T00:00:00Z"
  expandFiles := pure
  opendal := sampleOpendal

theorem sampleWorld_lawful {serviceType parameter value uri : String}
    (hordered : Ordered (sampleDocument serviceType parameter value uri)) :
    (sampleWorld serviceType parameter value uri).Lawful where
  parse_print {dict text} hprint := by
    simp only [sampleWorld] at hprint
    split at hprint
    · split at hprint
      · rename_i heq
        obtain ⟨rfl, rfl, rfl, rfl⟩ := heq
        cases hprint
        simp [sampleWorld, sampleDocument]
      · contradiction
    · contradiction
  ordered {text dict} hparse := by
    simp only [sampleWorld] at hparse
    split_ifs at hparse
    · exact Except.ok.inj hparse ▸ hordered
    · exact Except.ok.inj hparse ▸ .of_mem .nil (by simp)
  expandFiles _ := rfl

def sampleBuilder : ConfigBuilder where
  baseConfig := some ""
  configFile := none
  configContent := none
  cliOverrides := none
  keyValueOverrides := none
  enableEnvVars := false
  sourceIsRemote := false

theorem sampleBuilder_trusted {serviceType parameter value uri : String} :
    sampleBuilder.Trusted (sampleWorld serviceType parameter value uri) := by
  have hne : sampleContent serviceType parameter value uri ≠ "" := by
    have hend : "\"\n" ≠ "" := by decide
    unfold sampleContent
    simp only [ne_eq, String.append_eq_empty_iff]
    exact fun h => hend h.2
  have hempty : (sampleWorld serviceType parameter value uri).parse "" = .ok [] := by
    simp only [sampleWorld, if_neg hne.symm, if_true]
  constructor
  · intro text htext dict hparse
    rw [← Option.some.inj htext, hempty] at hparse
    rw [← Except.ok.inj hparse, List.lookup_nil]
  · simp [sampleBuilder]
  · simp [sampleBuilder]
  · simp [sampleBuilder]

/-- A configuration from a remote source gets no local file read exactly when no reference
that is followed is to a remote, of its own definition, that reads one; unless it is
refused. -/
theorem confined_iff_no_local_remote {W : World} (hW : W.Lawful) {builder : ConfigBuilder}
    (htrusted : builder.Trusted W) (content : String) :
    Confined ((builder.withResolvedSource (.content content)).buildFigment W) ↔
      ∀ document remotes, Accepted W builder content document remotes →
        (∀ key value, Reference document key value → Resolvable W.opendal remotes value) →
        ∀ key value operator path, Reference document key value →
          Refers W.opendal remotes value operator path → W.opendal.opened operator path = [] := by
  have hordered : ∀ {document remotes}, Accepted W builder content document remotes →
      Ordered document := by
    intro document remotes h
    obtain ⟨text, hprint⟩ := h.printed
    exact hW.ordered (hW.parse_print hprint)
  rw [confined_iff]
  constructor
  · intro h document remotes haccepted hresolvable key value operator path href hrefers
    obtain ⟨dict, hdict⟩ := (processDict_ok_iff (hordered haccepted) (Nat.lt_succ_self _)).mpr
      fun key value href => resolve_ok_iff.mpr (hresolvable key value href)
    rw [buildFigment_of_accepted hW htrusted haccepted, Traced.bind_of_ok hdict] at h
    have htrace := h _ rfl
    rw [Traced.trace_pure, List.append_nil] at htrace
    obtain ⟨text, htext⟩ : ∃ text, (resolve W.opendal remotes key value).result = .ok text :=
      resolve_ok_iff.mpr (hresolvable key value href)
    rw [List.eq_nil_iff_forall_not_mem]
    intro file hfile
    have hmem := (mem_trace_processDict (hordered haccepted) (Nat.lt_succ_self _) hdict).mpr
      ⟨key, value, href, (mem_trace_resolve htext).mpr ⟨operator, path, hrefers, hfile⟩⟩
    rw [htrace] at hmem
    contradiction
  · intro h figment hfigment
    obtain ⟨document, remotes, haccepted⟩ := accepted_of_ok hW htrusted hfigment
    rw [buildFigment_of_accepted hW htrusted haccepted] at hfigment ⊢
    obtain ⟨dict, hdict, -⟩ := Traced.result_bind_eq_ok_iff.mp hfigment
    have hresolved :=
      (processDict_ok_iff (hordered haccepted) (Nat.lt_succ_self _)).mp ⟨dict, hdict⟩
    have hlocal := h document remotes haccepted fun key value href =>
      resolve_ok_iff.mp (hresolved key value href)
    rw [Traced.bind_of_ok hdict, Traced.trace_pure, List.append_nil,
      List.eq_nil_iff_forall_not_mem]
    intro file hfile
    obtain ⟨key, value, href, hopened⟩ :=
      (mem_trace_processDict (hordered haccepted) (Nat.lt_succ_self _) hdict).mp hfile
    obtain ⟨text, htext⟩ := hresolved key value href
    obtain ⟨operator, path, hrefers, hmem⟩ := (mem_trace_resolve htext).mp hopened
    rw [hlocal key value operator path href hrefers] at hmem
    contradiction

/-- A transformer from the web. -/
theorem confined_iff_no_local_remote_sample :
    Confined ((sampleBuilder.withResolvedSource (.content (sampleContent "http" "endpoint"
      "https://cdviz.example.com/" "community:///to_v0_5.vrl"))).buildFigment
        (sampleWorld "http" "endpoint" "https://cdviz.example.com/"
          "community:///to_v0_5.vrl")) := by
  have hordered : Ordered (sampleDocument "http" "endpoint" "https://cdviz.example.com/"
      "community:///to_v0_5.vrl") := by
    refine .of_mem (by unfold Assoc.Sorted; decide) ?_
    simp only [sampleDocument, List.mem_cons, Prod.mk.injEq, Value.dict.injEq]
    rintro _ _ (⟨-, rfl⟩ | ⟨-, rfl⟩ | hnil)
    · refine .of_mem (by unfold Assoc.Sorted; decide) ?_
      simp only [List.mem_singleton, Prod.mk.injEq, Value.dict.injEq]
      rintro _ _ ⟨-, rfl⟩
      exact .of_mem (by unfold Assoc.Sorted; decide) (by simp)
    · refine .of_mem (by unfold Assoc.Sorted; decide) ?_
      simp only [List.mem_singleton, Prod.mk.injEq, Value.dict.injEq]
      rintro _ _ ⟨-, rfl⟩
      exact .of_mem (by unfold Assoc.Sorted; decide) (by simp)
    · contradiction
  rw [confined_iff_no_local_remote (sampleWorld_lawful hordered) sampleBuilder_trusted]
  intro document remotes haccepted _ key value operator path _ hrefers
  have hdefinitions : definitions (sampleWorld "http" "endpoint" "https://cdviz.example.com/"
      "community:///to_v0_5.vrl") (sampleContent "http" "endpoint" "https://cdviz.example.com/"
      "community:///to_v0_5.vrl") =
      .ok [("community", ⟨"http", [("endpoint", "https://cdviz.example.com/")]⟩)] := by
    rfl
  cases hdefinitions.symm.trans haccepted.remotes
  cases hrefers with
  | @intro uri name _ remote _ _ hremote hoperator =>
      rw [List.lookup_cons] at hremote
      split at hremote
      · cases hremote
        cases hoperator
        rfl
      · contradiction

/-- A content that defines the local filesystem as its remote and refers to a file of it. -/
theorem content_reads_local_file :
    ¬Confined ((sampleBuilder.withResolvedSource (.content (sampleContent "fs" "root" "/"
      "community:///etc/passwd"))).buildFigment
        (sampleWorld "fs" "root" "/" "community:///etc/passwd")) := by
  rintro (⟨e, herror⟩ | htrace)
  · contradiction
  · exact absurd htrace (by decide)

end CdvizCollector.Config
