import CdvizCollector.Lib.Result
import CdvizCollector.Lib.Text
import CdvizCollector.Transformers.OciPurl

/-!
Helm charts as package URLs, and objects printed as package URLs
(`transformers/vrl_purl.rs`).

The name of an OCI package is the last component of a path, and the components before it
belong to the `repository_url`. A chart is cut when its object is built, any other name when
its object is printed. Both are one normalisation of the fields, and it is idempotent.
-/

namespace CdvizCollector.Transformers

open Lib

/-! ### Values and package URLs -/

/-- A VRL value; the entries of an object are by key. -/
inductive Value where
  | null
  | bytes (b : List UInt8)
  /-- A boolean, a number, a time or a regular expression, as it is written. -/
  | scalar (written : String)
  | array (values : List Value)
  | object (entries : List (String × Value))

/-- `Value::from` of a text. -/
def Value.text (s : String) : Value := .bytes (Text.utf8 s)

/-- The crate `packageurl`: an error is the text it is shown as. -/
structure PackageUrl (P : Type) where
  new : String → String → Except String P
  withNamespace : P → String → Except String P
  withVersion : P → String → Except String P
  withSubpath : P → String → Except String P
  addQualifier : P → String → String → Except String P
  print : P → String
  name : P → String

/-! ### Building an object -/

def isOciRegistry (repoUrl : String) : Bool :=
  !"http://".toList.isPrefixOf repoUrl.toList && !"https://".toList.isPrefixOf repoUrl.toList

/-- `str::rsplit_once` at a slash. -/
def splitPath (path : String) : Option (String × String) :=
  (Text.rsplitOnce '/' path.toList).map fun r => (String.ofList r.1, String.ofList r.2)

def purlObject (packageType name version : String) (qualifiers : List (String × Value)) : Value :=
  .object
    [("name", .text name), ("qualifiers", .object qualifiers), ("subpath", .null),
      ("type", .text packageType), ("version", .text version)]

def parseArgocdHelmToPurl (repoUrl chart targetRevision : String) : Value :=
  if isOciRegistry repoUrl then
    let (name, repositoryUrl) :=
      match splitPath chart with
      | some (front, base) => (base, repoUrl ++ "/" ++ front)
      | none => (chart, repoUrl)
    purlObject "oci" name targetRevision [(repositoryUrlKey, .text repositoryUrl)]
  else
    purlObject "generic" chart targetRevision
      [("download_url", .text repoUrl), ("type", .text "helm")]

/-! ### Printing an object -/

/-- `Option::ok_or`. -/
def okOr {α : Type} (value : Option α) (error : String) : Except String α :=
  value.elim (.error error) .ok

/-- What is read of an object. -/
structure PurlFields where
  packageType : String
  name : String
  /-- `namespace` -/
  owner : Option String
  version : Option String
  subpath : Option String
  qualifiers : List (String × String)
deriving DecidableEq

section

variable (toStrLossy : Value → Option String)

def readVersion : Value → Option String
  | .null => none
  | .bytes b => Text.decodeUtf8 b
  | v => toStrLossy v

def readQualifiers : Value → List (String × String)
  | .object entries => entries.filterMap fun (k, v) => (toStrLossy v).map fun s => (k, s)
  | _ => []

def readFields (purlObj : Value) : Except String PurlFields := do
  let obj ← match purlObj with
    | .object entries => .ok entries
    | _ => .error "purl_to_string requires an object"
  let packageType ←
    okOr ((obj.lookup "type").bind toStrLossy) "PURL object must have a 'type' field"
  let name ← okOr ((obj.lookup "name").bind toStrLossy) "PURL object must have a 'name' field"
  return {
    packageType
    name
    owner := (obj.lookup "namespace").bind toStrLossy
    version := (obj.lookup "version").bind (readVersion toStrLossy)
    subpath := (obj.lookup "subpath").bind toStrLossy
    qualifiers := ((obj.lookup "qualifiers").map (readQualifiers toStrLossy)).getD [] }

end

/-- The first `repository_url` is extended, or one is added. -/
def extendRepositoryUrl (front : String) : List (String × String) → List (String × String)
  | [] => [(repositoryUrlKey, front)]
  | (key, value) :: rest =>
      if key = repositoryUrlKey then (key, value ++ "/" ++ front) :: rest
      else (key, value) :: extendRepositoryUrl front rest

/-- The rule for the names of OCI packages. -/
def PurlFields.normalize (fields : PurlFields) : PurlFields :=
  if fields.packageType = "oci" then
    match splitPath fields.name with
    | some (front, base) =>
        { fields with name := base, qualifiers := extendRepositoryUrl front fields.qualifiers }
    | none => fields
  else fields

section

variable {P : Type} (api : PackageUrl P)

/-- `if let Some(ref value) = value { … }`; the error names the field and the value. -/
def setOptional (field : String) (set : P → String → Except String P) (value : Option String)
    (purl : P) : Except String P :=
  match value with
  | some value =>
      (set purl value).mapError fun e => "Invalid " ++ field ++ " '" ++ value ++ "': " ++ e
  | none => .ok purl

def PurlFields.build (fields : PurlFields) : Except String P := do
  let purl ← (api.new fields.packageType fields.name).mapError ("Invalid PURL type or name: " ++ ·)
  let purl ← setOptional "namespace" api.withNamespace fields.owner purl
  let purl ← setOptional "version" api.withVersion fields.version purl
  let purl ← setOptional "subpath" api.withSubpath fields.subpath purl
  fields.qualifiers.foldlM
    (fun purl q => (api.addQualifier purl q.1 q.2).mapError ("Invalid qualifier: " ++ ·)) purl

/-- `purl_object_to_string` up to the printing. -/
def purlOfObject (toStrLossy : Value → Option String) (purlObj : Value) : Except String P := do
  let fields ← readFields toStrLossy purlObj
  fields.normalize.build api

def purlObjectToString (toStrLossy : Value → Option String) (purlObj : Value) :
    Except String String :=
  (purlOfObject api toStrLossy purlObj).map api.print

end

/-! ### The normalisation -/

theorem splitPath_eq_none_iff {path : String} : splitPath path = none ↔ '/' ∉ path.toList := by
  rw [splitPath, Option.map_eq_none_iff]
  constructor
  · intro hnone hslash
    obtain ⟨before, after, hafter, hpath⟩ := Text.exists_last_separator hslash
    rw [hpath, Text.rsplitOnce_append hafter] at hnone
    cases hnone
  · exact Text.rsplitOnce_of_not_mem

theorem slash_not_mem_base {path front base : String} (h : splitPath path = some (front, base)) :
    '/' ∉ base.toList := by
  have hslash : '/' ∈ path.toList := by
    by_contra hno
    rw [splitPath_eq_none_iff.mpr hno] at h
    cases h
  obtain ⟨before, after, hafter, hpath⟩ := Text.exists_last_separator hslash
  rw [splitPath, hpath, Text.rsplitOnce_append hafter] at h
  cases h
  rwa [String.toList_ofList]

namespace PurlFields

variable {fields : PurlFields}

theorem normalize_of_oci (h : fields.packageType = "oci") :
    fields.normalize = match splitPath fields.name with
      | some (front, base) =>
          { fields with name := base, qualifiers := extendRepositoryUrl front fields.qualifiers }
      | none => fields := by
  rw [normalize, if_pos h]

theorem normalize_of_not_mem (h : '/' ∉ fields.name.toList) : fields.normalize = fields := by
  rw [normalize, splitPath_eq_none_iff.mpr h]
  exact ite_self fields

/-- The name that is printed is a single component. -/
theorem slash_not_mem_normalize (h : fields.packageType = "oci") :
    '/' ∉ fields.normalize.name.toList := by
  rw [normalize_of_oci h]
  split
  · rename_i hsplit
    exact slash_not_mem_base hsplit
  · rename_i hsplit
    exact splitPath_eq_none_iff.mp hsplit

theorem normalize_normalize (fields : PurlFields) :
    fields.normalize.normalize = fields.normalize := by
  by_cases hoci : fields.packageType = "oci"
  · exact normalize_of_not_mem (slash_not_mem_normalize hoci)
  · have hself : fields.normalize = fields := if_neg hoci
    rw [hself, hself]

end PurlFields

/-! ### The two routes -/

/-- What is relied on of the values: a text is read back, and nothing is read of `null`. -/
structure ReadsText (toStrLossy : Value → Option String) : Prop where
  text : ∀ s, toStrLossy (.text s) = some s
  null : toStrLossy .null = none

/-- What is relied on of `packageurl`: a name may be written in another case, which adds no slash
to it, and stays as it is when the other parts are set. -/
structure PackageUrl.Lawful {P : Type} (api : PackageUrl P) : Prop where
  new : ∀ {packageType name p}, api.new packageType name = .ok p →
    '/' ∈ (api.name p).toList → '/' ∈ name.toList
  withNamespace : ∀ {p q s}, api.withNamespace p s = .ok q → api.name q = api.name p
  withVersion : ∀ {p q s}, api.withVersion p s = .ok q → api.name q = api.name p
  withSubpath : ∀ {p q s}, api.withSubpath p s = .ok q → api.name q = api.name p
  addQualifier : ∀ {p q k s}, api.addQualifier p k s = .ok q → api.name q = api.name p

/-- The object of a chart as it is. -/
def plainOciObject (repoUrl chart targetRevision : String) : Value :=
  .object
    [("name", .text chart), ("qualifiers", .object [(repositoryUrlKey, .text repoUrl)]),
      ("type", .text "oci"), ("version", .text targetRevision)]

/-- The type of the object is `oci`, as written. -/
def IsOciObject (toStrLossy : Value → Option String) (purlObj : Value) : Prop :=
  ∃ entries, purlObj = .object entries ∧ (entries.lookup "type").bind toStrLossy = some "oci"

section

variable {toStrLossy : Value → Option String}

/-- The fields of a chart that is in a registry. -/
def ociFields (repositoryUrl name version : String) : PurlFields :=
  { packageType := "oci"
    name
    owner := none
    version := some version
    subpath := none
    qualifiers := [(repositoryUrlKey, repositoryUrl)] }

theorem readVersion_text (s : String) : readVersion toStrLossy (.text s) = some s :=
  Text.decodeUtf8_utf8 s

theorem readFields_object {entries : List (String × Value)} {packageType name : String}
    (htype : (entries.lookup "type").bind toStrLossy = some packageType)
    (hname : (entries.lookup "name").bind toStrLossy = some name) :
    readFields toStrLossy (.object entries) = .ok
      { packageType
        name
        owner := (entries.lookup "namespace").bind toStrLossy
        version := (entries.lookup "version").bind (readVersion toStrLossy)
        subpath := (entries.lookup "subpath").bind toStrLossy
        qualifiers :=
          ((entries.lookup "qualifiers").map (readQualifiers toStrLossy)).getD [] } := by
  simp only [readFields, bind, Except.bind, htype, hname]
  rfl

theorem packageType_of_readFields {purlObj : Value} {fields : PurlFields}
    (h : readFields toStrLossy purlObj = .ok fields) (hoci : IsOciObject toStrLossy purlObj) :
    fields.packageType = "oci" := by
  obtain ⟨entries, rfl, htype⟩ := hoci
  cases hname : (entries.lookup "name").bind toStrLossy with
  | none =>
      simp only [readFields, bind, Except.bind, htype, hname] at h
      cases h
  | some name =>
      rw [readFields_object htype hname] at h
      cases h
      rfl

theorem readQualifiers_repositoryUrl (hread : ReadsText toStrLossy) (repositoryUrl : String) :
    readQualifiers toStrLossy (.object [(repositoryUrlKey, .text repositoryUrl)]) =
      [(repositoryUrlKey, repositoryUrl)] := by
  simp only [readQualifiers, List.filterMap_cons, hread.text, Option.map_some, List.filterMap_nil]

theorem readFields_purlObject (hread : ReadsText toStrLossy)
    (name version repositoryUrl : String) :
    readFields toStrLossy
        (purlObject "oci" name version [(repositoryUrlKey, .text repositoryUrl)]) =
      .ok (ociFields repositoryUrl name version) := by
  have htype := hread.text "oci"
  have hname := hread.text name
  refine Eq.trans (readFields_object (by simpa [List.lookup_cons] using htype)
    (by simpa [List.lookup_cons] using hname)) ?_
  simp [List.lookup_cons, readVersion_text, readQualifiers_repositoryUrl hread, hread.null,
    ociFields]

theorem readFields_plainOciObject (hread : ReadsText toStrLossy)
    (repoUrl chart targetRevision : String) :
    readFields toStrLossy (plainOciObject repoUrl chart targetRevision) =
      .ok (ociFields repoUrl chart targetRevision) := by
  have htype := hread.text "oci"
  have hname := hread.text chart
  refine Eq.trans (readFields_object (by simpa [List.lookup_cons] using htype)
    (by simpa [List.lookup_cons] using hname)) ?_
  simp [List.lookup_cons, readVersion_text, readQualifiers_repositoryUrl hread, ociFields]

/-- A chart is built as what its plain object is normalised to. -/
theorem readFields_helm (hread : ReadsText toStrLossy) {repoUrl : String}
    (hoci : isOciRegistry repoUrl = true) (chart targetRevision : String) :
    readFields toStrLossy (parseArgocdHelmToPurl repoUrl chart targetRevision) =
      .ok (ociFields repoUrl chart targetRevision).normalize := by
  rw [parseArgocdHelmToPurl, if_pos hoci, PurlFields.normalize_of_oci rfl]
  simp only [ociFields]
  cases splitPath chart with
  | none => exact readFields_purlObject hread chart targetRevision repoUrl
  | some r =>
      exact readFields_purlObject hread r.2 targetRevision (repoUrl ++ "/" ++ r.1)

variable {P : Type} {api : PackageUrl P}

theorem purlObjectToString_helm (hread : ReadsText toStrLossy) {repoUrl : String}
    (hoci : isOciRegistry repoUrl = true) (chart targetRevision : String) :
    purlObjectToString api toStrLossy (parseArgocdHelmToPurl repoUrl chart targetRevision) =
      purlObjectToString api toStrLossy (plainOciObject repoUrl chart targetRevision) := by
  have hbuilt : purlOfObject api toStrLossy (parseArgocdHelmToPurl repoUrl chart targetRevision) =
      (ociFields repoUrl chart targetRevision).normalize.normalize.build api := by
    rw [purlOfObject, readFields_helm hread hoci]
    rfl
  have hplain : purlOfObject api toStrLossy (plainOciObject repoUrl chart targetRevision) =
      (ociFields repoUrl chart targetRevision).normalize.build api := by
    rw [purlOfObject, readFields_plainOciObject hread]
    rfl
  rw [purlObjectToString, purlObjectToString, hbuilt, hplain, PurlFields.normalize_normalize]

end

/-! ### Names in package URLs -/

section

variable {P : Type} {api : PackageUrl P} {toStrLossy : Value → Option String}

theorem setOptional_name {field : String} {set : P → String → Except String P}
    (hset : ∀ {p q s}, set p s = .ok q → api.name q = api.name p) {value : Option String} {p q : P}
    (h : setOptional field set value p = .ok q) : api.name q = api.name p := by
  cases value with
  | none =>
      cases h
      rfl
  | some value => exact hset (mapError_eq_ok_iff.mp h)

theorem addQualifiers_name (hapi : api.Lawful) {qualifiers : List (String × String)} {p q : P}
    (h : qualifiers.foldlM (fun purl r =>
      (api.addQualifier purl r.1 r.2).mapError ("Invalid qualifier: " ++ ·)) p = .ok q) :
    api.name q = api.name p := by
  induction qualifiers generalizing p with
  | nil =>
      cases h
      rfl
  | cons r qualifiers ih =>
      rw [List.foldlM_cons] at h
      obtain ⟨mid, hadd, hrest⟩ := bind_eq_ok_iff.mp h
      exact (ih hrest).trans (hapi.addQualifier (mapError_eq_ok_iff.mp hadd))

theorem slash_mem_of_build (hapi : api.Lawful) {fields : PurlFields} {p : P}
    (h : fields.build api = .ok p) (hslash : '/' ∈ (api.name p).toList) :
    '/' ∈ fields.name.toList := by
  obtain ⟨p₁, hnew, h⟩ := bind_eq_ok_iff.mp h
  obtain ⟨p₂, howner, h⟩ := bind_eq_ok_iff.mp h
  obtain ⟨p₃, hversion, h⟩ := bind_eq_ok_iff.mp h
  obtain ⟨p₄, hsubpath, h⟩ := bind_eq_ok_iff.mp h
  have hname : api.name p = api.name p₁ :=
    calc
      api.name p = api.name p₄ := addQualifiers_name hapi h
      _ = api.name p₃ := setOptional_name hapi.withSubpath hsubpath
      _ = api.name p₂ := setOptional_name hapi.withVersion hversion
      _ = api.name p₁ := setOptional_name hapi.withNamespace howner
  exact hapi.new (mapError_eq_ok_iff.mp hnew) (hname ▸ hslash)

theorem slash_not_mem_name (hapi : api.Lawful) {purlObj : Value} {p : P}
    (hoci : IsOciObject toStrLossy purlObj) (h : purlOfObject api toStrLossy purlObj = .ok p) :
    '/' ∉ (api.name p).toList := by
  obtain ⟨fields, hfields, hbuild⟩ := bind_eq_ok_iff.mp h
  intro hslash
  exact PurlFields.slash_not_mem_normalize (packageType_of_readFields hfields hoci)
    (slash_mem_of_build hapi hbuild hslash)

theorem helm_isOciObject (hread : ReadsText toStrLossy) {repoUrl : String}
    (hoci : isOciRegistry repoUrl = true) (chart targetRevision : String) :
    IsOciObject toStrLossy (parseArgocdHelmToPurl repoUrl chart targetRevision) := by
  rw [parseArgocdHelmToPurl, if_pos hoci]
  refine ⟨_, rfl, ?_⟩
  simp [List.lookup_cons, hread.text]

theorem plain_isOciObject (hread : ReadsText toStrLossy) (repoUrl chart targetRevision : String) :
    IsOciObject toStrLossy (plainOciObject repoUrl chart targetRevision) := by
  refine ⟨_, rfl, ?_⟩
  simp [List.lookup_cons, hread.text]

/-- A chart in a registry is printed as its plain object is; they are OCI packages, and whatever
OCI package is printed, its name is a single component. -/
theorem oci_names_normalised (hread : ReadsText toStrLossy) (hapi : api.Lawful) :
    (∀ repoUrl chart targetRevision, isOciRegistry repoUrl = true →
      purlObjectToString api toStrLossy (parseArgocdHelmToPurl repoUrl chart targetRevision) =
          purlObjectToString api toStrLossy (plainOciObject repoUrl chart targetRevision) ∧
        IsOciObject toStrLossy (parseArgocdHelmToPurl repoUrl chart targetRevision) ∧
        IsOciObject toStrLossy (plainOciObject repoUrl chart targetRevision)) ∧
    ∀ purlObj printed, IsOciObject toStrLossy purlObj →
      purlObjectToString api toStrLossy purlObj = .ok printed →
      ∃ p, purlOfObject api toStrLossy purlObj = .ok p ∧ printed = api.print p ∧
        '/' ∉ (api.name p).toList := by
  constructor
  · intro repoUrl chart targetRevision hoci
    exact ⟨purlObjectToString_helm hread hoci chart targetRevision,
      helm_isOciObject hread hoci chart targetRevision,
      plain_isOciObject hread repoUrl chart targetRevision⟩
  · intro purlObj printed hoci hprinted
    rw [purlObjectToString] at hprinted
    cases hpurl : purlOfObject api toStrLossy purlObj with
    | error e =>
        rw [hpurl] at hprinted
        cases hprinted
    | ok p =>
        rw [hpurl] at hprinted
        cases hprinted
        exact ⟨p, rfl, rfl, slash_not_mem_name hapi hoci hpurl⟩

end

/-! ### A chart below a path -/

/-- The texts that are UTF-8. -/
def strLossy : Value → Option String
  | .bytes b => Text.decodeUtf8 b
  | _ => none

theorem strLossy_reads : ReadsText strLossy := ⟨Text.decodeUtf8_utf8, rfl⟩

def encodeSlashes (s : String) : String :=
  String.ofList (s.toList.flatMap fun c => if c = '/' then "%2F".toList else [c])

/-- A package URL by its fields, printed with slashes encoded. -/
def printFields (p : PurlFields) : String :=
  "pkg:" ++ p.packageType ++ "/" ++ (p.owner.map (· ++ "/")).getD "" ++ encodeSlashes p.name ++
    (p.version.map ("@" ++ ·)).getD "" ++
    (if p.qualifiers = [] then ""
      else "?" ++ "&".intercalate (p.qualifiers.map fun q => q.1 ++ "=" ++ encodeSlashes q.2)) ++
    (p.subpath.map ("#" ++ ·)).getD ""

def fieldsUrl : PackageUrl PurlFields where
  new packageType name :=
    if packageType = "" then .error "missing type"
    else .ok ⟨packageType, name, none, none, none, []⟩
  withNamespace p owner := .ok { p with owner := some owner }
  withVersion p version := .ok { p with version := some version }
  withSubpath p subpath := .ok { p with subpath := some subpath }
  addQualifier p key value := .ok { p with qualifiers := p.qualifiers ++ [(key, value)] }
  print := printFields
  name := PurlFields.name

theorem fieldsUrl_lawful : fieldsUrl.Lawful where
  new := by
    intro packageType name p h hslash
    simp only [fieldsUrl] at h
    split at h
    · cases h
    · cases h
      exact hslash
  withNamespace := by
    intro p q s h
    cases h
    rfl
  withVersion := by
    intro p q s h
    cases h
    rfl
  withSubpath := by
    intro p q s h
    cases h
    rfl
  addQualifier := by
    intro p q k s h
    cases h
    rfl

/-- A chart two components deep. -/
theorem oci_names_normalised_chart :
    purlObjectToString fieldsUrl strLossy
        (parseArgocdHelmToPurl "ghcr.io/myorg" "a/b/my-chart" "2.0.0") =
      .ok "pkg:oci/my-chart@2.0.0?repository_url=ghcr.io%2Fmyorg%2Fa%2Fb" ∧
    ∃ p, purlOfObject fieldsUrl strLossy
        (plainOciObject "ghcr.io/myorg" "a/b/my-chart" "2.0.0") = .ok p ∧
      '/' ∉ (fieldsUrl.name p).toList := by
  obtain ⟨hroutes, hprinted⟩ := oci_names_normalised strLossy_reads fieldsUrl_lawful
  have hroute := hroutes "ghcr.io/myorg" "a/b/my-chart" "2.0.0" rfl
  refine ⟨hroute.1.trans rfl, ?_⟩
  obtain ⟨p, hp, -, hslash⟩ := hprinted _ _ hroute.2.2 rfl
  exact ⟨p, hp, hslash⟩

end CdvizCollector.Transformers
