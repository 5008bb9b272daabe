import CdvizCollector.Event
import CdvizCollector.Lib.Assoc
import CdvizCollector.Security.Signature

/-!
Outgoing headers, origins and the selection of incoming headers
(`security/header.rs`).
-/

namespace CdvizCollector.Security

open Lib Lib.Http

def enclose (value start stop : String) : String := start ++ value ++ stop

/-! ### Generated headers -/

inductive HeaderSource where
  | static (value start stop : String)
  | secret (value start stop : String)
  | signature (token : String) (tokenEncoding : Option Encoding)
      (signaturePrefix : Option String) (signatureOn : SignatureOn)
      (signatureEncoding : Encoding)
deriving DecidableEq, Repr

structure OutgoingHeaderConfig where
  header : String
  rule : HeaderSource
deriving DecidableEq, Repr

inductive HeaderError where
  | invalidHeaderName (name : String)
  | invalidHeaderValue (name error : String)
  | signatureGeneration (name error : String)
deriving DecidableEq, Repr

def HeaderError.message : HeaderError → String
  | .invalidHeaderName name => "Invalid header name: " ++ name
  | .invalidHeaderValue name error =>
      "Invalid header value for header '" ++ name ++ "': " ++ error
  | .signatureGeneration name error =>
      "Signature generation failed for header '" ++ name ++ "': " ++ error

def generateHeaderValueWithContext (C : Crypto) (config : OutgoingHeaderConfig)
    (body : List UInt8) (existingHeaders : HeaderMap) : Except HeaderError HeaderValue := do
  let value ←
    match config.rule with
    | .static value start stop | .secret value start stop => Except.ok (enclose value start stop)
    | .signature token tokenEncoding signaturePrefix signatureOn signatureEncoding =>
        let signatureConfig : SignatureConfig :=
          { header := config.header, token, tokenEncoding, signaturePrefix, signatureOn,
            signatureEncoding }
        match buildSignature C signatureConfig existingHeaders body with
        | .ok signature => .ok signature
        | .error e => .error (.signatureGeneration config.header e.message)
  match HeaderValue.fromStr value with
  | some value => return value
  | none => throw (.invalidHeaderValue config.header "failed to parse header value")

/-- `generate_headers_with_existing`; a signature sees the headers generated
before it. -/
def generateHeadersWithExisting (C : Crypto) (configs : List OutgoingHeaderConfig)
    (body : List UInt8) (existingHeaders : HeaderMap) : Except HeaderError HeaderMap :=
  configs.foldlM (fun headers config =>
    match HeaderName.fromStr config.header with
    | none => .error (.invalidHeaderName config.header)
    | some name => do
        let value ← generateHeaderValueWithContext C config body headers
        return headers.insert name value) existingHeaders

def generateHeaders (C : Crypto) (configs : List OutgoingHeaderConfig) (body : List UInt8) :
    Except HeaderError HeaderMap :=
  generateHeadersWithExisting C configs body []

/-! ### Origins -/

/-- Same origin is same scheme, host and port; an unknown default port counts as
different. -/
def isCrossOrigin (a b : Url) : Bool :=
  if a.scheme ≠ b.scheme ∨ a.host ≠ b.host then true
  else
    match a.portOrKnownDefault, b.portOrKnownDefault with
    | some pa, some pb => pa ≠ pb
    | _, _ => true

/-- What it means for two URLs to share their origin. -/
def SameOrigin (a b : Url) : Prop :=
  a.scheme = b.scheme ∧ a.host = b.host ∧
    ∃ port, a.portOrKnownDefault = some port ∧ b.portOrKnownDefault = some port

theorem isCrossOrigin_eq_false_iff {a b : Url} : isCrossOrigin a b = false ↔ SameOrigin a b := by
  unfold isCrossOrigin SameOrigin
  by_cases hne : a.scheme ≠ b.scheme ∨ a.host ≠ b.host
  · rw [if_pos hne]
    simp only [Bool.true_eq_false, false_iff]
    rintro ⟨hscheme, hhost, -⟩
    exact hne.elim (fun h => h hscheme) fun h => h hhost
  · obtain ⟨hscheme, hhost⟩ := not_or.mp hne
    rw [if_neg hne]
    cases ha : a.portOrKnownDefault with
    | none => simp
    | some pa =>
        cases hb : b.portOrKnownDefault with
        | none => simp
        | some pb =>
            simp only [ne_eq, decide_not, Bool.not_eq_false', decide_eq_true_eq, Option.some.injEq,
              exists_eq_left', not_not.mp hscheme, not_not.mp hhost, true_and]
            exact eq_comm

theorem SameOrigin.scheme_eq {a b : Url} (h : SameOrigin a b) : a.scheme = b.scheme := h.1

/-- `GlobSet::is_match` of the `trusted_redirect_hosts` patterns, on the text of a
host. -/
abbrev TrustedHosts := Host → Bool

def mayForwardHeaders (source target : Url) (trusted : TrustedHosts) : Bool :=
  !isCrossOrigin source target ||
    (target.host.any trusted && !(source.scheme = "https" && target.scheme ≠ "https"))

/-- The host of a URL is one of the trusted ones. -/
def TrustedTarget (trusted : TrustedHosts) (target : Url) : Prop :=
  ∃ host, target.host = some host ∧ trusted host = true

/-- A hop from https leads to https again. -/
def NoDowngrade (source target : Url) : Prop := source.scheme = "https" → target.scheme = "https"

theorem mayForwardHeaders_iff {source target : Url} {trusted : TrustedHosts} :
    mayForwardHeaders source target trusted = true ↔
      SameOrigin source target ∨ TrustedTarget trusted target ∧ NoDowngrade source target := by
  have htrusted : target.host.any trusted = true ↔ TrustedTarget trusted target := by
    cases hhost : target.host <;> simp [TrustedTarget, hhost]
  have hscheme : (!(source.scheme = "https" && target.scheme ≠ "https")) = true ↔
      NoDowngrade source target := by
    by_cases h : source.scheme = "https" <;> simp [NoDowngrade, h]
  rw [mayForwardHeaders, Bool.or_eq_true, Bool.and_eq_true, htrusted, hscheme,
    ← isCrossOrigin_eq_false_iff, Bool.not_eq_true']

/-! ### Forwarded headers -/

/-- A line that `filter_http_headers` keeps, as an entry of its map. -/
def keptEntry (headersToKeep : List HeaderName) (line : HeaderName × HeaderValue) :
    Option (String × String) :=
  if line.2.sensitive then none
  else if line.1 ∉ headersToKeep then none
  else line.2.toStr.map fun text => (line.1.name, text)

/-- `filter_http_headers`: of several lines of a name the last one stays. -/
def filterHttpHeaders (headers : HeaderMap) (headersToKeep : List HeaderName) : StringMap :=
  Assoc.ofList (headers.filterMap (keptEntry headersToKeep))

end CdvizCollector.Security
