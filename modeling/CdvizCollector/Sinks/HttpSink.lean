import CdvizCollector.Event
import CdvizCollector.Security.HeaderOrder
import CdvizCollector.Security.Rule

/-!
The http sink (`sinks/http.rs`), and the signatures it sends.

A request is built in steps: the default content type, the CloudEvents headers,
the headers of the event, the trace context, and last the configured headers. The
receiver verifies a signature on the request as it is sent, while the sink signs
the configured headers generated so far and none of the others.
-/

namespace CdvizCollector.Sinks

open Lib Lib.Http Security

/-! ### Building a request -/

/-- `RequestBuilder`: the headers so far, or the error that `send` will report. -/
abbrev RequestBuilder := Except String HeaderMap

/-- `RequestBuilder::header`, which appends. -/
def RequestBuilder.header (req : RequestBuilder) (name value : String) : RequestBuilder := do
  let headers ← req
  match HeaderName.fromStr name, HeaderValue.fromStr value with
  | some name, some value => return headers ++ [(name, value)]
  | none, _ => throw "invalid HTTP header name"
  | _, none => throw "failed to parse header value"

/-- `RequestBuilder::headers`, which replaces. -/
def RequestBuilder.headers (req : RequestBuilder) (headers : HeaderMap) : RequestBuilder := do
  let current ← req
  return current.replace headers

def managedHeaders : List String :=
  ["host", "content-length", "transfer-encoding", "connection", "content-encoding"]

/-- The CloudEvents headers and the fields of the context they are read from. -/
def cloudeventsFields : List (String × String) :=
  [("ce-id", "id"), ("ce-source", "source"), ("ce-type", "type"), ("ce-time", "timestamp")]

def addCloudeventsHeaders (req : RequestBuilder) (event : Event) : RequestBuilder :=
  match event.body.get "context" with
  | none => req
  | some ctx =>
      let values := cloudeventsFields.filterMap fun (header, field) =>
        ((ctx.get field).bind Json.asStr).map fun value => (header, value)
      let req := values.foldl (fun req (header, value) => req.header header value) req
      if values ≠ [] then req.header "ce-specversion" "1.0" else req

structure HttpSink where
  headers : OutgoingHeaderMap

inductive SendError where
  | builder (message : String)
  | headers (e : HeaderError)
deriving DecidableEq, Repr

/-- `HttpSink::add_headers`, on what was built without an error. -/
def HttpSink.addHeaders (C : Crypto) (S : HttpSink) (req : RequestBuilder) (body : List UInt8) :
    Except SendError RequestBuilder :=
  match generateHeaders C (outgoingHeaderMapToConfigs S.headers.entries) body with
  | .ok headers => .ok (req.headers headers)
  | .error e => .error (.headers e)

/-- The headers of a request, before the configured ones. `trace` is what the
current span injects. -/
def unsignedHeaders (event : Event) (trace : List (String × String)) : RequestBuilder :=
  let req : RequestBuilder := .ok []
  let hasContentType :=
    event.headers.any fun entry => Text.toAsciiLowercase entry.1 = "content-type"
  let req := if !hasContentType then req.header "content-type" "application/json" else req
  let req := addCloudeventsHeaders req event
  let req := event.headers.foldl
    (fun req (name, value) =>
      if Text.toAsciiLowercase name ∈ managedHeaders then req else req.header name value) req
  trace.foldl (fun req (key, value) => req.header key value) req

/-- `HttpSink::send_event` up to the sending: the headers and the body of the
request. `toVec` is the JSON serialization. -/
def HttpSink.sendEvent (C : Crypto) (toVec : Json → List UInt8) (S : HttpSink) (event : Event)
    (trace : List (String × String)) : Except SendError (HeaderMap × List UInt8) := do
  let bodyBytes := toVec event.body
  let req ← S.addHeaders C (unsignedHeaders event trace) bodyBytes
  match req with
  | .ok headers => return (headers, bodyBytes)
  | .error message => throw (.builder message)

/-- The request as it is sent: the client adds headers of its own (`user-agent`,
`accept`, `host`, `content-length`), of names the request does not have. -/
def Sent (built final : HeaderMap) : Prop :=
  ∀ name ∈ built.names, final.getAll name = built.getAll name

/-! ### What is signed and what is verified -/

/-- A signature as an entry of the sink. -/
def signatureEntry (signature : SignatureConfig) : String × HeaderSource :=
  (signature.header, .signature signature.token signature.tokenEncoding
    signature.signaturePrefix signature.signatureOn signature.signatureEncoding)

/-- The same signature as a rule of the receiver. -/
def signatureRule (signature : SignatureConfig) : HeaderRuleConfig :=
  { header := signature.header
    rule := .signature signature.token signature.tokenEncoding signature.signaturePrefix
      signature.signatureOn signature.signatureEncoding }

theorem sendEvent_eq_ok_iff {C : Crypto} {toVec : Json → List UInt8} {S : HttpSink} {event : Event}
    {trace : List (String × String)} {built : HeaderMap} {body : List UInt8} :
    S.sendEvent C toVec event trace = .ok (built, body) ↔
      toVec event.body = body ∧ ∃ base generated, unsignedHeaders event trace = .ok base ∧
        generateHeaders C (outgoingHeaderMapToConfigs S.headers.entries) body = .ok generated ∧
          base.replace generated = built := by
  unfold HttpSink.sendEvent HttpSink.addHeaders RequestBuilder.headers
  cases hgenerated : generateHeaders C (outgoingHeaderMapToConfigs S.headers.entries)
      (toVec event.body) with
  | error e =>
      refine iff_of_false (by simp [bind, Except.bind, hgenerated]) ?_
      rintro ⟨rfl, _, _, -, hok, -⟩
      simp [hgenerated] at hok
  | ok generated =>
      cases hbase : unsignedHeaders event trace with
      | error message =>
          simp [bind, Except.bind, throw, throwThe, MonadExceptOf.throw, hgenerated]
      | ok base =>
          simp only [bind, Except.bind, pure, Except.pure, Except.ok.injEq, Prod.mk.injEq,
            hgenerated]
          constructor
          · rintro ⟨hbuilt, rfl⟩
            exact ⟨rfl, base, generated, rfl, hgenerated, hbuilt⟩
          · rintro ⟨rfl, _, _, rfl, hok, hbuilt⟩
            obtain rfl := Except.ok.inj (hgenerated.symm.trans hok)
            exact ⟨hbuilt, rfl⟩

/-- Of different entries with different names, no two set one header. -/
theorem fromStr_ne_of_split {l r : List (String × HeaderSource)}
    (hnodup : ((l ++ r).map Prod.fst).Nodup)
    (hdistinct : DistinctNames (outgoingHeaderMapToConfigs (l ++ r)))
    {a b : String × HeaderSource} (ha : a ∈ l) (hb : b ∈ r) {name : HeaderName}
    (hname : HeaderName.fromStr a.1 = some name) : HeaderName.fromStr b.1 ≠ some name := by
  intro hname'
  have hmem : ∀ e ∈ l ++ r, OutgoingHeaderConfig.mk e.1 e.2 ∈ outgoingHeaderMapToConfigs (l ++ r) :=
    fun e he => List.mem_map.mpr ⟨e, he, rfl⟩
  have heq := hdistinct _ (hmem a (List.mem_append_left r ha)) _
    (hmem b (List.mem_append_right l hb)) name hname hname'
  rw [List.map_append, List.nodup_append] at hnodup
  exact hnodup.2.2 a.1 (List.mem_map_of_mem ha) b.1 (List.mem_map_of_mem hb)
    (congrArg OutgoingHeaderConfig.header heq)

section Signing

variable {E : Primitives} {toVec : Json → List UInt8} {S : HttpSink} {event : Event}
  {trace : List (String × String)} {built final before : HeaderMap} {body : List UInt8}
  {signature : SignatureConfig} {earlier later : List (String × HeaderSource)}

theorem payloadPrefix_eq_of_covered (h : ∀ separator listed,
      signature.signatureOn = .headersThenBody separator listed →
        ∀ header ∈ listed, coveredBytes separator (final.getStr header) =
          coveredBytes separator (before.getStr header)) :
    payloadPrefix signature.signatureOn final = payloadPrefix signature.signatureOn before := by
  cases hon : signature.signatureOn with
  | body => rfl
  | headersThenBody separator listed =>
      rw [payloadPrefix_headersThenBody, payloadPrefix_headersThenBody]
      exact List.flatMap_congr fun header hmem => h separator listed hon header hmem

theorem exists_signed {generated : HeaderMap}
    (h : generateHeaders E.toCrypto
      (outgoingHeaderMapToConfigs (earlier ++ signatureEntry signature :: later)) body =
        .ok generated)
    (hbefore : generateHeaders E.toCrypto (outgoingHeaderMapToConfigs earlier) body = .ok before) :
    ∃ name value key, HeaderName.fromStr signature.header = some name ∧
      tokenBytes E.toCrypto signature = .ok key ∧
      value.bytes = Text.utf8 (signature.text E.toCrypto key
        (payloadPrefix signature.signatureOn before ++ body)) ∧
      generateHeadersWithExisting E.toCrypto (outgoingHeaderMapToConfigs later) body
        (before.insert name value) = .ok generated := by
  rw [generateHeaders, outgoingHeaderMapToConfigs, List.map_append, List.map_cons,
    generate_append_eq_ok_iff] at h
  obtain ⟨middle, hmiddle, hrest⟩ := h
  obtain rfl : middle = before := Except.ok.inj (hmiddle.symm.trans hbefore)
  obtain ⟨name, value, ⟨hname, hvalue⟩, hlater⟩ := generate_cons_eq_ok_iff.mp hrest
  have hsignature : OutgoingHeaderConfig.signature?
      ⟨(signatureEntry signature).1, (signatureEntry signature).2⟩ = some signature := rfl
  obtain ⟨text, hbuild, htext⟩ :=
    (generateHeaderValue_signature hsignature body _ _).mp hvalue
  obtain ⟨key, hkey, rfl⟩ := buildSignature_eq_ok_iff.mp hbuild
  exact ⟨name, value, key, hname, hkey, HeaderValue.bytes_of_fromStr htext, hlater⟩

theorem getAll_final (hsent : Sent built final) {base generated : HeaderMap}
    (hbuilt : base.replace generated = built) {name : HeaderName}
    (hne : generated.getAll name ≠ []) : final.getAll name = generated.getAll name := by
  have hmem : name ∈ generated.names :=
    not_not.mp fun hnot => hne (HeaderMap.getAll_eq_nil_iff.mpr hnot)
  have hgetAll : built.getAll name = generated.getAll name :=
    hbuilt ▸ HeaderMap.getAll_replace base hmem
  have hbuiltmem : name ∈ built.names :=
    not_not.mp fun hnot => hne (hgetAll ▸ HeaderMap.getAll_eq_nil_iff.mpr hnot)
  rw [hsent name hbuiltmem, hgetAll]

theorem validateHeader_signatureRule {name : HeaderName}
    (hname : HeaderName.fromStr signature.header = some name) :
    validateHeader E final (signatureRule signature) body = .ok () ↔
      checkSignature E.toCrypto signature final body = .ok () := by
  simp only [validateHeader, signatureRule, hname]
  cases checkSignature E.toCrypto signature final body <;> simp

/-- The receiver of a signature that was not replaced accepts it when the HMAC does
not tell what is verified from what was signed. -/
theorem validate_iff_hmac (hE : E.toCrypto.Lawful)
    (hvisible : (Text.utf8 signature.startText).all isVisibleAscii = true)
    {name : HeaderName} {value : HeaderValue} {key payload : List UInt8}
    (hname : HeaderName.fromStr signature.header = some name)
    (hkey : tokenBytes E.toCrypto signature = .ok key)
    (hbytes : value.bytes = Text.utf8 (signature.text E.toCrypto key payload))
    (hvalue : final.getAll name = [value]) :
    validateHeader E final (signatureRule signature) body = .ok () ↔
      E.hmacSha256 key payload =
        E.hmacSha256 key (payloadPrefix signature.signatureOn final ++ body) := by
  have hget : final.getStr signature.header = some value := by
    rw [getStr_of_fromStr hname, HeaderMap.get, hvalue]
    rfl
  rw [validateHeader_signatureRule hname, checkSignature_text_iff hE hvisible hget hkey hbytes]

/-- A header that only entries before the signature set is sent as they set it. -/
theorem getAll_earlier (hsent : Sent built final) {base generated : HeaderMap}
    (hbuilt : base.replace generated = built) {name n : HeaderName} {value : HeaderValue}
    (hname : HeaderName.fromStr signature.header = some name)
    (hlater : generateHeadersWithExisting E.toCrypto (outgoingHeaderMapToConfigs later) body
      (before.insert name value) = .ok generated)
    (hset : before.getAll n ≠ [])
    (hothers : ∀ b ∈ signatureEntry signature :: later, HeaderName.fromStr b.1 ≠ some n) :
    final.getAll n = before.getAll n := by
  have hdiff : n ≠ name := by
    rintro rfl
    exact hothers _ List.mem_cons_self hname
  have hgenerated : generated.getAll n = before.getAll n := by
    rw [getAll_generate hlater, HeaderMap.getAll_insert_of_ne hdiff]
    intro config hconfig
    obtain ⟨b, hb, rfl⟩ := List.mem_map.mp hconfig
    exact hothers b (List.mem_cons_of_mem _ hb)
  rw [getAll_final hsent hbuilt (hgenerated ▸ hset), hgenerated]

/-- A covered header that was generated before the signature is sent so. -/
theorem getStr_final (hsent : Sent built final) {base generated : HeaderMap}
    (hbuilt : base.replace generated = built)
    (hentries : S.headers.entries = earlier ++ signatureEntry signature :: later)
    (hdistinct : DistinctNames (outgoingHeaderMapToConfigs S.headers.entries))
    (hbefore : generateHeaders E.toCrypto (outgoingHeaderMapToConfigs earlier) body = .ok before)
    {name : HeaderName} {value : HeaderValue}
    (hname : HeaderName.fromStr signature.header = some name)
    (hlater : generateHeadersWithExisting E.toCrypto (outgoingHeaderMapToConfigs later) body
      (before.insert name value) = .ok generated)
    {header : String} (hsome : before.getStr header ≠ none) :
    final.getStr header = before.getStr header := by
  have hnodup := S.headers.nodup
  rw [hentries] at hdistinct hnodup
  cases hheader : HeaderName.fromStr header with
  | none => exact absurd (by rw [HeaderMap.getStr, hheader]; rfl) hsome
  | some n =>
      rw [getStr_of_fromStr hheader] at hsome
      have hne : before.getAll n ≠ [] := fun hnil => hsome (by rw [HeaderMap.get, hnil]; rfl)
      have hentry : ∃ a ∈ earlier, HeaderName.fromStr a.1 = some n := by
        by_contra hnot
        refine hne (getAll_generate hbefore fun config hconfig hn => hnot ?_)
        obtain ⟨a, ha, rfl⟩ := List.mem_map.mp hconfig
        exact ⟨a, ha, hn⟩
      obtain ⟨a, ha, han⟩ := hentry
      have hsame := getAll_earlier hsent hbuilt hname hlater hne
        fun b hb => fromStr_ne_of_split hnodup hdistinct ha hb han
      rw [getStr_of_fromStr hheader, getStr_of_fromStr hheader, HeaderMap.get, HeaderMap.get, hsame]

end Signing

/-! ### A sample sink -/

def sampleEvent : Event := { metadata := .null, headers := [], body := .obj [] }

/-- `serde_json::to_vec` of the empty object. -/
def sampleToVec (_ : Json) : List UInt8 := Text.utf8 "{}"

def sampleSink : HttpSink where
  headers := { entries := [("X-Id", .static "42" "" ""), signatureEntry sampleConfig]
               nodup := by decide }

def sampleBuilt (S : HttpSink) : HeaderMap :=
  ((S.sendEvent sampleCrypto sampleToVec sampleEvent []).toOption.map Prod.fst).getD []

end CdvizCollector.Sinks
