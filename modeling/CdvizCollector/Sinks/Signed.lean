import CdvizCollector.Sinks.HttpHeaders

/-!
Signatures that a receiver can check on what a sink sends.

The sink signs the headers that the entries before the signature set, and the receiver
verifies those of the request. Whether they agree can be told from the configuration and
from what else puts headers on a request. A signature over configured headers that are text
can be checked on every message, next to whatever else there is.
-/

namespace CdvizCollector.Sinks

open Lib Lib.Http Security

/-! ### One request -/

def Configures (entries : List (String × HeaderSource)) (name : HeaderName) : Prop :=
  ∃ entry ∈ entries, HeaderName.fromStr entry.1 = some name

/-- What a sink signs is what it sends: the prefix is readable, no later entry replaces the
signature, and a listed header is set by earlier entries and no others, or by nothing at all,
be it an entry, the event, the trace context or the client. -/
structure SignsWhatIsSent (signature : SignatureConfig) (event : Event) (trace : StringMap)
    (client : List HeaderName) (earlier later : List (String × HeaderSource)) : Prop where
  visible : (Text.utf8 signature.startText).all isVisibleAscii = true
  last : ∀ name, HeaderName.fromStr signature.header = some name → ¬Configures later name
  covered : ∀ header ∈ signature.signatureOn.names, ∀ name, HeaderName.fromStr header = some name →
    Configures earlier name ∧ ¬Configures (signatureEntry signature :: later) name ∨
      ¬Configures (earlier ++ signatureEntry signature :: later) name ∧
        name.name ∉ lowerNames (appendedHeaders event trace) ∧ name ∉ client

/-- The HMAC tells the two payloads apart, and no listed header is sent that leaves no trace in
the payload. -/
structure TellsApart (C : Crypto) (signature : SignatureConfig) (final : HeaderMap)
    (earlier : List (String × HeaderSource)) (body : List UInt8) : Prop where
  collision : ∀ key before, tokenBytes C signature = .ok key →
    generateHeaders C (outgoingHeaderMapToConfigs earlier) body = .ok before →
    C.hmacSha256 key (payloadPrefix signature.signatureOn before ++ body) =
      C.hmacSha256 key (payloadPrefix signature.signatureOn final ++ body) →
    payloadPrefix signature.signatureOn before = payloadPrefix signature.signatureOn final
  traced : ∀ separator listed, signature.signatureOn = .headersThenBody separator listed →
    ∀ header ∈ listed, ∀ value ∈ final.getStr header, coveredBytes separator (some value) ≠ []

section Signing

variable {E : Primitives} {toVec : Json → List UInt8} {S : HttpSink} {event : Event}
  {trace : StringMap} {built final before base generated : HeaderMap} {body : List UInt8}
  {signature : SignatureConfig} {earlier later : List (String × HeaderSource)}
  {client : List HeaderName}

theorem not_configures_append {l r : List (String × HeaderSource)} {name : HeaderName} :
    ¬Configures (l ++ r) name ↔ ¬Configures l name ∧ ¬Configures r name := by
  rw [← not_or, not_iff_not]
  constructor
  · rintro ⟨entry, hentry, hname⟩
    exact (List.mem_append.mp hentry).imp (fun h => ⟨entry, h, hname⟩) fun h => ⟨entry, h, hname⟩
  · rintro (⟨entry, hentry, hname⟩ | ⟨entry, hentry, hname⟩)
    · exact ⟨entry, List.mem_append_left _ hentry, hname⟩
    · exact ⟨entry, List.mem_append_right _ hentry, hname⟩

/-- Entries that are generated set their headers. -/
theorem configures_iff {C : Crypto} {configured : List (String × HeaderSource)}
    (h : generateHeaders C (outgoingHeaderMapToConfigs configured) body = .ok before)
    (name : HeaderName) : Configures configured name ↔ before.getAll name ≠ [] := by
  constructor
  · rintro ⟨entry, hentry, hname⟩ hnil
    refine HeaderMap.getAll_eq_nil_iff.mp hnil ((mem_names_generate h).mpr (Or.inr ?_))
    rw [name_of_fromStr hname]
    exact List.mem_map.mpr ⟨_, List.mem_map_of_mem hentry, rfl⟩
  · intro hne
    by_contra hnot
    refine hne (getAll_generate h fun config hconfig hname => hnot ?_)
    obtain ⟨entry, hentry, rfl⟩ := List.mem_map.mp hconfig
    exact ⟨entry, hentry, hname⟩

theorem get_eq_none_iff {headers : HeaderMap} {name : HeaderName} :
    headers.get name = none ↔ name ∉ headers.names := by
  rw [HeaderMap.get, List.head?_eq_none_iff, HeaderMap.getAll_eq_nil_iff]

/-- A request has what is appended, what is configured, and what the client adds. -/
theorem mem_names_final (hbase : unsignedHeaders event trace = .ok base)
    (hreplace : base.replace generated = built)
    (hclient : ∀ name, name ∈ final.names ↔ name ∈ built.names ∨ name ∈ client)
    (name : HeaderName) : name ∈ final.names ↔
      name.name ∈ lowerNames (appendedHeaders event trace) ∨
        name ∈ generated.names ∨ name ∈ client := by
  have hnames : base.names.map HeaderName.name = lowerNames (appendedHeaders event trace) :=
    names_appendHeaders ((unsignedHeaders_eq event trace).symm.trans hbase)
  have hmem : name ∈ base.names ↔ name.name ∈ lowerNames (appendedHeaders event trace) := by
    rw [← hnames, List.mem_map_of_injective name_injective]
  rw [hclient, ← hreplace, names_replace, List.mem_append, List.mem_filter, ← hmem,
    decide_eq_true_eq]
  tauto

/-- A listed header that adds nothing to the payload that is signed is not sent. -/
theorem TellsApart.getStr_eq_none {C : Crypto}
    (happart : TellsApart C signature final earlier body)
    (hsame : ∀ header, before.getStr header ≠ none →
      final.getStr header = before.getStr header)
    (hpayload : payloadPrefix signature.signatureOn before =
      payloadPrefix signature.signatureOn final)
    {header : String} (hmem : header ∈ signature.signatureOn.names)
    (hnone : before.getStr header = none) : final.getStr header = none := by
  cases hon : signature.signatureOn with
  | body =>
      rw [hon] at hmem
      exact absurd hmem List.not_mem_nil
  | headersThenBody separator listed =>
      rw [hon] at hmem
      rw [hon, payloadPrefix_headersThenBody, payloadPrefix_headersThenBody] at hpayload
      -- what is signed is sent, so no piece of the signed payload is the longer one
      have hpieces := eq_of_flatMap_eq_of_le (fun h _ => ?_) hpayload header hmem
      · rw [hnone] at hpieces
        rw [Option.eq_none_iff_forall_not_mem]
        intro value hvalue
        have hempty := hpieces.symm
        rw [Option.mem_def.mp hvalue] at hempty
        exact happart.traced separator listed hon header hmem value hvalue hempty
      · by_cases hbefore : before.getStr h = none
        · rw [hbefore]
          exact Nat.zero_le _
        · exact Nat.le_of_eq (by rw [hsame h hbefore])

/-! The request in the making, and what is sent of it. -/

section Steps

variable {name : HeaderName} {value : HeaderValue}
  (hbase : unsignedHeaders event trace = .ok base) (hreplace : base.replace generated = built)
  (hsent : Sent built final)
  (hclient : ∀ name, name ∈ final.names ↔ name ∈ built.names ∨ name ∈ client)
  (hgenerated : generateHeaders E.toCrypto
    (outgoingHeaderMapToConfigs (earlier ++ signatureEntry signature :: later)) body =
      .ok generated)
  (hbefore : generateHeaders E.toCrypto (outgoingHeaderMapToConfigs earlier) body = .ok before)
  (hname : HeaderName.fromStr signature.header = some name)
  (hlater : generateHeadersWithExisting E.toCrypto (outgoingHeaderMapToConfigs later) body
    (before.insert name value) = .ok generated)

include hreplace hsent hlater in
theorem getAll_signature (hlast : ¬Configures later name) : final.getAll name = [value] := by
  have hvalue : generated.getAll name = [value] := by
    rw [getAll_generate hlater, HeaderMap.getAll_insert_self]
    intro config hconfig hset
    obtain ⟨entry, hentry, rfl⟩ := List.mem_map.mp hconfig
    exact hlast ⟨entry, hentry, hset⟩
  rw [getAll_final hsent hreplace (hvalue ▸ List.cons_ne_nil _ _), hvalue]

include hbase hreplace hclient hgenerated in
/-- What the entries do not set is on the request for another reason. -/
theorem get_final_eq_none_iff {n : HeaderName}
    (hnot : ¬Configures (earlier ++ signatureEntry signature :: later) n) :
    final.get n = none ↔ n.name ∉ lowerNames (appendedHeaders event trace) ∧ n ∉ client := by
  have hngenerated : n ∉ generated.names := by
    rw [← HeaderMap.getAll_eq_nil_iff]
    exact not_not.mp ((configures_iff hgenerated n).not.mp hnot)
  rw [get_eq_none_iff, mem_names_final hbase hreplace hclient n]
  tauto

include hbase hreplace hsent hclient hgenerated hbefore hname hlater in
theorem SignsWhatIsSent.payload_eq
    (hagrees : SignsWhatIsSent signature event trace client earlier later) :
    payloadPrefix signature.signatureOn before = payloadPrefix signature.signatureOn final := by
  refine (payloadPrefix_eq_of_covered fun separator listed hon header hmem => ?_).symm
  refine congrArg (coveredBytes separator) ?_
  cases hheader : HeaderName.fromStr header with
  | none => rw [HeaderMap.getStr, HeaderMap.getStr, hheader]; rfl
  | some n =>
      rw [getStr_of_fromStr hheader, getStr_of_fromStr hheader]
      rcases hagrees.covered header (by rw [hon]; exact hmem) n hheader with
        ⟨hset, hothers⟩ | ⟨hnot, hunsent⟩
      · have hsame := getAll_earlier hsent hreplace hname hlater
          ((configures_iff hbefore n).mp hset) fun b hb hset' => hothers ⟨b, hb, hset'⟩
        rw [HeaderMap.get, HeaderMap.get, hsame]
      · have hbeforenot := (configures_iff hbefore n).not.mp (not_configures_append.mp hnot).1
        rw [(get_final_eq_none_iff hbase hreplace hclient hgenerated hnot).mpr hunsent,
          HeaderMap.get, not_not.mp hbeforenot]
        rfl

include hbase hreplace hclient hgenerated hbefore in
/-- A listed header that the entries before the signature do not set, and that is not sent,
is set by nothing. -/
theorem unset_of_getStr_eq_none {header : String} {n : HeaderName}
    (hheader : HeaderName.fromStr header = some n)
    (habsent : before.getStr header = none → final.getStr header = none)
    (hset : ¬Configures earlier n) :
    ¬Configures (earlier ++ signatureEntry signature :: later) n ∧
      n.name ∉ lowerNames (appendedHeaders event trace) ∧ n ∉ client := by
  have hnone : before.getStr header = none := by
    rw [getStr_of_fromStr hheader, HeaderMap.get,
      not_not.mp ((configures_iff hbefore n).not.mp hset)]
    rfl
  have hfinal := habsent hnone
  rw [getStr_of_fromStr hheader] at hfinal
  have hunset : ¬Configures (earlier ++ signatureEntry signature :: later) n := by
    rw [configures_iff hgenerated n, not_not, HeaderMap.getAll_eq_nil_iff]
    intro hgen
    rw [get_eq_none_iff, mem_names_final hbase hreplace hclient n] at hfinal
    exact hfinal (Or.inr (Or.inl hgen))
  exact ⟨hunset, (get_final_eq_none_iff hbase hreplace hclient hgenerated hunset).mp hfinal⟩

end Steps

/-- The request of the sink is accepted by the same signature as a rule when the sink signs
what it sends. As far as the two payloads are told apart, and the names of the entries differ
in more than their case, only then. -/
theorem signing_agrees (hE : E.toCrypto.Lawful)
    (hbuilt : S.sendEvent E.toCrypto toVec event trace = .ok (built, body))
    (hsent : Sent built final)
    (hclient : ∀ name, name ∈ final.names ↔ name ∈ built.names ∨ name ∈ client)
    (hentries : S.headers.entries = earlier ++ signatureEntry signature :: later) :
    (SignsWhatIsSent signature event trace client earlier later →
      validateHeader E final (signatureRule signature) body = .ok ()) ∧
    (DistinctNames (outgoingHeaderMapToConfigs S.headers.entries) →
      TellsApart E.toCrypto signature final earlier body →
      validateHeader E final (signatureRule signature) body = .ok () →
        SignsWhatIsSent signature event trace client earlier later) := by
  obtain ⟨-, base, generated, hbase, hgenerated, hreplace⟩ := sendEvent_eq_ok_iff.mp hbuilt
  rw [hentries] at hgenerated
  have hsplit := hgenerated
  rw [generateHeaders, outgoingHeaderMapToConfigs, List.map_append,
    generate_append_eq_ok_iff] at hsplit
  obtain ⟨before, hbefore, -⟩ := hsplit
  obtain ⟨name, value, key, hname, hkey, hbytes, hlater⟩ := exists_signed hgenerated hbefore
  constructor
  · intro hagrees
    have hvalue := getAll_signature hreplace hsent hlater (hagrees.last name hname)
    rw [validate_iff_hmac hE hagrees.visible hname hkey hbytes hvalue]
    exact congrArg (fun covered => E.hmacSha256 key (covered ++ body))
      (hagrees.payload_eq hbase hreplace hsent hclient hgenerated hbefore hname hlater)
  · intro hdistinct happart hvalid
    have hvisible := visible_of_checkSignature ((validateHeader_signatureRule hname).mp hvalid)
    have hnodup := S.headers.nodup
    have hlast : ¬Configures later name := by
      rintro ⟨entry, hentry, hset⟩
      rw [hentries, List.append_cons] at hnodup hdistinct
      exact fromStr_ne_of_split hnodup hdistinct
        (List.mem_append_right _ List.mem_cons_self) hentry hname hset
    have hvalue := getAll_signature hreplace hsent hlater hlast
    have hpayload := happart.collision key before hkey hbefore
      ((validate_iff_hmac hE hvisible hname hkey hbytes hvalue).mp hvalid)
    refine ⟨hvisible, fun name' hname' => ?_, fun header hmem n hheader => ?_⟩
    · exact Option.some.inj (hname.symm.trans hname') ▸ hlast
    · by_cases hset : Configures earlier n
      · refine Or.inl ⟨hset, ?_⟩
        obtain ⟨a, ha, han⟩ := hset
        rintro ⟨b, hb, hbn⟩
        rw [hentries] at hnodup hdistinct
        exact fromStr_ne_of_split hnodup hdistinct ha hb han hbn
      · refine Or.inr (unset_of_getStr_eq_none hbase hreplace hclient hgenerated hbefore hheader
          (happart.getStr_eq_none (fun h hsome => ?_) hpayload hmem) hset)
        exact getStr_final hsent hreplace hentries hdistinct hbefore hname hlater hsome

end Signing

/-- The signature of a sink also lists a header that nobody sets. -/
def optionalConfig : SignatureConfig :=
  { sampleConfig with signatureOn := .headersThenBody "\n" ["X-Id", "X-Tenant"] }

def optionalSink : HttpSink where
  headers :=
    { entries :=
        [("X-Id", .static "42" "" ""), signatureEntry optionalConfig, ("X-Team", .static "a" "" "")]
      nodup := by decide }

def headedEvent : Event := { sampleEvent with headers := [("X-Origin", "github")] }

def sampleTrace : StringMap := [("traceparent", "00-01-01")]

def optionalBuilt : HeaderMap :=
  ((optionalSink.sendEvent sampleCrypto sampleToVec headedEvent sampleTrace).toOption.map
    Prod.fst).getD []

def sampleClient : HeaderMap :=
  (HeaderName.fromStr "user-agent").toList.flatMap fun name =>
    (HeaderValue.fromStr "cdviz-collector").toList.map fun value => (name, value)

theorem signing_agrees_sample :
    optionalSink.sendEvent sampleCrypto sampleToVec headedEvent sampleTrace =
        .ok (optionalBuilt, Text.utf8 "{}") ∧
      validateHeader (samplePrimitives sampleCrypto) (optionalBuilt ++ sampleClient)
        (signatureRule optionalConfig) (Text.utf8 "{}") = .ok () := by
  have hbuilt : optionalSink.sendEvent sampleCrypto sampleToVec headedEvent sampleTrace =
      .ok (optionalBuilt, Text.utf8 "{}") := by decide +kernel
  have hsent : Sent optionalBuilt (optionalBuilt ++ sampleClient) := by
    unfold Sent
    decide +kernel
  have hclient : ∀ name, name ∈ (optionalBuilt ++ sampleClient).names ↔
      name ∈ optionalBuilt.names ∨ name ∈ sampleClient.names := by
    intro name
    rw [HeaderMap.names, List.map_append, List.mem_append]
    rfl
  have hentries : optionalSink.headers.entries = [("X-Id", .static "42" "" "")] ++
      signatureEntry optionalConfig :: [("X-Team", .static "a" "" "")] := rfl
  have hagrees : SignsWhatIsSent optionalConfig headedEvent sampleTrace sampleClient.names
      [("X-Id", .static "42" "" "")] [("X-Team", .static "a" "" "")] := by
    refine ⟨by decide, fun name hname => ?_, fun header hmem name hname => ?_⟩
    · rw [Configures, ← hname]
      decide
    · have hlisted : header = "X-Id" ∨ header = "X-Tenant" := by
        simpa [optionalConfig, SignatureOn.names] using hmem
      rcases hlisted with rfl | rfl
      · left
        rw [Configures, Configures, ← hname]
        decide
      · right
        rw [name_of_fromStr hname, Configures, ← hname]
        have hclient' : ∀ client ∈ sampleClient.names,
            HeaderName.fromStr "X-Tenant" ≠ some client := by decide
        exact ⟨by decide, by decide, fun hmem => hclient' name hmem hname⟩
  exact ⟨hbuilt, (signing_agrees (E := samplePrimitives sampleCrypto) (standardCrypto_lawful _)
    hbuilt hsent hclient hentries).1 hagrees⟩

/-- A sink whose signature covers the content type. -/
def contentTypeConfig : SignatureConfig :=
  { sampleConfig with signatureOn := .headersThenBody "\n" ["Content-Type"] }

def contentTypeSink : HttpSink where
  headers := { entries := [signatureEntry contentTypeConfig], nodup := by decide }

/-- The default content type is sent, and verified, but not signed. -/
theorem content_type_is_not_signed :
    contentTypeSink.sendEvent sampleCrypto sampleToVec sampleEvent [] =
        .ok (sampleBuilt contentTypeSink, Text.utf8 "{}") ∧
      validateHeader (samplePrimitives sampleCrypto) (sampleBuilt contentTypeSink)
        (signatureRule contentTypeConfig) (Text.utf8 "{}") =
          .error (.signatureValidation "X-Signature" "Signature verification mismatch") := by
  decide +kernel

/-! ### Every request -/

/-- The receiver can check this signature on every message of the sink: its prefix is
readable, and what it covers is configured before it, with values that are text. -/
structure Checkable (C : Crypto) (headers : OutgoingHeaderMap) (signature : SignatureConfig) :
    Prop where
  visible : (Text.utf8 signature.startText).all isVisibleAscii = true
  distinct : DistinctNames (outgoingHeaderMapToConfigs headers.entries)
  covered : ∃ earlier later, headers.entries = earlier ++ signatureEntry signature :: later ∧
    ∀ body before, generateHeaders C (outgoingHeaderMapToConfigs earlier) body = .ok before →
      ∀ header ∈ signature.signatureOn.names, ∃ value text,
        before.getStr header = some value ∧ value.toStr = some text

section

variable {E : Primitives} {headers : OutgoingHeaderMap} {signature : SignatureConfig}
  {body : List UInt8} {generated received : HeaderMap}

theorem toStr_signature (hE : E.toCrypto.Lawful)
    (hvisible : (Text.utf8 signature.startText).all isVisibleAscii = true)
    {value : HeaderValue} {key payload : List UInt8}
    (hbytes : value.bytes = Text.utf8 (signature.text E.toCrypto key payload)) :
    value.toStr = some (signature.text E.toCrypto key payload) := by
  have hencoded := hE.visible
    (hE.roundTrip signature.signatureEncoding (E.hmacSha256 key payload))
  have hall : value.bytes.all isVisibleAscii = true := by
    rw [hbytes, SignatureConfig.text, Text.utf8_append, List.all_append, hvisible, hencoded]
    rfl
  exact HeaderValue.toStr_eq_some_iff.mpr ⟨hall, hbytes.symm⟩

theorem exists_getAll_of_getStr (hnodup : generated.names.Nodup) {header : String}
    {value : HeaderValue} (hvalue : generated.getStr header = some value) :
    ∃ name, HeaderName.fromStr header = some name ∧ generated.getAll name = [value] := by
  cases hname : HeaderName.fromStr header with
  | none => simp [HeaderMap.getStr, hname] at hvalue
  | some name =>
      rw [getStr_of_fromStr hname, HeaderMap.get] at hvalue
      have hmem : name ∈ generated.names := by
        by_contra hnot
        rw [HeaderMap.getAll_eq_nil_iff.mpr hnot] at hvalue
        cases hvalue
      obtain ⟨only, honly⟩ := exists_getAll_of_nodup hnodup hmem
      rw [honly] at hvalue
      exact ⟨name, rfl, Option.some.inj hvalue ▸ honly⟩

/-- The signature is accepted with any headers that hold those that were generated: the
only line of a name, if it is text, is received as a line with the same bytes. -/
theorem Checkable.validateHeader (hE : E.toCrypto.Lawful)
    (hsigned : Checkable E.toCrypto headers signature)
    (hgenerated : generateHeaders E.toCrypto (outgoingHeaderMapToConfigs headers.entries) body =
      .ok generated)
    (hreceived : ∀ name value text, generated.getAll name = [value] → value.toStr = some text →
      ∃ value', received.getAll name = [value'] ∧ value'.bytes = value.bytes) :
    validateHeader E received (signatureRule signature) body = .ok () := by
  obtain ⟨earlier, later, hentries, hcovered⟩ := hsigned.covered
  have hempty : (HeaderMap.names []).Nodup := List.nodup_nil
  have hnames : generated.names.Nodup := nodup_names_generate hempty hgenerated
  have hsplit := hgenerated
  rw [hentries, generateHeaders, outgoingHeaderMapToConfigs, List.map_append,
    generate_append_eq_ok_iff] at hsplit
  obtain ⟨before, hbefore, -⟩ := hsplit
  rw [hentries] at hgenerated
  obtain ⟨name, value, key, hname, hkey, hbytes, hlater⟩ := exists_signed hgenerated hbefore
  have hlast : generated.getAll name = [value] := by
    have hnodup := headers.nodup
    have hdistinct := hsigned.distinct
    rw [hentries, List.append_cons] at hnodup hdistinct
    rw [getAll_generate hlater, HeaderMap.getAll_insert_self]
    intro config hconfig
    obtain ⟨entry, hentry, rfl⟩ := List.mem_map.mp hconfig
    exact fromStr_ne_of_split hnodup hdistinct (List.mem_append_right _ List.mem_cons_self)
      hentry hname
  obtain ⟨value', hvalue', hbytes'⟩ := hreceived name value _ hlast
    (toStr_signature hE hsigned.visible hbytes)
  rw [validate_iff_hmac hE hsigned.visible hname hkey (hbytes'.trans hbytes) hvalue']
  refine congrArg (fun covered => E.hmacSha256 key (covered ++ body))
    (payloadPrefix_eq_of_covered fun separator listed hon header hmem => ?_).symm
  obtain ⟨first, text, hfirst, htext⟩ := hcovered body before hbefore header
    (by rw [hon]; exact hmem)
  have hsent : Sent generated generated := fun _ _ => rfl
  have hreplace : HeaderMap.replace [] generated = generated := rfl
  have hsame : generated.getStr header = before.getStr header :=
    getStr_final (S := ⟨headers⟩) hsent hreplace hentries hsigned.distinct hbefore hname
      hlater (hfirst ▸ Option.some_ne_none first)
  obtain ⟨n, hn, honly⟩ := exists_getAll_of_getStr hnames (hsame.trans hfirst)
  obtain ⟨read, hread, hreadbytes⟩ := hreceived n first text honly htext
  rw [getStr_of_fromStr hn, HeaderMap.get, hread, hfirst, List.head?_cons]
  simp only [coveredBytes, hreadbytes]

/-- Rules that are all signatures of the sink. -/
def CheckableRules (C : Crypto) (headers : OutgoingHeaderMap) (rules : List HeaderRuleConfig) :
    Prop :=
  ∀ rule ∈ rules, ∃ signature, rule = signatureRule signature ∧ Checkable C headers signature

theorem CheckableRules.validateHeaders (hE : E.toCrypto.Lawful) {rules : List HeaderRuleConfig}
    (hrules : CheckableRules E.toCrypto headers rules)
    (hgenerated : generateHeaders E.toCrypto (outgoingHeaderMapToConfigs headers.entries) body =
      .ok generated)
    (hreceived : ∀ name value text, generated.getAll name = [value] → value.toStr = some text →
      ∃ value', received.getAll name = [value'] ∧ value'.bytes = value.bytes) :
    validateHeaders E received rules body = .ok () := by
  induction rules with
  | nil => rfl
  | cons rule rules ih =>
      obtain ⟨signature, rfl, hsigned⟩ := hrules rule List.mem_cons_self
      rw [Security.validateHeaders, hsigned.validateHeader hE hgenerated hreceived,
        ih fun rule' hmem => hrules rule' (List.mem_cons_of_mem _ hmem)]
      rfl

end

/-- The signature of the sample sink covers its identifier. -/
theorem checkable_sampleSink (C : Crypto) : Checkable C sampleSink.headers sampleConfig where
  visible := by decide
  distinct := by
    have hnames : ∀ t ∈ outgoingHeaderMapToConfigs sampleSink.headers.entries,
        ∀ u ∈ outgoingHeaderMapToConfigs sampleSink.headers.entries,
          HeaderName.fromStr t.header = HeaderName.fromStr u.header → t = u := by decide
    exact fun t ht u hu name hname hname' => hnames t ht u hu (hname.trans hname'.symm)
  covered := by
    refine ⟨[("X-Id", .static "42" "" "")], [], rfl, fun body before hbefore header hmem => ?_⟩
    obtain rfl := List.mem_singleton.mp hmem
    rw [← Except.ok.inj hbefore]
    exact ⟨⟨Text.utf8 "42", false, by decide⟩, "42", by decide, by decide⟩

end CdvizCollector.Sinks
