import CdvizCollector.Sinks.HttpSink
import CdvizCollector.Sources.SendCdevents

/-!
How often the http sink sends a header.

All but the configured headers are appended, each step without a look at the
others; only the default content type asks for the headers of the event. The
configured headers replace what is there.
-/

namespace CdvizCollector.Sinks

open Lib Lib.Http Security

/-! ### What is appended -/

def defaultHeaders (event : Event) : StringMap :=
  if event.headers.any fun entry => Text.toAsciiLowercase entry.1 = "content-type" then []
  else [("content-type", "application/json")]

/-- The headers of the context, and the version if there is any of them. -/
def cloudeventsHeaders (event : Event) : StringMap :=
  match event.body.get "context" with
  | none => []
  | some ctx =>
      let values := cloudeventsFields.filterMap fun (header, field) =>
        ((ctx.get field).bind Json.asStr).map fun value => (header, value)
      values ++ if values ≠ [] then [("ce-specversion", "1.0")] else []

def forwardedHeaders (event : Event) : StringMap :=
  event.headers.filter fun entry => Text.toAsciiLowercase entry.1 ∉ managedHeaders

def appendedHeaders (event : Event) (trace : StringMap) : StringMap :=
  defaultHeaders event ++ (cloudeventsHeaders event ++ (forwardedHeaders event ++ trace))

/-- The names, as they are compared. -/
def lowerNames (headers : StringMap) : List String :=
  headers.map fun entry => Text.toAsciiLowercase entry.1

def HttpSink.configuredNames (S : HttpSink) : List String :=
  S.headers.entries.map fun entry => Text.toAsciiLowercase entry.1

/-- The names that no configured header replaces. -/
def HttpSink.unconfigured (S : HttpSink) (headers : StringMap) : List String :=
  (lowerNames headers).filter fun name => name ∉ S.configuredNames

/-- Up to case, and apart from what is configured: no two headers of the event have one name,
none has the name of a CloudEvents header, and what the span injects is neither twice there
nor anywhere before. -/
structure NamesApart (S : HttpSink) (event : Event) (trace : StringMap) : Prop where
  forwarded : (S.unconfigured (forwardedHeaders event)).Nodup
  cloudevents : ∀ name ∈ S.unconfigured (cloudeventsHeaders event),
    name ∉ S.unconfigured (forwardedHeaders event)
  injected : (S.unconfigured trace).Nodup
  behind : ∀ name ∈ S.unconfigured trace,
    name ∉ S.unconfigured (defaultHeaders event) ∧
      name ∉ S.unconfigured (cloudeventsHeaders event) ∧
      name ∉ S.unconfigured (forwardedHeaders event)

/-- Every header is sent once, none that frames the request is forwarded, and a configured one
has the value that was generated for it. -/
structure SendsOnce (C : Crypto) (S : HttpSink) (trace : StringMap) (built : HeaderMap)
    (body : List UInt8) : Prop where
  once : built.names.Nodup
  managed : ∀ name ∈ built.names, name.name ∈ managedHeaders →
    name.name ∈ S.configuredNames ∨ name.name ∈ lowerNames trace
  configured : ∀ generated,
    generateHeaders C (outgoingHeaderMapToConfigs S.headers.entries) body = .ok generated →
      ∀ name ∈ generated.names, ∃ value,
        generated.getAll name = [value] ∧ built.getAll name = [value]

/-! ### The steps as one list -/

def appendHeaders (req : RequestBuilder) (headers : StringMap) : RequestBuilder :=
  headers.foldl (fun req (name, value) => req.header name value) req

theorem appendHeaders_append (req : RequestBuilder) (headers headers' : StringMap) :
    appendHeaders req (headers ++ headers') = appendHeaders (appendHeaders req headers) headers' :=
  List.foldl_append

theorem addCloudeventsHeaders_eq (req : RequestBuilder) (event : Event) :
    addCloudeventsHeaders req event = appendHeaders req (cloudeventsHeaders event) := by
  unfold addCloudeventsHeaders cloudeventsHeaders
  cases event.body.get "context" with
  | none => rfl
  | some ctx =>
      dsimp only
      rw [appendHeaders_append]
      split <;> rfl

theorem foldl_forwarded (req : RequestBuilder) (headers : StringMap) :
    headers.foldl (fun req (name, value) =>
        if Text.toAsciiLowercase name ∈ managedHeaders then req else req.header name value) req =
      appendHeaders req
        (headers.filter fun entry => Text.toAsciiLowercase entry.1 ∉ managedHeaders) := by
  induction headers generalizing req with
  | nil => rfl
  | cons entry headers ih =>
      obtain ⟨name, value⟩ := entry
      rw [List.foldl_cons, ih, List.filter_cons]
      dsimp only
      by_cases hmanaged : Text.toAsciiLowercase name ∈ managedHeaders
      · rw [if_pos hmanaged, if_neg (by simp [hmanaged])]
      · rw [if_neg hmanaged, if_pos (by simp [hmanaged])]
        rfl

theorem unsignedHeaders_eq (event : Event) (trace : StringMap) :
    unsignedHeaders event trace = appendHeaders (.ok []) (appendedHeaders event trace) := by
  dsimp only [unsignedHeaders]
  rw [appendedHeaders, appendHeaders_append, appendHeaders_append, appendHeaders_append,
    addCloudeventsHeaders_eq, foldl_forwarded, defaultHeaders]
  cases event.headers.any fun entry => Text.toAsciiLowercase entry.1 = "content-type" <;> rfl

theorem name_of_fromStr {s : String} {name : HeaderName} (h : HeaderName.fromStr s = some name) :
    name.name = Text.toAsciiLowercase s := by
  dsimp only [HeaderName.fromStr] at h
  split at h
  · rw [← Option.some.inj h]
  · cases h

theorem header_ok {headers base : HeaderMap} {name value : String}
    (h : RequestBuilder.header (.ok headers) name value = .ok base) :
    ∃ n v, HeaderName.fromStr name = some n ∧ base = headers ++ [(n, v)] := by
  unfold RequestBuilder.header at h
  simp only [bind, Except.bind] at h
  split at h
  · rename_i n v hname _
    exact ⟨n, v, hname, (Except.ok.inj h).symm⟩
  · cases h
  · cases h

theorem appendHeaders_error (message : String) (headers : StringMap) :
    appendHeaders (.error message) headers = .error message := by
  induction headers with
  | nil => rfl
  | cons entry headers ih => exact ih

/-- The names of what is appended, in order. -/
theorem names_appendHeaders {pairs : StringMap} {headers base : HeaderMap}
    (h : appendHeaders (.ok headers) pairs = .ok base) :
    base.names.map HeaderName.name = headers.names.map HeaderName.name ++ lowerNames pairs := by
  induction pairs generalizing headers with
  | nil =>
      obtain rfl := Except.ok.inj h
      exact (List.append_nil _).symm
  | cons entry pairs ih =>
      have hcons : appendHeaders (.ok headers) (entry :: pairs) =
          appendHeaders (RequestBuilder.header (.ok headers) entry.1 entry.2) pairs := rfl
      rw [hcons] at h
      cases hreq : RequestBuilder.header (.ok headers) entry.1 entry.2 with
      | error message =>
          rw [hreq, appendHeaders_error] at h
          cases h
      | ok middle =>
          rw [hreq] at h
          obtain ⟨n, v, hname, rfl⟩ := header_ok hreq
          rw [ih h]
          simp [HeaderMap.names, lowerNames, name_of_fromStr hname]

/-! ### What is configured -/

theorem nodup_names_insert {headers : HeaderMap} (h : headers.names.Nodup) (name : HeaderName)
    (value : HeaderValue) : (headers.insert name value).names.Nodup := by
  have hfilter : HeaderMap.names (headers.filter fun line => line.1 ≠ name) =
      headers.names.filter fun n => n ≠ name := by
    rw [HeaderMap.names, HeaderMap.names, List.filter_map]
    rfl
  have happend : (headers.insert name value).names =
      (headers.names.filter fun n => n ≠ name) ++ [name] := by
    rw [← hfilter, HeaderMap.insert, HeaderMap.names, List.map_append]
    rfl
  rw [happend, List.nodup_append]
  refine ⟨h.filter _, List.nodup_singleton name, ?_⟩
  intro a ha b hb
  rw [List.mem_singleton.mp hb]
  exact of_decide_eq_true (List.mem_filter.mp ha).2

section

variable {C : Crypto} {configs : List OutgoingHeaderConfig} {body : List UInt8}
  {headers result : HeaderMap}

theorem nodup_names_generate (hnodup : headers.names.Nodup)
    (h : generateHeadersWithExisting C configs body headers = .ok result) :
    result.names.Nodup := by
  induction configs generalizing headers with
  | nil => rwa [← Except.ok.inj h]
  | cons config configs ih =>
      obtain ⟨name, value, -, hrest⟩ := generate_cons_eq_ok_iff.mp h
      exact ih (nodup_names_insert hnodup name value) hrest

theorem mem_names_insert {name n : HeaderName} {value : HeaderValue} :
    n ∈ (headers.insert name value).names ↔ n ∈ headers.names ∨ n = name := by
  by_cases hn : n = name
  · refine iff_of_true ?_ (Or.inr hn)
    rw [HeaderMap.names, HeaderMap.insert, List.map_append, hn]
    exact List.mem_append_right _ (List.mem_singleton.mpr rfl)
  · rw [or_iff_left hn, ← not_iff_not, ← HeaderMap.getAll_eq_nil_iff,
      HeaderMap.getAll_insert_of_ne hn, HeaderMap.getAll_eq_nil_iff]

/-- The names of the entries are generated, and no others. -/
theorem mem_names_generate
    (h : generateHeadersWithExisting C configs body headers = .ok result) {name : HeaderName} :
    name ∈ result.names ↔ name ∈ headers.names ∨
      name.name ∈ configs.map fun config => Text.toAsciiLowercase config.header := by
  induction configs generalizing headers with
  | nil =>
      rw [← Except.ok.inj h]
      exact (or_iff_left List.not_mem_nil).symm
  | cons config configs ih =>
      obtain ⟨n, value, ⟨hname, -⟩, hrest⟩ := generate_cons_eq_ok_iff.mp h
      have heq : name = n ↔ name.name = Text.toAsciiLowercase config.header := by
        rw [← name_of_fromStr hname]
        cases name
        cases n
        exact Iff.of_eq (HeaderName.mk.injEq _ _ _ _)
      rw [ih hrest, mem_names_insert, List.map_cons, List.mem_cons, heq, or_assoc]

end

theorem names_replace (base generated : HeaderMap) :
    (base.replace generated).names =
      (base.names.filter fun name => name ∉ generated.names) ++ generated.names := by
  rw [HeaderMap.replace, HeaderMap.names, List.map_append]
  refine congrArg (· ++ generated.names) ?_
  rw [HeaderMap.names.eq_1 base, List.filter_map]
  refine congrArg (List.map Prod.fst) (List.filter_congr fun line _ => ?_)
  have hiff : (generated.any fun new => new.1 = line.1) = true ↔ line.1 ∈ generated.names := by
    simp only [List.any_eq_true, decide_eq_true_eq, HeaderMap.names, List.mem_map]
  rw [Function.comp_apply, decide_eq_decide, hiff]

theorem nodup_names_replace_iff (base : HeaderMap) {generated : HeaderMap}
    (h : generated.names.Nodup) :
    (base.replace generated).names.Nodup ↔
      (base.names.filter fun name => name ∉ generated.names).Nodup := by
  rw [names_replace, List.nodup_append]
  refine ⟨And.left, fun hbase => ⟨hbase, h, ?_⟩⟩
  rintro a ha _ hb rfl
  exact of_decide_eq_true (List.mem_filter.mp ha).2 hb

/-- A name that occurs once has one value. -/
theorem exists_getAll_of_nodup {headers : HeaderMap} (hnodup : headers.names.Nodup)
    {name : HeaderName} (hname : name ∈ headers.names) :
    ∃ value, headers.getAll name = [value] := by
  induction headers with
  | nil => cases hname
  | cons line headers ih =>
      rw [HeaderMap.names, List.map_cons, List.nodup_cons] at hnodup
      rw [HeaderMap.getAll_cons]
      by_cases hline : line.1 = name
      · have hnil := HeaderMap.getAll_eq_nil_iff.mpr hnodup.1
        rw [if_pos hline, ← hline, hnil]
        exact ⟨line.2, rfl⟩
      · rw [if_neg hline]
        refine ih hnodup.2 ?_
        exact (List.mem_cons.mp hname).resolve_left fun heq => hline heq.symm

theorem name_injective : Function.Injective HeaderName.name := by
  rintro ⟨a, ha⟩ ⟨b, hb⟩ h
  subst h
  rfl

/-! ### What is appended once -/

section

variable (S : HttpSink) (event : Event) (trace : StringMap)

theorem unconfigured_append (headers headers' : StringMap) :
    S.unconfigured (headers ++ headers') = S.unconfigured headers ++ S.unconfigured headers' := by
  rw [HttpSink.unconfigured, lowerNames, List.map_append, List.filter_append]
  rfl

theorem mem_unconfigured {headers : StringMap} {name : String}
    (h : name ∈ S.unconfigured headers) : name ∈ lowerNames headers :=
  (List.mem_filter.mp h).1

theorem map_fst_filterMap_sublist (f : String → Option String) (fields : StringMap) :
    ((fields.filterMap fun (header, field) => (f field).map fun value => (header, value)).map
      Prod.fst).Sublist (fields.map Prod.fst) := by
  induction fields with
  | nil => exact List.Sublist.refl []
  | cons entry fields ih =>
      obtain ⟨header, field⟩ := entry
      cases hf : f field with
      | none =>
          simp only [List.filterMap_cons, hf, Option.map_none, List.map_cons]
          exact ih.cons header
      | some value =>
          simp only [List.filterMap_cons, hf, Option.map_some, List.map_cons]
          exact ih.cons_cons header

/-- The CloudEvents headers are some of these, in this order. -/
theorem lowerNames_cloudevents :
    (lowerNames (cloudeventsHeaders event)).Sublist
      ["ce-id", "ce-source", "ce-type", "ce-time", "ce-specversion"] := by
  unfold cloudeventsHeaders
  cases event.body.get "context" with
  | none => exact List.nil_sublist _
  | some ctx =>
      have hvalues := (map_fst_filterMap_sublist (fun field => (ctx.get field).bind Json.asStr)
        cloudeventsFields).map Text.toAsciiLowercase
      rw [List.map_map] at hvalues
      dsimp only
      rw [lowerNames, List.map_append]
      refine List.Sublist.append hvalues (?_ : List.Sublist _ ["ce-specversion"])
      split
      · exact List.Sublist.refl _
      · exact List.nil_sublist _

theorem lowerNames_default :
    lowerNames (defaultHeaders event) = [] ∨
      lowerNames (defaultHeaders event) = ["content-type"] ∧
        "content-type" ∉ lowerNames (forwardedHeaders event) := by
  unfold defaultHeaders
  split
  · exact Or.inl rfl
  · rename_i hany
    refine Or.inr ⟨rfl, ?_⟩
    intro hmem
    obtain ⟨entry, hentry, hname⟩ := List.mem_map.mp hmem
    refine hany (List.any_eq_true.mpr ⟨entry, (List.mem_filter.mp hentry).1, ?_⟩)
    exact decide_eq_true hname

theorem nodup_appended_iff :
    (S.unconfigured (appendedHeaders event trace)).Nodup ↔ NamesApart S event trace := by
  have hce := lowerNames_cloudevents event
  have hcenodup : (S.unconfigured (cloudeventsHeaders event)).Nodup :=
    (hce.nodup (by decide)).filter _
  have hdefault : (S.unconfigured (defaultHeaders event)).Nodup ∧
      ∀ name ∈ S.unconfigured (defaultHeaders event),
        name ∉ S.unconfigured (cloudeventsHeaders event) ∧
          name ∉ S.unconfigured (forwardedHeaders event) := by
    rcases lowerNames_default event with hnil | ⟨hone, hforwarded⟩
    · rw [HttpSink.unconfigured, hnil]
      exact ⟨List.nodup_nil, List.forall_mem_nil _⟩
    · refine ⟨?_, ?_⟩
      · rw [HttpSink.unconfigured, hone]
        exact (List.nodup_singleton _).filter _
      · intro name hname
        have heq : name = "content-type" := by
          have hmem := mem_unconfigured S hname
          rw [hone] at hmem
          exact List.mem_singleton.mp hmem
        subst heq
        refine ⟨fun hmem => ?_, fun hmem => hforwarded (mem_unconfigured S hmem)⟩
        exact absurd (hce.subset (mem_unconfigured S hmem)) (by decide)
  rw [appendedHeaders, unconfigured_append, unconfigured_append, unconfigured_append,
    List.nodup_append, List.nodup_append, List.nodup_append]
  simp only [List.mem_append]
  constructor
  · rintro ⟨-, ⟨-, ⟨hforwarded, htrace, hft⟩, hcr⟩, hdr⟩
    refine ⟨hforwarded, ?_, htrace, ?_⟩
    · intro name hname hmem
      exact hcr name hname name (Or.inl hmem) rfl
    · intro name hname
      refine ⟨?_, ?_, ?_⟩
      · exact fun hmem => hdr name hmem name (Or.inr (Or.inr hname)) rfl
      · exact fun hmem => hcr name hmem name (Or.inr hname) rfl
      · exact fun hmem => hft name hmem name hname rfl
  · intro h
    refine ⟨hdefault.1, ⟨hcenodup, ⟨h.forwarded, h.injected, ?_⟩, ?_⟩, ?_⟩
    · rintro name hname _ hmem rfl
      exact (h.behind name hmem).2.2 hname
    · rintro name hname _ (hmem | hmem) rfl
      · exact h.cloudevents name hname hmem
      · exact (h.behind name hmem).2.1 hname
    · rintro name hname _ (hmem | hmem | hmem) rfl
      · exact (hdefault.2 name hname).1 hmem
      · exact (hdefault.2 name hname).2 hmem
      · exact (h.behind name hmem).1 hname

end

/-! ### What is sent -/

section

variable {C : Crypto} {toVec : Json → List UInt8} {S : HttpSink} {event : Event}
  {trace : StringMap} {built : HeaderMap} {body : List UInt8}

/-- A configured name is the name of an entry. -/
theorem mem_names_configured {generated : HeaderMap} (h : generateHeaders C
    (outgoingHeaderMapToConfigs S.headers.entries) body = .ok generated) {name : HeaderName} :
    name ∈ generated.names ↔ name.name ∈ S.configuredNames := by
  rw [mem_names_generate h, HttpSink.configuredNames, outgoingHeaderMapToConfigs, List.map_map]
  exact or_iff_right List.not_mem_nil

theorem managed_appended {name : String} (hname : name ∈ managedHeaders)
    (hmem : name ∈ lowerNames (appendedHeaders event trace)) : name ∈ lowerNames trace := by
  rw [appendedHeaders, lowerNames, List.map_append, List.map_append, List.map_append,
    List.mem_append, List.mem_append, List.mem_append] at hmem
  rcases hmem with hmem | hmem | hmem | hmem
  · rcases lowerNames_default event with hnil | ⟨hone, -⟩
    · rw [← lowerNames, hnil] at hmem
      cases hmem
    · rw [← lowerNames, hone, List.mem_singleton] at hmem
      subst hmem
      exact absurd hname (by decide)
  · have hce := (lowerNames_cloudevents event).subset hmem
    refine absurd hname ?_
    have hall : ∀ n ∈ ["ce-id", "ce-source", "ce-type", "ce-time", "ce-specversion"],
        n ∉ managedHeaders := by decide
    exact hall name hce
  · obtain ⟨entry, hentry, rfl⟩ := List.mem_map.mp hmem
    exact absurd hname (of_decide_eq_true (List.mem_filter.mp hentry).2)
  · exact hmem

/-- Each header of a request is sent once exactly when the appended names are apart. -/
theorem sends_once_iff (hbuilt : S.sendEvent C toVec event trace = .ok (built, body)) :
    SendsOnce C S trace built body ↔ NamesApart S event trace := by
  obtain ⟨-, base, generated, hbase, hgenerated, rfl⟩ := sendEvent_eq_ok_iff.mp hbuilt
  have hempty : (HeaderMap.names []).Nodup := List.nodup_nil
  have hnodup : generated.names.Nodup := nodup_names_generate hempty hgenerated
  rw [unsignedHeaders_eq] at hbase
  have hnames : base.names.map HeaderName.name = lowerNames (appendedHeaders event trace) :=
    names_appendHeaders hbase
  have honce : (base.replace generated).names.Nodup ↔ NamesApart S event trace := by
    rw [nodup_names_replace_iff base hnodup, ← nodup_appended_iff, HttpSink.unconfigured,
      ← hnames, List.filter_map, List.nodup_map_iff name_injective]
    refine iff_of_eq (congrArg List.Nodup (List.filter_congr fun name _ => ?_))
    rw [Function.comp_apply, decide_eq_decide, mem_names_configured hgenerated]
  refine ⟨fun h => honce.mp h.once, fun h => ⟨honce.mpr h, ?_, ?_⟩⟩
  · intro name hname hmanaged
    rw [names_replace, List.mem_append] at hname
    rcases hname with hname | hname
    · right
      have hmem : name.name ∈ lowerNames (appendedHeaders event trace) := by
        rw [← hnames]
        exact List.mem_map_of_mem (List.mem_filter.mp hname).1
      exact managed_appended hmanaged hmem
    · exact Or.inl ((mem_names_configured hgenerated).mp hname)
  · intro generated' hgenerated' name hname
    obtain rfl := Except.ok.inj (hgenerated.symm.trans hgenerated')
    obtain ⟨value, hvalue⟩ := exists_getAll_of_nodup hnodup hname
    exact ⟨value, hvalue, by rw [HeaderMap.getAll_replace base hname, hvalue]⟩

end

theorem sends_once_sample :
    SendsOnce sampleCrypto sampleSink [("traceparent", "00-01-01")]
      ((sampleSink.sendEvent sampleCrypto sampleToVec sampleEvent
        [("traceparent", "00-01-01")]).toOption.map Prod.fst |>.getD [])
      (Text.utf8 "{}") := by
  have hbuilt : sampleSink.sendEvent sampleCrypto sampleToVec sampleEvent
      [("traceparent", "00-01-01")] = .ok
        ((sampleSink.sendEvent sampleCrypto sampleToVec sampleEvent
          [("traceparent", "00-01-01")]).toOption.map Prod.fst |>.getD [],
        Text.utf8 "{}") := by decide +kernel
  refine (sends_once_iff hbuilt).mpr ⟨?_, ?_, ?_, ?_⟩
  · decide +kernel
  · decide +kernel
  · decide +kernel
  · decide +kernel

/-- An event with the trace context of its source, as it is enqueued. -/
def tracedEvent : Event :=
  { sampleEvent with
    headers := Sources.injectCurrentContext [("traceparent", "00-01-02-01")] [] }

/-- Its trace context is forwarded, and the one of the sink is appended. -/
theorem traceparent_sent_twice :
    ¬∀ (S : HttpSink) (event : Event) (trace : StringMap) (built : HeaderMap) (body : List UInt8),
      S.sendEvent sampleCrypto sampleToVec event trace = .ok (built, body) →
        SendsOnce sampleCrypto S trace built body := by
  intro h
  let S : HttpSink := { headers := { entries := [], nodup := List.nodup_nil } }
  let trace : StringMap := [("traceparent", "00-01-03-01")]
  let built := (S.sendEvent sampleCrypto sampleToVec tracedEvent trace).toOption.map Prod.fst
  have hbuilt : S.sendEvent sampleCrypto sampleToVec tracedEvent trace =
      .ok (built.getD [], Text.utf8 "{}") := by decide +kernel
  have htwice : ¬(built.getD []).names.Nodup := by decide +kernel
  exact htwice (h S tracedEvent trace _ _ hbuilt).once

end CdvizCollector.Sinks
