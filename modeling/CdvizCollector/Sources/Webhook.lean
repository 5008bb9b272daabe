import CdvizCollector.Security.Rule
import CdvizCollector.Transformers.Pipe

/-!
The webhook source (`sources/webhook/mod.rs`).

A request is validated, parsed, and handed to the pipe of the source with the
headers to keep. Validation reads the first line of a header; forwarding keeps
the last line that is not sensitive and is visible ASCII. The two agree exactly
when those lines do, which is what `forwards_validated_iff` says.
-/

namespace CdvizCollector.Sources.Webhook

open Lib Lib.Http Security Transformers

/-- `WebhookState`, but for the pipe. -/
structure WebhookState where
  headersToKeep : List HeaderName
  headers : List HeaderRuleConfig
  baseMetadata : Json

structure Request where
  headers : HeaderMap
  body : List UInt8

structure Response where
  status : ℕ
  retryAfter : Option String
  detail : Option String
deriving DecidableEq, Repr

/-- `ReportWrapper::into_response`: only an error of the caller is detailed, and
any other is an internal failure. -/
def reportResponse (e : Error) : Response :=
  if 400 ≤ e.statusCode ∧ e.statusCode < 500 then
    { status := e.statusCode, retryAfter := none, detail := some e.message }
  else { status := 500, retryAfter := none, detail := none }

def Response.ofError : Error → Response
  | .queueSaturated _ _ => { status := 503, retryAfter := some "1", detail := none }
  | e => reportResponse e

theorem ValidationError.status_cases (e : ValidationError) : e.status = 401 ∨ e.status = 403 := by
  cases e with
  | missingHeader | signatureValidation => exact .inl rfl
  | invalidValue | patternMismatch => exact .inr rfl

theorem Response.status_ofError (e : Error) : (Response.ofError e).status ≠ 201 := by
  cases e <;> simp [Response.ofError, reportResponse, Error.statusCode]

/-- The event made of a request whose body is `body`. -/
def WebhookState.event (W : WebhookState) (headers : HeaderMap) (body : Json) : Event :=
  { metadata := W.baseMetadata, headers := filterHttpHeaders headers W.headersToKeep, body }

variable {σ : Type}

/-- `webhook`. There is no response when the pipe panics. `fromBytes` is the JSON
parser, with the message of a rejection. -/
def webhook (E : Primitives) (fromBytes : List UInt8 → Except String Json) (W : WebhookState)
    (next : Pipe σ) (s : σ) (request : Request) : Option Response × σ :=
  match validateHeaders E request.headers W.headers request.body with
  | .error e =>
      (some { status := e.status, retryAfter := none,
              detail := some ("Header validation failed: " ++ e.message) }, s)
  | .ok () =>
      match fromBytes request.body with
      | .error e => (some { status := 400, retryAfter := none, detail := some e }, s)
      | .ok body =>
          match next s (W.event request.headers body) with
          | (.ok, s) => (some { status := 201, retryAfter := none, detail := none }, s)
          | (.err e, s) => (some (.ofError e), s)
          | (.panic, s) => (none, s)

/-! ### What is validated and what is forwarded -/

/-- The header a rule compares, matches or verifies, and those a signature covers. -/
def constrained (rules : List HeaderRuleConfig) : List String :=
  rules.flatMap fun config =>
    match config.rule with
    | .exists => []
    | .equals _ _ _ _ | .matches _ => [config.header]
    | .signature _ _ _ signatureOn _ => config.header :: signatureOn.names

/-- The value forwarded under a name. -/
def forwarded (W : WebhookState) (headers : HeaderMap) (name : HeaderName) : Option String :=
  (filterHttpHeaders headers W.headersToKeep).lookup name.name

/-- Every forwarded header that is constrained has the value that was validated:
the one `HeaderMap::get` finds. -/
def ForwardsValidated (W : WebhookState) (headers : HeaderMap) : Prop :=
  ∀ header ∈ constrained W.headers, ∀ name, HeaderName.fromStr header = some name →
    ∀ text, forwarded W headers name = some text →
      ∃ value, headers.getStr header = some value ∧ value.toStr = some text

/-- A line that can be forwarded. -/
def isForwardable (value : HeaderValue) : Bool := !value.sensitive && value.toStr.isSome

/-- The last forwardable line of a name has the bytes of its first line. -/
def LastIsFirst (headers : HeaderMap) (name : HeaderName) : Prop :=
  ∀ last, ((headers.getAll name).filter isForwardable).getLast? = some last →
    ∀ first, headers.get name = some first → last.bytes = first.bytes

theorem HeaderName.name_inj {n m : HeaderName} (h : n.name = m.name) : n = m := by
  cases n; cases m; cases h; rfl

/-- Of the lines to keep, the first one of a name is its first forwardable line. -/
theorem lookup_keptEntry (keep : List HeaderName) (name : HeaderName) (headers : HeaderMap) :
    (headers.filterMap (keptEntry keep)).lookup name.name =
      if name ∈ keep then ((headers.getAll name).filter isForwardable).head?.bind HeaderValue.toStr
      else none := by
  induction headers with
  | nil => simp
  | cons line headers ih =>
      obtain ⟨n, value⟩ := line
      by_cases hname : n = name
      · subst hname
        rw [HeaderMap.getAll_cons, if_pos rfl]
        by_cases hkeep : n ∈ keep
        · rw [if_pos hkeep] at ih ⊢
          cases hsensitive : value.sensitive with
          | true => simpa [keptEntry, isForwardable, hsensitive] using ih
          | false =>
              cases htext : value.toStr with
              | none => simpa [keptEntry, isForwardable, hsensitive, hkeep, htext] using ih
              | some text => simp [keptEntry, isForwardable, hsensitive, hkeep, htext]
        · rw [if_neg hkeep] at ih ⊢
          have hskip : keptEntry keep (n, value) = none := by
            simp only [keptEntry, hkeep, not_false_eq_true, if_true, ite_self]
          rw [List.filterMap_cons_none hskip, ih]
      · have hne : (name.name == n.name) = false :=
          beq_eq_false_iff_ne.mpr fun h => hname (HeaderName.name_inj h.symm)
        rw [HeaderMap.getAll_cons, if_neg hname, ← ih, List.filterMap_cons]
        cases hentry : keptEntry keep (n, value) with
        | none => rfl
        | some entry =>
            have hkey : entry.1 = n.name := by
              unfold keptEntry at hentry
              split at hentry
              · contradiction
              · split at hentry
                · contradiction
                · obtain ⟨text, -, rfl⟩ := Option.map_eq_some_iff.mp hentry
                  rfl
            obtain ⟨key, text⟩ := entry
            simp only at hkey
            simp [List.lookup_cons, hkey, hne]

/-- What is forwarded under a name is its last forwardable line. -/
theorem forwarded_eq (W : WebhookState) (headers : HeaderMap) (name : HeaderName) :
    forwarded W headers name =
      if name ∈ W.headersToKeep then
        ((headers.getAll name).filter isForwardable).getLast?.bind HeaderValue.toStr
      else none := by
  rw [forwarded, filterHttpHeaders, Assoc.lookup_ofList, ← List.filterMap_reverse,
    lookup_keptEntry, HeaderMap.getAll_reverse, List.filter_reverse, List.head?_reverse]

/-- Of any request, and so of any that is accepted: what the webhook forwards is
what it validated exactly when, for each header to keep that is constrained, the
last forwardable line is the same as the first line. A name on one line only
meets this. -/
theorem forwards_validated_iff (W : WebhookState) (headers : HeaderMap) :
    ForwardsValidated W headers ↔
      ∀ header ∈ constrained W.headers, ∀ name, HeaderName.fromStr header = some name →
        name ∈ W.headersToKeep → LastIsFirst headers name := by
  constructor
  · intro h header hheader name hname hkeep last hlast first hfirst
    have hforwardable : isForwardable last = true :=
      List.of_mem_filter (List.mem_of_getLast? hlast)
    simp only [isForwardable, Bool.and_eq_true, Option.isSome_iff_exists] at hforwardable
    obtain ⟨-, text, htext⟩ := hforwardable
    have hforwarded : forwarded W headers name = some text := by
      rw [forwarded_eq, if_pos hkeep, hlast, Option.bind_some, htext]
    obtain ⟨value, hvalue, hsame⟩ := h header hheader name hname text hforwarded
    rw [getStr_of_fromStr hname, hfirst, Option.some.injEq] at hvalue
    exact HeaderValue.bytes_of_toStr htext (hvalue ▸ hsame)
  · intro h header hheader name hname text hforwarded
    rw [forwarded_eq] at hforwarded
    split at hforwarded
    · rename_i hkeep
      obtain ⟨last, hlast, htext⟩ := Option.bind_eq_some_iff.mp hforwarded
      have hmem : last ∈ headers.getAll name :=
        List.mem_of_mem_filter (List.mem_of_getLast? hlast)
      have hfound : headers.get name ≠ none := by
        rw [HeaderMap.get, ne_eq, List.head?_eq_none_iff]
        exact List.ne_nil_of_mem hmem
      obtain ⟨first, hfirst⟩ := Option.ne_none_iff_exists'.mp hfound
      have hbytes := h header hheader name hname hkeep last hlast first hfirst
      exact ⟨first, (getStr_of_fromStr hname).trans hfirst,
        (HeaderValue.toStr_congr hbytes).symm.trans htext⟩
    · contradiction

/-- A token header on two lines: the first one is compared, the second one is
forwarded. -/
theorem second_line_is_forwarded :
    ¬∀ (E : Primitives) (W : WebhookState) (headers : HeaderMap) (body : List UInt8),
      validateHeaders E headers W.headers body = .ok () → ForwardsValidated W headers := by
  intro h
  let E : Primitives :=
    { hmacSha256 := fun _ _ => [], base64Encode := fun _ => "", base64Decode := fun _ => none,
      hexString := fun _ => "", hexDecode := fun _ => none, regex := fun _ => .error "",
      toLowercase := Text.toAsciiLowercase }
  let name : HeaderName := ⟨"x-token", by decide⟩
  let W : WebhookState :=
    { headersToKeep := [name], headers := [⟨"x-token", .equals "good" true "" ""⟩],
      baseMetadata := .null }
  let headers : HeaderMap :=
    [(name, ⟨Text.utf8 "good", false, by decide⟩), (name, ⟨Text.utf8 "evil", false, by decide⟩)]
  have hfaithful := h E W headers [] (by decide)
  obtain ⟨value, hvalue, htext⟩ := hfaithful "x-token" (by decide) name (by decide) "evil"
    (by decide)
  have hgood : headers.getStr "x-token" = some ⟨Text.utf8 "good", false, by decide⟩ := by decide
  rw [hgood, Option.some.injEq] at hvalue
  subst hvalue
  exact absurd htext (by decide)

end CdvizCollector.Sources.Webhook
