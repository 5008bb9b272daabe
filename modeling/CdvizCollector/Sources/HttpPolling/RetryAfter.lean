import CdvizCollector.Lib.System
import CdvizCollector.Security.Header
import CdvizCollector.Sources.HttpPolling.Request

/-!
The middleware that follows redirects and server-requested retries
(`sources/http_polling/retry_after_middleware.rs`).

A call of the middleware sends a request, and sends again as the responses ask
for: to another URL on a redirect, unchanged on a retry. The state records what
was sent and the hops that led there. Credentials are dropped hop by hop, each
hop being compared with its own predecessor, and a request only ever loses
headers: that is `Descends`, and everything else is by induction on the sends.
-/

namespace CdvizCollector.Sources.HttpPolling.RetryAfter

open Lib Lib.Http Security

def maxRedirects : ℕ := 10

def maxRetries : ℕ := 10

structure RetryAfterMiddleware where
  configuredHeaders : List HeaderName
  trustedRedirectHosts : TrustedHosts

/-! ### Requests and responses -/

/-- `reqwest::Body`: a stream can be sent only once. -/
inductive Body where
  | bytes (content : List UInt8)
  | stream
deriving DecidableEq, Repr

structure Request where
  method : String
  url : Url
  headers : HeaderMap
  body : Option Body
deriving DecidableEq

/-- `Request::try_clone`. -/
def Request.tryClone (req : Request) : Option Request :=
  match req.body with
  | some .stream => none
  | _ => some req

structure Response where
  status : ℕ
  headers : HeaderMap
deriving DecidableEq

/-- What one response is read with: `Url::join`, and the time left from now until
an HTTP date, if it is one and not past. -/
structure Reader where
  join : Url → String → Option Url
  untilDate : String → Option ℕ

def resolveLocation (R : Reader) (headers : HeaderMap) (base : Url) : Option Url := do
  let value ← headers.getStr "location"
  let raw ← value.toStr
  R.join base raw

def parseRetryAfter (R : Reader) (headers : HeaderMap) : Option ℕ := do
  let value ← headers.getStr "retry-after"
  let raw ← value.toStr
  let value := Text.trim raw
  match Text.parseU64 value with
  | some secs => return secs * second
  | none => R.untilDate value

/-! ### Credentials -/

def authorization : HeaderName := ⟨"authorization", by decide⟩
def cookie : HeaderName := ⟨"cookie", by decide⟩
def proxyAuthorization : HeaderName := ⟨"proxy-authorization", by decide⟩

/-- The headers dropped on a cross-origin hop whether they are configured or not. -/
def credentialHeaders : List HeaderName := [authorization, cookie, proxyAuthorization]

def stripCredentialsIfCrossOrigin (req : Request) (newUrl : Url)
    (configuredHeaders : List HeaderName) (trustedRedirectHosts : TrustedHosts) : Request :=
  if isCrossOrigin req.url newUrl then
    let keepConfigured := mayForwardHeaders req.url newUrl trustedRedirectHosts
    -- a trusted host keeps a configured `Authorization`, not an unconfigured one
    let headers := credentialHeaders.foldl
      (fun headers name =>
        if !(keepConfigured && name ∈ configuredHeaders) then headers.remove name else headers)
      req.headers
    let headers :=
      if !keepConfigured then
        configuredHeaders.foldl HeaderMap.remove headers
      else headers
    { req with headers }
  else req

/-! ### The loop -/

/-- A request as it was sent, with the hops that led to it. -/
structure Send where
  request : Request
  hops : List (Url × Url)

/-- A call of `handle`: the request of this round, the counters, what was sent so
far and, once the loop is left, what is returned (`none` for a failed send). -/
structure Call where
  current : Request
  redirectCount : ℕ
  retryCount : ℕ
  hops : List (Url × Url)
  sent : List Send
  result : Option (Option Response)

/-- The first round. -/
def Call.start (req : Request) : Call :=
  { current := req, redirectCount := 0, retryCount := 0, hops := [], sent := [⟨req, []⟩],
    result := none }

def Call.return (s : Call) (resp : Response) : Call := { s with result := some (some resp) }

/-- Go round with a request for another URL. -/
def Call.redirect (s : Call) (req : Request) : Call :=
  let hops := s.hops ++ [(s.current.url, req.url)]
  { s with
    current := req, redirectCount := s.redirectCount + 1, hops,
    sent := s.sent ++ [⟨req, hops⟩] }

/-- Go round with the same request. -/
def Call.retry (s : Call) (req : Request) : Call :=
  { s with
    current := req, retryCount := s.retryCount + 1, sent := s.sent ++ [⟨req, s.hops⟩] }

/-- The redirect branches of `handle`; they differ in what they make of the
stripped request. -/
def RetryAfterMiddleware.followLocation (M : RetryAfterMiddleware) (R : Reader) (s : Call)
    (resp : Response) (rewrite : Request → Url → Request) : Call :=
  if s.redirectCount ≥ maxRedirects then s.return resp
  else
    match s.current.tryClone with
    | none => s.return resp
    | some req =>
        match resolveLocation R resp.headers req.url with
        | none => s.return resp
        | some loc =>
            let req := stripCredentialsIfCrossOrigin req loc M.configuredHeaders
              M.trustedRedirectHosts
            s.redirect (rewrite req loc)

/-- The retry branch of `handle`; without `Retry-After` the response is left to
the middleware outside. -/
def retryAfter (R : Reader) (s : Call) (resp : Response) : Call :=
  if s.retryCount ≥ maxRetries then s.return resp
  else
    match s.current.tryClone with
    | none => s.return resp
    | some req =>
        match parseRetryAfter R resp.headers with
        | none => s.return resp
        | some _ => s.retry req

/-- What one round of `handle` does with the response it gets. -/
def RetryAfterMiddleware.handle (M : RetryAfterMiddleware) (R : Reader) (s : Call)
    (resp : Response) : Call :=
  if resp.status = 303 then
    M.followLocation R s resp fun req loc => { req with method := "GET", url := loc, body := none }
  else if resp.status = 429 ∨ resp.status = 503 then retryAfter R s resp
  else if resp.status = 301 ∨ resp.status = 302 ∨ resp.status = 307 ∨ resp.status = 308 then
    M.followLocation R s resp fun req loc => { req with url := loc }
  else s.return resp

/-- Any server behind it, and a send that may fail. -/
inductive Step (M : RetryAfterMiddleware) : Call → Call → Prop
  | answered {s : Call} (R : Reader) (resp : Response) (hrunning : s.result = none) :
      Step M s (M.handle R s resp)
  | failed {s : Call} (hrunning : s.result = none) : Step M s { s with result := some none }

/-- The calls of the middleware with a request. -/
def system (M : RetryAfterMiddleware) (req : Request) : System Call where
  init s := s = .start req
  step := Step M

theorem reachable_handle {M : RetryAfterMiddleware} {req : Request} {s : Call}
    (h : (system M req).Reachable s) (hrunning : s.result = none) (R : Reader) (resp : Response) :
    (system M req).Reachable (M.handle R s resp) :=
  .next h (Step.answered R resp hrunning)

/-! ### Scope -/

/-- The hops over which configured headers may be carried. -/
def RetryAfterMiddleware.MayCarry (M : RetryAfterMiddleware) (hop : Url × Url) : Prop :=
  SameOrigin hop.1 hop.2 ∨
    TrustedTarget M.trustedRedirectHosts hop.2 ∧ NoDowngrade hop.1 hop.2

/-- What a sent request may still carry after the hops that led to it. -/
structure Send.Scoped (M : RetryAfterMiddleware) (send : Send) : Prop where
  configured : ∀ name ∈ M.configuredHeaders, name ∈ send.request.headers.names →
    ∀ hop ∈ send.hops, M.MayCarry hop
  credential : ∀ name ∈ credentialHeaders, name ∉ M.configuredHeaders →
    name ∈ send.request.headers.names → ∀ hop ∈ send.hops, SameOrigin hop.1 hop.2

/-- How a send differs from the one before it: no header is new, and a hop is
one that its headers may be carried over. -/
structure Descends (M : RetryAfterMiddleware) (before after : Send) : Prop where
  headers : after.request.headers ⊆ before.request.headers
  hops : after.hops = before.hops ∨ ∃ hop, hop = (before.request.url, after.request.url) ∧
    after.hops = before.hops ++ [hop] ∧ Send.Scoped M ⟨after.request, [hop]⟩

theorem names_subset {headers headers' : HeaderMap} (h : headers' ⊆ headers) {name : HeaderName}
    (hmem : name ∈ headers'.names) : name ∈ headers.names := by
  obtain ⟨value, hline⟩ := HeaderMap.mem_names.mp hmem
  exact HeaderMap.mem_names.mpr ⟨value, h hline⟩

theorem Descends.scoped {M : RetryAfterMiddleware} {before after : Send}
    (h : Descends M before after) (hbefore : before.Scoped M) : after.Scoped M := by
  have hold : Send.Scoped M ⟨after.request, before.hops⟩ :=
    { configured := fun name hname hmem =>
        hbefore.configured name hname (names_subset h.headers hmem)
      credential := fun name hname hconf hmem =>
        hbefore.credential name hname hconf (names_subset h.headers hmem) }
  rcases h.hops with heq | ⟨hop, -, heq, hnew⟩
  · exact { configured := heq ▸ hold.configured, credential := heq ▸ hold.credential }
  · constructor
    · intro name hname hmem hop' hop'mem
      rw [heq] at hop'mem
      rcases List.mem_append.mp hop'mem with hin | hin
      · exact hold.configured name hname hmem hop' hin
      · exact hnew.configured name hname hmem hop' hin
    · intro name hname hconf hmem hop' hop'mem
      rw [heq] at hop'mem
      rcases List.mem_append.mp hop'mem with hin | hin
      · exact hold.credential name hname hconf hmem hop' hin
      · exact hnew.credential name hname hconf hmem hop' hin

/-! ### What one round keeps -/

/-- A header survives the stripping of a cross-origin hop if it is neither dropped
as a credential nor as a configured header. -/
theorem mem_stripCredentials {req : Request} {newUrl : Url} {configured : List HeaderName}
    {trusted : TrustedHosts} {line : HeaderName × HeaderValue} :
    line ∈ (stripCredentialsIfCrossOrigin req newUrl configured trusted).headers ↔
      line ∈ req.headers ∧ (isCrossOrigin req.url newUrl = true →
        (line.1 ∈ credentialHeaders →
          mayForwardHeaders req.url newUrl trusted = true ∧ line.1 ∈ configured) ∧
        (line.1 ∈ configured → mayForwardHeaders req.url newUrl trusted = true)) := by
  unfold stripCredentialsIfCrossOrigin
  by_cases hcross : isCrossOrigin req.url newUrl = true
  · rw [if_pos hcross]
    simp only [← List.foldl_filter]
    by_cases hkeep : mayForwardHeaders req.url newUrl trusted = true
    · simp [hcross, hkeep, HeaderMap.mem_foldl_remove, List.mem_filter]
    · simp only [Bool.not_eq_true] at hkeep
      simp [hcross, hkeep, HeaderMap.mem_foldl_remove, and_assoc]
  · rw [if_neg hcross]
    simp [hcross]

/-- A redirect with stripped credentials descends. -/
theorem descends_redirect (M : RetryAfterMiddleware) (req : Request) (hops : List (Url × Url))
    {next : Request} {newUrl : Url} (hurl : next.url = newUrl)
    (hheaders : next.headers = (stripCredentialsIfCrossOrigin req newUrl M.configuredHeaders
      M.trustedRedirectHosts).headers) :
    Descends M ⟨req, hops⟩ ⟨next, hops ++ [(req.url, next.url)]⟩ := by
  have hline : ∀ line ∈ next.headers, _ := fun line hmem =>
    mem_stripCredentials.mp (hheaders ▸ hmem)
  refine { headers := fun line hmem => (hline line hmem).1, hops := .inr ⟨_, rfl, rfl, ?_⟩ }
  rw [hurl]
  constructor
  · intro name hname hmem hop hhop
    obtain ⟨value, hmem⟩ := HeaderMap.mem_names.mp hmem
    rw [List.mem_singleton.mp hhop]
    by_cases hcross : isCrossOrigin req.url newUrl = true
    · exact mayForwardHeaders_iff.mp (((hline _ hmem).2 hcross).2 hname)
    · exact .inl (isCrossOrigin_eq_false_iff.mp (Bool.not_eq_true _ ▸ hcross))
  · intro name hname hconf hmem hop hhop
    obtain ⟨value, hmem⟩ := HeaderMap.mem_names.mp hmem
    rw [List.mem_singleton.mp hhop]
    by_cases hcross : isCrossOrigin req.url newUrl = true
    · exact absurd (((hline _ hmem).2 hcross).1 hname).2 hconf
    · exact isCrossOrigin_eq_false_iff.mp (Bool.not_eq_true _ ▸ hcross)

/-- What is being sent in a round. -/
def Call.last (s : Call) : Send := ⟨s.current, s.hops⟩

/-- A round that sends again, within the limits. -/
structure SendsAgain (M : RetryAfterMiddleware) (s t : Call) : Prop where
  sent : t.sent = s.sent ++ [t.last]
  descends : Descends M s.last t.last
  result : t.result = s.result
  counted : t.redirectCount = s.redirectCount + 1 ∧ t.retryCount = s.retryCount ∧
      s.redirectCount < maxRedirects ∨
    t.redirectCount = s.redirectCount ∧ t.retryCount = s.retryCount + 1 ∧
      s.retryCount < maxRetries

theorem Request.tryClone_eq {req clone : Request} (h : req.tryClone = some clone) :
    clone = req := by
  unfold Request.tryClone at h
  split at h
  · cases h
  · exact (Option.some.inj h).symm

theorem sendsAgain_redirect {M : RetryAfterMiddleware} {s : Call} {next : Request} {newUrl : Url}
    (hcount : s.redirectCount < maxRedirects) (hurl : next.url = newUrl)
    (hheaders : next.headers = (stripCredentialsIfCrossOrigin s.current newUrl
      M.configuredHeaders M.trustedRedirectHosts).headers) :
    SendsAgain M s (s.redirect next) :=
  { sent := rfl, result := rfl, counted := .inl ⟨rfl, rfl, hcount⟩
    descends := descends_redirect M s.current s.hops hurl hheaders }

theorem sendsAgain_retry {M : RetryAfterMiddleware} {s : Call}
    (hcount : s.retryCount < maxRetries) :
    SendsAgain M s (s.retry s.current) :=
  { sent := rfl, result := rfl, counted := .inr ⟨rfl, rfl, hcount⟩
    descends := { headers := fun _ hmem => hmem, hops := .inl rfl } }

theorem followLocation_cases (M : RetryAfterMiddleware) (R : Reader) (s : Call) (resp : Response)
    {rewrite : Request → Url → Request} (hurl : ∀ req loc, (rewrite req loc).url = loc)
    (hheaders : ∀ req loc, (rewrite req loc).headers = req.headers) :
    M.followLocation R s resp rewrite = s.return resp ∨
      SendsAgain M s (M.followLocation R s resp rewrite) := by
  unfold RetryAfterMiddleware.followLocation
  by_cases hcount : s.redirectCount ≥ maxRedirects
  · exact .inl (if_pos hcount)
  · rw [if_neg hcount]
    cases hclone : s.current.tryClone with
    | none => exact .inl rfl
    | some req =>
        obtain rfl := Request.tryClone_eq hclone
        simp only
        cases hloc : resolveLocation R resp.headers s.current.url with
        | none => exact .inl rfl
        | some loc =>
            exact .inr (sendsAgain_redirect (Nat.lt_of_not_le hcount) (hurl _ _) (hheaders _ _))

theorem retryAfter_cases (M : RetryAfterMiddleware) (R : Reader) (s : Call) (resp : Response) :
    retryAfter R s resp = s.return resp ∨ SendsAgain M s (retryAfter R s resp) := by
  unfold retryAfter
  by_cases hcount : s.retryCount ≥ maxRetries
  · exact .inl (if_pos hcount)
  · rw [if_neg hcount]
    cases hclone : s.current.tryClone with
    | none => exact .inl rfl
    | some req =>
        obtain rfl := Request.tryClone_eq hclone
        simp only
        cases hretry : parseRetryAfter R resp.headers with
        | none => exact .inl rfl
        | some _ => exact .inr (sendsAgain_retry (Nat.lt_of_not_le hcount))

/-- A round returns its response or sends again. -/
theorem handle_cases (M : RetryAfterMiddleware) (R : Reader) (s : Call) (resp : Response) :
    M.handle R s resp = s.return resp ∨ SendsAgain M s (M.handle R s resp) := by
  unfold RetryAfterMiddleware.handle
  split
  · exact followLocation_cases M R s resp (fun _ _ => rfl) fun _ _ => rfl
  · split
    · exact retryAfter_cases M R s resp
    · split
      · exact followLocation_cases M R s resp (fun _ _ => rfl) fun _ _ => rfl
      · exact .inl rfl

/-! ### Whole calls -/

/-- What holds of everything a call has sent. -/
structure Call.Scoped (M : RetryAfterMiddleware) (s : Call) : Prop where
  each : ∀ send ∈ s.sent, send.Scoped M
  last : s.last.Scoped M
  lowest : ∀ send ∈ s.sent, s.current.headers ⊆ send.request.headers
  shrinking : s.sent.Pairwise fun earlier later =>
    later.request.headers ⊆ earlier.request.headers
  length : s.sent.length = s.redirectCount + s.retryCount + 1
  redirects : s.redirectCount ≤ maxRedirects
  retries : s.retryCount ≤ maxRetries

theorem Call.Scoped.sendsAgain {M : RetryAfterMiddleware} {s t : Call} (hs : s.Scoped M)
    (h : SendsAgain M s t) : t.Scoped M := by
  have hlast : t.last.Scoped M := h.descends.scoped hs.last
  have hlower : ∀ send ∈ s.sent, t.current.headers ⊆ send.request.headers := by
    intro send hmem line hline
    exact hs.lowest send hmem (h.descends.headers hline)
  refine
    { each := ?_, last := hlast, lowest := ?_, shrinking := ?_, length := ?_,
      redirects := ?_, retries := ?_ }
  · rw [h.sent]
    intro send hmem
    rcases List.mem_append.mp hmem with hmem | hmem
    · exact hs.each send hmem
    · exact List.mem_singleton.mp hmem ▸ hlast
  · rw [h.sent]
    intro send hmem
    rcases List.mem_append.mp hmem with hmem | hmem
    · exact hlower send hmem
    · exact List.mem_singleton.mp hmem ▸ fun _ hline => hline
  · rw [h.sent]
    refine List.pairwise_append.mpr ⟨hs.shrinking, List.pairwise_singleton _ _, ?_⟩
    intro send hmem later hlater
    exact List.mem_singleton.mp hlater ▸ hlower send hmem
  · rw [h.sent, List.length_append, List.length_singleton, hs.length]
    rcases h.counted with ⟨hr, ht, -⟩ | ⟨hr, ht, -⟩ <;> omega
  · have := hs.redirects
    rcases h.counted with ⟨hr, -, hlt⟩ | ⟨hr, -, -⟩ <;> omega
  · have := hs.retries
    rcases h.counted with ⟨-, ht, -⟩ | ⟨-, ht, hlt⟩ <;> omega

theorem scoped_invariant (M : RetryAfterMiddleware) (req : Request) :
    (system M req).Invariant (Call.Scoped M) where
  init := by
    rintro s rfl
    have hstart : Send.Scoped M ⟨req, []⟩ := ⟨by simp, by simp⟩
    constructor
    · simpa [Call.start] using hstart
    · exact hstart
    · simp [Call.start]
    · exact List.pairwise_singleton _ _
    · rfl
    · exact Nat.zero_le _
    · exact Nat.zero_le _
  step := by
    intro s t hs hstep
    have hreturned : ∀ result, Call.Scoped M { s with result := result } := fun result =>
      { each := hs.each, last := hs.last, lowest := hs.lowest, shrinking := hs.shrinking,
        length := hs.length, redirects := hs.redirects, retries := hs.retries }
    cases hstep with
    | answered R resp hrunning =>
        rcases handle_cases M R s resp with heq | hagain
        · rw [heq]
          exact hreturned _
        · exact hs.sendsAgain hagain
    | failed hrunning => exact hreturned _

/-- A call never sends more often than its limits allow. -/
theorem sent_length_le {M : RetryAfterMiddleware} {req : Request} {s : Call}
    (h : (system M req).Reachable s) : s.sent.length ≤ maxRedirects + maxRetries + 1 := by
  have hs := (scoped_invariant M req).holds h
  rw [hs.length]
  have hredirects := hs.redirects
  have hretries := hs.retries
  omega

/-- Whatever the responses of a call are, its sends carry a configured header only
over hops that may carry it, an unconfigured credential only within its origin,
and a header that was dropped is not sent again. -/
theorem credentials_scoped {M : RetryAfterMiddleware} {req : Request} {s : Call}
    (h : (system M req).Reachable s) :
    (∀ send ∈ s.sent, send.Scoped M) ∧
      s.sent.Pairwise fun earlier later =>
        later.request.headers ⊆ earlier.request.headers := by
  have hs := (scoped_invariant M req).holds h
  exact ⟨hs.each, hs.shrinking⟩

/-! A call that is redirected to a trusted host, then to another one, and there
asked to come back later. -/

def apiKey : HeaderName := ⟨"x-api-key", by decide⟩

def textValue (text : String) (h : (Text.utf8 text).all isValueByte = true := by decide) :
    HeaderValue :=
  { bytes := Text.utf8 text, sensitive := false, valid := h }

def sampleMiddleware : RetryAfterMiddleware where
  configuredHeaders := [apiKey]
  trustedRedirectHosts host := host = .domain "cdn.example"

def sampleRequest : Request :=
  { method := "GET", url := siteRoot "https" "api.example", body := none,
    headers := [(authorization, textValue "Basic dTpw"), (apiKey, textValue "k")] }

/-- `Url::join` on the two absolute locations of the sample. -/
def sampleReader : Reader where
  join _ raw :=
    if raw = "https://cdn.example/" then some (siteRoot "https" "cdn.example")
    else if raw = "https://other.example/" then some (siteRoot "https" "other.example")
    else none
  untilDate _ := none

def sampleAnswer (status : ℕ) (header value : String)
    (h : (Text.utf8 value).all isValueByte = true := by decide) : Response :=
  { status
    headers := (HeaderName.fromStr header).toList.map fun name => (name, textValue value h) }

def sampleCall : Call :=
  let handle := sampleMiddleware.handle sampleReader
  let trusted := handle (.start sampleRequest)
    (sampleAnswer 302 "Location" "https://cdn.example/")
  let untrusted := handle trusted (sampleAnswer 307 "Location" "https://other.example/")
  handle untrusted (sampleAnswer 429 "Retry-After" "1")

/-- The trusted host still gets the configured header, the other one nothing. -/
theorem credentials_scoped_sample :
    (sampleCall.sent.map fun send => send.request.headers.names) =
        [[authorization, apiKey], [apiKey], [], []] ∧
      (∀ send ∈ sampleCall.sent, send.Scoped sampleMiddleware) ∧
      sampleCall.sent.Pairwise fun earlier later =>
        later.request.headers ⊆ earlier.request.headers := by
  have hreach : (system sampleMiddleware sampleRequest).Reachable sampleCall := by
    refine reachable_handle (reachable_handle (reachable_handle (.init rfl) rfl _ _) ?_ _ _) ?_ _ _
    · decide
    · decide
  exact ⟨by decide, credentials_scoped hreach⟩

end CdvizCollector.Sources.HttpPolling.RetryAfter
