import CdvizCollector.Lib.System
import CdvizCollector.Security.Header
import CdvizCollector.Sources.HttpPolling.Request

/-!
One poll of an HTTP source (`run_once` in `sources/http_polling/mod.rs`).

A poll drives a worklist. The driver seeds it, up to `max_concurrency` requests
are in flight at a time, and a response may lead the driver to add more. Futures
are lazy: a request put in flight starts only when the loop next waits, and any
of the started ones may complete first. A step of `Step` is what the loop does
between two such choices; the readings of the clock and the responses are left
open. Times are in nanoseconds.
-/

namespace CdvizCollector.Sources.HttpPolling

open Lib Lib.Http Security

abbrev Instant := ℕ

/-! ### Responses -/

/-- What `fetch` keeps of a response; its content type is read from the headers. -/
structure FetchedResponse where
  status : ℕ
  headers : HeaderMap
  bodyText : String

def FetchedResponse.contentType (resp : FetchedResponse) : Option String :=
  (resp.headers.getStr "content-type").bind HeaderValue.toStr

def FetchedResponse.isSuccess (resp : FetchedResponse) : Bool :=
  200 ≤ resp.status && resp.status < 300

inductive Behavior where
  | skip
  | hold
  | retry
  | abort
deriving DecidableEq, Repr

abbrev StatusPolicy := List (String × Behavior)

/-- `StatusPolicy::resolve`: exact code, then class, then built-in default. -/
def StatusPolicy.resolve (policy : StatusPolicy) (status : ℕ) : Behavior :=
  match policy.lookup (toString status) with
  | some behavior => behavior
  | none =>
      match policy.lookup (toString (status / 100) ++ "xx") with
      | some behavior => behavior
      | none =>
          if status = 401 ∨ status = 403 then .abort else if 500 ≤ status then .hold else .skip

def maxRateLimitWait : ℕ := 3600 * second

def headerNum (headers : HeaderMap) (name : String) : Option ℤ :=
  ((headers.getStr name).bind HeaderValue.toStr).bind fun text => Text.parseI64 (Text.trim text)

/-- `rate_limit_reset_in`; `unixNow` is the wall clock in seconds, if it is past
the epoch. -/
def rateLimitResetIn (headers : HeaderMap) (unixNow : Option ℕ) : Option ℕ := do
  let remaining ← headerNum headers "x-ratelimit-remaining"
  if 0 < remaining then none
  else
    let resetAt ← headerNum headers "x-ratelimit-reset"
    let now ← unixNow
    let wait : ℤ := resetAt - now
    if now ≤ Text.maxI64 ∧ 0 < wait then some ((wait.toNat + 1) * second) else none

/-! ### Configuration -/

/-- A source, with the window of the poll, and what it takes from elsewhere: the
driver (the result of its n-th run in a poll, since a program need not be pure),
JSON and URL parsing, the uppercase of a string, the signature algorithms, and
what the upstream may answer to a request, `none` being a transport failure. -/
structure Params where
  metadata : Json
  tsAfter : String
  tsBefore : String
  headers : List OutgoingHeaderConfig
  headersToKeep : List HeaderName
  parser : ParserConfig
  minRequestInterval : Option ℕ
  maxConcurrency : ℕ
  maxRequests : ℕ
  maxDepth : ℕ
  onStatus : StatusPolicy
  driver : ℕ → Json → Option Json
  fromStr : String → Option Json
  parseUrl : String → Option Url
  toUppercase : String → String
  crypto : Crypto

def Params.concurrency (P : Params) : ℕ := Nat.max P.maxConcurrency 1

def Params.baseMetadata (P : Params) : Json.Fields :=
  Assoc.insert "ts_before" (.str P.tsBefore)
    (Assoc.insert "ts_after" (.str P.tsAfter) (P.metadata.asObject.getD []))

def jsonNat (n : ℕ) : Json := .num (.posInt (UInt64.ofNat n))

def Params.responseJson (P : Params) (resp : FetchedResponse) : Json :=
  let body := (P.fromStr resp.bodyText).getD (.str resp.bodyText)
  let headers := resp.headers.filterMap fun line =>
    line.2.toStr.map fun text => (line.1.name, text)
  .obj [("body", body), ("headers", .ofStrings headers), ("status", jsonNat resp.status)]

def requestJson (spec : RequestSpec) : Json :=
  .obj [("headers", .ofStrings spec.headers), ("method", .str spec.method), ("url", .str spec.url)]

def Params.buildDriverInput (P : Params) (state : Json) (request : Option RequestSpec)
    (response : Option FetchedResponse) : Json :=
  .obj [("metadata", .obj P.baseMetadata),
    ("request", (request.map requestJson).getD .null),
    ("response", (response.map P.responseJson).getD .null),
    ("state", state)]

def Params.buildEventMetadata (P : Params) (url method : String) (status : ℕ) (state : Json) :
    Json :=
  let httpPolling : Json.Fields :=
    [("method", .str method), ("status", jsonNat status), ("url", .str url)]
  let httpPolling :=
    if state.isNull then httpPolling else Assoc.insert "state" state httpPolling
  .obj (Assoc.insert "http_polling" (.obj httpPolling) P.baseMetadata)

/-! ### Tasks -/

structure RequestTask where
  spec : RequestSpec
  stateSnapshot : Json
  depth : ℕ

/-- `driver_tasks`; `n` counts the runs of the driver. -/
def Params.driverTasks (P : Params) (n : ℕ) (input : Json) (depth : ℕ) :
    Option (List RequestTask) :=
  (execute (P.driver n) input).map fun out =>
    out.requests.map fun spec => { spec, stateSnapshot := out.state, depth }

def Params.bootstrap (P : Params) : Option (List RequestTask) :=
  P.driverTasks 0 (P.buildDriverInput .null none none) 0

/-- The events `emit_response` hands to the pipe. -/
def Params.emitResponse (P : Params) (task : RequestTask) (resp : FetchedResponse) : List Event :=
  let parser := task.spec.parser.getD P.parser
  match (parser.resolve resp.contentType).parse P.fromStr resp.bodyText with
  | none => []
  | some values =>
      let metadata :=
        P.buildEventMetadata task.spec.url task.spec.method resp.status task.stateSnapshot
      let headers := filterHttpHeaders resp.headers P.headersToKeep
      values.map fun body => { metadata, headers, body }

/-! ### Fetching -/

structure OutgoingRequest where
  method : String
  url : Url
  headers : HeaderMap
  body : Option (List UInt8)

/-- The characters of a method: the token characters, with uppercase letters. -/
def isMethod (method : String) : Bool :=
  method ≠ "" && method.toList.all fun c => isNameChar c || c.isUpper

/-- Headers the driver asks for, after `Accept`. A name or a value that is not
valid makes the request fail. -/
def Params.driverHeaders (P : Params) (spec : RequestSpec) : Option HeaderMap :=
  (("accept", P.parser.acceptHeader) :: spec.headers).mapM fun header => do
    let name ← HeaderName.fromStr header.1
    let value ← HeaderValue.fromStr header.2
    return (name, value)

/-- The headers of a request: the configured ones are attached unless its URL is
of another origin than the trusted one, if there is one. -/
def Params.requestHeaders (P : Params) (trustedOrigin : Option Url) (url : Url)
    (driverHeaders : HeaderMap) (body : List UInt8) : HeaderMap :=
  let sameOrigin := trustedOrigin.elim true fun trusted => !isCrossOrigin trusted url
  if sameOrigin then
    match generateHeaders P.crypto P.headers body with
    | .ok headers => driverHeaders.replace headers
    | .error _ => driverHeaders
  else driverHeaders

/-- The request `fetch` sends, or none when the spec makes no valid one. -/
def Params.fetchRequest (P : Params) (trustedOrigin : Option Url) (spec : RequestSpec) :
    Option OutgoingRequest := do
  let method := P.toUppercase spec.method
  let parsed := if isMethod method then P.parseUrl spec.url else none
  let url ← parsed
  let url := spec.query.foldl (fun url pair => url.appendPair pair.1 pair.2) url
  let driverHeaders ← P.driverHeaders spec
  let body := spec.body.getD []
  return { method, url, headers := P.requestHeaders trustedOrigin url driverHeaders body,
           body := spec.body }

/-! ### The worklist -/

inductive PollOutcome where
  | advance
  | hold
  | abort
deriving DecidableEq, Repr

structure InFlight where
  task : RequestTask
  started : Option Instant

/-- The loop fills the slots, waits for a completion, or is over. -/
inductive Phase where
  | filling
  | awaiting
  | done (outcome : PollOutcome)
deriving DecidableEq, Repr

/-- A completed request, its response, and whether it applied a rate limit. -/
structure Processed where
  task : RequestTask
  response : Option FetchedResponse
  rateLimited : Bool

/-- What is recorded of a poll and its loop does not read. -/
structure PollLog where
  /-- Tasks taken off the queue to be fetched. -/
  fetched : List RequestTask
  /-- When they were put in flight. -/
  pushed : List Instant
  /-- Requests started, and when. -/
  started : List (RequestTask × Instant)
  /-- Requests sent. -/
  sent : List (RequestTask × OutgoingRequest)
  /-- Completed requests. -/
  processed : List Processed
  /-- Events handed to the pipe. -/
  emitted : List Event
  /-- Whether the request budget was reached with work left. -/
  exhausted : Bool

structure Poll where
  queue : List RequestTask
  inflight : List InFlight
  issued : ℕ
  progressed : ℕ
  nextAllowed : Option Instant
  rateLimitedUntil : Option Instant
  trustedOrigin : Option Url
  driverRuns : ℕ
  phase : Phase
  now : Instant
  log : PollLog

def PollLog.empty : PollLog :=
  { fetched := [], pushed := [], started := [], sent := [], processed := [], emitted := []
    exhausted := false }

def Params.trustedOrigin (P : Params) : Option Url :=
  (P.bootstrap.bind List.head?).bind fun task => P.parseUrl task.spec.url

/-- The poll after its bootstrap. `rateLimitedUntil` is what the source carries
from an earlier poll. -/
def Params.start (P : Params) (rateLimitedUntil : Option Instant) (now : Instant) : Poll :=
  match P.bootstrap with
  | none =>
      { queue := [], inflight := [], issued := 0, progressed := 0, nextAllowed := none,
        rateLimitedUntil, trustedOrigin := none, driverRuns := 1, phase := .done .hold, now,
        log := .empty }
  | some queue =>
      { queue, inflight := [], issued := 0, progressed := 0, nextAllowed := rateLimitedUntil,
        rateLimitedUntil := none, trustedOrigin := P.trustedOrigin, driverRuns := 1,
        phase := .filling, now, log := .empty }

def laterOf (at' : Instant) (cur : Option Instant) : Option Instant :=
  some (cur.elim at' fun cur => Nat.max cur at')

/-- `apply_rate_limit_pause`: whether a pause was applied, and the poll after it. -/
def Poll.applyRateLimitPause (s : Poll) (headers : HeaderMap) (now : Instant)
    (unixNow : Option ℕ) : Bool × Poll :=
  match rateLimitResetIn headers unixNow with
  | none => (false, s)
  | some resetIn =>
      let at' := now + Nat.min resetIn maxRateLimitWait
      (true, { s with
        nextAllowed := laterOf at' s.nextAllowed
        rateLimitedUntil := laterOf at' s.rateLimitedUntil })

def Poll.refused (P : Params) (s : Poll) (task : RequestTask) (resp : FetchedResponse)
    (rateLimited : Bool) : Poll :=
  if rateLimited then { s with queue := task :: s.queue }
  else
    match P.onStatus.resolve resp.status with
    | .skip => { s with progressed := s.progressed + 1 }
    | .hold | .retry => s
    | .abort => { s with phase := .done .abort }

def Poll.feedBack (P : Params) (s : Poll) (task : RequestTask) (resp : FetchedResponse) : Poll :=
  if P.maxDepth ≤ task.depth then s
  else
    let input := P.buildDriverInput task.stateSnapshot (some task.spec) (some resp)
    let tasks := (P.driverTasks s.driverRuns input (task.depth + 1)).getD []
    { s with queue := s.queue ++ tasks, driverRuns := s.driverRuns + 1 }

def Poll.accepted (P : Params) (s : Poll) (task : RequestTask) (resp : FetchedResponse) : Poll :=
  let s := { s with progressed := s.progressed + 1 }
  let s :=
    if task.spec.route.emits then
      { s with log := { s.log with emitted := s.log.emitted ++ P.emitResponse task resp } }
    else s
  if task.spec.route.feedsBack then s.feedBack P task resp else s

def Poll.process (P : Params) (s : Poll) (task : RequestTask) (resp : Option FetchedResponse)
    (now : Instant) (unixNow : Option ℕ) : Poll :=
  match resp with
  | none =>
      { s with log := { s.log with
        processed := s.log.processed ++ [Processed.mk task none false] } }
  | some resp =>
      let (rateLimited, s) := s.applyRateLimitPause resp.headers now unixNow
      let s := { s with log := { s.log with
        processed := s.log.processed ++ [Processed.mk task (some resp) rateLimited] } }
      if resp.isSuccess then s.accepted P task resp else s.refused P task resp rateLimited

def Poll.outcome (s : Poll) : PollOutcome :=
  if 0 < s.issued ∧ s.progressed = 0 then .hold else .advance

/-! ### Steps -/

/-- A response the upstream may give to a task: a spec that makes no valid
request is a failure without one. -/
def Params.Answers (P : Params) (upstream : OutgoingRequest → Option FetchedResponse → Prop)
    (trustedOrigin : Option Url) (task : RequestTask) (resp : Option FetchedResponse) : Prop :=
  match P.fetchRequest trustedOrigin task.spec with
  | none => resp = none
  | some request => upstream request resp

inductive Step (P : Params) (upstream : OutgoingRequest → Option FetchedResponse → Prop) :
    Poll → Poll → Prop
  -- the clock is read again after the wait for `next_allowed`
  | issue {s : Poll} {task : RequestTask} {queue : List RequestTask} (now : Instant)
      (hphase : s.phase = .filling) (hroom : s.inflight.length < P.concurrency)
      (hqueue : s.queue = task :: queue) (hbudget : s.issued < P.maxRequests)
      (hnow : s.now ≤ now) (hallowed : ∀ at' ∈ s.nextAllowed, at' ≤ now) :
      Step P upstream s { s with
        queue
        inflight := s.inflight ++ [InFlight.mk task none]
        issued := s.issued + 1
        nextAllowed := P.minRequestInterval.map (now + ·)
        now
        log := { s.log with
          fetched := s.log.fetched ++ [task], pushed := s.log.pushed ++ [now] } }
  | budget {s : Poll} (hphase : s.phase = .filling)
      (hroom : s.inflight.length < P.concurrency) (hqueue : s.queue ≠ [])
      (hbudget : P.maxRequests ≤ s.issued) :
      Step P upstream s { s with
        queue := [], phase := .awaiting, log := { s.log with exhausted := true } }
  | filled {s : Poll} (hphase : s.phase = .filling)
      (hfilled : P.concurrency ≤ s.inflight.length ∨ s.queue = []) :
      Step P upstream s { s with phase := .awaiting }
  -- futures are polled in the order they were pushed
  | start {s : Poll} (before : List InFlight) {after : List InFlight} {task : RequestTask}
      (now : Instant)
      (hphase : s.phase = .awaiting)
      (hinflight : s.inflight = before ++ InFlight.mk task none :: after)
      (hbefore : ∀ f ∈ before, f.started.isSome) (hnow : s.now ≤ now) :
      Step P upstream s { s with
        inflight := before ++ InFlight.mk task (some now) :: after
        now
        log := { s.log with
          started := s.log.started ++ [(task, now)]
          sent := s.log.sent ++
            ((P.fetchRequest s.trustedOrigin task.spec).map fun request =>
              (task, request)).toList } }
  | complete {s : Poll} (before : List InFlight) {after : List InFlight} {task : RequestTask}
      {at' : Instant} (resp : Option FetchedResponse) (now : Instant) (unixNow : Option ℕ)
      (hphase : s.phase = .awaiting)
      (hinflight : s.inflight = before ++ InFlight.mk task (some at') :: after)
      (hnow : s.now ≤ now) (hanswer : P.Answers upstream s.trustedOrigin task resp) :
      Step P upstream s
        (Poll.process P { s with inflight := before ++ after, phase := .filling, now }
          task resp now unixNow)
  | refill {s : Poll} (hphase : s.phase = .awaiting) (hinflight : s.inflight = [])
      (hqueue : s.queue ≠ []) : Step P upstream s { s with phase := .filling }
  | finish {s : Poll} (hphase : s.phase = .awaiting) (hinflight : s.inflight = [])
      (hqueue : s.queue = []) : Step P upstream s { s with phase := .done s.outcome }

def system (P : Params) (upstream : OutgoingRequest → Option FetchedResponse → Prop) :
    System Poll where
  init s := ∃ rateLimitedUntil now, s = P.start rateLimitedUntil now
  step := Step P upstream

/-! ### A sample source -/

def sampleOrigin (host : String) : Url :=
  { scheme := "https", userInfo := "", host := some (.domain host), port := none, path := "/",
    query := none, fragment := none }

/-- `Url::parse`, as far as the sample source needs it. -/
def sampleParseUrl (text : String) : Option Url :=
  if text = "https://api.example.com/" then some (sampleOrigin "api.example.com")
  else if text = "https://other.example.org/" then some (sampleOrigin "other.example.org")
  else none

/-- The default configuration, with configured headers and a driver. -/
def Params.sample (headers : List OutgoingHeaderConfig) (driver : Json → Option Json) : Params :=
  { metadata := .obj [], tsAfter := "2026-01-01T00:00:00Z", tsBefore := "2026-01-02T00:00:00Z"
    headers, headersToKeep := [], parser := .auto, minRequestInterval := none
    maxConcurrency := 4, maxRequests := 1000, maxDepth := 50, onStatus := []
    driver := fun _ => driver
    fromStr := fun text => if text = "{}" then some (.obj []) else none
    parseUrl := sampleParseUrl, toUppercase := id
    crypto := ⟨fun _ _ => [], fun _ => "", fun _ => none, fun _ => "", fun _ => none⟩ }

/-- A driver that asks for these URLs, whatever it is given. -/
def askFor (route : String) (urls : List String) (_ : Json) : Option Json :=
  some (.obj [("requests",
    .arr (urls.map fun url => .obj [("route", .str route), ("url", .str url)]))])

def emptyObject : FetchedResponse := { status := 200, headers := [], bodyText := "{}" }

def sampleTask (url : String) : RequestTask :=
  { spec := { url, method := "GET", headers := [], body := none, query := [], route := .pipeline,
              parser := none }
    stateSnapshot := .null, depth := 0 }

theorem process_sampleTask {P : Params} (s : Poll) (url : String) (now : Instant) :
    s.process P (sampleTask url) (some emptyObject) now none = { s with
      progressed := s.progressed + 1
      log := { s.log with
        processed := s.log.processed ++ [⟨sampleTask url, some emptyObject, false⟩]
        emitted := s.log.emitted ++ P.emitResponse (sampleTask url) emptyObject } } := by
  have hpause : s.applyRateLimitPause emptyObject.headers now none = (false, s) := by
    have hreset : rateLimitResetIn emptyObject.headers none = none := by decide
    unfold Poll.applyRateLimitPause
    rw [hreset]
  unfold Poll.process
  simp only [hpause]
  rfl

end CdvizCollector.Sources.HttpPolling
