import CdvizCollector.Sources.HttpPolling.Effects

/-!
Where the configured headers of a source go.

The trusted origin of a poll is that of its first bootstrap request, and it is
fixed before the first request is sent. It is absent when that URL does not
parse, and `fetch` takes an absent origin as leave to attach the configured
headers anywhere.
-/

namespace CdvizCollector.Sources.HttpPolling

open Lib Lib.Http Security

variable {P : Params} {upstream : OutgoingRequest → Option FetchedResponse → Prop} {s t : Poll}

def Params.anchorText (P : Params) : Option String :=
  (P.bootstrap.bind List.head?).map fun task => task.spec.url

def Params.OnAnchor (P : Params) (url : Url) : Prop :=
  ∃ text anchor, P.anchorText = some text ∧ P.parseUrl text = some anchor ∧ SameOrigin anchor url

/-- A request away from the anchor carries what the driver asked for, and
nothing of the configured headers. -/
def Params.KeepsSecrets (P : Params) (s : Poll) : Prop :=
  ∀ sent ∈ s.log.sent,
    P.OnAnchor sent.2.url ∨ P.driverHeaders sent.1.spec = some sent.2.headers

/-- There is an anchor to compare with, or nothing to keep. -/
def Params.AnchorParses (P : Params) : Prop :=
  (∀ text ∈ P.anchorText, (P.parseUrl text).isSome = true) ∨ P.headers = []

theorem trustedOrigin_eq (P : Params) :
    P.trustedOrigin = P.anchorText.bind P.parseUrl := by
  unfold Params.trustedOrigin Params.anchorText
  cases P.bootstrap.bind List.head? <;> rfl

theorem onAnchor_of_trusted {anchor url : Url} (h : P.trustedOrigin = some anchor)
    (hsame : SameOrigin anchor url) : P.OnAnchor url := by
  rw [trustedOrigin_eq] at h
  obtain ⟨text, htext, hparse⟩ := Option.bind_eq_some_iff.mp h
  exact ⟨text, anchor, htext, hparse, hsame⟩

/-! ### One request -/

theorem requestHeaders_of_trusted {anchor url : Url} {driverHeaders : HeaderMap}
    {body : List UInt8} :
    SameOrigin anchor url ∨
      P.requestHeaders (some anchor) url driverHeaders body = driverHeaders := by
  cases hcross : isCrossOrigin anchor url with
  | false => exact .inl (isCrossOrigin_eq_false_iff.mp hcross)
  | true => exact .inr (by simp [Params.requestHeaders, hcross])

/-- Without a trusted origin the configured headers are attached to any URL. -/
theorem requestHeaders_of_none {url : Url} {driverHeaders generated : HeaderMap}
    {body : List UInt8} (h : generateHeaders P.crypto P.headers body = .ok generated) :
    P.requestHeaders none url driverHeaders body = driverHeaders.replace generated := by
  simp [Params.requestHeaders, h]

theorem requestHeaders_of_nil {origin : Option Url} {url : Url} {driverHeaders : HeaderMap}
    {body : List UInt8} (h : P.headers = []) :
    P.requestHeaders origin url driverHeaders body = driverHeaders := by
  have hgenerated : generateHeaders P.crypto P.headers body = .ok [] := by rw [h]; rfl
  simp only [Params.requestHeaders, hgenerated]
  split
  · simp [HeaderMap.replace]
  · rfl

theorem fetchRequest_headers {origin : Option Url} {spec : RequestSpec} {request : OutgoingRequest}
    (h : P.fetchRequest origin spec = some request) :
    ∃ driverHeaders, P.driverHeaders spec = some driverHeaders ∧
      request.headers =
        P.requestHeaders origin request.url driverHeaders (spec.body.getD []) := by
  unfold Params.fetchRequest at h
  obtain ⟨url, -, h⟩ := Option.bind_eq_some_iff.mp h
  obtain ⟨driverHeaders, hdriver, h⟩ := Option.bind_eq_some_iff.mp h
  obtain rfl := Option.some.inj h
  exact ⟨driverHeaders, hdriver, rfl⟩

/-! ### The requests of a poll -/

/-- Every request was sent under the trusted origin of the poll, and a poll
without a first request sends none. -/
structure Anchored (P : Params) (s : Poll) : Prop where
  origin : s.trustedOrigin = P.trustedOrigin
  sent : ∀ sent ∈ s.log.sent, P.fetchRequest P.trustedOrigin sent.1.spec = some sent.2
  idle : P.anchorText = none → s.queue = [] ∧ s.inflight = [] ∧ s.log.sent = []

theorem start_anchored (P : Params) (rateLimitedUntil : Option Instant) (now : Instant) :
    Anchored P (P.start rateLimitedUntil now) := by
  unfold Params.start
  cases hboot : P.bootstrap with
  | none =>
      exact ⟨by simp [Params.trustedOrigin, hboot], by simp [PollLog.empty],
        fun _ => ⟨rfl, rfl, rfl⟩⟩
  | some queue =>
      refine ⟨rfl, by simp [PollLog.empty], fun hnone => ⟨?_, rfl, rfl⟩⟩
      simpa [Params.anchorText, hboot] using hnone

theorem anchored_invariant (P : Params)
    (upstream : OutgoingRequest → Option FetchedResponse → Prop) :
    (system P upstream).Invariant (Anchored P) where
  init := by
    rintro s ⟨rateLimitedUntil, now, rfl⟩
    exact start_anchored P rateLimitedUntil now
  step := by
    intro s t hs hstep
    cases hstep with
    | issue now hphase hroom hqueue hbudget hnow hallowed =>
        refine ⟨hs.origin, hs.sent, fun hnone => ?_⟩
        rw [(hs.idle hnone).1] at hqueue
        contradiction
    | start before now hphase hinflight hbefore hnow =>
        rename_i after task
        refine ⟨hs.origin, fun sent hmem => ?_, fun hnone => ?_⟩
        · rcases List.mem_append.mp hmem with hmem | hmem
          · exact hs.sent sent hmem
          · obtain ⟨request, hrequest, rfl⟩ := Option.map_eq_some_iff.mp (Option.mem_toList.mp hmem)
            rw [← hs.origin]
            exact hrequest
        · rw [(hs.idle hnone).2.1] at hinflight
          simp at hinflight
    | complete before resp now unixNow hphase hinflight hnow hanswer =>
        rename_i after task at'
        have hidle : P.anchorText ≠ none := fun hnone => by
          rw [(hs.idle hnone).2.1] at hinflight
          simp at hinflight
        have hframed : ∀ {t : Poll} {entry : Processed},
            Framed { s with inflight := before ++ after, phase := .filling, now } t entry →
            Anchored P t := fun hframe =>
          ⟨hframe.trustedOrigin.trans hs.origin, by rw [hframe.sent]; exact hs.sent,
            fun hnone => absurd hnone hidle⟩
        cases process_effect P { s with inflight := before ++ after, phase := .filling, now } task
          resp now unixNow with
        | requeued hframe _ _ _ _ => exact hframed hframe
        | judged _ hframe _ _ _ _ => exact hframed hframe
    | budget => exact ⟨hs.origin, hs.sent, fun hnone => ⟨rfl, (hs.idle hnone).2⟩⟩
    | filled => exact ⟨hs.origin, hs.sent, hs.idle⟩
    | refill => exact ⟨hs.origin, hs.sent, hs.idle⟩
    | finish => exact ⟨hs.origin, hs.sent, hs.idle⟩

/-- When the URL of the first request does not parse, the configured headers go
out with every request that can be sent. -/
theorem unanchored_sent (h : (system P upstream).Reachable s) {text : String}
    (htext : P.anchorText = some text) (hparse : P.parseUrl text = none)
    {sent : RequestTask × OutgoingRequest} (hmem : sent ∈ s.log.sent) {generated : HeaderMap}
    (hgenerated :
      generateHeaders P.crypto P.headers (sent.1.spec.body.getD []) = .ok generated) :
    ∃ driverHeaders, P.driverHeaders sent.1.spec = some driverHeaders ∧
      sent.2.headers = driverHeaders.replace generated := by
  have hanchored := (anchored_invariant P upstream).holds h
  obtain ⟨driverHeaders, hdriver, hheaders⟩ := fetchRequest_headers (hanchored.sent sent hmem)
  have horigin : P.trustedOrigin = none := by
    rw [trustedOrigin_eq, htext]
    exact hparse
  refine ⟨driverHeaders, hdriver, ?_⟩
  rw [hheaders, horigin, requestHeaders_of_none hgenerated]

/-! ### Two requests at once -/

/-- The poll of a bootstrap with two requests, once both are started. -/
def Params.bothStarted (P : Params) (first second : RequestTask) : Poll :=
  let now := P.minRequestInterval.getD 0
  { queue := [], inflight := [⟨first, some now⟩, ⟨second, some now⟩], issued := 2, progressed := 0
    nextAllowed := P.minRequestInterval.map (now + ·), rateLimitedUntil := none
    trustedOrigin := P.trustedOrigin, driverRuns := 1, phase := .awaiting, now
    log := { PollLog.empty with
      fetched := [first, second], pushed := [0, now], started := [(first, now), (second, now)]
      sent :=
        ((P.fetchRequest P.trustedOrigin first.spec).map fun request => (first, request)).toList ++
        ((P.fetchRequest P.trustedOrigin second.spec).map fun request =>
          (second, request)).toList } }

/-- With room for two, both requests of a bootstrap go out before any response. -/
theorem bothStarted_run (upstream : OutgoingRequest → Option FetchedResponse → Prop)
    {first second : RequestTask} (hboot : P.bootstrap = some [first, second])
    (hslots : 2 ≤ P.concurrency) (hbudget : 2 ≤ P.maxRequests) :
    Relation.ReflTransGen (Step P upstream) (P.start none 0) (P.bothStarted first second) := by
  have hstart : P.start none 0 =
      { queue := [first, second], inflight := [], issued := 0, progressed := 0,
        nextAllowed := none, rateLimitedUntil := none, trustedOrigin := P.trustedOrigin,
        driverRuns := 1, phase := .filling, now := 0, log := .empty } := by
    simp only [Params.start, hboot]
  let interval := P.minRequestInterval.getD 0
  have hinterval : ∀ at' ∈ P.minRequestInterval.map (0 + ·), at' ≤ interval := by
    intro at' hat
    obtain ⟨n, hn, rfl⟩ := Option.map_eq_some_iff.mp (Option.mem_def.mp hat)
    simp [interval, hn]
  have h0 : Relation.ReflTransGen (Step P upstream) (P.start none 0) (P.start none 0) := .refl
  nth_rewrite 2 [hstart] at h0
  have h1 := h0.tail (.issue 0 rfl (Nat.lt_of_lt_of_le Nat.zero_lt_two hslots) rfl
    (Nat.lt_of_lt_of_le Nat.zero_lt_two hbudget) (Nat.le_refl _) (by simp))
  have h2 := h1.tail (.issue interval rfl (Nat.lt_of_lt_of_le Nat.one_lt_two hslots) rfl
    (Nat.lt_of_lt_of_le Nat.one_lt_two hbudget) (Nat.zero_le _) hinterval)
  have h3 := h2.tail (.filled rfl (.inr rfl))
  have h4 := h3.tail (.start [] interval rfl rfl (by simp) (Nat.le_refl _))
  have h5 := h4.tail (.start [⟨first, some interval⟩] interval rfl rfl (by simp)
    (Nat.le_refl _))
  exact h5

theorem bothStarted_reachable (upstream : OutgoingRequest → Option FetchedResponse → Prop)
    {first second : RequestTask} (hboot : P.bootstrap = some [first, second])
    (hslots : 2 ≤ P.concurrency) (hbudget : 2 ≤ P.maxRequests) :
    (system P upstream).Reachable (P.bothStarted first second) :=
  System.Reachable.trans (.init ⟨none, 0, rfl⟩) (bothStarted_run upstream hboot hslots hbudget)

/-! ### Where the secrets go -/

/-- In every poll with an anchor, whatever the driver makes of the responses,
the configured headers stay on its origin. -/
theorem secret_headers_stay_on_origin (P : Params)
    (upstream : OutgoingRequest → Option FetchedResponse → Prop) (hanchor : P.AnchorParses)
    {s : Poll} (h : (system P upstream).Reachable s) : P.KeepsSecrets s := by
  have hanchored := (anchored_invariant P upstream).holds h
  intro sent hmem
  obtain ⟨driverHeaders, hdriver, hheaders⟩ := fetchRequest_headers (hanchored.sent sent hmem)
  rw [hdriver, hheaders]
  rcases hanchor with hparses | hnil
  · cases horigin : P.trustedOrigin with
    | some anchor =>
        rcases requestHeaders_of_trusted with hsame | hkept
        · exact .inl (onAnchor_of_trusted horigin hsame)
        · exact .inr (congrArg some hkept.symm)
    | none =>
        -- without an anchor there is no request either
        rw [trustedOrigin_eq] at horigin
        cases htext : P.anchorText with
        | none => simp [(hanchored.idle htext).2.2] at hmem
        | some text =>
            have hsome := hparses text htext
            rw [htext] at horigin
            rw [show P.parseUrl text = none from horigin] at hsome
            contradiction
  · exact .inr (congrArg some (requestHeaders_of_nil hnil).symm)

/-- The two requests of such a bootstrap, to the first URL and to another host. -/
def Params.twoRequests (first : String) : Params :=
  .sample [⟨"authorization", .secret "s3cr3t" "Bearer " ""⟩]
    (askFor "pipeline" [first, "https://other.example.org/"])

theorem secret_headers_stay_on_origin_sample :
    ∃ s, (system (.twoRequests "https://api.example.com/") fun _ _ => True).Reachable s ∧
      s.log.sent.length = 2 ∧ (Params.twoRequests "https://api.example.com/").KeepsSecrets s := by
  obtain ⟨first, second, hboot⟩ : ∃ first second,
      (Params.twoRequests "https://api.example.com/").bootstrap = some [first, second] :=
    ⟨_, _, rfl⟩
  have h := bothStarted_reachable (fun _ _ => True) hboot (by decide) (by decide)
  refine ⟨_, h, ?_, secret_headers_stay_on_origin _ _ (.inl (by decide)) h⟩
  obtain ⟨rfl, rfl⟩ := by simpa using Option.some.inj hboot
  rfl

/-- An empty URL in front, and the bearer token goes to another host. -/
theorem secret_headers_leave_origin :
    ∃ s, (system (.twoRequests "") fun _ _ => True).Reachable s ∧
      ¬(Params.twoRequests "").KeepsSecrets s := by
  obtain ⟨first, second, hboot⟩ : ∃ first second,
      (Params.twoRequests "").bootstrap = some [first, second] := ⟨_, _, rfl⟩
  have hstarted := bothStarted_reachable (fun _ _ => True) hboot (by decide) (by decide)
  obtain ⟨rfl, rfl⟩ := by simpa using Option.some.inj hboot
  obtain ⟨s, h, sent, hmem, hheaders⟩ :
      ∃ s, (system (.twoRequests "") fun _ _ => True).Reachable s ∧ ∃ sent ∈ s.log.sent,
        (Params.twoRequests "").driverHeaders sent.1.spec ≠ some sent.2.headers := by
    refine ⟨_, hstarted, _, .head _, ?_⟩
    decide
  refine ⟨s, h, fun hkeeps => ?_⟩
  rcases hkeeps sent hmem with ⟨text, anchor, htext, hparse, -⟩ | hdriver
  · have hunparsed :
        (Params.twoRequests "").anchorText.bind (Params.twoRequests "").parseUrl = none := by
      decide
    rw [htext, Option.bind_some, hparse] at hunparsed
    contradiction
  · exact hheaders hdriver

end CdvizCollector.Sources.HttpPolling
