import CdvizCollector.Sources.Sse.Stream

/-!
The resume point of an SSE source.

The id a source resumes from is kept in its state between connections, but each
connection starts with an empty id of its own, and whatever id it ends with
replaces the kept one. So the resume point reaches back over one connection
only: a refused connection, one without messages or one whose last message has
no id loses it.
-/

namespace CdvizCollector.Sources.Sse

open Lib Lib.Http Security

variable {C : Config} {s t : Source}

def lastId (messages : List MessageEvent) : Option String :=
  ((messages.map MessageEvent.id).filter (· ≠ "")).getLast?

/-- The id a connection ends with, after these messages. -/
def idAfter (messages : List MessageEvent) : String :=
  (messages.getLast?.map MessageEvent.id).getD ""

/-- A request resumes after the last message with an id, if there was one. -/
def Connection.Resumes (c : Connection) : Prop :=
  c.lastEventId = (lastId c.received).bind HeaderValue.fromStr

/-- No message had an id, or the connection before ended with one that has. -/
def Connection.Kept (c : Connection) : Prop :=
  lastId c.received = none ∨ ∃ message, c.previous.getLast? = some message ∧ message.id ≠ ""

@[simp] theorem idAfter_append (messages : List MessageEvent) (message : MessageEvent) :
    idAfter (messages ++ [message]) = message.id := by
  simp [idAfter]

/-- The last message of a connection is the last one received. -/
theorem lastId_append_of_idAfter {messages : List MessageEvent} (earlier : List MessageEvent)
    (h : idAfter messages ≠ "") : lastId (earlier ++ messages) = some (idAfter messages) := by
  rcases List.eq_nil_or_concat messages with rfl | ⟨messages, message, rfl⟩
  · contradiction
  · rw [List.concat_eq_append, idAfter_append] at h
    rw [List.concat_eq_append, idAfter_append]
    unfold lastId
    rw [← List.append_assoc, List.map_append, List.filter_append, List.map_singleton,
      List.filter_singleton]
    simp [h]

theorem idAfter_ne_iff {messages : List MessageEvent} :
    idAfter messages ≠ "" ↔ ∃ message, messages.getLast? = some message ∧ message.id ≠ "" := by
  unfold idAfter
  cases messages.getLast? <;> simp

/-! ### Where the id is -/

/-- The id in the state of the source, or in the connection, is that of the
last message of the connection. -/
structure Tracked (s : Source) : Prop where
  connecting : s.phase = .connecting → s.lastEventId = idAfter s.latest
  streaming : ∀ es, s.phase = .streaming es → es.lastEventId = idAfter s.latest
  latest : ∃ earlier, s.received = earlier ++ s.latest
  connections : ∀ c ∈ s.connections,
    (∃ earlier, c.received = earlier ++ c.previous) ∧
    c.lastEventId =
      if idAfter c.previous = "" then none else HeaderValue.fromStr (idAfter c.previous)

theorem Tracked.fail (hlatest : ∃ earlier, s.received = earlier ++ s.latest)
    (hid : s.lastEventId = idAfter s.latest)
    (hconnections : ∀ c ∈ s.connections,
      (∃ earlier, c.received = earlier ++ c.previous) ∧
      c.lastEventId =
        if idAfter c.previous = "" then none else HeaderValue.fromStr (idAfter c.previous)) :
    Tracked (s.fail C) := by
  obtain ⟨nPastRetries, phase, hfail, hphase⟩ := fail_eq C s
  rw [hfail]
  refine ⟨fun _ => hid, ?_, hlatest, hconnections⟩
  rintro es rfl
  simp at hphase

theorem tracked_invariant (C : Config) : (system C).Invariant Tracked where
  init := by
    rintro s rfl
    exact ⟨fun _ => rfl, nofun, ⟨[], rfl⟩, nofun⟩
  step := by
    intro s t hs hstep
    cases hstep with
    | connect hphase =>
        unfold Source.connect
        split
        · exact .fail hs.latest (hs.connecting hphase) hs.connections
        · split
          · refine ⟨nofun, ?_, ⟨s.received, (List.append_nil _).symm⟩, fun c hmem => ?_⟩
            · rintro es ⟨⟩
              rfl
            · rcases List.mem_append.mp hmem with hmem | hmem
              · exact hs.connections c hmem
              · rw [List.mem_singleton.mp hmem]
                refine ⟨hs.latest, ?_⟩
                show s.resumeHeader = _
                rw [Source.resumeHeader, hs.connecting hphase]
          · exact .fail hs.latest (hs.connecting hphase) hs.connections
    | poll ready uuid hphase =>
        rename_i es
        have hid := hs.streaming es hphase
        obtain ⟨earlier, hlatest⟩ := hs.latest
        have heffect := pollNext_effect C.isEventStream es ready
        generalize (es.pollNext C.isEventStream ready).1 = es' at heffect ⊢
        generalize (es.pollNext C.isEventStream ready).2 = item at heffect ⊢
        cases heffect with
        | opened hkept =>
            refine ⟨nofun, ?_, ⟨earlier, hlatest⟩, hs.connections⟩
            rintro es ⟨⟩
            exact hkept.trans hid
        | message message hset =>
            refine ⟨nofun, ?_, ⟨earlier, ?_⟩, hs.connections⟩
            · rintro es ⟨⟩
              exact hset.trans (idAfter_append _ _).symm
            · show s.received ++ [message] = _
              rw [hlatest, List.append_assoc]
              rfl
        | error err hkept =>
            exact .fail (s := { s with lastEventId := es'.lastEventId }) ⟨earlier, hlatest⟩
              (hkept.trans hid) hs.connections
        | finished hkept => exact ⟨nofun, nofun, ⟨earlier, hlatest⟩, hs.connections⟩
    | cancel => exact ⟨nofun, nofun, hs.latest, hs.connections⟩

/-- Of every request a source sends: it resumes after the last message with an
id exactly when no message had one or the last message of the connection before
has one. -/
theorem resumes_iff_kept (C : Config) {s : Source} (h : (system C).Reachable s) {c : Connection}
    (hc : c ∈ s.connections)
    (hvalid : ∀ message ∈ c.received, (HeaderValue.fromStr message.id).isSome = true) :
    c.Resumes ↔ c.Kept := by
  obtain ⟨⟨earlier, hreceived⟩, hheader⟩ := ((tracked_invariant C).holds h).connections c hc
  unfold Connection.Resumes Connection.Kept
  rw [← idAfter_ne_iff, hheader]
  by_cases hid : idAfter c.previous = ""
  · -- what was kept is lost, so there must be nothing to resume after
    rw [if_pos hid]
    cases hlast : lastId c.received with
    | none => simp
    | some id =>
        have hmem : id ∈ c.received.map MessageEvent.id := by
          have hlast := List.mem_of_getLast? hlast
          exact List.mem_of_mem_filter hlast
        obtain ⟨message, hmessage, rfl⟩ := List.mem_map.mp hmem
        have hsome := hvalid message hmessage
        simp only [Option.bind_some, hid, ne_eq, not_true, or_false, reduceCtorEq, iff_false]
        intro hnone
        rw [← hnone] at hsome
        contradiction
  · rw [if_neg hid, hreceived, lastId_append_of_idAfter earlier hid]
    simp [hid]

/-! ### A lost id -/

section Runs

variable {headers : HeaderMap} (hheaders : generateHeaders C.crypto C.headers [] = .ok headers)
  (hurl : C.validUrl = true)

include hheaders hurl

theorem connect_reachable (h : (system C).Reachable s) (hphase : s.phase = .connecting) :
    (system C).Reachable { s with
      phase := .streaming EventSource.new, latest := []
      connections := s.connections ++ [⟨headers, s.resumeHeader, s.received, s.latest⟩] } := by
  have hconnect : s.connect C = { s with
      phase := .streaming EventSource.new, latest := []
      connections := s.connections ++ [⟨headers, s.resumeHeader, s.received, s.latest⟩] } := by
    simp only [Source.connect, hheaders, hurl, if_true]
  rw [← hconnect]
  exact h.next (.connect hphase)

/-- A source whose request is refused has no id any more. -/
theorem refused_reachable (h : (system C).Reachable s) (hphase : s.phase = .connecting) :
    (system C).Reachable (Source.fail C { s with
      lastEventId := "", phase := .streaming EventSource.new, latest := []
      connections := s.connections ++ [⟨headers, s.resumeHeader, s.received, s.latest⟩] }) := by
  have hsent := connect_reachable hheaders hurl h hphase
  have hrefused := hsent.next (.poll ⟨none, .ended⟩ "" rfl)
  exact hrefused

theorem message_reachable {res : Response} (hres : checkResponse C.isEventStream res = .ok ())
    (message : MessageEvent) (h : (system C).Reachable s) (hphase : s.phase = .connecting) :
    (system C).Reachable (Source.fail C { s with
      lastEventId := message.id, opened := true
      phase := .streaming ⟨false, true, false, message.id⟩
      received := s.received ++ [message], latest := [message]
      connections := s.connections ++ [⟨headers, s.resumeHeader, s.received, s.latest⟩]
      emitted := s.emitted ++ [C.toEvent message ""] }) := by
  have hopen : EventSource.new.pollNext C.isEventStream ⟨some res, .ended⟩ =
      (⟨false, true, false, ""⟩, some (.ok .opened)) := by
    simp only [EventSource.pollNext, EventSource.new, EventSource.clearFetch,
      EventSource.handleResponse, hres, if_true, Bool.false_eq_true, if_false]
  have h1 := (connect_reachable hheaders hurl h hphase).next (.poll ⟨some res, .ended⟩ "" rfl)
  rw [hopen] at h1
  have h2 := h1.next (.poll ⟨none, .message message⟩ "" rfl)
  have h3 := h2.next (.poll ⟨none, .ended⟩ "" rfl)
  exact h3

end Runs

/-- The default configuration, for a server that answers with an event stream. -/
def sampleConfig : Config :=
  { url := "http://localhost:8080/sse/001", headers := [], maxRetries := some 10
    metadata := .null, fromStr := fun _ => none
    crypto := ⟨fun _ _ => [], fun _ => "", fun _ => none, fun _ => "", fun _ => none⟩
    isEventStream := fun contentType => contentType = "text/event-stream", validUrl := true }

theorem checkResponse_sample :
    checkResponse sampleConfig.isEventStream ⟨200, HeaderValue.fromStr "text/event-stream"⟩ =
      .ok () := by
  have hmedia : (HeaderValue.fromStr "text/event-stream").any
      (fun value => value.toStr.any sampleConfig.isEventStream) = true := by decide
  cases hvalue : HeaderValue.fromStr "text/event-stream" with
  | none =>
      rw [hvalue] at hmedia
      contradiction
  | some value =>
      rw [hvalue, Option.any_some] at hmedia
      simp [checkResponse, hmedia]

theorem resumes_iff_kept_second :
    ∃ c : Connection, c.received = [⟨"42", "", "hello"⟩] ∧
      c.lastEventId = HeaderValue.fromStr "42" ∧ (c.Resumes ↔ c.Kept) := by
  have h0 : (system sampleConfig).Reachable Source.new := .init rfl
  have h1 := message_reachable rfl rfl checkResponse_sample ⟨"42", "", "hello"⟩ h0 rfl
  have h2 := connect_reachable rfl rfl h1 rfl
  refine ⟨⟨[], HeaderValue.fromStr "42", [⟨"42", "", "hello"⟩], [⟨"42", "", "hello"⟩]⟩, rfl, rfl,
    resumes_iff_kept sampleConfig h2 (List.mem_append_right _ (List.mem_singleton.mpr rfl)) ?_⟩
  intro message hmem
  rw [List.mem_singleton.mp hmem]
  decide

/-- After a message, the end of its connection and a refused request, the third
request starts over. -/
theorem refused_request_loses_id :
    ∃ s c, (system sampleConfig).Reachable s ∧ c ∈ s.connections ∧
      (∀ message ∈ c.received, (HeaderValue.fromStr message.id).isSome = true) ∧
      ¬c.Resumes := by
  have h0 : (system sampleConfig).Reachable Source.new := .init rfl
  have h1 := message_reachable rfl rfl checkResponse_sample ⟨"42", "", "hello"⟩ h0 rfl
  have h2 := refused_reachable rfl rfl h1 rfl
  have h3 := connect_reachable rfl rfl h2 rfl
  refine ⟨_, ⟨[], none, [⟨"42", "", "hello"⟩], []⟩, h3,
    List.mem_append_right _ (List.mem_singleton.mpr rfl), ?_, ?_⟩
  · intro message hmem
    rw [List.mem_singleton.mp hmem]
    decide
  · have hlost : (lastId [⟨"42", "", "hello"⟩]).bind HeaderValue.fromStr ≠ none := by decide
    exact fun hresumes => hlost hresumes.symm

end CdvizCollector.Sources.Sse
