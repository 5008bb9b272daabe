import CdvizCollector.Sinks.OtelBody
import CdvizCollector.Sources.SendCdevents
import Mathlib.Data.List.Nodup
import Mathlib.Data.List.Perm.Subperm

/-!
The OpenTelemetry sink (`sinks/otel.rs`): a CDEvent as a log record.

The attributes and the severity are read off the serialized CDEvent, which is the body
of the record. The names of the events are interned in a table that all sinks of the
process share and that is never emptied.
-/

namespace CdvizCollector.Sinks.Otel

open Lib Sources

variable {CDEvent : Type}

/-! ### Attributes -/

def strAt (json : Json) (pointer : String) : Option String :=
  (json.pointer pointer).bind Json.asStr

def outcome (json : Json) : Option String := strAt json "/subject/content/outcome"

def isFailure (json : Json) : Bool :=
  match outcome json with
  | some "failure" | some "fail" | some "error" => true
  | _ => false

def cicdResult : String → Option String
  | "success" => some "success"
  | "failure" => some "failure"
  | "error" => some "error"
  | "cancel" => some "cancellation"
  | _ => none

/-- `semconv_attributes`, with the values of the constants of the conventions. -/
def semconvAttributes (subject predicate : String) (json : Json) :
    List (String × Option String) :=
  let subjectId := strAt json "/subject/id"
  let content := fun path => strAt json ("/subject/content" ++ path)
  let runUrl := (content "/uri").or (content "/url")
  match subject with
  | "pipelinerun" =>
      [("cicd.pipeline.name", content "/pipelineName"),
        ("cicd.pipeline.run.id", subjectId),
        ("cicd.pipeline.run.url.full", runUrl),
        ("cicd.pipeline.run.state",
          match predicate with
          | "queued" => some "pending"
          | "started" => some "executing"
          | _ => none),
        ("cicd.pipeline.result", (outcome json).bind cicdResult)]
  | "taskrun" =>
      [("cicd.pipeline.task.name", content "/taskName"),
        ("cicd.pipeline.task.run.id", subjectId),
        ("cicd.pipeline.task.run.url.full", runUrl),
        ("cicd.pipeline.run.id", content "/pipelineRun/id"),
        ("cicd.pipeline.task.run.result", (outcome json).bind cicdResult)]
  | "testsuiterun" =>
      [("test.suite.name", content "/testSuite/name"),
        ("test.suite.run.status",
          match predicate with
          | "queued" | "started" => some "in_progress"
          | _ =>
              match outcome json with
              | some "success" | some "pass" => some "success"
              | some "failure" | some "fail" | some "error" => some "failure"
              | some "cancel" => some "aborted"
              | _ => none)]
  | "testcaserun" =>
      [("test.case.name", content "/testCase/name"),
        ("test.case.result.status",
          match outcome json with
          | some "success" | some "pass" => some "pass"
          | some "failure" | some "fail" | some "error" => some "fail"
          | _ => none)]
  | "change" =>
      [("vcs.change.id", subjectId),
        ("vcs.change.state",
          match predicate with
          | "created" | "updated" | "reviewed" => some "open"
          | "merged" => some "merged"
          | "abandoned" => some "closed"
          | _ => none)]
  | "branch" =>
      [("vcs.ref.head.name", subjectId),
        ("vcs.ref.head.type", some "branch")]
  | "repository" =>
      [("vcs.repository.name", content "/name"),
        ("vcs.repository.url.full", (content "/viewUrl").or (content "/url")),
        ("vcs.owner.name", content "/owner")]
  | "service" =>
      [("deployment.environment.name", content "/environment/id"),
        ("deployment.status",
          match predicate with
          | "deployed" | "upgraded" | "rolledback" => some "succeeded"
          | _ => none)]
  | "environment" => [("deployment.environment.name", (content "/name").or subjectId)]
  | _ => []

/-- The attributes of every CDEvent, in front of those of its subject. -/
def allAttributes (ty : String) (json : Json) : List (String × Option String) :=
  let parts := ((ty.toList.splitOn '.').drop 2).map String.ofList
  let subject := (parts[0]?).getD ""
  let predicate := (parts[1]?).getD ""
  [("cdevents.id", strAt json "/context/id"),
    ("cdevents.type", some ty),
    ("cdevents.source", strAt json "/context/source"),
    ("cdevents.subject.id", strAt json "/subject/id"),
    ("cdevents.subject.source", strAt json "/subject/source"),
    ("cdevents.subject.type", some subject),
    ("cdevents.predicate", some predicate)] ++ semconvAttributes subject predicate json

def toAttributes (ty : String) (json : Json) : List (String × String) :=
  (allAttributes ty json).filterMap fun attr =>
    (attr.2.filter fun v => v ≠ "").map fun v => (attr.1, v)

/-! ### Records -/

inductive Severity where
  | info
  | warn
deriving DecidableEq, Repr

structure LogRecord where
  eventName : String
  timestamp : String
  observed : String
  severity : Severity
  severityText : String
  attributes : List (String × String)
  body : Option AnyValue

/-- What the sink takes from the SDK: whether the content is of a type it does not know,
and the serialization. -/
structure OtelSink (CDEvent : Type) where
  ty : CDEvent → String
  timestamp : CDEvent → String
  custom : CDEvent → Bool
  toValue : CDEvent → Except String Json

def customEventName : String := "dev.cdeventsx.custom"

namespace OtelSink

variable (O : OtelSink CDEvent)

/-- `event_name`, with the table of the names. -/
def eventName (cdevent : CDEvent) (names : List String) : String × List String :=
  if O.custom cdevent then (customEventName, names)
  else if O.ty cdevent ∈ names then (O.ty cdevent, names)
  else (O.ty cdevent, names ++ [O.ty cdevent])

/-- The names interned so far, and the records emitted. -/
structure State where
  names : List String
  emitted : List LogRecord

/-- `OtelSink::send`; `now` is what the clock shows. -/
def send (now : String) (msg : Message CDEvent) (s : State) : Except String Unit × State :=
  match O.toValue msg.cdevent with
  | .error cause => (.error cause, s)
  | .ok json =>
      let name := O.eventName msg.cdevent s.names
      let severity := if isFailure json then Severity.warn else .info
      let record :=
        { eventName := name.1
          timestamp := O.timestamp msg.cdevent
          observed := now
          severity
          severityText := if isFailure json then "WARN" else "INFO"
          attributes := toAttributes (O.ty msg.cdevent) json
          body := toAnyValue json }
      (.ok (), { names := name.2, emitted := s.emitted ++ [record] })

/-- Messages in a row, of all sinks of the process. -/
def sends : List (String × Message CDEvent) → State → State
  | [], s => s
  | (now, msg) :: msgs, s => sends msgs (O.send now msg s).2

end OtelSink

/-! ### The attributes of a record -/

/-- Only attributes with a value that is not empty are kept. -/
theorem mem_toAttributes_iff {ty : String} {json : Json} {key v : String} :
    (key, v) ∈ toAttributes ty json ↔ (key, some v) ∈ allAttributes ty json ∧ v ≠ "" := by
  rw [toAttributes, List.mem_filterMap]
  constructor
  · rintro ⟨⟨k, value⟩, hmem, h⟩
    obtain ⟨w, hw, hpair⟩ := Option.map_eq_some_iff.mp h
    obtain ⟨hvalue, hne⟩ := Option.filter_eq_some_iff.mp hw
    obtain ⟨rfl, rfl⟩ := Prod.mk.inj hpair
    have hvalue' : value = some w := hvalue
    rw [hvalue'] at hmem
    exact ⟨hmem, of_decide_eq_true hne⟩
  · rintro ⟨hmem, hne⟩
    refine ⟨(key, some v), hmem, ?_⟩
    have hfilter : (some v).filter (fun v => decide (v ≠ "")) = some v := by
      rw [Option.filter_some, if_pos (decide_eq_true hne)]
    show ((some v).filter _).map _ = _
    rw [hfilter, Option.map_some]

theorem keys_sublist (attrs : List (String × Option String)) :
    ((attrs.filterMap fun attr =>
      (attr.2.filter fun v => v ≠ "").map fun v => (attr.1, v)).map Prod.fst).Sublist
        (attrs.map Prod.fst) := by
  induction attrs with
  | nil => exact List.Sublist.refl _
  | cons attr attrs ih =>
      rw [List.filterMap_cons, List.map_cons]
      cases attr.2.filter fun v => v ≠ "" with
      | none => exact ih.cons _
      | some v => exact ih.cons_cons _

theorem allAttributes_keys_nodup (ty : String) (json : Json) :
    ((allAttributes ty json).map Prod.fst).Nodup := by
  unfold allAttributes semconvAttributes
  simp only [List.map_append, List.map_cons, List.map_nil]
  split <;> simp only [List.map_cons, List.map_nil, List.cons_append, List.nil_append] <;> decide

theorem toAttributes_keys_nodup (ty : String) (json : Json) :
    ((toAttributes ty json).map Prod.fst).Nodup :=
  (allAttributes_keys_nodup ty json).sublist (keys_sublist _)

/-! ### Results -/

/-- The attributes that tell how a run has ended. -/
def resultKeys : List String :=
  ["cicd.pipeline.result", "cicd.pipeline.task.run.result", "test.suite.run.status",
    "test.case.result.status"]

def Failed (v : String) : Prop := v = "failure" ∨ v = "error" ∨ v = "fail"

def Succeeded (v : String) : Prop := v = "success" ∨ v = "pass"

/-- A result does not contradict the severity. -/
structure Agrees (json : Json) (v : String) : Prop where
  failed : Failed v → isFailure json = true
  succeeded : Succeeded v → isFailure json = false

def Sound (json : Json) (attr : String × Option String) : Prop :=
  attr.1 ∈ resultKeys → ∀ v, attr.2 = some v → Agrees json v

theorem sound_of_not_mem {json : Json} {key : String} (value : Option String)
    (h : key ∉ resultKeys) : Sound json (key, value) := fun hmem => absurd hmem h

theorem isFailure_iff {json : Json} :
    isFailure json = true ↔ ∃ o, outcome json = some o ∧ Failed o := by
  unfold isFailure
  split
  · exact iff_of_true rfl ⟨_, ‹_›, .inl rfl⟩
  · exact iff_of_true rfl ⟨_, ‹_›, .inr (.inr rfl)⟩
  · exact iff_of_true rfl ⟨_, ‹_›, .inr (.inl rfl)⟩
  · rename_i hfailure hfail herror
    apply iff_of_false Bool.false_ne_true
    rintro ⟨o, houtcome, rfl | rfl | rfl⟩
    · exact hfailure houtcome
    · exact herror houtcome
    · exact hfail houtcome

theorem agrees_of_failed {json : Json} {o v : String} (houtcome : outcome json = some o)
    (ho : Failed o) (hv : ¬Succeeded v) : Agrees json v where
  failed _ := isFailure_iff.mpr ⟨o, houtcome, ho⟩
  succeeded h := absurd h hv

theorem agrees_of_not_failed {json : Json} {o v : String} (houtcome : outcome json = some o)
    (ho : ¬Failed o) (hv : ¬Failed v) : Agrees json v where
  failed h := absurd h hv
  succeeded _ := by
    rw [Bool.eq_false_iff, Ne, isFailure_iff]
    rintro ⟨o', houtcome', ho'⟩
    obtain rfl := Option.some.inj (houtcome.symm.trans houtcome')
    exact ho ho'

theorem agrees_of_neutral {json : Json} {v : String} (hfailed : ¬Failed v)
    (hsucceeded : ¬Succeeded v) : Agrees json v :=
  ⟨fun h => absurd h hfailed, fun h => absurd h hsucceeded⟩

instance (v : String) : Decidable (Failed v) := inferInstanceAs (Decidable (_ ∨ _ ∨ _))

instance (v : String) : Decidable (Succeeded v) := inferInstanceAs (Decidable (_ ∨ _))

theorem agrees_cicdResult {json : Json} {v : String}
    (h : (outcome json).bind cicdResult = some v) : Agrees json v := by
  obtain ⟨o, houtcome, hresult⟩ := Option.bind_eq_some_iff.mp h
  unfold cicdResult at hresult
  split at hresult
  · obtain rfl := Option.some.inj hresult
    exact agrees_of_not_failed houtcome (by decide) (by decide)
  · obtain rfl := Option.some.inj hresult
    exact agrees_of_failed houtcome (by decide) (by decide)
  · obtain rfl := Option.some.inj hresult
    exact agrees_of_failed houtcome (by decide) (by decide)
  · obtain rfl := Option.some.inj hresult
    exact agrees_of_neutral (by decide) (by decide)
  · contradiction

theorem agrees_testSuiteStatus {json : Json} {v : String}
    (h : (match outcome json with
      | some "success" | some "pass" => some "success"
      | some "failure" | some "fail" | some "error" => some "failure"
      | some "cancel" => some "aborted"
      | _ => none) = some v) : Agrees json v := by
  split at h
  · obtain rfl := Option.some.inj h
    exact agrees_of_not_failed ‹_› (by decide) (by decide)
  · obtain rfl := Option.some.inj h
    exact agrees_of_not_failed ‹_› (by decide) (by decide)
  · obtain rfl := Option.some.inj h
    exact agrees_of_failed ‹_› (by decide) (by decide)
  · obtain rfl := Option.some.inj h
    exact agrees_of_failed ‹_› (by decide) (by decide)
  · obtain rfl := Option.some.inj h
    exact agrees_of_failed ‹_› (by decide) (by decide)
  · obtain rfl := Option.some.inj h
    exact agrees_of_neutral (by decide) (by decide)
  · contradiction

theorem agrees_testCaseStatus {json : Json} {v : String}
    (h : (match outcome json with
      | some "success" | some "pass" => some "pass"
      | some "failure" | some "fail" | some "error" => some "fail"
      | _ => none) = some v) : Agrees json v := by
  split at h
  · obtain rfl := Option.some.inj h
    exact agrees_of_not_failed ‹_› (by decide) (by decide)
  · obtain rfl := Option.some.inj h
    exact agrees_of_not_failed ‹_› (by decide) (by decide)
  · obtain rfl := Option.some.inj h
    exact agrees_of_failed ‹_› (by decide) (by decide)
  · obtain rfl := Option.some.inj h
    exact agrees_of_failed ‹_› (by decide) (by decide)
  · obtain rfl := Option.some.inj h
    exact agrees_of_failed ‹_› (by decide) (by decide)
  · contradiction

theorem sound_semconvAttributes (subject predicate : String) (json : Json) :
    ∀ attr ∈ semconvAttributes subject predicate json, Sound json attr := by
  have hother : ∀ {key : String} (value : Option String), key ∉ resultKeys →
      Sound json (key, value) := sound_of_not_mem
  unfold semconvAttributes
  split <;> simp only [List.forall_mem_cons]
  · -- pipelinerun
    refine ⟨hother _ (by decide), hother _ (by decide), hother _ (by decide),
      hother _ (by decide), fun _ v hv => agrees_cicdResult hv, ?_⟩
    exact fun _ h => absurd h List.not_mem_nil
  · -- taskrun
    refine ⟨hother _ (by decide), hother _ (by decide), hother _ (by decide),
      hother _ (by decide), fun _ v hv => agrees_cicdResult hv, ?_⟩
    exact fun _ h => absurd h List.not_mem_nil
  · -- testsuiterun
    refine ⟨hother _ (by decide), fun _ v hv => ?_, fun _ h => absurd h List.not_mem_nil⟩
    have hstatus : (some "in_progress" = some v → Agrees json v) := by
      intro h
      obtain rfl := Option.some.inj h
      exact agrees_of_neutral (by decide) (by decide)
    dsimp only at hv
    split at hv
    · exact hstatus hv
    · exact hstatus hv
    · exact agrees_testSuiteStatus hv
  · -- testcaserun
    refine ⟨hother _ (by decide), fun _ v hv => agrees_testCaseStatus hv, ?_⟩
    exact fun _ h => absurd h List.not_mem_nil
  · -- change
    exact ⟨hother _ (by decide), hother _ (by decide), fun _ h => absurd h List.not_mem_nil⟩
  · -- branch
    exact ⟨hother _ (by decide), hother _ (by decide), fun _ h => absurd h List.not_mem_nil⟩
  · -- repository
    exact ⟨hother _ (by decide), hother _ (by decide), hother _ (by decide),
      fun _ h => absurd h List.not_mem_nil⟩
  · -- service
    exact ⟨hother _ (by decide), hother _ (by decide), fun _ h => absurd h List.not_mem_nil⟩
  · -- environment
    exact ⟨hother _ (by decide), fun _ h => absurd h List.not_mem_nil⟩
  · exact fun _ h => absurd h List.not_mem_nil

theorem sound_toAttributes {ty : String} {json : Json} {key v : String}
    (h : (key, v) ∈ toAttributes ty json) (hkey : key ∈ resultKeys) : Agrees json v := by
  obtain ⟨hmem, -⟩ := mem_toAttributes_iff.mp h
  rcases List.mem_append.mp hmem with hmem | hmem
  · have hown : key ∈ ["cdevents.id", "cdevents.type", "cdevents.source", "cdevents.subject.id",
        "cdevents.subject.source", "cdevents.subject.type", "cdevents.predicate"] :=
      List.mem_map_of_mem (f := Prod.fst) hmem
    exact absurd hkey ((by decide : ∀ k ∈ ["cdevents.id", "cdevents.type", "cdevents.source",
      "cdevents.subject.id", "cdevents.subject.source", "cdevents.subject.type",
      "cdevents.predicate"], k ∉ resultKeys) key hown)
  · exact sound_semconvAttributes _ _ json _ hmem hkey v rfl

/-! ### The outcome in the body -/

/-- The path of the outcome of a run. -/
def outcomePath : List String := ["subject", "content", "outcome"]

theorem pointerStep_eq_get (key : String) (hplain : Json.replaceEscape '0' '~'
      (Json.replaceEscape '1' '/' key.toList) = key.toList)
    (hindex : Json.parseIndex key.toList = none) (value : Json) :
    value.pointerStep key.toList = value.get key := by
  simp only [Json.pointerStep, hplain]
  cases value with
  | obj fields =>
      show fields.lookup (String.ofList key.toList) = fields.lookup key
      rw [String.ofList_toList]
  | arr elems =>
      show (Json.parseIndex key.toList).bind _ = none
      rw [hindex, Option.bind_none]
  | null | bool b | num n | str s => rfl

theorem pointer_outcome (json : Json) :
    json.pointer "/subject/content/outcome" = json.atPath outcomePath := by
  have hstep : ∀ key ∈ outcomePath, ∀ value : Json,
      value.pointerStep key.toList = value.get key := by
    intro key hkey
    apply pointerStep_eq_get
    · exact (by decide : ∀ key ∈ outcomePath, Json.replaceEscape '0' '~'
        (Json.replaceEscape '1' '/' key.toList) = key.toList) key hkey
    · exact (by decide : ∀ key ∈ outcomePath, Json.parseIndex key.toList = none) key hkey
  show ((json.pointerStep "subject".toList).bind fun subject =>
      (subject.pointerStep "content".toList).bind fun content =>
        (content.pointerStep "outcome".toList).bind some) =
    (json.get "subject").bind fun subject =>
      (subject.get "content").bind fun content => (content.get "outcome").bind some
  rw [hstep "subject" (by decide)]
  simp only [hstep "content" (by decide), hstep "outcome" (by decide)]

theorem toAnyValue_eq_string_iff {value : Json} {o : String} :
    toAnyValue value = some (.string o) ↔ value.asStr = some o := by
  cases value with
  | str s =>
      show some (AnyValue.string s) = _ ↔ some s = _
      rw [Option.some.injEq, AnyValue.string.injEq, Option.some.injEq]
  | num n =>
      apply iff_of_false
      · rw [toAnyValue]
        cases n.asI64 with
        | some i => exact fun h => AnyValue.noConfusion (Option.some.inj h)
        | none => cases n.asF64 <;> exact fun h => by cases h
      · exact fun h => by cases h
  | null | bool b | arr elems | obj fields =>
      exact iff_of_false (fun h => by cases h) (fun h => by cases h)

/-- The outcome of a CDEvent is the text at its path in the body. -/
theorem outcome_eq_some_iff {json : Json} (hdistinct : json.Distinct) {o : String} :
    outcome json = some o ↔
      (toAnyValue json).bind (AnyValue.atPath outcomePath) = some (.string o) := by
  rw [atPath_toAnyValue outcomePath hdistinct, outcome, strAt, pointer_outcome,
    Option.bind_eq_some_iff, Option.bind_eq_some_iff]
  exact exists_congr fun value => and_congr_right fun _ => toAnyValue_eq_string_iff.symm

/-! ### A run -/

/-- What holds of a record by itself: its severity follows from its body, and its
attributes have different keys, are not empty and do not contradict the severity. -/
structure LogRecord.Consistent (record : LogRecord) : Prop where
  severity : record.severity = .warn ↔
    ∃ o, record.body.bind (AnyValue.atPath outcomePath) = some (.string o) ∧ Failed o
  text : record.severityText = match record.severity with
    | .warn => "WARN"
    | .info => "INFO"
  keys : (record.attributes.map Prod.fst).Nodup
  nonempty : ∀ attr ∈ record.attributes, attr.2 ≠ ""
  failed : ∀ attr ∈ record.attributes, attr.1 ∈ resultKeys → Failed attr.2 →
    record.severity = .warn
  succeeded : ∀ attr ∈ record.attributes, attr.1 ∈ resultKeys → Succeeded attr.2 →
    record.severity = .info

namespace OtelSink

variable (O : OtelSink CDEvent)

/-- The record of a serialized CDEvent. -/
def record (now : String) (cdevent : CDEvent) (json : Json) : LogRecord where
  eventName := if O.custom cdevent then customEventName else O.ty cdevent
  timestamp := O.timestamp cdevent
  observed := now
  severity := if isFailure json then .warn else .info
  severityText := if isFailure json then "WARN" else "INFO"
  attributes := toAttributes (O.ty cdevent) json
  body := toAnyValue json

theorem record_consistent (now : String) (cdevent : CDEvent) {json : Json}
    (hdistinct : json.Distinct) : (O.record now cdevent json).Consistent where
  severity := by
    have hiff : isFailure json = true ↔ _ := isFailure_iff
    simp only [outcome_eq_some_iff hdistinct] at hiff
    refine Iff.trans ?_ hiff
    show (if isFailure json then Severity.warn else .info) = .warn ↔ _
    cases isFailure json with
    | true => exact iff_of_true rfl rfl
    | false => exact iff_of_false Severity.noConfusion Bool.false_ne_true
  text := by
    show (if isFailure json then "WARN" else "INFO") =
      match if isFailure json then Severity.warn else .info with
      | .warn => "WARN"
      | .info => "INFO"
    cases isFailure json <;> rfl
  keys := toAttributes_keys_nodup _ json
  nonempty attr h := (mem_toAttributes_iff.mp h).2
  failed attr h hkey hfailed := if_pos ((sound_toAttributes h hkey).failed hfailed)
  succeeded attr h hkey hsucceeded := by
    show (if isFailure json then Severity.warn else .info) = .info
    rw [(sound_toAttributes h hkey).succeeded hsucceeded]
    rfl

/-- The record of a message, if it can be serialized. -/
def recordOf (sent : String × Message CDEvent) : Option LogRecord :=
  (O.toValue sent.2.cdevent).toOption.map (O.record sent.1 sent.2.cdevent)

theorem eventName_fst (cdevent : CDEvent) (names : List String) :
    (O.eventName cdevent names).1 = if O.custom cdevent then customEventName else O.ty cdevent := by
  rw [eventName]
  split
  · rfl
  · split <;> rfl

theorem send_emitted (sent : String × Message CDEvent) (s : State) :
    (O.send sent.1 sent.2 s).2.emitted = s.emitted ++ (O.recordOf sent).toList := by
  rw [send, recordOf]
  cases O.toValue sent.2.cdevent with
  | error cause => exact (List.append_nil _).symm
  | ok json =>
      show s.emitted ++ [_] = s.emitted ++ [O.record sent.1 sent.2.cdevent json]
      rw [eventName_fst]
      rfl

theorem sends_emitted (sents : List (String × Message CDEvent)) :
    ∀ s, (O.sends sents s).emitted = s.emitted ++ sents.filterMap O.recordOf := by
  induction sents with
  | nil => exact fun s => (List.append_nil _).symm
  | cons sent sents ih =>
      intro s
      rw [sends, ih, send_emitted, List.append_assoc]
      cases hrecord : O.recordOf sent with
      | none => rw [List.filterMap_cons_none hrecord, Option.toList_none, List.nil_append]
      | some record =>
          rw [List.filterMap_cons_some hrecord, Option.toList_some, List.singleton_append]

/-- What is interned: types that were sent and that the SDK knows, each once. -/
structure Interned (sents : List (String × Message CDEvent)) (names : List String) : Prop where
  nodup : names.Nodup
  sent : ∀ name ∈ names, ∃ sent ∈ sents,
    O.custom sent.2.cdevent = false ∧ O.ty sent.2.cdevent = name

theorem interned_eventName {sents : List (String × Message CDEvent)} {names : List String}
    (h : Interned O sents names) {sent : String × Message CDEvent} (hsent : sent ∈ sents) :
    Interned O sents (O.eventName sent.2.cdevent names).2 := by
  rw [eventName]
  cases hcustom : O.custom sent.2.cdevent with
  | true => exact h
  | false =>
      by_cases hmem : O.ty sent.2.cdevent ∈ names
      · rw [if_neg Bool.false_ne_true, if_pos hmem]
        exact h
      · rw [if_neg Bool.false_ne_true, if_neg hmem]
        refine ⟨List.nodup_append.mpr ⟨h.nodup, List.nodup_singleton _, ?_⟩, ?_⟩
        · rintro name hname _ hty rfl
          rw [List.mem_singleton] at hty
          exact hmem (hty ▸ hname)
        · intro name hname
          rcases List.mem_append.mp hname with hname | hname
          · exact h.sent name hname
          · exact ⟨sent, hsent, hcustom, (List.mem_singleton.mp hname).symm⟩

theorem interned_sends {all : List (String × Message CDEvent)}
    (sents : List (String × Message CDEvent)) :
    ∀ s, (∀ sent ∈ sents, sent ∈ all) → Interned O all s.names →
      Interned O all (O.sends sents s).names := by
  induction sents with
  | nil => exact fun s _ h => h
  | cons sent sents ih =>
      intro s hall h
      apply ih
      · exact fun sent hmem => hall sent (List.mem_cons_of_mem _ hmem)
      · rw [send]
        cases O.toValue sent.2.cdevent with
        | error cause => exact h
        | ok json => exact interned_eventName O h (hall sent List.mem_cons_self)

/-- Of each message that can be serialized there is one record, in order. The severity of
each follows from its body, its attributes have different keys and values, none of them
empty, and no result among them contradicts the severity. -/
theorem records_are_consistent
    (hdistinct : ∀ cdevent json, O.toValue cdevent = .ok json → json.Distinct)
    (sents : List (String × Message CDEvent)) (names : List String) :
    (O.sends sents ⟨names, []⟩).emitted = sents.filterMap O.recordOf ∧
      ∀ record ∈ (O.sends sents ⟨names, []⟩).emitted, record.Consistent := by
  have hemitted : (O.sends sents ⟨names, []⟩).emitted = sents.filterMap O.recordOf :=
    (sends_emitted O sents ⟨names, []⟩).trans (List.nil_append _)
  refine ⟨hemitted, fun record hrecord => ?_⟩
  rw [hemitted] at hrecord
  obtain ⟨sent, -, hsent⟩ := List.mem_filterMap.mp hrecord
  obtain ⟨json, hjson, rfl⟩ := Option.map_eq_some_iff.mp hsent
  have hvalue : O.toValue sent.2.cdevent = .ok json := by
    cases hresult : O.toValue sent.2.cdevent with
    | error cause =>
        rw [hresult] at hjson
        contradiction
    | ok value =>
        rw [hresult] at hjson
        rw [Option.some.inj hjson]
  exact record_consistent O sent.1 sent.2.cdevent (hdistinct _ _ hvalue)

theorem subset_eventName (cdevent : CDEvent) (names : List String) :
    names ⊆ (O.eventName cdevent names).2 := by
  rw [eventName]
  split
  · exact List.Subset.refl names
  · split
    · exact List.Subset.refl names
    · exact List.subset_append_left names _

theorem eventName_mem (cdevent : CDEvent) (names : List String) :
    (O.eventName cdevent names).1 ∈ customEventName :: (O.eventName cdevent names).2 := by
  rw [eventName]
  split
  · exact List.mem_cons_self
  · split
    · exact List.mem_cons_of_mem _ ‹_›
    · exact List.mem_cons_of_mem _ (List.mem_append_right _ (List.mem_singleton_self _))

/-- All records so far are named by an interned name, or as custom. -/
def Named (s : State) : Prop :=
  ∀ record ∈ s.emitted, record.eventName ∈ customEventName :: s.names

theorem named_send (sent : String × Message CDEvent) {s : State} (h : Named s) :
    Named (O.send sent.1 sent.2 s).2 := by
  rw [send]
  cases O.toValue sent.2.cdevent with
  | error cause => exact h
  | ok json =>
      intro record hrecord
      rcases List.mem_append.mp hrecord with hrecord | hrecord
      · exact List.cons_subset_cons _ (subset_eventName O _ s.names) (h record hrecord)
      · rw [List.mem_singleton.mp hrecord]
        exact eventName_mem O sent.2.cdevent s.names

theorem named_sends (sents : List (String × Message CDEvent)) :
    ∀ s, Named s → Named (O.sends sents s) := by
  induction sents with
  | nil => exact fun _ h => h
  | cons sent sents ih => exact fun s h => ih _ (named_send O sent h)

/-- Whatever is sent, and by however many sinks: only types that the SDK knows are
interned, each once, so that the table is never larger than their set, and all records
are named by what is in it, but for those of custom types. -/
theorem names_stay_bounded {known : List String}
    (hknown : ∀ cdevent, O.custom cdevent = false → O.ty cdevent ∈ known)
    (sents : List (String × Message CDEvent)) :
    Interned O sents (O.sends sents ⟨[], []⟩).names ∧
      (O.sends sents ⟨[], []⟩).names.length ≤ known.length ∧
      ∀ record ∈ (O.sends sents ⟨[], []⟩).emitted,
        record.eventName ∈ customEventName :: (O.sends sents ⟨[], []⟩).names := by
  have hinterned : Interned O sents (O.sends sents ⟨[], []⟩).names :=
    interned_sends O sents ⟨[], []⟩ (fun _ h => h) ⟨List.nodup_nil, fun _ h => by contradiction⟩
  have hsub : (O.sends sents ⟨[], []⟩).names ⊆ known := by
    intro name hname
    obtain ⟨sent, -, hcustom, rfl⟩ := hinterned.sent name hname
    exact hknown sent.2.cdevent hcustom
  exact ⟨hinterned, (hinterned.nodup.subperm hsub).length_le,
    named_sends O sents ⟨[], []⟩ fun _ h => by contradiction⟩

end OtelSink

/-! Runs that end, with their outcome. -/

def knownTypes : List String := ["dev.cdevents.pipelinerun.finished.0.3.0"]

def sampleSink : OtelSink (String × String) where
  ty cdevent := cdevent.1
  timestamp _ := "2026-10-09T10:00:00Z"
  custom cdevent := cdevent.1 ∉ knownTypes
  toValue cdevent := .ok (.obj [("context", .obj [("type", .str cdevent.1)]),
    ("subject", .obj [("content", .obj [("outcome", .str cdevent.2)])])])

def sampleRun : List (String × Message (String × String)) :=
  [("2026-10-09T10:00:01Z", ⟨("dev.cdevents.pipelinerun.finished.0.3.0", "fail"), []⟩),
    ("2026-10-09T10:00:02Z", ⟨("dev.cdeventsx.mytool-foo.bar.0.1.0", "success"), []⟩)]

theorem distinct_sampleSink : ∀ cdevent json, sampleSink.toValue cdevent = .ok json →
    json.Distinct := by
  have hone : ∀ {key : String} {value : Json}, value.Distinct →
      (Json.obj [(key, value)]).Distinct :=
    fun h => .obj (List.nodup_singleton _) fun entry hmem => by
      rw [List.mem_singleton.mp hmem]
      exact h
  intro cdevent json hjson
  obtain rfl := Except.ok.inj hjson
  refine .obj (show ["context", "subject"].Nodup by decide) ?_
  rw [List.forall_mem_cons]
  refine ⟨hone (.str _), fun entry hmem => ?_⟩
  rw [List.mem_singleton.mp hmem]
  exact hone (hone (.str _))

theorem records_are_consistent_sample :
    ∃ failed succeeded, (sampleSink.sends sampleRun ⟨[], []⟩).emitted = [failed, succeeded] ∧
      failed.severity = .warn ∧ succeeded.severity = .info ∧
      failed.Consistent ∧ succeeded.Consistent := by
  have hconsistent :=
    (OtelSink.records_are_consistent sampleSink distinct_sampleSink sampleRun []).2
  refine ⟨_, _, rfl, by decide, by decide, hconsistent _ ?_, hconsistent _ ?_⟩
  · exact List.mem_cons_self
  · exact List.mem_cons_of_mem _ List.mem_cons_self

/-- The same two are sent twice: a name is interned once, for the type that is known. -/
theorem names_stay_bounded_sample :
    ∃ s, sampleSink.sends (sampleRun ++ sampleRun) ⟨[], []⟩ = s ∧
      s.emitted.length = 4 ∧ s.names ≠ [] ∧ s.names.length ≤ 1 ∧
      ∀ record ∈ s.emitted, record.eventName ∈ customEventName :: s.names := by
  have hknown : ∀ cdevent, sampleSink.custom cdevent = false → sampleSink.ty cdevent ∈ knownTypes :=
    fun _ h => Decidable.not_not.mp (of_decide_eq_false h)
  obtain ⟨-, hbounded, hnamed⟩ :=
    OtelSink.names_stay_bounded sampleSink hknown (sampleRun ++ sampleRun)
  exact ⟨_, rfl, rfl, by decide, hbounded, hnamed⟩

end CdvizCollector.Sinks.Otel
