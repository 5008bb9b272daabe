import CdvizCollector.Event

/-!
From a source's event to a CDEvent (`TryFrom<EventSource> for CDEvent` in
`sources/mod.rs`, with the `sanitize_id` of `cdevent_utils.rs`).

Three helpers fill in what is missing under `body["context"]` before the body is
deserialized. Each writes by indexed assignment, which panics on a value that
cannot be indexed by a key; a panic is `none` here. `Assignable` says which
bodies are safe, and `tryFrom_isSome_iff` that no others are.
-/

namespace CdvizCollector.Sources

open Lib

/-- The CDEvents SDK, `serde_json` printing and content ids: a CDEvent is
deserialized from JSON with the text of an error otherwise, an id may be refused,
and `contentId` is the CID of the SHA-256 of a text. -/
structure Sdk (CDEvent : Type) where
  fromValue : Json → Except String CDEvent
  id : CDEvent → String
  withId : CDEvent → String → CDEvent
  isId : String → Bool
  toString : Json → String
  contentId : String → String

/-- A CDEvent reduced to its id. -/
def Sdk.ids : Sdk String where
  fromValue value :=
    match ((value.get "context").bind (Json.get "id")).bind Json.asStr with
    | some id => if id = "" then .error "invalid id" else .ok id
    | none => .error "missing field"
  id cdevent := cdevent
  withId _ id := id
  isId id := id ≠ ""
  toString _ := "{}"
  contentId _ := "bafkrei"

inductive ConversionError where
  | serde (cause : String)
  | id (value : String)
deriving DecidableEq, Repr

/-- `body["context"][key]`, read. -/
def contextField (key : String) (value : Json) : Option Json :=
  (value.get "context").bind (Json.get key)

/-- `value["context"][key] = json!(text)`. -/
def setContextField (key text : String) (value : Json) : Option Json :=
  value.indexMut "context" (Json.indexMut key fun _ => some (.str text))

/-- A field that is absent, null, no string or empty. -/
def isMissing (field : Option Json) : Bool :=
  match field with
  | none => true
  | some s => s.isNull || (s.asStr.elim true fun text => text = "")

/-- `set_timestamp_if_missing`; `now` is what the clock shows. -/
def setTimestampIfMissing (now : String) (body : Json) : Option Json :=
  if isMissing (contextField "timestamp" body) then setContextField "timestamp" now body
  else some body

/-- The source a metadata gives, if it is a non-empty string. -/
def metadataSource (metadata : Json) : Option String :=
  ((contextField "source" metadata).bind Json.asStr).filter fun s => s ≠ ""

def setSourceIfMissing (metadata body : Json) : Option Json :=
  if isMissing (contextField "source" body) then
    match metadataSource metadata with
    | some source => setContextField "source" source body
    | none => some body
  else some body

/-- An id that is absent, null, no string, empty or `"0"`. -/
def isIdZeroOrMissing (field : Option Json) : Bool :=
  match field with
  | none => true
  | some s => s.isNull || (s.asStr.elim true fun id => id = "" || id = "0")

/-- `body["context"].as_object_mut().map(|obj| obj.remove("id"))`. -/
def removeContextId (body : Json) : Option Json :=
  body.indexMut "context" fun
    | .obj fields => some (.obj (Assoc.remove "id" fields))
    | context => some context

variable {CDEvent : Type}

/-- `set_id_zero_or_missing_to_cid`; the id is of the body without an id. -/
def setIdZeroOrMissingToCid (S : Sdk CDEvent) (body : Json) : Option Json :=
  if isIdZeroOrMissing (contextField "id" body) then
    (removeContextId body).bind fun body =>
      setContextField "id" (S.contentId (S.toString body)) body
  else some body

def sanitizeIdStr (id : String) : String :=
  String.ofList (id.toList.map fun c => if c.isAlphanum then c else '_')

/-- The three helpers in sequence. -/
def completeBody (S : Sdk CDEvent) (now : String) (event : Event) : Option Json :=
  (setTimestampIfMissing now event.body).bind fun body =>
    (setSourceIfMissing event.metadata body).bind (setIdZeroOrMissingToCid S)

/-- `CDEvent::try_from`. -/
def tryFrom (S : Sdk CDEvent) (now : String) (event : Event) :
    Option (Except ConversionError CDEvent) :=
  (completeBody S now event).map fun body =>
    match S.fromValue body with
    | .error cause => .error (.serde cause)
    | .ok cdevent =>
        let id := sanitizeIdStr (S.id cdevent)
        if S.isId id then .ok (S.withId cdevent id) else .error (.id id)

/-! ### Where the assignments are safe -/

/-- `value["context"][key] = ...` does not panic: the value is null or an object,
and so is its context when it has one. -/
def Assignable (value : Json) : Prop :=
  value.isIndexable ∧ ((value.get "context").getD .null).isIndexable

instance (value : Json) : Decidable (Assignable value) := inferInstanceAs (Decidable (_ ∧ _))

theorem setContextField_isSome_iff (key text : String) (value : Json) :
    (setContextField key text value).isSome ↔ Assignable value := by
  simp only [setContextField, Json.indexMut_isSome_iff, Option.isSome_some, and_true, Assignable]

/-- A change in place of the context that leaves it assignable. -/
theorem assignable_indexMut {f : Json → Option Json} {value value' : Json}
    (h : value.indexMut "context" f = some value')
    (hf : ∀ context, f ((value.get "context").getD .null) = some context →
      context.isIndexable) : Assignable value' := by
  refine ⟨Json.isIndexable_indexMut h, ?_⟩
  have hsome := (Json.indexMut_isSome_iff _ _ _).mp (Option.isSome_of_eq_some h)
  obtain ⟨context, hcontext⟩ := Option.isSome_iff_exists.mp hsome.2
  rw [Json.get_indexMut_self h, hcontext, Option.getD_some]
  exact hf context hcontext

theorem setContextField_assignable {key text : String} {value value' : Json}
    (h : setContextField key text value = some value') : Assignable value' :=
  assignable_indexMut h fun _ => Json.isIndexable_indexMut

theorem exists_setContextField {key text : String} {value : Json} (h : Assignable value) :
    ∃ value', setContextField key text value = some value' ∧ Assignable value' := by
  obtain ⟨value', hset⟩ :=
    Option.isSome_iff_exists.mp ((setContextField_isSome_iff key text value).mpr h)
  exact ⟨value', hset, setContextField_assignable hset⟩

theorem exists_removeContextId {value : Json} (h : Assignable value) :
    ∃ value', removeContextId value = some value' ∧ Assignable value' := by
  have hsome : (removeContextId value).isSome := by
    rw [removeContextId, Json.indexMut_isSome_iff]
    refine ⟨h.1, ?_⟩
    split <;> rfl
  obtain ⟨value', hremove⟩ := Option.isSome_iff_exists.mp hsome
  refine ⟨value', hremove, assignable_indexMut hremove fun context hcontext => ?_⟩
  have hctx := h.2
  split at hcontext
  · simp only [Option.some.injEq] at hcontext
    exact hcontext ▸ rfl
  · simp only [Option.some.injEq] at hcontext
    exact hcontext ▸ hctx

theorem contextField_setContextField_self {key text : String} {value value' : Json}
    (h : setContextField key text value = some value') :
    contextField key value' = some (.str text) := by
  have hcontext := Json.get_indexMut_self h
  have hsome := ((Json.indexMut_isSome_iff _ _ _).mp (Option.isSome_of_eq_some h)).2
  obtain ⟨context, hset⟩ := Option.isSome_iff_exists.mp hsome
  rw [contextField, hcontext, hset, Option.bind_some]
  exact Json.get_indexMut_self hset

/-- The other fields of the context stay as they are. -/
theorem contextField_setContextField_of_ne {key other text : String} {value value' : Json}
    (hne : other ≠ key) (h : setContextField key text value = some value') :
    contextField other value' = contextField other value := by
  have hcontext := Json.get_indexMut_self h
  unfold contextField
  rw [hcontext]
  cases hctx : value.get "context" with
  | none =>
      have hbeq : (other == key) = false := beq_eq_false_iff_ne.mpr hne
      simp [Json.indexMut, Json.get, List.lookup_cons, hbeq]
  | some context =>
      rw [hctx, Option.getD_some] at hcontext
      rw [Option.getD_some, Option.bind_some]
      cases hset : context.indexMut key fun _ => some (.str text) with
      | none =>
          -- a panic in the context is one of the whole assignment
          have hsome := ((Json.indexMut_isSome_iff _ _ _).mp (Option.isSome_of_eq_some h)).2
          rw [hctx, Option.getD_some, hset] at hsome
          cases hsome
      | some context' => exact Json.get_indexMut_of_ne hne hset

/-- Without a context that is an object, every field is missing. -/
theorem contextField_of_not_assignable {value : Json} (key : String) (h : ¬Assignable value) :
    contextField key value = none := by
  unfold contextField
  cases hctx : value.get "context" with
  | none => rfl
  | some context =>
      have hindexable : value.isIndexable := by
        by_contra hnot
        rw [Json.get_of_not_isIndexable hnot] at hctx
        contradiction
      refine Json.get_of_not_isIndexable fun hcontext => h ⟨hindexable, ?_⟩
      rwa [hctx, Option.getD_some]

/-- The helpers do not panic exactly when the body they are given is assignable:
the first of them writes into every body that is not. -/
theorem completeBody_isSome_iff (S : Sdk CDEvent) (now : String) (event : Event) :
    (completeBody S now event).isSome ↔ Assignable event.body := by
  constructor
  · intro hsome
    by_contra hnot
    have htimestamp : setTimestampIfMissing now event.body = none := by
      rw [setTimestampIfMissing, contextField_of_not_assignable _ hnot, isMissing, if_pos rfl,
        ← Option.not_isSome_iff_eq_none, setContextField_isSome_iff]
      exact hnot
    rw [completeBody, htimestamp, Option.bind_none] at hsome
    contradiction
  · intro hbody
    have htimestamp : ∃ body, setTimestampIfMissing now event.body = some body ∧
        Assignable body := by
      unfold setTimestampIfMissing
      split
      · exact exists_setContextField hbody
      · exact ⟨_, rfl, hbody⟩
    obtain ⟨body, htimestamp, hbody⟩ := htimestamp
    have hsource : ∃ body', setSourceIfMissing event.metadata body = some body' ∧
        Assignable body' := by
      unfold setSourceIfMissing
      split
      · split
        · exact exists_setContextField hbody
        · exact ⟨_, rfl, hbody⟩
      · exact ⟨_, rfl, hbody⟩
    obtain ⟨body', hsource, hbody'⟩ := hsource
    rw [completeBody, htimestamp, Option.bind_some, hsource, Option.bind_some,
      setIdZeroOrMissingToCid]
    split
    · obtain ⟨body'', hremove, hbody''⟩ := exists_removeContextId hbody'
      rw [hremove, Option.bind_some, setContextField_isSome_iff]
      exact hbody''
    · rfl

theorem tryFrom_isSome_iff (S : Sdk CDEvent) (now : String) (event : Event) :
    (tryFrom S now event).isSome ↔ Assignable event.body := by
  rw [tryFrom, Option.isSome_map, completeBody_isSome_iff]

/-! ### The id of a converted event -/

/-- What is documented of the SDK: it reads the id from the context, and keeps
the one it is given. -/
structure Sdk.Lawful (S : Sdk CDEvent) : Prop where
  id_fromValue : ∀ body cdevent, S.fromValue body = .ok cdevent →
    contextField "id" body = some (.str (S.id cdevent))
  id_withId : ∀ cdevent id, S.isId id = true → S.id (S.withId cdevent id) = id

theorem Sdk.ids_lawful : Sdk.ids.Lawful where
  id_fromValue body cdevent h := by
    simp only [Sdk.ids] at h ⊢
    unfold contextField
    cases hid : (body.get "context").bind (Json.get "id") with
    | none => simp [hid] at h
    | some value =>
        rw [hid, Option.bind_some] at h
        cases value with
        | str s =>
            simp only [Json.asStr] at h
            split at h
            · cases h
            · rw [Except.ok.inj h]
        | null | bool b | num n | arr elems | obj fields => cases h
  id_withId _ _ _ := rfl

/-- The id of the event once the missing fields are filled in. -/
def completedId (S : Sdk CDEvent) (now : String) (event : Event) : Option String :=
  ((completeBody S now event).bind (contextField "id")).bind Json.asStr

theorem contextField_setTimestampIfMissing {now key : String} {body body' : Json}
    (hkey : key ≠ "timestamp") (h : setTimestampIfMissing now body = some body') :
    contextField key body' = contextField key body := by
  unfold setTimestampIfMissing at h
  split at h
  · exact contextField_setContextField_of_ne hkey h
  · rw [Option.some.inj h]

theorem contextField_setSourceIfMissing {key : String} {metadata body body' : Json}
    (hkey : key ≠ "source") (h : setSourceIfMissing metadata body = some body') :
    contextField key body' = contextField key body := by
  unfold setSourceIfMissing at h
  split at h
  · split at h
    · exact contextField_setContextField_of_ne hkey h
    · rw [Option.some.inj h]
  · rw [Option.some.inj h]

/-- An id that is neither empty nor `"0"` is kept. -/
theorem completedId_of_id {S : Sdk CDEvent} {now : String} {event : Event} {body : Json}
    {id : String} (h : completeBody S now event = some body)
    (hid : contextField "id" event.body = some (.str id)) (hempty : id ≠ "") (hzero : id ≠ "0") :
    completedId S now event = some id := by
  rw [completedId, h]
  obtain ⟨stamped, hstamped, h⟩ := Option.bind_eq_some_iff.mp h
  obtain ⟨sourced, hsourced, h⟩ := Option.bind_eq_some_iff.mp h
  have hfield : contextField "id" sourced = some (.str id) := by
    rw [contextField_setSourceIfMissing (by decide) hsourced,
      contextField_setTimestampIfMissing (by decide) hstamped, hid]
  unfold setIdZeroOrMissingToCid at h
  rw [if_neg (by simp [isIdZeroOrMissing, hfield, Json.isNull, Json.asStr, hempty, hzero])] at h
  rw [← Option.some.inj h, Option.bind_some, hfield]
  rfl

/-- The id of a converted event is the one of the completed body, rewritten. -/
theorem id_tryFrom {S : Sdk CDEvent} (hS : S.Lawful) {now : String} {event : Event}
    {cdevent : CDEvent} (h : tryFrom S now event = some (.ok cdevent)) :
    ∃ id, completedId S now event = some id ∧ S.id cdevent = sanitizeIdStr id := by
  obtain ⟨body, hbody, hok⟩ := Option.map_eq_some_iff.mp h
  cases hvalue : S.fromValue body with
  | error cause => simp [hvalue] at hok
  | ok read =>
      simp only [hvalue] at hok
      split at hok
      · rename_i hid
        refine ⟨S.id read, ?_, ?_⟩
        · rw [completedId, hbody, Option.bind_some, hS.id_fromValue body read hvalue]
          rfl
        · rw [← Except.ok.inj hok, hS.id_withId _ _ hid]
      · cases hok

theorem sanitizeIdStr_chars (id : String) :
    ∀ c ∈ (sanitizeIdStr id).toList, c.isAlphanum = true ∨ c = '_' := by
  intro c hc
  rw [sanitizeIdStr, String.toList_ofList] at hc
  obtain ⟨d, -, rfl⟩ := List.mem_map.mp hc
  split
  · rename_i hd
    exact .inl hd
  · exact .inr rfl

end CdvizCollector.Sources
