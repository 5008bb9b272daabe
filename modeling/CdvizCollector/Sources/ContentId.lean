import CdvizCollector.Sources.CDEvent

/-!
The id computed from a body (`set_id_zero_or_missing_to_cid` of `sources/mod.rs`)
and the id of a CDEvent that goes from one collector to another.

The id is the one of the body without an id, so nothing at `context.id` that
counts as missing has a part in it. A CDEvent that is sent on carries an id that
a conversion keeps: it is neither empty nor `"0"`, and it is already sanitized.
-/

namespace CdvizCollector.Sources

open Lib

variable {CDEvent : Type}

/-- The body with `context.id` as given, without one for `none`. -/
def withContextId (id : Option Json) (body : Json) : Option Json :=
  match id with
  | none => removeContextId body
  | some id => body.indexMut "context" (Json.indexMut "id" fun _ => some id)

/-- An id is missing unless it is a string other than the empty one and `"0"`. -/
theorem isIdZeroOrMissing_iff (id : Option Json) :
    isIdZeroOrMissing id = true ↔ ∀ text, id = some (.str text) → text = "" ∨ text = "0" := by
  cases id with
  | none => simp [isIdZeroOrMissing]
  | some value => cases value <;> simp [isIdZeroOrMissing, Json.isNull, Json.asStr]

/-! ### Bodies whose context is an object -/

section Context

variable {fields context : Json.Fields}

theorem removeContextId_obj (h : fields.lookup "context" = some (.obj context)) :
    removeContextId (.obj fields) =
      some (.obj (Assoc.insert "context" (.obj (Assoc.remove "id" context)) fields)) := by
  simp [removeContextId, Json.indexMut, h]

theorem withContextId_some_obj (h : fields.lookup "context" = some (.obj context)) (id : Json) :
    withContextId (some id) (.obj fields) =
      some (.obj (Assoc.insert "context" (.obj (Assoc.insert "id" id context)) fields)) := by
  simp [withContextId, Json.indexMut, h]

/-- A body with a field in its context is an object, and so is the context. -/
theorem exists_context {key : String} {body : Json}
    (h : isMissing (contextField key body) = false) :
    ∃ fields context, body = .obj fields ∧ fields.lookup "context" = some (.obj context) := by
  cases body with
  | obj fields =>
      cases hctx : fields.lookup "context" with
      | none => simp [contextField, Json.get, hctx, isMissing] at h
      | some value =>
          cases value with
          | obj context => exact ⟨fields, context, rfl, hctx⟩
          | null | bool b | num n | str s | arr elems =>
              simp [contextField, Json.get, hctx, isMissing] at h
  | null | bool b | num n | str s | arr elems => simp [contextField, Json.get, isMissing] at h

theorem contextField_obj (h : fields.lookup "context" = some (.obj context)) (key : String) :
    contextField key (.obj fields) = context.lookup key := by
  simp [contextField, Json.get, h]

/-- A body with another id has an object for its context, and is the same
without an id. -/
theorem withContextId_obj (h : fields.lookup "context" = some (.obj context))
    (id : Option Json) :
    ∃ fields' context', withContextId id (.obj fields) = some (.obj fields') ∧
      fields'.lookup "context" = some (.obj context') ∧ context'.lookup "id" = id ∧
      removeContextId (.obj fields') = removeContextId (.obj fields) := by
  cases id with
  | none =>
      refine ⟨_, _, removeContextId_obj h, Assoc.lookup_insert_self _ _ _,
        Assoc.lookup_remove_self _ _, ?_⟩
      rw [removeContextId_obj h, removeContextId_obj (Assoc.lookup_insert_self _ _ _),
        Assoc.insert_insert]
      simp [Assoc.remove]
  | some id =>
      refine ⟨_, _, withContextId_some_obj h id, Assoc.lookup_insert_self _ _ _,
        Assoc.lookup_insert_self _ _ _, ?_⟩
      rw [removeContextId_obj h, removeContextId_obj (Assoc.lookup_insert_self _ _ _),
        Assoc.insert_insert, Assoc.remove_insert]

/-- The content id of a body, computed from what is left of it without an id. -/
def cidOf (S : Sdk CDEvent) (fields context : Json.Fields) : String :=
  S.contentId (S.toString
    (.obj (Assoc.insert "context" (.obj (Assoc.remove "id" context)) fields)))

theorem setIdZeroOrMissingToCid_missing (S : Sdk CDEvent)
    (h : fields.lookup "context" = some (.obj context))
    (hid : isIdZeroOrMissing (context.lookup "id") = true) :
    setIdZeroOrMissingToCid S (.obj fields) =
      (removeContextId (.obj fields)).bind
        (withContextId (some (.str (cidOf S fields context)))) := by
  rw [setIdZeroOrMissingToCid, contextField_obj h, if_pos hid, removeContextId_obj h]
  rfl

theorem setIdZeroOrMissingToCid_present (S : Sdk CDEvent)
    (h : fields.lookup "context" = some (.obj context))
    (hid : isIdZeroOrMissing (context.lookup "id") = false) :
    setIdZeroOrMissingToCid S (.obj fields) = some (.obj fields) := by
  rw [setIdZeroOrMissingToCid, contextField_obj h, hid, if_neg (by decide)]

theorem cidOf_congr (S : Sdk CDEvent) {fields' context' : Json.Fields}
    (h : fields.lookup "context" = some (.obj context))
    (h' : fields'.lookup "context" = some (.obj context'))
    (hsame : removeContextId (.obj fields') = removeContextId (.obj fields)) :
    cidOf S fields' context' = cidOf S fields context := by
  rw [removeContextId_obj h, removeContextId_obj h'] at hsame
  unfold cidOf
  rw [Option.some.inj hsame]

/-- What completing a body with a missing id leaves: the content id at its place,
and nothing else changed. -/
theorem exists_completed (S : Sdk CDEvent) (h : fields.lookup "context" = some (.obj context)) :
    ∃ fields' context',
      (removeContextId (.obj fields)).bind
          (withContextId (some (.str (cidOf S fields context)))) = some (.obj fields') ∧
        fields'.lookup "context" = some (.obj context') ∧
        context'.lookup "id" = some (.str (cidOf S fields context)) ∧
        removeContextId (.obj fields') = removeContextId (.obj fields) := by
  obtain ⟨stripped, strippedContext, hstripped, hctx, -, hsame⟩ := withContextId_obj h none
  obtain ⟨fields', context', hset, hctx', hid', hsame'⟩ :=
    withContextId_obj hctx (some (.str (cidOf S fields context)))
  refine ⟨fields', context', ?_, hctx', hid', hsame'.trans hsame⟩
  change (withContextId none (.obj fields)).bind _ = _
  rw [hstripped, Option.bind_some, hset]

/-- Whatever the missing id is, a body is completed to one and the same. -/
theorem setIdZeroOrMissingToCid_same (S : Sdk CDEvent)
    (h : fields.lookup "context" = some (.obj context)) {id : Option Json}
    (hid : isIdZeroOrMissing id = true) :
    (withContextId id (.obj fields)).bind (setIdZeroOrMissingToCid S) =
      (removeContextId (.obj fields)).bind
        (withContextId (some (.str (cidOf S fields context)))) := by
  obtain ⟨given, givenContext, hgiven, hctx, hgivenId, hsame⟩ := withContextId_obj h id
  rw [hgiven, Option.bind_some,
    setIdZeroOrMissingToCid_missing S hctx (by rw [hgivenId]; exact hid),
    hsame, cidOf_congr S h hctx hsame]

/-- Completing a body changes nothing but its id, and a second time nothing. -/
theorem setIdZeroOrMissingToCid_settles (S : Sdk CDEvent)
    (h : fields.lookup "context" = some (.obj context)) :
    ∃ fields' context', setIdZeroOrMissingToCid S (.obj fields) = some (.obj fields') ∧
      fields'.lookup "context" = some (.obj context') ∧
      removeContextId (.obj fields') = removeContextId (.obj fields) ∧
      setIdZeroOrMissingToCid S (.obj fields') = some (.obj fields') := by
  cases hid : isIdZeroOrMissing (context.lookup "id") with
  | false =>
      have hset := setIdZeroOrMissingToCid_present S h hid
      exact ⟨fields, context, hset, h, rfl, hset⟩
  | true =>
      obtain ⟨fields', context', hset, hctx', hid', hsame⟩ := exists_completed S h
      have hset' := setIdZeroOrMissingToCid_missing S h hid
      refine ⟨fields', context', hset'.trans hset, hctx', hsame, ?_⟩
      cases hcid : isIdZeroOrMissing (context'.lookup "id") with
      | false => exact setIdZeroOrMissingToCid_present S hctx' hcid
      | true =>
          -- even a content id that counts as missing is computed again from the same body
          rw [setIdZeroOrMissingToCid_missing S hctx' hcid, hsame, cidOf_congr S h hctx' hsame]
          exact hset

/-- Bodies that are the same without an id have the other fields in common. -/
theorem lookup_of_removeContextId {fields' context' : Json.Fields}
    (h : fields.lookup "context" = some (.obj context))
    (h' : fields'.lookup "context" = some (.obj context'))
    (hsame : removeContextId (.obj fields') = removeContextId (.obj fields)) {key : String}
    (hkey : key ≠ "id") : context'.lookup key = context.lookup key := by
  rw [removeContextId_obj h, removeContextId_obj h'] at hsame
  have hcontext := congrArg (List.lookup "context") (Json.obj.inj (Option.some.inj hsame))
  rw [Assoc.lookup_insert_self, Assoc.lookup_insert_self] at hcontext
  rw [← Assoc.lookup_remove_of_ne hkey context', ← Assoc.lookup_remove_of_ne hkey context,
    Json.obj.inj (Option.some.inj hcontext)]

end Context

/-! ### From collector to collector -/

/-- What is documented of writing a CDEvent as JSON: one that was read is read back
as it is, with the id it was given, and the timestamp and source of its body are
written out. A content id is a CIDv1 in base 32, which starts with the letter b. -/
structure Sdk.Serde (S : Sdk CDEvent) (toValue : CDEvent → Json) : Prop where
  fromValue_toValue : ∀ body cdevent id, S.fromValue body = .ok cdevent → S.isId id = true →
    S.fromValue (toValue (S.withId cdevent id)) = .ok (S.withId cdevent id)
  written : ∀ body cdevent id key, S.fromValue body = .ok cdevent → S.isId id = true →
    key = "timestamp" ∨ key = "source" → isMissing (contextField key body) = false →
    isMissing (contextField key (toValue (S.withId cdevent id))) = false
  contentId_base32 : ∀ text, (S.contentId text).toList.head? = some 'b'

/-- What a collector adds to a CDEvent it receives, and when. -/
structure Hop where
  now : String
  metadata : Json
  headers : StringMap

/-- The collectors a CDEvent goes through, each converting what the one before
it has written. -/
def relay (S : Sdk CDEvent) (toValue : CDEvent → Json) :
    List Hop → CDEvent → Option (Except ConversionError CDEvent)
  | [], cdevent => some (.ok cdevent)
  | hop :: hops, cdevent =>
      match tryFrom S hop.now ⟨hop.metadata, hop.headers, toValue cdevent⟩ with
      | some (.ok received) => relay S toValue hops received
      | failed => failed

structure SettledId (id : String) : Prop where
  ne_empty : id ≠ ""
  ne_zero : id ≠ "0"
  sanitized : sanitizeIdStr id = id

theorem sanitizeIdStr_idem (id : String) : sanitizeIdStr (sanitizeIdStr id) = sanitizeIdStr id := by
  unfold sanitizeIdStr
  rw [String.toList_ofList, List.map_map]
  refine congrArg String.ofList (List.map_congr_left fun c _ => ?_)
  by_cases hc : c.isAlphanum = true
  · simp [hc]
  · have hunderscore : ('_' : Char).isAlphanum = false := by decide
    simp [hc, hunderscore]

/-- Sanitizing goes character by character, and no character becomes a zero. -/
theorem sanitizeIdStr_eq_zero_iff (id : String) : sanitizeIdStr id = "0" ↔ id = "0" := by
  constructor
  · intro h
    have hchars := congrArg String.toList h
    rw [sanitizeIdStr, String.toList_ofList] at hchars
    obtain ⟨c, hid, hc⟩ := List.map_eq_singleton_iff.mp
      (hchars.trans (show ("0" : String).toList = ['0'] from rfl))
    split at hc
    · rw [← String.ofList_toList (s := id), hid, hc]
    · cases hc
  · rintro rfl
    decide

theorem sanitizeIdStr_eq_empty_iff (id : String) : sanitizeIdStr id = "" ↔ id = "" := by
  rw [← String.toList_eq_nil_iff, sanitizeIdStr, String.toList_ofList, List.map_eq_nil_iff,
    String.toList_eq_nil_iff]

theorem settledId_sanitizeIdStr {id : String} (hempty : id ≠ "") (hzero : id ≠ "0") :
    SettledId (sanitizeIdStr id) :=
  ⟨mt (sanitizeIdStr_eq_empty_iff id).mp hempty, mt (sanitizeIdStr_eq_zero_iff id).mp hzero,
    sanitizeIdStr_idem id⟩

theorem present_of_not_missing {id : Option Json} (h : isIdZeroOrMissing id = false) :
    ∃ text, id = some (.str text) ∧ text ≠ "" ∧ text ≠ "0" := by
  by_contra hnot
  have hmissing : isIdZeroOrMissing id = true := by
    refine (isIdZeroOrMissing_iff id).mpr fun text htext => ?_
    by_contra hpresent
    exact hnot
      ⟨text, htext, fun hempty => hpresent (.inl hempty), fun hzero => hpresent (.inr hzero)⟩
  rw [hmissing] at h
  contradiction

/-- A CDEvent that the next collector reads with nothing left to fill in. -/
structure Relayed (S : Sdk CDEvent) (toValue : CDEvent → Json) (cdevent : CDEvent) : Prop where
  read_back : S.fromValue (toValue cdevent) = .ok cdevent
  timestamp : isMissing (contextField "timestamp" (toValue cdevent)) = false
  source : isMissing (contextField "source" (toValue cdevent)) = false
  valid : S.isId (S.id cdevent) = true
  settled : SettledId (S.id cdevent)

theorem completed_id {S : Sdk CDEvent} {toValue : CDEvent → Json} (hserde : S.Serde toValue)
    {fields context fields' context' : Json.Fields}
    (h : fields.lookup "context" = some (.obj context))
    (hset : setIdZeroOrMissingToCid S (.obj fields) = some (.obj fields'))
    (h' : fields'.lookup "context" = some (.obj context')) :
    ∃ text, context'.lookup "id" = some (.str text) ∧ text ≠ "" ∧ text ≠ "0" := by
  cases hid : isIdZeroOrMissing (context.lookup "id") with
  | false =>
      rw [setIdZeroOrMissingToCid_present S h hid] at hset
      obtain rfl := Json.obj.inj (Option.some.inj hset)
      obtain rfl := Json.obj.inj (Option.some.inj (h.symm.trans h'))
      exact present_of_not_missing hid
  | true =>
      rw [setIdZeroOrMissingToCid_missing S h hid] at hset
      obtain ⟨fields'', context'', hset'', hctx'', hcid, -⟩ := exists_completed S h
      obtain rfl := Json.obj.inj (Option.some.inj (hset''.symm.trans hset))
      obtain rfl := Json.obj.inj (Option.some.inj (hctx''.symm.trans h'))
      -- a content id is neither empty nor a zero, by its first character
      have hbase := hserde.contentId_base32 (S.toString
        (.obj (Assoc.insert "context" (.obj (Assoc.remove "id" context)) fields)))
      refine ⟨_, hcid, fun hempty => ?_, fun hzero => ?_⟩
      · rw [cidOf] at hempty
        rw [hempty] at hbase
        cases hbase
      · rw [cidOf] at hzero
        rw [hzero] at hbase
        cases hbase

/-- A body with a timestamp and a source is completed in its id only. -/
theorem completeBody_of_dated (S : Sdk CDEvent) (now : String) {event : Event}
    (htimestamp : isMissing (contextField "timestamp" event.body) = false)
    (hsource : isMissing (contextField "source" event.body) = false) :
    completeBody S now event = setIdZeroOrMissingToCid S event.body := by
  rw [completeBody, setTimestampIfMissing, if_neg (by simp [htimestamp]), Option.bind_some,
    setSourceIfMissing, if_neg (by simp [hsource]), Option.bind_some]

section Hops

variable {S : Sdk CDEvent} {toValue : CDEvent → Json} (hS : S.Lawful) (hserde : S.Serde toValue)

include hS hserde

/-- What a body is converted to, once completed with a settled id. -/
theorem relayed_withId {body : Json} {cdevent : CDEvent}
    (hread : S.fromValue body = .ok cdevent)
    (htimestamp : isMissing (contextField "timestamp" body) = false)
    (hsource : isMissing (contextField "source" body) = false) {id : String}
    (hid : S.isId id = true) (hsettled : SettledId id) :
    Relayed S toValue (S.withId cdevent id) where
  read_back := hserde.fromValue_toValue body cdevent id hread hid
  timestamp := hserde.written body cdevent id _ hread hid (.inl rfl) htimestamp
  source := hserde.written body cdevent id _ hread hid (.inr rfl) hsource
  valid := by rwa [hS.id_withId _ _ hid]
  settled := by rwa [hS.id_withId _ _ hid]

omit hserde in
theorem completeBody_relayed {cdevent : CDEvent} (h : Relayed S toValue cdevent) (now : String)
    (metadata : Json) (headers : StringMap) :
    completeBody S now ⟨metadata, headers, toValue cdevent⟩ = some (toValue cdevent) := by
  have hid := hS.id_fromValue _ _ h.read_back
  have hpresent : isIdZeroOrMissing (contextField "id" (toValue cdevent)) = false := by
    simp [hid, isIdZeroOrMissing, Json.isNull, Json.asStr, h.settled.ne_empty, h.settled.ne_zero]
  rw [completeBody_of_dated S now h.timestamp h.source, setIdZeroOrMissingToCid,
    if_neg (by simp [hpresent])]

/-- One more collector converts the CDEvent, and keeps its id. -/
theorem tryFrom_relayed {cdevent : CDEvent} (h : Relayed S toValue cdevent) (hop : Hop) :
    ∃ received, tryFrom S hop.now ⟨hop.metadata, hop.headers, toValue cdevent⟩ =
        some (.ok received) ∧ S.id received = S.id cdevent ∧ Relayed S toValue received := by
  have hbody := completeBody_relayed hS h hop.now hop.metadata hop.headers
  refine ⟨S.withId cdevent (S.id cdevent), ?_, hS.id_withId _ _ h.valid,
    relayed_withId hS hserde h.read_back h.timestamp h.source h.valid h.settled⟩
  rw [tryFrom, hbody, Option.map_some, h.read_back]
  simp only [h.settled.sanitized, if_pos h.valid]

/-- The id is the same after any number of collectors, and none of them fails. -/
theorem relay_relayed (hops : List Hop) {cdevent : CDEvent} (h : Relayed S toValue cdevent) :
    ∃ received, relay S toValue hops cdevent = some (.ok received) ∧
      S.id received = S.id cdevent := by
  induction hops generalizing cdevent with
  | nil => exact ⟨cdevent, rfl, rfl⟩
  | cons hop hops ih =>
      obtain ⟨next, hnext, hid, hrelayed⟩ := tryFrom_relayed hS hserde h hop
      obtain ⟨received, hreceived, hid'⟩ := ih hrelayed
      refine ⟨received, ?_, hid'.trans hid⟩
      rw [relay, hnext]
      exact hreceived

theorem relayed_of_tryFrom {fields context : Json.Fields} {now : String} {event : Event}
    {cdevent : CDEvent} (hevent : event.body = .obj fields)
    (h : fields.lookup "context" = some (.obj context))
    (htimestamp : isMissing (context.lookup "timestamp") = false)
    (hsource : isMissing (context.lookup "source") = false)
    (hok : tryFrom S now event = some (.ok cdevent)) : Relayed S toValue cdevent := by
  obtain ⟨body, hbody, hconverted⟩ := Option.map_eq_some_iff.mp hok
  rw [completeBody_of_dated S now (by rwa [hevent, contextField_obj h])
    (by rwa [hevent, contextField_obj h]), hevent] at hbody
  obtain ⟨fields', context', hset, hctx', hsame, -⟩ := setIdZeroOrMissingToCid_settles S h
  obtain rfl : Json.obj fields' = body := Option.some.inj (hset.symm.trans hbody)
  have hother : ∀ key, key ≠ "id" → contextField key (.obj fields') = context.lookup key :=
    fun key hkey => by
      rw [contextField_obj hctx', lookup_of_removeContextId h hctx' hsame hkey]
  obtain ⟨text, htext, hempty, hzero⟩ := completed_id hserde h hset hctx'
  cases hread : S.fromValue (.obj fields') with
  | error cause => simp [hread] at hconverted
  | ok read =>
      have hid : S.id read = text := by
        have hfield := hS.id_fromValue _ _ hread
        rw [contextField_obj hctx', htext] at hfield
        exact (Json.str.inj (Option.some.inj hfield)).symm
      simp only [hread, hid] at hconverted
      split at hconverted
      · rename_i hvalid
        rw [← Except.ok.inj hconverted]
        exact relayed_withId hS hserde hread (by rwa [hother _ (by decide)])
          (by rwa [hother _ (by decide)]) hvalid (settledId_sanitizeIdStr hempty hzero)
      · cases hconverted

end Hops

/-- The id of an event stays with it. Whatever stands at `context.id` for a missing
id, the id computed is the same; completing the body changes nothing else, once or
twice, and keeps an id that is there. A CDEvent sent on keeps its id through any
number of collectors. -/
theorem content_id_stable {S : Sdk CDEvent} (hS : S.Lawful) {toValue : CDEvent → Json}
    (hserde : S.Serde toValue) {fields context : Json.Fields}
    (h : fields.lookup "context" = some (.obj context))
    (htimestamp : isMissing (context.lookup "timestamp") = false)
    (hsource : isMissing (context.lookup "source") = false) :
    (∃ fields' context' cid, fields'.lookup "context" = some (.obj context') ∧
      context'.lookup "id" = some (.str cid) ∧
      ∀ id, (∀ text, id = some (.str text) → text = "" ∨ text = "0") →
        (withContextId id (.obj fields)).bind (setIdZeroOrMissingToCid S) =
          some (.obj fields')) ∧
    (∃ body', setIdZeroOrMissingToCid S (.obj fields) = some body' ∧
      removeContextId body' = removeContextId (.obj fields) ∧
      setIdZeroOrMissingToCid S body' = some body') ∧
    (∀ id, id ≠ "" → id ≠ "0" → context.lookup "id" = some (.str id) →
      setIdZeroOrMissingToCid S (.obj fields) = some (.obj fields)) ∧
    ∀ now metadata headers cdevent,
      tryFrom S now ⟨metadata, headers, .obj fields⟩ = some (.ok cdevent) →
      ∀ hops, ∃ received, relay S toValue hops cdevent = some (.ok received) ∧
        S.id received = S.id cdevent := by
  refine ⟨?_, ?_, ?_, ?_⟩
  · obtain ⟨fields', context', hset, hctx', hcid, -⟩ := exists_completed S h
    refine ⟨fields', context', _, hctx', hcid, fun id hid => ?_⟩
    rw [setIdZeroOrMissingToCid_same S h ((isIdZeroOrMissing_iff id).mpr hid), hset]
  · obtain ⟨fields', context', hset, -, hsame, hsettled⟩ := setIdZeroOrMissingToCid_settles S h
    exact ⟨.obj fields', hset, hsame, hsettled⟩
  · intro id hempty hzero hid
    refine setIdZeroOrMissingToCid_present S h ?_
    simp [hid, isIdZeroOrMissing, Json.isNull, Json.asStr, hempty, hzero]
  · intro now metadata headers cdevent hok hops
    exact relay_relayed hS hserde hops
      (relayed_of_tryFrom hS hserde rfl h htimestamp hsource hok)

/-- A CDEvent of the source and the time that `body` shows, reduced to its id. -/
def Sdk.idsToValue (id : String) : Json :=
  .obj [("context", .obj [("id", .str id), ("source", .str "/event/source/123"),
    ("timestamp", .str "2023-03-20T14:27:05.315384Z")])]

theorem Sdk.ids_serde : Sdk.ids.Serde Sdk.idsToValue where
  fromValue_toValue body cdevent id _ hid := by
    have hne : id ≠ "" := of_decide_eq_true hid
    show (if id = "" then Except.error "invalid id" else .ok id) = .ok id
    rw [if_neg hne]
  written body cdevent id key _ _ hkey _ := by
    rcases hkey with rfl | rfl
    · rfl
    · rfl
  contentId_base32 _ := by
    show ("bafkrei" : String).toList.head? = some 'b'
    decide

def zeroContext : Json.Fields :=
  [("id", .str "0"), ("source", .str "/event/source/123"),
    ("timestamp", .str "2023-03-20T14:27:05.315384Z")]

theorem content_id_stable_zero :
    ∃ received, relay Sdk.ids Sdk.idsToValue
        [⟨"2024-01-01T00:00:00Z", .null, []⟩, ⟨"2024-01-02T00:00:00Z", .null, []⟩] "bafkrei" =
          some (.ok received) ∧ received = "bafkrei" :=
  (content_id_stable Sdk.ids_lawful Sdk.ids_serde
    (show List.lookup "context" [("context", Json.obj zeroContext)] = some (.obj zeroContext)
      from rfl) (by decide) (by decide)).2.2.2 "2024-01-01T00:00:00Z" .null [] "bafkrei" rfl _

end CdvizCollector.Sources
