import CdvizCollector.Sources.CDEvent

/-!
The folder sink (`sinks/folder.rs`).

An event is one file, named by its id. The id is rewritten when the event is
converted, character by character, so different ids may end up as one file name;
the event that is written last is then the one the file holds.
-/

namespace CdvizCollector.Sinks.Folder

open Lib Sources

variable {CDEvent : Type}

/-- How the write of a file ends; one that fails may leave anything at its path. -/
inductive Outcome
  | written
  | failed (cause : String) (remains : Option String)

/-- The operator and its directory: `outcome` is how each write ends. -/
structure FolderSink (CDEvent : Type) where
  S : Sdk CDEvent
  toText : CDEvent → String
  outcome : ℕ → Outcome

structure Directory where
  files : List (String × String)
  writes : ℕ

/-- `format!("{id}.json")` with the id of the event. -/
def fileName (S : Sdk CDEvent) (cdevent : CDEvent) : String := S.id cdevent ++ ".json"

def FolderSink.send (F : FolderSink CDEvent) (cdevent : CDEvent) (s : Directory) :
    Except String Unit × Directory :=
  let path := fileName F.S cdevent
  match F.outcome s.writes with
  | .written => (.ok (), ⟨Assoc.insert path (F.toText cdevent) s.files, s.writes + 1⟩)
  | .failed cause (some text) => (.error cause, ⟨Assoc.insert path text s.files, s.writes + 1⟩)
  | .failed cause none => (.error cause, ⟨Assoc.remove path s.files, s.writes + 1⟩)

/-- The directory after the events were sent one after the other. -/
def FolderSink.sendAll (F : FolderSink CDEvent) (cdevents : List CDEvent) (s : Directory) :
    Directory :=
  cdevents.foldl (fun s cdevent => (F.send cdevent s).2) s

/-- An event of a source and the CDEvent it is converted to. -/
structure Converted (S : Sdk CDEvent) where
  now : String
  event : Event
  cdevent : CDEvent
  converted : tryFrom S now event = some (.ok cdevent)

section

variable {F : FolderSink CDEvent}

theorem lookup_send_self {cdevent : CDEvent} {s : Directory} (h : (F.send cdevent s).1 = .ok ()) :
    (F.send cdevent s).2.files.lookup (fileName F.S cdevent) = some (F.toText cdevent) := by
  unfold FolderSink.send at h ⊢
  split at h
  · exact Assoc.lookup_insert_self _ _ _
  · cases h
  · cases h

theorem lookup_send_of_ne {cdevent : CDEvent} {name : String} (h : name ≠ fileName F.S cdevent)
    (s : Directory) : (F.send cdevent s).2.files.lookup name = s.files.lookup name := by
  unfold FolderSink.send
  split
  · exact Assoc.lookup_insert_of_ne h _ _
  · exact Assoc.lookup_insert_of_ne h _ _
  · exact Assoc.lookup_remove_of_ne h _

theorem lookup_sendAll_of_ne {name : String} {cdevents : List CDEvent}
    (h : ∀ cdevent ∈ cdevents, name ≠ fileName F.S cdevent) (s : Directory) :
    (F.sendAll cdevents s).files.lookup name = s.files.lookup name := by
  induction cdevents generalizing s with
  | nil => rfl
  | cons cdevent cdevents ih =>
      rw [List.forall_mem_cons] at h
      exact (ih h.2 _).trans (lookup_send_of_ne h.1 s)

/-- What was written of an event is there until a later event has its file name. -/
theorem lookup_sendAll {before after : List CDEvent} {cdevent : CDEvent} {s : Directory}
    (hok : (F.send cdevent (F.sendAll before s)).1 = .ok ())
    (hafter : ∀ later ∈ after, fileName F.S cdevent ≠ fileName F.S later) :
    (F.sendAll (before ++ cdevent :: after) s).files.lookup (fileName F.S cdevent) =
      some (F.toText cdevent) := by
  rw [FolderSink.sendAll, List.foldl_append, List.foldl_cons]
  exact (lookup_sendAll_of_ne hafter _).trans (lookup_send_self hok)

end

theorem fileName_eq_iff {S : Sdk CDEvent} {c c' : CDEvent} :
    fileName S c = fileName S c' ↔ S.id c = S.id c' := by
  simp [fileName, String.append_left_inj]

/-- Every converted event has a file of its own right under the root, whose name
is its id with `_` for every character but ASCII letters and digits. It stays
there until an event with the same rewritten id is sent. -/
theorem one_file_for_each_rewritten_id (F : FolderSink CDEvent) (hS : F.S.Lawful) (s : Directory)
    (sent : List (Converted F.S)) :
    (∀ c ∈ sent, ∃ id, completedId F.S c.now c.event = some id ∧
        fileName F.S c.cdevent = sanitizeIdStr id ++ ".json" ∧
        (∀ ch ∈ (sanitizeIdStr id).toList, ch.isAlphanum = true ∨ ch = '_') ∧
        ∀ own, contextField "id" c.event.body = some (.str own) → own ≠ "" → own ≠ "0" →
          id = own) ∧
      (∀ c ∈ sent, ∀ c' ∈ sent, ∀ id id', completedId F.S c.now c.event = some id →
        completedId F.S c'.now c'.event = some id' →
          (fileName F.S c.cdevent = fileName F.S c'.cdevent ↔
            sanitizeIdStr id = sanitizeIdStr id')) ∧
      ∀ before c after, sent = before ++ c :: after →
        (F.send c.cdevent (F.sendAll (before.map Converted.cdevent) s)).1 = .ok () →
        (∀ later ∈ after, fileName F.S c.cdevent ≠ fileName F.S later.cdevent) →
        (F.sendAll (sent.map Converted.cdevent) s).files.lookup (fileName F.S c.cdevent) =
          some (F.toText c.cdevent) := by
  refine ⟨fun c _ => ?_, fun c _ c' _ id id' hid hid' => ?_, ?_⟩
  · obtain ⟨id, hid, hname⟩ := id_tryFrom hS c.converted
    refine ⟨id, hid, by rw [fileName, hname], sanitizeIdStr_chars id, ?_⟩
    intro own hown hempty hzero
    obtain ⟨body, hbody, -⟩ := Option.map_eq_some_iff.mp c.converted
    exact Option.some.inj (hid.symm.trans (completedId_of_id hbody hown hempty hzero))
  · obtain ⟨own, hown, hname⟩ := id_tryFrom hS c.converted
    obtain ⟨own', hown', hname'⟩ := id_tryFrom hS c'.converted
    obtain rfl : id = own := Option.some.inj (hid.symm.trans hown)
    obtain rfl : id' = own' := Option.some.inj (hid'.symm.trans hown')
    rw [fileName_eq_iff, hname, hname']
  · rintro before c after rfl hok hafter
    rw [List.map_append, List.map_cons]
    apply lookup_sendAll hok
    intro later hlater
    obtain ⟨c', hc', rfl⟩ := List.mem_map.mp hlater
    exact hafter c' hc'

def labelled (id : String) : Event :=
  { metadata := .null
    headers := []
    body := .obj [("context", .obj [("id", .str id), ("timestamp", .str "now")])] }

def FolderSink.ids : FolderSink String :=
  { S := Sdk.ids, toText := fun id => id, outcome := fun _ => .written }

theorem one_file_for_each_rewritten_id_sample :
    (FolderSink.ids.sendAll ["a_b", "c"] ⟨[], 0⟩).files.lookup "a_b.json" = some "a_b" :=
  (one_file_for_each_rewritten_id FolderSink.ids Sdk.ids_lawful ⟨[], 0⟩
    [⟨"now", labelled "a/b", "a_b", rfl⟩, ⟨"now", labelled "c", "c", rfl⟩]).2.2 [] _ _ rfl rfl
    (by decide)

/-- Two ids that differ only in a character that is rewritten. -/
theorem different_ids_share_file :
    ¬ ∀ (S : Sdk String), S.Lawful → ∀ (c c' : Converted S) (id id' : String),
      contextField "id" c.event.body = some (.str id) →
      contextField "id" c'.event.body = some (.str id') →
      id ≠ "" → id' ≠ "" → id ≠ id' → fileName S c.cdevent ≠ fileName S c'.cdevent := by
  intro h
  exact h Sdk.ids Sdk.ids_lawful ⟨"now", labelled "a/b", "a_b", rfl⟩
    ⟨"now", labelled "a_b", "a_b", rfl⟩ "a/b" "a_b" rfl rfl (by decide) (by decide) (by decide) rfl

end CdvizCollector.Sinks.Folder
