import CdvizCollector.Lib.Path
import CdvizCollector.Sources.CDEvent
import Mathlib.Data.List.Nodup

/-!
The files of the `transform` command (`tools/transform.rs`).

An output is written under the path of its input, with the number of the outputs
before it as an index and another extension. The name is made from the stem of
the path alone, so outputs of different inputs may get one name, and the counter
behind the index is a `u16`.
-/

namespace CdvizCollector.Tools.Transform

open Lib Sources

variable {CDEvent : Type}

/-! ### One output -/

/-- What a `send` writes, each to a file of its own. -/
inductive Export where
  | body
  | headers
  | metadata
deriving DecidableEq

def Export.extension : Export → List Char
  | .body => "json.new".toList
  | .headers => "headers.json.new".toList
  | .metadata => "metadata.json.new".toList

/-- A `send` that does not end well returns an error or panics. -/
inductive SendError where
  | report (text : String)
  | panicked

/-- How the operations of one `send` on the file system and the terminal end, with the text of the
error of one that fails, and what the clock shows. -/
structure Answers where
  createDirAll : Option String
  write : Export → Option String
  warning : Option String
  now : String

structure OutputToJsonFile (CDEvent : Type) where
  S : Sdk CDEvent
  /-- `serde_json::to_string_pretty`. -/
  toStringPretty : Json → Except String String
  directory : List Char
  checkCdevent : Bool
  exportHeaders : Bool
  exportMetadata : Bool

/-- The fields of `OutputToJsonFile` that a `send` changes. -/
structure State where
  seenPaths : List (String × UInt16)
  checkCdeventFailuresCounter : UInt16

def State.new : State := { seenPaths := [], checkCdeventFailuresCounter := 0 }

/-- What is left of a `send`: its result and the files it has written, with their contents. -/
structure Sent where
  result : Except SendError Unit
  written : List (List Char × String)

/-- The fields that can change between runs are removed. -/
def removeVolatile : Json → Json
  | .obj fields => .obj (Assoc.remove "root" (Assoc.remove "last_modified" fields))
  | metadata => metadata

/-- The first output of a path keeps its name, the others get an index before the extension. -/
def filename (baseFilename : List Char) (currentIndex : UInt16) : List Char :=
  if currentIndex = 0 then baseFilename
  else
    let uniqueName := Path.fileStem baseFilename ++
      '.' :: (Nat.toDigits 10 currentIndex.toNat ++ ".json".toList)
    if Path.parent baseFilename = [] then uniqueName
    else Path.parent baseFilename ++ '/' :: uniqueName

section

variable (F : OutputToJsonFile CDEvent)

def OutputToJsonFile.exports : List Export :=
  .body :: ((if F.exportHeaders then [.headers] else []) ++
    if F.exportMetadata then [.metadata] else [])

def OutputToJsonFile.content (input : Event) : Export → Except String String
  | .body => (F.toStringPretty input.body).mapError fun _ => "failed to serialize body"
  | .headers => F.toStringPretty (Json.ofStrings input.headers)
  | .metadata => F.toStringPretty input.metadata

/-- The calls of `std::fs::write` in their order, up to the first that fails. -/
def OutputToJsonFile.writeAll (a : Answers) (path : List Char) (input : Event) :
    List Export → Sent
  | [] => { result := .ok (), written := [] }
  | part :: rest =>
      match F.content input part, a.write part with
      | .error text, _ => { result := .error (.report text), written := [] }
      | .ok _, some text => { result := .error (.report text), written := [] }
      | .ok content, none =>
          let sent := OutputToJsonFile.writeAll a path input rest
          { sent with written := (Path.withExtension path part.extension, content) :: sent.written }

/-- The check of an output that has been written; `fetch_add` wraps. -/
def OutputToJsonFile.checked (a : Answers) (input : Event) (s : State) :
    Except SendError Unit × State :=
  if F.checkCdevent then
    match tryFrom F.S a.now input with
    | none => (.error .panicked, s)
    | some (.ok _) => (.ok (), s)
    | some (.error _) =>
        (match a.warning with
          | some text => .error (.report text)
          | none => .ok (),
        { s with checkCdeventFailuresCounter := s.checkCdeventFailuresCounter + 1 })
  else (.ok (), s)

/-- `OutputToJsonFile::send`. The counter wraps, as in a release build. -/
def OutputToJsonFile.send (a : Answers) (input : Event) (s : State) : Sent × State :=
  let input := { input with metadata := removeVolatile input.metadata }
  match (input.metadata.get "path").bind Json.asStr with
  | none =>
      let text := "could not extract 'name' field from metadata"
      ({ result := .error (.report text), written := [] }, s)
  | some baseFilename =>
      let currentIndex := (s.seenPaths.lookup baseFilename).getD 0
      let s := { s with
        seenPaths := Assoc.insert baseFilename (currentIndex + 1) s.seenPaths }
      let path := Path.join F.directory (filename baseFilename.toList currentIndex)
      match a.createDirAll with
      | some text => ({ result := .error (.report text), written := [] }, s)
      | none =>
          let sent := F.writeAll a path input F.exports
          match sent.result with
          | .error _ => (sent, s)
          | .ok () =>
              let (result, s) := F.checked a input s
              ({ sent with result }, s)

/-- The outputs sent one after the other. -/
def OutputToJsonFile.sendAll : List (Answers × Event) → State → List Sent
  | [], _ => []
  | (a, input) :: rest, s =>
      let (sent, s) := F.send a input s
      sent :: OutputToJsonFile.sendAll rest s

end

/-! ### The names of the files -/

/-- The stem a name is made of. -/
def label (stem : List Char) (index : UInt16) : List Char :=
  if index = 0 then stem else stem ++ '.' :: Nat.toDigits 10 index.toNat

theorem not_mem_toDigits {c : Char} (h : c.isDigit = false) (n : ℕ) : c ∉ Nat.toDigits 10 n := by
  intro hmem
  have hdigit := Nat.isDigit_of_mem_toDigits (by decide) (by decide) hmem
  rw [h] at hdigit
  cases hdigit

theorem not_mem_label {stem : List Char} (h : '/' ∉ stem) (index : UInt16) :
    '/' ∉ label stem index := by
  rw [label]
  split
  · exact h
  · intro hmem
    rcases List.mem_append.mp hmem with hmem | hmem
    · exact h hmem
    · rcases List.mem_cons.mp hmem with heq | hmem
      · cases heq
      · exact not_mem_toDigits (by decide) _ hmem

/-- The name of an output before its extension is replaced. -/
def unreplaced (base : List Char) (index : UInt16) : List Char :=
  if index = 0 then Path.fileName base
  else label (Path.fileStem base) index ++ '.' :: "json".toList

theorem filename_eq {base : List Char} (h : Path.Normal base) (index : UInt16) :
    filename base index = (Path.split base).1 ++ unreplaced base index := by
  by_cases hzero : index = 0
  · rw [filename, unreplaced, if_pos hzero, if_pos hzero, (Path.split_spec base).2.2]
  · have hname : Path.fileStem base ++ '.' :: (Nat.toDigits 10 index.toNat ++ ".json".toList) =
        label (Path.fileStem base) index ++ '.' :: "json".toList := by
      rw [label, if_neg hzero, List.append_assoc, List.cons_append]
      rfl
    rw [filename, unreplaced, if_neg hzero, if_neg hzero, hname,
      Path.split_fst_eq_parent h.relative]
    dsimp only
    split
    · rfl
    · rw [List.append_assoc, List.singleton_append]

theorem unreplaced_spec (base : List Char) (index : UInt16) {front : List Char}
    (hfront : Path.Slashed front) :
    '/' ∉ unreplaced base index ∧
      Path.fileStem (front ++ unreplaced base index) = label (Path.fileStem base) index := by
  have hstem := Path.not_mem_fileStem base
  by_cases hzero : index = 0
  · rw [unreplaced, if_pos hzero, label, if_pos hzero]
    exact ⟨(Path.split_spec base).2.1, Path.fileStem_fileName hfront base⟩
  · rw [unreplaced, if_neg hzero]
    have hlabel := not_mem_label hstem index
    refine ⟨?_, Path.fileStem_append hfront hlabel ?_ (by decide)⟩
    · simp [hlabel]
    · rw [label, if_neg hzero]
      simp

/-- A file of an output: its directory, and its label with the extension. -/
theorem target_eq {base : List Char} (h : Path.Normal base) (directory : List Char)
    (index : UInt16) (extension : List Char) :
    Path.withExtension (Path.join directory (filename base index)) extension =
      (Path.slashed directory ++ (Path.split base).1) ++
        (label (Path.fileStem base) index ++ '.' :: extension) := by
  obtain ⟨hfront, -⟩ := Path.split_spec base
  obtain ⟨hname, hstem⟩ := unreplaced_spec base index
    ((Path.slashed_slashed directory).append hfront)
  have hrelative : (filename base index).head? ≠ some '/' := by
    intro hhead
    have hbase := h.relative
    rw [filename_eq h] at hhead
    rw [← (Path.split_spec base).2.2] at hbase
    cases hsplit : (Path.split base).1 with
    | nil =>
        rw [hsplit, List.nil_append] at hhead
        exact hname (List.mem_of_head? hhead)
    | cons c front =>
        rw [hsplit] at hhead hbase
        exact hbase hhead
  rw [Path.join, if_neg hrelative, filename_eq h, ← List.append_assoc, Path.withExtension,
    Path.split_append ((Path.slashed_slashed directory).append hfront) hname, hstem]

/-! ### When two names are one -/

theorem label_zero (stem : List Char) : label stem 0 = stem := if_pos rfl

/-- A number with a dot before it is read back. -/
theorem append_toDigits_inj {stem stem' : List Char} {n m : ℕ}
    (h : stem ++ '.' :: Nat.toDigits 10 n = stem' ++ '.' :: Nat.toDigits 10 m) :
    stem = stem' ∧ n = m := by
  have hdot : ∀ k, '.' ∉ Nat.toDigits 10 k := not_mem_toDigits (by decide)
  have hsplit := congrArg (Text.rsplitOnce '.') h
  rw [Text.rsplitOnce_append (hdot n), Text.rsplitOnce_append (hdot m), Option.some.injEq,
    Prod.mk.injEq] at hsplit
  refine ⟨hsplit.1, ?_⟩
  have hparsed := congrArg Text.parseDigits hsplit.2
  rw [Text.parseDigits_toDigits, Text.parseDigits_toDigits] at hparsed
  exact Option.some.inj hparsed

/-- Two labels are one if stem and index are, or if a stem looks like the other label. -/
theorem label_eq_iff {stem stem' : List Char} {index index' : UInt16} :
    label stem index = label stem' index' ↔
      (index = index' ∧ stem = stem') ∨ (index = 0 ∧ stem = label stem' index') ∨
        (index' = 0 ∧ stem' = label stem index) := by
  constructor
  · intro h
    by_cases hzero : index = 0
    · rw [hzero, label_zero] at h
      exact .inr (.inl ⟨hzero, h⟩)
    · by_cases hzero' : index' = 0
      · rw [hzero', label_zero] at h
        exact .inr (.inr ⟨hzero', h.symm⟩)
      · rw [label, label, if_neg hzero, if_neg hzero'] at h
        obtain ⟨hstem, hindex⟩ := append_toDigits_inj h
        exact .inl ⟨UInt16.toNat_inj.mp hindex, hstem⟩
  · rintro (⟨rfl, rfl⟩ | ⟨rfl, rfl⟩ | ⟨rfl, rfl⟩)
    · rfl
    · exact label_zero _
    · exact (label_zero _).symm

/-- What an export puts between the label and `.json.new`. -/
def Export.mark : Export → List Char
  | .body => []
  | .headers => ".headers".toList
  | .metadata => ".metadata".toList

theorem extension_eq (part : Export) (stem : List Char) :
    stem ++ '.' :: part.extension = stem ++ part.mark ++ ".json.new".toList := by
  have hmark : '.' :: part.extension = part.mark ++ ".json.new".toList := by
    cases part <;> rfl
  rw [hmark, List.append_assoc]

/-- A label that ends in a word has no index, so its stem does. -/
theorem label_eq_append_iff {stem other word : List Char} {index : UInt16}
    (hdot : '.' ∉ word) (hword : ∃ c ∈ word, c.isDigit = false) :
    label stem index = other ++ '.' :: word ↔ index = 0 ∧ stem = other ++ '.' :: word := by
  constructor
  · intro h
    by_cases hzero : index = 0
    · rw [hzero, label_zero] at h
      exact ⟨hzero, h⟩
    · rw [label, if_neg hzero] at h
      have hdigits : '.' ∉ Nat.toDigits 10 index.toNat := not_mem_toDigits (by decide) _
      have hsplit := congrArg (Text.rsplitOnce '.') h
      rw [Text.rsplitOnce_append hdigits, Text.rsplitOnce_append hdot, Option.some.injEq,
        Prod.mk.injEq] at hsplit
      obtain ⟨c, hc, hnot⟩ := hword
      rw [← hsplit.2] at hc
      exact absurd hc (not_mem_toDigits hnot _)
  · rintro ⟨rfl, rfl⟩
    exact label_zero _

/-! ### Outputs that clash -/

/-- An output: the path of its input, and the number of outputs of this path before it. -/
structure Output where
  path : String
  earlier : ℕ

/-- The index an output gets, which is a `u16`. -/
def Output.index (o : Output) : UInt16 := UInt16.ofNat o.earlier

def Output.stem (o : Output) : List Char := Path.fileStem o.path.toList

/-- The first output of its path has the stem that the other is written under, with `mark` behind
it. -/
def LooksLike (mark : List Char) (o o' : Output) : Prop :=
  o.index = 0 ∧ o.stem = label o'.stem o'.index ++ mark

section

variable (F : OutputToJsonFile CDEvent)

/-- Two outputs of one directory clash if they have the same stem and index, or if the path of one
looks like a file of the other. -/
def Clash (o o' : Output) : Prop :=
  Path.parent o.path.toList = Path.parent o'.path.toList ∧
    ((o.index = o'.index ∧ o.stem = o'.stem) ∨
      ∃ part ∈ F.exports, LooksLike part.mark o o' ∨ LooksLike part.mark o' o)

/-- The files of an output. -/
def targets (o : Output) : List (List Char) :=
  F.exports.map fun part =>
    Path.withExtension (Path.join F.directory (filename o.path.toList o.index)) part.extension

end

variable {F : OutputToJsonFile CDEvent}

theorem body_mem_exports : Export.body ∈ F.exports := List.mem_cons_self

/-- The mark of a file that is not the body is a dot and a word. -/
theorem exists_word {part : Export} (h : part ≠ .body) :
    ∃ word, part.mark = '.' :: word ∧ '.' ∉ word ∧ ∃ c ∈ word, c.isDigit = false := by
  cases part with
  | body => exact absurd rfl h
  | headers => exact ⟨"headers".toList, rfl, by decide, 'h', by decide, by decide⟩
  | metadata => exact ⟨"metadata".toList, rfl, by decide, 'm', by decide, by decide⟩

theorem mark_injective {part part' : Export} (h : part.mark = part'.mark) : part = part' := by
  have hlen := congrArg List.length h
  cases part <;> cases part' <;> first | rfl | exact absurd hlen (by decide)

/-- Why two files have one name: files of different kinds do only if one is a body. -/
theorem looksLike_of_eq {o o' : Output} {part part' : Export}
    (h : label o.stem o.index ++ part.mark = label o'.stem o'.index ++ part'.mark) :
    (o.index = o'.index ∧ o.stem = o'.stem) ∨
      ∃ q, (q = .body ∨ q = part ∨ q = part') ∧
        (LooksLike q.mark o o' ∨ LooksLike q.mark o' o) := by
  by_cases hsame : part = part'
  · subst hsame
    rcases label_eq_iff.mp (List.append_cancel_right h) with hboth | ⟨hzero, hstem⟩ | ⟨hzero, hstem⟩
    · exact .inl hboth
    · exact .inr ⟨.body, .inl rfl, .inl ⟨hzero, hstem.trans (List.append_nil _).symm⟩⟩
    · exact .inr ⟨.body, .inl rfl, .inr ⟨hzero, hstem.trans (List.append_nil _).symm⟩⟩
  right
  by_cases hbody : part = .body
  · subst hbody
    obtain ⟨word, hmark, hdot, hword⟩ := exists_word (Ne.symm hsame)
    refine ⟨part', .inr (.inr rfl), .inl ?_⟩
    have h : label o.stem o.index = label o'.stem o'.index ++ part'.mark :=
      (List.append_nil _).symm.trans h
    rw [hmark] at h
    rw [LooksLike, hmark]
    exact (label_eq_append_iff hdot hword).mp h
  · obtain ⟨word, hmark, hdot, hword⟩ := exists_word hbody
    by_cases hbody' : part' = .body
    · subst hbody'
      refine ⟨part, .inr (.inl rfl), .inr ?_⟩
      have h : label o.stem o.index ++ part.mark = label o'.stem o'.index :=
        h.trans (List.append_nil _)
      rw [hmark] at h
      rw [LooksLike, hmark]
      exact (label_eq_append_iff hdot hword).mp h.symm
    · obtain ⟨word', hmark', hdot', -⟩ := exists_word hbody'
      rw [hmark, hmark'] at h
      have hsplit := congrArg (Text.rsplitOnce '.') h
      rw [Text.rsplitOnce_append hdot, Text.rsplitOnce_append hdot', Option.some.injEq,
        Prod.mk.injEq] at hsplit
      exact absurd (mark_injective (by rw [hmark, hmark', hsplit.2])) hsame

/-- Two files are one if they are in one directory and the labels with the marks are one. -/
theorem target_eq_iff {o o' : Output} (ho : Path.Normal o.path.toList)
    (ho' : Path.Normal o'.path.toList) (part part' : Export) :
    Path.withExtension (Path.join F.directory (filename o.path.toList o.index)) part.extension =
        Path.withExtension (Path.join F.directory (filename o'.path.toList o'.index))
          part'.extension ↔
      Path.parent o.path.toList = Path.parent o'.path.toList ∧
        label o.stem o.index ++ part.mark = label o'.stem o'.index ++ part'.mark := by
  have hfront := fun o : Output => (Path.slashed_slashed F.directory).append
    (Path.split_spec o.path.toList).1
  have hname : ∀ (o : Output) (part : Export),
      '/' ∉ label (Path.fileStem o.path.toList) o.index ++ '.' :: part.extension := by
    intro o part
    have hlabel := not_mem_label (Path.not_mem_fileStem o.path.toList) o.index
    have hextension : '/' ∉ '.' :: part.extension := by cases part <;> decide
    exact fun hmem => (List.mem_append.mp hmem).elim hlabel hextension
  rw [target_eq ho, target_eq ho', Path.append_inj (hfront o) (hfront o') (hname o part)
    (hname o' part'), List.append_cancel_left_eq, Path.split_fst_inj ho.relative ho'.relative]
  refine and_congr_right fun _ => ?_
  rw [extension_eq, extension_eq, List.append_cancel_right_eq]
  rfl

theorem disjoint_targets_iff {o o' : Output} (ho : Path.Normal o.path.toList)
    (ho' : Path.Normal o'.path.toList) :
    (targets F o).Disjoint (targets F o') ↔ ¬Clash F o o' := by
  rw [List.disjoint_left]
  constructor
  · rintro hdisjoint ⟨hparent, hclash⟩
    -- a pair of labels that are one gives a file of both
    have hshared : ∀ part ∈ F.exports, ∀ part' ∈ F.exports,
        label o.stem o.index ++ part.mark ≠ label o'.stem o'.index ++ part'.mark := by
      intro part hpart part' hpart' heq
      refine hdisjoint (List.mem_map_of_mem hpart) ?_
      rw [(target_eq_iff ho ho' part part').mpr ⟨hparent, heq⟩]
      exact List.mem_map_of_mem hpart'
    rcases hclash with ⟨hindex, hstem⟩ | ⟨part, hpart, ⟨hzero, hstem⟩ | ⟨hzero, hstem⟩⟩
    · exact hshared .body body_mem_exports .body body_mem_exports (by rw [hindex, hstem])
    · refine hshared .body body_mem_exports part hpart ?_
      rw [hzero, label_zero, hstem]
      exact List.append_nil _
    · refine hshared part hpart .body body_mem_exports ?_
      rw [hzero, label_zero, hstem]
      exact (List.append_nil _).symm
  · intro hclash x hx hx'
    obtain ⟨part, hpart, rfl⟩ := List.mem_map.mp hx
    obtain ⟨part', hpart', heq⟩ := List.mem_map.mp hx'
    obtain ⟨hparent, hlabel⟩ := (target_eq_iff ho ho' part part').mp heq.symm
    refine hclash ⟨hparent, ?_⟩
    rcases looksLike_of_eq hlabel with hboth | ⟨q, hq, hlooks⟩
    · exact .inl hboth
    · rcases hq with rfl | rfl | rfl
      · exact .inr ⟨_, body_mem_exports, hlooks⟩
      · exact .inr ⟨_, hpart, hlooks⟩
      · exact .inr ⟨_, hpart', hlooks⟩

theorem nodup_targets {o : Output} (ho : Path.Normal o.path.toList) : (targets F o).Nodup := by
  refine List.Nodup.map_on ?_ ?_
  · intro part _ part' _ heq
    have hlabel := ((target_eq_iff ho ho part part').mp heq).2
    exact mark_injective (List.append_cancel_left hlabel)
  · unfold OutputToJsonFile.exports
    split <;> split <;> decide

/-! ### A sequence of outputs -/

/-- `input.metadata["path"].as_str()`. -/
def pathOf (input : Event) : Option String := (input.metadata.get "path").bind Json.asStr

/-- The outputs that have a path, when those in `before` have been sent. -/
def outputsFrom (before : List String) : List Event → List (Option Output)
  | [] => []
  | input :: rest =>
      match pathOf input with
      | none => none :: outputsFrom before rest
      | some path => some ⟨path, before.count path⟩ :: outputsFrom (path :: before) rest

def Sent.ok (sent : Sent) : Bool := sent.result.isOk

/-- The outputs that were sent successfully. -/
def succeeded (outputs : List (Option Output)) (sents : List Sent) : List Output :=
  (outputs.zip sents).filterMap fun pair => if pair.2.ok then pair.1 else none

/-- The files that the successful sends have written, in their order. -/
def writtenFiles (sents : List Sent) : List (List Char) :=
  (sents.filter Sent.ok).flatMap fun sent => sent.written.map Prod.fst

/-- Each successful send has written its files, and none of them is one of another send. -/
structure OneFileEach (F : OutputToJsonFile CDEvent) (sents : List Sent) : Prop where
  each : ∀ sent ∈ sents, sent.ok → sent.written.length = F.exports.length
  distinct : (writtenFiles sents).Nodup

/-- The counters are those of the outputs sent before. -/
def Counts (before : List String) (s : State) : Prop :=
  ∀ path, (s.seenPaths.lookup path).getD 0 = UInt16.ofNat (before.count path)

theorem pathOf_removeVolatile (input : Event) :
    ((removeVolatile input.metadata).get "path").bind Json.asStr = pathOf input := by
  rw [pathOf]
  cases input.metadata with
  | obj fields =>
      rw [removeVolatile, Json.get, Json.get, Assoc.lookup_remove_of_ne (by decide),
        Assoc.lookup_remove_of_ne (by decide)]
  | _ => rfl

theorem Counts.insert {before : List String} {s t : State} (hs : Counts before s) {path : String}
    (ht : t.seenPaths =
      Assoc.insert path ((s.seenPaths.lookup path).getD 0 + 1) s.seenPaths) :
    Counts (path :: before) t := by
  intro other
  rw [ht]
  by_cases hsame : other = path
  · subst hsame
    rw [Assoc.lookup_insert_self, Option.getD_some, hs, List.count_cons_self,
      UInt16.ofNat_add]
    rfl
  · rw [Assoc.lookup_insert_of_ne hsame, hs, List.count_cons_of_ne (Ne.symm hsame)]

theorem writeAll_written (a : Answers) (path : List Char) (input : Event) (parts : List Export)
    (h : (F.writeAll a path input parts).ok) :
    (F.writeAll a path input parts).written.map Prod.fst =
      parts.map fun part => Path.withExtension path part.extension := by
  induction parts with
  | nil => rfl
  | cons part rest ih =>
      rw [OutputToJsonFile.writeAll] at h ⊢
      split at h
      · cases h
      · cases h
      · exact congrArg (_ :: ·) (ih h)

theorem checked_seenPaths (a : Answers) (input : Event) (s : State) :
    (F.checked a input s).2.seenPaths = s.seenPaths := by
  rw [OutputToJsonFile.checked]
  split
  · split <;> rfl
  · rfl

theorem send_none {a : Answers} {input : Event} (h : pathOf input = none) (s : State) :
    (F.send a input s).1.ok = false ∧ (F.send a input s).2 = s := by
  simp only [OutputToJsonFile.send, pathOf_removeVolatile, h]
  exact ⟨rfl, trivial⟩

/-- A `send` counts its path and, if it succeeds, writes the files of the output. -/
theorem send_some {a : Answers} {input : Event} {path : String} (h : pathOf input = some path)
    {before : List String} {s : State} (hs : Counts before s) :
    Counts (path :: before) (F.send a input s).2 ∧
      ((F.send a input s).1.ok →
        (F.send a input s).1.written.map Prod.fst = targets F ⟨path, before.count path⟩) := by
  simp only [OutputToJsonFile.send, pathOf_removeVolatile, h]
  cases hdir : a.createDirAll with
  | some text => exact ⟨hs.insert rfl, nofun⟩
  | none =>
      have hfiles := writeAll_written (F := F) a
        (Path.join F.directory (filename path.toList ((s.seenPaths.lookup path).getD 0)))
        { input with metadata := removeVolatile input.metadata } F.exports
      rw [hs path] at hfiles ⊢
      dsimp only
      split
      · exact ⟨hs.insert (by rw [hs path]), hfiles⟩
      · rename_i hresult
        refine ⟨hs.insert (by rw [checked_seenPaths, hs path]), fun _ => hfiles ?_⟩
        rw [Sent.ok, hresult]
        rfl

theorem writtenFiles_cons (sent : Sent) (sents : List Sent) :
    writtenFiles (sent :: sents) =
      (if sent.ok then sent.written.map Prod.fst else []) ++ writtenFiles sents := by
  rw [writtenFiles, List.filter_cons]
  split <;> rfl

theorem succeeded_cons (o : Option Output) (os : List (Option Output)) (sent : Sent)
    (sents : List Sent) :
    succeeded (o :: os) (sent :: sents) =
      (if sent.ok then o.toList else []) ++ succeeded os sents := by
  rw [succeeded, List.zip_cons_cons, List.filterMap_cons]
  cases sent.ok with
  | false => rfl
  | true => cases o <;> rfl

theorem counts_new : Counts [] State.new := fun _ => rfl

/-- What the successful sends of a sequence write are the files of their outputs. -/
theorem sendAll_written {before : List String} (inputs : List (Answers × Event)) {s : State}
    (hs : Counts before s) :
    (∀ sent ∈ F.sendAll inputs s, sent.ok → sent.written.length = F.exports.length) ∧
    writtenFiles (F.sendAll inputs s) =
      (succeeded (outputsFrom before (inputs.map Prod.snd)) (F.sendAll inputs s)).flatMap
        (targets F) := by
  induction inputs generalizing before s with
  | nil => exact ⟨nofun, rfl⟩
  | cons head rest ih =>
      obtain ⟨a, input⟩ := head
      rw [OutputToJsonFile.sendAll, List.map_cons, outputsFrom]
      cases hpath : pathOf input with
      | none =>
          obtain ⟨hok, hstate⟩ := send_none (F := F) (a := a) hpath s
          obtain ⟨hlength, hfiles⟩ := ih hs
          dsimp only
          rw [hstate, writtenFiles_cons, succeeded_cons, hok, hfiles]
          exact ⟨List.forall_mem_cons.mpr ⟨fun h => absurd (hok.symm.trans h) nofun, hlength⟩, rfl⟩
      | some path =>
          obtain ⟨hcounts, hwritten⟩ := send_some (F := F) (a := a) hpath hs
          obtain ⟨hlength, hfiles⟩ := ih hcounts
          dsimp only
          rw [writtenFiles_cons, succeeded_cons, List.flatMap_append, hfiles]
          refine ⟨List.forall_mem_cons.mpr ⟨fun h => ?_, hlength⟩, ?_⟩
          · rw [← List.length_map, hwritten h, targets, List.length_map]
          · cases hok : (F.send a input s).1.ok with
            | false => rfl
            | true =>
                rw [if_pos rfl, if_pos rfl, hwritten hok]
                simp

theorem nodup_flatMap_targets {os : List Output} (h : ∀ o ∈ os, Path.Normal o.path.toList) :
    (os.flatMap (targets F)).Nodup ↔ os.Pairwise fun o o' => ¬Clash F o o' := by
  rw [List.nodup_flatMap, and_iff_right fun o ho => nodup_targets (h o ho)]
  exact List.Pairwise.iff_of_mem fun ho ho' => disjoint_targets_iff (h _ ho) (h _ ho')

theorem mem_of_mem_succeeded {os : List (Option Output)} {sents : List Sent} {o : Output}
    (h : o ∈ succeeded os sents) : some o ∈ os := by
  obtain ⟨⟨o', sent⟩, hpair, heq⟩ := List.mem_filterMap.mp h
  split at heq
  · exact heq ▸ (List.of_mem_zip hpair).1
  · cases heq

theorem pathOf_of_mem_outputsFrom {before : List String} {inputs : List Event} {o : Output}
    (h : some o ∈ outputsFrom before inputs) : ∃ input ∈ inputs, pathOf input = some o.path := by
  induction inputs generalizing before with
  | nil => cases h
  | cons input rest ih =>
      rw [outputsFrom] at h
      cases hpath : pathOf input with
      | none =>
          rw [hpath] at h
          obtain ⟨input', hmem, hpath'⟩ := ih ((List.mem_cons.mp h).resolve_left nofun)
          exact ⟨input', List.mem_cons_of_mem _ hmem, hpath'⟩
      | some path =>
          rw [hpath] at h
          rcases List.mem_cons.mp h with heq | hrest
          · obtain rfl := Option.some.inj heq
            exact ⟨input, List.mem_cons_self, hpath⟩
          · obtain ⟨input', hmem, hpath'⟩ := ih hrest
            exact ⟨input', List.mem_cons_of_mem _ hmem, hpath'⟩

/-- The outputs of a sequence that were sent successfully. -/
def sentOutputs (F : OutputToJsonFile CDEvent) (inputs : List (Answers × Event)) : List Output :=
  succeeded (outputsFrom [] (inputs.map Prod.snd)) (F.sendAll inputs .new)

/-- Every successful send of a sequence writes files of its own if and only if no two of their
outputs clash. -/
theorem one_file_each_iff (F : OutputToJsonFile CDEvent) (inputs : List (Answers × Event))
    (hpaths : ∀ input ∈ inputs.map Prod.snd, ∀ path, pathOf input = some path →
      Path.Normal path.toList) :
    OneFileEach F (F.sendAll inputs .new) ↔
      (sentOutputs F inputs).Pairwise fun o o' => ¬Clash F o o' := by
  obtain ⟨hlength, hfiles⟩ := sendAll_written (F := F) inputs counts_new
  have hnormal : ∀ o ∈ sentOutputs F inputs, Path.Normal o.path.toList := by
    intro o ho
    obtain ⟨input, hmem, hpath⟩ := pathOf_of_mem_outputsFrom (mem_of_mem_succeeded ho)
    exact hpaths input hmem o.path hpath
  rw [← nodup_flatMap_targets hnormal]
  constructor
  · intro h
    exact hfiles ▸ h.distinct
  · intro h
    exact ⟨hlength, hfiles.symm ▸ h⟩

/-- The headers are exported too. -/
def sampleSink : OutputToJsonFile String where
  S := .ids
  toStringPretty _ := .ok "{}"
  directory := "out".toList
  checkCdevent := false
  exportHeaders := true
  exportMetadata := false

/-- An output without content, whose `send` succeeds. -/
def sampleInput (path : String) : Answers × Event :=
  ({ createDirAll := none, write := fun _ => none, warning := none, now := "" },
    { metadata := .obj [("path", .str path)], headers := [], body := .obj [] })

instance (mark : List Char) (o o' : Output) : Decidable (LooksLike mark o o') :=
  inferInstanceAs (Decidable (_ ∧ _))

instance (F : OutputToJsonFile CDEvent) (o o' : Output) : Decidable (Clash F o o') :=
  inferInstanceAs (Decidable (_ ∧ _))

-- a path that already looks indexed, one that looks like headers, and the limit of the counter
example : Clash sampleSink ⟨"a.json", 1⟩ ⟨"a.1.xml", 0⟩ ∧
    Clash sampleSink ⟨"a.json", 0⟩ ⟨"a.headers.csv", 0⟩ ∧
    Clash sampleSink ⟨"a.json", 65536⟩ ⟨"a.json", 0⟩ := by decide

/-- Three outputs of one path. -/
theorem one_file_each_repeated :
    OneFileEach sampleSink (sampleSink.sendAll
      (["events/001.json", "events/001.json", "events/001.json"].map sampleInput) .new) :=
  (one_file_each_iff sampleSink _ (by decide)).mpr (by decide)

/-- Two inputs of one directory that differ in their extension. -/
theorem same_stem_overwrites :
    ¬OneFileEach sampleSink (sampleSink.sendAll
      (["events/a.json", "events/a.xml"].map sampleInput) .new) :=
  fun h => absurd h.distinct (by decide)

end CdvizCollector.Tools.Transform
