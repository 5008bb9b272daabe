import CdvizCollector.Lib.Result
import CdvizCollector.Tools.Difference
import CdvizCollector.Tools.Transform

/-!
What the `transform` command returns (`tools/transform.rs`).

The outputs are written and checked one after the other, then the written files are compared
with the expected ones in the way of the mode. The checks that fail are only counted, in an
atomic `u16`, and the command looks at the counter once, at its end.
-/

namespace CdvizCollector.Tools

open Lib

/-- An operation that may fail with a text. -/
def answered : Option String → Except String Unit
  | some text => .error text
  | none => .ok ()

theorem answered_eq_ok_iff {failure : Option String} {u : Unit} :
    answered failure = .ok u ↔ failure = none := by
  cases failure with
  | some text => exact iff_of_false (by rintro ⟨⟩) (by rintro ⟨⟩)
  | none => exact iff_of_true rfl rfl

namespace Outputs

/-! ### Modes -/

/-- What a mode meets: the files as they are when it starts, and how its operations on the terminal
and on the files end. -/
structure Steps where
  S : SerdeJson
  fs : FileSystem
  success : Option String
  warning : Option String
  warned : Comparison → Option String
  /-- `ui::show_difference_text`. -/
  note : Comparison → Option String
  /-- `ui::ask_to_update_sample`. -/
  confirm : Comparison → Except String Bool
  rename : List Char → List Char → Option String
  removeFile : List Char → Option String
  /-- `fs::exists`. -/
  present : List Char → Except String Bool

section

variable (w : Steps)

def Difference.show (comparison : Comparison) : Difference → Except String Unit
  | .presence _ _ => answered (w.warned comparison)
  | .stringContent _ _ => do
      answered (w.warned comparison)
      answered (w.note comparison)

/-- The output takes the place of what is expected, or is removed. -/
def acceptOutput (comparison : Comparison) : Except String Bool := do
  if ← w.confirm comparison then
    answered (w.rename comparison.actual comparison.expected)
    return true
  else
    answered (w.removeFile comparison.actual)
    return false

def Difference.review (comparison : Comparison) : Difference → Except String Bool
  | .presence expected actual => do
      if expected && !actual then
        if ← w.confirm comparison then
          answered (w.removeFile comparison.expected)
          return true
        else return false
      else acceptOutput w comparison
  | .stringContent _ _ => do
      answered (w.note comparison)
      acceptOutput w comparison

def check (outputFiles : List (List Char)) : Except String Bool := do
  let differences ← findDifferences w.S w.fs outputFiles
  if differences.isEmpty then
    answered w.success
    return true
  else
    answered w.warning
    differences.forM fun found => found.2.show w found.1
    return false

def review (outputFiles : List (List Char)) : Except String Bool := do
  let differences ← findDifferences w.S w.fs outputFiles
  if differences.isEmpty then
    answered w.success
    return true
  else
    answered w.warning
    differences.foldlM (fun noDifferences found => do
      return (← found.2.review w found.1) && noDifferences) true

def overwriteFile (path : List Char) : Except String Unit := do
  let filename ← extractFilename path
  if jsonNew.isSuffixOf filename then
    let outFilename := (String.ofList filename).replace ".json.new" ".json"
    answered (w.rename path (withFileName path outFilename.toList))

def overwrite (outputFiles : List (List Char)) : Except String Bool := do
  outputFiles.forM (overwriteFile w)
  answered w.success
  return true

def removeNewFile (path : List Char) : Except String Unit := do
  let filename ← extractFilename path
  if jsonNew.isSuffixOf filename then
    if ← w.present path then answered (w.removeFile path)

def removeNewFiles (outputFiles : List (List Char)) : Except String Unit :=
  outputFiles.forM (removeNewFile w)

end

end Outputs

namespace Transform

open Sources Outputs

variable {CDEvent : Type}

/-! ### Counting -/

section

variable (F : OutputToJsonFile CDEvent)

def Sent.panicked (sent : Sent) : Bool :=
  match sent.result with
  | .error .panicked => true
  | _ => false

/-- The sends of a run, one after the other; `none` is a panic. -/
def OutputToJsonFile.run : List (Answers × Event) → State → Option State
  | [], s => some s
  | (a, input) :: rest, s =>
      let (sent, s) := F.send a input s
      if sent.panicked then none else OutputToJsonFile.run rest s

/-- What is converted: the event without the fields that can change between runs. -/
def stable (input : Event) : Event := { input with metadata := removeVolatile input.metadata }

/-- The output has a path and its files are written. -/
def OutputToJsonFile.isWritten (a : Answers) (input : Event) : Bool :=
  (pathOf input).isSome && a.createDirAll.isNone &&
    F.exports.all fun part => (F.content (stable input) part).isOk && (a.write part).isNone

/-- What is written is converted, and `CDEvent::try_from` rejects it. -/
def OutputToJsonFile.rejects (x : Answers × Event) : Bool :=
  F.isWritten x.1 x.2 && (tryFrom F.S x.1.now (stable x.2)).any fun converted => !converted.isOk

end

/-! ### The command -/

/-- `TransformMode` -/
inductive TransformMode where
  | review
  | overwrite
  | check
deriving DecidableEq

def TransformMode.compare (mode : TransformMode) (w : Steps) (outputFiles : List (List Char)) :
    Except String Bool :=
  match mode with
  | .review => Outputs.review w outputFiles
  | .overwrite => Outputs.overwrite w outputFiles
  | .check => Outputs.check w outputFiles

structure TransformArgs where
  mode : TransformMode
  keepNewFiles : Bool

/-- What a run of the command meets: how the other steps end, and what reaches the sink. -/
structure World where
  config : Option String
  intro : Option String
  outputExists : Bool
  createDirAll : Option String
  resolveTransformerRefs : Option String
  makeTransformers : Option String
  extractor : Option String
  outputs : List (Answers × Event)
  /-- A listing of the inputs that fails; a failed `send` is only logged. -/
  runOnce : Option String
  info : Option String
  listOutputFiles : Except String (List (List Char))
  steps : Steps
  warning : Option String
  outro : Option String

/-- The steps before the first output. -/
def World.prepare (w : World) : Except String Unit := do
  answered w.config
  answered w.intro
  if !w.outputExists then answered w.createDirAll
  answered w.resolveTransformerRefs
  answered w.makeTransformers
  answered w.extractor

/-- The counter is looked at. -/
def conclude (w : World) (res : Except String Bool) (checkCdeventFailuresCount : UInt16) :
    Except String Bool := do
  if checkCdeventFailuresCount > 0 then answered w.warning
  answered w.outro
  res.map fun ok => ok && checkCdeventFailuresCount == 0

/-- The steps behind the last output. -/
def finish (args : TransformArgs) (w : World) (checkCdeventFailuresCount : UInt16) :
    Except String Bool := do
  answered w.runOnce
  answered w.info
  let outputFiles ← w.listOutputFiles
  let res := args.mode.compare w.steps outputFiles
  if !args.keepNewFiles then removeNewFiles w.steps outputFiles
  conclude w res checkCdeventFailuresCount

/-- `transform`; `none` is a panic. -/
def transform (F : OutputToJsonFile CDEvent) (args : TransformArgs) (w : World) :
    Option (Except String Bool) :=
  match w.prepare with
  | .error text => some (.error text)
  | .ok () => (F.run w.outputs .new).map fun s => finish args w s.checkCdeventFailuresCounter

/-! ### What is counted -/

section

variable {F : OutputToJsonFile CDEvent}

theorem writeAll_result (a : Answers) (path : List Char) (input : Event) (parts : List Export) :
    ((F.writeAll a path input parts).result = .ok () ∧
      (parts.all fun part => (F.content input part).isOk && (a.write part).isNone) = true) ∨
    ((∃ text, (F.writeAll a path input parts).result = .error (.report text)) ∧
      (parts.all fun part => (F.content input part).isOk && (a.write part).isNone) = false) := by
  induction parts with
  | nil => exact Or.inl ⟨rfl, rfl⟩
  | cons part rest ih =>
      rw [OutputToJsonFile.writeAll, List.all_cons]
      cases hcontent : F.content input part with
      | error text => exact Or.inr ⟨⟨text, rfl⟩, rfl⟩
      | ok content =>
          cases hwrite : a.write part with
          | some text => exact Or.inr ⟨⟨text, rfl⟩, rfl⟩
          | none => exact ih

/-- A `send` fails before the conversion, or its result is that of the check. -/
theorem send_cases (a : Answers) (input : Event) (s : State) :
    (F.isWritten a input = false ∧ (F.send a input s).1.panicked = false ∧
      (F.send a input s).2.checkCdeventFailuresCounter = s.checkCdeventFailuresCounter) ∨
    (F.isWritten a input = true ∧
      ∃ t : State, t.checkCdeventFailuresCounter = s.checkCdeventFailuresCounter ∧
        (F.send a input s).1.result = (F.checked a (stable input) t).1 ∧
        (F.send a input s).2 = (F.checked a (stable input) t).2) := by
  simp only [OutputToJsonFile.send, pathOf_removeVolatile, OutputToJsonFile.isWritten]
  cases hpath : pathOf input with
  | none => exact Or.inl ⟨rfl, rfl, rfl⟩
  | some path =>
      cases hdir : a.createDirAll with
      | some text => exact Or.inl ⟨rfl, rfl, rfl⟩
      | none =>
          have hwritten := writeAll_result (F := F) a
            (Path.join F.directory (filename path.toList ((s.seenPaths.lookup path).getD 0)))
            (stable input) F.exports
          rw [stable] at hwritten ⊢
          dsimp only
          rcases hwritten with ⟨hresult, hall⟩ | ⟨⟨text, hresult⟩, hall⟩
          · rw [hresult, hall]
            let counted : State := { s with
              seenPaths := Assoc.insert path ((s.seenPaths.lookup path).getD 0 + 1) s.seenPaths }
            exact Or.inr ⟨rfl, counted, rfl, rfl, rfl⟩
          · rw [hresult, hall]
            refine Or.inl ⟨rfl, ?_, rfl⟩
            rw [Sent.panicked, hresult]

theorem rejects_of_not_written {x : Answers × Event} (h : F.isWritten x.1 x.2 = false) :
    F.rejects x = false := by
  rw [OutputToJsonFile.rejects, h, Bool.false_and]

/-- A `send` adds one to the counter for a rejected output, whatever comes of the warning. -/
theorem send_counter (hcheck : F.checkCdevent = true) {x : Answers × Event} {s : State}
    (h : (F.send x.1 x.2 s).1.panicked = false) :
    (F.send x.1 x.2 s).2.checkCdeventFailuresCounter =
      s.checkCdeventFailuresCounter + if F.rejects x then 1 else 0 := by
  rcases send_cases (F := F) x.1 x.2 s with ⟨hnot, -, hcounter⟩ | ⟨hwritten, t, ht, hresult, hstate⟩
  · rw [hcounter, rejects_of_not_written hnot]
    exact (UInt16.add_zero _).symm
  · rw [Sent.panicked, hresult, OutputToJsonFile.checked, if_pos hcheck] at h
    rw [hstate, ← ht, OutputToJsonFile.checked, if_pos hcheck, OutputToJsonFile.rejects, hwritten,
      Bool.true_and]
    cases hconverted : tryFrom F.S x.1.now (stable x.2) with
    | none =>
        rw [hconverted] at h
        cases h
    | some converted =>
        cases converted with
        | ok cdevent => exact (UInt16.add_zero _).symm
        | error e => rfl

/-- An output that is rejected does not panic. -/
theorem not_panicked_of_rejects {x : Answers × Event} (h : F.rejects x = true) (s : State) :
    (F.send x.1 x.2 s).1.panicked = false := by
  rcases send_cases (F := F) x.1 x.2 s with ⟨-, hpanicked, -⟩ | ⟨hwritten, t, -, hresult, -⟩
  · exact hpanicked
  · rw [OutputToJsonFile.rejects, hwritten, Bool.true_and] at h
    rw [Sent.panicked, hresult, OutputToJsonFile.checked]
    cases hconverted : tryFrom F.S x.1.now (stable x.2) with
    | none =>
        rw [hconverted] at h
        cases h
    | some converted =>
        cases F.checkCdevent with
        | false => rfl
        | true =>
            cases converted with
            | ok cdevent => rfl
            | error e => cases x.1.warning <;> rfl

/-- A run counts the rejected outputs, as far as the counter goes. -/
theorem run_counter (hcheck : F.checkCdevent = true) {inputs : List (Answers × Event)}
    {s t : State} (h : F.run inputs s = some t) :
    t.checkCdeventFailuresCounter =
      s.checkCdeventFailuresCounter + UInt16.ofNat (inputs.countP F.rejects) := by
  induction inputs generalizing s with
  | nil =>
      cases h
      exact (UInt16.add_zero _).symm
  | cons x inputs ih =>
      rw [OutputToJsonFile.run] at h
      dsimp only at h
      split at h
      · cases h
      · rename_i hpanicked
        rw [ih h, send_counter hcheck (Bool.eq_false_iff.mpr hpanicked), List.countP_cons,
          Nat.add_comm, UInt16.ofNat_add, UInt16.add_assoc]
        split <;> rfl

theorem exists_run {inputs : List (Answers × Event)} (h : ∀ x ∈ inputs, F.rejects x = true)
    (s : State) : ∃ t, F.run inputs s = some t := by
  induction inputs generalizing s with
  | nil => exact ⟨s, rfl⟩
  | cons x inputs ih =>
      rw [List.forall_mem_cons] at h
      obtain ⟨t, ht⟩ := ih h.2 (F.send x.1 x.2 s).2
      refine ⟨t, ?_⟩
      rw [OutputToJsonFile.run]
      dsimp only
      rw [not_panicked_of_rejects h.1 s]
      exact ht

end

/-! ### The verdict -/

theorem conclude_eq_true_iff {w : World} {res : Except String Bool} {count : UInt16} :
    conclude w res count = .ok true ↔ count = 0 ∧ w.outro = none ∧ res = .ok true := by
  have hmap : (res.map fun ok => ok && count == 0) = .ok true ↔ count = 0 ∧ res = .ok true := by
    cases res with
    | error text => simp [Except.map]
    | ok ok => simp [Except.map, and_comm]
  have hend : (do answered w.outro; res.map fun ok => ok && count == 0) = .ok true ↔
      count = 0 ∧ w.outro = none ∧ res = .ok true := by
    simp only [bind_eq_ok_iff, answered_eq_ok_iff, hmap]
    tauto
  rw [← hend]
  by_cases hcount : count = 0
  · subst hcount
    rfl
  · have hpos : count > 0 := UInt16.pos_iff_ne_zero.mpr hcount
    simp only [conclude, if_pos hpos, bind_eq_ok_iff, answered_eq_ok_iff, hmap, hcount]
    tauto

/-- Every step but the comparison succeeds, and these are the files. The warning is left out, which
is for rejected outputs only. -/
structure World.Succeeds (args : TransformArgs) (w : World) (outputFiles : List (List Char)) :
    Prop where
  prepared : w.prepare = .ok ()
  runOnce : w.runOnce = none
  info : w.info = none
  listed : w.listOutputFiles = .ok outputFiles
  removed : args.keepNewFiles = false → removeNewFiles w.steps outputFiles = .ok ()
  outro : w.outro = none

theorem finish_eq_true_iff {args : TransformArgs} {w : World} {count : UInt16}
    (hprepared : w.prepare = .ok ()) : finish args w count = .ok true ↔
      count = 0 ∧ ∃ files, w.Succeeds args files ∧ args.mode.compare w.steps files = .ok true := by
  simp only [finish, bind_eq_ok_iff, answered_eq_ok_iff]
  constructor
  · rintro ⟨-, hrun, -, hinfo, files, hlisted, h⟩
    cases hkeep : args.keepNewFiles with
    | false =>
        rw [hkeep] at h
        obtain ⟨_, hremoved, hend⟩ := bind_eq_ok_iff.mp h
        obtain ⟨hcount, houtro, hcompare⟩ := conclude_eq_true_iff.mp hend
        refine ⟨hcount, files, ⟨hprepared, hrun, hinfo, hlisted, ?_, houtro⟩, hcompare⟩
        exact fun _ => hremoved
    | true =>
        rw [hkeep] at h
        obtain ⟨hcount, houtro, hcompare⟩ := conclude_eq_true_iff.mp h
        refine ⟨hcount, files, ⟨hprepared, hrun, hinfo, hlisted, ?_, houtro⟩, hcompare⟩
        exact fun hfalse => absurd (hkeep.symm.trans hfalse) Bool.noConfusion
  · rintro ⟨hcount, files, hsteps, hcompare⟩
    refine ⟨(), hsteps.runOnce, (), hsteps.info, files, hsteps.listed, ?_⟩
    have hend := conclude_eq_true_iff.mpr ⟨hcount, hsteps.outro, hcompare⟩
    cases hkeep : args.keepNewFiles with
    | false => exact bind_eq_ok_iff.mpr ⟨(), hsteps.removed hkeep, hend⟩
    | true => exact hend

/-- The result that a run returns is `Ok(true)` when the counter has come back to zero. -/
theorem transform_eq_true_iff {F : OutputToJsonFile CDEvent} (hcheck : F.checkCdevent = true)
    {args : TransformArgs} {w : World} {result : Except String Bool}
    (h : transform F args w = some result) : result = .ok true ↔
      w.outputs.countP F.rejects % 65536 = 0 ∧
        ∃ files, w.Succeeds args files ∧ args.mode.compare w.steps files = .ok true := by
  rw [transform] at h
  cases hprepared : w.prepare with
  | error text =>
      rw [hprepared] at h
      cases h
      refine iff_of_false (by rintro ⟨⟩) ?_
      rintro ⟨-, files, hsteps, -⟩
      cases hprepared.symm.trans hsteps.prepared
  | ok u =>
      rw [hprepared] at h
      obtain ⟨t, ht, rfl⟩ := Option.map_eq_some_iff.mp h
      rw [finish_eq_true_iff hprepared, run_counter hcheck ht]
      refine and_congr_left fun _ => ?_
      -- the counter starts at zero
      rw [show State.new.checkCdeventFailuresCounter = 0 from rfl, UInt16.zero_add,
        UInt16.ofNat_eq_iff_mod_eq_toNat]
      rfl

/-- An output was rejected. -/
def World.Rejected (F : OutputToJsonFile CDEvent) (w : World) : Prop :=
  ∃ x ∈ w.outputs, F.rejects x = true

/-- The comparison of the mode is not `Ok(true)`. -/
def World.ComparisonFailed (args : TransformArgs) (w : World) : Prop :=
  ∃ files, w.listOutputFiles = .ok files ∧ args.mode.compare w.steps files ≠ .ok true

def World.StepFailed (args : TransformArgs) (w : World) : Prop := ¬∃ files, w.Succeeds args files

/-- The result tells of each failure, and of nothing else. -/
def Tells (F : OutputToJsonFile CDEvent) (args : TransformArgs) (w : World)
    (result : Except String Bool) : Prop :=
  result ≠ .ok true ↔ w.Rejected F ∨ w.ComparisonFailed args ∨ w.StepFailed args

/-- The result tells of the failures unless they are a positive multiple of 65536 rejected outputs
and nothing else. -/
theorem transform_tells_iff {F : OutputToJsonFile CDEvent} (hcheck : F.checkCdevent = true)
    {args : TransformArgs} {w : World} {result : Except String Bool}
    (h : transform F args w = some result) :
    Tells F args w result ↔
      (w.outputs.countP F.rejects = 0 ∨ w.outputs.countP F.rejects % 65536 ≠ 0) ∨
        w.ComparisonFailed args ∨ w.StepFailed args := by
  have hrejected : w.Rejected F ↔ w.outputs.countP F.rejects ≠ 0 := by
    rw [World.Rejected, Nat.ne_zero_iff_zero_lt, List.countP_pos_iff]
  have hall : (∃ files, w.Succeeds args files ∧ args.mode.compare w.steps files = .ok true) ↔
      ¬(w.ComparisonFailed args ∨ w.StepFailed args) := by
    constructor
    · rintro ⟨files, hsteps, hcompare⟩ (⟨files', hlisted, hfailed⟩ | hfailed)
      · obtain rfl : files = files' := Except.ok.inj (hsteps.listed.symm.trans hlisted)
        exact hfailed hcompare
      · exact hfailed ⟨files, hsteps⟩
    · intro hnone
      obtain ⟨hcomparison, hstep⟩ := not_or.mp hnone
      obtain ⟨files, hsteps⟩ := not_not.mp hstep
      refine ⟨files, hsteps, ?_⟩
      by_contra hcompare
      exact hcomparison ⟨files, hsteps.listed, hcompare⟩
  rw [Tells, Ne, transform_eq_true_iff hcheck h, hall, hrejected]
  by_cases hfailed : w.ComparisonFailed args ∨ w.StepFailed args
  · exact iff_of_true (iff_of_true (fun htrue => htrue.2 hfailed) (Or.inr hfailed))
      (Or.inr hfailed)
  · simp only [hfailed, not_false_eq_true, and_true, or_false]
    omega

/-! ### Rejected outputs -/

/-- What has no subject is rejected. -/
def subjects : Sdk String :=
  { Sdk.ids with
    fromValue := fun value =>
      if (value.get "subject").isNone then .error "missing field" else Sdk.ids.fromValue value }

def checkingSink : OutputToJsonFile String :=
  { sampleSink with S := subjects, checkCdevent := true, exportHeaders := false }

def samplePath (i : ℕ) : List Char := Nat.toDigits 10 i ++ json

/-- Outputs of different paths, each without a subject. -/
def rejectedOutputs (n : ℕ) : List (Answers × Event) :=
  (List.range n).map fun i => sampleInput (String.ofList (samplePath i))

/-- The files of these outputs. -/
def newFiles (n : ℕ) : List (List Char) :=
  (List.range n).map fun i => "out/".toList ++ Nat.toDigits 10 i ++ jsonNew

/-- All steps succeed; a file that has been renamed is not there any more. -/
def rejectedWorld (n : ℕ) : World where
  config := none
  intro := none
  outputExists := true
  createDirAll := none
  resolveTransformerRefs := none
  makeTransformers := none
  extractor := none
  outputs := rejectedOutputs n
  runOnce := none
  info := none
  listOutputFiles := .ok (newFiles n)
  steps :=
    { S := sampleSerde
      fs := sampleFiles ((newFiles n).map String.ofList) "{}"
      success := none
      warning := none
      warned := fun _ => none
      note := fun _ => none
      confirm := fun _ => .ok true
      rename := fun _ _ => none
      removeFile := fun _ => none
      present := fun _ => .ok false }
  warning := none
  outro := none

def overwriteArgs : TransformArgs := { mode := .overwrite, keepNewFiles := false }

theorem rejects_sampleInput (path : String) : checkingSink.rejects (sampleInput path) = true := by
  rfl

theorem extractFilename_newFiles {n : ℕ} {path : List Char} (h : path ∈ newFiles n) :
    ∃ name, extractFilename path = .ok name := by
  obtain ⟨i, -, rfl⟩ := List.mem_map.mp h
  exact ⟨_, extractFilename_append (by decide) (by decide)⟩

theorem rejectedWorld_succeeds (n : ℕ) :
    (rejectedWorld n).Succeeds overwriteArgs (newFiles n) where
  prepared := rfl
  runOnce := rfl
  info := rfl
  listed := rfl
  removed := by
    intro _
    refine forM_eq_ok_iff.mpr ?_
    intro path hpath
    obtain ⟨name, hname⟩ := extractFilename_newFiles hpath
    simp only [removeNewFile, hname, bind, Except.bind]
    split <;> rfl
  outro := rfl

theorem rejectedWorld_compare (n : ℕ) :
    overwriteArgs.mode.compare (rejectedWorld n).steps (newFiles n) = .ok true := by
  refine bind_eq_ok_iff.mpr ⟨(), forM_eq_ok_iff.mpr ?_, rfl⟩
  intro path hpath
  obtain ⟨name, hname⟩ := extractFilename_newFiles hpath
  simp only [overwriteFile, hname, bind, Except.bind]
  split <;> rfl

theorem rejects_rejectedOutputs {n : ℕ} {x : Answers × Event} (h : x ∈ rejectedOutputs n) :
    checkingSink.rejects x = true := by
  obtain ⟨i, -, rfl⟩ := List.mem_map.mp h
  exact rejects_sampleInput _

theorem countP_rejectedOutputs (n : ℕ) :
    (rejectedOutputs n).countP checkingSink.rejects = n := by
  rw [List.countP_eq_length.mpr fun _ => rejects_rejectedOutputs, rejectedOutputs,
    List.length_map, List.length_range]

theorem rejected_rejectedWorld {n : ℕ} (h : 0 < n) : (rejectedWorld n).Rejected checkingSink := by
  have hcount : (rejectedWorld n).outputs.countP checkingSink.rejects = n :=
    countP_rejectedOutputs n
  exact List.countP_pos_iff.mp (hcount.symm ▸ h)

/-- A run that rejects everything succeeds if the number of outputs is a multiple of 65536. -/
theorem exists_transform_rejectedWorld (n : ℕ) : ∃ result,
    transform checkingSink overwriteArgs (rejectedWorld n) = some result ∧
      (result = .ok true ↔ n % 65536 = 0) := by
  have hrejects : ∀ x ∈ rejectedOutputs n, checkingSink.rejects x = true :=
    fun _ => rejects_rejectedOutputs
  obtain ⟨t, ht⟩ := exists_run hrejects .new
  have hresult : transform checkingSink overwriteArgs (rejectedWorld n) =
      some (finish overwriteArgs (rejectedWorld n) t.checkCdeventFailuresCounter) :=
    congrArg (Option.map _) ht
  refine ⟨_, hresult, ?_⟩
  have hcount : (rejectedWorld n).outputs.countP checkingSink.rejects = n :=
    countP_rejectedOutputs n
  rw [transform_eq_true_iff rfl hresult, hcount]
  exact and_iff_left ⟨_, rejectedWorld_succeeds n, rejectedWorld_compare n⟩

/-- With so many rejected outputs the counter is at zero again. -/
theorem transform_wraps :
    transform checkingSink overwriteArgs (rejectedWorld 65536) = some (.ok true) ∧
      ¬Tells checkingSink overwriteArgs (rejectedWorld 65536) (.ok true) := by
  obtain ⟨result, hresult, htrue⟩ := exists_transform_rejectedWorld 65536
  rw [htrue.mpr rfl] at hresult
  have hrejected : (rejectedWorld 65536).Rejected checkingSink :=
    rejected_rejectedWorld (by decide)
  exact ⟨hresult, fun htells => htells.mpr (Or.inl hrejected) rfl⟩

/-- One rejected output is told of. -/
theorem transform_tells_one :
    transform checkingSink overwriteArgs (rejectedWorld 1) = some (.ok false) ∧
      Tells checkingSink overwriteArgs (rejectedWorld 1) (.ok false) := by
  have hresult : transform checkingSink overwriteArgs (rejectedWorld 1) = some (.ok false) := rfl
  have hcount : (rejectedWorld 1).outputs.countP checkingSink.rejects = 1 :=
    countP_rejectedOutputs 1
  refine ⟨hresult, (transform_tells_iff rfl hresult).mpr (Or.inl (Or.inr ?_))⟩
  rw [hcount]
  exact Nat.one_ne_zero

end Transform

end CdvizCollector.Tools
