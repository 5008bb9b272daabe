import CdvizCollector.Sinks.BatchOrder
import Mathlib.Algebra.Order.Group.Multiset

/-!
The spooled batcher stores every accepted item at least once, crashes included.

A slot and its file evolve separately: the file grows when a group is pushed,
keeps the whole slot while a drain stores it chunk by chunk, and is emptied once
the slot is fully stored. The invariant ties them together by what a drain has
stored so far (`History.kept`): the file of the sealed slot records that, then
what the drain still holds, then what the slot holds.

Counting is by multisets, so that two equal items are two items. What the
files record is read back by `Slot::open` itself.
-/

namespace CdvizCollector.Sinks.Batch

open Lib

variable {α : Type} {P : Params α} {J : ItemCodec α} {s t : State α}

/-! ### Reading a spool file back -/

theorem records_append (J : ItemCodec α) (xs ys : List α) :
    records J (xs ++ ys) = records J xs ++ records J ys := List.flatMap_append

theorem readItems_cons (line : List UInt8) {lines lines' : List (List UInt8)}
    (h : readItems J lines = readItems J lines') :
    readItems J (line :: lines) = readItems J (line :: lines') := by
  simp only [readItems, h]

theorem readItems_nil_cons (lines : List (List UInt8)) :
    readItems J ([] :: lines) = readItems J lines := by
  have hempty : Text.decodeUtf8 [] = some "" := Text.decodeUtf8_utf8 ""
  have hblank : Text.isBlank "" = true := by decide
  simp [readItems, hempty, hblank]

theorem readItems_item (hJ : J.Lawful) (item : α) (lines : List (List UInt8)) :
    readItems J (Text.utf8 (J.toWriter item) :: lines) = (readItems J lines).map (item :: ·) := by
  simp [readItems, hJ.not_blank, hJ.fromStr_toWriter]

/-- Pieces that each start a new line are read one by one. -/
theorem readItems_lines {pieces : List (List UInt8)} (h : ∀ p ∈ pieces, LF ∉ p ∧ CR ∉ p) :
    readItems J (Text.lines LF CR (pieces.flatMap fun p => LF :: p)) = readItems J pieces := by
  have hline : ∀ (p : List UInt8) (ps : List (List UInt8)), (∀ q ∈ p :: ps, LF ∉ q ∧ CR ∉ q) →
      readItems J (Text.lines LF CR (p ++ ps.flatMap fun q => LF :: q)) =
        readItems J (p :: ps) := by
    intro p ps
    induction ps generalizing p with
    | nil =>
        intro hp
        rw [List.flatMap_nil, List.append_nil]
        by_cases hnil : p = []
        · rw [hnil, Text.lines_nil, readItems_nil_cons]
        · rw [Text.lines_single CR (hp p List.mem_cons_self).1 hnil]
    | cons q qs ih =>
        intro hp
        obtain ⟨hlf, hcr⟩ := hp p List.mem_cons_self
        rw [List.flatMap_cons, List.cons_append, Text.lines_append_nl,
          List.splitOn_eq_singleton hlf, List.map_singleton, Text.stripCr_of_not_mem hcr,
          List.singleton_append]
        exact readItems_cons p (ih q fun r hr => hp r (List.mem_cons_of_mem _ hr))
  cases pieces with
  | nil => simp
  | cons p ps =>
      have hhead := Text.lines_append_nl LF CR [] (p ++ ps.flatMap fun q => LF :: q)
      rw [List.nil_append] at hhead
      rw [List.flatMap_cons, List.cons_append, hhead, List.splitOn_nil, List.map_singleton,
        List.singleton_append]
      exact (readItems_nil_cons _).trans (hline p ps h)

theorem readItems_records (hJ : J.Lawful) (items : List α) :
    readItems J (items.map fun item => Text.utf8 (J.toWriter item)) = some items := by
  induction items with
  | nil => rfl
  | cons item items ih => rw [List.map_cons, readItems_item hJ, ih, Option.map_some]

theorem utf8_no_newline (hJ : J.Lawful) (item : α) :
    LF ∉ Text.utf8 (J.toWriter item) ∧ CR ∉ Text.utf8 (J.toWriter item) :=
  ⟨fun hmem => hJ.no_newline item (Text.mem_utf8_ascii (a := '\n') (by decide) hmem),
    fun hmem => hJ.no_return item (Text.mem_utf8_ascii (a := '\r') (by decide) hmem)⟩

/-- `Slot::open` reads the items back from the records `push_all` wrote. -/
theorem openSpool_records (hJ : J.Lawful) (items : List α) :
    Slot.openSpool J (some (records J items)) =
      some { items, file := some (records J items) } := by
  have hlines : readItems J (Text.lines LF CR (records J items)) = some items := by
    have hpieces : ∀ p ∈ items.map fun item => Text.utf8 (J.toWriter item), LF ∉ p ∧ CR ∉ p := by
      intro p hp
      obtain ⟨item, -, rfl⟩ := List.mem_map.mp hp
      exact utf8_no_newline hJ item
    have hread := readItems_lines (J := J) hpieces
    rw [List.flatMap_map] at hread
    exact hread.trans (readItems_records hJ items)
  simp [Slot.openSpool, hlines]

/-! ### Crashes -/

/-- A crash loses the memory of both tasks, the channels and the items in the
slots; the files stay as they are and the next run opens them. -/
def History.reopened (h : History α) : History α :=
  { h with kept := [], owed := h.accepted, failed := false }

inductive SpoolStep (P : Params α) : State α → State α → Prop
  | step {s t : State α} (h : Step P s t) : SpoolStep P s t
  | crash {s : State α} {b : Buffers α}
      (hopen : Buffers.openSpool P.codec (some fun i => (s.buffers.slots i).file) = some b) :
      SpoolStep P s (.start b s.history.reopened)

/-- A batcher with a spool directory, which is new or holds complete records,
over any number of crashes and restarts. -/
def spoolSystem (P : Params α) : System (State α) where
  init s := ∃ (found : Fin 2 → Option (List α)) (b : Buffers α),
    Buffers.openSpool P.codec (some fun i => (found i).map (records P.codec)) = some b ∧
      s = .start b (.opened b)
  step := SpoolStep P

/-- The group whose records are written but which the slot does not hold yet. -/
def Writer.unextended : Writer α → List α
  | .written items _ | .extending items _ => items
  | _ => []

theorem Writer.unextended_of_lock {w : Writer α} (h : w.holdsLock = false) :
    w.unextended = [] := by
  cases w <;> simp_all [Writer.holdsLock, Writer.unextended]

@[simp] theorem AfterPush.unextended_writer (next : AfterPush α) :
    (next.writer : Writer α).unextended = [] := by cases next <;> rfl

/-- The files record `r`. -/
structure Recorded (P : Params α) (s : State α) (r : Fin 2 → List α) : Prop where
  file : ∀ i, (s.buffers.slots i).file = some (records P.codec (r i))
  active : r s.buffers.active = s.active.items ++ s.writer.unextended
  sealed : r s.buffers.sealed = s.history.kept ++ (s.flusher.taken ++ s.sealed.items)
  /-- Between drains an empty sealed slot has an empty file. -/
  idle : s.flusher.draining = none → s.sealed.items = [] → s.history.kept = []

/-- The account of all items ever accepted. -/
structure Accounted (s : State α) : Prop where
  accepted : (s.history.accepted : Multiset α) ≤
    ↑(s.history.dropped ++ s.history.kept) + ↑s.pending
  stored : (↑(s.history.dropped ++ s.history.kept) : Multiset α) ≤ s.history.stored
  owed : (s.history.owed : Multiset α) ≤ s.history.accepted
  /-- Unless a `store()` failed, what was owed at the opening is stored once the
  startup drain is over. -/
  replayed : s.history.failed = false → s.flusher.caller = some .startup ∨
    (s.history.owed : Multiset α) ≤ s.history.stored

/-- The invariant of the spooled batcher. -/
structure Spooled (P : Params α) (s : State α) : Prop where
  draining : Draining P s
  recorded : ∃ r, Recorded P s r
  accounted : Accounted s

/-! ### The writer keeps the account -/

/-- A step that leaves the slots alone. -/
theorem Recorded.frame {r : Fin 2 → List α} (hr : Recorded P s r) (hbuffers : t.buffers = s.buffers)
    (hwriter : t.writer.unextended = s.writer.unextended) (hflusher : t.flusher = s.flusher)
    (hhistory : t.history = s.history) : Recorded P t r where
  file i := by rw [hbuffers]; exact hr.file i
  active := by simpa only [State.active, hbuffers, hwriter] using hr.active
  sealed := by simpa only [State.sealed, hbuffers, hflusher, hhistory] using hr.sealed
  idle := by simpa only [State.sealed, hbuffers, hflusher, hhistory] using hr.idle

theorem WriterStep.recorded {r : Fin 2 → List α} (hio : ¬P.ioFails) (h : WriterStep P s t)
    (hr : Recorded P s r) : ∃ r', Recorded P t r' := by
  cases h with
  | pushUnspooled hpc hitems hfile =>
      have hsome := hr.file s.buffers.active
      rw [State.active] at hfile
      rw [hfile] at hsome
      contradiction
  | pushWriteFails n hfail => exact absurd hfail hio
  | pushWritten hpc hitems hfile =>
      rename_i items next
      have hactive : r s.buffers.active = s.active.items := by
        simpa [hpc, Writer.unextended] using hr.active
      refine ⟨Function.update r s.buffers.active (r s.buffers.active ++ items), ?_, ?_, ?_, ?_⟩
      · intro i
        by_cases hi : i = s.buffers.active
        · subst hi
          simp [Slot.writeAll, State.active, hr.file, records_append]
        · simp [hi, hr.file]
      · simp [State.active, Slot.writeAll, Writer.unextended, hactive]
      · simpa [State.sealed] using hr.sealed
      · simpa [State.sealed] using hr.idle
  | pushExtended hpc =>
      rename_i items next
      refine ⟨r, ?_, ?_, ?_, ?_⟩
      · intro i
        by_cases hi : i = s.buffers.active
        · subst hi
          simp [Slot.extend, State.active, hr.file]
        · simp [hi, hr.file]
      · simp [State.active, Slot.extend, Writer.unextended, hr.active, hpc]
      · simpa [State.sealed] using hr.sealed
      · simpa [State.sealed] using hr.idle
  | pushNothing hpc | pushNotified hpc =>
      exact ⟨r, hr.frame rfl (by rw [hpc]; exact AfterPush.unextended_writer _) rfl rfl⟩
  | recvMany _ hpc | recvClosed hpc | scanPush hpc | scanFlush hpc | scanEnd hpc
  | pushSynced hpc | flushSent hpc | flushClosed hpc =>
      exact ⟨r, hr.frame rfl (by rw [hpc]; rfl) rfl rfl⟩

theorem WriterEffect.accounted {items : List α} (h : WriterEffect s t items)
    (ha : Accounted s) : Accounted t where
  accepted := by
    have hpending : t.pending = s.pending ++ items := by
      simp [State.pending, h.flusher, h.sealed, h.active]
    simp only [h.history, hpending]
    calc (↑(s.history.accepted ++ items) : Multiset α)
        = s.history.accepted + ↑items := (Multiset.coe_add _ _).symm
      _ ≤ ↑(s.history.dropped ++ s.history.kept) + ↑s.pending + ↑items :=
          add_le_add_left ha.accepted _
      _ = ↑(s.history.dropped ++ s.history.kept) + ↑(s.pending ++ items) := by
          rw [← Multiset.coe_add s.pending, add_assoc]
  stored := by simpa only [h.history] using ha.stored
  owed := by
    simp only [h.history, ← Multiset.coe_add]
    exact ha.owed.trans (Multiset.le_add_right _ _)
  replayed := by simpa only [h.history, h.flusher] using ha.replayed

/-! ### The flusher keeps the account -/

@[simp] theorem Buffers.file_take (b : Buffers α) (i : Fin 2) :
    (b.take.2.slots i).file = (b.slots i).file := by
  by_cases hi : i = b.sealed
  · subst hi; simp [Buffers.take]
  · simp [Buffers.take, hi]

@[simp] theorem Buffers.file_swap (b : Buffers α) (i : Fin 2) :
    (b.swap.slots i).file = (b.slots i).file := by
  unfold Buffers.swap; split <;> rfl

/-- The lock section at the start of a drain: with the sealed slot empty, so is
its file, and the roles swap; otherwise the leftovers are taken up again. -/
theorem Recorded.swap {r : Fin 2 → List α} {d : Drain} (hr : Recorded P s r)
    (hpc : s.flusher = .swapping d) (hlock : s.writer.holdsLock = false) (fl : Flusher α)
    (htaken : fl.taken = s.buffers.swap.take.1)
    (hidle : fl.draining = none → s.buffers.swap.take.1 = []) :
    Recorded P { s with flusher := fl, buffers := s.buffers.swap.take.2 } r := by
  have hwriter := Writer.unextended_of_lock hlock
  have hactive : r s.buffers.active = s.active.items := by simpa [hwriter] using hr.active
  have hsealed : r s.buffers.sealed = s.history.kept ++ s.sealed.items := by
    simpa [hpc] using hr.sealed
  have hkept : s.sealed.items = [] → s.history.kept = [] :=
    hr.idle (by simp [hpc, Flusher.draining])
  by_cases hempty : (s.buffers.slots s.buffers.sealed).items = []
  · have hnil := hkept hempty
    refine ⟨fun i => by simpa using hr.file i, ?_, ?_, fun _ _ => hnil⟩
    · simpa [State.active, Buffers.swap, Buffers.take, hempty, hwriter,
        Buffers.sealed_of_active_sealed, hnil, State.sealed] using hsealed
    · simp [State.sealed, Buffers.swap, Buffers.take, hempty, htaken,
        Buffers.sealed_of_active_sealed, hnil, hactive, State.active]
  · have hne : (s.buffers.slots s.buffers.sealed).items.isEmpty = false := by
      simpa [List.isEmpty_eq_false_iff] using hempty
    refine ⟨fun i => by simpa using hr.file i, ?_, ?_, ?_⟩
    · simp [State.active, Buffers.swap, Buffers.take, hne, hwriter, hactive]
    · simp [State.sealed, Buffers.swap, Buffers.take, hne, htaken, hsealed]
    · intro hdrain
      exact absurd (hidle hdrain) (by simp [Buffers.swap, Buffers.take, hne, hempty])

theorem FlusherStep.recorded {r : Fin 2 → List α} (hio : ¬P.ioFails) (h : FlusherStep P s t)
    (hs : Draining P s) (hr : Recorded P s r) : ∃ r', Recorded P t r' := by
  cases h with
  | swapped hpc hlock hitems =>
      exact ⟨r, hr.swap hpc hlock _ (by simp) (by simp [Flusher.draining])⟩
  | swappedEmpty hpc hlock hnil =>
      exact ⟨r, hr.swap hpc hlock _ (by simp [hnil]) fun _ => hnil⟩
  | chunk hpc hrest | storeFalse hpc =>
      refine ⟨r, hr.file, hr.active, ?_, by simp [Flusher.draining]⟩
      simpa [hpc, State.sealed] using hr.sealed
  | chunksDone hpc hrest =>
      refine ⟨r, hr.file, hr.active, ?_, by simp [Flusher.draining]⟩
      simpa [hpc, State.sealed, hrest] using hr.sealed
  | storeTrue hpc =>
      refine ⟨r, hr.file, hr.active, ?_, by simp [Flusher.draining]⟩
      simpa [hpc, State.sealed, hs.split hpc] using hr.sealed
  | putBack hpc hlock =>
      rename_i d i items stored
      obtain ⟨rfl, hnil⟩ := hs.sealed i (by simp [hpc, Flusher.draining])
      obtain ⟨hrest, -⟩ := hs.rest _ _ _ _ hpc
      have hsealed := hr.sealed
      simp only [hpc, Flusher.taken_puttingBack, State.sealed, hnil, List.append_nil] at hsealed
      refine ⟨r, fun j => ?_, ?_, ?_, ?_⟩
      · by_cases hj : j = s.buffers.sealed
        · subst hj; simpa using hr.file s.buffers.sealed
        · simpa [hj] using hr.file j
      · simpa [State.active] using hr.active
      · simpa [State.sealed] using hsealed
      · intro _ hempty
        exact absurd hempty (by simpa [State.sealed] using hrest)
  | truncated hpc hlock =>
      rename_i d i
      obtain ⟨rfl, hnil⟩ := hs.sealed i (by simp [hpc, Flusher.draining])
      refine ⟨Function.update r s.buffers.sealed [], fun j => ?_, ?_, ?_, fun _ _ => rfl⟩
      · by_cases hj : j = s.buffers.sealed
        · subst hj; simp [Slot.truncate, hr.file, records]
        · simp [hj, hr.file]
      · simpa [State.active] using hr.active
      · simp [State.sealed, Slot.truncate, hnil]
  | truncateFails hfail => exact absurd hfail hio
  | checkedEmpty hpc hlock hempty =>
      exact ⟨r, by simpa using hr.file, by simpa [State.active] using hr.active,
        by simpa [State.sealed, hpc] using hr.sealed,
        by simpa [State.sealed] using hr.idle (by simp [hpc, Flusher.draining])⟩
  | timer hpc | notified hpc | flushReceived hpc | flushClosed hpc | checkedFull hpc =>
      exact ⟨r, hr.file, hr.active, by simpa [hpc, State.sealed] using hr.sealed,
        fun _ => hr.idle (by simp [hpc, Flusher.draining])⟩

theorem FlusherEffect.accounted (h : FlusherEffect P s t) (ha : Accounted s) : Accounted t := by
  cases h with
  | delivered chunk hpending _ _ hcaller hhistory =>
      have haccepted := ha.accepted
      rw [hpending, ← Multiset.coe_add] at haccepted
      refine ⟨?_, ?_, by simpa only [hhistory] using ha.owed, ?_⟩
      · simpa only [hhistory, ← List.append_assoc, ← Multiset.coe_add, ← add_assoc] using haccepted
      · simp only [hhistory, ← List.append_assoc]
        rw [← Multiset.coe_add, ← Multiset.coe_add s.history.stored]
        exact add_le_add_left ha.stored _
      · intro hfailed
        simp only [hhistory] at hfailed ⊢
        rw [hcaller, ← Multiset.coe_add]
        exact (ha.replayed hfailed).imp id fun hle => hle.trans (Multiset.le_add_right _ _)
  | moved hpending _ _ _ _ hhistory _ hrecord hfailed hcaller =>
      refine ⟨by simpa only [hhistory, hpending, hrecord] using ha.accepted,
        by simpa only [hhistory, hrecord] using ha.stored,
        by simpa only [hhistory] using ha.owed, fun hnot => ?_⟩
      simp only [hhistory] at hnot ⊢
      rcases ha.replayed (hfailed hnot) with hstart | hdone
      · rcases hcaller hstart with h | h | h
        · exact .inl h
        · rw [hnot] at h; contradiction
        · -- the drain ends on two empty slots: nothing accepted is left to store
          right
          have haccepted := ha.accepted
          rw [h, Multiset.coe_nil, add_zero] at haccepted
          exact ha.owed.trans (haccepted.trans ha.stored)
      · exact .inr hdone

/-! ### Runs -/

theorem openSpool_files (hJ : J.Lawful) (found : Fin 2 → Option (List α)) :
    Buffers.openSpool J (some fun i => (found i).map (records J)) =
      some (.ofRecords J fun i => (found i).getD []) := by
  have hslot : ∀ i, Slot.openSpool J ((found i).map (records J)) =
      some { items := (found i).getD [], file := some (records J ((found i).getD [])) } := by
    intro i
    cases found i with
    | none => rfl
    | some items => exact openSpool_records hJ items
  simp only [Buffers.openSpool, hslot, Option.bind_some, Option.map_some, Buffers.ofRecords,
    Option.some.injEq, Buffers.mk.injEq, and_true]
  funext i
  match i with
  | 0 => rfl
  | 1 => rfl

theorem Recorded.reopen {r : Fin 2 → List α} (hJ : P.codec.Lawful) (hr : Recorded P s r) :
    Buffers.openSpool P.codec (some fun i => (s.buffers.slots i).file) =
      some (.ofRecords P.codec r) := by
  simpa only [hr.file, Option.map_some, Option.getD_some] using
    openSpool_files hJ fun i => some (r i)

/-- Right after an opening the files record what the slots hold. -/
theorem Recorded.start (r : Fin 2 → List α) {h : History α} (hkept : h.kept = []) :
    Recorded P (.start (.ofRecords P.codec r) h) r where
  file _ := rfl
  active := by simp [State.start, State.active, Writer.unextended, Buffers.ofRecords]
  sealed := by simp [State.start, State.sealed, Buffers.ofRecords, hkept]
  idle _ _ := hkept

theorem pending_start (J : ItemCodec α) (r : Fin 2 → List α) (h : History α) :
    (State.start (.ofRecords J r) h).pending = r 1 ++ r 0 := by
  simp [State.start, State.pending, State.sealed, State.active, Buffers.ofRecords, Buffers.sealed]

/-- The files record everything a slot holds or a drain took, and all stored
items whose record was not dropped. -/
theorem Recorded.pending_le {r : Fin 2 → List α} (hr : Recorded P s r) :
    (s.history.kept : Multiset α) + ↑s.pending ≤ ↑(r 0) + ↑(r 1) := by
  have hroles : (↑(r 0) + ↑(r 1) : Multiset α) =
      ↑(r s.buffers.sealed) + ↑(r s.buffers.active) := by
    rcases s.buffers.eq_sealed_or_active 0 with h0 | h0
    · rcases s.buffers.eq_sealed_or_active 1 with h1 | h1
      · exact absurd (h0.trans h1.symm) (by decide)
      · rw [← h0, ← h1]
    · rcases s.buffers.eq_sealed_or_active 1 with h1 | h1
      · rw [← h0, ← h1, add_comm]
      · exact absurd (h0.trans h1.symm) (by decide)
  have hsplit : s.history.kept ++ (s.flusher.taken ++ s.sealed.items) ++
        (s.active.items ++ s.writer.unextended) =
      s.history.kept ++ s.pending ++ s.writer.unextended := by simp [State.pending]
  rw [hroles, hr.sealed, hr.active, Multiset.coe_add, Multiset.coe_add, hsplit]
  exact Multiset.coe_le.mpr (List.sublist_append_left _ _).subperm

/-- An accepted item is recorded, unless its record was dropped. -/
theorem Accounted.accepted_le {r : Fin 2 → List α} (ha : Accounted s) (hr : Recorded P s r) :
    (s.history.accepted : Multiset α) ≤ ↑s.history.dropped + (↑(r 0) + ↑(r 1)) :=
  calc (s.history.accepted : Multiset α)
      ≤ ↑(s.history.dropped ++ s.history.kept) + ↑s.pending := ha.accepted
    _ = ↑s.history.dropped + (↑s.history.kept + ↑s.pending) := by
        rw [← Multiset.coe_add, add_assoc]
    _ ≤ ↑s.history.dropped + (↑(r 0) + ↑(r 1)) := add_le_add_right hr.pending_le _

theorem Accounted.dropped_le (ha : Accounted s) :
    (s.history.dropped : Multiset α) ≤ s.history.stored := by
  have hstored := ha.stored
  rw [← Multiset.coe_add] at hstored
  exact (Multiset.le_add_right _ _).trans hstored

theorem Accounted.crash {r : Fin 2 → List α} (hr : Recorded P s r) (ha : Accounted s) :
    Accounted (.start (.ofRecords P.codec r) s.history.reopened) where
  accepted := by
    rw [pending_start, ← Multiset.coe_add (r 1), add_comm (r 1 : Multiset α)]
    simpa only [State.start, History.reopened, List.append_nil] using ha.accepted_le hr
  stored := by simpa [State.start, History.reopened] using ha.dropped_le
  owed := le_rfl
  replayed _ := .inl rfl

theorem spooled_invariant (hJ : P.codec.Lawful) (hio : ¬P.ioFails) :
    (spoolSystem P).Invariant (Spooled P) where
  init := by
    rintro s ⟨found, b, hopen, rfl⟩
    rw [openSpool_files hJ found, Option.some.injEq] at hopen
    subst hopen
    refine ⟨.of_idle rfl, ⟨_, .start _ rfl⟩, ⟨?_, ?_, le_rfl, fun _ => .inl rfl⟩⟩
    · rw [pending_start]; simp [State.start, History.opened, Buffers.ofRecords, Buffers.sealed]
    · simp [State.start, History.opened]
  step := by
    rintro s t ⟨hs, ⟨r, hr⟩, ha⟩ hstep
    cases hstep with
    | step h =>
        have hdraining := (draining_invariant P).step hs h
        cases h with
        | client h =>
            obtain ⟨hbuffers, hflusher, hhistory, hwriter⟩ := h.effect
            refine ⟨hdraining, ⟨r, hr.frame hbuffers (by rw [hwriter]) hflusher hhistory⟩, ?_⟩
            have hpending : t.pending = s.pending := by
              simp only [State.pending, State.sealed, State.active, hbuffers, hflusher]
            exact ⟨by simpa only [hhistory, hpending] using ha.accepted,
              by simpa only [hhistory] using ha.stored, by simpa only [hhistory] using ha.owed,
              by simpa only [hhistory, hflusher] using ha.replayed⟩
        | writer h =>
            obtain ⟨items, heffect⟩ := h.effect
            exact ⟨hdraining, h.recorded hio hr, heffect.accounted ha⟩
        | flusher h =>
            exact ⟨hdraining, h.recorded hio hs hr, (h.effect hs).accounted ha⟩
    | crash hopen =>
        rw [hr.reopen hJ, Option.some.injEq] at hopen
        subst hopen
        exact ⟨.of_idle rfl, ⟨r, .start r rfl⟩, ha.crash hr⟩

/-! ### The drain at startup, with a target that answers -/

/-- What a drain whose `store()` returns `true` leaves to the rest of the state. -/
structure Undisturbed (s t : State α) : Prop where
  writer : t.writer = s.writer
  owed : t.history.owed = s.history.owed
  accepted : t.history.accepted = s.history.accepted
  failed : t.history.failed = s.history.failed

theorem Undisturbed.trans {u : State α} (h : Undisturbed s t) (h' : Undisturbed t u) :
    Undisturbed s u :=
  ⟨h'.writer.trans h.writer, h'.owed.trans h.owed, h'.accepted.trans h.accepted,
    h'.failed.trans h.failed⟩

/-- One round of the loop over the chunks. -/
theorem chunk_run {d : Drain} {i : Fin 2} {items : List α} {n : ℕ}
    (hpc : s.flusher = .chunking d i items n) (hrest : items.drop n ≠ []) :
    ∃ t n', n < n' ∧ Relation.ReflTransGen (FlusherStep P) s t ∧
      t.flusher = .chunking d i items n' ∧ t.buffers = s.buffers ∧ Undisturbed s t := by
  have hpos := List.length_pos_iff.mpr (P.take_ne_nil hrest)
  have hstore := FlusherStep.storeTrue (P := P) (s := { s with
    flusher := .storing d i items n ((items.drop n).take P.max)
    history := { s.history with
      handed := s.history.handed ++ [(items.drop n).take P.max] } }) rfl
  exact ⟨_, _, by omega, .tail (.single (.chunk hpc hrest)) hstore, rfl, rfl, rfl, rfl, rfl, rfl⟩

/-- The loop over the chunks ends, by induction on the items it has left. -/
theorem chunks_run {d : Drain} {i : Fin 2} {items : List α} (k : ℕ) :
    ∀ (n : ℕ) (s : State α), items.length - n ≤ k → s.flusher = .chunking d i items n →
      ∃ t, Relation.ReflTransGen (FlusherStep P) s t ∧ t.flusher = .truncating d i ∧
        t.buffers = s.buffers ∧ Undisturbed s t := by
  induction k with
  | zero =>
      intro n s hk hpc
      have hrest : items.drop n = [] := List.drop_eq_nil_of_le (by omega)
      exact ⟨_, .single (.chunksDone hpc hrest), rfl, rfl, rfl, rfl, rfl, rfl⟩
  | succ k ih =>
      intro n s hk hpc
      by_cases hrest : items.drop n = []
      · exact ⟨_, .single (.chunksDone hpc hrest), rfl, rfl, rfl, rfl, rfl, rfl⟩
      · obtain ⟨u, n', hlt, hround, hpc', hbuffers, hsame⟩ := chunk_run (P := P) hpc hrest
        obtain ⟨t, hrun, hflusher, hbuffers', hsame'⟩ := ih n' u (by omega) hpc'
        exact ⟨t, hround.trans hrun, hflusher, hbuffers'.trans hbuffers, hsame.trans hsame'⟩

/-- What `drain_all` still has to store when it looks at the slots. -/
def Buffers.load (b : Buffers α) : ℕ :=
  (b.slots b.sealed).items.length + (b.slots b.active).items.length

theorem Buffers.load_take (b : Buffers α) :
    b.swap.take.1.length + b.swap.take.2.load = b.load := by
  have hlen := congrArg List.length b.swap_take.1
  simp only [List.length_append] at hlen
  exact hlen

theorem Buffers.allEmpty_of_load {b : Buffers α} (h : b.load = 0) : b.allEmpty = true := by
  have hall : ∀ i, (b.slots i).items = [] := by
    simp only [Buffers.load, Nat.add_eq_zero_iff, List.length_eq_zero_iff] at h
    intro i
    rcases b.eq_sealed_or_active i with rfl | rfl
    · exact h.1
    · exact h.2
  simp [Buffers.allEmpty, hall]

/-- A drain that takes nothing found both slots empty. -/
theorem Buffers.load_of_take_nil {b : Buffers α} (h : b.swap.take.1 = []) : b.load = 0 := by
  by_cases hempty : (b.slots b.sealed).items = []
  · have hactive : (b.slots b.active).items = [] := by
      simpa [Buffers.take, Buffers.swap, hempty, Buffers.sealed_of_active_sealed] using h
    simp [Buffers.load, hempty, hactive]
  · have hne : (b.slots b.sealed).items.isEmpty = false := by
      simpa [List.isEmpty_eq_false_iff] using hempty
    simp [Buffers.take, Buffers.swap, hne, hempty] at h

@[simp] theorem Buffers.load_truncate (b : Buffers α) :
    (b.set b.sealed (b.slots b.sealed).truncate).load = b.load := by
  simp [Buffers.load, Slot.truncate]

/-- One drain of `drain_all`, up to its look at both slots. -/
theorem drain_run (hpc : s.flusher = .swapping .startup) (hlock : s.writer.holdsLock = false)
    (hitems : s.buffers.swap.take.1 ≠ []) :
    ∃ t, Relation.ReflTransGen (FlusherStep P) s t ∧ t.flusher = .checking .startup ∧
      t.buffers.load < s.buffers.load ∧ Undisturbed s t := by
  obtain ⟨u, hchunks, hpc', hbuffers, hsame⟩ := chunks_run (P := P) _ 0 { s with
    flusher := .chunking .startup s.buffers.swap.sealed s.buffers.swap.take.1 0
    buffers := s.buffers.swap.take.2 } le_rfl rfl
  have htruncate := FlusherStep.truncated (P := P) hpc' (by rw [hsame.writer]; exact hlock)
  refine ⟨_, .head (.swapped hpc hlock hitems) (hchunks.tail htruncate), rfl, ?_,
    hsame.writer, hsame.owed, hsame.accepted, hsame.failed⟩
  have hsealed : s.buffers.swap.sealed = u.buffers.sealed := by rw [hbuffers]; rfl
  have hpos := List.length_pos_iff.mpr hitems
  have hload := s.buffers.load_take
  simp only [hsealed, Buffers.load_truncate, hbuffers]
  omega

theorem startup_run_empty (hpc : s.flusher = .swapping .startup)
    (hlock : s.writer.holdsLock = false) (hitems : s.buffers.swap.take.1 = []) :
    ∃ t, Relation.ReflTransGen (FlusherStep P) s t ∧ t.flusher = .selecting ∧
      Undisturbed s t := by
  have hload := s.buffers.load_take
  have hzero := Buffers.load_of_take_nil hitems
  have hempty : s.buffers.swap.take.2.allEmpty = true := Buffers.allEmpty_of_load (by omega)
  have hchecked := FlusherStep.checkedEmpty (P := P) (s := { s with
    flusher := .checking .startup, buffers := s.buffers.swap.take.2 }) (d := .startup)
    rfl hlock hempty
  exact ⟨_, .tail (.single (.swappedEmpty hpc hlock hitems)) hchecked, rfl, rfl, rfl, rfl, rfl⟩

/-- `drain_all` ends, by induction on what the slots hold: each drain takes
something or finds both slots empty. -/
theorem startup_run (k : ℕ) :
    ∀ s : State α, s.buffers.load ≤ k → s.flusher = .swapping .startup →
      s.writer.holdsLock = false →
      ∃ t, Relation.ReflTransGen (FlusherStep P) s t ∧ t.flusher = .selecting ∧
        Undisturbed s t := by
  induction k with
  | zero =>
      intro s hk hpc hlock
      have hload := s.buffers.load_take
      exact startup_run_empty hpc hlock (List.length_eq_zero_iff.mp (by omega))
  | succ k ih =>
      intro s hk hpc hlock
      by_cases hitems : s.buffers.swap.take.1 = []
      · exact startup_run_empty hpc hlock hitems
      · obtain ⟨u, hdrain, hpc', hload, hsame⟩ := drain_run (P := P) hpc hlock hitems
        have hlock' : u.writer.holdsLock = false := by rw [hsame.writer]; exact hlock
        cases hempty : u.buffers.allEmpty with
        | true =>
            exact ⟨_, hdrain.tail (.checkedEmpty hpc' hlock' hempty), rfl,
              hsame.trans ⟨rfl, rfl, rfl, rfl⟩⟩
        | false =>
            obtain ⟨t, hrun, hflusher, hsame'⟩ :=
              ih { u with flusher := .swapping .startup } (by simp only; omega) rfl hlock'
            exact ⟨t, (hdrain.tail (.checkedFull hpc' hlock' hempty)).trans hrun, hflusher,
              hsame.trans ⟨hsame'.writer, hsame'.owed, hsame'.accepted, hsame'.failed⟩⟩

/-! ### At least once -/

/-- What holds at any moment, `r i` being the items a re-opening would read from
file `i`. -/
structure Durable (P : Params α) (s : State α) (r : Fin 2 → List α) : Prop where
  readable : ∀ i, ∃ slot, Slot.openSpool P.codec (s.buffers.slots i).file = some slot ∧
    slot.items = r i
  /-- What the batcher still has to store is recorded. -/
  pending : (s.pending : Multiset α) ≤ ↑(r 0) + ↑(r 1)
  /-- An accepted item is recorded, unless its record was dropped. -/
  accepted : (s.history.accepted : Multiset α) ≤ ↑s.history.dropped + (↑(r 0) + ↑(r 1))
  /-- The records dropped so far were of stored items. -/
  dropped : (s.history.dropped : Multiset α) ≤ s.history.stored
  /-- So are all those in a file about to be truncated. -/
  truncating : ∀ d i, s.flusher = .truncating d i →
    (s.history.dropped : Multiset α) + ↑(r i) ≤ s.history.stored
  /-- Nothing but what is pending is accepted and not stored. -/
  delivered : (s.history.accepted : Multiset α) ≤ ↑s.history.stored + ↑s.pending
  /-- After the drain at startup, if no `store()` failed meanwhile, what was
  accepted before the opening is stored. -/
  replayed : s.history.failed = false → s.flusher.caller ≠ some .startup →
    (s.history.owed : Multiset α) ≤ s.history.stored

theorem Spooled.durable {r : Fin 2 → List α} (hJ : P.codec.Lawful) (hs : Spooled P s)
    (hr : Recorded P s r) : Durable P s r where
  readable i := by
    rw [hr.file i]
    exact ⟨_, openSpool_records hJ (r i), rfl⟩
  pending := (Multiset.le_add_left _ _).trans hr.pending_le
  accepted := hs.accounted.accepted_le hr
  dropped := hs.accounted.dropped_le
  truncating d i hpc := by
    obtain ⟨rfl, hnil⟩ := hs.draining.sealed i (by simp [hpc, Flusher.draining])
    have hsealed : r s.buffers.sealed = s.history.kept := by
      simpa [hpc, State.sealed, hnil] using hr.sealed
    rw [hsealed, Multiset.coe_add]
    exact hs.accounted.stored
  delivered := hs.accounted.accepted.trans (add_le_add_left hs.accounted.stored _)
  replayed hfailed hcaller := (hs.accounted.replayed hfailed).resolve_left hcaller

/-- After a crash at any moment, the drain at startup stores all that was
accepted, if the target answers. -/
theorem Spooled.recovers (hJ : P.codec.Lawful) (hio : ¬P.ioFails) (hs : Spooled P s) :
    ∃ b t, Buffers.openSpool P.codec (some fun i => (s.buffers.slots i).file) = some b ∧
      Relation.ReflTransGen (FlusherStep P) (.start b s.history.reopened) t ∧
      t.flusher = .selecting ∧ t.history.failed = false ∧
      t.history.accepted = s.history.accepted ∧
      (t.history.accepted : Multiset α) ≤ t.history.stored := by
  obtain ⟨r, hr⟩ := hs.recorded
  have hopen := hr.reopen hJ
  obtain ⟨t, hrun, hpc, hsame⟩ := startup_run (P := P) _
    (.start (.ofRecords P.codec r) s.history.reopened) le_rfl rfl rfl
  have hstart := (spooled_invariant hJ hio).step hs (.crash hopen)
  have hend : Spooled P t := by
    clear hpc hsame
    induction hrun with
    | refl => exact hstart
    | tail _ hstep ih => exact (spooled_invariant hJ hio).step ih (.step (.flusher hstep))
  refine ⟨_, t, hopen, hrun, hpc, hsame.failed, hsame.accepted, ?_⟩
  have howed := (hend.accounted.replayed hsame.failed).resolve_left (by simp [hpc, Flusher.caller])
  rw [hsame.owed] at howed
  rw [hsame.accepted]
  exact howed

/-- A spooled batcher stores every accepted item at least once: at any moment of
any run, crashes included, all that is not stored is recorded, and one more
crash followed by a drain that the target answers stores it. -/
theorem stored_at_least_once (P : Params α) (hJ : P.codec.Lawful) (hio : ¬P.ioFails)
    {s : State α} (h : (spoolSystem P).Reachable s) :
    (∃ r, Durable P s r) ∧
      ∃ b t, Buffers.openSpool P.codec (some fun i => (s.buffers.slots i).file) = some b ∧
        Relation.ReflTransGen (FlusherStep P) (.start b s.history.reopened) t ∧
        t.flusher = .selecting ∧ t.history.failed = false ∧
        t.history.accepted = s.history.accepted ∧
        (t.history.accepted : Multiset α) ≤ t.history.stored := by
  have hs := (spooled_invariant hJ hio).holds h
  obtain ⟨r, hr⟩ := hs.recorded
  exact ⟨⟨r, hs.durable hJ hr⟩, hs.recovers hJ hio⟩

/-- With a spool, chunks of two items. -/
def Params.spooled : Params Bool := { codec := .bool, batchMaxSize := 2, ioFails := False }

def crashedBuffers : Buffers Bool :=
  .ofRecords .bool ![[true, false, true], []]

/-- Two groups are recorded, and the process crashes when the first chunk of the swapped slot
is stored. -/
theorem crashed_reachable :
    ∃ h : History Bool, h.accepted = [true, false, true] ∧ h.stored = [true, false] ∧
      (spoolSystem Params.spooled).Reachable (.start crashedBuffers h.reopened) := by
  have hstart : (spoolSystem Params.spooled).Reachable _ := .init ⟨fun _ => none, _, rfl, rfl⟩
  have hpushed := (hstart.next (.step (.client (.push true rfl (by decide))))).next
    (.step (.client (.push false rfl (by decide))))
  have hgroup := ((((hpushed.next
    (.step (.writer (.recvMany 2 rfl (by decide) (by decide) (by decide))))).next
    (.step (.writer (.scanPush rfl)))).next (.step (.writer (.scanPush rfl)))).next
    (.step (.writer (.scanEnd rfl)))).next
    (.step (.writer (.pushWritten rfl (by decide) (by decide))))
  have hrecorded := ((hgroup.next (.step (.writer (.pushSynced rfl)))).next
    (.step (.writer (.pushExtended rfl)))).next (.step (.writer (.pushNotified rfl)))
  have hsecond := ((((hrecorded.next (.step (.client (.push true rfl (by decide))))).next
    (.step (.writer (.recvMany 1 rfl (by decide) (by decide) (by decide))))).next
    (.step (.writer (.scanPush rfl)))).next (.step (.writer (.scanEnd rfl)))).next
    (.step (.writer (.pushWritten rfl (by decide) (by decide))))
  have hextended := (hsecond.next (.step (.writer (.pushSynced rfl)))).next
    (.step (.writer (.pushExtended rfl)))
  have hstored := ((hextended.next (.step (.flusher (.swapped rfl rfl (by decide))))).next
    (.step (.flusher (.chunk rfl (by decide))))).next (.step (.flusher (.storeTrue rfl)))
  obtain ⟨s, hs, hzero, hone, haccepted, hsent⟩ : ∃ s : State Bool,
      (spoolSystem Params.spooled).Reachable s ∧
      (s.buffers.slots 0).file = some (records .bool [true, false, true]) ∧
      (s.buffers.slots 1).file = some (records .bool []) ∧
      s.history.accepted = [true, false, true] ∧ s.history.stored = [true, false] :=
    ⟨_, hstored, by decide, by decide, rfl, rfl⟩
  have hfiles : (fun i => (s.buffers.slots i).file) = fun i : Fin 2 =>
      (some (![[true, false, true], []] i)).map (records .bool) := by
    funext i
    match i with
    | 0 => exact hzero
    | 1 => exact hone
  refine ⟨s.history, haccepted, hsent, hs.next (.crash ?_)⟩
  have hopen := openSpool_files ItemCodec.bool_lawful fun i =>
    some (![[true, false, true], []] i)
  rw [hfiles]
  exact hopen

/-- The slot is drained again from its first item on, and one more crash may come. -/
theorem stored_at_least_once_crashed :
    ∃ s : State Bool, s.history.accepted = [true, false, true] ∧
      s.history.stored = [true, false, true, false] ∧
      (∃ r, Durable Params.spooled s r) ∧
      ∃ b t, Buffers.openSpool .bool (some fun i => (s.buffers.slots i).file) = some b ∧
        Relation.ReflTransGen (FlusherStep Params.spooled) (.start b s.history.reopened) t ∧
        t.flusher = .selecting ∧ t.history.failed = false ∧
        t.history.accepted = s.history.accepted ∧
        (t.history.accepted : Multiset Bool) ≤ t.history.stored := by
  obtain ⟨h, haccepted, hstored, hcrashed⟩ := crashed_reachable
  have hitems : crashedBuffers.swap.take.1 ≠ [] := by decide
  have hagain := ((hcrashed.next (.step (.flusher (.swapped rfl rfl hitems)))).next
    (.step (.flusher (.chunk rfl hitems)))).next (.step (.flusher (.storeTrue rfl)))
  refine ⟨_, haccepted, ?_, stored_at_least_once _ ItemCodec.bool_lawful id hagain⟩
  exact congrArg (· ++ [true, false]) hstored

end CdvizCollector.Sinks.Batch
