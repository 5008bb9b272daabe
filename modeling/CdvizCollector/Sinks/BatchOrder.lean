import CdvizCollector.Lib.Fifo
import CdvizCollector.Sinks.Batch
import Mathlib.Data.Fin.VecNotation

/-!
The batcher is a first in, first out queue.

What is pending is spread over three places: the rest of the drain in
progress, the sealed slot and the active slot, in this order. No step of either
task moves an item out of that order, so the batcher refines `Lib.Fifo`: a
group reaches the active slot, that is the back of the queue; a `store()` that
returns `true` delivers a chunk off its front; everything else, the swap and
the putting back of a failed drain included, leaves the queue alone.
-/

namespace CdvizCollector.Sinks.Batch

open Lib

variable {α : Type} {P : Params α} {s t : State α}

/-! ### Slots by role -/

@[simp] theorem Buffers.sealed_ne_active (b : Buffers α) : b.sealed ≠ b.active := by
  unfold Buffers.sealed; omega

@[simp] theorem Buffers.active_ne_sealed (b : Buffers α) : b.active ≠ b.sealed :=
  b.sealed_ne_active.symm

@[simp] theorem Buffers.active_set (b : Buffers α) (i : Fin 2) (slot : Slot α) :
    (b.set i slot).active = b.active := rfl

@[simp] theorem Buffers.sealed_set (b : Buffers α) (i : Fin 2) (slot : Slot α) :
    (b.set i slot).sealed = b.sealed := rfl

@[simp] theorem Buffers.slots_set_self (b : Buffers α) (i : Fin 2) (slot : Slot α) :
    (b.set i slot).slots i = slot := Function.update_self ..

@[simp] theorem Buffers.slots_set_of_ne (b : Buffers α) {i j : Fin 2} (slot : Slot α)
    (h : j ≠ i) : (b.set i slot).slots j = b.slots j := Function.update_of_ne h ..

/-- With the roles swapped the former active slot is the sealed one. -/
theorem Buffers.sealed_of_active_sealed (b : Buffers α) :
    ({ b with active := b.sealed } : Buffers α).sealed = b.active := by
  simp only [Buffers.sealed]; omega

/-- A slot is sealed or active. -/
theorem Buffers.eq_sealed_or_active (b : Buffers α) (i : Fin 2) :
    i = b.sealed ∨ i = b.active := by
  unfold Buffers.sealed; omega

theorem Buffers.items_of_allEmpty {b : Buffers α} (h : b.allEmpty = true) (i : Fin 2) :
    (b.slots i).items = [] := by
  simp only [Buffers.allEmpty, Bool.and_eq_true, List.isEmpty_iff] at h
  match i with
  | 0 => exact h.1
  | 1 => exact h.2

/-- `swap` and `take` move items between the roles without reordering them: the
items taken, then what the two slots are left with, are what the two slots
held. -/
theorem Buffers.swap_take (b : Buffers α) :
    b.swap.take.1 ++ ((b.swap.take.2.slots b.swap.take.2.sealed).items ++
        (b.swap.take.2.slots b.swap.take.2.active).items) =
      (b.slots b.sealed).items ++ (b.slots b.active).items ∧
    b.swap.take.2.sealed = b.swap.sealed ∧
    (b.swap.take.2.slots b.swap.sealed).items = [] := by
  unfold Buffers.take Buffers.swap
  split
  · rename_i hempty
    have hnil : (b.slots b.sealed).items = [] := List.isEmpty_iff.mp hempty
    simp [Buffers.sealed_of_active_sealed, hnil]
  · simp

/-! ### The drain in progress -/

/-- The items the running drain holds and that are not acknowledged. -/
def Flusher.taken : Flusher α → List α
  | .chunking _ _ items stored | .storing _ _ items stored _
  | .puttingBack _ _ items stored => items.drop stored
  | _ => []

/-- The slot whose items the running drain took. -/
def Flusher.draining : Flusher α → Option (Fin 2)
  | .chunking _ i _ _ | .storing _ i _ _ _ | .puttingBack _ i _ _ | .truncating _ i => some i
  | _ => none

@[simp] theorem Flusher.taken_chunking (d : Drain) (i : Fin 2) (items : List α) (n : ℕ) :
    (Flusher.chunking d i items n).taken = items.drop n := rfl

@[simp] theorem Flusher.taken_storing (d : Drain) (i : Fin 2) (items chunk : List α) (n : ℕ) :
    (Flusher.storing d i items n chunk).taken = items.drop n := rfl

@[simp] theorem Flusher.taken_puttingBack (d : Drain) (i : Fin 2) (items : List α) (n : ℕ) :
    (Flusher.puttingBack d i items n).taken = items.drop n := rfl

@[simp] theorem Flusher.taken_truncating (d : Drain) (i : Fin 2) :
    (Flusher.truncating d i : Flusher α).taken = [] := rfl

@[simp] theorem Flusher.taken_swapping (d : Drain) :
    (Flusher.swapping d : Flusher α).taken = [] := rfl

@[simp] theorem Flusher.taken_checking (d : Drain) :
    (Flusher.checking d : Flusher α).taken = [] := rfl

@[simp] theorem Flusher.taken_selecting : (Flusher.selecting : Flusher α).taken = [] := rfl

@[simp] theorem Drain.taken_drained (d : Drain) : (d.drained : Flusher α).taken = [] := by
  cases d <;> rfl

@[simp] theorem Drain.draining_drained (d : Drain) : (d.drained : Flusher α).draining = none := by
  cases d <;> rfl

/-! Ending an arm changes the position of the flusher and the acknowledgements
only, and the flusher holds nothing afterwards. -/

@[simp] theorem Drain.buffers_finish (d : Drain) (s : State α) :
    (d.finish s).buffers = s.buffers := by
  match d with
  | .startup | .tick | .flush (some _) | .flush none => rfl

@[simp] theorem Drain.history_finish (d : Drain) (s : State α) :
    (d.finish s).history = s.history := by
  match d with
  | .startup | .tick | .flush (some _) | .flush none => rfl

@[simp] theorem Drain.writer_finish (d : Drain) (s : State α) :
    (d.finish s).writer = s.writer := by
  match d with
  | .startup | .tick | .flush (some _) | .flush none => rfl

theorem Drain.flusher_finish (d : Drain) (s : State α) :
    (d.finish s).flusher = .selecting ∨ (d.finish s).flusher = .stopped := by
  match d with
  | .startup | .tick | .flush (some _) => exact .inl rfl
  | .flush none => exact .inr rfl

@[simp] theorem Drain.draining_finish (d : Drain) (s : State α) :
    (d.finish s).flusher.draining = none := by
  rcases d.flusher_finish s with h | h <;> rw [h] <;> rfl

@[simp] theorem Drain.taken_finish (d : Drain) (s : State α) :
    (d.finish s).flusher.taken = [] := by
  rcases d.flusher_finish s with h | h <;> rw [h] <;> rfl

/-- Everything the batcher holds, in the order it will be stored. -/
def State.pending (s : State α) : List α :=
  s.flusher.taken ++ (s.sealed.items ++ s.active.items)

theorem pending_of_allEmpty (htaken : s.flusher.taken = []) (h : s.buffers.allEmpty = true) :
    s.pending = [] := by
  simp only [State.pending, State.sealed, State.active, htaken, Buffers.items_of_allEmpty h,
    List.append_nil]

/-- What called the drain in progress. -/
def Flusher.caller : Flusher α → Option Drain
  | .swapping d | .chunking d _ _ _ | .storing d _ _ _ _ | .puttingBack d _ _ _
  | .truncating d _ | .checking d => some d
  | .selecting | .stopped => none

/-- The startup drain looks at both slots, so it is not over with one of them. -/
theorem Drain.caller_drained {d : Drain} (h : some d = some Drain.startup) :
    (d.drained : Flusher α).caller = some .startup := by
  cases h
  rfl

/-- What a step may rely on: a drain in progress is on the sealed slot, which it
left empty, the chunk being stored is the next one, and items are put back only
when there are some and a `store()` failed. -/
structure Draining (P : Params α) (s : State α) : Prop where
  sealed : ∀ i, s.flusher.draining = some i →
    i = s.buffers.sealed ∧ (s.buffers.slots i).items = []
  chunk : ∀ d i items stored chunk, s.flusher = .storing d i items stored chunk →
    chunk = (items.drop stored).take P.max ∧ chunk ≠ []
  rest : ∀ d i items stored, s.flusher = .puttingBack d i items stored →
    items.drop stored ≠ [] ∧ s.history.failed = true

/-! ### What a step can do -/

/-- A step of the writer: at most the active slot grows, by items that are then
accepted. -/
structure WriterEffect (s t : State α) (items : List α) : Prop where
  flusher : t.flusher = s.flusher
  roles : t.buffers.active = s.buffers.active
  sealed : t.sealed = s.sealed
  active : t.active.items = s.active.items ++ items
  history : t.history = { s.history with accepted := s.history.accepted ++ items }

theorem WriterStep.effect (h : WriterStep P s t) : ∃ items, WriterEffect s t items := by
  cases h with
  | pushExtended hpc =>
      rename_i items next
      exact ⟨items, rfl, rfl, by simp [State.sealed], by simp [State.active, Slot.extend], rfl⟩
  | pushWritten | pushWriteFails =>
      exact ⟨[], rfl, rfl, by simp [State.sealed], by simp [State.active, Slot.writeAll], by simp⟩
  | _ => exact ⟨[], rfl, rfl, rfl, by simp [State.active], by simp⟩

/-- A callers' step touches the command channel only. -/
theorem ClientStep.effect (h : ClientStep P s t) :
    t.buffers = s.buffers ∧ t.flusher = s.flusher ∧ t.history = s.history ∧
      t.writer = s.writer := by
  cases h <;> exact ⟨rfl, rfl, rfl, rfl⟩

theorem Params.max_pos (P : Params α) : 0 < P.max := by
  simp only [Params.max]; exact Nat.lt_of_lt_of_le Nat.one_pos (Nat.le_max_right _ _)

theorem WriterEffect.draining {items : List α} (h : WriterEffect s t items)
    (hs : Draining P s) : Draining P t where
  sealed i hi := by
    obtain ⟨rfl, hnil⟩ := hs.sealed i (h.flusher ▸ hi)
    have hsealed : t.buffers.sealed = s.buffers.sealed := by
      simp only [Buffers.sealed, h.roles]
    refine ⟨hsealed.symm, ?_⟩
    have hslot := congrArg Slot.items h.sealed
    simp only [State.sealed, hsealed] at hslot
    rw [hslot, hnil]
  chunk d i items stored chunk hpc := hs.chunk d i items stored chunk (h.flusher ▸ hpc)
  rest d i items stored hpc := by
    simpa only [h.history] using hs.rest d i items stored (h.flusher ▸ hpc)

theorem Draining.of_idle (hdrain : t.flusher.draining = none) : Draining P t where
  sealed i hi := by simp [hdrain] at hi
  chunk d i items stored chunk hpc := by simp [hpc, Flusher.draining] at hdrain
  rest d i items stored hpc := by simp [hpc, Flusher.draining] at hdrain

/-- The chunk being stored is a front part of what the drain still holds. -/
theorem Draining.split {d : Drain} {i : Fin 2} {items chunk : List α} {n : ℕ}
    (hs : Draining P s) (hpc : s.flusher = .storing d i items n chunk) :
    items.drop n = chunk ++ items.drop (n + chunk.length) := by
  obtain ⟨hchunk, -⟩ := hs.chunk _ _ _ _ _ hpc
  have htake : (items.drop n).take chunk.length = chunk := by
    rw [hchunk, List.length_take, List.take_eq_take_iff]
    omega
  calc items.drop n
      = (items.drop n).take chunk.length ++ (items.drop n).drop chunk.length :=
        (List.take_append_drop _ _).symm
    _ = chunk ++ items.drop (n + chunk.length) := by rw [htake, List.drop_drop]

/-- A chunk taken at the head of the loop over the chunks. -/
theorem Params.take_ne_nil (P : Params α) {items : List α} (h : items ≠ []) :
    items.take P.max ≠ [] := by
  have := P.max_pos
  simpa [List.take_eq_nil_iff] using ⟨by omega, h⟩

theorem FlusherStep.draining (h : FlusherStep P s t) (hs : Draining P s) : Draining P t := by
  cases h with
  | swapped =>
      obtain ⟨_, hsealed, hnil⟩ := s.buffers.swap_take
      exact ⟨by simpa [Flusher.draining, hsealed] using hnil, by simp, by simp⟩
  | chunk hpc hrest =>
      refine ⟨fun j hj => hs.sealed j (by simpa [hpc, Flusher.draining] using hj), ?_, by simp⟩
      intro d' i' items' stored' chunk' heq
      simp only [Flusher.storing.injEq] at heq
      obtain ⟨-, -, rfl, rfl, rfl⟩ := heq
      exact ⟨rfl, P.take_ne_nil hrest⟩
  | storeFalse hpc =>
      refine ⟨fun j hj => hs.sealed j (by simpa [hpc, Flusher.draining] using hj), by simp, ?_⟩
      intro d' i' items' stored' heq
      simp only [Flusher.puttingBack.injEq] at heq
      obtain ⟨-, -, rfl, rfl⟩ := heq
      exact ⟨by simp [hs.split hpc, (hs.chunk _ _ _ _ _ hpc).2], rfl⟩
  | chunksDone hpc | storeTrue hpc =>
      exact ⟨fun j hj => hs.sealed j (by simpa [hpc, Flusher.draining] using hj), by simp, by simp⟩
  | putBack | checkedEmpty => exact .of_idle (Drain.draining_finish _ _)
  | swappedEmpty | truncated | truncateFails => exact .of_idle (Drain.draining_drained _)
  | timer | notified | flushReceived | flushClosed | checkedFull => exact .of_idle rfl

theorem draining_invariant (P : Params α) : (system P).Invariant (Draining P) where
  init := by
    rintro s ⟨dir, b, -, rfl⟩
    exact .of_idle rfl
  step := by
    intro s t hs hstep
    cases hstep with
    | client h =>
        obtain ⟨hbuffers, hflusher, hhistory, -⟩ := h.effect
        exact ⟨by rw [hbuffers, hflusher]; exact hs.sealed, by rw [hflusher]; exact hs.chunk,
          by rw [hflusher, hhistory]; exact hs.rest⟩
    | writer h => exact h.effect.elim fun _ heffect => heffect.draining hs
    | flusher h => exact h.draining hs

/-- A step of the flusher: a successful `store()` takes a chunk off the front of
what is pending, any other step leaves all of it where it is in the order. The
records of stored items stay or are dropped, and the startup drain ends without
a failure only with nothing pending. -/
inductive FlusherEffect (P : Params α) (s t : State α) : Prop
  | delivered (chunk : List α) (hpending : s.pending = chunk ++ t.pending) (hne : chunk ≠ [])
      (hlen : chunk.length ≤ P.max) (hcaller : t.flusher.caller = s.flusher.caller)
      (hhistory : t.history = { s.history with
        stored := s.history.stored ++ chunk, kept := s.history.kept ++ chunk })
  | moved (hpending : t.pending = s.pending) (handed : List (List α)) (kept dropped : List α)
      (failed : Bool)
      (hhistory : t.history = { s.history with handed, kept, dropped, failed })
      (hhanded : ∀ chunk ∈ handed, chunk ∈ s.history.handed ∨
        chunk ≠ [] ∧ chunk.length ≤ P.max)
      (hrecord : dropped ++ kept = s.history.dropped ++ s.history.kept)
      (hfailed : failed = false → s.history.failed = false)
      (hcaller : s.flusher.caller = some .startup → t.flusher.caller = some .startup ∨
        failed = true ∨ s.pending = [])

theorem FlusherStep.effect (h : FlusherStep P s t) (hs : Draining P s) :
    FlusherEffect P s t := by
  -- the steps that keep the history as it is
  have moved : ∀ {t : State α}, t.pending = s.pending → t.history = s.history →
      (s.flusher.caller = some .startup → t.flusher.caller = some .startup ∨
        s.history.failed = true ∨ s.pending = []) → FlusherEffect P s t := by
    intro t hpending hhistory hcaller
    exact .moved hpending s.history.handed s.history.kept s.history.dropped s.history.failed
      hhistory (fun _ => .inl) rfl id hcaller
  cases h with
  | swapped hpc hlock hitems =>
      refine moved ?_ rfl fun hstart => .inl (by simpa [hpc, Flusher.caller] using hstart)
      simp only [State.pending, State.sealed, State.active, hpc, Flusher.taken_chunking,
        Flusher.taken_swapping, List.drop_zero, List.nil_append, s.buffers.swap_take.1]
  | swappedEmpty hpc hlock hnil =>
      have hmoved := s.buffers.swap_take.1
      rw [hnil, List.nil_append] at hmoved
      refine moved ?_ rfl fun hstart => .inl (Drain.caller_drained (by rwa [hpc] at hstart))
      simp only [State.pending, State.sealed, State.active, hpc, Drain.taken_drained,
        Flusher.taken_swapping, hmoved]
  | chunk hpc hrest =>
      refine .moved (by simp [State.pending, State.sealed, State.active, hpc]) _ _ _ _ rfl ?_ rfl id
        fun hstart => .inl (by simpa [hpc, Flusher.caller] using hstart)
      intro c hc
      rcases List.mem_append.mp hc with hc | hc
      · exact .inl hc
      · rw [List.mem_singleton.mp hc]
        exact .inr ⟨P.take_ne_nil hrest, List.length_take_le _ _⟩
  | chunksDone hpc hrest =>
      exact moved (by simp [State.pending, State.sealed, State.active, hpc, hrest]) rfl
        fun hstart => .inl (by simpa [hpc, Flusher.caller] using hstart)
  | storeTrue hpc =>
      rename_i d i items chunk stored
      obtain ⟨hchunk, hne⟩ := hs.chunk _ _ _ _ _ hpc
      refine .delivered chunk ?_ hne (hchunk ▸ List.length_take_le _ _)
        (by simp [hpc, Flusher.caller]) rfl
      simp [State.pending, State.sealed, State.active, hpc, hs.split hpc]
  | storeFalse hpc =>
      exact .moved (by simp [State.pending, State.sealed, State.active, hpc]) _ _ _ _ rfl
        (fun _ => .inl) rfl (by simp) (by simp)
  | putBack hpc hlock =>
      rename_i d i items stored
      obtain ⟨rfl, hnil⟩ := hs.sealed i (by simp [hpc, Flusher.draining])
      exact moved (by simp [State.pending, State.sealed, State.active, hpc, hnil]) (by simp)
        fun _ => .inr (.inl (hs.rest _ _ _ _ hpc).2)
  | truncated hpc hlock =>
      rename_i d i
      obtain ⟨rfl, -⟩ := hs.sealed i (by simp [hpc, Flusher.draining])
      refine .moved (by simp [State.pending, State.sealed, State.active, hpc, Slot.truncate])
        _ _ _ _ rfl (fun _ => .inl) (by simp) id fun hstart =>
          .inl (Drain.caller_drained (by rwa [hpc] at hstart))
  | truncateFails hio hpc hlock =>
      exact moved (by simp [State.pending, State.sealed, State.active, hpc]) rfl
        fun hstart => .inl (Drain.caller_drained (by rwa [hpc] at hstart))
  | checkedEmpty hpc hlock hempty =>
      exact moved (by simp [State.pending, State.sealed, State.active, hpc]) (by simp)
        fun _ => .inr (.inr (pending_of_allEmpty (by rw [hpc]; rfl) hempty))
  | checkedFull hpc =>
      exact moved (by simp [State.pending, State.sealed, State.active, hpc]) rfl
        fun hstart => .inl (by simpa [hpc, Flusher.caller] using hstart)
  | timer hpc | notified hpc | flushReceived hpc | flushClosed hpc =>
      exact moved (by simp [State.pending, State.sealed, State.active, hpc]) rfl
        (by simp [hpc, Flusher.caller])

/-! ### Refinement -/

/-- The batcher as a queue. -/
def State.fifo (s : State α) : Fifo α :=
  { accepted := s.history.accepted, pending := s.pending, delivered := s.history.stored }

/-- The batcher refines a first in, first out queue that delivers at most
`batch_max_size` items at once. -/
theorem refines_fifo (P : Params α) :
    System.Refines (system P) (Fifo.system α P.max) (Draining P) State.fifo where
  inv := draining_invariant P
  init := by
    rintro s ⟨dir, b, -, rfl⟩
    exact ⟨rfl, rfl⟩
  step := by
    intro s t hs hstep
    cases hstep with
    | client h =>
        obtain ⟨hbuffers, hflusher, hhistory, -⟩ := h.effect
        right
        simp only [State.fifo, State.pending, State.sealed, State.active, hbuffers, hflusher,
          hhistory]
    | writer h =>
        obtain ⟨items, heffect⟩ := h.effect
        have henqueue := Fifo.Step.enqueue (n := P.max) (q := s.fifo) items
        left
        have hfifo : t.fifo = { s.fifo with
            accepted := s.fifo.accepted ++ items, pending := s.fifo.pending ++ items } := by
          simp [State.fifo, State.pending, heffect.flusher, heffect.sealed, heffect.active,
            heffect.history]
        rw [hfifo]
        exact henqueue
    | flusher h =>
        cases h.effect hs with
        | delivered chunk hpending hne hlen _ hhistory =>
            left
            have hdeliver := Fifo.Step.deliver (q := s.fifo) chunk t.pending hpending hne hlen
            rw [show t.fifo = { s.fifo with
                pending := t.pending, delivered := s.fifo.delivered ++ chunk } by
              simp only [State.fifo, hhistory]]
            exact hdeliver
        | moved hpending _ _ _ _ hhistory =>
            right
            simp only [State.fifo, hpending, hhistory]

/-! ### Chunks -/

/-- Every chunk handed to `store()` is non-empty and within the limit. -/
def Handed (P : Params α) (s : State α) : Prop :=
  ∀ chunk ∈ s.history.handed, chunk ≠ [] ∧ chunk.length ≤ P.max

theorem handed_invariant (P : Params α) :
    (system P).Invariant (fun s => Draining P s ∧ Handed P s) where
  init := by
    rintro s ⟨dir, b, hopen, rfl⟩
    refine ⟨.of_idle rfl, fun chunk hchunk => ?_⟩
    simp [State.start, History.opened] at hchunk
  step := by
    rintro s t ⟨hs, hhanded⟩ hstep
    refine ⟨(draining_invariant P).step hs hstep, ?_⟩
    cases hstep with
    | client h => simpa only [Handed, h.effect.2.2.1] using hhanded
    | writer h =>
        obtain ⟨items, heffect⟩ := h.effect
        simpa only [Handed, heffect.history] using hhanded
    | flusher h =>
        cases h.effect hs with
        | delivered _ _ _ _ _ hhistory => simpa only [Handed, hhistory] using hhanded
        | moved _ _ _ _ _ hhistory hnew =>
            intro chunk hchunk
            rw [hhistory] at hchunk
            exact (hnew chunk hchunk).elim (hhanded chunk) id

/-- No item is lost, duplicated or reordered, and no chunk is empty or too
large, in whatever order the two tasks, the triggers and the outcomes of
`store()` come. -/
theorem delivers_in_order (P : Params α) {s : State α} (h : (system P).Reachable s) :
    s.history.stored ++ s.flusher.taken ++ s.sealed.items ++ s.active.items =
        s.history.accepted ∧
      ∀ chunk ∈ s.history.handed, chunk ≠ [] ∧ chunk.length ≤ max 1 P.batchMaxSize := by
  refine ⟨?_, ?_⟩
  · have hconserved := (refines_fifo P).transfer (Fifo.conserved_invariant P.max) h
    simpa [Fifo.Conserved, State.fifo, State.pending] using hconserved
  · intro chunk hchunk
    have hhanded := ((handed_invariant P).holds h).2 chunk hchunk
    exact ⟨hhanded.1, hhanded.2.trans_eq (Nat.max_comm _ _)⟩

/-- Without a spool, chunks of two items. -/
def Params.pairs : Params Bool := { codec := .bool, batchMaxSize := 2, ioFails := False }

/-- Two items were refused and put back, and one was pushed meanwhile. -/
def refusedState : State Bool where
  buffers :=
    { slots := ![{ items := [true, false], file := none }, { items := [true], file := none }]
      active := .last 1 }
  rx := []
  txOpen := true
  writer := .receiving
  notify := true
  flushRx := []
  flusher := .selecting
  acks := []
  history :=
    { accepted := [true, false, true], stored := [], handed := [[true, false]], kept := []
      dropped := [], owed := [], failed := true }

theorem refusedState_reachable : (system Params.pairs).Reachable refusedState := by
  have hstart : (system Params.pairs).Reachable _ := .init ⟨none, _, rfl, rfl⟩
  have hpush := (hstart.next (.client (.push true rfl (by decide)))).next
    (.client (.push false rfl (by decide)))
  have hrecv := hpush.next (.writer (.recvMany 2 rfl (by decide) (by decide) (by decide)))
  have hscan := ((hrecv.next (.writer (.scanPush rfl))).next (.writer (.scanPush rfl))).next
    (.writer (.scanEnd rfl))
  have hgroup := ((hscan.next (.writer (.pushUnspooled rfl (by decide) rfl))).next
    (.writer (.pushExtended rfl))).next (.writer (.pushNotified rfl))
  -- the drain at startup hands the group to `store()`
  have hstoring := (hgroup.next (.flusher (.swapped rfl rfl (by decide)))).next
    (.flusher (.chunk rfl (by decide)))
  -- meanwhile an item is pushed
  have hlate := (hstoring.next (.client (.push true rfl (by decide)))).next
    (.writer (.recvMany 1 rfl (by decide) (by decide) (by decide)))
  have hscanned := (hlate.next (.writer (.scanPush rfl))).next (.writer (.scanEnd rfl))
  have hextended := ((hscanned.next (.writer (.pushUnspooled rfl (by decide) rfl))).next
    (.writer (.pushExtended rfl))).next (.writer (.pushNotified rfl))
  have hrefused := (hextended.next (.flusher (.storeFalse rfl))).next (.flusher (.putBack rfl rfl))
  obtain ⟨s, hs, hrest, hzero, hone, hactive⟩ : ∃ s, (system Params.pairs).Reachable s ∧
      { s with buffers := refusedState.buffers } = refusedState ∧
      s.buffers.slots 0 = refusedState.buffers.slots 0 ∧
      s.buffers.slots 1 = refusedState.buffers.slots 1 ∧ s.buffers.active = 1 :=
    ⟨_, hrefused, rfl, rfl, rfl, rfl⟩
  have hslots : s.buffers.slots = refusedState.buffers.slots := by
    funext i
    match i with
    | 0 => exact hzero
    | 1 => exact hone
  have hbuffers : s.buffers = refusedState.buffers := by
    rcases hparts : s.buffers with ⟨slots, active⟩
    rw [hparts] at hslots hactive
    obtain rfl : slots = _ := hslots
    obtain rfl : active = 1 := hactive
    rfl
  rw [← hrest, ← hbuffers]
  exact hs

/-- Two groups of items: the first chunk is refused and put back, an item is pushed meanwhile,
and all is stored in the end. -/
theorem delivers_in_order_retried :
    ∃ s, (system Params.pairs).Reachable s ∧ s.history.failed = true ∧
      s.history.handed = [[true, false], [true, false], [true]] ∧
      s.history.stored ++ s.flusher.taken ++ s.sealed.items ++ s.active.items =
        [true, false, true] ∧
      ∀ chunk ∈ s.history.handed, chunk ≠ [] ∧ chunk.length ≤ max 1 2 := by
  have hretried := refusedState_reachable.next (.flusher (.notified rfl rfl))
  have hstored := ((hretried.next (.flusher (.swapped rfl rfl (by decide)))).next
    (.flusher (.chunk rfl (by decide)))).next (.flusher (.storeTrue rfl))
  have hdone := (hstored.next (.flusher (.chunksDone rfl rfl))).next (.flusher (.truncated rfl rfl))
  -- the slots change roles, and the late item is taken
  have hlast := ((hdone.next (.flusher (.timer rfl))).next
    (.flusher (.swapped rfl rfl (by decide)))).next (.flusher (.chunk rfl (by decide)))
  exact ⟨_, hlast, rfl, rfl, delivers_in_order Params.pairs hlast⟩

end CdvizCollector.Sinks.Batch
