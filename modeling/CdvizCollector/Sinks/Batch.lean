import CdvizCollector.Lib.System
import CdvizCollector.Lib.Text
import Mathlib.Data.Fin.Basic
import Mathlib.Logic.Function.Basic

/-!
The double-buffer batcher of the database sinks (`sinks/batch.rs`).

Two tasks share two slots. The writer appends what it receives to the active
slot; the flusher swaps the slots and stores the sealed one in chunks. They
meet only at the mutex around the buffers, so the unit of interleaving is what
one task does between two suspension points or two lock operations, and each
such piece of `run_writer`, `push_items`, `run_flusher`, `drain_all` and
`drain_sealed` is one step below. A spooled `push_all` is three steps, since a
crash may fall between its file operations.

The outcome of `store()`, the arm `select!` takes and the size of the groups
`recv_many` returns are left open: a run may choose any of them at each step.
-/

namespace CdvizCollector.Sinks.Batch

open Lib

variable {α : Type}

/-! ### Spool files -/

/-- `serde_json::to_writer` and `serde_json::from_str` at the item type. -/
structure ItemCodec (α : Type) where
  toWriter : α → String
  fromStr : String → Option α

/-- What is documented of them: compact JSON has no line break, is not blank,
and is read back as the item it was written from. -/
structure ItemCodec.Lawful (J : ItemCodec α) : Prop where
  fromStr_toWriter : ∀ x, J.fromStr (J.toWriter x) = some x
  no_newline : ∀ x, '\n' ∉ (J.toWriter x).toList
  no_return : ∀ x, '\r' ∉ (J.toWriter x).toList
  not_blank : ∀ x, Text.isBlank (J.toWriter x) = false

def ItemCodec.bool : ItemCodec Bool where
  toWriter b := if b then "true" else "false"
  fromStr text := if text = "true" then some true else if text = "false" then some false else none

theorem ItemCodec.bool_lawful : ItemCodec.bool.Lawful where
  fromStr_toWriter b := by cases b <;> decide
  no_newline b := by cases b <;> decide
  no_return b := by cases b <;> decide
  not_blank b := by cases b <;> decide

/-- One of the two buffers: items in memory, mirrored to a file if spooling. -/
structure Slot (α : Type) where
  items : List α
  file : Option (List UInt8)

def Slot.new : Slot α := { items := [], file := none }

/-- The lines of a spool file as items. A blank line is passed over, an
unreadable one is skipped with a warning; one that is not UTF-8 is an error of
`BufRead::lines`, which `open` propagates. -/
def readItems (J : ItemCodec α) : List (List UInt8) → Option (List α)
  | [] => some []
  | line :: rest =>
      match Text.decodeUtf8 line with
      | none => none
      | some text =>
          if Text.isBlank text then readItems J rest
          else
            match J.fromStr text with
            | some item => (readItems J rest).map (item :: ·)
            | none => readItems J rest

abbrev LF : UInt8 := 10
abbrev CR : UInt8 := 13

/-- `Slot::open`, on the content of the file when there is one. -/
def Slot.openSpool (J : ItemCodec α) (content : Option (List UInt8)) : Option (Slot α) :=
  match content with
  | none => some { items := [], file := some [] }
  | some bytes =>
      (readItems J (Text.lines LF CR bytes)).map fun items => { items, file := some bytes }

/-- The records of a group: each is a line feed, then the item as JSON. -/
def records (J : ItemCodec α) (items : List α) : List UInt8 :=
  items.flatMap fun item => LF :: Text.utf8 (J.toWriter item)

def Slot.writeAll (J : ItemCodec α) (slot : Slot α) (items : List α) : Slot α :=
  { slot with file := slot.file.map (· ++ records J items) }

def Slot.extend (slot : Slot α) (items : List α) : Slot α :=
  { slot with items := slot.items ++ items }

def Slot.truncate (slot : Slot α) : Slot α :=
  { slot with file := slot.file.map fun _ => [] }

/-! ### The double buffer -/

structure Buffers (α : Type) where
  slots : Fin 2 → Slot α
  active : Fin 2

/-- The slot that is not the active one, `1 - buffers.active`. -/
def Buffers.sealed (b : Buffers α) : Fin 2 := 1 - b.active

/-- `Buffers::open`; `dir` holds what is found under `spool-0.jsonl` and
`spool-1.jsonl`. -/
def Buffers.openSpool (J : ItemCodec α) (dir : Option (Fin 2 → Option (List UInt8))) :
    Option (Buffers α) :=
  match dir with
  | none => some { slots := fun _ => Slot.new, active := 0 }
  | some files =>
      (Slot.openSpool J (files 0)).bind fun s0 =>
        (Slot.openSpool J (files 1)).map fun s1 =>
          { slots := fun i => if i = 0 then s0 else s1, active := 0 }

def Buffers.ofRecords (J : ItemCodec α) (r : Fin 2 → List α) : Buffers α :=
  { slots := fun i => { items := r i, file := some (records J (r i)) }, active := 0 }

def Buffers.set (b : Buffers α) (i : Fin 2) (slot : Slot α) : Buffers α :=
  { b with slots := Function.update b.slots i slot }

/-- The slots change roles unless the sealed one still holds items. -/
def Buffers.swap (b : Buffers α) : Buffers α :=
  if (b.slots b.sealed).items.isEmpty then { b with active := b.sealed } else b

def Buffers.take (b : Buffers α) : List α × Buffers α :=
  ((b.slots b.sealed).items, b.set b.sealed { b.slots b.sealed with items := [] })

def Buffers.allEmpty (b : Buffers α) : Bool :=
  (b.slots 0).items.isEmpty && (b.slots 1).items.isEmpty

/-! ### The two tasks -/

/-- A push, or a flush with the `oneshot` sender that acknowledges it. -/
inductive BatchCmd (α : Type) where
  | push (item : α)
  | flush (ack : ℕ)

/-- Where `run_writer` goes on after `push_items`: it forwards a flush and
scans the commands after it, or it is done with the group it received. -/
inductive AfterPush (α : Type) where
  | forward (ack : ℕ) (cmds : List (BatchCmd α))
  | receive

/-- The position of `run_writer`. In `written` and `extending` it holds the
lock. -/
inductive Writer (α : Type) where
  | receiving
  | scanning (cmds : List (BatchCmd α)) (items : List α)
  | pushing (items : List α) (next : AfterPush α)
  | written (items : List α) (next : AfterPush α)
  | extending (items : List α) (next : AfterPush α)
  | notifying (len : ℕ) (next : AfterPush α)
  | forwarding (ack : ℕ) (cmds : List (BatchCmd α))
  | stopped

def AfterPush.writer : AfterPush α → Writer α
  | .forward ack cmds => .forwarding ack cmds
  | .receive => .receiving

def Writer.holdsLock : Writer α → Bool
  | .written _ _ | .extending _ _ => true
  | _ => false

/-- What called `drain_sealed`: the drain at startup, the timer or the full
batch, or a flush received from the writer (`none` once it is gone). -/
inductive Drain where
  | startup
  | tick
  | flush (received : Option ℕ)

/-- The position of `run_flusher`. `chunking` is the head of the loop over the
chunks; during `storing` the task is suspended in `store(chunk)`. -/
inductive Flusher (α : Type) where
  | selecting
  | swapping (d : Drain)
  | chunking (d : Drain) (sealed : Fin 2) (items : List α) (stored : ℕ)
  | storing (d : Drain) (sealed : Fin 2) (items : List α) (stored : ℕ) (chunk : List α)
  | puttingBack (d : Drain) (sealed : Fin 2) (items : List α) (stored : ℕ)
  | truncating (d : Drain) (sealed : Fin 2)
  | checking (d : Drain)
  | stopped

/-- What is recorded of a run and no task reads. -/
structure History (α : Type) where
  /-- Items appended to a slot, in order. -/
  accepted : List α
  /-- Items of the chunks for which `store()` returned `true`, in order. -/
  stored : List α
  /-- Chunks handed to `store()`. -/
  handed : List (List α)
  /-- Stored items of the sealed slot that its file still records. -/
  kept : List α
  /-- Items whose record was removed by a truncation. -/
  dropped : List α
  /-- Items accepted before the buffers were last opened. -/
  owed : List α
  /-- Whether a `store()` returned `false` since then. -/
  failed : Bool

structure State (α : Type) where
  buffers : Buffers α
  rx : List (BatchCmd α)
  txOpen : Bool
  writer : Writer α
  notify : Bool
  flushRx : List ℕ
  flusher : Flusher α
  acks : List ℕ
  history : History α

/-- The configuration of a batcher, and whether its environment may fail a
spool operation. -/
structure Params (α : Type) where
  codec : ItemCodec α
  batchMaxSize : ℕ
  ioFails : Prop

def Params.max (P : Params α) : ℕ := Nat.max P.batchMaxSize 1

/-- `Batcher::start`: both tasks spawned, the flusher about to drain what a
previous run left. -/
def State.start (b : Buffers α) (h : History α) : State α :=
  { buffers := b, rx := [], txOpen := true, writer := .receiving, notify := false,
    flushRx := [], flusher := .swapping .startup, acks := [], history := h }

/-- Items found in the spool count as accepted, in the order of the drains. -/
def History.opened (b : Buffers α) : History α :=
  let items := (b.slots b.sealed).items ++ (b.slots b.active).items
  { accepted := items, stored := [], handed := [], kept := [], dropped := [], owed := items,
    failed := false }

def State.active (s : State α) : Slot α := s.buffers.slots s.buffers.active

def State.sealed (s : State α) : Slot α := s.buffers.slots s.buffers.sealed

/-! ### Steps -/

/-- The callers of `push` and `flush`, waiting while the channel is full. -/
inductive ClientStep (P : Params α) : State α → State α → Prop
  | push {s : State α} (item : α) (hopen : s.txOpen = true) (hroom : s.rx.length < P.max) :
      ClientStep P s { s with rx := s.rx ++ [.push item] }
  | flush {s : State α} (ack : ℕ) (hopen : s.txOpen = true) (hroom : s.rx.length < P.max) :
      ClientStep P s { s with rx := s.rx ++ [.flush ack] }
  | drop {s : State α} : ClientStep P s { s with txOpen := false }

/-- `run_writer` with `push_items` and `Slot::push_all`. -/
inductive WriterStep (P : Params α) : State α → State α → Prop
  | recvMany {s : State α} (n : ℕ) (hpc : s.writer = .receiving) (hpos : 0 < n)
      (hmax : n ≤ P.max) (hlen : n ≤ s.rx.length) :
      WriterStep P s { s with writer := .scanning (s.rx.take n) [], rx := s.rx.drop n }
  | recvClosed {s : State α} (hpc : s.writer = .receiving) (hrx : s.rx = [])
      (hclosed : s.txOpen = false) :
      WriterStep P s { s with writer := .stopped }
  | scanPush {s : State α} {item : α} {cmds : List (BatchCmd α)} {items : List α}
      (hpc : s.writer = .scanning (.push item :: cmds) items) :
      WriterStep P s { s with writer := .scanning cmds (items ++ [item]) }
  | scanFlush {s : State α} {ack : ℕ} {cmds : List (BatchCmd α)} {items : List α}
      (hpc : s.writer = .scanning (.flush ack :: cmds) items) :
      WriterStep P s { s with writer := .pushing items (.forward ack cmds) }
  | scanEnd {s : State α} {items : List α} (hpc : s.writer = .scanning [] items) :
      WriterStep P s { s with writer := .pushing items .receive }
  | pushNothing {s : State α} {next : AfterPush α} (hpc : s.writer = .pushing [] next) :
      WriterStep P s { s with writer := next.writer }
  -- without a file the lock is taken for the extension alone
  | pushUnspooled {s : State α} {items : List α} {next : AfterPush α}
      (hpc : s.writer = .pushing items next) (hitems : items ≠ [])
      (hfile : s.active.file = none) :
      WriterStep P s { s with writer := .extending items next }
  | pushWritten {s : State α} {items : List α} {next : AfterPush α}
      (hpc : s.writer = .pushing items next) (hitems : items ≠ [])
      (hfile : s.active.file ≠ none) :
      WriterStep P s { s with
        writer := .written items next
        buffers := s.buffers.set s.buffers.active (s.active.writeAll P.codec items) }
  -- a failed write leaves some prefix of the records behind
  | pushWriteFails {s : State α} {items : List α} {next : AfterPush α} {file : List UInt8}
      (n : ℕ) (hio : P.ioFails) (hpc : s.writer = .pushing items next) (hitems : items ≠ [])
      (hfile : s.active.file = some file) :
      WriterStep P s { s with
        writer := .extending items next
        buffers := s.buffers.set s.buffers.active
          { s.active with file := some (file ++ (records P.codec items).take n) } }
  | pushSynced {s : State α} {items : List α} {next : AfterPush α}
      (hpc : s.writer = .written items next) :
      WriterStep P s { s with writer := .extending items next }
  | pushExtended {s : State α} {items : List α} {next : AfterPush α}
      (hpc : s.writer = .extending items next) :
      WriterStep P s { s with
        writer := .notifying (s.active.extend items).items.length next
        buffers := s.buffers.set s.buffers.active (s.active.extend items)
        history := { s.history with accepted := s.history.accepted ++ items } }
  | pushNotified {s : State α} {len : ℕ} {next : AfterPush α}
      (hpc : s.writer = .notifying len next) :
      WriterStep P s { s with
        writer := next.writer
        notify := s.notify || decide (P.max ≤ len) }
  | flushSent {s : State α} {ack : ℕ} {cmds : List (BatchCmd α)}
      (hpc : s.writer = .forwarding ack cmds) (hroom : s.flushRx = []) :
      WriterStep P s { s with writer := .scanning cmds [], flushRx := [ack] }
  | flushClosed {s : State α} {ack : ℕ} {cmds : List (BatchCmd α)}
      (hpc : s.writer = .forwarding ack cmds) (hgone : s.flusher = .stopped) :
      WriterStep P s { s with writer := .stopped }

/-- Where `run_flusher` is once a drain returned `true`: `drain_all` looks at
both slots, a single drain goes back to the `select!`. -/
def Drain.drained : Drain → Flusher α
  | .tick => .selecting
  | d => .checking d

/-- The end of the work of one arm: a flush is acknowledged, a closed channel
ends the task. -/
def Drain.finish (d : Drain) (s : State α) : State α :=
  match d with
  | .startup | .tick => { s with flusher := .selecting }
  | .flush (some ack) => { s with flusher := .selecting, acks := s.acks ++ [ack] }
  | .flush none => { s with flusher := .stopped }

/-- `run_flusher` with `drain_all` and `drain_sealed`. -/
inductive FlusherStep (P : Params α) : State α → State α → Prop
  | timer {s : State α} (hpc : s.flusher = .selecting) :
      FlusherStep P s { s with flusher := .swapping .tick }
  | notified {s : State α} (hpc : s.flusher = .selecting) (hnotify : s.notify = true) :
      FlusherStep P s { s with flusher := .swapping .tick, notify := false }
  | flushReceived {s : State α} {ack : ℕ} {rest : List ℕ} (hpc : s.flusher = .selecting)
      (hrx : s.flushRx = ack :: rest) :
      FlusherStep P s { s with flusher := .swapping (.flush (some ack)), flushRx := rest }
  | flushClosed {s : State α} (hpc : s.flusher = .selecting) (hrx : s.flushRx = [])
      (hgone : s.writer = .stopped) :
      FlusherStep P s { s with flusher := .swapping (.flush none) }
  | swapped {s : State α} {d : Drain} (hpc : s.flusher = .swapping d)
      (hlock : s.writer.holdsLock = false) (hitems : s.buffers.swap.take.1 ≠ []) :
      FlusherStep P s { s with
        flusher := .chunking d s.buffers.swap.sealed s.buffers.swap.take.1 0
        buffers := s.buffers.swap.take.2 }
  | swappedEmpty {s : State α} {d : Drain} (hpc : s.flusher = .swapping d)
      (hlock : s.writer.holdsLock = false) (hitems : s.buffers.swap.take.1 = []) :
      FlusherStep P s { s with flusher := d.drained, buffers := s.buffers.swap.take.2 }
  | chunk {s : State α} {d : Drain} {i : Fin 2} {items : List α} {stored : ℕ}
      (hpc : s.flusher = .chunking d i items stored) (hrest : items.drop stored ≠ []) :
      FlusherStep P s { s with
        flusher := .storing d i items stored ((items.drop stored).take P.max)
        history := { s.history with
          handed := s.history.handed ++ [(items.drop stored).take P.max] } }
  | chunksDone {s : State α} {d : Drain} {i : Fin 2} {items : List α} {stored : ℕ}
      (hpc : s.flusher = .chunking d i items stored) (hrest : items.drop stored = []) :
      FlusherStep P s { s with flusher := .truncating d i }
  | storeTrue {s : State α} {d : Drain} {i : Fin 2} {items chunk : List α} {stored : ℕ}
      (hpc : s.flusher = .storing d i items stored chunk) :
      FlusherStep P s { s with
        flusher := .chunking d i items (stored + chunk.length)
        history := { s.history with
          stored := s.history.stored ++ chunk
          kept := s.history.kept ++ chunk } }
  | storeFalse {s : State α} {d : Drain} {i : Fin 2} {items chunk : List α} {stored : ℕ}
      (hpc : s.flusher = .storing d i items stored chunk) :
      FlusherStep P s { s with
        flusher := .puttingBack d i items stored
        history := { s.history with failed := true } }
  -- a drain that returned `false` ends its caller too
  | putBack {s : State α} {d : Drain} {i : Fin 2} {items : List α} {stored : ℕ}
      (hpc : s.flusher = .puttingBack d i items stored) (hlock : s.writer.holdsLock = false) :
      FlusherStep P s (d.finish { s with
        buffers := s.buffers.set i { s.buffers.slots i with items := items.drop stored } })
  | truncated {s : State α} {d : Drain} {i : Fin 2} (hpc : s.flusher = .truncating d i)
      (hlock : s.writer.holdsLock = false) :
      FlusherStep P s { s with
        flusher := d.drained
        buffers := s.buffers.set i (s.buffers.slots i).truncate
        history := { s.history with
          kept := []
          dropped := s.history.dropped ++ s.history.kept } }
  | truncateFails {s : State α} {d : Drain} {i : Fin 2} (hio : P.ioFails)
      (hpc : s.flusher = .truncating d i) (hlock : s.writer.holdsLock = false) :
      FlusherStep P s { s with flusher := d.drained }
  | checkedEmpty {s : State α} {d : Drain} (hpc : s.flusher = .checking d)
      (hlock : s.writer.holdsLock = false) (hempty : s.buffers.allEmpty = true) :
      FlusherStep P s (d.finish s)
  | checkedFull {s : State α} {d : Drain} (hpc : s.flusher = .checking d)
      (hlock : s.writer.holdsLock = false) (hfull : s.buffers.allEmpty = false) :
      FlusherStep P s { s with flusher := .swapping d }

inductive Step (P : Params α) : State α → State α → Prop
  | client {s t : State α} (h : ClientStep P s t) : Step P s t
  | writer {s t : State α} (h : WriterStep P s t) : Step P s t
  | flusher {s t : State α} (h : FlusherStep P s t) : Step P s t

def system (P : Params α) : System (State α) where
  init s := ∃ dir b, Buffers.openSpool P.codec dir = some b ∧ s = .start b (.opened b)
  step := Step P

end CdvizCollector.Sinks.Batch
