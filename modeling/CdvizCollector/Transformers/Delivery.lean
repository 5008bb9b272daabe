import CdvizCollector.Transformers.Pipe

/-!
What a chain of transformers delivers to its terminal pipe.

`Delivered` says that all outputs a chain has for an event reached the terminal,
or were dropped as duplicates of ones that did. A send that succeeds delivers,
provided that every key a `deduplicate` remembers stands for a delivered event:
`Remembers`. That invariant breaks in one place only, when a `deduplicate`
records a key and the rest of the chain then refuses the event; `Keeps` says
that a send does not do that.

The terminal pipe is any one that takes note of what it accepts.
-/

namespace CdvizCollector.Transformers

open Lib

variable {σ ω : Type}

/-- The key under which `deduplicate` remembers an event, if it does. -/
def dedupKey (text : Json → String) (capacity : ℕ) (keyPath : String) (event : Event) :
    Option String :=
  if capacity = 0 then none else (event.body.pointer keyPath).map text

/-- The outputs of a program for an event. -/
def vrlOutputs (resolve : Json → Except String Json) (event : Event) : List Event :=
  match resolve (Event.toJson event) with
  | .error _ => []
  | .ok res => (outputsOfJson res).elim [] fun outputs => outputs.getD [event]

/-- Each output of the chain for the event satisfies `accepted`, or was dropped
under a key that its `deduplicate` remembered at the start or that belongs to an
event whose outputs do. -/
def Delivered (text : Json → String) (accepted : Event → Prop) :
    List Transformer → Memory → Event → Prop
  | [], _, event => accepted event
  | .passthrough :: rest, start, event | .log _ :: rest, start, event =>
      Delivered text accepted rest start.tail event
  | .discardAll :: _, _, _ => True
  | .deduplicate capacity keyPath :: rest, start, event =>
      match dedupKey text capacity keyPath event with
      | none => Delivered text accepted rest start.tail event
      | some k => k ∈ start.headD [] ∨ ∃ earlier,
          dedupKey text capacity keyPath earlier = some k ∧
            Delivered text accepted rest start.tail earlier
  | .vrl resolve :: rest, start, event =>
      ∀ output ∈ vrlOutputs resolve event, Delivered text accepted rest start.tail output

/-- Every remembered key was remembered at the start or belongs to a delivered
event. -/
def Remembers (text : Json → String) (accepted : Event → Prop) :
    List Transformer → Memory → Memory → Prop
  | [], _, _ => True
  | .deduplicate capacity keyPath :: rest, start, memory =>
      (∀ k ∈ memory.headD [], k ∈ start.headD [] ∨ ∃ earlier,
        dedupKey text capacity keyPath earlier = some k ∧
          Delivered text accepted rest start.tail earlier) ∧
        Remembers text accepted rest start.tail memory.tail
  | _ :: rest, start, memory => Remembers text accepted rest start.tail memory.tail

/-- `P` holds of each output at the state it is sent in. -/
def ForEach (next : Pipe σ) (P : σ → Event → Prop) : List Event → σ → Prop
  | [], _ => True
  | output :: outputs, s =>
      P s output ∧ ((next s output).1 = .ok → ForEach next P outputs (next s output).2)

/-- No `deduplicate` records a key for an event that is then refused below it. -/
def Keeps (text : Json → String) (terminal : Pipe ω) :
    List Transformer → Memory × ω → Event → Prop
  | [], _, _ => True
  | .passthrough :: rest, s, event | .log _ :: rest, s, event =>
      Keeps text terminal rest (s.1.tail, s.2) event
  | .discardAll :: _, _, _ => True
  | .deduplicate capacity keyPath :: rest, s, event =>
      match dedupKey text capacity keyPath event with
      | none => Keeps text terminal rest (s.1.tail, s.2) event
      | some k => k ∈ s.1.headD [] ∨ (chain text terminal rest (s.1.tail, s.2) event).1 = .ok
  | .vrl resolve :: rest, s, event =>
      ForEach (chain text terminal rest) (Keeps text terminal rest) (vrlOutputs resolve event)
        (s.1.tail, s.2)

/-! ### The stages by cases -/

theorem Vrl.send_cases (resolve : Json → Except String Json) (next : Pipe σ) (s : σ)
    (input : Event) :
    (∃ e, Vrl.send resolve next s input = (.err e, s)) ∨
      Vrl.send resolve next s input = sendEach next (vrlOutputs resolve input) s := by
  unfold Vrl.send vrlOutputs
  cases resolve (Event.toJson input) with
  | error reason => exact .inl ⟨_, rfl⟩
  | ok res =>
      cases houtputs : outputsOfJson res with
      | none => exact .inl ⟨.report "invalid type", by simp [houtputs]⟩
      | some outputs =>
          right
          cases outputs with
          | some outputs => simp [houtputs]
          | none =>
              -- `null` forwards the input, like a program that returns it alone
              rcases hanswer : next s input with ⟨res, s'⟩
              cases res <;> simp [houtputs, sendEach, hanswer]

theorem Deduplicate.send_of_no_key {text : Json → String} {capacity : ℕ} {keyPath : String}
    {event : Event} (h : dedupKey text capacity keyPath event = none) (next : Pipe σ)
    (seen : List String) (s : σ) :
    Deduplicate.send text capacity keyPath next (seen, s) event = keep seen (next s event) := by
  unfold dedupKey at h
  split at h
  · rename_i hzero
    simp only [Deduplicate.send, hzero, if_true]
  · rename_i hpos
    simp only [Deduplicate.send, hpos, if_false, h]

theorem Deduplicate.send_of_seen {text : Json → String} {capacity : ℕ} {keyPath k : String}
    {event : Event} (h : dedupKey text capacity keyPath event = some k) (next : Pipe σ)
    {seen : List String} (hseen : k ∈ seen) (s : σ) :
    Deduplicate.send text capacity keyPath next (seen, s) event = (.ok, (seen, s)) := by
  unfold dedupKey at h
  split at h
  · contradiction
  · rename_i hpos
    simp only [Deduplicate.send, hpos, if_false, h, hseen, if_true]

theorem Deduplicate.send_of_new {text : Json → String} {capacity : ℕ} {keyPath k : String}
    {event : Event} (h : dedupKey text capacity keyPath event = some k) (next : Pipe σ)
    {seen : List String} (hseen : k ∉ seen) (s : σ) :
    ∃ older, older ⊆ seen ∧ Deduplicate.send text capacity keyPath next (seen, s) event =
      keep (older ++ [k]) (next s event) := by
  unfold dedupKey at h
  split at h
  · contradiction
  · rename_i hpos
    simp only [Deduplicate.send, hpos, if_false, h, hseen]
    split
    · exact ⟨_, List.drop_subset 1 seen, rfl⟩
    · exact ⟨_, List.Subset.refl seen, rfl⟩

/-! ### A send that succeeds keeps its keys -/

theorem forEach_of_ok {next : Pipe σ} {P : σ → Event → Prop}
    (hP : ∀ s event, (next s event).1 = .ok → P s event) (outputs : List Event) :
    ∀ s, (sendEach next outputs s).1 = .ok → ForEach next P outputs s := by
  induction outputs with
  | nil => exact fun _ _ => trivial
  | cons output outputs ih =>
      intro s hsend
      rcases hanswer : next s output with ⟨res, s'⟩
      cases res with
      | ok =>
          simp only [sendEach, hanswer] at hsend
          refine ⟨hP s output (by rw [hanswer]), fun _ => ?_⟩
          rw [hanswer]
          exact ih s' hsend
      | err e | panic => simp [sendEach, hanswer] at hsend

theorem keeps_of_ok (text : Json → String) (terminal : Pipe ω) (ts : List Transformer) :
    ∀ (s : Memory × ω) (event : Event), (chain text terminal ts s event).1 = .ok →
      Keeps text terminal ts s event := by
  induction ts with
  | nil => exact fun _ _ _ => trivial
  | cons t rest ih =>
      intro s event hsend
      cases t with
      | passthrough | log target => exact ih _ event hsend
      | discardAll => trivial
      | vrl resolve =>
          simp only [chain, Transformer.send, keep] at hsend
          rcases Vrl.send_cases resolve (chain text terminal rest) (s.1.tail, s.2) event with
            ⟨e, h⟩ | h
          · rw [h] at hsend
            contradiction
          · rw [h] at hsend
            exact forEach_of_ok ih _ _ hsend
      | deduplicate capacity keyPath =>
          simp only [chain, Transformer.send] at hsend
          simp only [Keeps]
          cases hkey : dedupKey text capacity keyPath event with
          | none =>
              rw [Deduplicate.send_of_no_key hkey] at hsend
              exact ih _ event hsend
          | some k =>
              by_cases hseen : k ∈ s.1.headD []
              · exact .inl hseen
              · obtain ⟨older, -, h⟩ := Deduplicate.send_of_new hkey
                  (chain text terminal rest) hseen (s.1.tail, s.2)
                rw [h] at hsend
                exact .inr hsend

/-! ### More is accepted over time -/

theorem Delivered.mono {text : Json → String} {accepted accepted' : Event → Prop}
    (h : ∀ event, accepted event → accepted' event) (ts : List Transformer) :
    ∀ {start : Memory} {event : Event}, Delivered text accepted ts start event →
      Delivered text accepted' ts start event := by
  induction ts with
  | nil => exact fun {_ event} => h event
  | cons t rest ih =>
      intro start event hevent
      cases t with
      | passthrough | log target => exact ih hevent
      | discardAll => trivial
      | deduplicate capacity keyPath =>
          simp only [Delivered] at hevent ⊢
          split at hevent
          · exact ih hevent
          · exact hevent.imp id fun ⟨earlier, hkey, hearlier⟩ => ⟨earlier, hkey, ih hearlier⟩
      | vrl resolve => exact fun output hmem => ih (hevent output hmem)

theorem remembers_start (text : Json → String) (accepted : Event → Prop)
    (ts : List Transformer) : ∀ start : Memory, Remembers text accepted ts start start := by
  induction ts with
  | nil => exact fun _ => trivial
  | cons t rest ih =>
      intro start
      cases t with
      | passthrough | log target | discardAll | vrl resolve => exact ih start.tail
      | deduplicate capacity keyPath => exact ⟨fun k hk => .inl hk, ih start.tail⟩

/-! ### A send delivers -/

section Terminal

variable {text : Json → String} {terminal : Pipe ω} (accepted : ω → Event → Prop)
  (hmono : ∀ w event other, accepted w other → accepted (terminal w event).2 other)
  (hok : ∀ w event, (terminal w event).1 = .ok → accepted (terminal w event).2 event)

/-- What a send leaves: more is accepted, the invariant holds again, and the
event is delivered if the answer is `ok`. -/
structure Sent (text : Json → String) (accepted : ω → Event → Prop) (ts : List Transformer)
    (start : Memory) (w : ω) (event : Event) (answer : Outcome × (Memory × ω)) : Prop where
  mono : ∀ other, accepted w other → accepted answer.2.2 other
  remembers : Remembers text (accepted answer.2.2) ts start answer.2.1
  delivered : answer.1 = .ok → Delivered text (accepted answer.2.2) ts start event

variable {accepted} in
/-- A send of several outputs, given what a send of one leaves. -/
theorem sendEach_delivers {ts : List Transformer} {start : Memory} {next : Pipe (Memory × ω)}
    {P : Memory × ω → Event → Prop}
    (hnext : ∀ s event, Remembers text (accepted s.2) ts start s.1 → P s event →
      Sent text accepted ts start s.2 event (next s event))
    (outputs : List Event) :
    ∀ s, Remembers text (accepted s.2) ts start s.1 → ForEach next P outputs s →
      (∀ other, accepted s.2 other → accepted (sendEach next outputs s).2.2 other) ∧
      Remembers text (accepted (sendEach next outputs s).2.2) ts start
        (sendEach next outputs s).2.1 ∧
      ((sendEach next outputs s).1 = .ok → ∀ output ∈ outputs,
        Delivered text (accepted (sendEach next outputs s).2.2) ts start output) := by
  induction outputs with
  | nil => exact fun s hs _ => ⟨fun _ h => h, hs, fun _ output hmem => by contradiction⟩
  | cons output outputs ih =>
      intro s hs heach
      have hsent := hnext s output hs heach.1
      rcases hanswer : next s output with ⟨res, s'⟩
      rw [hanswer] at hsent
      cases res with
      | ok =>
          have hrest := heach.2 (by rw [hanswer])
          rw [hanswer] at hrest
          obtain ⟨hmore, hremembers, hdelivered⟩ := ih s' hsent.remembers hrest
          simp only [sendEach, hanswer]
          refine ⟨fun other h => hmore other (hsent.mono other h), hremembers, ?_⟩
          intro hresult o hmem
          rcases List.mem_cons.mp hmem with rfl | hmem
          · exact (hsent.delivered rfl).mono hmore ts
          · exact hdelivered hresult o hmem
      | err e | panic =>
          simp only [sendEach, hanswer]
          exact ⟨hsent.mono, hsent.remembers, fun h => by contradiction⟩

include hmono hok in
/-- By induction on the chain: a send that keeps its keys preserves the
invariant, and delivers the event if it is answered `ok`. -/
theorem chain_delivers (ts : List Transformer) :
    ∀ (start : Memory) (s : Memory × ω) (event : Event),
      Remembers text (accepted s.2) ts start s.1 → Keeps text terminal ts s event →
      Sent text accepted ts start s.2 event (chain text terminal ts s event) := by
  induction ts with
  | nil => exact fun start s event _ _ => ⟨hmono s.2 event, trivial, hok s.2 event⟩
  | cons t rest ih =>
      intro start ⟨memory, w⟩ event hremembers hkeeps
      cases t with
      | passthrough | log target =>
          have hsent := ih start.tail (memory.tail, w) event hremembers hkeeps
          exact ⟨hsent.mono, hsent.remembers, hsent.delivered⟩
      | discardAll => exact ⟨fun _ h => h, hremembers, fun _ => trivial⟩
      | vrl resolve =>
          have heach := sendEach_delivers (ih start.tail) (vrlOutputs resolve event)
            (memory.tail, w) hremembers hkeeps
          rcases Vrl.send_cases resolve (chain text terminal rest) (memory.tail, w) event with
            ⟨e, hsend⟩ | hsend
          · simp only [chain, Transformer.send, keep, hsend]
            exact ⟨fun _ h => h, hremembers, fun h => by contradiction⟩
          · simp only [chain, Transformer.send, keep, hsend]
            exact ⟨heach.1, heach.2.1, heach.2.2⟩
      | deduplicate capacity keyPath =>
          obtain ⟨hkeys, hrest⟩ := hremembers
          simp only [Keeps] at hkeeps
          cases hkey : dedupKey text capacity keyPath event with
          | none =>
              rw [hkey] at hkeeps
              have hsent := ih start.tail (memory.tail, w) event hrest hkeeps
              simp only [chain, Transformer.send, Deduplicate.send_of_no_key hkey, keep]
              refine ⟨hsent.mono, ⟨fun k hk => ?_, hsent.remembers⟩, fun h => ?_⟩
              · exact (hkeys k hk).imp id fun ⟨earlier, hsame, hearlier⟩ =>
                  ⟨earlier, hsame, hearlier.mono hsent.mono rest⟩
              · simpa only [Delivered, hkey] using hsent.delivered h
          | some k =>
              rw [hkey] at hkeeps
              by_cases hseen : k ∈ memory.headD []
              · simp only [chain, Transformer.send, Deduplicate.send_of_seen hkey _ hseen]
                refine ⟨fun _ h => h, ⟨hkeys, hrest⟩, fun _ => ?_⟩
                simpa only [Delivered, hkey] using hkeys k hseen
              · have hresult := hkeeps.resolve_left hseen
                have hsent := ih start.tail (memory.tail, w) event hrest
                  (keeps_of_ok text terminal rest _ event hresult)
                obtain ⟨older, holder, hsend⟩ := Deduplicate.send_of_new hkey
                  (chain text terminal rest) hseen (memory.tail, w)
                simp only [chain, Transformer.send, hsend, keep]
                have hearlier : ∃ earlier, dedupKey text capacity keyPath earlier = some k ∧
                    Delivered text (accepted (chain text terminal rest (memory.tail, w) event).2.2)
                      rest start.tail earlier := ⟨event, hkey, hsent.delivered hresult⟩
                refine ⟨hsent.mono, ⟨fun k' hk' => ?_, hsent.remembers⟩, fun _ => ?_⟩
                · rcases List.mem_append.mp hk' with hold | hnew
                  · exact (hkeys k' (holder hold)).imp id fun ⟨e, hsame, he⟩ =>
                      ⟨e, hsame, he.mono hsent.mono rest⟩
                  · rw [List.mem_singleton.mp hnew]
                    exact .inr hearlier
                · simp only [Delivered, hkey]
                  exact .inr hearlier

end Terminal

end CdvizCollector.Transformers
