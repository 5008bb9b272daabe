import CdvizCollector.Transformers.Delivery

/-!
What a chain of transformers means.

A chain is run by its pipes, each inside the one before, and a refusal at the
end of the chain unwinds through all of them. Its meaning needs none of that:
for an event and what the transformers remember, the *script* of the chain lists
the events it offers to its terminal pipe, how it answers if all of them are
taken, and what it remembers then. Each offer carries what the transformers
remember while it is made, which is what a refusal leaves behind.
-/

namespace CdvizCollector.Transformers

open Lib

variable {σ ω : Type}

/-- The events a chain offers, with what it remembers at each, and its answer and
memory once they are taken. -/
structure Script where
  offers : List (Memory × Event)
  outcome : Outcome
  memory : Memory

namespace Script

def silent (outcome : Outcome) (memory : Memory) : Script := { offers := [], outcome, memory }

/-- The script behind a transformer that remembers `own`. -/
def behind (own : List String) (rest : Script) : Script :=
  { offers := rest.offers.map fun offer => (own :: offer.1, offer.2)
    outcome := rest.outcome
    memory := own :: rest.memory }

/-- The scripts of several events, up to the first that does not end well. -/
def each (next : Memory → Event → Script) : List Event → Memory → Script
  | [], memory => silent .ok memory
  | output :: outputs, memory =>
      let first := next memory output
      match first.outcome with
      | .ok =>
          let rest := each next outputs first.memory
          { rest with offers := first.offers ++ rest.offers }
      | _ => first

/-- A terminal pipe is offered the events one by one. The first that it does not
take ends the script. -/
def play (terminal : Pipe ω) (outcome : Outcome) (memory : Memory) :
    List (Memory × Event) → ω → Outcome × (Memory × ω)
  | [], w => (outcome, (memory, w))
  | offer :: offers, w =>
      match terminal w offer.2 with
      | (.ok, w) => play terminal outcome memory offers w
      | (refusal, w) => (refusal, (offer.1, w))

end Script

/-- The keys after a new one was recorded. -/
def recorded (capacity : ℕ) (seen : List String) (k : String) : List String :=
  (if capacity ≤ seen.length then seen.drop 1 else seen) ++ [k]

/-- The meaning of a chain. -/
def script (text : Json → String) : List Transformer → Memory → Event → Script
  | [], memory, event => { offers := [(memory, event)], outcome := .ok, memory }
  | .passthrough :: rest, memory, event | .log _ :: rest, memory, event =>
      (script text rest memory.tail event).behind (memory.headD [])
  | .discardAll :: _, memory, _ => .silent .ok (memory.headD [] :: memory.tail)
  | .deduplicate capacity keyPath :: rest, memory, event =>
      let seen := memory.headD []
      match dedupKey text capacity keyPath event with
      | none => (script text rest memory.tail event).behind seen
      | some k =>
          if k ∈ seen then .silent .ok (seen :: memory.tail)
          else (script text rest memory.tail event).behind (recorded capacity seen k)
  | .vrl resolve :: rest, memory, event =>
      let own := memory.headD []
      match resolve (Event.toJson event) with
      | .error reason => .silent (.err (.rejected reason)) (own :: memory.tail)
      | .ok res =>
          match outputsOfJson res with
          | none => .silent (.err (.report "invalid type")) (own :: memory.tail)
          | some outputs =>
              (Script.each (script text rest) (outputs.getD [event]) memory.tail).behind own

/-! ### Playing a script -/

namespace Script

variable {terminal : Pipe ω} {outcome : Outcome} {memory : Memory}

/-- The answer of a chain that has `own` in front of its memory. -/
def hold (own : List String) (answer : Outcome × (Memory × ω)) : Outcome × (Memory × ω) :=
  (answer.1, (own :: answer.2.1, answer.2.2))

theorem play_behind (own : List String) (offers : List (Memory × Event)) :
    ∀ w, play terminal outcome (own :: memory)
        (offers.map fun offer => (own :: offer.1, offer.2)) w =
      hold own (play terminal outcome memory offers w) := by
  induction offers with
  | nil => exact fun _ => rfl
  | cons offer offers ih =>
      intro w
      rcases hanswer : terminal w offer.2 with ⟨res, w'⟩
      cases res with
      | ok => simpa only [List.map_cons, play, hanswer] using ih w'
      | err e | panic => simp only [List.map_cons, play, hanswer, hold]

/-- Scripts played one after the other. -/
theorem play_append (middle : Memory) (later : List (Memory × Event))
    (earlier : List (Memory × Event)) :
    ∀ w, play terminal outcome memory (earlier ++ later) w =
      match play terminal .ok middle earlier w with
      | (.ok, s) => play terminal outcome memory later s.2
      | refused => refused := by
  induction earlier with
  | nil => exact fun _ => rfl
  | cons offer earlier ih =>
      intro w
      rcases hanswer : terminal w offer.2 with ⟨res, w'⟩
      cases res with
      | ok => simpa only [List.cons_append, play, hanswer] using ih w'
      | err e | panic => simp only [List.cons_append, play, hanswer]

variable (terminal outcome memory) in
/-- A script answers `ok` only at its end. -/
theorem of_play_ok (offers : List (Memory × Event)) :
    ∀ w, (play terminal outcome memory offers w).1 = .ok →
      outcome = .ok ∧ (play terminal outcome memory offers w).2.1 = memory := by
  induction offers with
  | nil => exact fun _ h => ⟨h, rfl⟩
  | cons offer offers ih =>
      intro w h
      rcases hanswer : terminal w offer.2 with ⟨res, w'⟩
      cases res with
      | ok =>
          simp only [play, hanswer] at h ⊢
          exact ih w' h
      | err e | panic =>
          simp only [play, hanswer] at h
          contradiction

end Script

/-- What a script comes to when the terminal pipe is offered its events. -/
def Script.run (terminal : Pipe ω) (played : Script) (w : ω) : Outcome × (Memory × ω) :=
  Script.play terminal played.outcome played.memory played.offers w

theorem Script.run_behind (terminal : Pipe ω) (own : List String) (played : Script) (w : ω) :
    (played.behind own).run terminal w = Script.hold own (played.run terminal w) :=
  Script.play_behind own played.offers w

/-- A pipe that follows scripts follows that of several events sent in a row. -/
theorem sendEach_run {terminal : Pipe ω} {pipe : Pipe (Memory × ω)}
    {next : Memory → Event → Script}
    (hpipe : ∀ memory w event, pipe (memory, w) event = (next memory event).run terminal w)
    (outputs : List Event) :
    ∀ memory w, sendEach pipe outputs (memory, w) =
      (Script.each next outputs memory).run terminal w := by
  induction outputs with
  | nil => exact fun _ _ => rfl
  | cons output outputs ih =>
      intro memory w
      rcases hscript : next memory output with ⟨offers, outcome, middle⟩
      have hfirst : pipe (memory, w) output = Script.play terminal outcome middle offers w := by
        rw [hpipe, hscript, Script.run]
      have hend := Script.of_play_ok terminal outcome middle offers w
      simp only [sendEach, Script.each, hscript, hfirst]
      cases outcome with
      | ok =>
          simp only [Script.run, Script.play_append middle]
          rcases hplayed : Script.play terminal .ok middle offers w with ⟨res, memory', w'⟩
          rw [hplayed] at hend
          cases res with
          | ok =>
              have hmiddle : memory' = middle := (hend rfl).2
              exact hmiddle ▸ ih middle w'
          | err e | panic => rfl
      | err e | panic =>
          -- the script of the first output does not end well, and ends them all
          rcases hplayed : Script.play terminal _ middle offers w with ⟨res, memory', w'⟩
          rw [hplayed] at hend
          cases res with
          | ok => exact absurd (hend rfl).1 (by simp)
          | err e | panic => exact hplayed.symm

/-! ### A chain follows its script -/

theorem Vrl.send_eq (resolve : Json → Except String Json) (next : Pipe σ) (s : σ)
    (input : Event) :
    Vrl.send resolve next s input =
      match resolve (Event.toJson input) with
      | .error reason => (.err (.rejected reason), s)
      | .ok res =>
          match outputsOfJson res with
          | none => (.err (.report "invalid type"), s)
          | some outputs => sendEach next (outputs.getD [input]) s := by
  unfold Vrl.send
  cases resolve (Event.toJson input) with
  | error reason => rfl
  | ok res =>
      cases houtputs : outputsOfJson res with
      | none => simp only [houtputs]
      | some outputs =>
          cases outputs with
          | some outputs => simp only [houtputs, Option.getD_some]
          | none =>
              rcases hanswer : next s input with ⟨res, s'⟩
              cases res <;> simp [houtputs, sendEach, hanswer]

theorem Deduplicate.send_eq_recorded {text : Json → String} {capacity : ℕ} {keyPath k : String}
    {event : Event} (h : dedupKey text capacity keyPath event = some k) (next : Pipe σ)
    {seen : List String} (hseen : k ∉ seen) (s : σ) :
    Deduplicate.send text capacity keyPath next (seen, s) event =
      keep (recorded capacity seen k) (next s event) := by
  unfold dedupKey at h
  split at h
  · contradiction
  · rename_i hpos
    simp only [Deduplicate.send, hpos, if_false, h, hseen, recorded]

theorem chain_eq_run (text : Json → String) (terminal : Pipe ω)
    (ts : List Transformer) :
    ∀ (memory : Memory) (w : ω) (event : Event), chain text terminal ts (memory, w) event =
      (script text ts memory event).run terminal w := by
  induction ts with
  | nil =>
      intro memory w event
      rcases hanswer : terminal w event with ⟨res, w'⟩
      cases res <;> simp [chain, keep, script, Script.run, Script.play, hanswer]
  | cons t rest ih =>
      intro memory w event
      cases t with
      | passthrough | log target =>
          rw [script, Script.run_behind, ← ih]
          rfl
      | discardAll => rfl
      | deduplicate capacity keyPath =>
          simp only [chain, Transformer.send, script]
          cases hkey : dedupKey text capacity keyPath event with
          | none =>
              rw [Deduplicate.send_of_no_key hkey, Script.run_behind, ← ih]
              rfl
          | some k =>
              by_cases hseen : k ∈ memory.headD []
              · rw [Deduplicate.send_of_seen hkey _ hseen]
                simp only [hseen, if_true]
                rfl
              · rw [Deduplicate.send_eq_recorded hkey _ hseen]
                simp only [hseen, if_false, Script.run_behind, ← ih]
                rfl
      | vrl resolve =>
          simp only [chain, Transformer.send, Vrl.send_eq, script, keep]
          cases resolve (Event.toJson event) with
          | error reason => rfl
          | ok res =>
              cases houtputs : outputsOfJson res with
              | none => simp only [houtputs]; rfl
              | some outputs =>
                  simp only [houtputs, Script.run_behind, ← sendEach_run ih]
                  rfl

theorem each_outcome_ne_panic {next : Memory → Event → Script}
    (h : ∀ memory event, (next memory event).outcome ≠ .panic) (outputs : List Event) :
    ∀ memory, (Script.each next outputs memory).outcome ≠ .panic := by
  induction outputs with
  | nil =>
      intro memory hpanic
      contradiction
  | cons output outputs ih =>
      intro memory
      have hfirst := h memory output
      cases houtcome : (next memory output).outcome with
      | ok => simpa only [Script.each, houtcome] using ih _
      | err e => simp [Script.each, houtcome]
      | panic => exact absurd houtcome hfirst

/-- No transformer panics by itself. -/
theorem script_outcome_ne_panic (text : Json → String) (ts : List Transformer) :
    ∀ memory event, (script text ts memory event).outcome ≠ .panic := by
  induction ts with
  | nil =>
      intro memory event hpanic
      contradiction
  | cons t rest ih =>
      intro memory event
      cases t with
      | passthrough | log target => exact ih memory.tail event
      | discardAll => simp [script, Script.silent]
      | deduplicate capacity keyPath =>
          cases hkey : dedupKey text capacity keyPath event with
          | none => simpa only [script, hkey, Script.behind] using ih memory.tail event
          | some k =>
              by_cases hseen : k ∈ memory.headD []
              · simp only [script, hkey, hseen, if_true, Script.silent, ne_eq, reduceCtorEq,
                  not_false_eq_true]
              · simpa only [script, hkey, hseen, if_false, Script.behind] using ih memory.tail event
      | vrl resolve =>
          cases hresolved : resolve (Event.toJson event) with
          | error reason => simp [script, hresolved, Script.silent]
          | ok res =>
              cases houtputs : outputsOfJson res with
              | none => simp [script, hresolved, houtputs, Script.silent]
              | some outputs =>
                  simpa only [script, hresolved, houtputs, Script.behind] using
                    each_outcome_ne_panic ih (outputs.getD [event]) memory.tail

theorem Script.exists_panic_of_play {terminal : Pipe ω} {outcome : Outcome} {memory : Memory}
    (houtcome : outcome ≠ .panic) (offers : List (Memory × Event)) :
    ∀ w, (Script.play terminal outcome memory offers w).1 = .panic →
      ∃ offer ∈ offers, ∃ w', (terminal w' offer.2).1 = .panic := by
  induction offers with
  | nil => exact fun w h => absurd h houtcome
  | cons offer offers ih =>
      intro w h
      rcases hanswer : terminal w offer.2 with ⟨res, w'⟩
      cases res with
      | ok =>
          simp only [Script.play, hanswer] at h
          obtain ⟨other, hmem, hpanic⟩ := ih w' h
          exact ⟨other, List.mem_cons_of_mem _ hmem, hpanic⟩
      | err e =>
          simp only [Script.play, hanswer] at h
          contradiction
      | panic => exact ⟨offer, List.mem_cons_self, w, by rw [hanswer]⟩

/-- A chain does to any terminal pipe what its script does: the offers depend on
nothing the terminal answers, except that the first refusal ends them and is the
answer of the chain. It panics only where the terminal panics on an offer. -/
theorem chain_follows_script (text : Json → String) (terminal : Pipe ω)
    (ts : List Transformer) (memory : Memory) (w : ω) (event : Event) :
    chain text terminal ts (memory, w) event = (script text ts memory event).run terminal w ∧
      ((chain text terminal ts (memory, w) event).1 = .panic →
        ∃ offer ∈ (script text ts memory event).offers, ∃ w',
          (terminal w' offer.2).1 = .panic) := by
  refine ⟨chain_eq_run text terminal ts memory w event, fun hpanic => ?_⟩
  rw [chain_eq_run, Script.run] at hpanic
  exact Script.exists_panic_of_play (script_outcome_ne_panic text ts memory event) _ w hpanic

/-! ### Chains in a row -/

section Composition

variable {τ : Type} {P : σ → Prop} {f : σ → τ} {p : Pipe σ} {q : Pipe τ}

theorem sendEach_keeps (hp : ∀ s event, P s → P (p s event).2) (outputs : List Event) :
    ∀ s, P s → P (sendEach p outputs s).2 := by
  induction outputs with
  | nil => exact fun _ h => h
  | cons output outputs ih =>
      intro s h
      have hnext := hp s output h
      rcases hanswer : p s output with ⟨res, s'⟩
      rw [hanswer] at hnext
      cases res with
      | ok => simpa only [sendEach, hanswer] using ih s' hnext
      | err e | panic => simpa only [sendEach, hanswer] using hnext

theorem Transformer.send_keeps (text : Json → String) (t : Transformer)
    (hp : ∀ s event, P s → P (p s event).2) (own : List String) (s : σ) (event : Event)
    (h : P s) : P (t.send text p (own, s) event).2.2 := by
  cases t with
  | passthrough | log target => exact hp s event h
  | discardAll => exact h
  | vrl resolve =>
      simp only [Transformer.send, keep]
      rcases Vrl.send_cases resolve p s event with ⟨e, hsend⟩ | hsend
      · rw [hsend]
        exact h
      · rw [hsend]
        exact sendEach_keeps hp _ s h
  | deduplicate capacity keyPath =>
      simp only [Transformer.send]
      cases hkey : dedupKey text capacity keyPath event with
      | none =>
          rw [Deduplicate.send_of_no_key hkey]
          exact hp s event h
      | some k =>
          by_cases hseen : k ∈ own
          · rw [Deduplicate.send_of_seen hkey _ hseen]
            exact h
          · rw [Deduplicate.send_eq_recorded hkey _ hseen]
            exact hp s event h

/-- A chain remembers one list of keys for each transformer. -/
theorem chain_memory_length (text : Json → String) (terminal : Pipe ω) (ts : List Transformer) :
    ∀ s event, s.1.length = ts.length →
      (chain text terminal ts s event).2.1.length = ts.length := by
  induction ts with
  | nil => exact fun _ _ h => h
  | cons t rest ih =>
      intro s event h
      have hrest := t.send_keeps text ih
        (s.1.headD []) (s.1.tail, s.2) event (by simp [h])
      simpa only [chain, List.length_cons, Nat.add_right_cancel_iff] using hrest

variable (hkeep : ∀ s event, P s → P (p s event).2)
  (hmap : ∀ s event, P s → q (f s) event = (p s event).map id f)

include hkeep hmap

theorem sendEach_map (outputs : List Event) :
    ∀ s, P s → sendEach q outputs (f s) = (sendEach p outputs s).map id f := by
  induction outputs with
  | nil => exact fun _ _ => rfl
  | cons output outputs ih =>
      intro s h
      have hnext := hkeep s output h
      have hanswers := hmap s output h
      rcases hanswer : p s output with ⟨res, s'⟩
      rw [hanswer] at hnext hanswers
      cases res with
      | ok => simpa only [sendEach, hanswer, hanswers, Prod.map_apply, id_eq] using ih s' hnext
      | err e | panic => simp only [sendEach, hanswer, hanswers, Prod.map_apply, id_eq]

/-- A transformer does the same in front of a pipe that keeps its state in
another shape. -/
theorem Transformer.send_map (text : Json → String) (t : Transformer) (own : List String)
    (s : σ) (event : Event) (h : P s) :
    t.send text q (own, f s) event = (t.send text p (own, s) event).map id (Prod.map id f) := by
  cases t with
  | passthrough | log target =>
      simp only [Transformer.send, Passthrough.send, keep, hmap s event h]
      rfl
  | discardAll => rfl
  | vrl resolve =>
      simp only [Transformer.send, keep, Vrl.send_eq]
      cases resolve (Event.toJson event) with
      | error reason => rfl
      | ok res =>
          cases houtputs : outputsOfJson res with
          | none => simp only [houtputs]; rfl
          | some outputs =>
              simp only [houtputs, sendEach_map hkeep hmap _ s h]
              rfl
  | deduplicate capacity keyPath =>
      simp only [Transformer.send]
      cases hkey : dedupKey text capacity keyPath event with
      | none =>
          rw [Deduplicate.send_of_no_key hkey, Deduplicate.send_of_no_key hkey, hmap s event h]
          rfl
      | some k =>
          by_cases hseen : k ∈ own
          · rw [Deduplicate.send_of_seen hkey _ hseen, Deduplicate.send_of_seen hkey _ hseen]
            rfl
          · rw [Deduplicate.send_eq_recorded hkey _ hseen,
              Deduplicate.send_eq_recorded hkey _ hseen, hmap s event h]
            rfl

end Composition

/-- What two chains in a row remember, as one chain would. -/
def joined (s : Memory × (Memory × ω)) : Memory × ω := (s.1 ++ s.2.1, s.2.2)

/-- A chain of some transformers and then others is the first in front of the
second. -/
theorem chain_append (text : Json → String) (terminal : Pipe ω) (ts us : List Transformer) :
    ∀ (s : Memory × (Memory × ω)) (event : Event), s.1.length = ts.length →
      chain text terminal (ts ++ us) (joined s) event =
        (chain text (chain text terminal us) ts s event).map id joined := by
  induction ts with
  | nil =>
      intro s event h
      have hnil : s.1 = [] := List.length_eq_zero_iff.mp h
      simp only [List.nil_append, joined, hnil, chain, keep]
      rfl
  | cons t rest ih =>
      intro s event h
      obtain ⟨memory, s⟩ := s
      obtain ⟨own, memory, rfl⟩ := List.exists_cons_of_length_eq_add_one h
      have hsend := t.send_map (chain_memory_length text (chain text terminal us) rest) ih text own
        (memory, s) event (by simpa using h)
      simp only [List.cons_append, chain, joined, List.headD_cons, List.tail_cons]
      rw [joined] at hsend
      rw [hsend]
      rfl

end CdvizCollector.Transformers
