import CdvizCollector.Pipeline.Batched
import CdvizCollector.Pipeline.Clients

/-!
The end of a pipeline with sinks of several kinds.

A database sink answers because its batcher gets to what is pushed, and an SSE sink
because it only passes on what it is called with. With any mix of them `run` returns,
whatever the stores and the clients do.
-/

namespace CdvizCollector.Pipeline

open Lib Transformers Security Sinks

variable {μ σ τ : Type} {m n : ℕ}

/-! ### A sink among others -/

/-- The sink, its states being some of the states of all kinds of sinks. -/
def Sink.embed (S : Sink μ σ) (f : σ → τ) : Sink μ τ where
  send msg sink answer sink' := ∃ x x', sink = f x ∧ sink' = f x' ∧ S.send msg x answer x'
  flush sink answer sink' := ∃ x x', sink = f x ∧ sink' = f x' ∧ S.flush x answer x'
  idle sink sink' := ∃ x x', sink = f x ∧ sink' = f x' ∧ S.idle x x'

section Embed

variable {S : Sink μ σ} {f : σ → τ} {start : σ}

theorem embed_ran (hf : Function.Injective f) {msgs : List μ} {answers : List Outcome} {sink : τ}
    (h : (S.embed f).Ran (f start) msgs answers sink) :
    ∃ x, sink = f x ∧ S.Ran start msgs answers x := by
  induction h with
  | start => exact ⟨start, rfl, .start⟩
  | idle _ hidle ih =>
      obtain ⟨x, hx, hran⟩ := ih
      obtain ⟨y, y', hy, hy', hstep⟩ := hidle
      obtain rfl := hf (hx.symm.trans hy)
      exact ⟨y', hy', hran.idle hstep⟩
  | send _ hsend ih =>
      obtain ⟨x, hx, hran⟩ := ih
      obtain ⟨y, y', hy, hy', hstep⟩ := hsend
      obtain rfl := hf (hx.symm.trans hy)
      exact ⟨y', hy', hran.send hstep⟩

theorem embed_idles {x x' : σ} (h : Relation.ReflTransGen S.idle x x') :
    Relation.ReflTransGen (S.embed f).idle (f x) (f x') :=
  h.lift f fun _ _ hidle => ⟨_, _, rfl, rfl, hidle⟩

theorem Sink.Answers.embed (hf : Function.Injective f) (h : S.Answers start) :
    (S.embed f).Answers (f start) where
  send hran msg := by
    obtain ⟨x, rfl, hx⟩ := embed_ran hf hran
    obtain ⟨ready, answer, x', hidles, hsend⟩ := h.send hx msg
    exact ⟨f ready, answer, f x', embed_idles hidles, ready, x', rfl, rfl, hsend⟩
  flush hran := by
    obtain ⟨x, rfl, hx⟩ := embed_ran hf hran
    obtain ⟨ready, answer, x', hidles, hflush⟩ := h.flush hx
    exact ⟨f ready, answer, f x', embed_idles hidles, ready, x', rfl, rfl, hflush⟩

end Embed

/-! ### The kinds -/

/-- A sink with a batcher or with clients, and the state it starts in. -/
inductive Serves : Sink μ τ → τ → Prop
  | batch {α : Type} {P : Batch.Params α} {item : μ → Except Error α} {b : Batch.Buffers α}
      {f : Batch.State α → τ} (hopen : Opens P b) (hf : Function.Injective f) :
      Serves ((batchSink P item).embed f) (f (.start b (.opened b)))
  | sse {E : Primitives} {rules : List HeaderRuleConfig} {f : Hub μ → τ}
      (hf : Function.Injective f) : Serves ((sseSink E rules).embed f) (f .new)

theorem Serves.answers {S : Sink μ τ} {start : τ} (h : Serves S start) : S.Answers start := by
  cases h with
  | batch hopen hf => exact (batch_answers _ hopen).embed hf
  | sse hf => exact (sse_answers _ _).embed hf

namespace Shutdown

/-- A database sink and an SSE sink. -/
def sinks : Fin 2 → Sink Bool (Batch.State Bool ⊕ Hub Bool) :=
  ![(batchSink Batch.Params.unspooled .ok).embed .inl,
    (sseSink (samplePrimitives sampleCrypto) []).embed .inr]

def start : Fin 2 → Batch.State Bool ⊕ Hub Bool :=
  ![.inl (.start Batched.buffers (.opened Batched.buffers)), .inr .new]

end Shutdown

end CdvizCollector.Pipeline
