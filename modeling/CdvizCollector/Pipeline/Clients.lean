import CdvizCollector.Pipeline.Run
import CdvizCollector.Security.Rule
import CdvizCollector.Security.SignatureCheck

/-!
The SSE sink and its clients (`sinks/sse.rs`).

The sink passes on what it is called with to a channel of its own, and answers at once.
Each client that is admitted subscribes to that channel: it is sent what the sink is
called with from then on, behind the back of the task of the sink and of the queue. A
client that is too slow loses events of its own, and is told how many.
-/

namespace CdvizCollector.Pipeline

open Lib Lib.Http Transformers Security

variable {μ σ : Type} {m n : ℕ}

/-- A client, with the number of messages the sink had been called with when it came. -/
structure Client (μ : Type) where
  joined : ℕ
  start : ℕ
  next : ℕ
  log : List (Delivery μ)
  connected : Bool

/-- The sink with its channel: what it was called with, what it has sent on, and the
clients up to now. -/
structure Hub (μ : Type) where
  handed : List μ
  sent : List μ
  clients : List (Client μ)

def Hub.new : Hub μ := { handed := [], sent := [], clients := [] }

/-- `broadcast::channel(1000)`; the channel rounds that up to a power of two. -/
def Hub.capacity : ℕ := 1024

/-- `tx.send`: without receivers the message is not kept. -/
def Hub.send (h : Hub μ) (msg : μ) : Hub μ :=
  { h with
    handed := h.handed ++ [msg]
    sent := if h.clients.any Client.connected then h.sent ++ [msg] else h.sent }

/-- The check of `sse_handler` on the headers of a request, which has no body. -/
def sseHandler (E : Primitives) (rules : List HeaderRuleConfig) (headers : HeaderMap) :
    Except ValidationError Unit :=
  if rules.isEmpty then .ok () else validateHeaders E headers rules []

/-- `tx.subscribe()` -/
def Hub.subscribe (h : Hub μ) : Client μ :=
  { joined := h.handed.length, start := h.sent.length, next := h.sent.length, log := [],
    connected := true }

/-- The stream of a client gives what `recv` does. -/
def Client.receive (c : Client μ) (d : Delivery μ) : Client μ :=
  { c with next := c.next + d.width, log := c.log ++ [d] }

/-- Clients come, are sent something, and go. -/
inductive Hub.Step (E : Primitives) (rules : List HeaderRuleConfig) (h : Hub μ) : Hub μ → Prop
  | connect (headers : HeaderMap) (hadmitted : sseHandler E rules headers = .ok ()) :
      Step E rules h { h with clients := h.clients ++ [h.subscribe] }
  | deliver {before after : List (Client μ)} {c : Client μ} {d : Delivery μ}
      (hclients : h.clients = before ++ c :: after) (hconnected : c.connected = true)
      (hpoll : poll Hub.capacity h.sent c.next = some d) :
      Step E rules h { h with clients := before ++ c.receive d :: after }
  | disconnect {before after : List (Client μ)} {c : Client μ}
      (hclients : h.clients = before ++ c :: after) :
      Step E rules h { h with clients := before ++ { c with connected := false } :: after }

def sseSink (E : Primitives) (rules : List HeaderRuleConfig) : Sink μ (Hub μ) where
  send msg h answer h' := answer = .ok ∧ h' = h.send msg
  flush h answer h' := answer = .ok ∧ h' = h
  idle := Hub.Step E rules

/-! ### What a client has been sent -/

/-- The stream of a client accounts for all the sink was called with since it came. -/
structure Attends (h : Hub μ) (c : Client μ) : Prop where
  joined_le : c.joined ≤ h.handed.length
  reads : Reads h.handed c.joined c.log (c.joined + (c.next - c.start))
  /-- While it is connected, all of that goes into the channel. -/
  channel : c.connected = true → Reads h.sent c.start c.log c.next ∧
    h.handed.drop c.joined = h.sent.drop c.start
  lossless : h.handed.length - c.joined ≤ Hub.capacity → missed c.log = 0

theorem attends_subscribe (h : Hub μ) : Attends h h.subscribe where
  joined_le := Nat.le_refl _
  reads := by
    have hstart : h.subscribe.joined + (h.subscribe.next - h.subscribe.start) =
        h.subscribe.joined := by
      show h.handed.length + (h.sent.length - h.sent.length) = h.handed.length
      omega
    rw [hstart]
    exact .subscribed (Nat.le_refl _)
  channel _ := by
    refine ⟨.subscribed (Nat.le_refl _), ?_⟩
    show h.handed.drop h.handed.length = h.sent.drop h.sent.length
    rw [List.drop_length, List.drop_length]
  lossless _ := rfl

theorem Attends.send {h : Hub μ} {c : Client μ} (hc : Attends h c) (hmem : c ∈ h.clients)
    (msg : μ) : Attends (h.send msg) c where
  joined_le := by
    have hle := hc.joined_le
    rw [Hub.send, List.length_append]
    omega
  reads := hc.reads.mono [msg]
  channel hconnected := by
    obtain ⟨hreads, hdrop⟩ := hc.channel hconnected
    have hany : h.clients.any Client.connected = true :=
      List.any_eq_true.mpr ⟨c, hmem, hconnected⟩
    have hsent : (h.send msg).sent = h.sent ++ [msg] := by rw [Hub.send, if_pos hany]
    have hstart : c.start ≤ h.sent.length := hreads.start_le.trans hreads.next_le
    rw [hsent]
    refine ⟨hreads.mono [msg], ?_⟩
    show (h.handed ++ [msg]).drop c.joined = (h.sent ++ [msg]).drop c.start
    rw [List.drop_append_of_le_length hc.joined_le, List.drop_append_of_le_length hstart, hdrop]
  lossless hfits := by
    refine hc.lossless ?_
    rw [Hub.send, List.length_append] at hfits
    omega

theorem Attends.deliver {h : Hub μ} {c : Client μ} {d : Delivery μ} (hc : Attends h c)
    (hconnected : c.connected = true) (hpoll : poll Hub.capacity h.sent c.next = some d) :
    Attends h (c.receive d) := by
  obtain ⟨hreads, hdrop⟩ := hc.channel hconnected
  have hnext := hreads.poll hpoll
  refine ⟨hc.joined_le, hnext.shift hc.joined_le hdrop, fun _ => ⟨hnext, hdrop⟩, fun hfits => ?_⟩
  have hnone := hc.lossless hfits
  cases d with
  | value x =>
      show missed (c.log ++ [.value x]) = 0
      rw [missed_append, hnone, missed_value]
  | lagged skipped =>
      -- a lag is longer than all that was sent since the client came
      have hfits : h.handed.length - c.joined ≤ Hub.capacity := hfits
      have hlag := (poll_eq_lagged hpoll).1
      have hstart := hreads.start_le
      have hlen := congrArg List.length hdrop
      rw [List.length_drop, List.length_drop] at hlen
      omega

theorem Attends.disconnect {h : Hub μ} {c : Client μ} (hc : Attends h c) :
    Attends h { c with connected := false } where
  joined_le := hc.joined_le
  reads := hc.reads
  channel hconnected := by cases hconnected
  lossless := hc.lossless

def Attended (h : Hub μ) : Prop := ∀ c ∈ h.clients, Attends h c

theorem Attended.send {h : Hub μ} (hh : Attended h) (msg : μ) : Attended (h.send msg) :=
  fun c hc => (hh c hc).send hc msg

/-- A client is replaced by what it becomes. -/
theorem Attended.replace {h : Hub μ} {before after : List (Client μ)} {c c' : Client μ}
    (hh : Attended h) (hclients : h.clients = before ++ c :: after) (hc : Attends h c') :
    Attended { h with clients := before ++ c' :: after } := by
  intro other hmem
  have hkept : other ∈ before ∨ other = c' ∨ other ∈ after := by
    simpa [List.mem_append] using hmem
  have hother : Attends h other := by
    rcases hkept with hbefore | rfl | hafter
    · exact hh other (by rw [hclients]; exact List.mem_append_left _ hbefore)
    · exact hc
    · exact hh other (by
        rw [hclients]
        exact List.mem_append_right _ (List.mem_cons_of_mem _ hafter))
  exact ⟨hother.joined_le, hother.reads, hother.channel, hother.lossless⟩

theorem Attended.step {E : Primitives} {rules : List HeaderRuleConfig} {h h' : Hub μ}
    (hh : Attended h) (hstep : Hub.Step E rules h h') : Attended h' := by
  cases hstep with
  | connect headers hadmitted =>
      intro c hc
      have hattends : Attends h c := by
        rcases List.mem_append.mp hc with hold | hnew
        · exact hh c hold
        · rw [List.mem_singleton.mp hnew]
          exact attends_subscribe h
      exact ⟨hattends.joined_le, hattends.reads, hattends.channel, hattends.lossless⟩
  | deliver hclients hconnected hpoll =>
      refine hh.replace hclients (Attends.deliver (hh _ ?_) hconnected hpoll)
      rw [hclients]
      exact List.mem_append_right _ List.mem_cons_self
  | disconnect hclients =>
      refine hh.replace hclients (Attends.disconnect (hh _ ?_))
      rw [hclients]
      exact List.mem_append_right _ List.mem_cons_self

theorem Hub.Step.handed {E : Primitives} {rules : List HeaderRuleConfig} {h h' : Hub μ}
    (hstep : Hub.Step E rules h h') : h'.handed = h.handed := by
  cases hstep <;> rfl

theorem sse_ran {E : Primitives} {rules : List HeaderRuleConfig} {msgs : List μ}
    {answers : List Outcome} {h : Hub μ} (hran : (sseSink E rules).Ran .new msgs answers h) :
    Attended h ∧ h.handed = msgs ∧ ∀ answer ∈ answers, answer = .ok := by
  induction hran with
  | start =>
      exact ⟨fun _ hc => absurd hc List.not_mem_nil, rfl,
        fun _ hanswer => absurd hanswer List.not_mem_nil⟩
  | idle _ hidle ih =>
      obtain ⟨hattended, hhanded, hok⟩ := ih
      exact ⟨hattended.step hidle, hidle.handed.trans hhanded, hok⟩
  | send _ hsend ih =>
      obtain ⟨hattended, hhanded, hok⟩ := ih
      obtain ⟨rfl, rfl⟩ := hsend
      refine ⟨hattended.send _, ?_, ?_⟩
      · show _ ++ _ = _
        rw [hhanded]
      · intro answer hanswer
        rcases List.mem_append.mp hanswer with hold | hnew
        · exact hok answer hold
        · exact List.mem_singleton.mp hnew

/-- An SSE sink answers whatever its clients do. -/
theorem sse_answers (E : Primitives) (rules : List HeaderRuleConfig) :
    (sseSink E rules : Sink μ (Hub μ)).Answers .new where
  send _ _ := ⟨_, _, _, .refl, rfl, rfl⟩
  flush _ := ⟨_, _, _, .refl, rfl, rfl⟩

/-- In every run, the stream of a client accounts, in order and each once, for all messages
its sink was handed since it came; those are some of the messages sent into the queue. It
misses none as long as the channel holds all of them, and nothing it does or fails to do
counts as an error of the sink. -/
theorem clients_account {S : Fin n → Sink μ (Hub μ)} {buffer : ℕ} {start : Fin n → Hub μ}
    {s : State μ (Hub μ) m n} (h : (system m S buffer start).Reachable s) {j : Fin n}
    {E : Primitives} {rules : List HeaderRuleConfig} (hsink : S j = sseSink E rules)
    (hstart : start j = .new) :
    (s.sinks j).phase ≠ .panicked ∧ (s.sinks j).error = 0 ∧
    ∀ c ∈ (s.sinks j).sink.clients,
      Reads (values (s.sinks j).log) c.joined c.log (c.joined + (c.next - c.start)) ∧
      (values c.log).Sublist s.sent ∧
      ((values (s.sinks j).log).length - c.joined ≤ Hub.capacity → missed c.log = 0) := by
  have haccount := ((sound_invariant m S buffer start).holds h).account j
  have hphase : (s.sinks j).phase ≠ .panicked := by
    refine (not_panicked_invariant ?_ ?_).holds h
    · rw [hsink]
      rintro msg hub answer hub' ⟨rfl, -⟩
      simp
    · rw [hsink]
      rintro hub answer hub' ⟨rfl, -⟩
      simp
  have hran : (sseSink E rules).Ran .new (values (s.sinks j).log) (s.sinks j).answers
      (s.sinks j).sink := by
    rw [hsink, hstart] at haccount
    cases hp : (s.sinks j).phase with
    | running => exact haccount.ran hp
    | exited =>
        obtain ⟨before, answer, after, hran, ⟨-, rfl⟩, -, hidles⟩ := haccount.flushed hp
        exact hran.idles hidles
    | panicked => exact absurd hp hphase
  obtain ⟨hattended, hhanded, hok⟩ := sse_ran hran
  refine ⟨hphase, ?_, fun c hc => ?_⟩
  · rw [haccount.error, List.countP_eq_zero]
    intro answer hanswer
    rw [hok answer hanswer]
    simp [isError]
  · have hattends := hattended c hc
    have hreads := hattends.reads
    have hlossless := hattends.lossless
    rw [hhanded] at hreads hlossless
    refine ⟨hreads, ?_, hlossless⟩
    have hqueue := haccount.reads.values_sublist.trans
      ((List.drop_sublist _ _).trans (List.take_sublist _ _))
    exact (hreads.values_sublist.trans
      ((List.drop_sublist _ _).trans (List.take_sublist _ _))).trans hqueue

/-- A client that comes between two messages. -/
theorem clients_account_sample :
    ∃ (s : State ℕ (Hub ℕ) 1 1) (c : Client ℕ), c ∈ (s.sinks 0).sink.clients ∧
      s.sent = [5, 7] ∧ c.log = [.value 7] ∧
      Reads (values (s.sinks 0).log) c.joined c.log (c.joined + (c.next - c.start)) := by
  have h0 : (system 1 (fun _ : Fin 1 => sseSink (samplePrimitives sampleCrypto) []) 8
    fun _ => (Hub.new : Hub ℕ)).Reachable _ := .init rfl
  have h1 := h0.next (.enqueue 0 5 rfl ⟨0, rfl⟩)
  have h2 := h1.next (.turn 0 false _ (by simp [State.Closed, State.created])
    (.value 5 .ok _ rfl rfl ⟨rfl, rfl⟩))
  have h3 := h2.next (.idle 0 _ (.connect [] rfl))
  have h4 := h3.next (.enqueue 0 7 rfl ⟨0, rfl⟩)
  have h5 := h4.next (.turn 0 false _ (by simp [State.Closed, State.created, State.set])
    (.value 7 .ok _ rfl rfl ⟨rfl, rfl⟩))
  have h6 := h5.next (.idle 0 _ (.deliver (show _ = [] ++ _ :: [] from rfl) rfl rfl))
  exact ⟨_, _, List.mem_cons_self, rfl, rfl,
    ((clients_account (j := 0) h6 rfl rfl).2.2 _ List.mem_cons_self).1⟩

end CdvizCollector.Pipeline
