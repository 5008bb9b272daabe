import CdvizCollector.Sources.HttpPolling.RetryAfter

/-!
How long a call of the middleware goes on, and what it returns.

A round that sends again takes one from what is left of the two limits, whichever of its
branches it is; every other one returns. The outcomes of the sends are any sequence.
-/

namespace CdvizCollector.Sources.HttpPolling.RetryAfter

open Lib Lib.Http Security

/-- A response as it is received, with what it is read with. Its body is passed on unread. -/
structure Received (β : Type) where
  reader : Reader
  response : Response
  body : β

/-- The state in which the loop is left, and what is returned. -/
structure Returned (ε β : Type) where
  call : Call
  result : Except ε (Response × β)

/-- How often a call may send again. -/
def Call.remaining (s : Call) : ℕ :=
  (maxRedirects - s.redirectCount) + (maxRetries - s.retryCount)

theorem SendsAgain.remaining_lt {M : RetryAfterMiddleware} {s t : Call} (h : SendsAgain M s t) :
    t.remaining < s.remaining := by
  unfold Call.remaining
  rcases h.counted with ⟨hredirect, hretry, hlt⟩ | ⟨hredirect, hretry, hlt⟩ <;> omega

theorem remaining_handle {M : RetryAfterMiddleware} {R : Reader} {s : Call} {resp : Response}
    (h : (M.handle R s resp).result.join = none) : (M.handle R s resp).remaining < s.remaining := by
  rcases handle_cases M R s resp with heq | hagain
  · rw [heq] at h
    contradiction
  · exact hagain.remaining_lt

variable {ε β : Type}

/-- The loop of `handle`, when the sends come out like this, the first one first. -/
def RetryAfterMiddleware.loop (M : RetryAfterMiddleware) (outcomes : ℕ → Except ε (Received β))
    (s : Call) : Returned ε β :=
  match outcomes (s.sent.length - 1) with
  | .error e => ⟨{ s with result := some none }, .error e⟩
  | .ok received =>
      let next := M.handle received.reader s received.response
      match _h : next.result.join with
      | some response => ⟨next, .ok (response, received.body)⟩
      | none => M.loop outcomes next
termination_by s.remaining
decreasing_by exact remaining_handle _h

section Loop

variable {M : RetryAfterMiddleware} {outcomes : ℕ → Except ε (Received β)} {s : Call}

theorem loop_of_error {e : ε} (h : outcomes (s.sent.length - 1) = .error e) :
    M.loop outcomes s = ⟨{ s with result := some none }, .error e⟩ := by
  rw [RetryAfterMiddleware.loop, h]

theorem loop_of_return {received : Received β} (h : outcomes (s.sent.length - 1) = .ok received)
    (hreturn : M.handle received.reader s received.response = s.return received.response) :
    M.loop outcomes s = ⟨s.return received.response, .ok (received.response, received.body)⟩ := by
  rw [RetryAfterMiddleware.loop, h]
  dsimp only
  split
  · rename_i response hresponse
    rw [hreturn] at hresponse ⊢
    cases hresponse
    rfl
  · rename_i hnone
    rw [hreturn] at hnone
    contradiction

theorem loop_of_sendsAgain {received : Received β}
    (h : outcomes (s.sent.length - 1) = .ok received)
    (hrunning : (M.handle received.reader s received.response).result = none) :
    M.loop outcomes s =
      M.loop outcomes (M.handle received.reader s received.response) := by
  rw [RetryAfterMiddleware.loop, h]
  dsimp only
  split
  · rename_i response hresponse
    rw [hrunning] at hresponse
    contradiction
  · rfl

/-- The loop is a run of the middleware, and returns how its last send came out. -/
theorem loop_spec {req : Request} (hs : (system M req).Reachable s) (hrunning : s.result = none) :
    (system M req).Reachable (M.loop outcomes s).call ∧
      (M.loop outcomes s).result =
        (outcomes ((M.loop outcomes s).call.sent.length - 1)).map fun received =>
          (received.response, received.body) := by
  -- on what is left of the two limits, whichever a round takes from
  induction hleft : s.remaining using Nat.strongRecOn generalizing s with
  | ind n ih =>
      cases houtcome : outcomes (s.sent.length - 1) with
      | error e =>
          rw [loop_of_error houtcome]
          refine ⟨hs.next (.failed hrunning), ?_⟩
          dsimp only
          rw [houtcome]
          rfl
      | ok received =>
          have hstep := reachable_handle hs hrunning received.reader received.response
          rcases handle_cases M received.reader s received.response with hreturn | hagain
          · rw [loop_of_return houtcome hreturn]
            refine ⟨hreturn ▸ hstep, ?_⟩
            have hsent : (s.return received.response).sent = s.sent := rfl
            dsimp only
            rw [hsent, houtcome]
            rfl
          · have hnext := hagain.result.trans hrunning
            rw [loop_of_sendsAgain houtcome hnext]
            exact ih _ (hleft ▸ hagain.remaining_lt) hstep hnext rfl

end Loop

/-- Whatever the responses are, a call sends no more often than its two limits allow, and
returns the last response it received, or the error of its last send. -/
theorem handle_returns_last (M : RetryAfterMiddleware) (req : Request)
    (outcomes : ℕ → Except ε (Received β)) :
    (M.loop outcomes (.start req)).call.sent.length ≤ 1 + maxRedirects + maxRetries ∧
      (M.loop outcomes (.start req)).result =
        (outcomes ((M.loop outcomes (.start req)).call.sent.length - 1)).map fun received =>
          (received.response, received.body) := by
  obtain ⟨hreach, hresult⟩ := loop_spec (.init rfl : (system M req).Reachable _) rfl
  have hsent := sent_length_le hreach
  exact ⟨by omega, hresult⟩

end CdvizCollector.Sources.HttpPolling.RetryAfter
