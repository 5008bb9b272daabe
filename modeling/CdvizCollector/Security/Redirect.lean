import Mathlib.Data.List.Chain
import CdvizCollector.Security.Header

/-!
The redirect policy of a client with configured headers (`redirect_policy` in
`security/header.rs`), as the http sink and the sse source use it.

The policy compares every target with the first URL of the chain. A chain is
made of consecutive pairs, and the two differ once a trusted host was followed:
from there on, going back to an http origin is allowed although the hop itself
leads from https to http.
-/

namespace CdvizCollector.Security

open Lib.Http

inductive Action where
  | follow
  | stop
  | error (message : String)
deriving DecidableEq, Repr

/-- `redirect::Policy`: the decision by the URLs requested so far
(`attempt.previous()`, the first one is the configured one) and the target. -/
abbrev Policy := List Url → Url → Action

/-- `redirect_policy`; `default` is the policy of the HTTP client itself. -/
def redirectPolicy (default : Policy) (hasConfiguredHeaders : Bool) (trusted : TrustedHosts) :
    Policy := fun previous target =>
  if !hasConfiguredHeaders then default previous target
  else if previous.length > 10 then .error "too many redirects"
  else if previous.head?.all fun origin => mayForwardHeaders origin target trusted then .follow
  else .stop

/-- The targets a client has followed, in order, from a URL. -/
inductive Followed (policy : Policy) (url : Url) : List Url → Prop
  | nil : Followed policy url []
  | snoc {hops : List Url} {target : Url} (h : Followed policy url hops)
      (hfollow : policy (url :: hops) target = .follow) : Followed policy url (hops ++ [target])

/-- What a chain of redirects with configured headers must keep to. -/
structure Scoped (trusted : TrustedHosts) (url : Url) (hops : List Url) : Prop where
  target : ∀ hop ∈ hops, SameOrigin url hop ∨ TrustedTarget trusted hop
  secure : (url :: hops).IsChain NoDowngrade
  count : hops.length ≤ 10

section Policy

variable {default : Policy} {trusted : TrustedHosts} {url : Url}

theorem redirectPolicy_follow_iff {hops : List Url} {target : Url} :
    redirectPolicy default true trusted (url :: hops) target = .follow ↔
      hops.length < 10 ∧ mayForwardHeaders url target trusted = true := by
  have hall : (url :: hops).head?.all (fun origin => mayForwardHeaders origin target trusted) =
      mayForwardHeaders url target trusted := rfl
  unfold redirectPolicy
  rw [if_neg (by simp), List.length_cons, hall]
  by_cases hlen : hops.length + 1 > 10
  · rw [if_pos hlen]
    exact iff_of_false (by simp) fun h => by omega
  · rw [if_neg hlen]
    by_cases hmay : mayForwardHeaders url target trusted = true
    · rw [if_pos hmay]
      exact iff_of_true rfl ⟨by omega, hmay⟩
    · rw [if_neg hmay]
      exact iff_of_false (by simp) fun h => hmay h.2

/-- Every followed target is allowed from the first URL, and there are few. -/
theorem Followed.allowed {hops : List Url}
    (h : Followed (redirectPolicy default true trusted) url hops) :
    hops.length ≤ 10 ∧ ∀ hop ∈ hops, mayForwardHeaders url hop trusted = true := by
  induction h with
  | nil => exact ⟨by simp, by simp⟩
  | @snoc hops target _ hfollow ih =>
      obtain ⟨hlen, hmay⟩ := redirectPolicy_follow_iff.mp hfollow
      refine ⟨by rw [List.length_append, List.length_singleton]; omega, ?_⟩
      intro hop hmem
      rcases List.mem_append.mp hmem with hmem | hmem
      · exact ih.2 hop hmem
      · exact List.mem_singleton.mp hmem ▸ hmay

theorem scheme_of_mayForwardHeaders {hop : Url} (hurl : url.scheme = "https")
    (h : mayForwardHeaders url hop trusted = true) : hop.scheme = "https" := by
  rcases mayForwardHeaders_iff.mp h with hsame | ⟨-, hscheme⟩
  · exact hsame.scheme_eq ▸ hurl
  · exact hscheme hurl

theorem isChain_noDowngrade {hops : List Url} (h : ∀ hop ∈ hops, hop.scheme = url.scheme) :
    (url :: hops).IsChain NoDowngrade := by
  have hall : ∀ a ∈ url :: hops, a.scheme = url.scheme := by
    intro a hmem
    rcases List.mem_cons.mp hmem with rfl | hmem
    · rfl
    · exact h a hmem
  have hpair : (url :: hops).Pairwise NoDowngrade := by
    refine List.pairwise_of_forall_mem_list fun a ha b hb hscheme => ?_
    rw [hall b hb, ← hall a ha, hscheme]
  exact hpair.isChain

end Policy

/-- From an http URL, a trusted host is reached over https and left over http. -/
theorem followed_downgrade (default : Policy) {trusted : TrustedHosts} {url : Url} {host : Host}
    (hscheme : url.scheme ≠ "https") (hhost : trusted host = true) :
    ∃ secure plain, Followed (redirectPolicy default true trusted) url [secure, plain] ∧
      ¬NoDowngrade secure plain := by
  have hmay : ∀ target : Url, target.host = some host →
      mayForwardHeaders url target trusted = true := by
    intro target htarget
    exact mayForwardHeaders_iff.mpr (.inr ⟨⟨host, htarget, hhost⟩, fun h => absurd h hscheme⟩)
  let secure : Url := { url with scheme := "https", host := some host }
  let plain : Url := { url with scheme := "http", host := some host }
  have hfirst : Followed (redirectPolicy default true trusted) url [secure] :=
    .snoc .nil (redirectPolicy_follow_iff.mpr ⟨by simp, hmay secure rfl⟩)
  have hsecond : Followed (redirectPolicy default true trusted) url [secure, plain] :=
    .snoc hfirst (redirectPolicy_follow_iff.mpr ⟨by simp, hmay plain rfl⟩)
  refine ⟨secure, plain, hsecond, fun h => ?_⟩
  have hplain : plain.scheme = "https" := h rfl
  exact absurd hplain (by simp [plain])

/-- The policy keeps every chain within its scope exactly when the configured URL
is an https one or no host is trusted. -/
theorem redirectPolicy_scoped_iff (default : Policy) (trusted : TrustedHosts) (url : Url) :
    (∀ hops, Followed (redirectPolicy default true trusted) url hops → Scoped trusted url hops) ↔
      url.scheme = "https" ∨ ∀ host, trusted host = false := by
  constructor
  · intro hscoped
    by_contra hnot
    obtain ⟨hscheme, htrusted⟩ := not_or.mp hnot
    obtain ⟨host, hhost⟩ := not_forall.mp htrusted
    obtain ⟨secure, plain, hfollowed, hdown⟩ :=
      followed_downgrade default hscheme (Bool.not_eq_false _ ▸ hhost)
    have hchain := (hscoped _ hfollowed).secure
    exact hdown (List.isChain_cons_cons.mp (List.isChain_cons_cons.mp hchain).2).1
  · intro hcond hops hfollowed
    obtain ⟨hlen, hmay⟩ := hfollowed.allowed
    have htarget : ∀ hop ∈ hops, SameOrigin url hop ∨ TrustedTarget trusted hop := by
      intro hop hmem
      exact (mayForwardHeaders_iff.mp (hmay hop hmem)).imp_right And.left
    have hscheme : ∀ hop ∈ hops, hop.scheme = url.scheme := by
      intro hop hmem
      rcases hcond with hhttps | hnone
      · exact (scheme_of_mayForwardHeaders hhttps (hmay hop hmem)).trans hhttps.symm
      · rcases htarget hop hmem with hsame | ⟨host, -, htrusted⟩
        · exact hsame.scheme_eq.symm
        · exact absurd (hnone host) (by simp [htrusted])
    exact ⟨htarget, isChain_noDowngrade hscheme, hlen⟩

/-- With `b.example` trusted, a client configured with `http://a.example/` follows
a redirect to `https://b.example/` and from there one to `http://b.example/`. -/
theorem redirect_leaves_https :
    Followed (redirectPolicy (fun _ _ => .stop) true fun host => host = .domain "b.example")
        (siteRoot "http" "a.example")
        [siteRoot "https" "b.example", siteRoot "http" "b.example"] ∧
      ¬Scoped (fun host => host = .domain "b.example") (siteRoot "http" "a.example")
        [siteRoot "https" "b.example", siteRoot "http" "b.example"] := by
  constructor
  · have hfirst : Followed
        (redirectPolicy (fun _ _ => .stop) true fun host => host = .domain "b.example")
        (siteRoot "http" "a.example") [siteRoot "https" "b.example"] :=
      .snoc .nil (by decide)
    exact .snoc hfirst (by decide)
  · intro hscoped
    have hchain := List.isChain_cons_cons.mp hscoped.secure
    have hhop : NoDowngrade (siteRoot "https" "b.example") (siteRoot "http" "b.example") :=
      (List.isChain_cons_cons.mp hchain.2).1
    exact absurd (hhop rfl) (by decide)

end CdvizCollector.Security
