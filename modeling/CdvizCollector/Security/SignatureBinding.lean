import CdvizCollector.Lib.Delimited
import CdvizCollector.Security.SignatureCheck

/-!
What a signature on headers and body binds.

The payload holds the values of the listed headers that are present, each with the
separator behind it, then the body. A header that is absent is left out, so the
payload does not tell which of the listed headers its values belong to, nor where
the values end and the body begins. Two requests with one signature have the same
payload: as long as values are without the separator, the values of one begin
those of the other.
-/

namespace CdvizCollector.Security

open Lib Lib.Http

/-- The values of the listed headers that are present. -/
def coveredValues (listed : List String) (headers : HeaderMap) : List (List UInt8) :=
  listed.filterMap fun header => (headers.getStr header).map HeaderValue.bytes

/-- The HMAC tells two payloads apart, whatever the key. -/
def ToldApart (C : Crypto) (payload payload' : List UInt8) : Prop :=
  ∀ key, C.hmacSha256 key payload = C.hmacSha256 key payload' → payload = payload'

theorem payload_eq_delimited {separator : String} {sep : UInt8}
    (hsep : Text.utf8 separator = [sep]) (listed : List String) (headers : HeaderMap)
    (body : List UInt8) :
    payloadPrefix (.headersThenBody separator listed) headers ++ body =
      delimited sep (coveredValues listed headers) body := by
  induction listed with
  | nil => rfl
  | cons header listed ih =>
      cases hvalue : headers.getStr header with
      | none =>
          have hskip : payloadPrefix (.headersThenBody separator (header :: listed)) headers =
              payloadPrefix (.headersThenBody separator listed) headers := by
            simp [payloadPrefix, hvalue]
          rw [hskip, ih]
          simp [coveredValues, hvalue]
      | some value =>
          have hput : payloadPrefix (.headersThenBody separator (header :: listed)) headers =
              value.bytes ++ [sep] ++
                payloadPrefix (.headersThenBody separator listed) headers := by
            simp [payloadPrefix, hvalue, hsep]
          rw [hput, List.append_assoc, ih]
          simp [coveredValues, hvalue]

/-- A second request with the signature of an accepted one is accepted exactly when
its payload is the same. -/
theorem checkSignature_iff_payload {C : Crypto} (hC : C.Lawful) {config : SignatureConfig}
    {headers headers' : HeaderMap} {body body' : List UInt8}
    (hsame : (headers'.getStr config.header).map HeaderValue.bytes =
      (headers.getStr config.header).map HeaderValue.bytes)
    (hapart : ToldApart C (payloadPrefix config.signatureOn headers ++ body)
      (payloadPrefix config.signatureOn headers' ++ body'))
    (hok : checkSignature C config headers body = .ok ()) :
    checkSignature C config headers' body' = .ok () ↔
      payloadPrefix config.signatureOn headers ++ body =
        payloadPrefix config.signatureOn headers' ++ body' := by
  have hstart := visible_of_checkSignature hok
  obtain ⟨value, -, hvalue, -⟩ := exists_rest_of_checkSignature hok
  obtain ⟨value', hvalue', hbytes⟩ : ∃ value', headers'.getStr config.header = some value' ∧
      value'.bytes = value.bytes := by
    rw [hvalue, Option.map_some, Option.map_eq_some_iff] at hsame
    exact hsame
  obtain ⟨rest, hrest, key, hkey, hauth⟩ := (checkSignature_eq_ok_iff hC hstart hvalue).mp hok
  rw [checkSignature_eq_ok_iff hC hstart hvalue']
  constructor
  · rintro ⟨rest', hrest', key', hkey', hauth'⟩
    obtain rfl : rest = rest' :=
      List.append_cancel_left (hrest.symm.trans (hbytes.symm.trans hrest'))
    obtain rfl : key = key' := Except.ok.inj (hkey.symm.trans hkey')
    exact hapart key (Option.some.inj (hauth.symm.trans hauth'))
  · intro hpayload
    exact ⟨rest, hbytes.trans hrest, key, hkey, hpayload ▸ hauth⟩

/-- The requests agree on the listed headers, each by its first value, and on the
body. -/
def Agree (listed : List String) (headers headers' : HeaderMap) (body body' : List UInt8) : Prop :=
  (∀ header ∈ listed, (headers'.getStr header).map HeaderValue.bytes =
    (headers.getStr header).map HeaderValue.bytes) ∧ body' = body

def SamePresence (listed : List String) (headers headers' : HeaderMap) : Prop :=
  ∀ header ∈ listed, (headers'.getStr header).isSome = (headers.getStr header).isSome

/-- A signature binds the values that are present and the body, up to the place
where the one ends and the other begins: the values of one request begin those of
the other, and what is left of them begins its body. Requests with the same listed
headers agree on each of them and on the body. -/
theorem signature_binds_present {C : Crypto} (hC : C.Lawful) {config : SignatureConfig}
    {separator : String} {listed : List String}
    (hon : config.signatureOn = .headersThenBody separator listed) {sep : UInt8}
    (hsep : Text.utf8 separator = [sep]) {headers headers' : HeaderMap} {body body' : List UInt8}
    (hfree : ∀ value ∈ coveredValues listed headers, sep ∉ value)
    (hfree' : ∀ value ∈ coveredValues listed headers', sep ∉ value)
    (hsame : (headers'.getStr config.header).map HeaderValue.bytes =
      (headers.getStr config.header).map HeaderValue.bytes)
    (hapart : ToldApart C (payloadPrefix config.signatureOn headers ++ body)
      (payloadPrefix config.signatureOn headers' ++ body'))
    (hok : checkSignature C config headers body = .ok ()) :
    (checkSignature C config headers' body' = .ok () ↔
      Cut sep (coveredValues listed headers) body (coveredValues listed headers') body' ∨
        Cut sep (coveredValues listed headers') body' (coveredValues listed headers) body) ∧
    (checkSignature C config headers' body' = .ok () → SamePresence listed headers headers' →
      Agree listed headers headers' body body') := by
  have hcut := checkSignature_iff_payload hC hsame hapart hok
  rw [hon, payload_eq_delimited hsep, payload_eq_delimited hsep,
    delimited_eq_iff hfree hfree'] at hcut
  refine ⟨hcut, fun hok' hpresence => ?_⟩
  have hsome : ∀ header ∈ listed, ((headers.getStr header).map HeaderValue.bytes).isSome =
      ((headers'.getStr header).map HeaderValue.bytes).isSome := fun header hmem => by
    rw [Option.isSome_map, Option.isSome_map, hpresence header hmem]
  -- the same headers give as many values, which leaves no room for a cut
  have hlength := length_filterMap_eq hsome
  have heq : coveredValues listed headers = coveredValues listed headers' ∧ body = body' := by
    rcases hcut.mp hok' with h | h
    · exact h.eq_of_length hlength
    · exact (h.eq_of_length hlength.symm).imp Eq.symm Eq.symm
  exact ⟨fun header hmem => (forall_eq_of_filterMap_eq heq.1 hsome header hmem).symm, heq.2.symm⟩

/-- HMAC-SHA256 where the sample needs it, and an injection. -/
def distinctMac (key payload : List UInt8) : List UInt8 :=
  if key = Text.utf8 "secret" ∧ payload = Text.utf8 "42\nhi" then
    sampleCrypto.hmacSha256 key payload
  else 0 :: payload

theorem distinctMac_injective (key : List UInt8) : Function.Injective (distinctMac key) := by
  have hmac : (sampleCrypto.hmacSha256 (Text.utf8 "secret") (Text.utf8 "42\nhi")).head? =
      some 30 := by decide
  intro payload payload' h
  unfold distinctMac at h
  split at h
  · rename_i hsample
    rw [hsample.1, hsample.2] at h
    split at h
    · rename_i hsample'
      rw [hsample.2, hsample'.2]
    · rw [h] at hmac
      cases hmac
  · split at h
    · rename_i hsample'
      rw [hsample'.1, hsample'.2] at h
      rw [← h] at hmac
      cases hmac
    · exact List.tail_eq_of_cons_eq h

def boundConfig : SignatureConfig :=
  { sampleConfig with signatureOn := .headersThenBody "\n" ["X-Id", "X-Kind"] }

/-- A request with the value 42 in a header, signed with the body `hi`. -/
def boundHeaders (header : String) : HeaderMap :=
  [(header, "42"),
    ("x-signature",
      "sha256=1eb9880c0ec851a7e55b30f4a1d2f70c44275f050d58dcef7726755f086425a8")].flatMap
    fun line => (HeaderName.fromStr line.1).toList.flatMap fun name =>
      (HeaderValue.fromStr line.2).toList.map fun value => (name, value)

/-- A header and another one with the same value, each without the other. -/
theorem presence_not_bound :
    ∃ C : Crypto, C.Lawful ∧ (∀ key, Function.Injective (C.hmacSha256 key)) ∧
      Text.utf8 "\n" = [10] ∧
      (∀ value ∈ coveredValues ["X-Id", "X-Kind"] (boundHeaders "x-id"), 10 ∉ value) ∧
      (∀ value ∈ coveredValues ["X-Id", "X-Kind"] (boundHeaders "x-kind"), 10 ∉ value) ∧
      checkSignature C boundConfig (boundHeaders "x-id") (Text.utf8 "hi") = .ok () ∧
      checkSignature C boundConfig (boundHeaders "x-kind") (Text.utf8 "hi") = .ok () ∧
      (boundHeaders "x-kind").getStr "X-Signature" = (boundHeaders "x-id").getStr "X-Signature" ∧
      ¬Agree ["X-Id", "X-Kind"] (boundHeaders "x-id") (boundHeaders "x-kind") (Text.utf8 "hi")
        (Text.utf8 "hi") := by
  refine ⟨standardCrypto distinctMac, standardCrypto_lawful _, distinctMac_injective, by decide,
    by decide, by decide, by decide, by decide, by decide, fun hagree => ?_⟩
  have hid := hagree.1 "X-Id" List.mem_cons_self
  revert hid
  decide

theorem signature_binds_present_sample :
    Cut 10 (coveredValues ["X-Id", "X-Kind"] (boundHeaders "x-id")) (Text.utf8 "hi")
        (coveredValues ["X-Id", "X-Kind"] (boundHeaders "x-kind")) (Text.utf8 "hi") ∨
      Cut 10 (coveredValues ["X-Id", "X-Kind"] (boundHeaders "x-kind")) (Text.utf8 "hi")
        (coveredValues ["X-Id", "X-Kind"] (boundHeaders "x-id")) (Text.utf8 "hi") :=
  (signature_binds_present (standardCrypto_lawful distinctMac)
    (show boundConfig.signatureOn = .headersThenBody "\n" ["X-Id", "X-Kind"] from rfl) (by decide)
    (by decide) (by decide) (by decide) (fun key h => distinctMac_injective key h)
    (by decide)).1.mp (by decide)

end CdvizCollector.Security
