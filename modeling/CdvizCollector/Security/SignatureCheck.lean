import CdvizCollector.Lib.Codec
import CdvizCollector.Lib.Result
import CdvizCollector.Security.Signature

/-!
Building a signature and checking one agree.

`build_signature` and `check_signature` are written apart: one encodes and puts
a prefix in front, the other strips the prefix and decodes. Under the laws of the
two codecs a value is accepted exactly when it is the prefix followed by a text
that decodes to the HMAC of the payload, and what is built is such a value.
-/

namespace CdvizCollector.Security

open Lib Lib.Http

/-! ### The codecs -/

def Crypto.encode (C : Crypto) : Encoding → List UInt8 → String
  | .base64 => C.base64Encode
  | .hex => C.hexString

def Crypto.decode (C : Crypto) : Encoding → List UInt8 → Option (List UInt8)
  | .base64 => C.base64Decode
  | .hex => C.hexDecode

/-- What the code relies on of the codecs: decoding undoes encoding, it accepts
visible ASCII only, and hexadecimal only in pairs. -/
structure Crypto.Lawful (C : Crypto) : Prop where
  roundTrip : ∀ enc bytes, C.decode enc (Text.utf8 (C.encode enc bytes)) = some bytes
  visible : ∀ {enc text bytes}, C.decode enc text = some bytes → text.all isVisibleAscii = true
  hexEven : ∀ {text bytes}, C.hexDecode text = some bytes → text.length % 2 = 0

/-- The codecs themselves, around an HMAC. -/
def standardCrypto (hmacSha256 : List UInt8 → List UInt8 → List UInt8) : Crypto where
  hmacSha256 := hmacSha256
  base64Encode bytes := Text.ofAscii (Codec.base64Bytes bytes)
  base64Decode := Codec.base64Decode
  hexString bytes := Text.ofAscii (Codec.hexBytes bytes)
  hexDecode := Codec.hexDecode

theorem isVisibleAscii_of_printable {b : UInt8} (h : Codec.Printable b) :
    isVisibleAscii b = true := by
  have h32 : (32 : UInt8).toNat = 32 := rfl
  have h127 : (127 : UInt8).toNat = 127 := rfl
  simp only [isVisibleAscii, Bool.or_eq_true, Bool.and_eq_true, decide_eq_true_eq,
    UInt8.le_iff_toNat_le, UInt8.lt_iff_toNat_lt, h32, h127]
  exact .inl ⟨by have := h.1; omega, h.2⟩

theorem all_isVisibleAscii {text : List UInt8} (h : ∀ b ∈ text, Codec.Printable b) :
    text.all isVisibleAscii = true :=
  List.all_eq_true.mpr fun b hb => isVisibleAscii_of_printable (h b hb)

theorem utf8_ofAscii_of_decode {text bytes : List UInt8}
    (h : Codec.base64Decode text = some bytes ∨ Codec.hexDecode text = some bytes) :
    Text.utf8 (Text.ofAscii text) = text := by
  refine Text.utf8_ofAscii fun b hb => ?_
  have hprintable : Codec.Printable b := by
    rcases h with h | h
    · exact Codec.base64Decode_printable h b hb
    · exact (Codec.hexDecode_spec h).2 b hb
  have := hprintable.2
  omega

theorem standardCrypto_lawful (hmacSha256 : List UInt8 → List UInt8 → List UInt8) :
    (standardCrypto hmacSha256).Lawful where
  roundTrip enc bytes := by
    cases enc with
    | base64 =>
        have h := Codec.base64Decode_base64Bytes bytes
        show Codec.base64Decode (Text.utf8 (Text.ofAscii _)) = some bytes
        rw [utf8_ofAscii_of_decode (.inl h), h]
    | hex =>
        have h := Codec.hexDecode_hexBytes bytes
        show Codec.hexDecode (Text.utf8 (Text.ofAscii _)) = some bytes
        rw [utf8_ofAscii_of_decode (.inr h), h]
  visible {enc text bytes} h := by
    cases enc with
    | base64 => exact all_isVisibleAscii (Codec.base64Decode_printable h)
    | hex => exact all_isVisibleAscii (Codec.hexDecode_spec h).2
  hexEven h := (Codec.hexDecode_spec h).1

/-! ### What is accepted -/

/-- The text in front of a signature. -/
def SignatureConfig.startText (config : SignatureConfig) : String :=
  config.signaturePrefix.getD ""

/-- The payload is authenticated by `bytes`, read as a signature after its
prefix. -/
def Authentic (C : Crypto) (config : SignatureConfig) (httpHeaders : HeaderMap)
    (httpBody bytes : List UInt8) : Prop :=
  ∃ key, tokenBytes C config = .ok key ∧ C.decode config.signatureEncoding bytes =
    some (C.hmacSha256 key (payloadPrefix config.signatureOn httpHeaders ++ httpBody))

theorem stripStart_eq_some_iff {start s rest : String} :
    stripStart start s = some rest ↔ s = start ++ rest := by
  unfold stripStart
  by_cases h : start.toList.isPrefixOf s.toList = true
  · rw [if_pos h]
    obtain ⟨tail, htail⟩ := List.isPrefixOf_iff_prefix.mp h
    have hdrop : s.toList.drop start.toList.length = tail := by
      rw [← htail, List.drop_left]
    rw [hdrop, Option.some.injEq, ← String.toList_inj, ← String.toList_inj, String.toList_append,
      String.toList_ofList, ← htail, List.append_cancel_left_eq]
  · rw [if_neg h]
    refine iff_of_false (by simp) fun heq => h ?_
    rw [heq, String.toList_append]
    exact List.isPrefixOf_iff_prefix.mpr (List.prefix_append _ _)

/-- Stripping the configured prefix, which may be absent. -/
theorem strip_startText_iff {config : SignatureConfig} {s rest : String} :
    (match config.signaturePrefix with
      | some start => stripStart start s
      | none => some s) = some rest ↔ s = config.startText ++ rest := by
  unfold SignatureConfig.startText
  cases config.signaturePrefix with
  | some start => exact stripStart_eq_some_iff
  | none => simp

/-- The guard on the length of a hexadecimal signature changes nothing. -/
theorem decode_guarded {C : Crypto} (hC : C.Lawful) (enc : Encoding) (bytes : List UInt8) :
    (match enc with
      | .base64 => C.base64Decode bytes
      | .hex => if bytes.length % 2 = 0 then C.hexDecode bytes else none) =
      C.decode enc bytes := by
  cases enc with
  | base64 => rfl
  | hex =>
      by_cases hlen : bytes.length % 2 = 0
      · exact if_pos hlen
      · rw [if_neg hlen]
        cases hdecode : C.decode .hex bytes with
        | none => rfl
        | some decoded => exact absurd (hC.hexEven hdecode) hlen

theorem buildMac_eq_ok_iff {C : Crypto} {config : SignatureConfig} {httpHeaders : HeaderMap}
    {httpBody mac : List UInt8} :
    buildMac C config httpHeaders httpBody = .ok mac ↔ ∃ key, tokenBytes C config = .ok key ∧
      mac = C.hmacSha256 key (payloadPrefix config.signatureOn httpHeaders ++ httpBody) := by
  rw [buildMac, bind_pure_eq_ok_iff]
  exact exists_congr fun key => and_congr_right fun _ => eq_comm

/-- A decoded signature is accepted when it is the MAC of the request. -/
theorem verify_eq_ok_iff {C : Crypto} {config : SignatureConfig} {httpHeaders : HeaderMap}
    {httpBody decoded : List UInt8} :
    (do
      let mac ← buildMac C config httpHeaders httpBody
      if decoded = mac then return () else throw SignatureError.verificationMismatch) = .ok () ↔
      buildMac C config httpHeaders httpBody = .ok decoded := by
  rw [bind_eq_ok_iff]
  constructor
  · rintro ⟨mac, hmac, h⟩
    split at h
    · rename_i heq
      rw [hmac, heq]
    · cases h
  · intro hmac
    exact ⟨decoded, hmac, if_pos rfl⟩

theorem authentic_iff {C : Crypto} {config : SignatureConfig} {httpHeaders : HeaderMap}
    {httpBody bytes : List UInt8} :
    Authentic C config httpHeaders httpBody bytes ↔ ∃ decoded,
      C.decode config.signatureEncoding bytes = some decoded ∧
        buildMac C config httpHeaders httpBody = .ok decoded := by
  simp only [Authentic, buildMac_eq_ok_iff]
  constructor
  · rintro ⟨key, hkey, hdecode⟩
    exact ⟨_, hdecode, key, hkey, rfl⟩
  · rintro ⟨_, hdecode, key, hkey, rfl⟩
    exact ⟨key, hkey, hdecode⟩

/-- A value that starts with the prefix is accepted when the rest is authentic. -/
theorem checkSignature_iff_authentic {C : Crypto} (hC : C.Lawful) {config : SignatureConfig}
    {httpHeaders : HeaderMap} {httpBody : List UInt8} {value : HeaderValue} {rest : String}
    (hvalue : httpHeaders.getStr config.header = some value)
    (htext : value.toStr = some (config.startText ++ rest)) :
    checkSignature C config httpHeaders httpBody = .ok () ↔
      Authentic C config httpHeaders httpBody (Text.utf8 rest) := by
  have hstrip := strip_startText_iff.mpr (rfl : config.startText ++ rest = config.startText ++ rest)
  have hguard := decode_guarded hC config.signatureEncoding (Text.utf8 rest)
  rw [authentic_iff]
  unfold checkSignature
  rw [hvalue, Option.bind_some, htext]
  simp only
  split
  · rename_i hnone
    exact absurd (hnone.symm.trans hstrip) (by simp)
  · rename_i rest' hsome
    obtain rfl : rest' = rest := Option.some.inj (hsome.symm.trans hstrip)
    split
    · rename_i hnone
      rw [hguard.symm.trans hnone]
      simp
    · rename_i decoded hsome
      rw [hguard.symm.trans hsome, verify_eq_ok_iff]
      simp

/-- What is accepted starts with the prefix. -/
theorem exists_rest_of_checkSignature {C : Crypto} {config : SignatureConfig}
    {httpHeaders : HeaderMap} {httpBody : List UInt8}
    (h : checkSignature C config httpHeaders httpBody = .ok ()) :
    ∃ value rest, httpHeaders.getStr config.header = some value ∧
      value.toStr = some (config.startText ++ rest) := by
  unfold checkSignature at h
  cases hvalue : httpHeaders.getStr config.header with
  | none => simp [hvalue] at h
  | some value =>
      rw [hvalue, Option.bind_some] at h
      cases htext : value.toStr with
      | none => simp [htext] at h
      | some text =>
          simp only [htext] at h
          split at h
          · cases h
          · rename_i rest hstrip
            exact ⟨value, rest, rfl, strip_startText_iff.mp hstrip ▸ htext⟩

/-- Nothing is accepted when the prefix cannot be read in a header. -/
theorem visible_of_checkSignature {C : Crypto} {config : SignatureConfig}
    {httpHeaders : HeaderMap} {httpBody : List UInt8}
    (h : checkSignature C config httpHeaders httpBody = .ok ()) :
    (Text.utf8 config.startText).all isVisibleAscii = true := by
  obtain ⟨value, rest, -, htext⟩ := exists_rest_of_checkSignature h
  obtain ⟨hvisible, hbytes⟩ := HeaderValue.toStr_eq_some_iff.mp htext
  rw [← hbytes, Text.utf8_append, List.all_append, Bool.and_eq_true] at hvisible
  exact hvisible.1

/-- A header value is accepted exactly when its bytes are the prefix and then an
authentic signature. -/
theorem checkSignature_eq_ok_iff {C : Crypto} (hC : C.Lawful) {config : SignatureConfig}
    (hstart : (Text.utf8 config.startText).all isVisibleAscii = true) {httpHeaders : HeaderMap}
    {httpBody : List UInt8} {value : HeaderValue}
    (hvalue : httpHeaders.getStr config.header = some value) :
    checkSignature C config httpHeaders httpBody = .ok () ↔
      ∃ rest, value.bytes = Text.utf8 config.startText ++ rest ∧
        Authentic C config httpHeaders httpBody rest := by
  constructor
  · intro h
    obtain ⟨_, rest, hvalue', htext⟩ := exists_rest_of_checkSignature h
    obtain rfl := Option.some.inj (hvalue.symm.trans hvalue')
    refine ⟨Text.utf8 rest, ?_, (checkSignature_iff_authentic hC hvalue htext).mp h⟩
    rw [← Text.utf8_append, (HeaderValue.toStr_eq_some_iff.mp htext).2]
  · rintro ⟨rest, hbytes, hauth⟩
    have ⟨_, _, hdecode⟩ := hauth
    have hvisible := hC.visible hdecode
    have hrest : Text.utf8 (Text.ofAscii rest) = rest := Text.utf8_ofAscii fun b hb =>
      toNat_lt_of_isVisibleAscii (List.all_eq_true.mp hvisible b hb)
    have htext : value.toStr = some (config.startText ++ Text.ofAscii rest) := by
      rw [HeaderValue.toStr_eq_some_iff, hbytes, List.all_append, hstart, hvisible,
        Text.utf8_append, hrest]
      exact ⟨rfl, rfl⟩
    exact (checkSignature_iff_authentic hC hvalue htext).mpr (hrest.symm ▸ hauth)

/-! ### What is built -/

/-- A signature as it is written: the prefix and the encoded HMAC of a payload. -/
def SignatureConfig.text (C : Crypto) (config : SignatureConfig) (key payload : List UInt8) :
    String :=
  config.startText ++ C.encode config.signatureEncoding (C.hmacSha256 key payload)

theorem buildSignature_eq_ok_iff {C : Crypto} {config : SignatureConfig}
    {httpHeaders : HeaderMap} {httpBody : List UInt8} {signature : String} :
    buildSignature C config httpHeaders httpBody = .ok signature ↔
      ∃ key, tokenBytes C config = .ok key ∧
        signature =
          config.text C key (payloadPrefix config.signatureOn httpHeaders ++ httpBody) := by
  unfold buildSignature buildMac SignatureConfig.text SignatureConfig.startText
  cases htoken : tokenBytes C config with
  | error e => simp [bind, Except.bind]
  | ok key =>
      cases config.signaturePrefix <;> cases config.signatureEncoding <;>
        simp [bind, Except.bind, pure, Except.pure, Crypto.encode, eq_comm]

theorem all_isValueByte {bytes : List UInt8} (h : bytes.all isVisibleAscii = true) :
    bytes.all isValueByte = true :=
  List.all_eq_true.mpr fun b hb => isValueByte_of_isVisibleAscii (List.all_eq_true.mp h b hb)

theorem getStr_insert_of_ne {header : String} {name : HeaderName}
    (hne : HeaderName.fromStr header ≠ some name) (headers : HeaderMap) (value : HeaderValue) :
    (headers.insert name value).getStr header = headers.getStr header := by
  unfold HeaderMap.getStr
  cases hheader : HeaderName.fromStr header with
  | none => rfl
  | some name' =>
      rw [Option.bind_some, Option.bind_some]
      exact HeaderMap.get_insert_of_ne (fun heq => hne (hheader.trans (congrArg some heq)))
        headers value

/-- A value that is the signature of some payload is accepted when the HMAC does
not tell this payload from the one of the request. -/
theorem checkSignature_text_iff {C : Crypto} (hC : C.Lawful) {config : SignatureConfig}
    (hstart : (Text.utf8 config.startText).all isVisibleAscii = true) {httpHeaders : HeaderMap}
    {httpBody key payload : List UInt8} {value : HeaderValue}
    (hvalue : httpHeaders.getStr config.header = some value)
    (hkey : tokenBytes C config = .ok key)
    (hbytes : value.bytes = Text.utf8 (config.text C key payload)) :
    checkSignature C config httpHeaders httpBody = .ok () ↔
      C.hmacSha256 key payload =
        C.hmacSha256 key (payloadPrefix config.signatureOn httpHeaders ++ httpBody) := by
  have hdecode := hC.roundTrip config.signatureEncoding (C.hmacSha256 key payload)
  rw [checkSignature_eq_ok_iff hC hstart hvalue, hbytes, SignatureConfig.text, Text.utf8_append]
  constructor
  · rintro ⟨rest, hrest, key', hkey', hauth⟩
    obtain rfl := List.append_cancel_left hrest
    obtain rfl : key = key' := Except.ok.inj (hkey.symm.trans hkey')
    exact Option.some.inj (hdecode.symm.trans hauth)
  · intro heq
    exact ⟨_, rfl, key, hkey, hdecode.trans (congrArg some heq)⟩

/-- A built signature is accepted once it is set. -/
theorem checkSignature_of_buildSignature {C : Crypto} (hC : C.Lawful) {config : SignatureConfig}
    (hstart : (Text.utf8 config.startText).all isVisibleAscii = true) {httpHeaders : HeaderMap}
    {httpBody : List UInt8} {name : HeaderName} {signature : String}
    (hname : HeaderName.fromStr config.header = some name)
    (hlisted : ∀ header ∈ config.signatureOn.names, HeaderName.fromStr header ≠ some name)
    (hbuild : buildSignature C config httpHeaders httpBody = .ok signature) :
    ∃ value, HeaderValue.fromStr signature = some value ∧
      checkSignature C config (httpHeaders.insert name value) httpBody = .ok () := by
  obtain ⟨key, hkey, rfl⟩ := buildSignature_eq_ok_iff.mp hbuild
  have hdecode := hC.roundTrip config.signatureEncoding
    (C.hmacSha256 key (payloadPrefix config.signatureOn httpHeaders ++ httpBody))
  have hvisible : (Text.utf8 (config.text C key (payloadPrefix config.signatureOn httpHeaders ++
      httpBody))).all isVisibleAscii = true := by
    rw [SignatureConfig.text, Text.utf8_append, List.all_append, hstart, hC.visible hdecode]
    rfl
  obtain ⟨value, hvalue⟩ := HeaderValue.exists_fromStr_iff.mpr (all_isValueByte hvisible)
  have hbytes := HeaderValue.bytes_of_fromStr hvalue
  refine ⟨value, hvalue, ?_⟩
  have hget : (httpHeaders.insert name value).getStr config.header = some value := by
    rw [HeaderMap.getStr, hname, Option.bind_some, HeaderMap.get_insert_self]
  have hpayload : payloadPrefix config.signatureOn (httpHeaders.insert name value) =
      payloadPrefix config.signatureOn httpHeaders :=
    payloadPrefix_congr fun header hmem => getStr_insert_of_ne (hlisted header hmem) _ _
  rw [checkSignature_text_iff hC hstart hget hkey hbytes, hpayload]

/-- Signatures round trip: what is built for a header is accepted in it, and a
value of the header is accepted exactly when it is authentic. -/
theorem signature_round_trip {C : Crypto} (hC : C.Lawful) (config : SignatureConfig)
    (hstart : (Text.utf8 config.startText).all isVisibleAscii = true) (httpHeaders : HeaderMap)
    (httpBody : List UInt8) :
    (∀ name signature, HeaderName.fromStr config.header = some name →
        (∀ header ∈ config.signatureOn.names, HeaderName.fromStr header ≠ some name) →
        buildSignature C config httpHeaders httpBody = .ok signature →
        ∃ value, HeaderValue.fromStr signature = some value ∧
          checkSignature C config (httpHeaders.insert name value) httpBody = .ok ()) ∧
      ∀ value, httpHeaders.getStr config.header = some value →
        (checkSignature C config httpHeaders httpBody = .ok () ↔
          ∃ rest, value.bytes = Text.utf8 config.startText ++ rest ∧
            Authentic C config httpHeaders httpBody rest) :=
  ⟨fun _ _ hname hlisted hbuild =>
      checkSignature_of_buildSignature hC hstart hname hlisted hbuild,
    fun _ hvalue => checkSignature_eq_ok_iff hC hstart hvalue⟩

/-- HMAC-SHA256 under the key `secret`, of the payloads of the samples. -/
def sampleMacs : List (String × List UInt8) :=
  [
    ("42\nhi",
      [30, 185, 136, 12, 14, 200, 81, 167, 229, 91, 48, 244, 161, 210, 247, 12, 68, 39, 95, 5,
        13, 88, 220, 239, 119, 38, 117, 95, 8, 100, 37, 168]),
    ("hi",
      [207, 107, 197, 42, 239, 234, 12, 226, 59, 74, 16, 175, 116, 24, 88, 220, 150, 231, 72, 230,
        160, 241, 25, 200, 89, 211, 141, 117, 76, 173, 96, 156]),
    ("{}",
      [119, 50, 89, 2, 202, 202, 129, 45, 194, 89, 115, 58, 172, 208, 70, 183, 56, 23, 55, 44,
        119, 123, 141, 149, 180, 2, 100, 116, 116, 81, 110, 19]),
    ("42\n{}",
      [254, 97, 151, 31, 225, 127, 145, 185, 229, 76, 132, 238, 162, 13, 152, 132, 81, 105, 207, 12,
        210, 145, 196, 248, 108, 233, 3, 89, 131, 234, 9, 176]),
    ("application/json\n{}",
      [222, 227, 90, 27, 142, 158, 20, 80, 23, 211, 32, 158, 17, 193, 232, 115, 11, 36, 89, 34,
        224, 195, 249, 152, 115, 240, 164, 11, 190, 194, 65, 211])
  ]

/-- HMAC-SHA256 where the samples need it. -/
def sampleCrypto : Crypto :=
  standardCrypto fun key payload =>
    if key = Text.utf8 "secret" then
      ((sampleMacs.find? fun entry => Text.utf8 entry.1 = payload).map Prod.snd).getD []
    else []

def sampleConfig : SignatureConfig :=
  { header := "X-Signature", token := "secret", tokenEncoding := none,
    signaturePrefix := some "sha256=", signatureEncoding := .hex,
    signatureOn := .headersThenBody "\n" ["X-Id"] }

def sampleHeaders : HeaderMap :=
  (HeaderName.fromStr "x-id").toList.flatMap fun name =>
    (HeaderValue.fromStr "42").toList.map fun value => (name, value)

/-- The signature of a body and a header, in the header it is configured for. -/
theorem signature_round_trip_sample :
    ∃ value,
      HeaderValue.fromStr
          "sha256=1eb9880c0ec851a7e55b30f4a1d2f70c44275f050d58dcef7726755f086425a8" = some value ∧
        ∃ name, HeaderName.fromStr "X-Signature" = some name ∧
          checkSignature sampleCrypto sampleConfig (sampleHeaders.insert name value)
            (Text.utf8 "hi") = .ok () := by
  have hround := signature_round_trip (standardCrypto_lawful _ : sampleCrypto.Lawful) sampleConfig
    (by decide) sampleHeaders (Text.utf8 "hi")
  obtain ⟨value, hvalue, hcheck⟩ := hround.1 ⟨"x-signature", by decide⟩
    "sha256=1eb9880c0ec851a7e55b30f4a1d2f70c44275f050d58dcef7726755f086425a8"
    (by decide) (by decide) (by decide)
  exact ⟨value, hvalue, _, by decide, hcheck⟩

end CdvizCollector.Security
