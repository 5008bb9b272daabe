import CdvizCollector.Lib.Http

/-!
HMAC signatures of HTTP requests (`security/signature.rs`).

The algorithms come from elsewhere and are taken as given: HMAC-SHA256 and the
base64 and hexadecimal codecs are the fields of `Crypto`. What is modelled is
what the code signs, how it writes a signature and how it checks one.
-/

namespace CdvizCollector.Security

open Lib Lib.Http

/-- HMAC-SHA256 by key and payload, and the two codecs. Decoding fails on text
that is not validly encoded. -/
structure Crypto where
  hmacSha256 : List UInt8 → List UInt8 → List UInt8
  base64Encode : List UInt8 → String
  base64Decode : List UInt8 → Option (List UInt8)
  hexString : List UInt8 → String
  hexDecode : List UInt8 → Option (List UInt8)

inductive Encoding where
  | base64
  | hex
deriving DecidableEq, Repr

inductive SignatureOn where
  | body
  | headersThenBody (separator : String) (headers : List String)
deriving DecidableEq, Repr

structure SignatureConfig where
  header : String
  token : String
  tokenEncoding : Option Encoding
  signaturePrefix : Option String
  signatureOn : SignatureOn
  signatureEncoding : Encoding
deriving DecidableEq, Repr

inductive SignatureError where
  | signatureNotFound
  | xcodingHexFailed
  | xcodingBase64Failed
  | verificationMismatch
deriving DecidableEq, Repr

def SignatureError.message : SignatureError → String
  | .signatureNotFound => "signature not found or readable"
  | .xcodingHexFailed => "failed to encode/decode hex"
  | .xcodingBase64Failed => "failed to encode/decode base64"
  | .verificationMismatch => "Signature verification mismatch"

/-- The bytes of the token that key the HMAC. -/
def tokenBytes (C : Crypto) (config : SignatureConfig) : Except SignatureError (List UInt8) :=
  match config.tokenEncoding with
  | some .base64 =>
      match C.base64Decode (Text.utf8 config.token) with
      | some bytes => .ok bytes
      | none => .error .xcodingBase64Failed
  | some .hex =>
      match C.hexDecode (Text.utf8 config.token) with
      | some bytes => .ok bytes
      | none => .error .xcodingHexFailed
  | none => .ok (Text.utf8 config.token)

/-- What is signed before the body: each listed header that is present, by its
first value, then the separator. -/
def payloadPrefix (on : SignatureOn) (httpHeaders : HeaderMap) : List UInt8 :=
  match on with
  | .body => []
  | .headersThenBody separator headers =>
      headers.flatMap fun header =>
        match httpHeaders.getStr header with
        | some value => value.bytes ++ Text.utf8 separator
        | none => []

/-- `build_mac`, finalized. -/
def buildMac (C : Crypto) (config : SignatureConfig) (httpHeaders : HeaderMap)
    (httpBody : List UInt8) : Except SignatureError (List UInt8) := do
  let token ← tokenBytes C config
  return C.hmacSha256 token (payloadPrefix config.signatureOn httpHeaders ++ httpBody)

def buildSignature (C : Crypto) (config : SignatureConfig) (httpHeaders : HeaderMap)
    (httpBody : List UInt8) : Except SignatureError String := do
  let result ← buildMac C config httpHeaders httpBody
  let signature :=
    match config.signatureEncoding with
    | .base64 => C.base64Encode result
    | .hex => C.hexString result
  match config.signaturePrefix with
  | some start => return start ++ signature
  | none => return signature

/-- `str::strip_prefix`. -/
def stripStart (start s : String) : Option String :=
  if start.toList.isPrefixOf s.toList then some (String.ofList (s.toList.drop start.toList.length))
  else none

def checkSignature (C : Crypto) (config : SignatureConfig) (httpHeaders : HeaderMap)
    (httpBody : List UInt8) : Except SignatureError Unit :=
  match (httpHeaders.getStr config.header).bind HeaderValue.toStr with
  | none => .error .signatureNotFound
  | some signature =>
      let stripped :=
        match config.signaturePrefix with
        | some start => stripStart start signature
        | none => some signature
      match stripped with
      | none => .error .verificationMismatch
      | some signature =>
          let bytes := Text.utf8 signature
          let decoded :=
            match config.signatureEncoding with
            | .base64 => C.base64Decode bytes
            | .hex => if bytes.length % 2 = 0 then C.hexDecode bytes else none
          match decoded with
          | none => .error .verificationMismatch
          | some decoded => do
              let mac ← buildMac C config httpHeaders httpBody
              if decoded = mac then return () else throw .verificationMismatch

/-! A signature reads a header map by the first value of a few names only. -/

/-- The header names a signature is computed on. -/
def SignatureOn.names : SignatureOn → List String
  | .body => []
  | .headersThenBody _ headers => headers

theorem payloadPrefix_congr {on : SignatureOn} {headers headers' : HeaderMap}
    (h : ∀ name ∈ on.names, headers'.getStr name = headers.getStr name) :
    payloadPrefix on headers' = payloadPrefix on headers := by
  cases on with
  | body => rfl
  | headersThenBody separator names =>
      simp only [payloadPrefix]
      refine List.flatMap_congr fun name hname => ?_
      rw [h name hname]

end CdvizCollector.Security
