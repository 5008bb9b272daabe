import CdvizCollector.Security.Header

/-!
Validation of incoming headers (`security/rule.rs`).

Every rule reads one header by `HeaderMap::get`, and a signature reads the
headers it is computed on the same way. So what is validated is the first line
of each name.
-/

namespace CdvizCollector.Security

open Lib Lib.Http

inductive Rule where
  | exists
  | equals (value : String) (caseSensitive : Bool) (start stop : String)
  | matches (pattern : String)
  | signature (token : String) (tokenEncoding : Option Encoding)
      (signaturePrefix : Option String) (signatureOn : SignatureOn)
      (signatureEncoding : Encoding)
deriving DecidableEq, Repr

structure HeaderRuleConfig where
  header : String
  rule : Rule
deriving DecidableEq, Repr

inductive ValidationError where
  | missingHeader (header : String)
  | invalidValue (header reason : String)
  | signatureValidation (header error : String)
  | patternMismatch (header : String)
deriving DecidableEq, Repr

def ValidationError.message : ValidationError → String
  | .missingHeader header => "Header '" ++ header ++ "' is missing"
  | .invalidValue header reason => "Header '" ++ header ++ "' has invalid value: " ++ reason
  | .signatureValidation header error =>
      "Header '" ++ header ++ "' signature validation failed: " ++ error
  | .patternMismatch header => "Header '" ++ header ++ "' pattern validation failed"

/-- The status `into_response` answers with. -/
def ValidationError.status : ValidationError → ℕ
  | .missingHeader _ | .signatureValidation _ _ => 401
  | .invalidValue _ _ | .patternMismatch _ => 403

/-- What the rules take from elsewhere: the signature algorithms, regular
expressions (with the message of a pattern that does not compile) and the
lowercase of a string. -/
structure Primitives extends Crypto where
  regex : String → Except String (String → Bool)
  toLowercase : String → String

def validateHeader (E : Primitives) (headers : HeaderMap) (config : HeaderRuleConfig)
    (body : List UInt8) : Except ValidationError Unit :=
  match HeaderName.fromStr config.header with
  | none => .error (.invalidValue config.header "invalid HTTP header name")
  | some name =>
      let value := headers.get name
      match config.rule with
      | .exists =>
          match value with
          | none => .error (.missingHeader config.header)
          | some value =>
              if value.isEmpty then .error (.missingHeader config.header) else .ok ()
      | .equals expected caseSensitive start stop =>
          match value.bind HeaderValue.toStr with
          | none => .error (.missingHeader config.header)
          | some actual =>
              let expected := enclose expected start stop
              let same :=
                if caseSensitive then actual = expected
                else E.toLowercase actual = E.toLowercase expected
              if same then .ok ()
              else .error (.invalidValue config.header "value does not match expected")
      | .matches pattern =>
          match value.bind HeaderValue.toStr with
          | none => .error (.missingHeader config.header)
          | some actual =>
              match E.regex pattern with
              | .error reason => .error (.invalidValue config.header reason)
              | .ok isMatch =>
                  if isMatch actual then .ok () else .error (.patternMismatch config.header)
      | .signature token tokenEncoding signaturePrefix signatureOn signatureEncoding =>
          let signatureConfig : SignatureConfig :=
            { header := config.header, token, tokenEncoding, signaturePrefix, signatureOn,
              signatureEncoding }
          match checkSignature E.toCrypto signatureConfig headers body with
          | .ok () => .ok ()
          | .error e => .error (.signatureValidation config.header e.message)

def validateHeaders (E : Primitives) (headers : HeaderMap) (rules : List HeaderRuleConfig)
    (body : List UInt8) : Except ValidationError Unit :=
  match rules with
  | [] => .ok ()
  | config :: rest => do
      validateHeader E headers config body
      validateHeaders E headers rest body

/-- What the samples check headers with: no pattern is compiled there. -/
def samplePrimitives (crypto : Crypto) : Primitives where
  toCrypto := crypto
  regex _ := .error "no pattern is compiled here"
  toLowercase := Text.toAsciiLowercase

end CdvizCollector.Security
