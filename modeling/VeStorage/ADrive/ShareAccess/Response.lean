import VeStorage.ADrive.Share.Manifest
import VeStorage.ADrive.Token.Manager
import VeStorage.Lib.Redact

namespace VeStorage.ADrive.ShareAccess
open Lib Redact
open Share (isControl)
open Token (trimWhitespace)

inductive Json
  | text (value : Text)
  | object (fields : List (Text × Json))
  | other

def Json.get (name : String) : Json → Option Json
  | .object fields => fields.lookup name.toList
  | _ => none

def Json.asStr : Json → Option Text
  | .text value => some value
  | _ => none

structure ShareAccessTokenOutput where
  accessToken : Text
  expiresIn : Int

-- A body as JSON, and what the output types of the calls read in it.
structure Body where
  value : Json
  token : Option ShareAccessTokenOutput := none
  isMetadata : Bool := false

inductive HeaderName
  | xIdsRequestId
  | xRequestId
  | contentType
  | contentLength
  | retryAfter
  deriving DecidableEq

-- The first value of a header, where it is visible text.
abbrev Headers := HeaderName → Option Text

def redactExact (message : Text) (redactions : List Text) : Text :=
  redact "***".toList redactions message

def serviceRequestIdMaxChars : Nat := 256

def sanitizeRequestId (rawRequestId : Text) : Option Text :=
  let requestId := trimWhitespace rawRequestId
  if requestId ≠ [] ∧ requestId.length ≤ serviceRequestIdMaxChars ∧ ¬ requestId.any isControl then
    some requestId
  else none

def shareRequestId (headers : Headers) (redactions : List Text) : Option Text :=
  [HeaderName.xIdsRequestId, .xRequestId].findSome? fun name =>
    (headers name).bind fun value => sanitizeRequestId (redactExact value redactions)

def safeResponseHeaders (headers : Headers) (redactions : List Text) : Headers :=
  fun name => (headers name).map fun value => redactExact value redactions

structure ResponseInfo where
  requestId : Text
  statusCode : Nat
  headers : Headers

structure IdsError where
  code : Text
  message : Text
  requestId : Option Text
  statusCode : Nat
  responseHeaders : Headers

inductive Error
  | client
  | auth
  | http (isRetryable : Bool)
  | invalidResponse
  | server (error : IdsError)

def isRetryableShareError : Error → Bool
  | .http isRetryable => isRetryable
  | _ => false

def isSuccess (status : Nat) : Bool := 200 ≤ status && status < 300

def shouldRetryStorageStatus (status : Nat) : Bool :=
  status = 429 || (500 ≤ status && status < 600) || status = 408

inductive BodyFailure
  | exceedsLimit
  | http (isRetryable : Bool)

def BodyFailure.error : BodyFailure → Error
  | .exceedsLimit => .invalidResponse
  | .http isRetryable => .http isRetryable

structure RawResponse where
  status : Nat
  headers : Headers
  body : Except BodyFailure Body

structure ShareResponse where
  status : Nat
  headers : Headers
  body : Body
  redactions : List Text
  oauthUserId : Option Text

def errorCode (body : Body) : Option Text :=
  let value := (body.value.get "Error").getD body.value
  ((value.get "Code").or (value.get "code")).bind Json.asStr

def isErrorCode (code : Text) : Bool :=
  !code.isEmpty && code.length ≤ 128 &&
    code.all fun c => c.isAlphanum || c = '_' || c = '-' || c = '.'

def statusText (status : Nat) : Text := Nat.toDigits 10 status

def ShareResponse.info (response : ShareResponse) : ResponseInfo where
  requestId := (shareRequestId response.headers []).getD []
  statusCode := response.status
  headers := response.headers

def ShareResponse.checkStatus (response : ShareResponse) (redactions : List Text) :
    Except Error Unit :=
  if isSuccess response.status then .ok ()
  else
    let redactions := response.redactions ++ redactions
    let code := ((errorCode response.body).map fun code => redactExact code redactions).filter
      isErrorCode
    .error (.server {
      code := code.getD (statusText response.status)
      message := "share API request failed".toList
      requestId := shareRequestId response.headers redactions
      statusCode := response.status
      responseHeaders := response.info.headers })

def ShareResponse.decode {α : Type} (response : ShareResponse) (redactions : List Text)
    (read : Body → Option α) : Except Error α :=
  match response.checkStatus redactions with
  | .error error => .error error
  | .ok _ => match read response.body with
    | some value => .ok value
    | none => .error .invalidResponse

end VeStorage.ADrive.ShareAccess
