import VeStorage.ADrive.ShareAccess.Response
import VeStorage.Lib.Requests

namespace VeStorage.ADrive.ShareAccess
open Lib Requests
open Share (isControl)

inductive ShareRetryPolicy
  | metadata
  | nonReplayable
  deriving DecidableEq

inductive SharePath
  | getByAnonymous
  | getAccessToken
  | list
  | get
  | getDownloadUrl
  deriving DecidableEq

structure ShareRequest where
  path : SharePath
  sharePwd : Option Text
  retryPolicy : ShareRetryPolicy
  redactions : List Text

def ShareRequest.read (path : SharePath) : ShareRequest := ⟨path, none, .metadata, []⟩

def ShareRequest.mutation (path : SharePath) (sharePwd : Option Text) : ShareRequest :=
  ⟨path, sharePwd, .nonReplayable, sharePwd.toList⟩

def ShareRequest.extend (request : ShareRequest) (values : List Text) : ShareRequest :=
  { request with redactions := request.redactions ++ values }

def maxShareRetries : Nat := 8

-- `oauth` tells whether an account client is attached; what its responses taught is shared by
-- all clones and read by `oauthRedactions`.
structure ShareClient where
  maxRetryCount : Nat
  redactions : List Text
  oauth : Bool

structure ShareSession where
  client : ShareClient
  accessToken : Text
  redactions : List Text

-- One attempt as it goes out. `canRetry` and `isReplay` tell where the loops stand.
structure Submission where
  request : ShareRequest
  session : Option ShareSession
  oauth : Option Text
  canRetry : Bool
  isReplay : Bool

inductive Reply
  | noResponse (isRetryable : Bool)
  | response (raw : RawResponse)

-- What a call hands to its caller.
inductive Outcome
  | info (info : ResponseInfo)
  | error (error : Error)
  | value

inductive Ask
  | enterPassword (isStdin : Bool)
  | oauthRedactions
  | remember (values : List Text)
  | accessToken
  | forceRefresh (rejected : Text)
  | submit (submission : Submission)
  | record (requestId : Option Text)
  | keep (headers : Headers)
  | deadline (seconds : Int)
  | finish (outcome : Outcome)

def Answer : Ask → Type
  | .enterPassword _ => Option Text
  | .oauthRedactions => List Text
  | .accessToken => Option (Text × Option Text)
  | .forceRefresh _ => Bool
  | .submit _ => Reply
  | .deadline _ => Bool
  | _ => Unit

abbrev Run (α : Type) := Prog Ask Answer (Except Error α)

def fail {α : Type} (error : Error) : Run α := .ret (.error error)

def andThen {α β : Type} (run : Run α) (next : α → Run β) : Run β :=
  run.bind fun
    | .ok value => next value
    | .error error => fail error

def ShareResponse.read (raw : RawResponse) (redactions : List Text) (oauthUserId : Option Text) :
    Run ShareResponse :=
  match raw.body with
  | .error failure => fail failure.error
  | .ok body =>
    let headers := safeResponseHeaders raw.headers redactions
    .ask (.keep headers) fun _ => .ret (.ok ⟨raw.status, headers, body, redactions, oauthUserId⟩)

def submit (submission : Submission) (redactions : List Text) (oauthUserId : Option Text) :
    Run ShareResponse :=
  .ask (.submit submission) fun
    | .noResponse isRetryable => fail (.http isRetryable)
    | .response raw => .ask (.record (shareRequestId raw.headers redactions)) fun _ =>
        ShareResponse.read raw redactions oauthUserId

def sendOnce (request : ShareRequest) (session : Option ShareSession) (canRetry : Bool) :
    Run ShareResponse :=
  submit ⟨request, session, none, canRetry, false⟩ request.redactions none

-- `retries` of the attempts are left when `once` is told whether it may be followed by another.
def withRetries {α : Type} (policy : ShareRetryPolicy) (status : α → Nat)
    (once : Bool → Run α) : Nat → Run α
  | 0 => once false
  | retries + 1 =>
    let canRetry : Bool := policy = .metadata
    (once canRetry).bind fun
      | .ok response =>
        if canRetry && shouldRetryStorageStatus (status response) then
          withRetries policy status once retries
        else .ret (.ok response)
      | .error error =>
        if canRetry && isRetryableShareError error then withRetries policy status once retries
        else fail error

def checked (response : ShareResponse) (redactions : List Text) : Run ShareResponse :=
  .ret ((response.checkStatus redactions).map fun _ => response)

def ShareClient.sendWithRetries (client : ShareClient) (request : ShareRequest)
    (session : Option ShareSession) : Run ShareResponse :=
  andThen (withRetries request.retryPolicy ShareResponse.status (sendOnce request session)
    client.maxRetryCount) fun response => checked response request.redactions

structure ShareAttempt where
  response : ShareResponse
  oauthAccessToken : Text

def bearer (accessToken : Text) : Text := "Bearer ".toList ++ accessToken

def isVisible (value : Text) : Bool := value.all fun c => c = '\t' || (' ' ≤ c && c < '\u007f')

-- `AppliedRedactionContext::from_values`, the request's own values, then the header as sent.
def appliedRedactions (accessToken : Text) (request : ShareRequest) : List Text :=
  ([accessToken].filter fun value => !value.isEmpty) ++ request.redactions ++
    ([bearer accessToken].filter isVisible)

def shareSendOnce (request : ShareRequest) (isReplay canRetry : Bool) : Run ShareAttempt :=
  .ask .accessToken fun
    | none => fail .auth
    | some (accessToken, userId) =>
      andThen (submit ⟨request, none, some accessToken, canRetry, isReplay⟩
        (appliedRedactions accessToken request) userId) fun response =>
          .ret (.ok ⟨response, accessToken⟩)

def ShareClient.shareSendRetries (client : ShareClient) (request : ShareRequest)
    (isReplay : Bool) : Run ShareAttempt :=
  withRetries request.retryPolicy (fun attempt => attempt.response.status)
    (shareSendOnce request isReplay) client.maxRetryCount

def ShareClient.shareSend (client : ShareClient) (request : ShareRequest) : Run ShareResponse :=
  andThen (client.shareSendRetries request false) fun first =>
    if first.response.status ≠ 401 then .ret (.ok first.response)
    else .ask (.forceRefresh first.oauthAccessToken) fun
      | false => fail .auth
      | true => andThen (client.shareSendRetries (request.extend first.response.redactions) true)
          fun attempt => .ret (.ok attempt.response)

def maxOauthRedactionValues : Nat := 64

def rememberOauthRedactions (values redactions : List Text) : List Text :=
  (redactions.filter fun value => !value.isEmpty).foldl (fun values value =>
    if value ∈ values then values
    else (if values.length = maxOauthRedactionValues then values.drop 1 else values) ++ [value])
    values

def ShareSession.values (session : ShareSession) : List Text :=
  session.accessToken :: session.redactions

def ShareClient.send (client : ShareClient) (request : ShareRequest)
    (session : Option ShareSession) : Run ShareResponse :=
  .ask .oauthRedactions fun (remembered : List Text) =>
    let request := request.extend
      (client.redactions ++ remembered ++ (session.map ShareSession.values).getD [])
    if session.isNone && client.oauth then
      andThen (client.shareSend request) fun response =>
        .ask (.remember response.redactions) fun _ => checked response []
    else client.sendWithRetries request session

end VeStorage.ADrive.ShareAccess
