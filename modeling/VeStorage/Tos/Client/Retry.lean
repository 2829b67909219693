import VeStorage.Lib.Retry
import VeStorage.Tos.RollingCsv

namespace VeStorage.Tos.Retry
open Lib
open RollingCsv (parseUsize)
open Lib.Retry (Turn Call retryLoop Applies Policy Repeatable AtMostOnce retryLoop_atMostOnce)

inductive Method where
  | GET | HEAD | PUT | DELETE | OPTIONS | POST | PATCH
deriving DecidableEq, Repr

def isRequestRetrySafe : Method → Bool
  | .GET | .HEAD | .PUT | .DELETE | .OPTIONS => true
  | .POST | .PATCH => false

-- Delays are milliseconds.
def maxRetryAfterDelay : Nat := 600 * 1000

def isServerError (status : Nat) : Bool := decide (500 ≤ status ∧ status < 600)

def shouldRetryStorageStatus (status : Nat) (isIdempotent : Bool) : Bool :=
  decide (status = 429) || isServerError status || (isIdempotent && decide (status = 408))

def storageBackoffDelay (attempt : Nat) : Nat := 200 * 2 ^ min attempt 5

-- The time to which an HTTP date points, and the clock.
structure Clock where
  parseHttpDate : Text → Option Nat
  now : Nat → Nat

structure Response where
  status : Nat
  retryAfter : Option Text

def isBlank (c : Char) : Bool := c = ' ' || c = '\t'

def trimBlanks (t : Text) : Text := (t.dropWhile isBlank).rdropWhile isBlank

def storageRetryAfterDelay (clock : Clock) (response : Response) (now : Nat) : Option Nat :=
  if response.status ≠ 429 ∧ isServerError response.status = false then none
  else (response.retryAfter.map trimBlanks).bind fun value =>
    let delay := match parseUsize value with
      | some seconds => some (seconds * 1000)
      | none => (clock.parseHttpDate value).map (· - now)
    delay.map (min · maxRetryAfterDelay)

def sleepBeforeResponseRetry (clock : Clock) (attempt : Nat) (response : Response) : Nat :=
  (storageRetryAfterDelay clock response (clock.now attempt)).getD (storageBackoffDelay attempt)

structure HttpError where
  isConnect : Bool
  isTimeout : Bool
  isBody : Bool
  isDecode : Bool

inductive CliError where
  | http (error : HttpError)
  | transferFailed (message : Text)
  | other (message : Text)

def isTransientReqwestError (error : HttpError) : Bool :=
  error.isTimeout || error.isConnect || error.isBody || error.isDecode

def shouldRetrySendError (error : HttpError) (isIdempotent : Bool) : Bool :=
  error.isConnect || (isIdempotent && isTransientReqwestError error)

def shouldRetryRequestError (error : CliError) (isIdempotent : Bool) : Bool :=
  match error with
  | .http error => shouldRetrySendError error isIdempotent
  | _ => false

def shouldRetryCliError : CliError → Bool
  | .http error => isTransientReqwestError error
  | .transferFailed _ => true
  | .other _ => false

def retryLoopExhausted : CliError := .transferFailed "HTTP retry loop exhausted".toList

-- A body that could not be built, or the answer to a request.
inductive Attempt where
  | notBuilt (error : CliError)
  | sent (answer : Except CliError Response)

section Turns

variable (clock : Clock) (isIdempotent : Bool) (maxRetryCount : Nat) {T : Type}

def sendRequestTurn (attempt : Nat) : Attempt → Turn Nat (Except CliError Response)
  | .notBuilt error => .done (.error error)
  | .sent (.ok response) =>
      if shouldRetryStorageStatus response.status isIdempotent ∧ attempt < maxRetryCount then
        .again (sleepBeforeResponseRetry clock attempt response)
      else .done (.ok response)
  | .sent (.error (.http error)) =>
      if shouldRetrySendError error isIdempotent ∧ attempt < maxRetryCount then .again (storageBackoffDelay attempt)
      else .done (.error (.http error))
  | .sent (.error error) => .done (.error error)

def sendRequestWithConsumerTurn (consume : Nat → Response → Except CliError T) (attempt : Nat) :
    Attempt → Turn Nat (Except CliError T)
  | .notBuilt error => .done (.error error)
  | .sent (.ok response) =>
      if shouldRetryStorageStatus response.status isIdempotent ∧ attempt < maxRetryCount then
        .again (sleepBeforeResponseRetry clock attempt response)
      else match consume attempt response with
        | .ok value => .done (.ok value)
        | .error error =>
            if isIdempotent ∧ shouldRetryCliError error ∧ attempt < maxRetryCount then
              .again (storageBackoffDelay attempt)
            else .done (.error error)
  | .sent (.error error) =>
      if shouldRetryRequestError error isIdempotent ∧ attempt < maxRetryCount then
        .again (storageBackoffDelay attempt)
      else .done (.error error)

end Turns

-- The client, the service it sends to, and the bodies it builds for the attempts.
structure TosClient (W : Type) where
  clock : Clock
  maxRetryCount : Nat
  sendOnce : Nat → W → Except CliError Response × W
  bodyFactory : Nat → Except CliError Unit

namespace TosClient

variable {W T : Type} (client : TosClient W) (method : Method) (consume : Nat → Response → Except CliError T)

def sendSignedRequestOnce (attempt : Nat) (w : W) : Attempt × W :=
  (.sent (client.sendOnce attempt w).1, (client.sendOnce attempt w).2)

def sendBuilt (attempt : Nat) (w : W) : Attempt × W :=
  match client.bodyFactory attempt with
  | .error error => (.notBuilt error, w)
  | .ok _ => client.sendSignedRequestOnce attempt w

def sendRequest : W → Call W Attempt Nat (Except CliError Response) :=
  retryLoop (sendRequestTurn client.clock (isRequestRetrySafe method) client.maxRetryCount)
    client.sendSignedRequestOnce (.error retryLoopExhausted) client.maxRetryCount

def sendRequestWithConsumer : W → Call W Attempt Nat (Except CliError T) :=
  retryLoop (sendRequestWithConsumerTurn client.clock (isRequestRetrySafe method) client.maxRetryCount consume)
    client.sendSignedRequestOnce (.error retryLoopExhausted) client.maxRetryCount

def sendReplayableStreamingRequest : W → Call W Attempt Nat (Except CliError Response) :=
  retryLoop (sendRequestTurn client.clock (isRequestRetrySafe method) client.maxRetryCount)
    client.sendBuilt (.error retryLoopExhausted) client.maxRetryCount

def sendReplayableStreamingRequestWithConsumer : W → Call W Attempt Nat (Except CliError T) :=
  retryLoop (sendRequestWithConsumerTurn client.clock (isRequestRetrySafe method) client.maxRetryCount consume)
    client.sendBuilt (.error retryLoopExhausted) client.maxRetryCount

-- A body that can be read only once is sent once.
def sendSignedRequest (hasBody : Bool) (w : W) : Call W Attempt Nat (Except CliError Response) :=
  if hasBody then ⟨(client.sendOnce 0 w).1, (client.sendOnce 0 w).2, 1, [], []⟩
  else retryLoop (sendRequestTurn client.clock (isRequestRetrySafe method) client.maxRetryCount)
    client.sendSignedRequestOnce (.error retryLoopExhausted) client.maxRetryCount w

end TosClient

-- What the service promises: 429, 5xx and a failed connection mean that nothing was applied.
def Refused : Except CliError Response → Prop
  | .ok response => response.status = 429 ∨ isServerError response.status = true
  | .error (.http error) => error.isConnect = true
  | .error _ => False

def isSuccess (status : Nat) : Prop := 200 ≤ status ∧ status < 300

def Accepted : Except CliError Response → Prop
  | .ok response => isSuccess response.status
  | .error _ => False

structure Service {W : Type} (client : TosClient W) (op : W → W) : Prop where
  once : ∀ n w, (client.sendOnce n w).2 = w ∨ (client.sendOnce n w).2 = op w
  refused : ∀ n w, Refused (client.sendOnce n w).1 → (client.sendOnce n w).2 = w
  accepted : ∀ n w, Accepted (client.sendOnce n w).1 → (client.sendOnce n w).2 = op w

section Policies

variable {clock : Clock} {isIdempotent : Bool} {maxRetryCount : Nat} {T : Type}
  {consume : Nat → Response → Except CliError T}

-- The same promise for an attempt, which sends nothing when its body cannot be built.
def Attempt.Refused : Attempt → Prop
  | .notBuilt _ => True
  | .sent answer => Retry.Refused answer

def Attempt.Accepted : Attempt → Prop
  | .notBuilt _ => False
  | .sent answer => Retry.Accepted answer

def Short (pause : Nat) : Prop := pause ≤ maxRetryAfterDelay

theorem backoff_short (attempt : Nat) : Short (storageBackoffDelay attempt) := by
  have hpow : 2 ^ min attempt 5 ≤ 2 ^ 5 := Nat.pow_le_pow_right (by decide) (Nat.min_le_right attempt 5)
  have hbound : 200 * 2 ^ min attempt 5 ≤ 200 * 2 ^ 5 := Nat.mul_le_mul_left 200 hpow
  exact hbound.trans (by decide)

theorem retryAfter_short {response : Response} {now delay : Nat}
    (h : storageRetryAfterDelay clock response now = some delay) : Short delay := by
  unfold storageRetryAfterDelay at h
  split at h
  · cases h
  · obtain ⟨value, -, hvalue⟩ := Option.bind_eq_some_iff.mp h
    obtain ⟨d, -, rfl⟩ := Option.map_eq_some_iff.mp hvalue
    exact Nat.min_le_right d maxRetryAfterDelay

theorem sleep_short (attempt : Nat) (response : Response) :
    Short (sleepBeforeResponseRetry clock attempt response) := by
  unfold sleepBeforeResponseRetry
  cases h : storageRetryAfterDelay clock response (clock.now attempt) with
  | none => exact backoff_short attempt
  | some delay => exact retryAfter_short h

theorem retried_status {status : Nat} (h : shouldRetryStorageStatus status isIdempotent = true) :
    isIdempotent = true ∨ status = 429 ∨ isServerError status = true := by
  simp only [shouldRetryStorageStatus, Bool.or_eq_true, Bool.and_eq_true, decide_eq_true_eq] at h
  tauto

theorem retried_send {error : HttpError} (h : shouldRetrySendError error isIdempotent = true) :
    isIdempotent = true ∨ error.isConnect = true := by
  simp only [shouldRetrySendError, Bool.or_eq_true, Bool.and_eq_true] at h
  tauto

theorem sendRequest_policy : Policy (sendRequestTurn clock isIdempotent maxRetryCount) maxRetryCount isIdempotent
    Attempt.Refused Attempt.Accepted (fun result => ∃ response, result = .ok response ∧ isSuccess response.status)
    Short where
  last attempt := by
    unfold sendRequestTurn
    split
    · exact ⟨_, rfl⟩
    · exact ⟨_, if_neg fun h => Nat.lt_irrefl _ h.2⟩
    · exact ⟨_, if_neg fun h => Nat.lt_irrefl _ h.2⟩
    · exact ⟨_, rfl⟩
  again n attempt pause h := by
    unfold sendRequestTurn at h
    split at h
    · cases h
    · split at h
      · next hretry => exact retried_status hretry.1
      · cases h
    · split at h
      · next hretry => exact retried_send hretry.1
      · cases h
    · cases h
  success n attempt result h hsuccess := by
    obtain ⟨response, rfl, hstatus⟩ := hsuccess
    unfold sendRequestTurn at h
    split at h
    · cases h
    · split at h
      · cases h
      · cases h
        exact hstatus
    · split at h <;> cases h
    · cases h
  short n attempt pause h := by
    unfold sendRequestTurn at h
    split at h
    · cases h
    · split at h
      · cases h
        exact sleep_short n _
      · cases h
    · split at h
      · cases h
        exact backoff_short n
      · cases h
    · cases h

theorem sendRequestWithConsumer_policy
    (hconsume : ∀ n response value, consume n response = .ok value → isSuccess response.status) :
    Policy (sendRequestWithConsumerTurn clock isIdempotent maxRetryCount consume) maxRetryCount isIdempotent
      Attempt.Refused Attempt.Accepted (fun result => ∃ value, result = .ok value) Short where
  last attempt := by
    unfold sendRequestWithConsumerTurn
    split
    · exact ⟨_, rfl⟩
    · rw [if_neg fun h => Nat.lt_irrefl _ h.2]
      split
      · exact ⟨_, rfl⟩
      · exact ⟨_, if_neg fun h => Nat.lt_irrefl _ h.2.2⟩
    · exact ⟨_, if_neg fun h => Nat.lt_irrefl _ h.2⟩
  again n attempt pause h := by
    unfold sendRequestWithConsumerTurn at h
    split at h
    · cases h
    · split at h
      · next hretry => exact retried_status hretry.1
      · split at h
        · cases h
        · split at h
          · next hretry => exact .inl hretry.1
          · cases h
    · next error =>
      split at h
      · next hretry =>
        cases error with
        | http error => exact retried_send hretry.1
        | transferFailed message => cases hretry.1
        | other message => cases hretry.1
      · cases h
  success n attempt result h hsuccess := by
    obtain ⟨value, rfl⟩ := hsuccess
    unfold sendRequestWithConsumerTurn at h
    split at h
    · cases h
    · next response =>
      split at h
      · cases h
      · split at h
        · next v hv => exact hconsume n response v hv
        · split at h <;> cases h
    · split at h <;> cases h
  short n attempt pause h := by
    unfold sendRequestWithConsumerTurn at h
    split at h
    · cases h
    · split at h
      · cases h
        exact sleep_short n _
      · split at h
        · cases h
        · split at h
          · cases h
            exact backoff_short n
          · cases h
    · split at h
      · cases h
        exact backoff_short n
      · cases h

end Policies

section Calls

variable {W T : Type} {client : TosClient W} {op : W → W} {consume : Nat → Response → Except CliError T}

theorem Service.sent (hs : Service client op) :
    Applies client.sendSignedRequestOnce op Attempt.Refused Attempt.Accepted where
  once n w := hs.once n w
  refused n w h := hs.refused n w h
  accepted n w h := hs.accepted n w h

theorem Service.built (hs : Service client op) : Applies client.sendBuilt op Attempt.Refused Attempt.Accepted where
  once n w := by
    unfold TosClient.sendBuilt
    split
    · exact .inl rfl
    · exact hs.sent.once n w
  refused n w h := by
    unfold TosClient.sendBuilt at h ⊢
    split at h
    · rfl
    · exact hs.sent.refused n w h
  accepted n w h := by
    unfold TosClient.sendBuilt at h ⊢
    split at h
    · cases h
    · exact hs.sent.accepted n w h

def Answered (result : Except CliError Response) : Prop :=
  ∃ response, result = .ok response ∧ isSuccess response.status

def Consumed (result : Except CliError T) : Prop := ∃ value, result = .ok value

-- The answers after which a request is sent again.
def Resent (method : Method) : Attempt → Prop := Repeatable (isRequestRetrySafe method) Attempt.Refused

-- A call of the client, from `w`.
structure CallsOnce (client : TosClient W) (op : W → W) (method : Method)
    (consume : Nat → Response → Except CliError T) (w : W) : Prop where
  sendRequest : AtMostOnce op w Answered Short (Resent method) (client.maxRetryCount + 1)
    (client.sendRequest method w)
  sendRequestWithConsumer : AtMostOnce op w Consumed Short (Resent method) (client.maxRetryCount + 1)
    (client.sendRequestWithConsumer method consume w)
  sendReplayableStreamingRequest : AtMostOnce op w Answered Short (Resent method) (client.maxRetryCount + 1)
    (client.sendReplayableStreamingRequest method w)
  sendReplayableStreamingRequestWithConsumer : AtMostOnce op w Consumed Short (Resent method)
    (client.maxRetryCount + 1) (client.sendReplayableStreamingRequestWithConsumer method consume w)
  sendSignedRequest : ∀ hasBody, AtMostOnce op w Answered Short (Resent method) (client.maxRetryCount + 1)
    (client.sendSignedRequest method hasBody w)

theorem sendSignedRequest_atMostOnce (hs : Service client op) {method : Method}
    (hidem : isRequestRetrySafe method = true → ∀ w, op (op w) = op w) (w : W) (hasBody : Bool) :
    AtMostOnce op w Answered Short (Resent method) (client.maxRetryCount + 1)
      (client.sendSignedRequest method hasBody w) := by
  cases hasBody with
  | false => exact retryLoop_atMostOnce sendRequest_policy hs.sent hidem
  | true =>
    refine ⟨hs.once 0 w, fun hsuccess => hs.accepted 0 w ?_, Nat.le_add_left 1 _, Nat.one_pos,
      List.forall_mem_nil _, rfl, List.forall_mem_nil _⟩
    obtain ⟨response, hresponse, hstatus⟩ := hsuccess
    rw [show (client.sendOnce 0 w).1 = .ok response from hresponse]
    exact hstatus

theorem requests_applied_at_most_once (hs : Service client op) (method : Method)
    (hidem : isRequestRetrySafe method = true → ∀ w, op (op w) = op w)
    (hconsume : ∀ n response value, consume n response = .ok value → isSuccess response.status) (w : W) :
    CallsOnce client op method consume w where
  sendRequest := retryLoop_atMostOnce sendRequest_policy hs.sent hidem
  sendRequestWithConsumer := retryLoop_atMostOnce (sendRequestWithConsumer_policy hconsume) hs.sent hidem
  sendReplayableStreamingRequest := retryLoop_atMostOnce sendRequest_policy hs.built hidem
  sendReplayableStreamingRequestWithConsumer :=
    retryLoop_atMostOnce (sendRequestWithConsumer_policy hconsume) hs.built hidem
  sendSignedRequest := sendSignedRequest_atMostOnce hs hidem w

-- The first attempt is throttled, the second one increments.
def counting : TosClient Nat where
  clock := ⟨fun _ => none, fun _ => 0⟩
  maxRetryCount := 3
  sendOnce n w := if n = 0 then (.ok ⟨503, some "2".toList⟩, w) else (.ok ⟨200, none⟩, w + 1)
  bodyFactory _ := .ok ()

theorem counting_service : Service counting (· + 1) where
  once n w := by
    by_cases hn : n = 0
    · exact .inl (by simp [counting, hn])
    · exact .inr (by simp [counting, hn])
  refused n w h := by
    by_cases hn : n = 0
    · simp [counting, hn]
    · simp [counting, hn, Refused, isServerError] at h
  accepted n w h := by
    by_cases hn : n = 0
    · simp [counting, hn, Accepted, isSuccess] at h
    · simp [counting, hn]

def readStatus (_ : Nat) (response : Response) : Except CliError Nat :=
  if 200 ≤ response.status ∧ response.status < 300 then .ok response.status else .error (.other [])

theorem readStatus_success {n : Nat} {response : Response} {value : Nat} (h : readStatus n response = .ok value) :
    isSuccess response.status := by
  unfold readStatus at h
  split at h
  · assumption
  · cases h

theorem requests_applied_at_most_once_post : CallsOnce counting (· + 1) .POST readStatus 5 ∧
    (counting.sendRequestWithConsumer .POST readStatus 5).world = 6 :=
  ⟨requests_applied_at_most_once counting_service .POST (fun h => by cases h)
    (fun _ _ _ h => readStatus_success h) 5, by decide⟩

end Calls

end VeStorage.Tos.Retry
