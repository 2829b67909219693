import VeStorage.Tos.Client.Retry

namespace VeStorage.ADrive.Retry
open Lib
open Lib.Retry (Turn Call retryLoop Ready Ended Applies Policy Repeatable AtMostOnce
  retryLoop_ended)
open Tos.Retry (Method isRequestRetrySafe Clock Response HttpError isServerError shouldRetryStorageStatus
  storageBackoffDelay sleepBeforeResponseRetry Short backoff_short sleep_short retried_status)

inductive IoErrorKind where
  | timedOut | unexpectedEof | connectionReset | connectionAborted | brokenPipe | invalidData | other
deriving DecidableEq, Repr

inductive Error where
  | http (error : HttpError)
  | httpBody (kind : IoErrorKind)
  | json
  | transferFailed (message : Text)
  | authFailed (message : Text)
  | client (message : Text)
  | invalidResponse (message : Text)
  | other

inductive RetrySafety where
  | methodDefault
  | idempotent
deriving DecidableEq, Repr

def RetrySafety.isIdempotent (safety : RetrySafety) (method : Method) : Bool :=
  decide (safety = .idempotent) || isRequestRetrySafe method

def shouldRetryError : Error → Bool
  | .http error => error.isTimeout || error.isConnect || error.isBody || error.isDecode
  | .httpBody kind => decide (kind ≠ .other)
  | .json => true
  | .transferFailed _ => true
  | _ => false

def isConnect : Error → Bool
  | .http error => error.isConnect
  | _ => false

def shouldRetryRequestError (error : Error) (isIdempotent : Bool) : Bool :=
  isConnect error || (isIdempotent && shouldRetryError error)

structure AppliedResponse where
  response : Response
  oauthAccessToken : Option Text

abbrev Answer := Except Error AppliedResponse

inductive ConsumedAttempt (T : Type) where
  | success (value : T)
  | unauthorized (applied : AppliedResponse)

def retryLoopExhausted : Error := .invalidResponse "retry loop exhausted".toList

def tokenNotRecorded : Error := .invalidResponse "OAuth request did not record its Access Token".toList

def oauthRequired : Error := .client "OAuth Space owner defaults require OAuth authentication".toList

def oauthLoginRequired : Error :=
  .authFailed "HTTP 401 [login_required] Access Token remained unauthorized after one refresh".toList

section Turns

variable (clock : Clock) (isIdempotent : Bool) (maxRetryCount : Nat) {T : Type}

def sendWithConsumerTurn (consume : Nat → AppliedResponse → Except Error T) (attempt : Nat) :
    Except Error AppliedResponse → Turn Nat (Except Error (ConsumedAttempt T))
  | .ok applied =>
      if applied.response.status = 401 then .done (.ok (.unauthorized applied))
      else if shouldRetryStorageStatus applied.response.status isIdempotent ∧ attempt < maxRetryCount then
        .again (sleepBeforeResponseRetry clock attempt applied.response)
      else match consume attempt applied with
        | .ok value => .done (.ok (.success value))
        | .error error =>
            if isIdempotent ∧ shouldRetryError error ∧ attempt < maxRetryCount then
              .again (storageBackoffDelay attempt)
            else .done (.error error)
  | .error error =>
      if shouldRetryRequestError error isIdempotent ∧ attempt < maxRetryCount then
        .again (storageBackoffDelay attempt)
      else .done (.error error)

-- A created space is never created again: what its answer says is final.
def sendOauthDefaultSpaceTurn (consume : Nat → AppliedResponse → Except Error T) (attempt : Nat) :
    Except Error AppliedResponse → Turn Nat (Except Error (ConsumedAttempt T))
  | .ok applied =>
      if applied.response.status = 401 then .done (.ok (.unauthorized applied))
      else if shouldRetryStorageStatus applied.response.status false ∧ attempt < maxRetryCount then
        .again (sleepBeforeResponseRetry clock attempt applied.response)
      else .done ((consume attempt applied).map .success)
  | .error error =>
      if shouldRetryRequestError error false ∧ attempt < maxRetryCount then .again (storageBackoffDelay attempt)
      else .done (.error error)

def sendWithTransientTurn (attempt : Nat) :
    Except Error AppliedResponse → Turn Nat (Except Error AppliedResponse)
  | .ok applied =>
      if shouldRetryStorageStatus applied.response.status isIdempotent ∧ attempt < maxRetryCount then
        .again (sleepBeforeResponseRetry clock attempt applied.response)
      else .done (.ok applied)
  | .error error =>
      if shouldRetryRequestError error isIdempotent ∧ attempt < maxRetryCount then
        .again (storageBackoffDelay attempt)
      else .done (.error error)

end Turns

-- The client and its service; requests are numbered by round and attempt.
structure Client (W : Type) where
  clock : Clock
  maxRetryCount : Nat
  oauth : Bool
  sendOnce : Nat → Nat → W → Except Error AppliedResponse × W
  forceRefresh : Text → Except Error Unit

namespace Client

variable {W T : Type} (client : Client W) (method : Method) (retrySafety : RetrySafety)
  (consume : Nat → AppliedResponse → Except Error T)

def sendWithConsumerRetries (round : Nat) : W → Call W Answer Nat (Except Error (ConsumedAttempt T)) :=
  retryLoop (sendWithConsumerTurn client.clock (retrySafety.isIdempotent method) client.maxRetryCount consume)
    (client.sendOnce round) (.error retryLoopExhausted) client.maxRetryCount

def sendOauthDefaultSpaceOnce (round attempt : Nat) (w : W) : Except Error AppliedResponse × W :=
  if client.oauth = false then (.error oauthRequired, w) else client.sendOnce round attempt w

def sendOauthDefaultSpaceWithConsumer (round : Nat) : W → Call W Answer Nat (Except Error (ConsumedAttempt T)) :=
  retryLoop (sendOauthDefaultSpaceTurn client.clock client.maxRetryCount consume)
    (client.sendOauthDefaultSpaceOnce round) (.error retryLoopExhausted) client.maxRetryCount

def sendWithTransientRetries (round : Nat) : W → Call W Answer Nat Answer :=
  retryLoop (sendWithTransientTurn client.clock (isRequestRetrySafe method) client.maxRetryCount)
    (client.sendOnce round) (.error retryLoopExhausted) client.maxRetryCount

def afterReplay : Except Error (ConsumedAttempt T) → Except Error T
  | .error error => .error error
  | .ok (.success value) => .ok value
  | .ok (.unauthorized _) => .error oauthLoginRequired

-- A refused token is replaced once, and the request replayed with the new one.
def withOneRefresh {R R' : Type} (first : Call W Answer Nat R) (applied : AppliedResponse)
    (failed : Error → R') (replay : W → Call W Answer Nat R') : Call W Answer Nat R' :=
  match applied.oauthAccessToken with
  | none => { first with result := failed tokenNotRecorded }
  | some rejectedAccessToken =>
      match client.forceRefresh rejectedAccessToken with
      | .error error => { first with result := failed error }
      | .ok _ => first.andThen (.ok applied) (replay first.world)

def sendRequestWithConsumerAndRetrySafety (w : W) : Call W Answer Nat (Except Error T) :=
  let first := client.sendWithConsumerRetries method retrySafety consume 0 w
  match first.result with
  | .error error => { first with result := .error error }
  | .ok (.success value) => { first with result := .ok value }
  | .ok (.unauthorized applied) =>
      if client.oauth = false then { first with result := consume (client.maxRetryCount + 1) applied }
      else client.withOneRefresh first applied .error fun w =>
        let second := client.sendWithConsumerRetries method retrySafety consume 1 w
        { second with result := afterReplay second.result }

def sendRequest (w : W) : Call W Answer Nat Answer :=
  let first := client.sendWithTransientRetries method 0 w
  match first.result with
  | .error _ => first
  | .ok applied =>
      if applied.response.status ≠ 401 ∨ client.oauth = false then first
      else client.withOneRefresh first applied .error fun w =>
        let second := client.sendWithTransientRetries method 1 w
        match second.result with
        | .error _ => second
        | .ok replay =>
            if replay.response.status = 401 then { second with result := .error oauthLoginRequired } else second

def createSpace (w : W) : Call W Answer Nat (Except Error T) :=
  client.sendRequestWithConsumerAndRetrySafety .POST .methodDefault consume w

def createSpaceWithOauthDefaultOwner (w : W) : Call W Answer Nat (Except Error T) :=
  let first := client.sendOauthDefaultSpaceWithConsumer consume 0 w
  match first.result with
  | .error error => { first with result := .error error }
  | .ok (.success value) => { first with result := .ok value }
  | .ok (.unauthorized applied) =>
      if client.oauth = false then first.andThen (.ok applied) (client.createSpace consume first.world)
      else client.withOneRefresh first applied .error fun w =>
        let second := client.sendOauthDefaultSpaceWithConsumer consume 1 w
        { second with result := afterReplay second.result }

end Client

-- A 401, 429 or 5xx answer and a failed connection mean that nothing was applied.
def Refused : Except Error AppliedResponse → Prop
  | .ok applied => applied.response.status = 401 ∨ applied.response.status = 429 ∨
      isServerError applied.response.status = true
  | .error error => isConnect error = true

def Accepted : Except Error AppliedResponse → Prop
  | .ok applied => applied.response.status < 400
  | .error _ => False

def Service {W : Type} (client : Client W) (op : W → W) : Prop :=
  ∀ round, Applies (client.sendOnce round) op Refused Accepted

def Succeeded {T : Type} (result : Except Error (ConsumedAttempt T)) : Prop :=
  ∃ value, result = .ok (.success value)

def Consumed {T : Type} (result : Except Error T) : Prop := ∃ value, result = .ok value

def Answered (result : Except Error AppliedResponse) : Prop :=
  ∃ applied, result = .ok applied ∧ applied.response.status < 400

section Policies

variable {clock : Clock} {isIdempotent : Bool} {maxRetryCount : Nat} {T : Type}
  {consume : Nat → AppliedResponse → Except Error T}

theorem retried_request {error : Error} (h : shouldRetryRequestError error isIdempotent = true) :
    isIdempotent = true ∨ isConnect error = true := by
  simp only [shouldRetryRequestError, Bool.or_eq_true, Bool.and_eq_true] at h
  tauto

theorem sendWithConsumer_policy
    (hconsume : ∀ n applied value, consume n applied = .ok value → applied.response.status < 400) :
    Policy (sendWithConsumerTurn clock isIdempotent maxRetryCount consume) maxRetryCount isIdempotent
      Refused Accepted Succeeded Short where
  last answer := by
    unfold sendWithConsumerTurn
    split
    · split
      · exact ⟨_, rfl⟩
      · rw [if_neg fun h => Nat.lt_irrefl _ h.2]
        split
        · exact ⟨_, rfl⟩
        · exact ⟨_, if_neg fun h => Nat.lt_irrefl _ h.2.2⟩
    · exact ⟨_, if_neg fun h => Nat.lt_irrefl _ h.2⟩
  again n answer pause h := by
    unfold sendWithConsumerTurn at h
    split at h
    · split at h
      · cases h
      · split at h
        · next hretry => exact (retried_status hretry.1).imp id .inr
        · split at h
          · cases h
          · split at h
            · next hretry => exact .inl hretry.1
            · cases h
    · split at h
      · next hretry => exact retried_request hretry.1
      · cases h
  success n answer result h hsuccess := by
    obtain ⟨value, rfl⟩ := hsuccess
    unfold sendWithConsumerTurn at h
    split at h
    · next applied =>
      split at h
      · cases h
      · split at h
        · cases h
        · split at h
          · next v hv => exact hconsume n applied v hv
          · split at h <;> cases h
    · split at h <;> cases h
  short n answer pause h := by
    unfold sendWithConsumerTurn at h
    split at h
    · split at h
      · cases h
      · split at h
        · cases h
          exact sleep_short n _
        · split at h
          · cases h
          · split at h
            · cases h
              exact backoff_short n
            · cases h
    · split at h
      · cases h
        exact backoff_short n
      · cases h

theorem sendOauthDefaultSpaceTurn_eq : sendOauthDefaultSpaceTurn clock maxRetryCount consume =
    sendWithConsumerTurn clock false maxRetryCount consume := by
  funext attempt answer
  unfold sendOauthDefaultSpaceTurn sendWithConsumerTurn
  cases answer with
  | error error => rfl
  | ok applied =>
    dsimp only
    cases consume attempt applied with
    | ok value => rfl
    | error error =>
      have hfinal : ¬ (false = true ∧ shouldRetryError error = true ∧ attempt < maxRetryCount) := fun h =>
        Bool.noConfusion h.1
      dsimp only
      rw [if_neg hfinal]
      rfl

theorem unauthorized_status {n : Nat} {answer : Except Error AppliedResponse} {applied : AppliedResponse}
    (h : sendWithConsumerTurn clock isIdempotent maxRetryCount consume n answer =
      .done (.ok (.unauthorized applied))) : answer = .ok applied ∧ applied.response.status = 401 := by
  unfold sendWithConsumerTurn at h
  split at h
  · split at h
    · next hstatus =>
      cases h
      exact ⟨rfl, hstatus⟩
    · split at h
      · cases h
      · split at h
        · cases h
        · split at h <;> cases h
  · split at h <;> cases h

theorem sendWithTransient_policy :
    Policy (sendWithTransientTurn clock isIdempotent maxRetryCount) maxRetryCount isIdempotent
      Refused Accepted Answered Short where
  last answer := by
    unfold sendWithTransientTurn
    split <;> exact ⟨_, if_neg fun h => Nat.lt_irrefl _ h.2⟩
  again n answer pause h := by
    unfold sendWithTransientTurn at h
    split at h
    · split at h
      · next hretry => exact (retried_status hretry.1).imp id .inr
      · cases h
    · split at h
      · next hretry => exact retried_request hretry.1
      · cases h
  success n answer result h hsuccess := by
    obtain ⟨applied, rfl, hstatus⟩ := hsuccess
    unfold sendWithTransientTurn at h
    split at h
    · split at h
      · cases h
      · cases h
        exact hstatus
    · split at h <;> cases h
  short n answer pause h := by
    unfold sendWithTransientTurn at h
    split at h
    · split at h
      · cases h
        exact sleep_short n _
      · cases h
    · split at h
      · cases h
        exact backoff_short n
      · cases h

theorem transient_answer {n : Nat} {answer : Except Error AppliedResponse} {applied : AppliedResponse}
    (h : sendWithTransientTurn clock isIdempotent maxRetryCount n answer = .done (.ok applied)) :
    answer = .ok applied := by
  unfold sendWithTransientTurn at h
  split at h
  · split at h
    · cases h
    · cases h
      rfl
  · split at h <;> cases h

end Policies

section Calls

variable {W T R R' : Type} {client : Client W} {op : W → W} {method : Method} {retrySafety : RetrySafety}
  {consume : Nat → AppliedResponse → Except Error T} {w : W}

theorem withOneRefresh_atMostOnce {first : Call W Answer Nat R} {success : R → Prop} {success' : R' → Prop}
    {applied : AppliedResponse} {failed : Error → R'} {replay : W → Call W Answer Nat R'} {sends sends' : Nat}
    {again : Answer → Prop} (h : AtMostOnce op w success Short again sends first)
    (hagain : again (.ok applied)) (hfailed : ∀ error, ¬ success' (failed error))
    (hreplay : AtMostOnce op w success' Short again sends' (replay first.world)) :
    AtMostOnce op w success' Short again (sends + sends') (client.withOneRefresh first applied failed replay) := by
  have hstopped : ∀ error, AtMostOnce op w success' Short again (sends + sends')
      { first with result := failed error } := fun error =>
    (h.map fun hsuccess => absurd hsuccess (hfailed error)).mono (Nat.le_add_right _ _)
  unfold Client.withOneRefresh
  split
  · exact hstopped tokenNotRecorded
  · split
    · exact hstopped _
    · exact h.andThen hagain hreplay

theorem not_consumed_error (error : Error) : ¬ Consumed (.error error : Except Error T) := by
  rintro ⟨value, hvalue⟩
  cases hvalue

theorem consumed_afterReplay {result : Except Error (ConsumedAttempt T)} (h : Consumed (Client.afterReplay result)) :
    Succeeded result := by
  obtain ⟨value, hvalue⟩ := h
  cases result with
  | error error => cases hvalue
  | ok attempt =>
    cases attempt with
    | unauthorized applied => cases hvalue
    | success v => exact ⟨v, rfl⟩

-- A round that ended with a refused token left the service as it found it.
theorem unauthorized_ended {isIdempotent : Bool} {send : Nat → W → Answer × W} {sends : Nat}
    {call : Call W Answer Nat (Except Error (ConsumedAttempt T))} {applied : AppliedResponse}
    (h : Ended (sendWithConsumerTurn client.clock isIdempotent client.maxRetryCount consume) send op
      isIdempotent Refused w Short sends call)
    (hs : Applies send op Refused Accepted) (hresult : call.result = .ok (.unauthorized applied)) :
    applied.response.status = 401 ∧ Ready op isIdempotent w call.world ∧ ∃ n v, (send n v).1 = .ok applied := by
  have hturn : ∀ n v, sendWithConsumerTurn client.clock isIdempotent client.maxRetryCount consume n (send n v).1 =
      .done call.result → (send n v).1 = .ok applied ∧ applied.response.status = 401 := fun n v he =>
    unauthorized_status (hresult ▸ he)
  obtain ⟨n, v, -, hlast, -⟩ := h.last
  obtain ⟨hanswer, hstatus⟩ := hturn n v hlast
  refine ⟨hstatus, h.ready hs fun n v he => ?_, n, v, hanswer⟩
  rw [(hturn n v he).1]
  exact .inl hstatus

section Consumers

variable (hs : Service client op)
  (hidem : retrySafety.isIdempotent method = true → ∀ w, op (op w) = op w)
  (hconsume : ∀ n applied value, consume n applied = .ok value → applied.response.status < 400)
include hs hidem hconsume

theorem sendWithConsumerRetries_ended (round : Nat) {v : W}
    (hv : Ready op (retrySafety.isIdempotent method) w v) :
    Ended (sendWithConsumerTurn client.clock (retrySafety.isIdempotent method) client.maxRetryCount consume)
      (client.sendOnce round) op (retrySafety.isIdempotent method) Refused w Short (client.maxRetryCount + 1)
      (client.sendWithConsumerRetries method retrySafety consume round v) :=
  retryLoop_ended (sendWithConsumer_policy hconsume) (hs round) hidem hv

theorem sendRequestWithConsumer_atMostOnce :
    AtMostOnce op w Consumed Short (Repeatable (retrySafety.isIdempotent method) Refused)
      (client.maxRetryCount + 1 + (client.maxRetryCount + 1))
      (client.sendRequestWithConsumerAndRetrySafety method retrySafety consume w) := by
  have hpolicy : Policy (sendWithConsumerTurn client.clock (retrySafety.isIdempotent method)
      client.maxRetryCount consume) client.maxRetryCount (retrySafety.isIdempotent method) Refused Accepted
      Succeeded Short := sendWithConsumer_policy hconsume
  have hstart : Ready op (retrySafety.isIdempotent method) w w := .inl rfl
  have hended := sendWithConsumerRetries_ended hs hidem hconsume 0 hstart
  have honce := hended.atMostOnce hpolicy (hs 0) hidem
  unfold Client.sendRequestWithConsumerAndRetrySafety
  dsimp only
  split
  · next error hresult =>
    exact (honce.map fun hsuccess => absurd hsuccess (not_consumed_error error)).mono (Nat.le_add_right _ _)
  · next value hresult => exact (honce.map fun _ => ⟨value, hresult⟩).mono (Nat.le_add_right _ _)
  · next applied hresult =>
    obtain ⟨hstatus, hready, -⟩ := unauthorized_ended hended (hs 0) hresult
    split
    · refine (honce.map fun hsuccess => ?_).mono (Nat.le_add_right _ _)
      obtain ⟨value, hvalue⟩ := hsuccess
      have hlow := hconsume _ applied value hvalue
      omega
    · refine withOneRefresh_atMostOnce honce (.inr (.inl hstatus)) not_consumed_error ?_
      have hsecond := (sendWithConsumerRetries_ended hs hidem hconsume 1 hready).atMostOnce hpolicy (hs 1) hidem
      exact hsecond.map consumed_afterReplay

end Consumers

theorem sendOauthDefaultSpaceOnce_applies (hs : Service client op) (round : Nat) :
    Applies (client.sendOauthDefaultSpaceOnce round) op Refused Accepted := by
  by_cases hoauth : client.oauth = false
  · have hnone : ∀ n w, client.sendOauthDefaultSpaceOnce round n w = (.error oauthRequired, w) := fun n w =>
      if_pos hoauth
    refine ⟨fun n w => .inl ?_, fun n w _ => ?_, fun n w h => ?_⟩
    · rw [hnone]
    · rw [hnone]
    · rw [hnone] at h
      cases h
  · have hsend : client.sendOauthDefaultSpaceOnce round = client.sendOnce round := by
      funext n w
      exact if_neg hoauth
    rw [hsend]
    exact hs round

section Spaces

variable (hs : Service client op)
  (hconsume : ∀ n applied value, consume n applied = .ok value → applied.response.status < 400)
include hs hconsume

theorem sendOauthDefaultSpace_ended (round : Nat) {v : W} (hv : Ready op false w v) :
    Ended (sendWithConsumerTurn client.clock false client.maxRetryCount consume)
      (client.sendOauthDefaultSpaceOnce round) op false Refused w Short (client.maxRetryCount + 1)
      (client.sendOauthDefaultSpaceWithConsumer consume round v) := by
  unfold Client.sendOauthDefaultSpaceWithConsumer
  rw [sendOauthDefaultSpaceTurn_eq]
  exact retryLoop_ended (sendWithConsumer_policy hconsume) (sendOauthDefaultSpaceOnce_applies hs round)
    (fun h => Bool.noConfusion h) hv

theorem createSpace_atMostOnce :
    AtMostOnce op w Consumed Short (Repeatable false Refused) (client.maxRetryCount + 1 + (client.maxRetryCount + 1))
      (client.createSpaceWithOauthDefaultOwner consume w) := by
  have hpolicy : Policy (sendWithConsumerTurn client.clock false client.maxRetryCount consume)
      client.maxRetryCount false Refused Accepted Succeeded Short := sendWithConsumer_policy hconsume
  have happlies := sendOauthDefaultSpaceOnce_applies hs
  have hnever : false = true → ∀ w, op (op w) = op w := fun h => Bool.noConfusion h
  have hstart : Ready op false w w := .inl rfl
  have hended := sendOauthDefaultSpace_ended hs hconsume 0 hstart
  have honce := hended.atMostOnce hpolicy (happlies 0) hnever
  unfold Client.createSpaceWithOauthDefaultOwner
  dsimp only
  split
  · next error hresult =>
    exact (honce.map fun hsuccess => absurd hsuccess (not_consumed_error error)).mono (Nat.le_add_right _ _)
  · next value hresult => exact (honce.map fun _ => ⟨value, hresult⟩).mono (Nat.le_add_right _ _)
  · next applied hresult =>
    obtain ⟨hstatus, hready, n, v, hanswer⟩ := unauthorized_ended hended (happlies 0) hresult
    split
    · next hoauth =>
      -- Without OAuth nothing was sent, and so nothing was unauthorized.
      rw [Client.sendOauthDefaultSpaceOnce, if_pos hoauth] at hanswer
      cases hanswer
    · refine withOneRefresh_atMostOnce honce (.inr (.inl hstatus)) not_consumed_error ?_
      have hsecond := (sendOauthDefaultSpace_ended hs hconsume 1 hready).atMostOnce hpolicy (happlies 1) hnever
      exact hsecond.map consumed_afterReplay

end Spaces

theorem not_answered_error (error : Error) : ¬ Answered (.error error) := by
  rintro ⟨applied, happlied, -⟩
  cases happlied

theorem sendRequest_atMostOnce (hs : Service client op)
    (hidem : isRequestRetrySafe method = true → ∀ w, op (op w) = op w) :
    AtMostOnce op w Answered Short (Repeatable (isRequestRetrySafe method) Refused)
      (client.maxRetryCount + 1 + (client.maxRetryCount + 1)) (client.sendRequest method w) := by
  have hpolicy : Policy (sendWithTransientTurn client.clock (isRequestRetrySafe method) client.maxRetryCount)
      client.maxRetryCount (isRequestRetrySafe method) Refused Accepted Answered Short := sendWithTransient_policy
  have hended : ∀ round v, Ready op (isRequestRetrySafe method) w v →
      Ended (sendWithTransientTurn client.clock (isRequestRetrySafe method) client.maxRetryCount)
        (client.sendOnce round) op (isRequestRetrySafe method) Refused w Short (client.maxRetryCount + 1)
        (client.sendWithTransientRetries method round v) := fun round v hv =>
    retryLoop_ended hpolicy (hs round) hidem hv
  have hfirst := hended 0 w (.inl rfl)
  have honce := hfirst.atMostOnce hpolicy (hs 0) hidem
  unfold Client.sendRequest
  dsimp only
  split
  · exact honce.mono (Nat.le_add_right _ _)
  · next applied hresult =>
    split
    · exact honce.mono (Nat.le_add_right _ _)
    · next hreplay =>
      have hstatus : applied.response.status = 401 := by
        by_contra hne
        exact hreplay (.inl hne)
      refine withOneRefresh_atMostOnce honce (.inr (.inl hstatus)) not_answered_error ?_
      have hready := hfirst.ready (hs 0) fun n v hturn => by
        rw [hresult] at hturn
        rw [transient_answer hturn]
        exact .inl hstatus
      have hsecond := (hended 1 _ hready).atMostOnce hpolicy (hs 1) hidem
      split
      · exact hsecond
      · split
        · exact hsecond.map fun hsuccess => absurd hsuccess (not_answered_error oauthLoginRequired)
        · exact hsecond

structure CallsOnce (client : Client W) (op : W → W) (method : Method) (retrySafety : RetrySafety)
    (consume : Nat → AppliedResponse → Except Error T) (w : W) : Prop where
  sendRequestWithConsumer : AtMostOnce op w Consumed Short (Repeatable (retrySafety.isIdempotent method) Refused)
    (client.maxRetryCount + 1 + (client.maxRetryCount + 1))
    (client.sendRequestWithConsumerAndRetrySafety method retrySafety consume w)
  sendRequest : AtMostOnce op w Answered Short (Repeatable (isRequestRetrySafe method) Refused)
    (client.maxRetryCount + 1 + (client.maxRetryCount + 1)) (client.sendRequest method w)
  createSpaceWithOauthDefaultOwner : AtMostOnce op w Consumed Short (Repeatable false Refused)
    (client.maxRetryCount + 1 + (client.maxRetryCount + 1)) (client.createSpaceWithOauthDefaultOwner consume w)

theorem replayed_requests_applied_at_most_once (hs : Service client op)
    (hidem : retrySafety.isIdempotent method = true → ∀ w, op (op w) = op w)
    (hconsume : ∀ n applied value, consume n applied = .ok value → applied.response.status < 400) (w : W) :
    CallsOnce client op method retrySafety consume w where
  sendRequestWithConsumer := sendRequestWithConsumer_atMostOnce hs hidem hconsume
  sendRequest := sendRequest_atMostOnce hs fun h => hidem (by rw [RetrySafety.isIdempotent, h, Bool.or_true])
  createSpaceWithOauthDefaultOwner := createSpace_atMostOnce hs hconsume

-- The first round ends with a refused token, the second one increments.
def counting : Client Nat where
  clock := ⟨fun _ => none, fun _ => 0⟩
  maxRetryCount := 3
  oauth := true
  sendOnce round _ w :=
    if round = 0 then (.ok ⟨⟨401, none⟩, some "old".toList⟩, w)
    else (.ok ⟨⟨201, none⟩, some "new".toList⟩, w + 1)
  forceRefresh _ := .ok ()

theorem counting_service : Service counting (· + 1) := by
  intro round
  by_cases hr : round = 0
  · refine ⟨fun n w => .inl (by simp [counting, hr]), fun n w _ => by simp [counting, hr], fun n w h => ?_⟩
    simp [counting, hr, Accepted] at h
  · refine ⟨fun n w => .inr (by simp [counting, hr]), fun n w h => ?_, fun n w _ => by simp [counting, hr]⟩
    simp [counting, hr, Refused, isServerError] at h

def readStatus (_ : Nat) (applied : AppliedResponse) : Except Error Nat :=
  if applied.response.status < 400 then .ok applied.response.status else .error .other

theorem readStatus_success {n : Nat} {applied : AppliedResponse} {value : Nat}
    (h : readStatus n applied = .ok value) : applied.response.status < 400 := by
  unfold readStatus at h
  split at h
  · assumption
  · cases h

theorem replayed_requests_applied_at_most_once_post :
    CallsOnce counting (· + 1) .POST .methodDefault readStatus 5 ∧
      (counting.createSpaceWithOauthDefaultOwner readStatus 5).world = 6 :=
  ⟨replayed_requests_applied_at_most_once counting_service (fun h => by cases h)
    (fun _ _ _ h => readStatus_success h) 5, by decide⟩

end Calls

end VeStorage.ADrive.Retry
