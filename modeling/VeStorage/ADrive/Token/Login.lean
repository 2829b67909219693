import VeStorage.ADrive.ShareAccess.Response
import VeStorage.ADrive.ShareUrl.Sample
import VeStorage.ADrive.Token.Machine
import VeStorage.Lib.Polling

namespace VeStorage.ADrive.Login
open Lib Polling
open Share (CliError isControl)
open Lib.Crash (bind_eq_ok)
open ShareAccess (sanitizeRequestId)
open ShareUrl (UrlCrate)
open Token (TokenResponse OAuthFailure OAuthClientError isBlank invalidResponse requestText trimWhitespace)

def nanosPerSec : Nat := 10 ^ 9

def durationMax : Nat := (2 ^ 64 - 1) * nanosPerSec + (nanosPerSec - 1)

def instantMax : Nat := (2 ^ 63 - 1) * nanosPerSec + (nanosPerSec - 1)

structure Duration where
  nanos : Nat
  bounded : nanos ≤ durationMax

namespace Duration

theorem secs_le (secs : UInt64) : secs.toNat * nanosPerSec ≤ durationMax := by
  have hlt := secs.toNat_lt
  unfold durationMax nanosPerSec
  omega

def fromSecs (secs : UInt64) : Duration := ⟨secs.toNat * nanosPerSec, secs_le secs⟩

def checkedAdd (a b : Duration) : Option Duration :=
  if h : a.nanos + b.nanos ≤ durationMax then some ⟨a.nanos + b.nanos, h⟩ else none

def maximum : Duration := ⟨durationMax, Nat.le_refl _⟩

def max (a b : Duration) : Duration := if a.nanos ≤ b.nanos then b else a

theorem left_le_max (a b : Duration) : a.nanos ≤ (a.max b).nanos := by
  unfold max
  split
  · assumption
  · exact Nat.le_refl _

theorem right_le_max (a b : Duration) : b.nanos ≤ (a.max b).nanos := by
  unfold max
  split
  · exact Nat.le_refl _
  · omega

end Duration

def addInstant (instant : Nat) (duration : Duration) : Option Nat :=
  if instant + duration.nanos ≤ instantMax then some (instant + duration.nanos) else none

def slowDownIncrement : Duration := .fromSecs 5

structure PollingSchedule where
  interval : Duration
  positive : 0 < interval.nanos

def intervalOf (schedule : PollingSchedule) : Nat := schedule.interval.nanos

namespace PollingSchedule

def new (interval : Duration) : Except CliError PollingSchedule :=
  if h : 0 < interval.nanos then .ok ⟨interval, h⟩
  else .error (.validation "OAuth polling interval must be greater than zero")

def incremented (schedule : PollingSchedule) : Duration :=
  (schedule.interval.checkedAdd slowDownIncrement).getD .maximum

theorem le_incremented (schedule : PollingSchedule) : schedule.interval.nanos ≤ schedule.incremented.nanos := by
  unfold incremented Duration.checkedAdd
  split
  · exact Nat.le_add_right _ _
  · exact schedule.interval.bounded

def slowed (incremented : Duration) : Option Duration → Duration
  | some value => incremented.max value
  | none => incremented

theorem le_slowed (incremented : Duration) (serverInterval : Option Duration) :
    incremented.nanos ≤ (slowed incremented serverInterval).nanos := by
  cases serverInterval with
  | none => exact Nat.le_refl _
  | some value => exact Duration.left_le_max _ _

def applySlowDown (schedule : PollingSchedule) (serverInterval : Option Duration) : PollingSchedule where
  interval := slowed schedule.incremented serverInterval
  positive := Nat.lt_of_lt_of_le schedule.positive (Nat.le_trans schedule.le_incremented (le_slowed _ _))

def hinted (interval : Duration) : Option Duration → Duration
  | some value => interval.max value
  | none => interval

theorem le_hinted (interval : Duration) (retryAfter : Option Duration) :
    interval.nanos ≤ (hinted interval retryAfter).nanos := by
  cases retryAfter with
  | none => exact Nat.le_refl _
  | some value => exact Duration.left_le_max _ _

def applyRetryHint (schedule : PollingSchedule) (retryAfter : Option Duration) : PollingSchedule where
  interval := hinted schedule.interval retryAfter
  positive := Nat.lt_of_lt_of_le schedule.positive (le_hinted _ _)

theorem incremented_ge (schedule : PollingSchedule) :
    min durationMax (intervalOf schedule + slowDownIncrement.nanos) ≤ schedule.incremented.nanos := by
  unfold intervalOf incremented Duration.checkedAdd
  split
  · exact Nat.min_le_right _ _
  · exact Nat.min_le_left _ _

theorem intervalOf_slowDown (schedule : PollingSchedule) (serverInterval : Option Duration) :
    intervalOf (schedule.applySlowDown serverInterval) = (slowed schedule.incremented serverInterval).nanos := rfl

theorem intervalOf_retryHint (schedule : PollingSchedule) (retryAfter : Option Duration) :
    intervalOf (schedule.applyRetryHint retryAfter) = (hinted schedule.interval retryAfter).nanos := rfl

end PollingSchedule

structure DeviceFailure extends OAuthFailure where
  interval : Option UInt64
  retryAfterSeconds : Option UInt64

inductive DeviceTokenOutcome where
  | success (token : TokenResponse)
  | pending (failure : DeviceFailure)
  | slowDown (failure : DeviceFailure)
  | denied (failure : DeviceFailure)
  | expired (failure : DeviceFailure)
  | temporary (failure : DeviceFailure)
  | terminal (failure : DeviceFailure)

structure OAuthErrorBody where
  error : Text
  requestId : Option Text
  interval : Option UInt64

-- `token` and `failure` are the two readings of the body's JSON.
structure Response where
  status : Nat
  retryAfter : Option UInt64
  requestId : Option Text
  token : Option TokenResponse
  failure : Option OAuthErrorBody

inductive Reply where
  | failed (isTimeout isConnect : Bool)
  | tooLong
  | received (response : Response)

def isErrorCodeChar (c : Char) : Bool := c.isAlphanum || c = '_' || c = '-' || c = '.'

def isSafeErrorCode (code : Text) : Bool :=
  !code.isEmpty && decide (code.length ≤ 64) && code.all isErrorCodeChar

def defaultErrorCode (status : Nat) : Text :=
  if status = 429 ∨ status = 503 then "temporarily_unavailable".toList
  else if 500 ≤ status ∧ status ≤ 599 then "server_error".toList
  else "invalid_response".toList

def parseOauthFailure (response : Response) : DeviceFailure where
  code := ((response.failure.map fun body => trimWhitespace body.error).filter isSafeErrorCode).getD
    (defaultErrorCode response.status)
  requestId := ((response.failure.bind OAuthErrorBody.requestId).bind sanitizeRequestId).or
    (response.requestId.bind sanitizeRequestId)
  status := response.status
  interval := response.failure.bind OAuthErrorBody.interval
  retryAfterSeconds := response.retryAfter

def classify (failure : DeviceFailure) : DeviceTokenOutcome :=
  if failure.code = "authorization_pending".toList then .pending failure
  else if failure.code = "slow_down".toList then .slowDown failure
  else if failure.code = "access_denied".toList then .denied failure
  else if failure.code = "expired_token".toList then .expired failure
  else if failure.code ∈ ["temporarily_unavailable".toList, "server_error".toList] then .temporary failure
  else .terminal failure

def pollDeviceToken : Reply → Except OAuthClientError DeviceTokenOutcome
  | .failed isTimeout isConnect => .error (.http isTimeout isConnect)
  | .tooLong => .error (.response "response body exceeded 1 MiB")
  | .received response =>
      if 200 ≤ response.status ∧ response.status < 300 then
        match response.token with
        | some token => .ok (.success token)
        | none => .error (.response "response JSON does not match contract")
      else .ok (classify (parseOauthFailure response))

inductive PollOnceError where
  | client (error : OAuthClientError)
  | expired
  | cancelled
  | signal

def oauthFailureDiagnostic (failure : OAuthFailure) : String :=
  "HTTP " ++ toString failure.status ++ " [" ++ String.ofList failure.code ++ "] OAuth authorization failed" ++
    requestText failure.requestId

def mapOauthFailure (failure : OAuthFailure) : CliError :=
  if failure.code ∈ ["invalid_request".toList, "invalid_scope".toList, "unsupported_response_type".toList,
      "unsupported_grant_type".toList] then .validation (oauthFailureDiagnostic failure)
  else if failure.code = "temporarily_unavailable".toList then .rateLimited (oauthFailureDiagnostic failure)
  else if failure.code = "server_error".toList then .unknown (oauthFailureDiagnostic failure)
  else .authFailed (oauthFailureDiagnostic failure)

def mapOauthClientError : OAuthClientError → CliError
  | .oauth failure => mapOauthFailure failure
  | .http _ _ => .http
  | .response message => invalidResponse message

def expiredGrant : CliError := .authFailed "[expired_token] Device authorization expired; run auth login again"

def cancelledLogin : CliError := .authFailed "OAuth login cancelled"

def pollFailed : PollOnceError → CliError
  | .client error => mapOauthClientError error
  | .expired => expiredGrant
  | .cancelled => cancelledLogin
  | .signal => .io

abbrev Outcome := Except PollOnceError DeviceTokenOutcome

-- What ends a poll first: the request, the deadline or Ctrl-C.
inductive PollEvent where
  | reply (reply : Reply)
  | deadline
  | interrupted (signal : Except Unit Unit)

def pollOnce : PollEvent → Outcome
  | .reply reply =>
      match pollDeviceToken reply with
      | .ok outcome => .ok outcome
      | .error error => .error (.client error)
  | .deadline => .error .expired
  | .interrupted (.ok _) => .error .cancelled
  | .interrupted (.error _) => .error .signal

-- One pass of the loop behind the poll: the schedule of the next one, or how the loop ends.
def afterPoll (schedule : PollingSchedule) : Outcome → PollingSchedule ⊕ Except CliError TokenResponse
  | .error (.client (.http isTimeout isConnect)) =>
      if (isTimeout || isConnect) = true then .inl schedule else .inr (.error .http)
  | .error error => .inr (.error (pollFailed error))
  | .ok (.success token) => .inr (.ok token)
  | .ok (.pending _) => .inl schedule
  | .ok (.temporary failure) =>
      .inl (schedule.applyRetryHint ((failure.retryAfterSeconds.or failure.interval).map .fromSecs))
  | .ok (.slowDown failure) => .inl (schedule.applySlowDown (failure.interval.map .fromSecs))
  | .ok (.denied failure) => .inr (.error (mapOauthFailure failure.toOAuthFailure))
  | .ok (.expired failure) => .inr (.error (mapOauthFailure failure.toOAuthFailure))
  | .ok (.terminal failure) => .inr (.error (mapOauthFailure failure.toOAuthFailure))

def wakeAt (now : Nat) (interval : Duration) (deadline : Nat) : Nat :=
  match addInstant now interval with
  | some candidate => min candidate deadline
  | none => deadline

structure State where
  schedule : PollingSchedule
  now : Nat
  polls : List (Poll PollEvent)
  result : Option (Except CliError TokenResponse)

-- `wait_for_next_poll` and `poll_once`: sleeps and answers may come late, and an interrupt at any time.
inductive Step (deadline : Nat) : State → State → Prop
  | again (schedule schedule' now sent ended later polls event)
      (hwake : wakeAt now schedule.interval deadline ≤ sent) (hopen : sent < deadline) (hended : sent ≤ ended)
      (hexpired : event = .deadline → deadline ≤ ended) (hlater : ended ≤ later)
      (hnext : afterPoll schedule (pollOnce event) = .inl schedule') :
      Step deadline ⟨schedule, now, polls, none⟩ ⟨schedule', later, polls ++ [⟨sent, ended, event⟩], none⟩
  | stop (schedule now sent ended polls event result)
      (hwake : wakeAt now schedule.interval deadline ≤ sent) (hopen : sent < deadline) (hended : sent ≤ ended)
      (hexpired : event = .deadline → deadline ≤ ended)
      (hend : afterPoll schedule (pollOnce event) = .inr result) :
      Step deadline ⟨schedule, now, polls, none⟩ ⟨schedule, ended, polls ++ [⟨sent, ended, event⟩], some result⟩
  | expire (schedule now woke polls) (hwake : wakeAt now schedule.interval deadline ≤ woke)
      (hlate : deadline ≤ woke) :
      Step deadline ⟨schedule, now, polls, none⟩ ⟨schedule, woke, polls, some (.error expiredGrant)⟩
  | interrupt (schedule now later polls error) (hlater : now ≤ later) (herror : error ∈ [cancelledLogin, .io]) :
      Step deadline ⟨schedule, now, polls, none⟩ ⟨schedule, later, polls, some (.error error)⟩

structure DeviceAuthorizationResponse where
  deviceCode : Text
  userCode : Text
  verificationUri : Text
  verificationUriComplete : Text
  expiresIn : UInt64
  interval : UInt64

section Grant

variable (crate : UrlCrate)

def validateVerificationUrl (value : Text) : Except CliError Unit :=
  match crate.parse value with
  | none => .error (invalidResponse "verification URI must be an absolute URL")
  | some url =>
      if crate.scheme url ∈ ["http".toList, "https".toList] ∧ crate.hostStr url ≠ none ∧
          crate.username url = [] ∧ crate.password url = none then .ok ()
      else .error (invalidResponse "verification URI must use HTTP or HTTPS without userinfo")

def InvalidGrant (response : DeviceAuthorizationResponse) : Prop :=
  isBlank response.deviceCode = true ∨ isBlank response.userCode = true ∨ 128 < response.userCode.length ∨
    response.userCode.any isControl = true ∨ isBlank response.verificationUri = true ∨
    isBlank response.verificationUriComplete = true ∨ response.expiresIn = 0 ∨ response.interval = 0

instance (response : DeviceAuthorizationResponse) : Decidable (InvalidGrant response) :=
  inferInstanceAs (Decidable (_ ∨ _))

def validateDeviceAuthorization (response : DeviceAuthorizationResponse) :
    Except CliError DeviceAuthorizationResponse :=
  if InvalidGrant response then
    .error (invalidResponse "Device Authorization response contains an invalid required field")
  else do
    validateVerificationUrl crate response.verificationUri
    validateVerificationUrl crate response.verificationUriComplete
    return response

def createDeviceGrant (answer : Except OAuthClientError DeviceAuthorizationResponse) :
    Except CliError DeviceAuthorizationResponse :=
  match answer with
  | .ok response => validateDeviceAuthorization crate response
  | .error error => .error (mapOauthClientError error)

end Grant

def lifetime (grant : DeviceAuthorizationResponse) : Duration := .fromSecs grant.expiresIn

def pollUntilAuthorized (now : Nat) (grant : DeviceAuthorizationResponse) : Except CliError (Nat × State) := do
  let schedule ← PollingSchedule.new (.fromSecs grant.interval)
  match addInstant now (lifetime grant) with
  | some deadline => .ok (deadline, ⟨schedule, now, [], none⟩)
  | none => .error (invalidResponse "Device Grant lifetime is too large")

abbrev Run (deadline : Nat) : State → State → Prop := Relation.ReflTransGen (Step deadline)

def next (schedule : PollingSchedule) (event : PollEvent) : PollingSchedule :=
  match afterPoll schedule (pollOnce event) with
  | .inl schedule' => schedule'
  | .inr _ => schedule

-- An answer outside 2xx, whose body or else whose status names one of these errors.
def Response.Fails (response : Response) (codes : List String) : Prop :=
  ¬ (200 ≤ response.status ∧ response.status < 300) ∧
    (parseOauthFailure response).code ∈ codes.map String.toList

instance (response : Response) (codes : List String) : Decidable (response.Fails codes) :=
  inferInstanceAs (Decidable (_ ∧ _))

def isSlowDown : PollEvent → Bool
  | .reply (.received response) => decide (response.Fails ["slow_down"])
  | _ => false

-- The wait that an answer asks for: a slow_down in its body, a temporary error in its header first.
def hintOf : PollEvent → Option UInt64
  | .reply (.received response) =>
      if response.Fails ["slow_down"] then response.failure.bind OAuthErrorBody.interval
      else if response.Fails ["temporarily_unavailable", "server_error"] then
        response.retryAfter.or (response.failure.bind OAuthErrorBody.interval)
      else none
  | _ => none

def slowDowns (polls : List (Poll PollEvent)) : Nat := polls.countP fun poll => isSlowDown poll.answer

-- The four kinds of answers after which a login may poll again.
inductive Continues : PollEvent → Prop
  | unanswered (isTimeout isConnect : Bool) (h : isTimeout = true ∨ isConnect = true) :
      Continues (.reply (.failed isTimeout isConnect))
  | pending (response : Response) (h : response.Fails ["authorization_pending"]) :
      Continues (.reply (.received response))
  | slowDown (response : Response) (h : response.Fails ["slow_down"]) : Continues (.reply (.received response))
  | temporary (response : Response) (h : response.Fails ["temporarily_unavailable", "server_error"]) :
      Continues (.reply (.received response))

structure PollsPaced (grant : DeviceAuthorizationResponse) (start : Nat) (s : State) : Prop where
  in_time : ∀ poll ∈ s.polls, poll.sent < start + (lifetime grant).nanos
  bounded : s.polls ≠ [] → s.polls.length * grant.interval.toNat < grant.expiresIn.toNat
  first : ∀ poll post, s.polls = poll :: post → start + (Duration.fromSecs grant.interval).nanos ≤ poll.sent
  slowed : ∀ pre p q post, s.polls = pre ++ p :: q :: post →
    p.ended + min durationMax ((Duration.fromSecs grant.interval).nanos +
      slowDowns (pre ++ [p]) * slowDownIncrement.nanos) ≤ q.sent
  hinted : ∀ pre p q post, s.polls = pre ++ p :: q :: post → ∀ poll ∈ pre ++ [p], ∀ hint ∈ hintOf poll.answer,
    p.ended + (Duration.fromSecs hint).nanos ≤ q.sent
  unfinished : ∀ pre p q post, s.polls = pre ++ p :: q :: post → Continues p.answer
  granted : ∀ token, s.result = some (.ok token) → ∃ pre p response, s.polls = pre ++ [p] ∧
    p.answer = .reply (.received response) ∧ 200 ≤ response.status ∧ response.status < 300 ∧
    response.token = some token

section Answers

open PollingSchedule (le_slowed le_hinted intervalOf_slowDown intervalOf_retryHint)

variable {schedule schedule' : PollingSchedule} {outcome : Outcome} {event : PollEvent} {response : Response}

inductive Kept (schedule : PollingSchedule) : Outcome → PollingSchedule → Prop
  | unanswered (isTimeout isConnect) (h : (isTimeout || isConnect) = true) :
      Kept schedule (.error (.client (.http isTimeout isConnect))) schedule
  | pending (failure) : Kept schedule (.ok (.pending failure)) schedule
  | temporary (failure) : Kept schedule (.ok (.temporary failure))
      (schedule.applyRetryHint ((failure.retryAfterSeconds.or failure.interval).map .fromSecs))
  | slowDown (failure) : Kept schedule (.ok (.slowDown failure))
      (schedule.applySlowDown (failure.interval.map .fromSecs))

theorem afterPoll_http (isTimeout isConnect : Bool) :
    afterPoll schedule (.error (.client (.http isTimeout isConnect))) =
      if (isTimeout || isConnect) = true then .inl schedule else .inr (.error .http) := rfl

theorem kept_of_inl (h : afterPoll schedule outcome = .inl schedule') : Kept schedule outcome schedule' := by
  rcases outcome with (error | - | - | -) | (token | failure | failure | failure | failure | failure | failure)
  · rcases error with ⟨isTimeout, isConnect⟩ | message | failure
    · rw [afterPoll_http] at h
      split at h
      · cases h
        exact .unanswered isTimeout isConnect ‹_›
      · cases h
    · cases h
    · cases h
  all_goals cases h
  · exact .pending failure
  · exact .slowDown failure
  · exact .temporary failure

theorem Kept.inl (h : Kept schedule outcome schedule') : afterPoll schedule outcome = .inl schedule' := by
  cases h with
  | unanswered isTimeout isConnect h => rw [afterPoll_http, if_pos h]
  | pending => rfl
  | temporary => rfl
  | slowDown => rfl

theorem next_of_inl (h : afterPoll schedule (pollOnce event) = .inl schedule') :
    next schedule event = schedule' := by
  rw [next, h]

theorem pollOnce_failed (hstatus : ¬ (200 ≤ response.status ∧ response.status < 300)) :
    pollOnce (.reply (.received response)) = .ok (classify (parseOauthFailure response)) := by
  rw [pollOnce, pollDeviceToken, if_neg hstatus]

theorem pollOnce_succeeded (hstatus : 200 ≤ response.status ∧ response.status < 300) :
    pollOnce (.reply (.received response)) = match response.token with
      | some token => .ok (.success token)
      | none => .error (.client (.response "response JSON does not match contract")) := by
  rw [pollOnce, pollDeviceToken, if_pos hstatus]
  cases response.token <;> rfl

theorem pollOnce_pending (h : response.Fails ["authorization_pending"]) :
    pollOnce (.reply (.received response)) = .ok (.pending (parseOauthFailure response)) := by
  rw [pollOnce_failed h.1, classify, if_pos (List.mem_singleton.mp h.2)]

theorem pollOnce_slowDown (h : response.Fails ["slow_down"]) :
    pollOnce (.reply (.received response)) = .ok (.slowDown (parseOauthFailure response)) := by
  have hcode : (parseOauthFailure response).code = "slow_down".toList := List.mem_singleton.mp h.2
  rw [pollOnce_failed h.1, classify, hcode, if_neg (by decide), if_pos rfl]

theorem pollOnce_temporary (h : response.Fails ["temporarily_unavailable", "server_error"]) :
    pollOnce (.reply (.received response)) = .ok (.temporary (parseOauthFailure response)) := by
  rw [pollOnce_failed h.1, classify]
  have hcode := h.2
  generalize (parseOauthFailure response).code = code at hcode
  rw [List.map_cons, List.map_cons, List.map_nil] at hcode
  have hother : code ≠ "authorization_pending".toList ∧ code ≠ "slow_down".toList ∧
      code ≠ "access_denied".toList ∧ code ≠ "expired_token".toList := by
    rcases List.mem_pair.mp hcode with rfl | rfl <;> decide
  rw [if_neg hother.1, if_neg hother.2.1, if_neg hother.2.2.1, if_neg hother.2.2.2, if_pos hcode]

theorem kept_of_fails (hstatus : ¬ (200 ≤ response.status ∧ response.status < 300))
    (h : Kept schedule (.ok (classify (parseOauthFailure response))) schedule') :
    Continues (.reply (.received response)) := by
  generalize hclass : classify (parseOauthFailure response) = outcome at h
  unfold classify at hclass
  split at hclass
  next hcode => exact .pending response ⟨hstatus, List.mem_singleton.mpr hcode⟩
  next =>
    split at hclass
    next hcode => exact .slowDown response ⟨hstatus, List.mem_singleton.mpr hcode⟩
    next =>
      split at hclass
      next =>
        subst hclass
        cases h
      next =>
        split at hclass
        next =>
          subst hclass
          cases h
        next =>
          split at hclass
          next hcode => exact .temporary response ⟨hstatus, hcode⟩
          next =>
            subst hclass
            cases h

theorem continues_iff : Continues event ↔ ∃ schedule', afterPoll schedule (pollOnce event) = .inl schedule' := by
  constructor
  · intro h
    cases h with
    | unanswered isTimeout isConnect h =>
      exact ⟨_, (Kept.unanswered isTimeout isConnect (Bool.or_eq_true_iff.mpr h)).inl⟩
    | pending response h => exact ⟨_, pollOnce_pending h ▸ (Kept.pending _).inl⟩
    | slowDown response h => exact ⟨_, pollOnce_slowDown h ▸ (Kept.slowDown _).inl⟩
    | temporary response h => exact ⟨_, pollOnce_temporary h ▸ (Kept.temporary _).inl⟩
  · rintro ⟨schedule', h⟩
    have hkept := kept_of_inl h
    rcases event with (⟨isTimeout, isConnect⟩ | - | response) | - | (_ | _)
    · cases hkept with
      | unanswered _ _ hretry => exact .unanswered isTimeout isConnect (Bool.or_eq_true_iff.mp hretry)
    · cases hkept
    · by_cases hstatus : 200 ≤ response.status ∧ response.status < 300
      · rw [pollOnce_succeeded hstatus] at hkept
        cases htoken : response.token <;> rw [htoken] at hkept <;> cases hkept
      · rw [pollOnce_failed hstatus] at hkept
        exact kept_of_fails hstatus hkept
    all_goals cases hkept

theorem success_of_inr {token : TokenResponse} (h : afterPoll schedule outcome = .inr (.ok token)) :
    outcome = .ok (.success token) := by
  rcases outcome with (error | - | - | -) | (token' | failure | failure | failure | failure | failure | failure)
  · rcases error with ⟨isTimeout, isConnect⟩ | message | failure
    · rw [afterPoll_http] at h
      split at h <;> cases h
    all_goals cases h
  all_goals cases h
  rfl

theorem classify_ne_success {failure : DeviceFailure} {token : TokenResponse} :
    classify failure ≠ .success token := by
  unfold classify
  split
  · nofun
  · split
    · nofun
    · split
      · nofun
      · split
        · nofun
        · split <;> nofun

theorem granted_of_inr {token : TokenResponse} (h : afterPoll schedule (pollOnce event) = .inr (.ok token)) :
    ∃ response, event = .reply (.received response) ∧ 200 ≤ response.status ∧ response.status < 300 ∧
      response.token = some token := by
  have hsuccess := success_of_inr h
  rcases event with (⟨isTimeout, isConnect⟩ | - | response) | - | (_ | _)
  · cases hsuccess
  · cases hsuccess
  · by_cases hstatus : 200 ≤ response.status ∧ response.status < 300
    · rw [pollOnce_succeeded hstatus] at hsuccess
      cases htoken : response.token with
      | none =>
        rw [htoken] at hsuccess
        cases hsuccess
      | some token' =>
        rw [htoken] at hsuccess
        cases hsuccess
        exact ⟨response, rfl, hstatus.1, hstatus.2, htoken⟩
    · rw [pollOnce_failed hstatus] at hsuccess
      exact absurd (Except.ok.inj hsuccess) classify_ne_success
  all_goals cases hsuccess

theorem growing : Growing intervalOf next := by
  intro schedule event
  cases h : afterPoll schedule (pollOnce event) with
  | inr result => rw [next, h]
  | inl schedule' =>
    rw [next_of_inl h]
    generalize pollOnce event = outcome at h
    cases kept_of_inl h with
    | unanswered => exact Nat.le_refl _
    | pending => exact Nat.le_refl _
    | slowDown failure =>
      rw [intervalOf_slowDown]
      exact Nat.le_trans schedule.le_incremented (le_slowed _ _)
    | temporary failure =>
      rw [intervalOf_retryHint]
      exact le_hinted _ _

theorem next_slowDown (schedule : PollingSchedule) (h : response.Fails ["slow_down"]) :
    next schedule (.reply (.received response)) =
      schedule.applySlowDown ((response.failure.bind OAuthErrorBody.interval).map .fromSecs) :=
  next_of_inl (pollOnce_slowDown h ▸ (Kept.slowDown (parseOauthFailure response)).inl)

theorem next_temporary (schedule : PollingSchedule)
    (h : response.Fails ["temporarily_unavailable", "server_error"]) :
    next schedule (.reply (.received response)) = schedule.applyRetryHint
      ((response.retryAfter.or (response.failure.bind OAuthErrorBody.interval)).map .fromSecs) :=
  next_of_inl (pollOnce_temporary h ▸ (Kept.temporary (parseOauthFailure response)).inl)

theorem slow_down_adds (schedule : PollingSchedule) (h : isSlowDown event = true) :
    min durationMax (intervalOf schedule + slowDownIncrement.nanos) ≤ intervalOf (next schedule event) := by
  unfold isSlowDown at h
  split at h
  next response =>
    rw [next_slowDown schedule (of_decide_eq_true h), intervalOf_slowDown]
    exact Nat.le_trans schedule.incremented_ge (le_slowed _ _)
  next => cases h

theorem hint_kept (schedule : PollingSchedule) {hint : UInt64} (h : hint ∈ hintOf event) :
    (Duration.fromSecs hint).nanos ≤ intervalOf (next schedule event) := by
  unfold hintOf at h
  split at h
  next response =>
    split at h
    next hslow =>
      rw [next_slowDown schedule hslow, intervalOf_slowDown, Option.mem_def.mp h]
      exact Duration.right_le_max _ _
    next =>
      split at h
      next htemporary =>
        rw [next_temporary schedule htemporary, intervalOf_retryHint, Option.mem_def.mp h]
        exact Duration.right_le_max _ _
      next => cases h
  next => cases h

end Answers

section Runs

variable {grant : DeviceAuthorizationResponse} {start deadline : Nat} {s s' : State} {schedule : PollingSchedule}

theorem sent_late {now sent : Nat} {interval : Duration} (hwake : wakeAt now interval deadline ≤ sent)
    (hopen : sent < deadline) : now + interval.nanos ≤ sent := by
  unfold wakeAt addInstant at hwake
  split at hwake
  · rename_i candidate hcandidate
    split at hcandidate
    · obtain rfl := Option.some.inj hcandidate
      omega
    · cases hcandidate
  · omega

structure Inv (schedule : PollingSchedule) (start deadline : Nat) (s : State) : Prop where
  spaced : Spaced intervalOf next schedule start s.polls
  in_time : ∀ poll ∈ s.polls, poll.sent < deadline
  open_schedule : s.result = none → s.schedule = after next schedule s.polls
  open_now : s.result = none → lastEnd start s.polls ≤ s.now
  open_answers : s.result = none → ∀ poll ∈ s.polls, Continues poll.answer
  unfinished : ∀ pre p q post, s.polls = pre ++ p :: q :: post → Continues p.answer
  granted : ∀ token, s.result = some (.ok token) → ∃ pre p response, s.polls = pre ++ [p] ∧
    p.answer = .reply (.received response) ∧ 200 ≤ response.status ∧ response.status < 300 ∧
    response.token = some token

theorem unfinished_of_all {polls : List (Poll PollEvent)} (h : ∀ poll ∈ polls, Continues poll.answer)
    (last : Poll PollEvent) : ∀ pre p q post, polls ++ [last] = pre ++ p :: q :: post → Continues p.answer := by
  intro pre p q post he
  rcases List.eq_nil_or_concat post with rfl | ⟨post', e, rfl⟩
  · have hsplit : polls ++ [last] = (pre ++ [p]) ++ [q] := by simpa using he
    obtain ⟨rfl, -⟩ := List.append_inj' hsplit rfl
    exact h p (List.mem_append_right _ List.mem_cons_self)
  · have hsplit : polls ++ [last] = (pre ++ p :: q :: post') ++ [e] := by simpa using he
    obtain ⟨rfl, -⟩ := List.append_inj' hsplit rfl
    exact h p (List.mem_append_right _ List.mem_cons_self)

theorem Inv.fail (h : Inv schedule start deadline s) (hopen : s.result = none) (now : Nat) (error : CliError) :
    Inv schedule start deadline ⟨s.schedule, now, s.polls, some (.error error)⟩ where
  spaced := h.spaced
  in_time := h.in_time
  open_schedule he := by cases he
  open_now he := by cases he
  open_answers he := by cases he
  unfinished pre p q post he := h.open_answers hopen p (he ▸ by simp)
  granted token htoken := by cases htoken

theorem Inv.polled {current : PollingSchedule} {now sent ended : Nat} {polls : List (Poll PollEvent)}
    (h : Inv schedule start deadline ⟨current, now, polls, none⟩)
    (hwake : wakeAt now current.interval deadline ≤ sent) (hopen : sent < deadline) (hended : sent ≤ ended)
    (event : PollEvent) : Spaced intervalOf next schedule start (polls ++ [⟨sent, ended, event⟩]) ∧
      ∀ poll ∈ polls ++ [⟨sent, ended, event⟩], poll.sent < deadline := by
  have hcur : current = after next schedule polls := h.open_schedule rfl
  have hlast : lastEnd start polls ≤ now := h.open_now rfl
  have hlate := sent_late hwake hopen
  refine ⟨.concat polls _ h.spaced ?_ hended, List.forall_mem_append.mpr ⟨h.in_time, by simpa using hopen⟩⟩
  rw [← hcur]
  exact Nat.le_trans (Nat.add_le_add_right hlast _) hlate

theorem step_inv (h : Step deadline s s') (hinv : Inv schedule start deadline s) :
    Inv schedule start deadline s' := by
  cases h with
  | again current current' now sent ended later polls event hwake hopen hended _ hlater hnext =>
    obtain ⟨hspaced, htime⟩ := hinv.polled hwake hopen hended event
    have hcur : current = after next schedule polls := hinv.open_schedule rfl
    have hall : ∀ poll ∈ polls ++ [⟨sent, ended, event⟩], Continues poll.answer := by
      intro poll hpoll
      rcases List.mem_append.mp hpoll with hpoll | hpoll
      · exact hinv.open_answers rfl poll hpoll
      · obtain rfl := List.mem_singleton.mp hpoll
        exact continues_iff.mpr ⟨_, hnext⟩
    refine ⟨hspaced, htime, fun _ => ?_, fun _ => ?_, fun _ => hall, ?_, ?_⟩
    · rw [after_append, ← hcur]
      exact (next_of_inl hnext).symm
    · rw [lastEnd_concat]
      exact hlater
    · exact unfinished_of_all (hinv.open_answers rfl) _
    · intro token htoken
      cases htoken
  | stop current now sent ended polls event result hwake hopen hended _ hend =>
    obtain ⟨hspaced, htime⟩ := hinv.polled hwake hopen hended event
    refine ⟨hspaced, htime, ?_, ?_, ?_, unfinished_of_all (hinv.open_answers rfl) _, ?_⟩
    · intro he
      cases he
    · intro he
      cases he
    · intro he
      cases he
    · intro token htoken
      obtain rfl := Option.some.inj htoken
      obtain ⟨response, hanswer, hgranted⟩ := granted_of_inr hend
      exact ⟨polls, _, response, rfl, hanswer, hgranted⟩
  | expire current now woke polls _ _ => exact hinv.fail rfl woke expiredGrant
  | interrupt current now later polls error _ _ => exact hinv.fail rfl later error

theorem run_inv (h : Run deadline ⟨schedule, start, [], none⟩ s) : Inv schedule start deadline s := by
  induction h with
  | refl =>
    refine ⟨.nil, ?_, fun _ => rfl, fun _ => Nat.le_refl _, ?_, ?_, ?_⟩
    · intro poll hpoll
      cases hpoll
    · intro _ poll hpoll
      cases hpoll
    · intro pre p q post he
      simp at he
    · intro token htoken
      cases htoken
  | tail _ hs ih => exact step_inv hs ih


theorem slowDowns_cons (poll : Poll PollEvent) (polls : List (Poll PollEvent)) :
    slowDowns (poll :: polls) = slowDowns polls + if isSlowDown poll.answer = true then 1 else 0 := List.countP_cons

theorem slowed_after (schedule : PollingSchedule) (polls : List (Poll PollEvent)) :
    min durationMax (intervalOf schedule + slowDowns polls * slowDownIncrement.nanos) ≤
      intervalOf (after next schedule polls) := by
  induction polls generalizing schedule with
  | nil => exact Nat.le_trans (Nat.min_le_right _ _) (by simp [slowDowns, after])
  | cons poll polls ih =>
    refine Nat.le_trans ?_ (ih (next schedule poll.answer))
    have hgrow : intervalOf schedule ≤ intervalOf (next schedule poll.answer) := growing schedule poll.answer
    have hadds := @slow_down_adds poll.answer schedule
    rw [slowDowns_cons]
    revert hadds hgrow
    generalize intervalOf (next schedule poll.answer) = interval
    generalize intervalOf schedule = before
    generalize slowDownIncrement.nanos = increment
    generalize durationMax = limit
    intro hgrow hadds
    cases hslow : isSlowDown poll.answer with
    | false =>
      rw [if_neg Bool.false_ne_true, Nat.add_zero]
      omega
    | true =>
      have hmore := hadds hslow
      rw [if_pos rfl, Nat.succ_mul]
      omega

theorem Inv.gap (h : Inv schedule start deadline s) {pre post : List (Poll PollEvent)} {p q : Poll PollEvent}
    (he : s.polls = pre ++ p :: q :: post) : p.ended + intervalOf (after next schedule (pre ++ [p])) ≤ q.sent := by
  have hspaced := h.spaced
  rw [he] at hspaced
  rw [after_append]
  exact hspaced.neighbours

theorem Inv.paced {grant : DeviceAuthorizationResponse}
    (hinterval : schedule.interval = .fromSecs grant.interval)
    (h : Inv schedule start (start + (lifetime grant).nanos) s) : PollsPaced grant start s where
  in_time := h.in_time
  bounded hne := by
    rcases List.eq_nil_or_concat s.polls with hnil | ⟨pre, p, hpolls⟩
    · exact absurd hnil hne
    · rw [List.concat_eq_append] at hpolls
      have hspaced := h.spaced
      have hp : p.sent < start + (lifetime grant).nanos := h.in_time p (by rw [hpolls]; simp)
      rw [hpolls] at hspaced ⊢
      have hcount := Nat.lt_of_add_lt_add_left (hspaced.count growing hp)
      rw [intervalOf, hinterval] at hcount
      unfold lifetime Duration.fromSecs at hcount
      dsimp only at hcount
      rw [← Nat.mul_assoc] at hcount
      exact Nat.lt_of_mul_lt_mul_right hcount
  first p post he := by
    have hspaced := h.spaced
    rw [he] at hspaced
    have hsent := (@Spaced.at_poll _ _ _ _ _ _ [] post p hspaced).1
    rw [← hinterval]
    exact hsent
  slowed pre p q post he := by
    have hslow := slowed_after schedule (pre ++ [p])
    rw [intervalOf, hinterval] at hslow
    exact Nat.le_trans (Nat.add_le_add_left hslow _) (h.gap he)
  hinted pre p q post he poll hpoll hint hhint := by
    obtain ⟨before, mid, hsplit⟩ := List.append_of_mem hpoll
    have hkept := hint_kept (after next schedule before) hhint
    have hlater := growing.later schedule before mid poll
    rw [← hsplit] at hlater
    exact Nat.le_trans (Nat.add_le_add_left (Nat.le_trans hkept hlater) _) (h.gap he)
  unfinished := h.unfinished
  granted := h.granted

theorem new_ok {interval : Duration} (h : 0 < interval.nanos) : PollingSchedule.new interval = .ok ⟨interval, h⟩ :=
  dif_pos h

theorem addInstant_ok {now : Nat} {duration : Duration} (h : now + duration.nanos ≤ instantMax) :
    addInstant now duration = some (now + duration.nanos) := if_pos h

theorem valid_of_validate {crate : UrlCrate} {response grant : DeviceAuthorizationResponse}
    (h : validateDeviceAuthorization crate response = .ok grant) : ¬ InvalidGrant grant := by
  unfold validateDeviceAuthorization at h
  split at h
  · cases h
  · obtain ⟨-, -, h⟩ := bind_eq_ok.mp h
    obtain ⟨-, -, h⟩ := bind_eq_ok.mp h
    cases h
    assumption

theorem grant_interval {crate : UrlCrate} {answer : Except OAuthClientError DeviceAuthorizationResponse}
    {grant : DeviceAuthorizationResponse} (h : createDeviceGrant crate answer = .ok grant) : grant.interval ≠ 0 := by
  unfold createDeviceGrant at h
  split at h
  · intro hzero
    exact valid_of_validate h (.inr (.inr (.inr (.inr (.inr (.inr (.inr hzero)))))))
  · cases h

theorem fromSecs_pos {secs : UInt64} (h : secs ≠ 0) : 0 < (Duration.fromSecs secs).nanos := by
  have hsecs : 0 < secs.toNat := Nat.pos_of_ne_zero fun h0 => h (UInt64.toNat_inj.mp h0)
  exact Nat.mul_pos hsecs (by decide)

theorem login_polls_paced {crate : UrlCrate} {answer : Except OAuthClientError DeviceAuthorizationResponse}
    {grant : DeviceAuthorizationResponse} (hgrant : createDeviceGrant crate answer = .ok grant) {start : Nat}
    (hclock : start + (lifetime grant).nanos ≤ instantMax) :
    ∃ s0, pollUntilAuthorized start grant = .ok (start + (lifetime grant).nanos, s0) ∧
      ∀ s, Run (start + (lifetime grant).nanos) s0 s → PollsPaced grant start s := by
  have hpos := fromSecs_pos (grant_interval hgrant)
  refine ⟨⟨⟨.fromSecs grant.interval, hpos⟩, start, [], none⟩, ?_, fun s hrun => (run_inv hrun).paced rfl⟩
  rw [pollUntilAuthorized, new_ok hpos, addInstant_ok hclock]
  rfl

end Runs

def sampleGrant : DeviceAuthorizationResponse where
  deviceCode := "code".toList
  userCode := "ABCD".toList
  verificationUri := "https://h.test/device".toList
  verificationUriComplete := "https://h.test/device".toList
  expiresIn := 600
  interval := 5

theorem login_polls_paced_sample :
    ∃ s0, pollUntilAuthorized 0 sampleGrant = .ok (0 + (lifetime sampleGrant).nanos, s0) ∧
      ∀ s, Run (0 + (lifetime sampleGrant).nanos) s0 s → PollsPaced sampleGrant 0 s :=
  @login_polls_paced ShareUrl.sampleCrate (.ok sampleGrant) sampleGrant rfl 0 (by decide)

end VeStorage.ADrive.Login
