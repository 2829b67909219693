import VeStorage.Credentials.Updates

namespace VeStorage.ADrive.Token
open Lib Credentials
open Share (CliError)
open Lib.Crash (ensure ensure_eq_ok bind_eq_ok seq_eq_ok pure_eq_ok)

abbrev Path := Text

-- Times are in nanoseconds; a stored expiry is printed in whole seconds.
structure Env where
  crypto : Crypto
  key : Path → crypto.Key
  toml : Toml
  parseRfc3339 : Text → Option Int
  toRfc3339 : Int → Text
  isRepresentable : Int → Bool
  normalizeAuthEndpoint : Text → Except CliError Text
  parse_toRfc3339 : ∀ time parsed, parseRfc3339 (toRfc3339 time) = some parsed →
    parsed = time / 10 ^ 9 * 10 ^ 9

def isWhitespace (c : Char) : Bool :=
  ('\t' ≤ c && c ≤ '\r') || ('\u2000' ≤ c && c ≤ '\u200a') ||
    [' ', '\u0085', '\u00a0', '\u1680', '\u2028', '\u2029', '\u202f', '\u205f', '\u3000'].contains c

def trimWhitespace (value : Text) : Text := (value.dropWhile isWhitespace).rdropWhile isWhitespace

def isBlank (value : Text) : Bool := (trimWhitespace value).isEmpty

def isAsciiWhitespace (c : Char) : Bool := ['\t', '\n', '\u000c', '\r', ' '].contains c

def splitAsciiWhitespace (value : Text) : List Text :=
  (value.splitOnP isAsciiWhitespace).filter fun word => !word.isEmpty

structure TokenResponse where
  accessToken : Text
  refreshToken : Text
  tokenType : Text
  expiresIn : Nat
  scope : Text := []
  userId : Option Text := none
  instanceId : Text := []

structure OAuthFailure where
  code : Text
  requestId : Option Text := none
  status : Nat

inductive OAuthClientError where
  | http (isTimeout isConnect : Bool)
  | response (message : String)
  | oauth (failure : OAuthFailure)

structure OAuthTokenManager where
  credentialsPath : Path
  profileName : Text
  isRefreshAllowed : Bool := true
  maxRetryCount : Option Nat := none

def loginRequired (message : String) : CliError :=
  .authFailed ("[login_required] " ++ message ++ "; run ve-adrive auth login")

def requestText (requestId : Option Text) : String :=
  (requestId.map fun id => " (RequestId: " ++ String.ofList id ++ ")").getD ""

def loginRequiredWithRequest (message : String) (requestId : Option Text) : CliError :=
  .authFailed ("[login_required] " ++ message ++ requestText requestId ++
    "; run ve-adrive auth login")

def invalidResponse (message : String) : CliError :=
  .validation ("invalid OAuth response: " ++ message)

def failureDiagnostic (failure : OAuthFailure) : String :=
  "HTTP " ++ toString failure.status ++ " [" ++ String.ofList failure.code ++
    "] OAuth Token refresh failed" ++ requestText failure.requestId

def mapRefreshFailure (failure : OAuthFailure) : CliError :=
  if failure.code ∈ ["invalid_request".toList, "invalid_scope".toList,
      "unsupported_response_type".toList, "unsupported_grant_type".toList] then
    .validation (failureDiagnostic failure)
  else if failure.code = "temporarily_unavailable".toList then
    .rateLimited (failureDiagnostic failure)
  else if failure.code = "server_error".toList then .unknown (failureDiagnostic failure)
  else .authFailed (failureDiagnostic failure)

def mapRefreshError : OAuthClientError → CliError
  | .http _ _ => .http
  | .response message => invalidResponse message
  | .oauth failure => mapRefreshFailure failure

def isRetryableRefreshError : OAuthClientError → Bool
  | .http isTimeout isConnect => isTimeout || isConnect
  | .response _ => false
  | .oauth failure =>
      if failure.code ∈ ["temporarily_unavailable".toList, "server_error".toList] then true
      else if failure.code ∈ ["invalid_request".toList, "invalid_client".toList,
          "unauthorized_client".toList, "invalid_scope".toList, "invalid_grant".toList,
          "access_denied".toList, "unsupported_response_type".toList,
          "unsupported_grant_type".toList] then false
      else decide (failure.status = 429) || decide (failure.status ≥ 500)

def defaultHttpMaxRetryCount : Nat := 3

def boundedRefreshRetries (configured : Nat) : Nat := min configured 10

def OAuthTokenManager.retries (manager : OAuthTokenManager) : Nat :=
  boundedRefreshRetries (manager.maxRetryCount.getD defaultHttpMaxRetryCount)

def nonempty (value : Option Text) : Option Text := value.filter fun value => !isBlank value

def normalizeUserId (value : Option Text) : Option Text :=
  value.bind fun value => if isBlank value = true then none else some (trimWhitespace value)

def requiredMetadata (value : Option Text) (field : String) : Except CliError Text :=
  match nonempty value with
  | some value => .ok value
  | none => .error (loginRequired ("OAuth credentials cannot refresh without stored " ++ field))

def second : Int := 10 ^ 9

def accessTokenRefreshWindow : Int := 60 * second

def refreshWindow (applyRefreshWindow : Bool) : Int :=
  if applyRefreshWindow = true then accessTokenRefreshWindow else 0

def i64Max : Nat := 2 ^ 63 - 1

variable (env : Env)

def expiresAt (now : Int) (expiresIn : Nat) : Except CliError Text := do
  ensure (expiresIn ≤ i64Max) (invalidResponse "Token lifetime is too large")
  ensure (env.isRepresentable (now + expiresIn * second) = true)
    (invalidResponse "Token expiry is outside the supported range")
  return env.toRfc3339 (now + expiresIn * second)

def reusableAccessToken (now : Int) (stored : StoredOAuthCredentials) (applyRefreshWindow : Bool) :
    Except CliError (Option Text) :=
  match nonempty stored.accessToken, stored.expiresAt with
  | none, _ => .ok none
  | some accessToken, none => .ok (some accessToken)
  | some accessToken, some expiresAt =>
    match env.parseRfc3339 expiresAt with
    | none => .error (.validation "OAuth credentials contain an invalid expires_at")
    | some expiry =>
      .ok (if now + refreshWindow applyRefreshWindow < expiry then some accessToken else none)

def validateSnapshotInstance (stored : StoredOAuthCredentials) (expected : Option Text) :
    Except CliError Unit :=
  ensure (∀ instanceId ∈ expected, ∀ bound ∈ stored.instanceId, bound = instanceId)
    (loginRequired "OAuth credentials belong to a different ADrive Instance")

def oauthCredentialSnapshot (now : Int) (stored : StoredOAuthCredentials)
    (applyRefreshWindow : Bool) : Except CliError (Option (Text × Option Text)) :=
  (reusableAccessToken env now stored applyRefreshWindow).map fun token =>
    token.map fun accessToken => (accessToken, normalizeUserId stored.userId)

structure ValidatedRefreshToken where
  accessToken : Text
  refreshToken : Text
  expiresIn : Nat
  scope : List Text
  userId : Option Text

def validateRefreshToken (token : TokenResponse) (expectedInstance : Text) :
    Except CliError ValidatedRefreshToken := do
  ensure (isBlank token.accessToken = false ∧ isBlank token.refreshToken = false)
    (invalidResponse "Token response omitted a required token")
  ensure (token.tokenType.map Char.toLower = "bearer".toList ∧ token.expiresIn ≠ 0)
    (invalidResponse "Token response has an invalid token_type or expires_in")
  ensure (token.instanceId = expectedInstance)
    (invalidResponse "Token response instance_id does not match stored credentials")
  ensure (splitAsciiWhitespace token.scope ≠ [])
    (invalidResponse "Token response scope is empty")
  return ⟨token.accessToken, token.refreshToken, token.expiresIn, splitAsciiWhitespace token.scope,
    normalizeUserId token.userId⟩

-- What `refresh_locked` reads from the stored group before the exchange.
structure Refresh where
  stored : StoredOAuthCredentials
  refreshToken : Text
  instanceId : Text
  userId : Option Text
  authEndpoint : Text

def Refresh.of (stored : StoredOAuthCredentials) : Except CliError Refresh := do
  let refreshToken ← requiredMetadata stored.refreshToken "refresh_token"
  let instanceId ← requiredMetadata stored.instanceId "instance_id"
  let authEndpoint ← requiredMetadata stored.authEndpoint "auth_endpoint"
  let authEndpoint ← env.normalizeAuthEndpoint authEndpoint
  return ⟨stored, refreshToken, instanceId, normalizeUserId stored.userId, authEndpoint⟩

def Refresh.refreshed (refresh : Refresh) (now : Int) (validated : ValidatedRefreshToken) :
    Except CliError StoredOAuthCredentials := do
  let expiresAt ← expiresAt env now validated.expiresIn
  return {
    accessToken := some validated.accessToken
    refreshToken := some validated.refreshToken
    expiresAt := some expiresAt
    tokenType := some "Bearer".toList
    scope := validated.scope
    legacyClientId := none
    instanceId := some refresh.instanceId
    userId := validated.userId.or refresh.userId
    authEndpoint := some refresh.authEndpoint }

-- The login command takes its group from the answer alone.
def validatedLogin (now : Int) (instanceId authEndpoint : Text) (token : TokenResponse) :
    Except CliError StoredOAuthCredentials := do
  ensure (isBlank token.accessToken = false ∧ isBlank token.refreshToken = false)
    (invalidResponse "Token response omitted a required token")
  ensure (token.tokenType.map Char.toLower = "bearer".toList ∧ token.expiresIn ≠ 0)
    (invalidResponse "Token response has an invalid token_type or expires_in")
  ensure (token.instanceId = instanceId)
    (invalidResponse "Token response instance_id does not match the authorization request")
  ensure (splitAsciiWhitespace token.scope ≠ [])
    (invalidResponse "Token response scope is empty")
  let expiresAt ← expiresAt env now token.expiresIn
  return {
    accessToken := some token.accessToken
    refreshToken := some token.refreshToken
    expiresAt := some expiresAt
    tokenType := some "Bearer".toList
    scope := splitAsciiWhitespace token.scope
    legacyClientId := none
    instanceId := some instanceId
    userId := normalizeUserId token.userId
    authEndpoint := some authEndpoint }

end VeStorage.ADrive.Token

namespace VeStorage.ADrive.Token
open Lib

variable {t u : Text}

theorem dropWhile_of_trimmed (h : trimWhitespace t = t) : t.dropWhile isWhitespace = t := by
  have hsuffix : t.dropWhile isWhitespace <:+ t := List.dropWhile_suffix _
  refine hsuffix.eq_of_length (le_antisymm hsuffix.length_le ?_)
  have hle := (List.rdropWhile_prefix isWhitespace (l := t.dropWhile isWhitespace)).length_le
  rwa [← trimWhitespace, h] at hle

theorem trimmed_iff : trimWhitespace t = t ↔
    (∀ c ∈ t.head?, isWhitespace c = false) ∧ ∀ c ∈ t.getLast?, isWhitespace c = false := by
  have hhead : t.dropWhile isWhitespace = t ↔ ∀ c ∈ t.head?, isWhitespace c = false := by
    cases t with
    | nil => simp
    | cons c t => simp [List.dropWhile_eq_self_iff]
  have hlast : t.rdropWhile isWhitespace = t ↔ ∀ c ∈ t.getLast?, isWhitespace c = false := by
    rw [List.rdropWhile_eq_self_iff]
    rcases List.eq_nil_or_concat t with rfl | ⟨t, c, rfl⟩
    · simp
    · simp
  rw [← hhead, ← hlast]
  constructor
  · intro h
    have hdrop := dropWhile_of_trimmed h
    rw [trimWhitespace, hdrop] at h
    exact ⟨hdrop, h⟩
  · rintro ⟨hdrop, hr⟩
    rw [trimWhitespace, hdrop, hr]

theorem trimmed_of_forall (h : ∀ c ∈ t, isWhitespace c = false) : trimWhitespace t = t :=
  trimmed_iff.mpr ⟨fun c hc => h c (List.mem_of_mem_head? hc), fun c hc => h c (List.mem_of_mem_getLast? hc)⟩

theorem trimWhitespace_idem (t : Text) : trimWhitespace (trimWhitespace t) = trimWhitespace t := by
  refine trimmed_iff.mpr ⟨fun c hc => ?_, fun c hc => ?_⟩
  · have hhead : c ∈ (t.dropWhile isWhitespace).head? := by
      obtain ⟨rest, hrest⟩ := List.rdropWhile_prefix isWhitespace (l := t.dropWhile isWhitespace)
      rw [← hrest]
      exact List.mem_head?_append_of_mem_head? hc
    have hnot := List.head?_dropWhile_not isWhitespace t
    rw [Option.mem_def.mp hhead] at hnot
    exact hnot
  · have hne : trimWhitespace t ≠ [] := List.ne_nil_of_mem (List.mem_of_mem_getLast? hc)
    have hlast := List.rdropWhile_last_not isWhitespace (t.dropWhile isWhitespace) hne
    rw [List.getLast?_eq_some_getLast hne] at hc
    rw [← Option.some.inj hc]
    exact Bool.eq_false_iff.mpr hlast

theorem trimmed_slash (hne : t ≠ []) (h : trimWhitespace (t ++ u) = t ++ u) :
    trimWhitespace (t ++ '/' :: u) = t ++ '/' :: u := by
  obtain ⟨hhead, hlast⟩ := trimmed_iff.mp h
  refine trimmed_iff.mpr ⟨fun c hc => hhead c ?_, fun c hc => ?_⟩
  · rwa [List.head?_append_of_ne_nil _ hne] at hc ⊢
  · rcases List.eq_nil_or_concat u with rfl | ⟨u, d, rfl⟩
    · have hslash : c = '/' := by simpa using hc.symm
      rw [hslash]
      decide
    · rw [List.concat_eq_append, ← List.cons_append, ← List.append_assoc, List.getLast?_concat] at hc
      refine hlast c ?_
      rwa [List.concat_eq_append, ← List.append_assoc, List.getLast?_concat]

end VeStorage.ADrive.Token
