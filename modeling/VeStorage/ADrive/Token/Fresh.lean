import VeStorage.ADrive.Token.Kept

namespace VeStorage.ADrive.Token
open Lib Credentials
open Share (CliError)
open Lib.Crash (ensure ensure_eq_ok bind_eq_ok seq_eq_ok pure_eq_ok)

def submittedTokens (log : List Event) : List Text :=
  log.filterMap fun
    | .submitted _ token => some token
    | _ => none

def Write.spent (write : Write) : Option Text :=
  match write.update with
  | .setOauth _ _ => write.origin.map Refresh.refreshToken
  | _ => none

-- The refresh tokens whose answers were saved.
def spentTokens (log : List Event) : List Text :=
  log.filterMap fun
    | .saved _ write _ => write.spent
    | _ => none

def lastUpdate (log : List Event) : Option Update :=
  log.findSome? fun
    | .saved _ write _ => some write.update
    | _ => none

-- A server that rotates: a refresh token that it issues was not used before.
def Rotating (server : Server) : Prop :=
  ∀ log token answer, server log token (.ok answer) → answer.refreshToken ∉ submittedTokens log

-- No token looks like a value that the credentials file keeps encrypted.
def Unmarked (server : Server) : Prop :=
  ∀ log token answer, server log token (.ok answer) →
    isEncrypted answer.accessToken = false ∧ isEncrypted answer.refreshToken = false

structure OneProfile (tasks : Pid → Task) (path : Path) (profileName : Text) : Prop where
  call : ∀ pid, ∃ manager call, tasks pid = .call manager call
  path : ∀ pid, (tasks pid).path = path
  profile : ∀ pid, (tasks pid).profile = profileName

section Times

variable (env : Env)

def ExpiresAfter (group : StoredOAuthCredentials) (time : Int) : Prop :=
  ∃ text expiry, group.expiresAt = some text ∧ env.parseRfc3339 text = some expiry ∧ time < expiry

-- When a call reuses the group that it reads under the lock.
def Call.Fresh (reading : Int) (group : StoredOAuthCredentials) : Call → Prop
  | accessToken => ExpiresAfter env group (reading + refreshWindow true)
  | accessTokenAndUserId applyRefreshWindow _ =>
      ExpiresAfter env group (reading + refreshWindow applyRefreshWindow)
  | forceRefresh rejected =>
      group.accessToken ≠ some rejected ∧ ExpiresAfter env group (reading + refreshWindow false)

def Answer.Timely (answer : Answer) : Prop :=
  ∀ text expiry, answer.expiresAt = some text → env.parseRfc3339 text = some expiry →
    answer.reading < expiry

end Times

section Facts

variable {env : Env} {stored group : StoredOAuthCredentials} {now : Int} {token : Text}
  {applyRefreshWindow : Bool} {answer : Answer}

theorem nonempty_of_not_blank (h : isBlank token = false) : nonempty (some token) = some token := by
  rw [nonempty, Option.filter_some, h]
  rfl

theorem nonempty_eq_some {value : Option Text} (h : nonempty value = some token) :
    value = some token := (Option.filter_eq_some_iff.mp h).1

theorem reusable_eq_some (h : reusableAccessToken env now stored applyRefreshWindow = .ok (some token)) :
    stored.accessToken = some token ∧ ∀ text expiry, stored.expiresAt = some text →
      env.parseRfc3339 text = some expiry → now < expiry := by
  rw [reusableAccessToken] at h
  split at h
  next => cases h
  next accessToken hnonempty hexpires =>
    obtain rfl := Option.some.inj (Except.ok.inj h)
    exact ⟨nonempty_eq_some hnonempty, fun text expiry htext => by simp [hexpires] at htext⟩
  next accessToken expiresAt hnonempty hexpires =>
    split at h
    next => cases h
    next expiry hparse =>
      have hsome := Except.ok.inj h
      split at hsome
      next hlater =>
        obtain rfl := Option.some.inj hsome
        refine ⟨nonempty_eq_some hnonempty, fun text expiry' htext hparse' => ?_⟩
        obtain rfl := Option.some.inj (hexpires.symm.trans htext)
        obtain rfl := Option.some.inj (hparse.symm.trans hparse')
        have hwindow : 0 ≤ refreshWindow applyRefreshWindow := by
          cases applyRefreshWindow <;> decide
        omega
      next => cases hsome

theorem reusable_of_fresh (htoken : group.accessToken = some token) (hblank : isBlank token = false)
    (hexpires : ExpiresAfter env group (now + refreshWindow applyRefreshWindow)) :
    reusableAccessToken env now group applyRefreshWindow = .ok (some token) := by
  obtain ⟨text, expiry, htext, hparse, hlater⟩ := hexpires
  rw [reusableAccessToken, htoken, nonempty_of_not_blank hblank, htext]
  dsimp only
  rw [hparse]
  dsimp only
  rw [if_pos hlater]

theorem map_token_eq_some {result : Except CliError (Option Text)} {f : Text → Answer}
    (h : (result.map fun token => token.map f) = .ok (some answer)) :
    ∃ token, result = .ok (some token) ∧ answer = f token := by
  cases result with
  | error err => cases h
  | ok found =>
    obtain ⟨token, rfl, hf⟩ := Option.map_eq_some_iff.mp (Except.ok.inj h)
    exact ⟨token, rfl, hf.symm⟩

variable {call : Call}

theorem snapshot_eq_some {userId : Option Text}
    (h : oauthCredentialSnapshot env now stored applyRefreshWindow = .ok (some (token, userId))) :
    reusableAccessToken env now stored applyRefreshWindow = .ok (some token) ∧
      userId = normalizeUserId stored.userId := by
  rw [oauthCredentialSnapshot] at h
  cases hfound : reusableAccessToken env now stored applyRefreshWindow with
  | error err => rw [hfound] at h; cases h
  | ok found =>
    rw [hfound] at h
    obtain ⟨accessToken, rfl, hpair⟩ := Option.map_eq_some_iff.mp (Except.ok.inj h)
    obtain ⟨rfl, rfl⟩ := Prod.mk.inj hpair
    exact ⟨rfl, rfl⟩

theorem snapshot_of_reusable
    (h : reusableAccessToken env now stored applyRefreshWindow = .ok (some token)) :
    oauthCredentialSnapshot env now stored applyRefreshWindow =
      .ok (some (token, normalizeUserId stored.userId)) := by
  rw [oauthCredentialSnapshot, h]
  rfl

-- Whatever a call returns on a stored group is of that group and has not expired.
theorem usable_timely (h : call.usable env now stored = .ok (some answer)) :
    answer.Timely env := by
  cases call with
  | accessToken =>
    obtain ⟨token, htoken, rfl⟩ := map_token_eq_some h
    exact (reusable_eq_some htoken).2
  | accessTokenAndUserId applyRefreshWindow receiverInstance =>
    obtain ⟨⟨⟩, -, h⟩ := bind_eq_ok.mp h
    obtain ⟨snapshot, hsnapshot, h⟩ := bind_eq_ok.mp h
    obtain ⟨⟨token, userId⟩, rfl, rfl⟩ := Option.map_eq_some_iff.mp (pure_eq_ok.mp h)
    exact (reusable_eq_some (snapshot_eq_some hsnapshot).1).2
  | forceRefresh rejected =>
    rw [Call.usable] at h
    split at h
    next => cases h
    next =>
      obtain ⟨token, htoken, rfl⟩ := map_token_eq_some h
      exact (reusable_eq_some htoken).2

-- A call accepts the instance of the group where it asks for one.
def Call.Receives (stored : StoredOAuthCredentials) : Call → Prop
  | accessTokenAndUserId _ receiverInstance => validateSnapshotInstance stored receiverInstance = .ok ()
  | _ => True

theorem usable_of_fresh (htoken : group.accessToken = some token) (hblank : isBlank token = false)
    (hreceives : call.Receives group) (hfresh : call.Fresh env now group) :
    ∃ answer, call.usable env now group = .ok (some answer) ∧ answer.accessToken = token := by
  cases call with
  | accessToken =>
    rw [Call.usable, reusable_of_fresh htoken hblank hfresh]
    exact ⟨_, rfl, rfl⟩
  | accessTokenAndUserId applyRefreshWindow receiverInstance =>
    rw [Call.usable, show validateSnapshotInstance group receiverInstance = .ok () from hreceives,
      snapshot_of_reusable (reusable_of_fresh htoken hblank hfresh)]
    exact ⟨_, rfl, rfl⟩
  | forceRefresh rejected =>
    rw [Call.usable, if_neg hfresh.1, reusable_of_fresh htoken hblank hfresh.2]
    exact ⟨_, rfl, rfl⟩

theorem usable_receives {found : Option Answer} (h : call.usable env now stored = .ok found) :
    call.Receives stored := by
  cases call with
  | accessTokenAndUserId applyRefreshWindow receiverInstance =>
    obtain ⟨⟨⟩, hvalid, -⟩ := bind_eq_ok.mp h
    exact hvalid
  | accessToken | forceRefresh => trivial

theorem reload_timely {disk : Disk env.toml.Document} {manager : OAuthTokenManager}
    {receiverInstance : Option Text} (h : reload env disk now manager receiverInstance = .ok answer) :
    answer.Timely env := by
  obtain ⟨refreshed, -, h⟩ := bind_eq_ok.mp h
  obtain ⟨⟨⟩, -, h⟩ := bind_eq_ok.mp h
  obtain ⟨snapshot, hsnapshot, h⟩ := bind_eq_ok.mp h
  cases snapshot with
  | none => cases h
  | some snapshot =>
    obtain rfl := pure_eq_ok.mp h
    exact (reusable_eq_some (snapshot_eq_some hsnapshot).1).2

-- The expiry of a new token is cut to whole seconds, but its lifetime is one second at least.
theorem refreshed_timely {refresh : Refresh} {validated : ValidatedRefreshToken}
    (h : refresh.refreshed env now validated = .ok group) (hlifetime : validated.expiresIn ≠ 0) :
    ∀ text expiry, group.expiresAt = some text → env.parseRfc3339 text = some expiry →
      now < expiry := by
  obtain ⟨printed, hprinted, h⟩ := bind_eq_ok.mp h
  obtain rfl := pure_eq_ok.mp h
  obtain ⟨⟨⟩, -, hprinted⟩ := bind_eq_ok.mp hprinted
  obtain ⟨⟨⟩, -, hprinted⟩ := bind_eq_ok.mp hprinted
  obtain rfl := pure_eq_ok.mp hprinted
  intro text expiry htext hparse
  obtain rfl := Option.some.inj htext
  have hexpiry := env.parse_toRfc3339 _ _ hparse
  have hpositive : 1 ≤ (validated.expiresIn : Int) := by omega
  rw [hexpiry, second]
  omega

end Facts

end VeStorage.ADrive.Token
