import VeStorage.ADrive.Token.Manager
import VeStorage.Lib.Locks

namespace VeStorage.ADrive.Token
open Lib Credentials
open Share (CliError)
open Lib.Crash (ensure ensure_eq_ok bind_eq_ok seq_eq_ok pure_eq_ok)

structure Disk (Document : Type) where
  content : Path → Option Document
  link : Path → Option Path

namespace Disk

variable {Document : Type} (disk : Disk Document)

def resolve : Nat → Path → Path
  | 0, path => path
  | depth + 1, path => ((disk.link path).map (resolve depth)).getD path

def target (path : Path) : Path := disk.resolve 40 path

def read (path : Path) : Option Document := disk.content (disk.target path)

def canonicalize (path : Path) : Path :=
  if (disk.read path).isSome = true then disk.target path else path

-- A rename puts the new file in the place of whatever bears the name, a link included.
def replace (path : Path) (document : Document) : Disk Document where
  content other := if other = path then some document else disk.content other
  link other := if other = path then none else disk.link other

end Disk

abbrev Pid := Nat

abbrev LockPath := Path × Text

inductive Call where
  | accessToken
  | accessTokenAndUserId (applyRefreshWindow : Bool) (receiverInstance : Option Text)
  | forceRefresh (rejected : Text)

inductive Edit where
  | login (instanceId authEndpoint : Text) (token : TokenResponse)
  | logout
  | credentialSet (surface : CredentialSection) (field value : Text)

inductive Task where
  | call (manager : OAuthTokenManager) (call : Call)
  | edit (credentialsPath : Path) (profileName : Text) (edit : Edit)

def Task.path : Task → Path
  | call manager _ => manager.credentialsPath
  | edit credentialsPath _ _ => credentialsPath

def Task.profile : Task → Text
  | call manager _ => manager.profileName
  | edit _ profileName _ => profileName

structure Answer where
  accessToken : Text
  userId : Option Text
  expiresAt : Option Text
  reading : Int

inductive Finish where
  | refreshed (answer : Answer)
  | revoked (err : CliError)
  | edited

-- A store that was loaded and the update under which it is saved again.
structure Write where
  origin : Option Refresh
  base : CredentialsFile
  update : Update
  finish : Finish

inductive Phase where
  | entered
  | waiting (lock : LockPath)
  | locked
  | submitting (refresh : Refresh) (attempt : Nat)
  | awaiting (refresh : Refresh) (attempt : Nat)
  | accepted (refresh : Refresh) (token : TokenResponse)
  | revoked (refresh : Refresh) (requestId : Option Text)
  | saving (write : Write)
  | reloading
  | done

inductive Event where
  | loaded (pid : Pid)
  | reread (pid : Pid) (stored : StoredOAuthCredentials) (reading : Int)
  | submitted (pid : Pid) (refreshToken : Text)
  | saved (pid : Pid) (write : Write) (written : CredentialsFile)
  | returned (pid : Pid) (answer : Answer)
  | failed (pid : Pid) (err : CliError)

-- The log has its newest event first.
structure State (env : Env) where
  disk : Disk env.toml.Document
  now : Int
  locks : Locks.Table LockPath Pid
  phase : Pid → Phase
  log : List Event

inductive Action (env : Env) where
  | tick (now : Int)
  | fail (pid : Pid) (err : CliError)
  | run (pid : Pid)
  | acquire (pid : Pid)
  | submit (pid : Pid)
  | answer (pid : Pid) (response : Except OAuthClientError TokenResponse)
  | save (pid : Pid) (nonces : Nonces env.crypto) (isSynced : Bool)

section Calls

variable (env : Env) (disk : Disk env.toml.Document) (now : Int)

def load (path : Path) : Except CliError CredentialsFile :=
  CredentialsFile.loadFrom env.toml (disk.read path)

def loadOauth (path : Path) (profileName : Text) : Except CliError StoredOAuthCredentials := do
  let credentials ← load env disk path
  credentials.adriveOauth env.crypto (env.key path) profileName

def refreshLockPath (manager : OAuthTokenManager) : LockPath :=
  (disk.canonicalize manager.credentialsPath, manager.profileName)

def validateRefreshAllowed (manager : OAuthTokenManager) : Except CliError Unit :=
  ensure (manager.isRefreshAllowed = true) (.authFailed ("[oauth_refresh_required] read-only " ++
    "dry-run requires a usable OAuth Access Token; allow refresh with a normal share inspect " ++
    "<share-url> --auth-mode oauth using the selected profile, then retry"))

-- What a call returns on the stored group without a refresh.
def Call.usable (stored : StoredOAuthCredentials) : Call → Except CliError (Option Answer)
  | .accessToken =>
      (reusableAccessToken env now stored true).map fun token =>
        token.map fun accessToken => ⟨accessToken, none, stored.expiresAt, now⟩
  | .accessTokenAndUserId applyRefreshWindow receiverInstance => do
      validateSnapshotInstance stored receiverInstance
      let snapshot ← oauthCredentialSnapshot env now stored applyRefreshWindow
      return snapshot.map fun snapshot => ⟨snapshot.1, snapshot.2, stored.expiresAt, now⟩
  | .forceRefresh rejected =>
      if stored.accessToken = some rejected then .ok none
      else (reusableAccessToken env now stored false).map fun token =>
        token.map fun accessToken => ⟨accessToken, none, stored.expiresAt, now⟩

def Call.enter (manager : OAuthTokenManager) : Call → Except CliError (Option Answer)
  | .forceRefresh _ => .ok none
  | call => do
      let stored ← loadOauth env disk manager.credentialsPath manager.profileName
      call.usable env now stored

def saveRefreshedToken (manager : OAuthTokenManager) (refresh : Refresh) (token : TokenResponse) :
    Except CliError Write := do
  let validated ← validateRefreshToken token refresh.instanceId
  let base ← load env disk manager.credentialsPath
  let credentials ← refresh.refreshed env now validated
  (base.setAdriveOauth manager.profileName credentials).2
  return ⟨some refresh, base, .setOauth manager.profileName credentials,
    .refreshed ⟨validated.accessToken, none, credentials.expiresAt, now⟩⟩

def clearInvalidGrant (manager : OAuthTokenManager) (refresh : Refresh)
    (requestId : Option Text) : Except CliError Write := do
  let err := loginRequiredWithRequest "Refresh Token is invalid, expired, or revoked" requestId
  let base ← load env disk manager.credentialsPath
  let current ← base.adriveOauth env.crypto (env.key manager.credentialsPath) manager.profileName
  ensure (current.refreshToken = some refresh.refreshToken) err
  return ⟨some refresh, base, .clearOauth manager.profileName, .revoked err⟩

def reload (manager : OAuthTokenManager) (receiverInstance : Option Text) :
    Except CliError Answer := do
  let refreshed ← loadOauth env disk manager.credentialsPath manager.profileName
  validateSnapshotInstance refreshed receiverInstance
  match ← oauthCredentialSnapshot env now refreshed false with
  | some snapshot => return ⟨snapshot.1, snapshot.2, refreshed.expiresAt, now⟩
  | none => throw (loginRequired
      "OAuth credentials do not contain a usable Access Token after refresh")

def Edit.plan (path : Path) (profileName : Text) : Edit → Except CliError (Option Write)
  | .login instanceId authEndpoint token => do
      let credentials ← validatedLogin env now instanceId authEndpoint token
      let base ← load env disk path
      (base.setAdriveOauth profileName credentials).2
      return some ⟨none, base, .setOauth profileName credentials, .edited⟩
  | .logout =>
      if (disk.read path).isNone = true then .ok none
      else do
        let base ← load env disk path
        let existing ← base.adriveOauth env.crypto (env.key path) profileName
        return if existing.isEmpty = true then none
          else some ⟨none, base, .clearOauth profileName, .edited⟩
  | .credentialSet surface field value => do
      let base ← load env disk path
      (base.setAkskField profileName surface field value).2
      return some ⟨none, base, .setAksk profileName surface field value, .edited⟩

end Calls

namespace State

variable {env : Env} (s : State env) (pid : Pid)

def goto (phase : Phase) (events : List Event) : State env :=
  { s with
    phase := fun other => if other = pid then phase else s.phase other
    log := events ++ s.log }

-- The guard of the lock is dropped with the call.
def exit (events : List Event) : State env :=
  { s.goto pid .done events with locks := Locks.drop s.locks pid }

def fail (err : CliError) : State env := s.exit pid [.failed pid err]

def write : Except CliError Write → State env
  | .ok write => s.goto pid (.saving write) [.loaded pid]
  | .error err => s.fail pid err

def enter (manager : OAuthTokenManager) (call : Call) : State env :=
  match call.enter env s.disk s.now manager with
  | .error err => s.fail pid err
  | .ok (some answer) => s.exit pid [.returned pid answer]
  | .ok none =>
    match validateRefreshAllowed manager with
    | .error err => s.fail pid err
    | .ok _ => s.goto pid (.waiting (refreshLockPath env s.disk manager)) []

def reread (manager : OAuthTokenManager) (call : Call) : State env :=
  match loadOauth env s.disk manager.credentialsPath manager.profileName with
  | .error err => s.fail pid err
  | .ok stored =>
    let event := .reread pid stored s.now
    match call.usable env s.now stored with
    | .error err => s.exit pid [.failed pid err, event]
    | .ok (some answer) => s.exit pid [.returned pid answer, event]
    | .ok none =>
      match Refresh.of env stored with
      | .error err => s.exit pid [.failed pid err, event]
      | .ok refresh => s.goto pid (.submitting refresh 0) [event]

def edit (path : Path) (profileName : Text) (edit : Edit) : State env :=
  match edit.plan env s.disk s.now path profileName with
  | .error err => s.fail pid err
  | .ok none => s.exit pid []
  | .ok (some write) => s.write pid (.ok write)

def reload (manager : OAuthTokenManager) (receiverInstance : Option Text) : State env :=
  match Token.reload env s.disk s.now manager receiverInstance with
  | .error err => s.fail pid err
  | .ok answer => s.exit pid [.returned pid answer]

def answered (manager : OAuthTokenManager) (refresh : Refresh) (attempt : Nat) :
    Except OAuthClientError TokenResponse → State env
  | .ok token => s.goto pid (.accepted refresh token) []
  | .error err =>
      if attempt < manager.retries ∧ isRetryableRefreshError err = true then
        s.goto pid (.submitting refresh (attempt + 1)) []
      else
        match err with
        | .oauth failure =>
          if failure.code = "invalid_grant".toList then
            s.goto pid (.revoked refresh failure.requestId) []
          else s.fail pid (mapRefreshError err)
        | _ => s.fail pid (mapRefreshError err)

def finish (call : Option Call) : Finish → State env
  | .refreshed answer =>
      match call with
      | some (.accessTokenAndUserId _ _) => s.goto pid .reloading []
      | _ => s.exit pid [.returned pid answer]
  | .revoked err => s.fail pid err
  | .edited => s.exit pid []

def replaced (path : Path) (write : Write) (nonces : Nonces env.crypto)
    (document : env.toml.Document) : State env :=
  { s with
    disk := s.disk.replace path document
    log := .saved pid write ((write.base.update write.update).saved env.crypto (env.key path) nonces)
      :: s.log }

-- The rename comes before the last owner and directory calls, which can still fail.
def save (path : Path) (call : Option Call) (write : Write) (nonces : Nonces env.crypto)
    (isSynced : Bool) : State env :=
  match (write.base.update write.update).saveToPath env.crypto (env.key path) env.toml nonces with
  | .error err => s.fail pid err
  | .ok document =>
    if isSynced = true then (s.replaced pid path write nonces document).finish pid call write.finish
    else (s.replaced pid path write nonces document).fail pid .io

end State

def Task.call? : Task → Option Call
  | .call _ used => some used
  | .edit _ _ _ => none

variable {env : Env} (tasks : Pid → Task)

def run (s : State env) (pid : Pid) : Option (State env) :=
  match s.phase pid, tasks pid with
  | .entered, .call manager call => some (s.enter pid manager call)
  | .entered, .edit path profileName edit => some (s.edit pid path profileName edit)
  | .locked, .call manager call => some (s.reread pid manager call)
  | .accepted refresh token, .call manager _ =>
      some (s.write pid (saveRefreshedToken env s.disk s.now manager refresh token))
  | .revoked refresh requestId, .call manager _ =>
      some (s.write pid (clearInvalidGrant env s.disk manager refresh requestId))
  | .reloading, .call manager (.accessTokenAndUserId _ receiverInstance) =>
      some (s.reload pid manager receiverInstance)
  | _, _ => none

def play (s : State env) : Action env → Option (State env)
  | .tick now => some { s with now := now }
  | .fail pid err =>
      match s.phase pid with
      | .done => none
      | _ => some (s.fail pid err)
  | .run pid => run tasks s pid
  | .acquire pid =>
      match s.phase pid with
      | .waiting lock =>
          if (s.locks lock).isNone = true then
            some { s.goto pid .locked [] with locks := Locks.take s.locks lock pid }
          else none
      | _ => none
  | .submit pid =>
      match s.phase pid with
      | .submitting refresh attempt =>
          some (s.goto pid (.awaiting refresh attempt) [.submitted pid refresh.refreshToken])
      | _ => none
  | .answer pid response =>
      match s.phase pid, tasks pid with
      | .awaiting refresh attempt, .call manager _ =>
          some (s.answered pid manager refresh attempt response)
      | _, _ => none
  | .save pid nonces isSynced =>
      match s.phase pid with
      | .saving write =>
          some (s.save pid (tasks pid).path (tasks pid).call? write nonces isSynced)
      | _ => none

def plays (s : State env) (actions : List (Action env)) : Option (State env) :=
  actions.foldlM (play tasks) s

-- What the authorization server may answer to a refresh token, after the events so far.
abbrev Server := List Event → Text → Except OAuthClientError TokenResponse → Prop

def Allowed (server : Server) (s : State env) : Action env → Prop
  | .answer pid response => ∀ refresh attempt, s.phase pid = .awaiting refresh attempt →
      server s.log refresh.refreshToken response
  | _ => True

def Step (server : Server) (s s' : State env) : Prop :=
  ∃ action, Allowed server s action ∧ play tasks s action = some s'

def State.start (disk : Disk env.toml.Document) (now : Int) : State env where
  disk := disk
  now := now
  locks _ := none
  phase _ := .entered
  log := []

end VeStorage.ADrive.Token
