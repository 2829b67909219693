import VeStorage.ADrive.Token.Machine
import Mathlib.Logic.Relation

namespace VeStorage.ADrive.Token
open Lib Credentials
open Share (CliError)
open Lib.Crash (ensure ensure_eq_ok bind_eq_ok seq_eq_ok pure_eq_ok)

variable {env : Env} {tasks : Pid → Task} {server : Server} {s s' : State env} {pid other : Pid}
  {careful : Pid → Prop}

inductive Finished (pid : Pid) (finish : Finish) (s : State env) : State env → Prop
  | failed (err : CliError) : Finished pid finish s (s.fail pid err)
  | left : Finished pid finish s (s.exit pid [])
  | returned {answer : Answer} : finish = .refreshed answer →
      Finished pid finish s (s.exit pid [.returned pid answer])
  | reloading {answer : Answer} : finish = .refreshed answer →
      Finished pid finish s (s.goto pid .reloading [])

-- `careful` holds of the processes that may save.
inductive Stepped (tasks : Pid → Task) (server : Server) (careful : Pid → Prop) (s : State env) :
    State env → Prop
  | ticked (now : Int) : Stepped tasks server careful s { s with now := now }
  | failed (pid : Pid) (err : CliError) : Stepped tasks server careful s (s.fail pid err)
  | left {pid : Pid} : s.phase pid = .entered → Stepped tasks server careful s (s.exit pid [])
  | found {pid : Pid} {manager : OAuthTokenManager} {call : Call} {answer : Answer} :
      s.phase pid = .entered → tasks pid = .call manager call →
      call.enter env s.disk s.now manager = .ok (some answer) →
      Stepped tasks server careful s (s.exit pid [.returned pid answer])
  | waited {pid : Pid} {manager : OAuthTokenManager} {call : Call} :
      s.phase pid = .entered → tasks pid = .call manager call →
      call.enter env s.disk s.now manager = .ok none →
      Stepped tasks server careful s (s.goto pid (.waiting (refreshLockPath env s.disk manager)) [])
  | acquired {pid : Pid} {lock : LockPath} :
      s.phase pid = .waiting lock → s.locks lock = none →
      Stepped tasks server careful s
        { s.goto pid .locked [] with locks := Locks.take s.locks lock pid }
  | refused {pid : Pid} {manager : OAuthTokenManager} {call : Call}
      {stored : StoredOAuthCredentials} (err : CliError) :
      s.phase pid = .locked → tasks pid = .call manager call →
      loadOauth env s.disk manager.credentialsPath manager.profileName = .ok stored →
      (∀ answer, call.usable env s.now stored ≠ .ok (some answer)) →
      Stepped tasks server careful s (s.exit pid [.failed pid err, .reread pid stored s.now])
  | reused {pid : Pid} {manager : OAuthTokenManager} {call : Call}
      {stored : StoredOAuthCredentials} {answer : Answer} :
      s.phase pid = .locked → tasks pid = .call manager call →
      loadOauth env s.disk manager.credentialsPath manager.profileName = .ok stored →
      call.usable env s.now stored = .ok (some answer) →
      Stepped tasks server careful s (s.exit pid [.returned pid answer, .reread pid stored s.now])
  | began {pid : Pid} {manager : OAuthTokenManager} {call : Call}
      {stored : StoredOAuthCredentials} {refresh : Refresh} :
      s.phase pid = .locked → tasks pid = .call manager call →
      loadOauth env s.disk manager.credentialsPath manager.profileName = .ok stored →
      call.usable env s.now stored = .ok none → Refresh.of env stored = .ok refresh →
      Stepped tasks server careful s (s.goto pid (.submitting refresh 0) [.reread pid stored s.now])
  | submitted {pid : Pid} {refresh : Refresh} {attempt : Nat} :
      s.phase pid = .submitting refresh attempt →
      Stepped tasks server careful s
        (s.goto pid (.awaiting refresh attempt) [.submitted pid refresh.refreshToken])
  | retried {pid : Pid} {refresh : Refresh} {attempt : Nat} :
      s.phase pid = .awaiting refresh attempt →
      Stepped tasks server careful s (s.goto pid (.submitting refresh (attempt + 1)) [])
  | accepted {pid : Pid} {refresh : Refresh} {attempt : Nat} {token : TokenResponse} :
      s.phase pid = .awaiting refresh attempt → server s.log refresh.refreshToken (.ok token) →
      Stepped tasks server careful s (s.goto pid (.accepted refresh token) [])
  | revoked {pid : Pid} {refresh : Refresh} {attempt : Nat} (requestId : Option Text) :
      s.phase pid = .awaiting refresh attempt →
      Stepped tasks server careful s (s.goto pid (.revoked refresh requestId) [])
  | refreshed {pid : Pid} {manager : OAuthTokenManager} {call : Call} {refresh : Refresh}
      {token : TokenResponse} {write : Write} :
      s.phase pid = .accepted refresh token → tasks pid = .call manager call →
      saveRefreshedToken env s.disk s.now manager refresh token = .ok write →
      Stepped tasks server careful s (s.goto pid (.saving write) [.loaded pid])
  | cleared {pid : Pid} {manager : OAuthTokenManager} {call : Call} {refresh : Refresh}
      {requestId : Option Text} {write : Write} :
      s.phase pid = .revoked refresh requestId → tasks pid = .call manager call →
      clearInvalidGrant env s.disk manager refresh requestId = .ok write →
      Stepped tasks server careful s (s.goto pid (.saving write) [.loaded pid])
  | edited {pid : Pid} {path : Path} {profileName : Text} {edit : Edit} {write : Write} :
      s.phase pid = .entered → tasks pid = .edit path profileName edit →
      edit.plan env s.disk s.now path profileName = .ok (some write) →
      Stepped tasks server careful s (s.goto pid (.saving write) [.loaded pid])
  | reloaded {pid : Pid} {manager : OAuthTokenManager} {applyRefreshWindow : Bool}
      {receiverInstance : Option Text} {answer : Answer} :
      s.phase pid = .reloading →
      tasks pid = .call manager (.accessTokenAndUserId applyRefreshWindow receiverInstance) →
      reload env s.disk s.now manager receiverInstance = .ok answer →
      Stepped tasks server careful s (s.exit pid [.returned pid answer])
  | saved {pid : Pid} {write : Write} {nonces : Nonces env.crypto} {document : env.toml.Document}
      {s' : State env} :
      s.phase pid = .saving write → careful pid →
      (write.base.update write.update).saveToPath env.crypto (env.key (tasks pid).path) env.toml
        nonces = .ok document →
      Finished pid write.finish (s.replaced pid (tasks pid).path write nonces document) s' →
      Stepped tasks server careful s s'

theorem enter_stepped {manager : OAuthTokenManager} {call : Call} (hphase : s.phase pid = .entered)
    (htask : tasks pid = .call manager call) :
    Stepped tasks server careful s (s.enter pid manager call) := by
  rw [State.enter]
  split
  next err _ => exact .failed pid err
  next answer heq => exact .found hphase htask heq
  next heq =>
    split
    next err _ => exact .failed pid err
    next => exact .waited hphase htask heq

theorem reread_stepped {manager : OAuthTokenManager} {call : Call} (hphase : s.phase pid = .locked)
    (htask : tasks pid = .call manager call) :
    Stepped tasks server careful s (s.reread pid manager call) := by
  rw [State.reread]
  split
  next err _ => exact .failed pid err
  next stored hload =>
    dsimp only
    split
    next err husable => exact .refused err hphase htask hload fun answer h => by simp [husable] at h
    next answer husable => exact .reused hphase htask hload husable
    next husable =>
      split
      next err _ => exact .refused err hphase htask hload fun answer h => by simp [husable] at h
      next refresh hrefresh => exact .began hphase htask hload husable hrefresh

theorem edit_stepped {path : Path} {profileName : Text} {edit : Edit}
    (hphase : s.phase pid = .entered) (htask : tasks pid = .edit path profileName edit) :
    Stepped tasks server careful s (s.edit pid path profileName edit) := by
  rw [State.edit]
  split
  next err _ => exact .failed pid err
  next => exact .left hphase
  next write heq => exact .edited hphase htask heq

theorem answered_stepped {manager : OAuthTokenManager} {refresh : Refresh} {attempt : Nat}
    {response : Except OAuthClientError TokenResponse}
    (hphase : s.phase pid = .awaiting refresh attempt)
    (hanswer : server s.log refresh.refreshToken response) :
    Stepped tasks server careful s (s.answered pid manager refresh attempt response) := by
  cases response with
  | ok token => exact .accepted hphase hanswer
  | error err =>
    simp only [State.answered]
    split
    next => exact .retried hphase
    next =>
      split
      next failure _ =>
        split
        next => exact .revoked failure.requestId hphase
        next => exact .failed pid _
      next => exact .failed pid _

theorem finish_finished {call : Option Call} {finish : Finish} :
    Finished pid finish s (s.finish pid call finish) := by
  cases finish with
  | refreshed answer =>
    simp only [State.finish]
    split
    next => exact .reloading rfl
    next => exact .returned rfl
  | revoked err => exact .failed err
  | edited => exact .left

theorem save_stepped {write : Write} {nonces : Nonces env.crypto} {isSynced : Bool}
    (hphase : s.phase pid = .saving write) (hcareful : careful pid) : Stepped tasks server careful s
      (s.save pid (tasks pid).path (tasks pid).call? write nonces isSynced) := by
  rw [State.save]
  split
  next err _ => exact .failed pid err
  next document hsave =>
    split
    next => exact .saved hphase hcareful hsave finish_finished
    next => exact .saved hphase hcareful hsave (.failed .io)

theorem run_stepped (h : run tasks s pid = some s') : Stepped tasks server careful s s' := by
  rw [run] at h
  split at h
  next hphase htask => exact Option.some.inj h ▸ enter_stepped hphase htask
  next hphase htask => exact Option.some.inj h ▸ edit_stepped hphase htask
  next hphase htask => exact Option.some.inj h ▸ reread_stepped hphase htask
  next refresh token manager _ hphase htask =>
    obtain rfl := Option.some.inj h
    cases hwrite : saveRefreshedToken env s.disk s.now manager refresh token with
    | error err => exact .failed pid err
    | ok write => exact .refreshed hphase htask hwrite
  next refresh requestId manager _ hphase htask =>
    obtain rfl := Option.some.inj h
    cases hwrite : clearInvalidGrant env s.disk manager refresh requestId with
    | error err => exact .failed pid err
    | ok write => exact .cleared hphase htask hwrite
  next manager _ receiverInstance hphase htask =>
    obtain rfl := Option.some.inj h
    rw [State.reload]
    split
    next err _ => exact .failed pid err
    next answer heq => exact .reloaded hphase htask heq
  next => cases h

theorem play_stepped {action : Action env} (hallowed : Allowed server s action)
    (hplay : play tasks s action = some s')
    (hcareful : ∀ pid nonces isSynced, action = .save pid nonces isSynced → careful pid) :
    Stepped tasks server careful s s' := by
  cases action with
  | tick now => exact Option.some.inj hplay ▸ .ticked now
  | fail pid err =>
    rw [play] at hplay
    split at hplay
    next => cases hplay
    next => exact Option.some.inj hplay ▸ .failed pid err
  | run pid => exact run_stepped hplay
  | acquire pid =>
    rw [play] at hplay
    split at hplay
    next lock hphase =>
      split at hplay
      next hfree =>
        exact Option.some.inj hplay ▸ .acquired hphase (Option.isNone_iff_eq_none.mp hfree)
      next => cases hplay
    next => cases hplay
  | submit pid =>
    rw [play] at hplay
    split at hplay
    next hphase => exact Option.some.inj hplay ▸ .submitted hphase
    next => cases hplay
  | answer pid response =>
    rw [play] at hplay
    split at hplay
    next hphase htask =>
      exact Option.some.inj hplay ▸ answered_stepped hphase (hallowed _ _ hphase)
    next => cases hplay
  | save pid nonces isSynced =>
    rw [play] at hplay
    split at hplay
    next hphase => exact Option.some.inj hplay ▸ save_stepped hphase (hcareful pid nonces isSynced rfl)
    next => cases hplay

theorem Step.stepped (h : Step tasks server s s') : Stepped tasks server (fun _ => True) s s' := by
  obtain ⟨action, hallowed, hplay⟩ := h
  exact play_stepped hallowed hplay fun _ _ _ _ => trivial

theorem plays_steps {R : State env → State env → Prop} {actions : List (Action env)}
    (h : plays tasks s actions = some s')
    (hstep : ∀ action ∈ actions, ∀ s s', play tasks s action = some s' → R s s') :
    Relation.ReflTransGen R s s' := by
  induction actions generalizing s with
  | nil => exact Option.some.inj h ▸ .refl
  | cons action actions ih =>
    obtain ⟨next, hnext, hrest⟩ := Option.bind_eq_some_iff.mp h
    obtain ⟨hfirst, hlater⟩ := List.forall_mem_cons.mp hstep
    exact .head (hfirst s next hnext) (ih hrest hlater)

theorem plays_run {actions : List (Action env)} (h : plays tasks s actions = some s')
    (hallowed : ∀ action ∈ actions, ∀ s : State env, Allowed server s action) :
    Relation.ReflTransGen (Step tasks server) s s' :=
  plays_steps h fun action haction s _ hplay => ⟨action, hallowed action haction s, hplay⟩

end VeStorage.ADrive.Token
