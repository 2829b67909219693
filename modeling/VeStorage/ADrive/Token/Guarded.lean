import VeStorage.ADrive.Token.Steps

namespace VeStorage.ADrive.Token
open Lib Credentials
open Share (CliError)
open Lib.Crash (ensure ensure_eq_ok bind_eq_ok seq_eq_ok pure_eq_ok)

namespace Disk

variable {Document : Type} {disk : Disk Document} {path : Path}

theorem target_of_plain (h : disk.link path = none) : disk.target path = path := by
  rw [target, resolve, h]
  rfl

theorem read_of_plain (h : disk.link path = none) : disk.read path = disk.content path := by
  rw [read, target_of_plain h]

theorem canonicalize_of_plain (h : disk.link path = none) : disk.canonicalize path = path := by
  rw [canonicalize, target_of_plain h, ite_self]

theorem replace_plain (document : Document) : (disk.replace path document).link path = none :=
  if_pos rfl

theorem read_replace (document : Document) :
    (disk.replace path document).read path = some document := by
  rw [read_of_plain (replace_plain document)]
  exact if_pos rfl

end Disk

variable {env : Env} {tasks : Pid → Task} {server : Server} {path : Path} {s s' : State env}
  {pid other : Pid} {phase : Phase} {events : List Event} {careful : Pid → Prop}

@[simp] theorem goto_self : (s.goto pid phase events).phase pid = phase := if_pos rfl

theorem goto_phase (s : State env) (pid : Pid) (phase : Phase) (events : List Event)
    (other : Pid) : (other = pid ∧ (s.goto pid phase events).phase other = phase) ∨
      (other ≠ pid ∧ (s.goto pid phase events).phase other = s.phase other) := by
  by_cases h : other = pid
  · exact .inl ⟨h, if_pos h⟩
  · exact .inr ⟨h, if_neg h⟩

theorem exit_phase (s : State env) (pid : Pid) (events : List Event) (other : Pid) :
    (other = pid ∧ (s.exit pid events).phase other = .done) ∨
      (other ≠ pid ∧ (s.exit pid events).phase other = s.phase other) :=
  goto_phase s pid .done events other

section Writes

variable {disk : Disk env.toml.Document} {now : Int} {manager : OAuthTokenManager}
  {refresh : Refresh} {token : TokenResponse} {write : Write} {profileName : Text}

theorem saveRefreshedToken_eq_ok
    (h : saveRefreshedToken env disk now manager refresh token = .ok write) :
    ∃ validated base credentials, validateRefreshToken token refresh.instanceId = .ok validated ∧
      load env disk manager.credentialsPath = .ok base ∧
      refresh.refreshed env now validated = .ok credentials ∧
      (base.setAdriveOauth manager.profileName credentials).2 = .ok () ∧
      write = ⟨some refresh, base, .setOauth manager.profileName credentials,
        .refreshed ⟨validated.accessToken, none, credentials.expiresAt, now⟩⟩ := by
  obtain ⟨validated, hvalidated, h⟩ := bind_eq_ok.mp h
  obtain ⟨base, hbase, h⟩ := bind_eq_ok.mp h
  obtain ⟨credentials, hcredentials, h⟩ := bind_eq_ok.mp h
  obtain ⟨⟨⟩, hset, h⟩ := bind_eq_ok.mp h
  exact ⟨validated, base, credentials, hvalidated, hbase, hcredentials, hset,
    (pure_eq_ok.mp h).symm⟩

theorem clearInvalidGrant_eq_ok {requestId : Option Text}
    (h : clearInvalidGrant env disk manager refresh requestId = .ok write) :
    ∃ base current err, load env disk manager.credentialsPath = .ok base ∧
      base.adriveOauth env.crypto (env.key manager.credentialsPath) manager.profileName =
        .ok current ∧ current.refreshToken = some refresh.refreshToken ∧
      write = ⟨some refresh, base, .clearOauth manager.profileName, .revoked err⟩ := by
  obtain ⟨base, hbase, h⟩ := bind_eq_ok.mp h
  obtain ⟨current, hcurrent, h⟩ := bind_eq_ok.mp h
  obtain ⟨⟨⟩, htoken, h⟩ := bind_eq_ok.mp h
  exact ⟨base, current, _, hbase, hcurrent, ensure_eq_ok.mp htoken, (pure_eq_ok.mp h).symm⟩

structure Edited (env : Env) (disk : Disk env.toml.Document) (path : Path) (profileName : Text)
    (write : Write) : Prop where
  origin : write.origin = none
  base : load env disk path = .ok write.base
  profile : write.update.profile = profileName
  finish : write.finish = .edited

theorem plan_eq_some {edit : Edit}
    (h : edit.plan env disk now path profileName = .ok (some write)) :
    Edited env disk path profileName write := by
  cases edit with
  | login instanceId authEndpoint response =>
    obtain ⟨credentials, -, h⟩ := bind_eq_ok.mp h
    obtain ⟨base, hbase, h⟩ := bind_eq_ok.mp h
    obtain ⟨⟨⟩, -, h⟩ := bind_eq_ok.mp h
    obtain rfl := Option.some.inj (pure_eq_ok.mp h)
    exact ⟨rfl, hbase, rfl, rfl⟩
  | logout =>
    rw [Edit.plan] at h
    split at h
    next => cases h
    next =>
      obtain ⟨base, hbase, h⟩ := bind_eq_ok.mp h
      obtain ⟨existing, -, h⟩ := bind_eq_ok.mp h
      have h := pure_eq_ok.mp h
      split at h
      next => cases h
      next =>
        obtain rfl := Option.some.inj h
        exact ⟨rfl, hbase, rfl, rfl⟩
  | credentialSet surface field value =>
    obtain ⟨base, hbase, h⟩ := bind_eq_ok.mp h
    obtain ⟨⟨⟩, -, h⟩ := bind_eq_ok.mp h
    obtain rfl := Option.some.inj (pure_eq_ok.mp h)
    exact ⟨rfl, hbase, rfl, rfl⟩

end Writes

-- The lock is held from the reading under it to the save.
def Phase.isRefreshing : Phase → Bool
  | locked | submitting _ _ | awaiting _ _ | accepted _ _ | revoked _ _ => true
  | saving write => write.origin.isSome
  | entered | waiting _ | reloading | done => false

structure Guarded (tasks : Pid → Task) (path : Path) (s : State env) : Prop where
  plain : s.disk.link path = none
  waiting : ∀ {pid lock}, s.phase pid = .waiting lock → lock = (path, (tasks pid).profile)
  holding : ∀ {pid}, (s.phase pid).isRefreshing = true →
    s.locks (path, (tasks pid).profile) = some pid

namespace Guarded

theorem start {disk : Disk env.toml.Document} (now : Int) (h : disk.link path = none) :
    Guarded tasks path (State.start disk now) :=
  ⟨h, fun hphase => (nomatch hphase), fun hphase => absurd hphase Bool.false_ne_true⟩

-- No two processes refresh one profile at the same time.
theorem exclusive (h : Guarded tasks path s) (hpid : (s.phase pid).isRefreshing = true)
    (hother : (s.phase other).isRefreshing = true)
    (hprofile : (tasks pid).profile = (tasks other).profile) : pid = other :=
  Locks.holder_unique (h.holding hpid) (hprofile ▸ h.holding hother)

theorem goto (h : Guarded tasks path s)
    (hwaiting : ∀ lock, phase = .waiting lock → lock = (path, (tasks pid).profile))
    (hholding : phase.isRefreshing = true → (s.phase pid).isRefreshing = true)
    (events : List Event) : Guarded tasks path (s.goto pid phase events) := by
  refine ⟨h.plain, fun {other lock} hphase => ?_, fun {other} hphase => ?_⟩
  · rcases goto_phase s pid phase events other with ⟨rfl, heq⟩ | ⟨-, heq⟩
    · exact hwaiting lock (heq.symm.trans hphase)
    · exact h.waiting (heq.symm.trans hphase)
  · rcases goto_phase s pid phase events other with ⟨rfl, heq⟩ | ⟨-, heq⟩
    · exact h.holding (hholding (heq ▸ hphase))
    · exact h.holding (heq ▸ hphase)

theorem exit (h : Guarded tasks path s) (pid : Pid) (events : List Event) :
    Guarded tasks path (s.exit pid events) := by
  refine ⟨h.plain, fun {other lock} hphase => ?_, fun {other} hphase => ?_⟩
  · rcases exit_phase s pid events other with ⟨rfl, heq⟩ | ⟨-, heq⟩
    · cases heq.symm.trans hphase
    · exact h.waiting (heq.symm.trans hphase)
  · rcases exit_phase s pid events other with ⟨rfl, heq⟩ | ⟨hne, heq⟩
    · rw [heq] at hphase
      cases hphase
    · exact Locks.drop_held hne (h.holding (heq ▸ hphase))

theorem acquire {lock : LockPath} (h : Guarded tasks path s) (hphase : s.phase pid = .waiting lock)
    (hfree : s.locks lock = none) :
    Guarded tasks path { s.goto pid .locked [] with locks := Locks.take s.locks lock pid } := by
  obtain rfl := h.waiting hphase
  refine ⟨h.plain, fun {other lock'} hother => ?_, fun {other} hother => ?_⟩
  · rcases goto_phase s pid .locked [] other with ⟨rfl, heq⟩ | ⟨-, heq⟩
    · cases heq.symm.trans hother
    · exact h.waiting (heq.symm.trans hother)
  · rcases goto_phase s pid .locked [] other with ⟨rfl, heq⟩ | ⟨-, heq⟩
    · exact Locks.take_self
    · exact Locks.take_held hfree (h.holding (heq ▸ hother))

theorem replaced {write : Write} {nonces : Nonces env.crypto} {document : env.toml.Document}
    (h : Guarded tasks path s) : Guarded tasks path (s.replaced pid path write nonces document) :=
  ⟨Disk.replace_plain document, h.waiting, h.holding⟩

theorem finished {finish : Finish} (h : Guarded tasks path s)
    (hfinish : Finished pid finish s s') : Guarded tasks path s' := by
  cases hfinish with
  | failed | left | returned => exact h.exit pid _
  | reloading =>
    refine h.goto (fun lock hlock => ?_) (fun hphase => ?_) _
    · cases hlock
    · cases hphase

theorem step (hone : ∀ pid, (tasks pid).path = path) (h : Guarded tasks path s)
    (hstep : Stepped tasks server careful s s') : Guarded tasks path s' := by
  cases hstep with
  | ticked now => exact ⟨h.plain, h.waiting, h.holding⟩
  | failed | left | found | refused | reused | reloaded => exact h.exit _ _
  | @waited pid manager call hphase htask henter =>
    refine h.goto (fun lock hlock => ?_) (fun hphase => ?_) _
    · obtain rfl := Phase.waiting.inj hlock
      have hpath : manager.credentialsPath = path := by simpa [htask, Task.path] using hone pid
      rw [refreshLockPath, hpath, Disk.canonicalize_of_plain h.plain, htask]
      rfl
    · cases hphase
  | acquired hphase hfree => exact h.acquire hphase hfree
  | began hphase | submitted hphase | retried hphase | accepted hphase | revoked _ hphase
  | refreshed hphase | cleared hphase =>
    refine h.goto (fun lock hlock => ?_) (fun _ => ?_) _
    · cases hlock
    · rw [hphase]
      rfl
  | @edited pid path' profileName edit write hphase htask hplan =>
    refine h.goto (fun lock hlock => ?_) (fun hwrite => ?_) _
    · cases hlock
    · rw [Phase.isRefreshing, (plan_eq_some hplan).origin] at hwrite
      cases hwrite
  | @saved pid write nonces document s' hphase _ hsave hfinish =>
    rw [hone pid] at hfinish
    exact h.replaced.finished hfinish

end Guarded

end VeStorage.ADrive.Token
