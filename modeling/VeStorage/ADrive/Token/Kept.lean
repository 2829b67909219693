import VeStorage.ADrive.Token.Guarded

namespace VeStorage.ADrive.Token
open Lib Credentials
open Share (CliError)
open Lib.Crash (ensure ensure_eq_ok bind_eq_ok seq_eq_ok pure_eq_ok)

namespace Event

def isLoadedBy (pid : Pid) : Event → Bool
  | loaded other => decide (other = pid)
  | _ => false

def isRereadBy (pid : Pid) : Event → Bool
  | reread other _ _ => decide (other = pid)
  | _ => false

def isSave : Event → Bool
  | saved _ _ _ => true
  | _ => false

-- A login, a logout and a config write take no lock.
def isUnlockedSave (profileName : Text) : Event → Bool
  | saved _ write _ => write.origin.isNone && decide (write.update.profile = profileName)
  | _ => false

-- A process logs what it alone did; a save is seen by all.
def IsBy (pid : Pid) : Event → Prop
  | loaded other | reread other _ _ | submitted other _ | returned other _ | failed other _ =>
      other = pid
  | saved _ _ _ => False

variable {pid other : Pid} {event : Event}

theorem IsBy.isSave (h : event.IsBy pid) : event.isSave = false := by
  cases event with
  | saved => exact h.elim
  | loaded | reread | submitted | returned | failed => rfl

theorem IsBy.isUnlockedSave (h : event.IsBy pid) (profileName : Text) :
    event.isUnlockedSave profileName = false := by
  cases event with
  | saved => exact h.elim
  | loaded | reread | submitted | returned | failed => rfl

theorem IsBy.isLoadedBy (h : event.IsBy pid) (hne : other ≠ pid) :
    event.isLoadedBy other = false := by
  cases event with
  | loaded => exact decide_eq_false (h ▸ hne.symm)
  | saved | reread | submitted | returned | failed => rfl

theorem IsBy.isRereadBy (h : event.IsBy pid) (hne : other ≠ pid) :
    event.isRereadBy other = false := by
  cases event with
  | reread => exact decide_eq_false (h ▸ hne.symm)
  | saved | loaded | submitted | returned | failed => rfl

end Event

def since (stop : Event → Bool) (log : List Event) : List Event :=
  log.takeWhile fun event => !stop event

-- Nothing was saved since the process loaded the store that it saves, and no login, logout or
-- config write saved its profile since it read the group under the lock.
structure Undisturbed (tasks : Pid → Task) {env : Env} (s : State env) (pid : Pid) : Prop where
  unsaved : ∀ event ∈ since (Event.isLoadedBy pid) s.log, event.isSave = false
  unedited : (tasks pid).call?.isSome = true → ∀ event ∈ since (Event.isRereadBy pid) s.log,
    event.isUnlockedSave (tasks pid).profile = false

def CarefulStep {env : Env} (tasks : Pid → Task) (server : Server) (s s' : State env) : Prop :=
  ∃ action, Allowed server s action ∧ play tasks s action = some s' ∧
    ∀ pid nonces isSynced, action = .save pid nonces isSynced → Undisturbed tasks s pid

def entry (env : Env) (disk : Disk env.toml.Document) (path : Path) (profileName : Text) :
    Option CredentialProfile :=
  (load env disk path).toOption.bind fun credentials => credentials.profiles profileName

section Follows

variable (env : Env) (path : Path)

-- The save rewrites the entry it found, and a refresh exchanged the group that is still there.
structure Write.StartsFrom (write : Write) (found : Option CredentialProfile) : Prop where
  base : write.base.profiles write.update.profile = found
  origin : ∀ refresh ∈ write.origin, ∃ stored, write.base.adriveOauth env.crypto (env.key path)
    write.update.profile = .ok stored ∧ stored.persisted = refresh.stored.persisted

inductive Follows (profileName : Text) (written : Option CredentialProfile) :
    List Event → Option CredentialProfile → Prop
  | written : Follows profileName written [] written
  | unrelated {event : Event} {log : List Event} {found : Option CredentialProfile} :
      (∀ pid write file, event = .saved pid write file → write.update.profile ≠ profileName) →
      Follows profileName written log found → Follows profileName written (event :: log) found
  | later {pid : Pid} {write : Write} {file : CredentialsFile} {log : List Event}
      {found : Option CredentialProfile} : write.update.profile = profileName →
      write.StartsFrom env path found → Follows profileName written log found →
      Follows profileName written (.saved pid write file :: log) (file.profiles profileName)

end Follows

variable {env : Env} {tasks : Pid → Task} {server : Server} {path : Path} {s s' : State env}
  {pid other : Pid} {phase : Phase} {events log : List Event} {event : Event}

theorem since_cons {stop : Event → Bool} (h : stop event = false) :
    since stop (event :: log) = event :: since stop log :=
  List.takeWhile_cons_of_pos (by rw [h]; rfl)

theorem since_append {stop : Event → Bool} (h : ∀ event ∈ events, stop event = false) :
    since stop (events ++ log) = events ++ since stop log :=
  List.takeWhile_append_of_pos fun event hevent => by rw [h event hevent]; rfl

section Follows

variable {profileName : Text} {written found : Option CredentialProfile}

theorem Follows.append (h : Follows env path profileName written log found)
    (hevents : ∀ event ∈ events, event.isSave = false) :
    Follows env path profileName written (events ++ log) found := by
  induction events with
  | nil => exact h
  | cons event events ih =>
    obtain ⟨hevent, hevents⟩ := List.forall_mem_cons.mp hevents
    refine .unrelated (fun pid write file heq => ?_) (ih hevents)
    rw [heq] at hevent
    cases hevent

theorem append_split {earlier : List Event} {later : List Event}
    (h : events ++ log = later ++ event :: earlier) :
    (∃ rest, later = events ++ rest ∧ log = rest ++ event :: earlier) ∨
      ∃ rest, events = later ++ event :: rest ∧ earlier = rest ++ log := by
  rcases List.append_eq_append_iff.mp h with ⟨rest, hlater, hlog⟩ | ⟨rest, hevents, hrest⟩
  · exact .inl ⟨rest, hlater, hlog⟩
  · cases rest with
    | nil => exact .inl ⟨[], by simpa using hevents.symm, by simpa using hrest.symm⟩
    | cons first rest =>
      obtain ⟨rfl, hearlier⟩ := List.cons.inj hrest
      exact .inr ⟨rest, hevents, hearlier⟩

theorem split_saved {later earlier : List Event} {write : Write} {file : CredentialsFile}
    (hevents : ∀ event ∈ events, event.isSave = false)
    (h : events ++ log = later ++ .saved pid write file :: earlier) :
    ∃ rest, later = events ++ rest ∧ log = rest ++ .saved pid write file :: earlier := by
  rcases append_split h with hsplit | ⟨rest, hsplit, -⟩
  · exact hsplit
  · cases hevents (.saved pid write file) (by rw [hsplit]; simp)

end Follows

-- Another save leaves the entry as it is.
def Settled (env : Env) (path : Path) (found : Option CredentialProfile) : Prop :=
  ∀ nonce, found.map (fun profile =>
    (encryptProfile env.crypto (env.key path) nonce profile).persisted) = found

section Saves

variable {disk : Disk env.toml.Document} {write : Write} {nonces : Nonces env.crypto}
  {document : env.toml.Document} {profileName : Text}

theorem load_replace {f : CredentialsFile}
    (h : f.saveToPath env.crypto (env.key path) env.toml nonces = .ok document) :
    load env (disk.replace path document) path = .ok (f.saved env.crypto (env.key path) nonces) := by
  obtain ⟨hvalid, hdocument⟩ := seq_eq_ok.mp h
  obtain rfl := pure_eq_ok.mp hdocument
  rw [load, Disk.read_replace]
  exact CredentialsFile.loadFrom_saved (CredentialsFile.validate_eq_ok.mp hvalid)

theorem update_profiles {f : CredentialsFile} {update : Update}
    (h : update.profile ≠ profileName) : (f.update update).profiles profileName =
      f.profiles profileName := by
  cases update with
  | setAksk name surface field value =>
    rw [CredentialsFile.update, CredentialsFile.setAkskField]
    split
    next => rfl
    next => exact if_neg (Ne.symm h)
  | setOauth name credentials =>
    rw [CredentialsFile.update, CredentialsFile.setAdriveOauth]
    split
    next => rfl
    next => exact if_neg (Ne.symm h)
  | clearOauth name =>
    have hne : ¬ profileName = name := Ne.symm h
    simp only [CredentialsFile.update, CredentialsFile.clearAdriveOauth, if_neg hne, Option.map_id']

theorem entry_of_load {f : CredentialsFile} (h : load env disk path = .ok f) :
    entry env disk path profileName = f.profiles profileName := by
  rw [entry, h]
  rfl

theorem saved_settled {f : CredentialsFile} :
    Settled env path ((f.saved env.crypto (env.key path) nonces).profiles profileName) := by
  intro nonce
  rw [CredentialsFile.saved_profiles, Option.map_map]
  exact congrArg (fun g => (f.profiles profileName).map g) (funext fun profile =>
    CredentialsFile.encryptProfile_twice _ nonce profile)

theorem saved_other {f : CredentialsFile} {update : Update} (h : update.profile ≠ profileName)
    (hsettled : Settled env path (f.profiles profileName)) :
    ((f.update update).saved env.crypto (env.key path) nonces).profiles profileName =
      f.profiles profileName := by
  rw [CredentialsFile.saved_profiles, update_profiles h]
  exact hsettled (nonces profileName)

theorem adriveOauth_saved_other {f : CredentialsFile} {update : Update}
    (h : update.profile ≠ profileName) :
    ((f.update update).saved env.crypto (env.key path) nonces).adriveOauth env.crypto
      (env.key path) profileName = (f.adriveOauth env.crypto (env.key path) profileName).map
        StoredOAuthCredentials.persisted := by
  have hoauth : (f.update update).oauth profileName = f.oauth profileName := by
    rw [CredentialsFile.oauth, CredentialsFile.oauth, update_profiles h]
  rw [CredentialsFile.adriveOauth_saved, CredentialsFile.adriveOauth, CredentialsFile.adriveOauth,
    hoauth]

end Saves

def Phase.refresh? : Phase → Option Refresh
  | submitting refresh _ | awaiting refresh _ | accepted refresh _ | revoked refresh _ => some refresh
  | saving write => write.origin
  | entered | waiting _ | locked | reloading | done => none

theorem isRefreshing_of_refresh {refresh : Refresh} (h : phase.refresh? = some refresh) :
    phase.isRefreshing = true := by
  cases phase with
  | submitting | awaiting | accepted | revoked => rfl
  | saving write => exact Option.isSome_iff_exists.mpr ⟨refresh, h⟩
  | entered | waiting | locked | reloading | done => cases h

structure Reading (tasks : Pid → Task) (path : Path) (s : State env) (pid : Pid) : Prop where
  profile : ∀ {write}, s.phase pid = .saving write → write.update.profile = (tasks pid).profile
  base : ∀ {write}, s.phase pid = .saving write →
    (∀ event ∈ since (Event.isLoadedBy pid) s.log, event.isSave = false) →
    load env s.disk path = .ok write.base
  call : ∀ {refresh}, (s.phase pid).refresh? = some refresh → (tasks pid).call?.isSome = true
  origin : ∀ {refresh}, (s.phase pid).refresh? = some refresh →
    (∀ event ∈ since (Event.isRereadBy pid) s.log,
      event.isUnlockedSave (tasks pid).profile = false) →
    ∃ stored, loadOauth env s.disk path (tasks pid).profile = .ok stored ∧
      stored.persisted = refresh.stored.persisted

def Following (path : Path) (s : State env) : Prop :=
  ∀ (later : List Event) (pid : Pid) (write : Write) (written : CredentialsFile)
    (earlier : List Event), s.log = later ++ .saved pid write written :: earlier →
    Follows env path write.update.profile (written.profiles write.update.profile) later
        (entry env s.disk path write.update.profile) ∧
      Settled env path (entry env s.disk path write.update.profile)

structure Kept (tasks : Pid → Task) (path : Path) (s : State env) : Prop where
  reading : ∀ pid, Reading tasks path s pid
  following : Following path s

theorem Reading.frame (h : Reading tasks path s other) (hphase : s'.phase other = s.phase other)
    (hdisk : s'.disk = s.disk) (hlog : s'.log = events ++ s.log) (hne : other ≠ pid)
    (hevents : ∀ event ∈ events, event.IsBy pid) : Reading tasks path s' other := by
  refine ⟨fun {write} hwrite => h.profile (hphase ▸ hwrite), fun {write} hwrite hsaved => ?_,
    fun {refresh} hrefresh => h.call (hphase ▸ hrefresh), fun {refresh} hrefresh hedited => ?_⟩
  · rw [hdisk]
    rw [hlog, since_append fun event he => (hevents event he).isLoadedBy hne] at hsaved
    exact h.base (hphase ▸ hwrite) fun event he => hsaved event (List.mem_append_right _ he)
  · rw [hdisk]
    rw [hlog, since_append fun event he => (hevents event he).isRereadBy hne] at hedited
    exact h.origin (hphase ▸ hrefresh) fun event he => hedited event (List.mem_append_right _ he)

theorem Reading.idle (hphase : ∀ write, s.phase pid ≠ .saving write)
    (hrefresh : (s.phase pid).refresh? = none) : Reading tasks path s pid :=
  ⟨fun hwrite => absurd hwrite (hphase _), fun hwrite => absurd hwrite (hphase _),
    fun h => (nomatch hrefresh.symm.trans h), fun h => (nomatch hrefresh.symm.trans h)⟩

theorem Following.frame (h : Following path s) (hdisk : s'.disk = s.disk)
    (hlog : s'.log = events ++ s.log) (hevents : ∀ event ∈ events, event.isSave = false) :
    Following path s' := by
  intro later pid write written earlier hsplit
  rw [hlog] at hsplit
  obtain ⟨rest, rfl, hrest⟩ := split_saved hevents hsplit
  obtain ⟨hfollows, hsettled⟩ := h rest pid write written earlier hrest
  rw [hdisk]
  exact ⟨hfollows.append hevents, hsettled⟩

theorem kept_exit (hreading : ∀ other ≠ pid, Reading tasks path s other) (h : Following path s)
    (hevents : ∀ event ∈ events, event.IsBy pid) : Kept tasks path (s.exit pid events) := by
  refine ⟨fun other => ?_, h.frame rfl rfl fun event he => (hevents event he).isSave⟩
  rcases exit_phase s pid events other with ⟨rfl, heq⟩ | ⟨hne, heq⟩
  · refine .idle (fun write hwrite => ?_) ?_
    · cases heq.symm.trans hwrite
    · rw [heq]
      rfl
  · exact (hreading other hne).frame heq rfl rfl hne hevents

theorem kept_goto (hreading : ∀ other ≠ pid, Reading tasks path s other) (h : Following path s)
    (hself : Reading tasks path (s.goto pid phase events) pid)
    (hevents : ∀ event ∈ events, event.IsBy pid) : Kept tasks path (s.goto pid phase events) := by
  refine ⟨fun other => ?_, h.frame rfl rfl fun event he => (hevents event he).isSave⟩
  rcases goto_phase s pid phase events other with ⟨rfl, heq⟩ | ⟨hne, heq⟩
  · exact hself
  · exact (hreading other hne).frame heq rfl rfl hne hevents

section Replaced

variable {write : Write} {nonces : Nonces env.crypto} {document : env.toml.Document}

theorem replaced_load (hsave : (write.base.update write.update).saveToPath env.crypto
      (env.key path) env.toml nonces = .ok document) :
    load env (s.replaced pid path write nonces document).disk path =
      .ok ((write.base.update write.update).saved env.crypto (env.key path) nonces) :=
  load_replace hsave

theorem replaced_reading (hguarded : Guarded tasks path s) (h : Kept tasks path s)
    (hphase : s.phase pid = .saving write)
    (hsave : (write.base.update write.update).saveToPath env.crypto (env.key path) env.toml
      nonces = .ok document) (hundisturbed : Undisturbed tasks s pid) (other : Pid)
    (hne : other ≠ pid) : Reading tasks path (s.replaced pid path write nonces document) other := by
  have hreading := h.reading other
  have hwriter := h.reading pid
  refine ⟨hreading.profile, fun {_} _ hsaved => ?_, hreading.call, fun {refresh} hrefresh hedited => ?_⟩
  · rw [State.replaced, since_cons rfl] at hsaved
    cases hsaved _ List.mem_cons_self
  · rw [State.replaced, since_cons rfl] at hedited
    obtain ⟨hunlocked, hedited⟩ := List.forall_mem_cons.mp hedited
    have hprofile : write.update.profile ≠ (tasks other).profile := by
      intro hprofile
      have horigin : write.origin.isSome = true := by
        simpa [Event.isUnlockedSave, hprofile] using hunlocked
      refine hne (hguarded.exclusive (isRefreshing_of_refresh hrefresh) ?_ ?_)
      · rw [hphase]
        exact horigin
      · rw [← hprofile, hwriter.profile hphase]
    obtain ⟨stored, hstored, hkept⟩ := hreading.origin hrefresh hedited
    rw [loadOauth, hwriter.base hphase hundisturbed.unsaved] at hstored
    refine ⟨stored.persisted, ?_, hkept⟩
    rw [loadOauth, replaced_load hsave]
    refine (adriveOauth_saved_other hprofile).trans ?_
    change write.base.adriveOauth env.crypto (env.key path) (tasks other).profile = _ at hstored
    rw [hstored]
    rfl

theorem starts_from (h : Kept tasks path s) (hphase : s.phase pid = .saving write)
    (hundisturbed : Undisturbed tasks s pid) :
    write.StartsFrom env path (entry env s.disk path write.update.profile) := by
  have hwriter := h.reading pid
  have hbase := hwriter.base hphase hundisturbed.unsaved
  refine ⟨(entry_of_load hbase).symm, fun refresh hrefresh => ?_⟩
  have hphase' : (s.phase pid).refresh? = some refresh := by
    rw [hphase]
    exact hrefresh
  obtain ⟨stored, hstored, hkept⟩ := hwriter.origin hphase'
    (hundisturbed.unedited (hwriter.call hphase'))
  rw [loadOauth, hbase, ← hwriter.profile hphase] at hstored
  exact ⟨stored, hstored, hkept⟩

theorem replaced_following (h : Kept tasks path s) (hphase : s.phase pid = .saving write)
    (hsave : (write.base.update write.update).saveToPath env.crypto (env.key path) env.toml
      nonces = .ok document) (hundisturbed : Undisturbed tasks s pid) :
    Following path (s.replaced pid path write nonces document) := by
  intro later pid' write' written' earlier hsplit
  have hload : load env (s.replaced pid path write nonces document).disk path = .ok _ :=
    replaced_load hsave
  rw [entry_of_load hload]
  cases later with
  | nil =>
    obtain ⟨hevent, -⟩ := List.cons.inj hsplit
    obtain ⟨rfl, rfl, rfl⟩ := Event.saved.inj hevent
    exact ⟨.written, saved_settled⟩
  | cons event later =>
    obtain ⟨rfl, hrest⟩ := List.cons.inj hsplit
    obtain ⟨hfollows, hsettled⟩ := h.following later pid' write' written' earlier hrest
    by_cases hprofile : write.update.profile = write'.update.profile
    · rw [← hprofile] at hfollows ⊢
      exact ⟨.later rfl (starts_from h hphase hundisturbed) hfollows, saved_settled⟩
    · have hbase := (h.reading pid).base hphase hundisturbed.unsaved
      rw [entry_of_load hbase] at hfollows hsettled
      rw [saved_other hprofile hsettled]
      refine ⟨.unrelated (fun _ _ _ heq => ?_) hfollows, hsettled⟩
      obtain ⟨-, rfl, -⟩ := Event.saved.inj heq
      exact hprofile

theorem kept_idle (hreading : ∀ other ≠ pid, Reading tasks path s other) (h : Following path s)
    (hsaving : ∀ write, phase ≠ .saving write) (hrefresh : phase.refresh? = none) :
    Kept tasks path (s.goto pid phase []) := by
  refine kept_goto hreading h (.idle (fun write hwrite => ?_) ?_) (by simp)
  · exact hsaving write (goto_self.symm.trans hwrite)
  · rw [goto_self]
    exact hrefresh

theorem finished_kept {finish : Finish} (hreading : ∀ other ≠ pid, Reading tasks path s other)
    (h : Following path s) (hfinish : Finished pid finish s s') : Kept tasks path s' := by
  cases hfinish with
  | failed err | left | returned => exact kept_exit hreading h (by simp [Event.IsBy])
  | reloading => exact kept_idle hreading h (fun _ => Phase.noConfusion) rfl

end Replaced

theorem Kept.start {disk : Disk env.toml.Document} (now : Int) :
    Kept tasks path (State.start disk now) := by
  refine ⟨fun pid => .idle (fun write hwrite => nomatch hwrite) rfl, ?_⟩
  intro later pid write written earlier hsplit
  simp [State.start] at hsplit

theorem Kept.congr (h : Kept tasks path s) (hphase : s'.phase = s.phase) (hdisk : s'.disk = s.disk)
    (hlog : s'.log = s.log) : Kept tasks path s' := by
  obtain ⟨disk, now, locks, phase, log⟩ := s'
  subst hphase hdisk hlog
  exact ⟨fun pid => ⟨(h.reading pid).profile, (h.reading pid).base, (h.reading pid).call,
    (h.reading pid).origin⟩, h.following⟩

theorem Reading.progress (h : Reading tasks path s pid)
    (hrefresh : ∀ refresh, phase.refresh? = some refresh → (s.phase pid).refresh? = some refresh)
    (hsaving : ∀ write, phase ≠ .saving write)
    (hevents : ∀ event ∈ events, event.isRereadBy pid = false) :
    Reading tasks path (s.goto pid phase events) pid := by
  refine ⟨fun hwrite => ?_, fun hwrite => ?_, fun hphase => ?_, fun hphase hedited => ?_⟩
  · rw [goto_self] at hwrite
    exact absurd hwrite (hsaving _)
  · rw [goto_self] at hwrite
    exact absurd hwrite (hsaving _)
  · rw [goto_self] at hphase
    exact h.call (hrefresh _ hphase)
  · rw [goto_self] at hphase
    rw [State.goto, since_append hevents] at hedited
    exact h.origin (hrefresh _ hphase) fun event he => hedited event (List.mem_append_right _ he)

theorem Reading.planned {write : Write} (h : Reading tasks path s pid)
    (hprofile : write.update.profile = (tasks pid).profile)
    (hbase : load env s.disk path = .ok write.base)
    (horigin : ∀ refresh, write.origin = some refresh → (s.phase pid).refresh? = some refresh) :
    Reading tasks path (s.goto pid (.saving write) [.loaded pid]) pid := by
  refine ⟨fun hwrite => ?_, fun hwrite _ => ?_, fun hphase => ?_, fun hphase hedited => ?_⟩
  · rw [goto_self] at hwrite
    exact Phase.saving.inj hwrite ▸ hprofile
  · rw [goto_self] at hwrite
    exact Phase.saving.inj hwrite ▸ hbase
  · rw [goto_self] at hphase
    exact h.call (horigin _ hphase)
  · rw [goto_self] at hphase
    refine h.origin (horigin _ hphase) fun event he => hedited event ?_
    exact List.mem_cons_of_mem _ he

theorem Reading.began {manager : OAuthTokenManager} {call : Call} {stored : StoredOAuthCredentials}
    {refresh : Refresh} {attempt : Nat} (htask : tasks pid = .call manager call)
    (hload : loadOauth env s.disk path (tasks pid).profile = .ok stored)
    (hrefresh : refresh.stored = stored) :
    Reading tasks path (s.goto pid (.submitting refresh attempt) events) pid := by
  refine ⟨fun hwrite => ?_, fun hwrite => ?_, fun _ => ?_, fun hphase _ => ?_⟩
  · rw [goto_self] at hwrite
    cases hwrite
  · rw [goto_self] at hwrite
    cases hwrite
  · rw [htask]
    rfl
  · rw [goto_self] at hphase
    obtain rfl := Option.some.inj hphase
    exact ⟨stored, hload, by rw [hrefresh]⟩

theorem Refresh.of_eq_ok {stored : StoredOAuthCredentials} {refresh : Refresh}
    (h : Refresh.of env stored = .ok refresh) : refresh.stored = stored ∧
      requiredMetadata stored.refreshToken "refresh_token" = .ok refresh.refreshToken ∧
      requiredMetadata stored.instanceId "instance_id" = .ok refresh.instanceId := by
  obtain ⟨refreshToken, hrefreshToken, h⟩ := bind_eq_ok.mp h
  obtain ⟨instanceId, hinstanceId, h⟩ := bind_eq_ok.mp h
  obtain ⟨authEndpoint, -, h⟩ := bind_eq_ok.mp h
  obtain ⟨endpoint, -, h⟩ := bind_eq_ok.mp h
  obtain rfl := pure_eq_ok.mp h
  exact ⟨rfl, hrefreshToken, hinstanceId⟩

theorem Kept.step (hone : ∀ pid, (tasks pid).path = path) (hguarded : Guarded tasks path s)
    (h : Kept tasks path s) (hstep : Stepped tasks server (Undisturbed tasks s) s s') :
    Kept tasks path s' := by
  have hother : ∀ {pid}, ∀ other ≠ pid, Reading tasks path s other := fun other _ => h.reading other
  have htasks : ∀ {pid manager call}, tasks pid = .call manager call →
      manager.credentialsPath = path ∧ manager.profileName = (tasks pid).profile := by
    intro pid manager call htask
    have hpath := hone pid
    rw [htask] at hpath ⊢
    exact ⟨hpath, rfl⟩
  cases hstep with
  | ticked now => exact h.congr rfl rfl rfl
  | failed | left | found | refused | reused | reloaded =>
    exact kept_exit hother h.following (by simp [Event.IsBy])
  | waited hphase => exact kept_idle hother h.following (fun _ => Phase.noConfusion) rfl
  | acquired hphase hfree =>
    exact (kept_idle hother h.following (fun _ => Phase.noConfusion) rfl).congr rfl rfl rfl
  | @began pid manager call stored refresh hphase htask hload husable hrefresh =>
    obtain ⟨hpath, hprofile⟩ := htasks htask
    rw [hpath, hprofile] at hload
    exact kept_goto hother h.following (.began htask hload (Refresh.of_eq_ok hrefresh).1)
      (by simp [Event.IsBy])
  | submitted hphase =>
    refine kept_goto hother h.following ((h.reading _).progress (fun _ hrefresh => ?_)
      (fun _ => Phase.noConfusion) (by simp [Event.isRereadBy])) (by simp [Event.IsBy])
    rw [hphase]
    exact hrefresh
  | retried hphase | accepted hphase | revoked _ hphase =>
    refine kept_goto hother h.following ((h.reading _).progress (fun _ hrefresh => ?_)
      (fun _ => Phase.noConfusion) (by simp)) (by simp)
    rw [hphase]
    exact hrefresh
  | refreshed hphase htask hwrite =>
    obtain ⟨hpath, hprofile⟩ := htasks htask
    obtain ⟨validated, base, credentials, -, hbase, -, -, rfl⟩ := saveRefreshedToken_eq_ok hwrite
    refine kept_goto hother h.following ((h.reading _).planned hprofile (hpath ▸ hbase)
      fun _ hrefresh => ?_) (by simp [Event.IsBy])
    rw [hphase]
    exact hrefresh
  | cleared hphase htask hwrite =>
    obtain ⟨hpath, hprofile⟩ := htasks htask
    obtain ⟨base, current, err, hbase, -, -, rfl⟩ := clearInvalidGrant_eq_ok hwrite
    refine kept_goto hother h.following ((h.reading _).planned hprofile (hpath ▸ hbase)
      fun _ hrefresh => ?_) (by simp [Event.IsBy])
    rw [hphase]
    exact hrefresh
  | @edited pid path' profileName edit write hphase htask hplan =>
    have hpath := hone pid
    have hedited := plan_eq_some hplan
    rw [htask] at hpath
    obtain rfl : path' = path := hpath
    refine kept_goto hother h.following ((h.reading _).planned ?_ hedited.base
      fun _ hrefresh => ?_) (by simp [Event.IsBy])
    · rw [hedited.profile, htask]
      rfl
    · rw [hedited.origin] at hrefresh
      cases hrefresh
  | @saved pid write nonces document s' hphase hundisturbed hsave hfinish =>
    rw [hone pid] at hsave hfinish
    exact finished_kept (replaced_reading hguarded h hphase hsave hundisturbed)
      (replaced_following h hphase hsave hundisturbed) hfinish

theorem CarefulStep.stepped (h : CarefulStep tasks server s s') :
    Stepped tasks server (Undisturbed tasks s) s s' := by
  obtain ⟨action, hallowed, hplay, hcareful⟩ := h
  exact play_stepped hallowed hplay hcareful

theorem careful_run (hone : ∀ pid, (tasks pid).path = path) {disk : Disk env.toml.Document}
    {now : Int} (hplain : disk.link path = none)
    (hrun : Relation.ReflTransGen (CarefulStep tasks server) (State.start disk now) s) :
    Guarded tasks path s ∧ Kept tasks path s := by
  induction hrun with
  | refl => exact ⟨.start now hplain, .start now⟩
  | tail _ hstep ih =>
    exact ⟨ih.1.step hone hstep.stepped, ih.2.step hone ih.1 hstep.stepped⟩

-- Where no later save of the profile is seen, its entry is the one that was written.
theorem Follows.found_eq {profileName : Text} {written found : Option CredentialProfile}
    (h : Follows env path profileName written log found)
    (hsaves : ∀ pid write file, Event.saved pid write file ∈ log →
      write.update.profile ≠ profileName) : found = written := by
  induction h with
  | written => rfl
  | unrelated _ _ ih => exact ih fun pid write file hmem => hsaves pid write file (.tail _ hmem)
  | later hprofile => exact absurd hprofile (hsaves _ _ _ (.head _))

theorem undisturbed_updates_kept (tasks : Pid → Task) (server : Server) (path : Path)
    (hone : ∀ pid, (tasks pid).path = path) (disk : Disk env.toml.Document)
    (hplain : disk.link path = none) (now : Int)
    (hrun : Relation.ReflTransGen (CarefulStep tasks server) (State.start disk now) s)
    (later earlier : List Event) (pid : Pid) (write : Write) (written : CredentialsFile)
    (hlog : s.log = later ++ .saved pid write written :: earlier) :
    Follows env path write.update.profile (written.profiles write.update.profile) later
      (entry env s.disk path write.update.profile) :=
  ((careful_run hone hplain hrun).2.following later pid write written earlier hlog).1

section Example

def sampleParse (text : Text) : Option Int :=
  if text = "1970-01-01T00:00:00Z".toList then some 0
  else if text = "1970-01-01T01:00:00Z".toList then some (3600 * 10 ^ 9)
  else none

def sampleFormat (time : Int) : Text :=
  if time = 0 then "1970-01-01T00:00:00Z".toList
  else if time = 3600 * 10 ^ 9 then "1970-01-01T01:00:00Z".toList
  else []

def sampleEnv : Env where
  crypto := sampleCrypto
  key _ := ()
  toml := sampleToml
  parseRfc3339 := sampleParse
  toRfc3339 := sampleFormat
  isRepresentable _ := true
  normalizeAuthEndpoint endpoint := .ok endpoint
  parse_toRfc3339 time parsed h := by
    rw [sampleFormat] at h
    split at h
    next hzero =>
      subst hzero
      exact (Option.some.inj h).symm
    next =>
      split at h
      next hhour =>
        subst hhour
        exact (Option.some.inj h).symm
      next => cases h

def sampleGroup (token : Text) : StoredOAuthCredentials where
  accessToken := some ("access-".toList ++ token)
  refreshToken := some token
  expiresAt := some "1970-01-01T00:00:00Z".toList
  instanceId := some "instance".toList
  authEndpoint := some "https://ids.example.com/".toList

def sampleFile : CredentialsFile :=
  CredentialsFile.build [.setOauth "a".toList (sampleGroup "r".toList),
    .setOauth "b".toList (sampleGroup "s".toList)]

def samplePath : Path := "credentials.toml".toList

def sampleDisk : Disk sampleEnv.toml.Document where
  content path := if path = samplePath then some sampleFile else none
  link _ := none

def sampleAnswer (token : Text) : TokenResponse where
  accessToken := "access-".toList ++ token ++ "+".toList
  refreshToken := token ++ "+".toList
  tokenType := "Bearer".toList
  expiresIn := 3600
  scope := "drive".toList
  instanceId := "instance".toList

def sampleTasks (pid : Pid) : Task :=
  .call ⟨samplePath, if pid = 0 then "a".toList else "b".toList, true, none⟩ .accessToken

def refreshing (pid : Pid) (token : Text) : List (Action sampleEnv) :=
  [.run pid, .acquire pid, .run pid, .submit pid, .answer pid (.ok (sampleAnswer token)), .run pid]

def sampleActions : List (Action sampleEnv) :=
  refreshing 0 "r".toList ++ refreshing 1 "s".toList ++
    [.save 0 (fun _ _ => ()) true, .save 1 (fun _ _ => ()) true]

theorem allowed_any {s : State env} {action : Action env} :
    Allowed (fun _ _ _ => True) s action := by
  cases action with
  | answer => exact fun _ _ _ => trivial
  | tick | fail | run | acquire | submit | save => trivial

theorem careful_plays {actions : List (Action env)} (h : plays tasks s actions = some s')
    (hallowed : ∀ action ∈ actions, ∀ s : State env, Allowed server s action)
    (hsaves : ∀ action ∈ actions, ∀ pid nonces isSynced, action ≠ .save pid nonces isSynced) :
    Relation.ReflTransGen (CarefulStep tasks server) s s' :=
  plays_steps h fun action haction s _ hplay => ⟨action, hallowed action haction s, hplay,
    fun pid nonces isSynced heq => absurd heq (hsaves action haction pid nonces isSynced)⟩

-- The profile b is logged in while a refresh of a waits for its answer, and refreshed after that.
def loginTasks (pid : Pid) : Task :=
  if pid = 0 then .call ⟨samplePath, "a".toList, true, none⟩ .accessToken
  else if pid = 1 then .edit samplePath "b".toList
    (.login "instance".toList "https://ids.example.com/".toList (sampleAnswer "l".toList))
  else .call ⟨samplePath, "b".toList, true, none⟩ (.forceRefresh "access-l+".toList)

theorem loginTasks_path (pid : Pid) : (loginTasks pid).path = samplePath := by
  unfold loginTasks
  split
  · rfl
  · split <;> rfl

def storedToken (s : State sampleEnv) (profileName : Text) : Option Text :=
  (loadOauth sampleEnv s.disk samplePath profileName).toOption.bind StoredOAuthCredentials.refreshToken

theorem login_and_refreshes_kept : ∃ (s : State sampleEnv) (later earlier : List Event) (write : Write)
    (written : CredentialsFile),
    Relation.ReflTransGen (CarefulStep loginTasks fun _ _ _ => True) (State.start sampleDisk 0) s ∧
    s.log = later ++ .saved 1 write written :: earlier ∧
    (later.filter Event.isSave).length = 2 ∧
    Follows sampleEnv samplePath "b".toList (written.profiles "b".toList) later
      (entry sampleEnv s.disk samplePath "b".toList) ∧
    storedToken s "a".toList = some "r+".toList ∧ storedToken s "b".toList = some "l++".toList := by
  have hrun : Relation.ReflTransGen (CarefulStep loginTasks fun _ _ _ => True)
      (State.start sampleDisk 0 : State sampleEnv) _ :=
    careful_plays (show plays loginTasks _ [.run 0, .acquire 0, .run 0, .submit 0, .run 1] = _ from rfl)
      (fun _ _ _ => allowed_any) (by simp)
  have hlogin := hrun.tail ⟨.save 1 (fun _ _ => ()) true, trivial, rfl, fun pid _ _ h => by
    cases h
    exact ⟨by decide, by decide⟩⟩
  have hanswer := hlogin.trans (careful_plays (show plays loginTasks _
      [.answer 0 (.ok (sampleAnswer "r".toList)), .run 0] = _ from rfl)
      (fun _ _ _ => allowed_any) (by simp))
  have hrefresh := hanswer.tail ⟨.save 0 (fun _ _ => ()) true, trivial, rfl, fun pid _ _ h => by
    cases h
    exact ⟨by decide, by decide⟩⟩
  have hsecond := hrefresh.trans (careful_plays (show plays loginTasks _ (refreshing 2 "l+".toList) = _ from rfl)
      (fun _ _ _ => allowed_any) (by simp [refreshing]))
  have hdone := hsecond.tail ⟨.save 2 (fun _ _ => ()) true, trivial, rfl, fun pid _ _ h => by
    cases h
    exact ⟨by decide, by decide⟩⟩
  have hkept := undisturbed_updates_kept loginTasks _ samplePath loginTasks_path sampleDisk rfl 0 hdone
    [_, _, _, _, _, _, _, _] _ 1 _ _ rfl
  exact ⟨_, _, _, _, _, hdone, rfl, rfl, hkept, by decide +kernel, by decide +kernel⟩

def refreshTokenOf (found : Option CredentialProfile) : Option Text :=
  ((found.bind CredentialProfile.adrive).bind AdriveCredentials.oauth).bind
    StoredOAuthCredentials.refreshToken

-- Two profiles are refreshed at the same time: the second save brings back the exchanged token.
theorem interleaved_refreshes_lost : ∃ (s : State sampleEnv) (later earlier : List Event)
    (pid : Pid) (write : Write) (written : CredentialsFile),
    Relation.ReflTransGen (Step sampleTasks fun _ _ _ => True) (State.start sampleDisk 0) s ∧
    s.log = later ++ .saved pid write written :: earlier ∧
    ¬ Follows sampleEnv samplePath write.update.profile (written.profiles write.update.profile)
      later (entry sampleEnv s.disk samplePath write.update.profile) := by
  refine ⟨_, [_, _, _], _, _, _, _, plays_run (show plays sampleTasks _ sampleActions = _ from rfl)
    fun _ _ _ => allowed_any, rfl, fun h => ?_⟩
  have hfound := congrArg refreshTokenOf (h.found_eq fun pid write file hmem => ?_)
  · revert hfound
    decide +kernel
  · simp only [List.mem_cons, List.not_mem_nil, or_false, Event.saved.injEq, reduceCtorEq,
      false_or] at hmem
    obtain ⟨-, rfl, -⟩ := hmem
    decide +kernel

end Example

end VeStorage.ADrive.Token
