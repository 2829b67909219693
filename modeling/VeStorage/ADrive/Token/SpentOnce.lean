import VeStorage.ADrive.Token.Spent

namespace VeStorage.ADrive.Token
open Lib Credentials
open Share (CliError)
open Lib.Crash (ensure ensure_eq_ok bind_eq_ok seq_eq_ok pure_eq_ok)

variable {env : Env} {tasks : Pid → Task} {server : Server} {path : Path} {profileName : Text}
  {s s' : State env} {pid other : Pid} {phase : Phase} {events log : List Event} {event : Event}

section Rereads

variable {stored stored' : StoredOAuthCredentials} {reading reading' : Int}
  {later rest : List Event}

theorem single_reread (h : [.reread pid stored reading] =
      later ++ Event.reread other stored' reading' :: rest) :
    later = [] ∧ other = pid ∧ stored' = stored ∧ reading' = reading ∧ rest = [] := by
  cases later with
  | nil =>
    obtain ⟨hevent, rfl⟩ := List.cons.inj h
    obtain ⟨rfl, rfl, rfl⟩ := Event.reread.inj hevent
    exact ⟨rfl, rfl, rfl, rfl, rfl⟩
  | cons event later => cases later <;> cases (List.cons.inj h).2

theorem last_reread (hevent : ∀ pid stored reading, event ≠ .reread pid stored reading)
    (h : [event, .reread pid stored reading] =
      later ++ Event.reread other stored' reading' :: rest) :
    later = [event] ∧ other = pid ∧ stored' = stored ∧ reading' = reading ∧ rest = [] := by
  cases later with
  | nil => exact absurd (List.cons.inj h).1 (hevent _ _ _)
  | cons first later =>
    obtain ⟨rfl, htail⟩ := List.cons.inj h
    obtain ⟨rfl, hrest⟩ := single_reread htail
    exact ⟨rfl, hrest⟩

theorem locked_reread (h : SpentInv tasks path profileName s) (hphase : s.phase pid = .locked)
    (hload : current path profileName s = .ok stored)
    (hreused : ∀ manager call answer, tasks pid = .call manager call →
      call.usable env reading stored = .ok (some answer) → .returned pid answer ∈ later ∧
        s'.phase pid = .done ∧ ∀ token, .submitted pid token ∉ s'.log) :
    Reread tasks profileName s' later pid stored reading s.log := by
  have hself := h.proc pid
  rw [hphase] at hself
  refine ⟨fun group hgroup => ?_, hself.receives rfl stored hload, hreused⟩
  obtain ⟨hcurrent, hissued⟩ := h.history.last group hgroup
  exact ⟨Except.ok.inj (hload.symm.trans hcurrent), hissued⟩

end Rereads

theorem SpentInv.congr (h : SpentInv tasks path profileName s) (hphase : s'.phase = s.phase)
    (hdisk : s'.disk = s.disk) (hlog : s'.log = s.log) : SpentInv tasks path profileName s' := by
  have hlog' : s'.log = [] ++ s.log := hlog
  refine ⟨fun pid => ?_, h.history.quiet hdisk hlog' (by simp) (fun pid hdone => ?_) (by simp)
    (by simp)⟩
  · rw [hphase]
    exact (h.proc pid).frame hdisk hlog' (by simp)
  · rw [hphase]
    exact hdone

theorem enter_receives {manager : OAuthTokenManager} {call : Call} {found : Option Answer}
    {stored : StoredOAuthCredentials}
    (h : call.enter env s.disk s.now manager = .ok found)
    (hstored : loadOauth env s.disk manager.credentialsPath manager.profileName = .ok stored) :
    call.Receives stored := by
  cases call with
  | accessTokenAndUserId applyRefreshWindow receiverInstance =>
    obtain ⟨loaded, hloaded, husable⟩ := bind_eq_ok.mp h
    obtain rfl := Except.ok.inj (hstored.symm.trans hloaded)
    exact usable_receives husable
  | accessToken | forceRefresh => trivial

theorem enter_timely {manager : OAuthTokenManager} {call : Call} {answer : Answer}
    (h : call.enter env s.disk s.now manager = .ok (some answer)) : answer.Timely env := by
  cases call with
  | accessTokenAndUserId | accessToken =>
    obtain ⟨loaded, -, husable⟩ := bind_eq_ok.mp h
    exact usable_timely husable
  | forceRefresh rejected => cases h

theorem setAdriveOauth_unreserved {f : CredentialsFile} {name : Text}
    {credentials : StoredOAuthCredentials} (h : (f.setAdriveOauth name credentials).2 = .ok ()) :
    name ≠ reserved := by
  rw [CredentialsFile.setAdriveOauth] at h
  split at h
  next => cases h
  next heq => exact validateProfileName_eq.mp heq

theorem validateRefreshToken_eq_ok {token : TokenResponse} {expectedInstance : Text}
    {validated : ValidatedRefreshToken}
    (h : validateRefreshToken token expectedInstance = .ok validated) :
    isBlank token.accessToken = false ∧ token.expiresIn ≠ 0 ∧
      validated.accessToken = token.accessToken ∧ validated.refreshToken = token.refreshToken ∧
      validated.expiresIn = token.expiresIn := by
  obtain ⟨⟨⟩, hblank, h⟩ := bind_eq_ok.mp h
  obtain ⟨⟨⟩, htype, h⟩ := bind_eq_ok.mp h
  obtain ⟨⟨⟩, -, h⟩ := bind_eq_ok.mp h
  obtain ⟨⟨⟩, -, h⟩ := bind_eq_ok.mp h
  obtain rfl := pure_eq_ok.mp h
  exact ⟨(ensure_eq_ok.mp hblank).1, (ensure_eq_ok.mp htype).2, rfl, rfl, rfl⟩

-- What a validated answer leads to.
theorem refreshed_plan {manager : OAuthTokenManager} {refresh : Refresh} {token : TokenResponse}
    {write : Write} (hprofile : manager.profileName = profileName)
    (h : saveRefreshedToken env s.disk s.now manager refresh token = .ok write)
    (hclear : isEncrypted token.accessToken = false ∧ isEncrypted token.refreshToken = false) :
    Plan env profileName write ∧ write.origin = some refresh ∧
      write.spent = some refresh.refreshToken ∧ (Phase.saving write).issued = some token.refreshToken := by
  obtain ⟨validated, base, credentials, hvalidated, -, hcredentials, hset, rfl⟩ :=
    saveRefreshedToken_eq_ok h
  obtain ⟨hblank, hlifetime, haccess, hrefresh, hexpires⟩ := validateRefreshToken_eq_ok hvalidated
  have htimely := refreshed_timely hcredentials (hexpires ▸ hlifetime)
  subst hprofile
  obtain ⟨printed, hprinted, hgroup⟩ := bind_eq_ok.mp hcredentials
  obtain rfl := pure_eq_ok.mp hgroup
  have hissued : Issued {
      accessToken := some validated.accessToken, refreshToken := some validated.refreshToken
      expiresAt := some printed, tokenType := some "Bearer".toList, scope := validated.scope
      legacyClientId := none, instanceId := some refresh.instanceId
      userId := validated.userId.or refresh.userId, authEndpoint := some refresh.authEndpoint } := by
    refine ⟨⟨_, rfl, haccess ▸ hblank⟩, ⟨fun text ht => ?_, fun text ht => ?_⟩, rfl⟩
    · obtain rfl := Option.some.inj ht
      exact haccess ▸ hclear.1
    · obtain rfl := Option.some.inj ht
      exact hrefresh ▸ hclear.2
  exact ⟨.refreshed hissued rfl (setAdriveOauth_unreserved hset) htimely, rfl, rfl,
    congrArg some hrefresh⟩

theorem SpentInv.start {disk : Disk env.toml.Document} (now : Int) :
    SpentInv tasks path profileName (State.start disk now) := by
  refine ⟨fun pid => .early (.inl rfl) (by simp [State.start]) (nomatch ·), ?_⟩
  refine ⟨?_, ?_, ?_, ?_, ?_, ?_⟩ <;>
    simp [State.start, spentTokens, lastUpdate]

theorem SpentInv.step (hone : OneProfile tasks path profileName) (hrotating : Rotating server)
    (hunmarked : Unmarked server) (hguarded : Guarded tasks path s)
    (h : SpentInv tasks path profileName s)
    (hstep : Stepped tasks server (fun _ => True) s s') : SpentInv tasks path profileName s' := by
  have hother : ∀ {pid}, ∀ other ≠ pid, Proc tasks path profileName s other (s.phase other) :=
    fun other _ => h.proc other
  have hmanager : ∀ {pid manager call}, tasks pid = .call manager call →
      manager.credentialsPath = path ∧ manager.profileName = profileName := by
    intro pid manager call htask
    have hpath := hone.path pid
    have hprofile := hone.profile pid
    rw [htask] at hpath hprofile
    exact ⟨hpath, hprofile⟩
  have hcurrent : ∀ {pid manager call stored}, tasks pid = .call manager call →
      loadOauth env s.disk manager.credentialsPath manager.profileName = .ok stored →
      current path profileName s = .ok stored := by
    intro pid manager call stored htask hload
    obtain ⟨hpath, hprofile⟩ := hmanager htask
    exact hpath ▸ hprofile ▸ hload
  cases hstep with
  | ticked now => exact h.congr rfl rfl rfl
  | failed =>
    exact spent_exit hother h.history (by simp [Event.IsQuiet])
      (fun _ _ _ _ _ heq => absurd (by simp) (not_reread heq)) (by simp)
  | left => exact spent_exit hother h.history (by simp) (by simp) (by simp)
  | found hphase htask henter =>
    refine spent_exit hother h.history (by simp [Event.IsQuiet])
      (fun _ _ _ _ _ heq => absurd (by simp) (not_reread heq)) fun _ answer hanswer => ?_
    obtain ⟨rfl, rfl⟩ := Event.returned.inj (List.mem_singleton.mp hanswer)
    exact enter_timely henter
  | @waited pid manager call hphase htask henter =>
    have hself := h.proc pid
    rw [hphase] at hself
    refine spent_goto hother h.history (by simp [hphase]) (.early (.inr (.inl ⟨_, rfl⟩))
      (hself.silent rfl) fun _ stored hstored manager' call' htask' => ?_) (by simp) (by simp) (by simp)
    obtain ⟨rfl, rfl⟩ := Task.call.inj (htask.symm.trans htask')
    obtain ⟨hpath, hprofile⟩ := hmanager htask
    refine enter_receives henter ?_
    rw [hpath, hprofile]
    exact hstored
  | @acquired pid lock hphase hfree =>
    have hself := h.proc pid
    rw [hphase] at hself
    exact (spent_goto hother h.history (by simp [hphase]) (.early (.inr (.inr rfl))
      (hself.silent rfl) fun _ => hself.receives rfl) (by simp) (by simp) (by simp)).congr rfl rfl rfl
  | @refused pid manager call stored err hphase htask hload hunusable =>
    refine spent_exit hother h.history (by simp [Event.IsQuiet]) (fun _ _ _ _ _ heq => ?_) (by simp)
    obtain ⟨rfl, rfl, rfl, rfl, rfl⟩ := last_reread (by simp) heq
    refine locked_reread h hphase (hcurrent htask hload) fun manager' call' answer htask' husable => ?_
    obtain ⟨-, rfl⟩ := Task.call.inj (htask.symm.trans htask')
    exact absurd husable (hunusable answer)
  | @reused pid manager call stored answer hphase htask hload husable =>
    have hself := h.proc pid
    rw [hphase] at hself
    refine spent_exit hother h.history (by simp [Event.IsQuiet]) (fun _ _ _ _ _ heq => ?_)
      fun pid' answer' hanswer => ?_
    · obtain ⟨rfl, rfl, rfl, rfl, rfl⟩ := last_reread (by simp) heq
      refine locked_reread h hphase (hcurrent htask hload) fun manager' call' answer' htask' husable' => ?_
      obtain ⟨-, rfl⟩ := Task.call.inj (htask.symm.trans htask')
      obtain rfl := Option.some.inj (Except.ok.inj (husable.symm.trans husable'))
      refine ⟨List.mem_singleton_self _, if_pos rfl, fun token hmem => hself.silent rfl token ?_⟩
      simpa [State.exit, State.goto] using hmem
    · obtain ⟨-, rfl⟩ : pid' = pid ∧ answer' = answer := by simpa using hanswer
      exact usable_timely husable
  | @began pid manager call stored refresh hphase htask hload hunusable hrefresh =>
    have hstored := hcurrent htask hload
    have hof := (Refresh.of_eq_ok hrefresh).1
    subst hof
    refine spent_goto hother h.history (by simp [hphase]) (.holding rfl rfl
      (fun _ => Phase.noConfusion) hstored hrefresh (fun _ htoken => ?_) (fun _ htoken => ?_)
      fun _ _ => Phase.noConfusion) (by simp [Event.IsQuiet]) (fun _ _ _ _ _ heq => ?_) (by simp)
    · cases htoken
    · cases htoken
    · obtain ⟨rfl, rfl, rfl, rfl, rfl⟩ := single_reread heq
      refine locked_reread h hphase hstored fun manager' call' answer htask' husable => ?_
      obtain ⟨-, rfl⟩ := Task.call.inj (htask.symm.trans htask')
      cases hunusable.symm.trans husable
  | submitted hphase => exact submit_spent hone hguarded h hphase
  | @retried pid refresh attempt hphase =>
    have hself := h.proc pid
    rw [hphase] at hself
    obtain ⟨hstored, hof⟩ := hself.origin refresh rfl
    refine spent_goto hother h.history (by simp [hphase]) (.holding rfl rfl
      (fun _ => Phase.noConfusion) hstored hof (fun _ htoken => ?_) (fun _ htoken => ?_)
      fun _ _ => Phase.noConfusion) (by simp) (by simp) (by simp)
    · cases htoken
    · cases htoken
  | @accepted pid refresh attempt token hphase hanswer =>
    have hself := h.proc pid
    rw [hphase] at hself
    obtain ⟨hstored, hof⟩ := hself.origin refresh rfl
    refine spent_goto hother h.history (by simp [hphase]) (.holding rfl rfl
      (fun _ => Phase.noConfusion) hstored hof hself.spending (fun issued hissued => ?_)
      fun _ _ heq => ?_) (by simp) (by simp) (by simp)
    · obtain rfl := Option.some.inj hissued
      exact hrotating _ _ _ hanswer
    · obtain ⟨-, rfl⟩ := Phase.accepted.inj heq
      exact hunmarked _ _ _ hanswer
  | @revoked pid refresh attempt requestId hphase =>
    have hself := h.proc pid
    rw [hphase] at hself
    obtain ⟨hstored, hof⟩ := hself.origin refresh rfl
    refine spent_goto hother h.history (by simp [hphase]) (.holding rfl rfl
      (fun _ => Phase.noConfusion) hstored hof (fun _ htoken => ?_) (fun _ htoken => ?_)
      fun _ _ => Phase.noConfusion) (by simp) (by simp) (by simp)
    · cases htoken
    · cases htoken
  | @refreshed pid manager call refresh token write hphase htask hwrite =>
    have hself := h.proc pid
    rw [hphase] at hself
    obtain ⟨hpath, hprofile⟩ := hmanager htask
    obtain ⟨hplan, horigin, hspent, hissued⟩ :=
      refreshed_plan hprofile hwrite (hself.accepted refresh token rfl)
    obtain ⟨validated, base, credentials, -, hbase, -, -, rfl⟩ := saveRefreshedToken_eq_ok hwrite
    refine spent_goto hother h.history (by simp [hphase]) ⟨by rintro ⟨⟩, by rintro ⟨⟩,
      fun found hfound => hself.origin found hfound, fun spent hs => ?_, fun issued hi => ?_,
      fun _ _ => Phase.noConfusion, fun write heq => ?_⟩ (by simp [Event.IsQuiet])
      (fun _ _ _ _ _ heq => absurd (by simp) (not_reread heq)) (by simp)
    · exact hself.spending spent (hspent.symm.trans hs ▸ rfl)
    · exact hself.issued issued (hissued.symm.trans hi ▸ rfl)
    · obtain rfl := Phase.saving.inj heq
      exact ⟨hpath ▸ hbase, hplan⟩
  | @cleared pid manager call refresh requestId write hphase htask hwrite =>
    have hself := h.proc pid
    rw [hphase] at hself
    obtain ⟨hpath, hprofile⟩ := hmanager htask
    obtain ⟨base, current, err, hbase, -, -, rfl⟩ := clearInvalidGrant_eq_ok hwrite
    refine spent_goto hother h.history (by simp [hphase]) ⟨by rintro ⟨⟩, by rintro ⟨⟩,
      fun found hfound => hself.origin found hfound, fun _ htoken => ?_, fun _ htoken => ?_,
      fun _ _ => Phase.noConfusion, fun write heq => ?_⟩ (by simp [Event.IsQuiet])
      (fun _ _ _ _ _ heq => absurd (by simp) (not_reread heq)) (by simp)
    · cases htoken
    · cases htoken
    · obtain rfl := Phase.saving.inj heq
      rw [hprofile]
      exact ⟨hpath ▸ hbase, .cleared⟩
  | @edited pid path' profileName' edit write hphase htask hplan =>
    obtain ⟨manager, call, hcall⟩ := hone.call pid
    cases htask.symm.trans hcall
  | reloaded hphase htask hreload =>
    refine spent_exit hother h.history (by simp [Event.IsQuiet])
      (fun _ _ _ _ _ heq => absurd (by simp) (not_reread heq)) fun _ answer hanswer => ?_
    obtain ⟨rfl, rfl⟩ := Event.returned.inj (List.mem_singleton.mp hanswer)
    exact reload_timely hreload
  | @saved pid write nonces document s' hphase _ hsave hfinish =>
    rw [hone.path pid] at hsave hfinish
    have hself := h.proc pid
    rw [hphase] at hself
    refine finished_spent (replaced_proc hone hguarded h hphase hsave)
      (replaced_history h hphase hsave) ?_ (fun answer heq => ?_) hfinish
    · change s.phase pid ≠ .done
      simp [hphase]
    · cases (hself.saving write rfl).2 with
      | refreshed _ _ _ htimely => exact Finish.refreshed.inj heq ▸ htimely
      | cleared => cases heq

theorem spent_run (hone : OneProfile tasks path profileName) (hrotating : Rotating server)
    (hunmarked : Unmarked server) {disk : Disk env.toml.Document} {now : Int}
    (hplain : disk.link path = none)
    (hrun : Relation.ReflTransGen (Step tasks server) (State.start disk now) s) :
    Guarded tasks path s ∧ SpentInv tasks path profileName s := by
  induction hrun with
  | refl => exact ⟨.start now hplain, .start now⟩
  | tail _ hstep ih =>
    exact ⟨ih.1.step hone.path hstep.stepped,
      ih.2.step hone hrotating hunmarked ih.1 hstep.stepped⟩

theorem refresh_token_spent_once (tasks : Pid → Task) (server : Server) (path : Path)
    (profileName : Text) (hone : OneProfile tasks path profileName) (hrotating : Rotating server)
    (hunmarked : Unmarked server) (disk : Disk env.toml.Document) (hplain : disk.link path = none)
    (now : Int) (hrun : Relation.ReflTransGen (Step tasks server) (State.start disk now) s) :
    (∀ later pid token earlier, s.log = later ++ .submitted pid token :: earlier →
      token ∉ spentTokens earlier) ∧
    (∀ later pid stored reading earlier group,
      s.log = later ++ .reread pid stored reading :: earlier →
      lastUpdate earlier = some (.setOauth profileName group) →
      stored = group ∧ ∀ manager call, tasks pid = .call manager call →
        call.Fresh env reading group → (∃ answer, .returned pid answer ∈ later ∧
          group.accessToken = some answer.accessToken) ∧ ∀ token, .submitted pid token ∉ s.log) ∧
    ∀ pid answer, .returned pid answer ∈ s.log → answer.Timely env := by
  have hhistory := (spent_run hone hrotating hunmarked hplain hrun).2.history
  refine ⟨hhistory.once, fun later pid stored reading earlier group hsplit hlast => ?_,
    hhistory.returned⟩
  obtain ⟨hfound, hreceives, hreused⟩ := hhistory.reread later pid stored reading earlier hsplit
  obtain ⟨rfl, hissued⟩ := hfound group hlast
  refine ⟨rfl, fun manager call htask hfresh => ?_⟩
  obtain ⟨token, htoken, hblank⟩ := hissued.accessToken
  obtain ⟨answer, husable, rfl⟩ :=
    usable_of_fresh htoken hblank (hreceives manager call htask) hfresh
  obtain ⟨hreturned, -, hsilent⟩ := hreused manager call answer htask husable
  exact ⟨⟨answer, hreturned, htoken⟩, hsilent⟩

section Example

def freshServer : Server := fun log _ response => ∀ answer, response = .ok answer →
  answer.refreshToken ∉ submittedTokens log ∧
    isEncrypted answer.accessToken = false ∧ isEncrypted answer.refreshToken = false

theorem freshServer_rotating : Rotating freshServer := fun _ _ answer h => (h answer rfl).1

theorem freshServer_unmarked : Unmarked freshServer := fun _ _ answer h => (h answer rfl).2

def sharedTasks (pid : Pid) : Task :=
  .call ⟨if pid = 0 then "link.toml".toList else samplePath, "a".toList, true, none⟩ .accessToken

def pairTasks (_ : Pid) : Task := .call ⟨samplePath, "a".toList, true, none⟩ .accessToken

def linkedDisk : Disk sampleEnv.toml.Document :=
  { sampleDisk with link := fun path => if path = "link.toml".toList then some samplePath else none }

def untilAnswer : List (Action sampleEnv) := [.run 0, .acquire 0, .run 0, .submit 0]

def sampleSave : List (Action sampleEnv) := [.run 0, .save 0 (fun _ _ => ()) true]

theorem fresh_allowed {answer : TokenResponse} {s : State sampleEnv}
    (h : answer.refreshToken ∉ submittedTokens s.log ∧
      isEncrypted answer.accessToken = false ∧ isEncrypted answer.refreshToken = false) :
    Allowed freshServer s (.answer pid (.ok answer)) := by
  intro refresh attempt _ other heq
  exact Except.ok.inj heq ▸ h

theorem pair_spent_once : ∃ (s : State sampleEnv) (answer : Answer),
    Relation.ReflTransGen (Step pairTasks freshServer) (State.start sampleDisk 0) s ∧
      .returned 1 answer ∈ s.log ∧ answer.accessToken = "access-r+".toList ∧
      ∀ token, .submitted 1 token ∉ s.log := by
  have hone : OneProfile pairTasks samplePath "a".toList :=
    ⟨fun _ => ⟨_, _, rfl⟩, fun _ => rfl, fun _ => rfl⟩
  have hbefore : Relation.ReflTransGen (Step pairTasks freshServer)
      (State.start sampleDisk 0 : State sampleEnv) _ :=
    plays_run (show plays pairTasks _ untilAnswer = _ from rfl) (by simp [untilAnswer, Allowed])
  have hanswer := hbefore.tail ⟨.answer 0 (.ok (sampleAnswer "r".toList)),
    fresh_allowed ⟨by decide, by decide, by decide⟩, rfl⟩
  have hrun := hanswer.trans (plays_run (show plays pairTasks _
    (.run 1 :: sampleSave ++ [.acquire 1, .run 1]) = _ from rfl) (by simp [sampleSave, Allowed]))
  obtain ⟨-, hreused, -⟩ := refresh_token_spent_once pairTasks freshServer samplePath "a".toList hone
    freshServer_rotating freshServer_unmarked sampleDisk rfl 0 hrun
  obtain ⟨-, hfresh⟩ := hreused [_] 1 _ _ _ _ rfl rfl
  obtain ⟨⟨answer, hreturned, htoken⟩, hsilent⟩ :=
    hfresh _ _ rfl ⟨"1970-01-01T01:00:00Z".toList, 3600 * 10 ^ 9, rfl, rfl, by decide⟩
  refine ⟨_, answer, hrun, ?_, (Option.some.inj htoken).symm, hsilent⟩
  rw [List.mem_singleton.mp hreturned]
  exact List.mem_cons_self

-- One manager names the file through a link: its save leaves the exchanged token in the file.
theorem linked_file_spent_twice :
    Rotating freshServer ∧ Unmarked freshServer ∧
    (∀ pid, linkedDisk.canonicalize (sharedTasks pid).path = samplePath) ∧
    ∃ (s : State sampleEnv) (later earlier : List Event) (pid : Pid) (token : Text),
      Relation.ReflTransGen (Step sharedTasks freshServer) (State.start linkedDisk 0) s ∧
        s.log = later ++ .submitted pid token :: earlier ∧ token ∈ spentTokens earlier := by
  have hbefore : Relation.ReflTransGen (Step sharedTasks freshServer)
      (State.start linkedDisk 0 : State sampleEnv) _ :=
    plays_run (show plays sharedTasks _ untilAnswer = _ from rfl) (by simp [untilAnswer, Allowed])
  have hanswer := hbefore.tail ⟨.answer 0 (.ok (sampleAnswer "r".toList)),
    fresh_allowed ⟨by decide, by decide, by decide⟩, rfl⟩
  have hrun := hanswer.trans (plays_run (show plays sharedTasks _
    (sampleSave ++ [.run 1, .acquire 1, .run 1, .submit 1]) = _ from rfl)
    (by simp [sampleSave, Allowed]))
  refine ⟨freshServer_rotating, freshServer_unmarked, fun pid => ?_,
    _, [], _, 1, "r".toList, hrun, rfl, by decide⟩
  by_cases hpid : pid = 0
  · subst hpid
    decide
  · have hpath : (sharedTasks pid).path = samplePath := if_neg hpid
    rw [hpath]
    decide

end Example

end VeStorage.ADrive.Token
