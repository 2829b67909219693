import VeStorage.ADrive.Token.Fresh

namespace VeStorage.ADrive.Token
open Lib Credentials
open Share (CliError)
open Lib.Crash (ensure ensure_eq_ok bind_eq_ok seq_eq_ok pure_eq_ok)

namespace Phase

def isEarly : Phase → Bool
  | entered | waiting _ | locked => true
  | _ => false

def isWaiting : Phase → Bool
  | waiting _ | locked => true
  | _ => false

-- The refresh token under exchange, and the one that came for it.
def spending : Phase → Option Text
  | awaiting refresh _ | accepted refresh _ => some refresh.refreshToken
  | saving write => write.spent
  | _ => none

def issued : Phase → Option Text
  | accepted _ token => some token.refreshToken
  | saving write =>
      match write.update with
      | .setOauth _ credentials => credentials.refreshToken
      | _ => none
  | _ => none

end Phase

structure Issued (group : StoredOAuthCredentials) : Prop where
  accessToken : ∃ token, group.accessToken = some token ∧ isBlank token = false
  clear : group.Clear
  persisted : group.persisted = group

inductive Plan (env : Env) (profileName : Text) : Write → Prop
  | refreshed {refresh : Refresh} {base : CredentialsFile} {group : StoredOAuthCredentials}
      {answer : Answer} : Issued group → group.instanceId = some refresh.instanceId →
      profileName ≠ reserved → answer.Timely env →
      Plan env profileName ⟨some refresh, base, .setOauth profileName group, .refreshed answer⟩
  | cleared {refresh : Refresh} {base : CredentialsFile} {err : CliError} :
      Plan env profileName ⟨some refresh, base, .clearOauth profileName, .revoked err⟩

section Invariant

variable {env : Env} (tasks : Pid → Task) (path : Path) (profileName : Text)

def current (s : State env) : Except CliError StoredOAuthCredentials :=
  loadOauth env s.disk path profileName

structure Proc (s : State env) (pid : Pid) (phase : Phase) : Prop where
  silent : phase.isEarly = true → ∀ token, .submitted pid token ∉ s.log
  receives : phase.isWaiting = true → ∀ stored, current path profileName s = .ok stored →
    ∀ manager call, tasks pid = .call manager call → call.Receives stored
  origin : ∀ refresh, phase.refresh? = some refresh →
    current path profileName s = .ok refresh.stored ∧ Refresh.of env refresh.stored = .ok refresh
  spending : ∀ token, phase.spending = some token → token ∈ submittedTokens s.log
  issued : ∀ token, phase.issued = some token → token ∉ submittedTokens s.log
  accepted : ∀ refresh token, phase = .accepted refresh token →
    isEncrypted token.accessToken = false ∧ isEncrypted token.refreshToken = false
  saving : ∀ write, phase = .saving write →
    load env s.disk path = .ok write.base ∧ Plan env profileName write

structure Reread (s : State env) (later : List Event) (pid : Pid) (stored : StoredOAuthCredentials)
    (reading : Int) (earlier : List Event) : Prop where
  found : ∀ group, lastUpdate earlier = some (.setOauth profileName group) →
    stored = group ∧ Issued group
  receives : ∀ manager call, tasks pid = .call manager call → call.Receives stored
  reused : ∀ manager call answer, tasks pid = .call manager call →
    call.usable env reading stored = .ok (some answer) → .returned pid answer ∈ later ∧
      s.phase pid = .done ∧ ∀ token, .submitted pid token ∉ s.log

structure History (s : State env) : Prop where
  fresh : ∀ stored, current path profileName s = .ok stored →
    ∀ token, stored.refreshToken = some token → token ∉ spentTokens s.log
  spent : ∀ token ∈ spentTokens s.log, token ∈ submittedTokens s.log
  last : ∀ group, lastUpdate s.log = some (.setOauth profileName group) →
    current path profileName s = .ok group ∧ Issued group
  once : ∀ later pid token earlier, s.log = later ++ .submitted pid token :: earlier →
    token ∉ spentTokens earlier
  reread : ∀ later pid stored reading earlier, s.log = later ++ .reread pid stored reading :: earlier →
    Reread tasks profileName s later pid stored reading earlier
  returned : ∀ pid answer, .returned pid answer ∈ s.log → answer.Timely env

structure SpentInv (s : State env) : Prop where
  proc : ∀ pid, Proc tasks path profileName s pid (s.phase pid)
  history : History tasks path profileName s

end Invariant

namespace Event

-- Neither a submission nor a save.
def IsQuiet : Event → Prop
  | loaded _ | reread _ _ _ | returned _ _ | failed _ _ => True
  | submitted _ _ | saved _ _ _ => False

end Event

variable {env : Env} {tasks : Pid → Task} {server : Server} {path : Path} {profileName : Text}
  {s s' : State env} {pid other : Pid} {phase : Phase} {events log : List Event} {event : Event}

section Quiet

theorem submittedTokens_quiet (h : ∀ event ∈ events, event.IsQuiet) :
    submittedTokens (events ++ log) = submittedTokens log := by
  rw [submittedTokens, List.filterMap_append, List.filterMap_eq_nil_iff.mpr, List.nil_append]
  · rfl
  · intro event hevent
    cases event with
    | submitted | saved => exact (h _ hevent).elim
    | loaded | reread | returned | failed => rfl

theorem spentTokens_quiet (h : ∀ event ∈ events, event.IsQuiet) :
    spentTokens (events ++ log) = spentTokens log := by
  rw [spentTokens, List.filterMap_append, List.filterMap_eq_nil_iff.mpr, List.nil_append]
  · rfl
  · intro event hevent
    cases event with
    | submitted | saved => exact (h _ hevent).elim
    | loaded | reread | returned | failed => rfl

theorem lastUpdate_quiet (h : ∀ event ∈ events, event.IsQuiet) :
    lastUpdate (events ++ log) = lastUpdate log := by
  rw [lastUpdate, List.findSome?_append, List.findSome?_eq_none_iff.mpr, Option.none_or]
  · rfl
  · intro event hevent
    cases event with
    | submitted | saved => exact (h _ hevent).elim
    | loaded | reread | returned | failed => rfl

theorem submitted_quiet {token : Text} (h : ∀ event ∈ events, event.IsQuiet) :
    Event.submitted pid token ∈ events ++ log ↔ .submitted pid token ∈ log := by
  rw [List.mem_append, or_iff_right fun hevent => (h _ hevent : (Event.submitted pid token).IsQuiet)]

end Quiet

theorem Proc.frame (h : Proc tasks path profileName s pid phase) (hdisk : s'.disk = s.disk)
    (hlog : s'.log = events ++ s.log) (hevents : ∀ event ∈ events, event.IsQuiet) :
    Proc tasks path profileName s' pid phase := by
  obtain ⟨disk, now, locks, phases, log⟩ := s'
  subst hdisk hlog
  refine ⟨fun hearly token => ?_, h.receives, h.origin, ?_, ?_, h.accepted, h.saving⟩
  · exact (submitted_quiet hevents).not.mpr (h.silent hearly token)
  · rw [submittedTokens_quiet hevents]
    exact h.spending
  · rw [submittedTokens_quiet hevents]
    exact h.issued

theorem Proc.left (h : phase = .done ∨ phase = .reloading) :
    Proc tasks path profileName s pid phase := by
  rcases h with rfl | rfl <;> refine ⟨?_, ?_, ?_, ?_, ?_, ?_, ?_⟩ <;>
    simp [Phase.isEarly, Phase.isWaiting, Phase.refresh?, Phase.spending, Phase.issued]

theorem Proc.early (hearly : phase = .entered ∨ (∃ lock, phase = .waiting lock) ∨ phase = .locked)
    (hsilent : ∀ token, .submitted pid token ∉ s.log)
    (hreceives : phase.isWaiting = true → ∀ stored, current path profileName s = .ok stored →
      ∀ manager call, tasks pid = .call manager call → call.Receives stored) :
    Proc tasks path profileName s pid phase := by
  refine ⟨fun _ => hsilent, hreceives, ?_, ?_, ?_, ?_, ?_⟩ <;>
    rcases hearly with rfl | ⟨lock, rfl⟩ | rfl <;>
    simp [Phase.refresh?, Phase.spending, Phase.issued]

-- Outside of a refresh a process has nothing of the group but the instance that it accepted.
theorem Proc.idle_cases (h : Proc tasks path profileName s pid phase)
    (hidle : phase.isRefreshing = false) :
    phase = .entered ∨ (∃ lock, phase = .waiting lock) ∨ phase = .reloading ∨ phase = .done := by
  cases phase with
  | entered => exact .inl rfl
  | waiting lock => exact .inr (.inl ⟨lock, rfl⟩)
  | reloading => exact .inr (.inr (.inl rfl))
  | done => exact .inr (.inr (.inr rfl))
  | saving write =>
    cases (h.saving write rfl).2 with
    | refreshed | cleared => cases hidle
  | locked | submitting | awaiting | accepted | revoked => cases hidle

theorem History.quiet (h : History tasks path profileName s) (hdisk : s'.disk = s.disk)
    (hlog : s'.log = events ++ s.log) (hevents : ∀ event ∈ events, event.IsQuiet)
    (hdone : ∀ other, s.phase other = .done → s'.phase other = .done)
    (hreread : ∀ later pid stored reading rest, events = later ++ .reread pid stored reading :: rest →
      Reread tasks profileName s' later pid stored reading (rest ++ s.log))
    (hreturned : ∀ pid answer, .returned pid answer ∈ events → answer.Timely env) :
    History tasks path profileName s' := by
  have hcurrent : current path profileName s' = current path profileName s := by
    rw [current, hdisk, current]
  refine ⟨?_, ?_, ?_, ?_, ?_, ?_⟩
  · rw [hcurrent, hlog, spentTokens_quiet hevents]
    exact h.fresh
  · rw [hlog, spentTokens_quiet hevents, submittedTokens_quiet hevents]
    exact h.spent
  · rw [hcurrent, hlog, lastUpdate_quiet hevents]
    exact h.last
  · intro later pid token earlier hsplit
    rcases append_split (hlog.symm.trans hsplit) with ⟨rest, -, hrest⟩ | ⟨rest, hrest, -⟩
    · exact h.once rest pid token earlier hrest
    · exact (hevents (.submitted pid token) (by rw [hrest]; simp)).elim
  · intro later pid stored reading earlier hsplit
    rcases append_split (hlog.symm.trans hsplit) with ⟨rest, rfl, hrest⟩ | ⟨rest, hrest, rfl⟩
    · obtain ⟨hfound, hreceives, hreused⟩ := h.reread rest pid stored reading earlier hrest
      refine ⟨hfound, hreceives, fun manager call answer htask husable => ?_⟩
      obtain ⟨hreturn, hphase, hsilent⟩ := hreused manager call answer htask husable
      refine ⟨List.mem_append_right _ hreturn, hdone pid hphase, fun token => ?_⟩
      rw [hlog, submitted_quiet hevents]
      exact hsilent token
    · exact hreread later pid stored reading rest hrest
  · intro pid answer hanswer
    rw [hlog] at hanswer
    rcases List.mem_append.mp hanswer with hanswer | hanswer
    · exact hreturned pid answer hanswer
    · exact h.returned pid answer hanswer

theorem spent_exit (hproc : ∀ other ≠ pid, Proc tasks path profileName s other (s.phase other))
    (h : History tasks path profileName s) (hevents : ∀ event ∈ events, event.IsQuiet)
    (hreread : ∀ later other stored reading rest,
      events = later ++ .reread other stored reading :: rest →
      Reread tasks profileName (s.exit pid events) later other stored reading (rest ++ s.log))
    (hreturned : ∀ pid answer, .returned pid answer ∈ events → answer.Timely env) :
    SpentInv tasks path profileName (s.exit pid events) := by
  refine ⟨fun other => ?_, h.quiet rfl rfl hevents (fun other hother => ?_) hreread hreturned⟩
  · rcases exit_phase s pid events other with ⟨-, heq⟩ | ⟨hne, heq⟩
    · exact .left (.inl heq)
    · rw [heq]
      exact (hproc other hne).frame rfl rfl hevents
  · rcases exit_phase s pid events other with ⟨-, heq⟩ | ⟨-, heq⟩
    · exact heq
    · exact heq.trans hother

theorem spent_goto (hproc : ∀ other ≠ pid, Proc tasks path profileName s other (s.phase other))
    (h : History tasks path profileName s) (hphase : s.phase pid ≠ .done)
    (hself : Proc tasks path profileName s pid phase) (hevents : ∀ event ∈ events, event.IsQuiet)
    (hreread : ∀ later other stored reading rest,
      events = later ++ .reread other stored reading :: rest →
      Reread tasks profileName (s.goto pid phase events) later other stored reading (rest ++ s.log))
    (hreturned : ∀ pid answer, .returned pid answer ∉ events) :
    SpentInv tasks path profileName (s.goto pid phase events) := by
  refine ⟨fun other => ?_, h.quiet rfl rfl hevents (fun other hother => ?_) hreread
    fun pid answer hanswer => absurd hanswer (hreturned pid answer)⟩
  · rcases goto_phase s pid phase events other with ⟨rfl, heq⟩ | ⟨hne, heq⟩
    · rw [heq]
      exact hself.frame rfl rfl hevents
    · rw [heq]
      exact (hproc other hne).frame rfl rfl hevents
  · rcases goto_phase s pid phase events other with ⟨rfl, -⟩ | ⟨-, heq⟩
    · exact absurd hother hphase
    · exact heq.trans hother

section Metadata

variable {stored group : StoredOAuthCredentials} {refresh : Refresh} {call : Call}

theorem requiredMetadata_eq_ok {value : Option Text} {field : String} {text : Text}
    (h : requiredMetadata value field = .ok text) : value = some text := by
  rw [requiredMetadata] at h
  split at h
  next found hfound => exact Except.ok.inj h ▸ nonempty_eq_some hfound
  next => cases h

theorem Refresh.of_refreshToken (h : Refresh.of env stored = .ok refresh) :
    stored.refreshToken = some refresh.refreshToken :=
  requiredMetadata_eq_ok (Refresh.of_eq_ok h).2.1

theorem Refresh.of_instanceId (h : Refresh.of env stored = .ok refresh) :
    stored.instanceId = some refresh.instanceId :=
  requiredMetadata_eq_ok (Refresh.of_eq_ok h).2.2

theorem Call.Receives.congr (h : call.Receives stored)
    (hinstance : group.instanceId = stored.instanceId ∨ group.instanceId = none) :
    call.Receives group := by
  cases call with
  | accessTokenAndUserId applyRefreshWindow receiverInstance =>
    refine ensure_eq_ok.mpr ?_
    have hbound := ensure_eq_ok.mp (show validateSnapshotInstance stored receiverInstance = .ok () from h)
    rcases hinstance with hinstance | hinstance <;> rw [hinstance]
    · exact hbound
    · exact fun _ _ bound hnone => nomatch hnone
  | accessToken | forceRefresh => trivial

end Metadata

theorem Phase.isEarly_of_waiting (h : phase.isWaiting = true) : phase.isEarly = true := by
  cases phase with
  | waiting | locked => rfl
  | entered | submitting | awaiting | accepted | revoked | saving | reloading | done => cases h

theorem Proc.holding {refresh : Refresh} (hearly : phase.isEarly = false)
    (hrefresh : phase.refresh? = some refresh) (hsaving : ∀ write, phase ≠ .saving write)
    (hcurrent : current path profileName s = .ok refresh.stored)
    (hof : Refresh.of env refresh.stored = .ok refresh)
    (hspending : ∀ token, phase.spending = some token → token ∈ submittedTokens s.log)
    (hissued : ∀ token, phase.issued = some token → token ∉ submittedTokens s.log)
    (haccepted : ∀ refresh token, phase = .accepted refresh token →
      isEncrypted token.accessToken = false ∧ isEncrypted token.refreshToken = false) :
    Proc tasks path profileName s pid phase := by
  have hnot : ¬ phase.isEarly = true := by simp [hearly]
  refine ⟨fun h => absurd h hnot, fun h => absurd (Phase.isEarly_of_waiting h) hnot,
    fun found hfound => ?_, hspending, hissued, haccepted, fun write h => absurd h (hsaving write)⟩
  obtain rfl := Option.some.inj (hrefresh.symm.trans hfound)
  exact ⟨hcurrent, hof⟩

-- While one process exchanges the token, no other has read it under the lock.
theorem submit_spent {refresh : Refresh} {attempt : Nat} (hone : OneProfile tasks path profileName)
    (hguarded : Guarded tasks path s) (h : SpentInv tasks path profileName s)
    (hphase : s.phase pid = .submitting refresh attempt) :
    SpentInv tasks path profileName
      (s.goto pid (.awaiting refresh attempt) [.submitted pid refresh.refreshToken]) := by
  have hself := h.proc pid
  rw [hphase] at hself
  obtain ⟨hcurrent, hof⟩ := hself.origin refresh rfl
  have hhistory := h.history
  refine ⟨fun other => ?_, hhistory.fresh, fun token htoken => ?_, hhistory.last, ?_, ?_, ?_⟩
  · rcases goto_phase s pid (.awaiting refresh attempt) [.submitted pid refresh.refreshToken] other
      with ⟨rfl, heq⟩ | ⟨hne, heq⟩
    · rw [heq]
      refine .holding rfl rfl (fun _ => Phase.noConfusion) hcurrent hof (fun token htoken => ?_)
        (fun token htoken => ?_) fun _ _ => Phase.noConfusion
      · obtain rfl := Option.some.inj htoken
        exact List.mem_cons_self
      · cases htoken
    · rw [heq]
      have hother := h.proc other
      have hidle : (s.phase other).isRefreshing = false := by
        refine Bool.eq_false_iff.mpr fun hrefreshing => hne ?_
        refine hguarded.exclusive hrefreshing ?_ ((hone.profile other).trans (hone.profile pid).symm)
        rw [hphase]
        rfl
      have hsilent : (s.phase other).isEarly = true →
          ∀ token, .submitted other token ∉ .submitted pid refresh.refreshToken :: s.log := by
        intro hearly token hmem
        rcases List.mem_cons.mp hmem with hmem | hmem
        · exact hne (Event.submitted.inj hmem).1
        · exact hother.silent hearly token hmem
      rcases hother.idle_cases hidle with hphase' | ⟨lock, hphase'⟩ | hphase' | hphase'
      · rw [hphase'] at hsilent ⊢
        exact .early (.inl rfl) (hsilent rfl) (nomatch ·)
      · have hreceives := hother.receives
        rw [hphase'] at hsilent hreceives ⊢
        exact .early (.inr (.inl ⟨lock, rfl⟩)) (hsilent rfl) hreceives
      · exact .left (.inr hphase')
      · exact .left (.inl hphase')
  · exact List.mem_cons_of_mem _ (hhistory.spent token htoken)
  · intro later pid' token earlier hsplit
    cases later with
    | nil =>
      obtain ⟨hevent, rfl⟩ := List.cons.inj hsplit
      obtain ⟨rfl, rfl⟩ := Event.submitted.inj hevent
      exact hhistory.fresh refresh.stored hcurrent _ (Refresh.of_refreshToken hof)
    | cons event later => exact hhistory.once later pid' token earlier (List.cons.inj hsplit).2
  · intro later pid' stored reading earlier hsplit
    cases later with
    | nil => cases (List.cons.inj hsplit).1
    | cons event later =>
      obtain ⟨rfl, hrest⟩ := List.cons.inj hsplit
      obtain ⟨hfound, hreceives, hreused⟩ := hhistory.reread later pid' stored reading earlier hrest
      refine ⟨hfound, hreceives, fun manager call answer htask husable => ?_⟩
      obtain ⟨hreturn, hdone, hsilent⟩ := hreused manager call answer htask husable
      have hne : pid' ≠ pid := by
        rintro rfl
        cases hphase.symm.trans hdone
      refine ⟨List.mem_cons_of_mem _ hreturn, ?_, fun token hmem => ?_⟩
      · rcases goto_phase s pid (.awaiting refresh attempt) [.submitted pid refresh.refreshToken] pid'
          with ⟨heq, -⟩ | ⟨-, heq⟩
        · exact absurd heq hne
        · exact heq.trans hdone
      · rcases List.mem_cons.mp hmem with hmem | hmem
        · exact hne (Event.submitted.inj hmem).1
        · exact hsilent token hmem
  · intro pid' answer hanswer
    rcases List.mem_cons.mp hanswer with hanswer | hanswer
    · cases hanswer
    · exact hhistory.returned pid' answer hanswer

section Saved

variable {write : Write} {nonces : Nonces env.crypto} {document : env.toml.Document}

-- What a call reads after the save: the new group, or nothing after a revocation.
def Write.group (write : Write) : StoredOAuthCredentials :=
  match write.update with
  | .setOauth _ credentials => credentials
  | _ => {}

theorem current_replaced (hplan : Plan env profileName write)
    (hsave : (write.base.update write.update).saveToPath env.crypto (env.key path) env.toml
      nonces = .ok document) :
    current path profileName (s.replaced pid path write nonces document) = .ok write.group := by
  rw [current, loadOauth, replaced_load hsave]
  refine CredentialsFile.adriveOauth_saved.trans ?_
  cases hplan with
  | @refreshed refresh base group answer hissued hinstance hreserved htimely =>
    have hoauth : (base.update (.setOauth profileName group)).oauth profileName = group := by
      rw [CredentialsFile.update_oauth, Update.oauth, if_pos ⟨rfl, hreserved⟩]
    have hclear : ((base.update (.setOauth profileName group)).oauth profileName).Clear := by
      rw [hoauth]
      exact hissued.clear
    refine (congrArg _ (CredentialsFile.adriveOauth_of_clear hclear)).trans ?_
    rw [hoauth]
    exact congrArg Except.ok hissued.persisted
  | @cleared refresh base err =>
    have hoauth : (base.update (.clearOauth profileName)).oauth profileName = {} := by
      rw [CredentialsFile.update_oauth, Update.oauth, if_pos rfl]
    have hclear : ((base.update (.clearOauth profileName)).oauth profileName).Clear := by
      rw [hoauth]
      exact ⟨clear_none, clear_none⟩
    refine (congrArg _ (CredentialsFile.adriveOauth_of_clear hclear)).trans ?_
    rw [hoauth]
    rfl

theorem replaced_proc (hone : OneProfile tasks path profileName)
    (hguarded : Guarded tasks path s) (h : SpentInv tasks path profileName s)
    (hphase : s.phase pid = .saving write)
    (hsave : (write.base.update write.update).saveToPath env.crypto (env.key path) env.toml
      nonces = .ok document) (other : Pid) (hne : other ≠ pid) :
    Proc tasks path profileName (s.replaced pid path write nonces document) other
      (s.phase other) := by
  have hself := h.proc pid
  have hother := h.proc other
  rw [hphase] at hself
  have hplan := (hself.saving write rfl).2
  have hrefreshing : (s.phase pid).isRefreshing = true := by
    rw [hphase]
    cases hplan <;> rfl
  have hidle : (s.phase other).isRefreshing = false := by
    refine Bool.eq_false_iff.mpr fun hrefreshing' => hne ?_
    exact hguarded.exclusive hrefreshing' hrefreshing
      ((hone.profile other).trans (hone.profile pid).symm)
  have hsilent : (s.phase other).isEarly = true → ∀ token, Event.submitted other token ∉
      (s.replaced pid path write nonces document).log := by
    intro hearly token hmem
    rcases List.mem_cons.mp hmem with hmem | hmem
    · cases hmem
    · exact hother.silent hearly token hmem
  rcases hother.idle_cases hidle with hphase' | ⟨lock, hphase'⟩ | hphase' | hphase'
  · rw [hphase'] at hsilent ⊢
    exact .early (.inl rfl) (hsilent rfl) (nomatch ·)
  · have hreceives := hother.receives
    rw [hphase'] at hsilent hreceives ⊢
    refine .early (.inr (.inl ⟨lock, rfl⟩)) (hsilent rfl) fun _ stored hstored manager call htask => ?_
    rw [current_replaced hplan hsave] at hstored
    obtain rfl := Except.ok.inj hstored
    cases hplan with
    | @refreshed refresh base group answer hissued hinstance hreserved htimely =>
      obtain ⟨hcurrent, hof⟩ := hself.origin refresh rfl
      refine (hreceives rfl _ hcurrent manager call htask).congr (.inl ?_)
      exact hinstance.trans (Refresh.of_instanceId hof).symm
    | @cleared refresh base err =>
      obtain ⟨hcurrent, -⟩ := hself.origin refresh rfl
      exact (hreceives rfl _ hcurrent manager call htask).congr (.inr rfl)
  · exact .left (.inr hphase')
  · exact .left (.inl hphase')

theorem replaced_history (h : SpentInv tasks path profileName s)
    (hphase : s.phase pid = .saving write)
    (hsave : (write.base.update write.update).saveToPath env.crypto (env.key path) env.toml
      nonces = .ok document) :
    History tasks path profileName (s.replaced pid path write nonces document) := by
  have hself := h.proc pid
  have hhistory := h.history
  rw [hphase] at hself
  have hplan := (hself.saving write rfl).2
  have hcurrent : current path profileName (s.replaced pid path write nonces document) =
      .ok write.group := current_replaced hplan hsave
  have hspent : ∀ token, token ∈ spentTokens (s.replaced pid path write nonces document).log →
      write.spent = some token ∨ token ∈ spentTokens s.log := by
    intro token htoken
    rw [State.replaced, spentTokens, List.filterMap_cons] at htoken
    split at htoken
    next => exact .inr htoken
    next spent heq =>
      rcases List.mem_cons.mp htoken with rfl | htoken
      · exact .inl heq
      · exact .inr htoken
  refine ⟨fun stored hstored token htoken => ?_, fun token htoken => ?_, fun group hgroup => ?_,
    ?_, ?_, ?_⟩
  · rw [hcurrent] at hstored
    obtain rfl := Except.ok.inj hstored
    intro hmem
    cases hplan with
    | refreshed =>
      -- The issued token was never submitted, and every spent one was.
      refine hself.issued token htoken ?_
      rcases hspent token hmem with hmem | hmem
      · exact hself.spending token hmem
      · exact hhistory.spent token hmem
    | cleared => cases htoken
  · rcases hspent token htoken with htoken | htoken
    · exact hself.spending token htoken
    · exact hhistory.spent token htoken
  · obtain hupdate : write.update = .setOauth profileName group := Option.some.inj hgroup
    rw [hcurrent]
    cases hplan with
    | refreshed hissued =>
      obtain ⟨-, rfl⟩ := Update.setOauth.inj hupdate
      exact ⟨rfl, hissued⟩
    | cleared => cases hupdate
  · intro later pid' token earlier hsplit
    cases later with
    | nil => cases (List.cons.inj hsplit).1
    | cons event later => exact hhistory.once later pid' token earlier (List.cons.inj hsplit).2
  · intro later pid' stored reading earlier hsplit
    cases later with
    | nil => cases (List.cons.inj hsplit).1
    | cons event later =>
      obtain ⟨rfl, hrest⟩ := List.cons.inj hsplit
      obtain ⟨hfound, hreceives, hreused⟩ := hhistory.reread later pid' stored reading earlier hrest
      refine ⟨hfound, hreceives, fun manager call answer htask husable => ?_⟩
      obtain ⟨hreturn, hdone, hsilent⟩ := hreused manager call answer htask husable
      refine ⟨List.mem_cons_of_mem _ hreturn, hdone, fun token hmem => ?_⟩
      rcases List.mem_cons.mp hmem with hmem | hmem
      · cases hmem
      · exact hsilent token hmem
  · intro pid' answer hanswer
    rcases List.mem_cons.mp hanswer with hanswer | hanswer
    · cases hanswer
    · exact hhistory.returned pid' answer hanswer

end Saved

theorem not_reread {later rest : List Event} {stored : StoredOAuthCredentials} {reading : Int}
    (h : events = later ++ .reread other stored reading :: rest) :
    ¬ ∀ event ∈ events, ∀ pid stored reading, event ≠ .reread pid stored reading := fun hevents =>
  hevents _ (by rw [h]; simp) other stored reading rfl

theorem finished_spent {finish : Finish}
    (hproc : ∀ other ≠ pid, Proc tasks path profileName s other (s.phase other))
    (h : History tasks path profileName s) (hphase : s.phase pid ≠ .done)
    (htimely : ∀ answer, finish = .refreshed answer → answer.Timely env)
    (hfinish : Finished pid finish s s') : SpentInv tasks path profileName s' := by
  cases hfinish with
  | failed err =>
    exact spent_exit hproc h (by simp [Event.IsQuiet])
      (fun _ _ _ _ _ heq => absurd (by simp) (not_reread heq)) (by simp)
  | left => exact spent_exit hproc h (by simp) (by simp) (by simp)
  | returned heq =>
    refine spent_exit hproc h (by simp [Event.IsQuiet])
      (fun _ _ _ _ _ heq => absurd (by simp) (not_reread heq)) fun _ answer hanswer => ?_
    obtain ⟨rfl, rfl⟩ := Event.returned.inj (List.mem_singleton.mp hanswer)
    exact htimely _ heq
  | reloading => exact spent_goto hproc h hphase (.left (.inr rfl)) (by simp) (by simp) (by simp)

end VeStorage.ADrive.Token
