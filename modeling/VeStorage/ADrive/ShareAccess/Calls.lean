import VeStorage.ADrive.ShareAccess.Cleaned

namespace VeStorage.ADrive.ShareAccess
open Lib Requests

variable {α : Type} {urlPassword : Option Text} {l : Trace} {sharePwd : Option Text}
  {client : ShareClient} {session : ShareSession} {holder : Holder}

def CleanResult (urlPassword : Option Text) (out : Except Error α) (l : Trace) : Prop :=
  ∀ error, out = .error error → CleanOutcome urlPassword l (.error error)

theorem checkedToken_texts {token : ShareAccessTokenOutput} {error error' : Error}
    (h : checkedToken token error = .error error') (he : (Outcome.error error).texts = []) :
    (Outcome.error error').texts = [] := by
  unfold checkedToken at h
  split at h
  · obtain rfl := Except.error.inj h
    rfl
  · split at h
    · obtain rfl := Except.error.inj h
      exact he
    · cases h

theorem exchange_holds (hc : client.redactions = urlPassword.toList) :
    CleanRun urlPassword (CleanResult urlPassword)
      (client.getAccessTokenWithSubject sharePwd) l := by
  have hthrough : Through urlPassword client none := hc
  refine andThen_holds ((send_holds hthrough (by simp [ShareRequest.mutation])).mono ?_)
  rintro (e | response) l₁ hout
  · rintro error ⟨⟩
    exact hout
  rintro error herror
  cases hdecode : response.decode [] Body.token with
  | error e =>
    rw [hdecode] at herror
    obtain rfl := Except.error.inj herror
    exact cleanOutcome_of_texts (decode_texts hout.1 hdecode)
  | ok token =>
    simp only [hdecode] at herror
    cases htoken : checkedToken token .invalidResponse with
    | error e =>
      rw [htoken] at herror
      obtain rfl := Except.error.inj herror
      exact cleanOutcome_of_texts (checkedToken_texts htoken rfl)
    | ok u =>
      rw [htoken] at herror
      cases herror

theorem session_holds {token : ShareAccessTokenOutput} :
    CleanRun urlPassword (CleanResult urlPassword) (client.session token) l := by
  unfold ShareClient.session
  cases htoken : checkedToken token .client with
  | error e =>
    rintro error ⟨⟩
    exact cleanOutcome_of_texts (checkedToken_texts htoken rfl)
  | ok u =>
    dsimp only
    split
    · exact ⟨clean_of_texts rfl, fun _ _ _ => nofun⟩
    · rintro error ⟨⟩
      exact cleanOutcome_of_texts rfl

-- What a call of the receiver leaves: it still knows the address, and its error is clean.
def Settled (urlPassword : Option Text) (out : ShareReceiver × Except Error Unit) (l : Trace) : Prop :=
  out.1.client.redactions = urlPassword.toList ∧ CleanOutcome urlPassword l (.ofUnit out.2)

variable {receiver : ShareReceiver}

theorem open_holds {token : ShareAccessTokenOutput}
    (h : receiver.client.redactions = urlPassword.toList) :
    CleanRun urlPassword (Settled urlPassword) (receiver.open token) l := by
  refine ⟨clean_of_texts rfl, fun answer w _ => ?_⟩
  cases answer with
  | false => exact ⟨h, cleanOutcome_of_texts rfl⟩
  | true =>
    refine session_holds.bind ?_
    rintro (e | session) l₁ hout
    · exact ⟨h, hout e rfl⟩
    · exact ⟨h, cleanOutcome_of_texts rfl⟩

theorem refreshSession_holds (h : receiver.client.redactions = urlPassword.toList) :
    CleanRun urlPassword (Settled urlPassword) receiver.refreshSession l := by
  refine (exchange_holds h).bind ?_
  rintro (e | ⟨token, userId⟩) l₁ hout
  · exact ⟨h, hout e rfl⟩
  dsimp only
  split
  · split
    · exact ⟨h, cleanOutcome_of_texts rfl⟩
    · exact open_holds h
  · exact open_holds h

theorem choose_holds {password : Option Text}
    (h : receiver.client.redactions = urlPassword.toList) :
    CleanRun urlPassword (Settled urlPassword) (receiver.choose password) l := by
  unfold ShareReceiver.choose
  dsimp only
  split
  · exact refreshSession_holds h
  · exact ⟨h, cleanOutcome_of_texts rfl⟩

theorem enter_holds {isStdin : Bool} (h : receiver.client.redactions = urlPassword.toList) :
    CleanRun urlPassword (Settled urlPassword) (receiver.enter isStdin) l := by
  refine ⟨clean_of_texts rfl, fun answer w _ => ?_⟩
  cases answer with
  | none => exact ⟨h, cleanOutcome_of_texts rfl⟩
  | some password => exact choose_holds h

theorem authorize_holds {isPasswordStdin hasPassword : Bool}
    (h : receiver.client.redactions = urlPassword.toList) :
    CleanRun urlPassword (Settled urlPassword)
      (receiver.authorize isPasswordStdin hasPassword) l := by
  unfold ShareReceiver.authorize
  split
  · exact enter_holds h
  split
  · exact choose_holds h
  · split
    · exact enter_holds h
    · exact choose_holds h

theorem ensureSession_holds {isExpired : Bool}
    (h : receiver.client.redactions = urlPassword.toList) :
    CleanRun urlPassword (Settled urlPassword) (receiver.ensureSession isExpired) l := by
  unfold ShareReceiver.ensureSession
  split
  · exact refreshSession_holds h
  · refine ⟨h, cleanOutcome_of_texts ?_⟩
    dsimp only
    split <;> rfl


theorem finish_holds {Q : α → Trace → Prop} {outcome : Outcome} {state : α}
    (h : CleanOutcome urlPassword l outcome) (hq : ∀ l', Q state l') :
    CleanRun urlPassword Q (finish outcome state) l :=
  ⟨h, fun _ _ _ => hq _⟩

def Knows (urlPassword : Option Text) (holder : Holder) (_ : Trace) : Prop :=
  holder.receiver.client.redactions = urlPassword.toList

theorem receiver_holds {run : Receiving} {isHandedOut : Bool}
    (h : CleanRun urlPassword (Settled urlPassword) run l) :
    CleanRun urlPassword (Knows urlPassword) (holder.receive run isHandedOut) l :=
  h.bind fun _ _ hout => finish_holds hout.2 fun _ => hout.1

theorem read_kept {request : ShareRequest} {read : Body → Option Unit} {redactions : List Text}
    {through : Option ShareSession} (h : Knows urlPassword holder l)
    (hc : Through urlPassword client through)
    (hown : ∀ v, v ∈ request.redactions ↔ v ∈ request.sharePwd) :
    CleanRun urlPassword (Knows urlPassword)
      (holder.read (andThen (client.send request through) fun response =>
        .ret ((response.decode redactions read).map fun _ => response.info))) l :=
  (read_holds hc hown).bind fun _ _ hout => finish_holds hout fun _ => h

theorem fetch_kept {request : ShareRequest} {read : Body → Option Unit} {redactions : List Text}
    {through : Option ShareSession} (h : Knows urlPassword holder l)
    (hc : Through urlPassword client through)
    (hown : ∀ v, v ∈ request.redactions ↔ v ∈ request.sharePwd) :
    CleanRun urlPassword (Knows urlPassword)
      (holder.fetch (andThen (client.send request through) fun response =>
        .ret (response.decode redactions read))) l :=
  (fetch_holds hc hown).bind fun _ _ hout => finish_holds hout fun _ => h

theorem through_session : Through urlPassword session.client (some session) := rfl

theorem perform_holds (call : Call) (h : Knows urlPassword holder l) :
    CleanRun urlPassword (Knows urlPassword) (perform holder call) l := by
  cases call with
  | info =>
    have hthrough : Through urlPassword holder.receiver.client none := h
    exact read_kept h hthrough (by simp [ShareRequest.read])
  | authorize isPasswordStdin hasPassword => exact receiver_holds (authorize_holds h)
  | ensureSession isExpired => exact receiver_holds (ensureSession_holds h)
  | listFiles clone =>
    simp only [perform]
    split
    · exact read_kept h through_session (by simp [ShareRequest.read])
    · exact h
  | getFile clone =>
    simp only [perform]
    split
    · exact fetch_kept h through_session (by simp [ShareRequest.read])
    · exact h
  | getFileDownloadUrl clone =>
    simp only [perform]
    split
    · exact fetch_kept h through_session (by simp [ShareRequest.read])
    · exact h

theorem receive_holds (calls : List Call) (h : Knows urlPassword holder l) :
    CleanRun urlPassword (Knows urlPassword) (receive calls holder) l := by
  induction calls generalizing holder l with
  | nil => exact h
  | cons call calls ih => exact (perform_holds call h).bind fun _ _ hout => ih hout

theorem known_secrets_cleaned (urlPassword : Option Text) (maxRetryCount : Nat) (oauth : Bool)
    (calls : List Call) {p : Prog Ask Answer Holder}
    (hr : Runs (receive calls ⟨.new urlPassword maxRetryCount oauth, []⟩) [] p l)
    (hw : Valid Admissible l) (hc : Valid (Careful urlPassword) l) :
    Safe (Clean urlPassword) l := by
  have hknows : Knows urlPassword ⟨.new urlPassword maxRetryCount oauth, []⟩ [] := rfl
  exact ((receive_holds calls hknows).runs hr (hw.and hc) trivial).1

def requestIdHeaders (requestId : Text) : Headers
  | .xRequestId => some requestId
  | _ => none

def successReply (headers : Headers) (token : Option ShareAccessTokenOutput) : Reply :=
  .response ⟨200, headers, .ok ⟨.other, token, true⟩⟩

theorem careful_reply {requestId : Text} {token : Option ShareAccessTokenOutput} {submission : Submission}
    {values : List Text} (hvalues : urlPassword.toList ++ l.filterMap entered ++ l.filterMap issued ++
      (⟨.submit submission, successReply (requestIdHeaders requestId) token, ()⟩ :: l : Trace).filterMap sentOauth =
        values)
    (h : ∀ v ∈ values, v <:+: requestId → submission.Covered urlPassword l v) :
    Careful urlPassword l ⟨.submit submission, successReply (requestIdHeaders requestId) token, ()⟩ := by
  intro v hv
  have hmem : v ∈ values := by
    obtain ⟨-, -, hurl | hentered | hissued | hsent⟩ := hv
    · simp [← hvalues, Option.mem_toList.mpr hurl]
    · have hbefore : v ∈ l.filterMap entered := hentered
      simp only [← hvalues, List.mem_append, hbefore, or_true, true_or]
    · have hbefore : v ∈ l.filterMap issued := hissued
      simp only [← hvalues, List.mem_append, hbefore, or_true, true_or]
    · rw [← hvalues]
      exact List.mem_append_right _ hsent
  refine ⟨fun name value hvalue hinfix => ?_, fun _ _ hfail => ?_⟩
  · cases name with
    | xRequestId =>
      obtain rfl := Option.some.inj hvalue
      exact h v hmem hinfix
    | _ => cases hvalue
  · cases hfail

def passwordExchange : Submission :=
  ⟨⟨.getAccessToken, some ['p', 'w'], .nonReplayable, [['p', 'w'], ['p', 'w']]⟩, none, none, false, false⟩

def renewedSession : ShareSession := ⟨⟨0, [['p', 'w']], false⟩, ['t', '2'], [['p', 'w'], ['p', 'w']]⟩

def listSubmission : Submission :=
  ⟨⟨.list, none, .metadata, [['p', 'w'], ['t', '2'], ['p', 'w'], ['p', 'w']]⟩, some renewedSession, none, false,
    false⟩

def recordedId : Exchange → Option Text
  | ⟨.record requestId, _, _⟩ => requestId
  | _ => none

-- A session is opened, renewed and used; each answer repeats a secret of its request.
theorem known_secrets_cleaned_renewed : ∃ (holder : Holder) (l : Trace),
    Runs (receive [.authorize false false, .ensureSession true, .listFiles 0]
      ⟨.new (some ['p', 'w']) 0 false, []⟩) [] (.ret holder) l ∧
    l.filterMap recordedId = ["3-***".toList, "2-***".toList, "1-***".toList] ∧
    Safe (Clean (some ['p', 'w'])) l := by
  have start : Runs (W := Unit) (receive [.authorize false false, .ensureSession true, .listFiles 0]
      ⟨.new (some ['p', 'w']) 0 false, []⟩) [] (.ask .oauthRedactions _) [] := .refl _ _
  have sent : Runs _ [] (.ask (Ask.submit passwordExchange) _) _ := start.step [] ()
  have recorded : Runs _ [] (.ask (Ask.record _) _) _ :=
    sent.step (successReply (requestIdHeaders "1-pw".toList) (some ⟨['t', '1'], 60⟩)) ()
  have kept : Runs _ [] (.ask (Ask.keep _) _) _ := recorded.step () ()
  have timed : Runs _ [] (.ask (Ask.deadline 60) _) _ := kept.step () ()
  have opened : Runs _ [] (.ask Ask.oauthRedactions _) _ := timed.step true ()
  have finished : Runs _ [] (.ask (Ask.finish .value) _) _ := opened.step [] ()
  have renewed : Runs _ [] (.ask Ask.oauthRedactions _) _ := finished.step () ()
  have again : Runs _ [] (.ask (Ask.submit passwordExchange) _) _ := renewed.step [] ()
  have recorded' : Runs _ [] (.ask (Ask.record _) _) _ :=
    again.step (successReply (requestIdHeaders "2-pw".toList) (some ⟨['t', '2'], 60⟩)) ()
  have kept' : Runs _ [] (.ask (Ask.keep _) _) _ := recorded'.step () ()
  have timed' : Runs _ [] (.ask (Ask.deadline 60) _) _ := kept'.step () ()
  have opened' : Runs _ [] (.ask Ask.oauthRedactions _) _ := timed'.step true ()
  have finished' : Runs _ [] (.ask (Ask.finish .value) _) _ := opened'.step [] ()
  have listed : Runs _ [] (.ask Ask.oauthRedactions _) _ := finished'.step () ()
  have asked : Runs _ [] (.ask (Ask.submit listSubmission) _) _ := listed.step [] ()
  have answered : Runs _ [] (.ask (Ask.record _) _) _ :=
    asked.step (successReply (requestIdHeaders "3-t2".toList) none) ()
  have shown : Runs _ [] (.ask (Ask.keep _) _) _ := answered.step () ()
  have handed : Runs _ [] (.ask (Ask.finish (.info _)) _) _ := shown.step () ()
  have done : Runs _ [] (.ret _) _ := handed.step () ()
  refine ⟨_, _, done, by decide, known_secrets_cleaned (some ['p', 'w']) 0 false _ done ?_ ?_⟩
  · exact ⟨⟨⟨⟨⟨⟨⟨⟨⟨⟨⟨⟨⟨⟨⟨⟨⟨⟨⟨trivial, rfl⟩, trivial⟩, trivial⟩, trivial⟩, trivial⟩, rfl⟩, trivial⟩, rfl⟩, trivial⟩,
      trivial⟩, trivial⟩, trivial⟩, rfl⟩, trivial⟩, rfl⟩, trivial⟩, trivial⟩, trivial⟩, trivial⟩
  · refine ⟨⟨⟨⟨⟨⟨⟨⟨⟨⟨⟨⟨⟨⟨⟨⟨⟨⟨⟨trivial, trivial⟩, ?_⟩, trivial⟩, trivial⟩, trivial⟩, trivial⟩, trivial⟩, trivial⟩, ?_⟩,
      trivial⟩, trivial⟩, trivial⟩, trivial⟩, trivial⟩, trivial⟩, ?_⟩, trivial⟩, trivial⟩, trivial⟩
    · exact careful_reply (show _ = [['p', 'w']] from rfl) (List.forall_mem_singleton.mpr fun _ => .inl rfl)
    · refine careful_reply (show _ = [['p', 'w'], ['t', '1']] from rfl)
        (List.forall_mem_cons.mpr ⟨fun _ => .inl rfl, ?_⟩)
      exact List.forall_mem_singleton.mpr fun hinfix => absurd hinfix (by decide)
    · refine careful_reply (show _ = [['p', 'w'], ['t', '2'], ['t', '1']] from rfl)
        (List.forall_mem_cons.mpr ⟨fun hinfix => absurd hinfix (by decide),
          List.forall_mem_cons.mpr ⟨fun _ => ?_, ?_⟩⟩)
      · exact .inr (.inr (.inr (.inr (.inl List.mem_cons_self))))
      · exact List.forall_mem_singleton.mpr fun hinfix => absurd hinfix (by decide)

def exchangeSubmission : Submission :=
  ⟨⟨.getAccessToken, none, .nonReplayable, []⟩, none, none, false, false⟩

def firstToken : ShareAccessTokenOutput := ⟨['t', '1'], 60⟩

def renewalLog : Trace :=
  [⟨.record (some ['t', '1']), (), ()⟩,
    ⟨.submit exchangeSubmission, successReply (requestIdHeaders ['t', '1']) (some ⟨['t', '2'], 60⟩), ()⟩,
    ⟨.oauthRedactions, [], ()⟩,
    ⟨.finish .value, (), ()⟩,
    ⟨.oauthRedactions, [], ()⟩,
    ⟨.deadline 60, true, ()⟩,
    ⟨.keep fun _ => none, (), ()⟩,
    ⟨.record none, (), ()⟩,
    ⟨.submit exchangeSubmission, successReply (fun _ => none) (some firstToken), ()⟩,
    ⟨.oauthRedactions, [], ()⟩]

-- The exchange which renews the session answers with the expired token as its request id.
theorem expired_token_kept : ¬ ∀ urlPassword maxRetryCount oauth calls p l,
    Runs (receive calls ⟨.new urlPassword maxRetryCount oauth, []⟩) [] p l → Valid Admissible l →
      Safe (Clean urlPassword) l := by
  intro h
  have start : Runs (W := Unit) (receive [.authorize false false, .ensureSession true]
      ⟨.new none 0 false, []⟩) [] (.ask .oauthRedactions _) [] := .refl _ _
  have sent : Runs _ [] (.ask (Ask.submit exchangeSubmission) _) _ := start.step [] ()
  have recorded : Runs _ [] (.ask (Ask.record none) _) _ :=
    sent.step (successReply (fun _ => none) (some firstToken)) ()
  have kept : Runs _ [] (.ask (Ask.keep fun _ => none) _) _ := recorded.step () ()
  have timed : Runs _ [] (.ask (Ask.deadline 60) _) _ := kept.step () ()
  have opened : Runs _ [] (.ask Ask.oauthRedactions _) _ := timed.step true ()
  have finished : Runs _ [] (.ask (Ask.finish .value) _) _ := opened.step [] ()
  have renewed : Runs _ [] (.ask Ask.oauthRedactions _) _ := finished.step () ()
  have again : Runs _ [] (.ask (Ask.submit exchangeSubmission) _) _ := renewed.step [] ()
  have echoed : Runs _ [] (.ask (Ask.record (some ['t', '1'])) _) _ :=
    again.step (successReply (requestIdHeaders ['t', '1']) (some ⟨['t', '2'], 60⟩)) ()
  have hvalid : Valid Admissible renewalLog :=
    ⟨⟨⟨⟨⟨⟨⟨⟨⟨⟨trivial, rfl⟩, trivial⟩, trivial⟩, trivial⟩, trivial⟩, rfl⟩, trivial⟩, rfl⟩, trivial⟩, trivial⟩
  have hsafe : Safe (Clean none) renewalLog := h none 0 false _ _ _ (echoed.step () ()) hvalid
  refine hsafe.2 ['t', '1'] (by simp [Ask.texts]) ['t', '1'] ?_ List.infix_rfl
  exact ⟨by simp, by simp, .inr (.inr (.inl List.mem_cons_self))⟩

end VeStorage.ADrive.ShareAccess
