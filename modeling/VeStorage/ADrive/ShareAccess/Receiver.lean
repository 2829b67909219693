import VeStorage.ADrive.ShareAccess.Transport
import VeStorage.ADrive.ShareUrl.Parse

namespace VeStorage.ADrive.ShareAccess
open Lib Requests
open Share (isControl utf8Len)

def ShareClient.getShareByAnonymous (client : ShareClient) : Run ResponseInfo :=
  andThen (client.send (.read .getByAnonymous) none) fun response =>
    .ret ((response.decode [] fun body => if body.isMetadata then some () else none).map
      fun _ => response.info)

def checkedToken (token : ShareAccessTokenOutput) (error : Error) : Except Error Unit :=
  match ShareUrl.validateRequired token.accessToken "AccessToken" with
  | .error _ => .error .client
  | .ok _ => if token.expiresIn ≤ 0 then .error error else .ok ()

def ShareClient.getAccessTokenWithSubject (client : ShareClient) (sharePwd : Option Text) :
    Run (ShareAccessTokenOutput × Option Text) :=
  andThen (client.send (.mutation .getAccessToken sharePwd) none) fun response =>
    .ret (match response.decode [] Body.token with
      | .error error => .error error
      | .ok token => (checkedToken token .invalidResponse).map
          fun _ => (token, response.oauthUserId))

def isHeaderValue (value : Text) : Bool := value.all fun c => c = '\t' || (' ' ≤ c && c ≠ '\u007f')

def ShareClient.session (client : ShareClient) (token : ShareAccessTokenOutput) :
    Run ShareSession :=
  match checkedToken token .client with
  | .error error => fail error
  | .ok _ =>
    if isHeaderValue token.accessToken then
      .ask .oauthRedactions fun (remembered : List Text) =>
        .ret (.ok {
          client := { client with redactions := client.redactions ++ remembered, oauth := false }
          accessToken := token.accessToken
          redactions := [] })
    else fail .client

def ShareSession.withRedactions (session : ShareSession) (secrets : List Text) : ShareSession :=
  { session with redactions := secrets }

def ShareSession.listFiles (session : ShareSession) : Run ResponseInfo :=
  andThen (session.client.send (.read .list) (some session)) fun response =>
    .ret ((response.decode [session.accessToken] fun body =>
      if body.isMetadata then some () else none).map fun _ => response.info)

def ShareSession.getFile (session : ShareSession) : Run Unit :=
  andThen (session.client.send (.read .get) (some session)) fun response =>
    .ret (response.decode [session.accessToken] fun body =>
      if body.isMetadata then some () else none)

def ShareSession.getFileDownloadUrl (session : ShareSession) : Run Unit :=
  let request := { ShareRequest.read .getDownloadUrl with retryPolicy := .nonReplayable }
  andThen (session.client.send request (some session)) fun response =>
    .ret (response.decode [session.accessToken] fun body =>
      if body.isMetadata then some () else none)

structure ShareReceiver where
  urlPassword : Option Text
  client : ShareClient
  session : Option ShareSession
  password : Option Text
  userId : Option Text

def ShareReceiver.new (urlPassword : Option Text) (maxRetryCount : Nat) (oauth : Bool) :
    ShareReceiver where
  urlPassword := urlPassword
  client := ⟨min maxRetryCount maxShareRetries, urlPassword.toList, oauth⟩
  session := none
  password := none
  userId := none

abbrev Receiving := Prog Ask Answer (ShareReceiver × Except Error Unit)

def ShareReceiver.open (receiver : ShareReceiver) (token : ShareAccessTokenOutput) : Receiving :=
  .ask (.deadline token.expiresIn) fun
    | false => .ret (receiver, .error .client)
    | true => (receiver.client.session token).bind fun
      | .error error => .ret (receiver, .error error)
      | .ok session =>
        let secrets := receiver.password.toList ++ receiver.urlPassword.toList
        .ret ({ receiver with session := some (session.withRedactions secrets) }, .ok ())

def ShareReceiver.refreshSession (receiver : ShareReceiver) : Receiving :=
  (receiver.client.getAccessTokenWithSubject receiver.password).bind fun
    | .error error => .ret (receiver, .error error)
    | .ok (token, userId) =>
      if receiver.client.oauth then
        if receiver.session.isSome ∧ receiver.userId ≠ userId then .ret (receiver, .error .auth)
        else ({ receiver with userId := userId }).open token
      else receiver.open token

def maxPasswordBytes : Nat := 4096

def isPassword (password : Text) : Bool :=
  utf8Len password ≤ maxPasswordBytes && !password.any isControl

def ShareReceiver.choose (receiver : ShareReceiver) (password : Option Text) : Receiving :=
  let receiver := { receiver with password := password }
  if password.all isPassword then receiver.refreshSession else .ret (receiver, .error .client)

def ShareReceiver.enter (receiver : ShareReceiver) (isStdin : Bool) : Receiving :=
  .ask (.enterPassword isStdin) fun
    | none => .ret (receiver, .error .client)
    | some password => receiver.choose (some password)

def ShareReceiver.authorize (receiver : ShareReceiver) (isPasswordStdin hasPassword : Bool) :
    Receiving :=
  if isPasswordStdin then receiver.enter true
  else match receiver.urlPassword with
    | some password => receiver.choose (some password)
    | none => if hasPassword then receiver.enter false else receiver.choose none

-- `isExpired` tells whether the clock has passed the known expiry.
def ShareReceiver.ensureSession (receiver : ShareReceiver) (isExpired : Bool) : Receiving :=
  if receiver.session.isSome && isExpired then receiver.refreshSession
  else .ret (receiver, if receiver.session.isSome then .ok () else .error .client)

-- `clone` counts from the newest of the sessions handed out.
inductive Call
  | info
  | authorize (isPasswordStdin hasPassword : Bool)
  | ensureSession (isExpired : Bool)
  | listFiles (clone : Nat)
  | getFile (clone : Nat)
  | getFileDownloadUrl (clone : Nat)

structure Holder where
  receiver : ShareReceiver
  clones : List ShareSession

def Outcome.ofInfo : Except Error ResponseInfo → Outcome
  | .ok output => .info output
  | .error e => .error e

def Outcome.ofUnit : Except Error Unit → Outcome
  | .ok _ => .value
  | .error e => .error e

def finish {α : Type} (outcome : Outcome) (state : α) : Prog Ask Answer α :=
  .ask (.finish outcome) fun _ => .ret state

def Holder.read (holder : Holder) (run : Run ResponseInfo) : Prog Ask Answer Holder :=
  run.bind fun result => finish (.ofInfo result) holder

def Holder.fetch (holder : Holder) (run : Run Unit) : Prog Ask Answer Holder :=
  run.bind fun result => finish (.ofUnit result) holder

def Holder.receive (holder : Holder) (run : Receiving) (isHandedOut : Bool) :
    Prog Ask Answer Holder :=
  run.bind fun (receiver, result) =>
    let handedOut := match result with
      | .ok _ => if isHandedOut then receiver.session.toList else []
      | .error _ => []
    finish (.ofUnit result) ⟨receiver, handedOut ++ holder.clones⟩

def perform (holder : Holder) : Call → Prog Ask Answer Holder
  | .info => holder.read holder.receiver.client.getShareByAnonymous
  | .authorize isPasswordStdin hasPassword =>
    holder.receive (holder.receiver.authorize isPasswordStdin hasPassword) false
  | .ensureSession isExpired => holder.receive (holder.receiver.ensureSession isExpired) true
  | .listFiles clone => match holder.clones[clone]? with
    | some session => holder.read session.listFiles
    | none => .ret holder
  | .getFile clone => match holder.clones[clone]? with
    | some session => holder.fetch session.getFile
    | none => .ret holder
  | .getFileDownloadUrl clone => match holder.clones[clone]? with
    | some session => holder.fetch session.getFileDownloadUrl
    | none => .ret holder

def receive : List Call → Holder → Prog Ask Answer Holder
  | [], holder => .ret holder
  | call :: calls, holder => (perform holder call).bind (receive calls)

open Lib Requests

abbrev Exchange := Event Unit Ask Answer

abbrev Trace := Log Unit Ask Answer

def memory : Trace → List Text
  | [] => []
  | ⟨.remember values, _, _⟩ :: l => rememberOauthRedactions (memory l) values
  | _ :: l => memory l

-- The one value behind the mutex which all clones of a client share.
def Admissible (l : Trace) : Exchange → Prop
  | ⟨.oauthRedactions, remembered, _⟩ => remembered = memory l
  | _ => True

def entered : Exchange → Option Text
  | ⟨.enterPassword _, password, _⟩ => password
  | _ => none

def issued : Exchange → Option Text
  | ⟨.submit submission, .response raw, _⟩ =>
    if submission.request.path = .getAccessToken ∧ isSuccess raw.status then
      raw.body.toOption.bind fun body => body.token.map ShareAccessTokenOutput.accessToken
    else none
  | _ => none

def sentOauth : Exchange → Option Text
  | ⟨.submit submission, _, _⟩ => submission.oauth
  | _ => none

def beforeRequest : Trace → Trace
  | [] => []
  | ⟨.submit _, _, _⟩ :: l => l
  | _ :: l => beforeRequest l

def Known (urlPassword : Option Text) (l : Trace) (v : Text) : Prop :=
  v ≠ [] ∧ '*' ∉ v ∧ (v ∈ urlPassword ∨ v ∈ l.filterMap entered ∨
    v ∈ (beforeRequest l).filterMap issued ∨ v ∈ l.filterMap sentOauth)

def Headers.values (headers : Headers) : List Text :=
  [HeaderName.xIdsRequestId, .xRequestId, .contentType, .contentLength, .retryAfter].filterMap
    headers

def Outcome.texts : Outcome → List Text
  | .info i => i.requestId :: i.headers.values
  | .error (.server e) => e.code :: e.requestId.toList ++ e.responseHeaders.values
  | _ => []

def Ask.texts : Ask → List Text
  | .record requestId => requestId.toList
  | .keep headers => headers.values
  | .finish outcome => outcome.texts
  | _ => []

def Clean (urlPassword : Option Text) (l : Trace) (r : Ask) : Prop :=
  ∀ text ∈ r.texts, ∀ v, Known urlPassword l v → ¬ v <:+: text

-- The tokens which the call in progress has had rejected.
def rejected : Trace → List Text
  | [] => []
  | ⟨.oauthRedactions, _, _⟩ :: _ => []
  | ⟨.forceRefresh accessToken, _, _⟩ :: l => accessToken :: rejected l
  | _ :: l => rejected l

def Authorized (accessToken v : Text) : Prop :=
  v = accessToken ∨ v = bearer accessToken ∧ isVisible v

-- The secrets at hand for an attempt: those it carries itself, those behind the mutex, the tokens
-- this call has had rejected, and those of its session or of the share address.
def Covered (urlPassword : Option Text) (l : Trace) (sharePwd : Option Text)
    (session : Option ShareSession) (oauth : Option Text) (v : Text) : Prop :=
  v ∈ sharePwd ∨ v ∈ memory l ∨ (∃ t ∈ oauth, Authorized t v) ∨ (∃ t ∈ rejected l, Authorized t v) ∨
    match session with
    | some session => v ∈ session.values ∨ v ∈ session.client.redactions
    | none => v ∈ urlPassword

def Submission.Covered (submission : Submission) (urlPassword : Option Text) (l : Trace) :
    Text → Prop :=
  ShareAccess.Covered urlPassword l submission.request.sharePwd submission.session submission.oauth

-- No further attempt replaces the response.
def Submission.Returned (submission : Submission) (status : Nat) : Prop :=
  ¬ (submission.canRetry ∧ shouldRetryStorageStatus status) ∧
    ¬ (submission.oauth.isSome ∧ submission.isReplay = false ∧ status = 401)

def Accepted (C : Text → Prop) (body : Body) : Prop :=
  ∃ code, errorCode body = some code ∧ isErrorCode code ∧ ∀ u, u ≠ [] → C u → ¬ u <:+: code

def CarefulError (C : Text → Prop) (status : Nat) (body : Body) (v : Text) : Prop :=
  (∀ code, errorCode body = some code → isErrorCode code → v <:+: code → C v) ∧
    (¬ Accepted C body → ¬ v <:+: statusText status)

def Careful (urlPassword : Option Text) (l : Trace) : Exchange → Prop
  | e@⟨.submit submission, .response raw, _⟩ =>
    ∀ v, Known urlPassword (e :: l) v →
      (∀ name value, raw.headers name = some value → v <:+: value →
        submission.Covered urlPassword l v) ∧
      ∀ body, raw.body = .ok body → isSuccess raw.status = false →
        submission.Returned raw.status →
          CarefulError (submission.Covered urlPassword l) raw.status body v
  | _ => True

open Lib Redact
open Token (trimWhitespace)

variable {K C : Text → Prop} {v text id : Text} {redactions extra : List Text} {headers : Headers}
  {response : ShareResponse} {returned : Prop}

def Secret (v : Text) : Prop := v ≠ [] ∧ '*' ∉ v

theorem Secret.disjoint (h : Secret v) : v.Disjoint "***".toList := by
  intro c hv hc
  obtain rfl : c = '*' := by simpa using hc
  exact h.2 hv

theorem infix_of_redactExact (h : Secret v) (hv : v <:+: redactExact text redactions) : v <:+: text :=
  infix_of_redact h.1 (by simp) h.disjoint hv

theorem not_infix_redactExact (h : Secret v) (hc : v <:+: text → v ∈ redactions) :
    ¬ v <:+: redactExact text redactions := fun hv =>
  not_infix_redact h.1 (by simp) h.disjoint (hc (infix_of_redactExact h hv)) hv

theorem infix_of_trimWhitespace (text : Text) : trimWhitespace text <:+: text :=
  (List.rdropWhile_prefix _ _).isInfix.trans (List.dropWhile_suffix _).isInfix

theorem infix_of_sanitizeRequestId (h : sanitizeRequestId text = some id) : id <:+: text := by
  simp only [sanitizeRequestId] at h
  split at h
  · obtain rfl := Option.some.inj h
    exact infix_of_trimWhitespace text
  · cases h

def Absent (headers : Headers) (v : Text) : Prop :=
  ∀ name value, headers name = some value → ¬ v <:+: value

theorem shareRequestId_absent (h : Absent (safeResponseHeaders headers redactions) v)
    (hid : shareRequestId headers redactions = some id) : ¬ v <:+: id := by
  obtain ⟨name, -, hname⟩ := List.exists_of_findSome?_eq_some hid
  obtain ⟨value, hvalue, hsome⟩ := Option.bind_eq_some_iff.mp hname
  exact fun hv => h name _ (by rw [safeResponseHeaders, hvalue, Option.map_some])
    (hv.trans (infix_of_sanitizeRequestId hsome))

theorem safeResponseHeaders_absent (h : Secret v)
    (hc : ∀ name value, headers name = some value → v <:+: value → v ∈ redactions) :
    Absent (safeResponseHeaders headers redactions) v := by
  intro name value hname
  obtain ⟨raw, hraw, rfl⟩ := Option.map_eq_some_iff.mp hname
  exact not_infix_redactExact h (hc name raw hraw)

theorem Absent.again (h : Secret v) (ha : Absent headers v) :
    Absent (safeResponseHeaders headers redactions) v :=
  safeResponseHeaders_absent h fun name value hname hv => absurd hv (ha name value hname)

theorem Absent.values (h : Absent headers v) : ∀ text ∈ headers.values, ¬ v <:+: text := by
  intro text htext
  obtain ⟨name, -, hname⟩ := List.mem_filterMap.mp htext
  exact h name text hname

theorem star_not_errorCode (h : isErrorCode text) : '*' ∉ text := by
  intro hstar
  simp only [isErrorCode, Bool.and_eq_true, List.all_eq_true] at h
  exact absurd (h.2 _ hstar) (by decide)

-- What is known of a response which was read with its cleaning list.
structure Received (K C : Text → Prop) (returned : Prop) (response : ShareResponse) : Prop where
  secret : ∀ v, K v → Secret v
  headers : ∀ v, K v → Absent response.headers v
  values : ∀ v, v ≠ [] → (v ∈ response.redactions ↔ C v)
  code : returned → isSuccess response.status = false →
    ∀ v, K v → CarefulError C response.status response.body v

theorem info_absent (hv : Secret v) (h : Absent response.headers v) :
    ∀ text ∈ (Outcome.info response.info).texts, ¬ v <:+: text := by
  intro text htext
  rcases List.mem_cons.mp htext with rfl | htext
  · intro hinfix
    cases hid : shareRequestId response.headers [] with
    | none =>
      rw [ShareResponse.info, hid, Option.getD_none, List.infix_nil] at hinfix
      exact hv.1 hinfix
    | some id =>
      rw [ShareResponse.info, hid, Option.getD_some] at hinfix
      exact shareRequestId_absent (h.again hv) hid hinfix
  · exact h.values text htext

theorem reported_code (hv : Secret v) (hlist : ∀ u, u ≠ [] → (u ∈ redactions ↔ C u))
    (hcode : CarefulError C response.status response.body v) :
    ¬ v <:+: (((errorCode response.body).map fun code => redactExact code redactions).filter
      isErrorCode).getD (statusText response.status) := by
  by_cases haccepted : Accepted C response.body
  · obtain ⟨code, hfound, hplain, hfree⟩ := haccepted
    have hself : redactExact code redactions = code :=
      redact_eq_self fun u hu hne => hfree u hne ((hlist u hne).mp hu)
    rw [hfound, Option.map_some, hself, Option.filter_some_pos hplain, Option.getD_some]
    exact fun hinfix => hfree v hv.1 (hcode.1 code hfound hplain hinfix) hinfix
  · cases hfound : errorCode response.body with
    | none => exact hcode.2 haccepted
    | some code =>
      rw [Option.map_some]
      by_cases hplain : isErrorCode (redactExact code redactions)
      · have hself : redactExact code redactions = code :=
          redact_eq_self_of_not_mem (by simp) (star_not_errorCode hplain)
        rw [Option.filter_some_pos hplain, Option.getD_some]
        refine not_infix_redactExact hv fun hinfix => (hlist v hv.1).mpr ?_
        exact hcode.1 code hfound (hself ▸ hplain) hinfix
      · rw [Option.filter_some_neg (by simpa using hplain)]
        exact hcode.2 haccepted

theorem Received.checkStatus (h : Received K C True response)
    (hextra : ∀ u ∈ extra, u ≠ [] → C u) {error : Error}
    (he : response.checkStatus extra = .error error) (hv : K v) :
    ∀ text ∈ (Outcome.error error).texts, ¬ v <:+: text := by
  have hlist : ∀ u, u ≠ [] → (u ∈ response.redactions ++ extra ↔ C u) := by
    intro u hu
    rw [List.mem_append, h.values u hu]
    exact ⟨fun hor => hor.elim id fun hm => hextra u hm hu, .inl⟩
  unfold ShareResponse.checkStatus at he
  split at he
  · cases he
  rename_i hfail
  obtain rfl := Except.error.inj he
  intro text htext
  simp only [Outcome.texts, List.mem_cons, List.mem_append, Option.mem_toList] at htext
  rcases htext with (rfl | hid) | hvalue
  · exact reported_code (h.secret v hv) hlist (h.code trivial (by simpa using hfail) v hv)
  · exact shareRequestId_absent ((h.headers v hv).again (h.secret v hv)) hid
  · exact (h.headers v hv).values text hvalue

end VeStorage.ADrive.ShareAccess
