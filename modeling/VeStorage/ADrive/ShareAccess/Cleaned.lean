import VeStorage.ADrive.ShareAccess.Receiver

namespace VeStorage.ADrive.ShareAccess
open Lib Requests

variable {α β : Type} {urlPassword : Option Text} {l l' : Trace} {v : Text} {r : Ask}
  {sharePwd oauth userId : Option Text} {session : Option ShareSession} {redactions : List Text}
  {request : ShareRequest} {client : ShareClient} {submission : Submission}

abbrev CleanRun (urlPassword : Option Text) (Q : α → Trace → Prop) (run : Prog Ask Answer α)
    (l : Trace) : Prop :=
  Holds (fun l e => Admissible l e ∧ Careful urlPassword l e) (Clean urlPassword) Q run l

theorem clean_of_texts (h : r.texts = []) : Clean urlPassword l r := by
  intro text htext
  rw [h] at htext
  exact absurd htext List.not_mem_nil

theorem known_secret (h : Known urlPassword l v) : Secret v := ⟨h.1, h.2.1⟩

theorem covered_congr (hm : memory l' = memory l) (hr : rejected l' = rejected l) :
    Covered urlPassword l' sharePwd session oauth = Covered urlPassword l sharePwd session oauth := by
  unfold Covered
  rw [hm, hr]

-- The cleaning list of a request holds what is at hand before an account token is added.
def Carries (urlPassword : Option Text) (request : ShareRequest) (session : Option ShareSession)
    (l : Trace) : Prop :=
  ∀ v, v ≠ [] → (v ∈ request.redactions ↔ Covered urlPassword l request.sharePwd session none v)

theorem Carries.congr (h : Carries urlPassword request session l) (hm : memory l' = memory l)
    (hr : rejected l' = rejected l) : Carries urlPassword request session l' := by
  unfold Carries
  rw [covered_congr hm hr]
  exact h

theorem covered_oauth {t : Text} : Covered urlPassword l sharePwd session (some t) v ↔
    Authorized t v ∨ Covered urlPassword l sharePwd session none v := by
  simp only [Covered, Option.mem_def, Option.some.injEq, exists_eq_left', reduceCtorEq, false_and,
    exists_false, false_or]
  rw [or_left_comm (a := v ∈ memory l), or_left_comm]

theorem submit_holds (hlist : ∀ v, v ≠ [] →
    (v ∈ redactions ↔ submission.Covered urlPassword l v)) :
    CleanRun urlPassword (fun out l' => memory l' = memory l ∧ rejected l' = rejected l ∧
      match out with
      | .ok response => Received (Known urlPassword l') (submission.Covered urlPassword l)
          (submission.Returned response.status) response
      | .error error => (Outcome.error error).texts = [])
      (submit submission redactions userId) l := by
  refine ⟨clean_of_texts rfl, fun reply w hv => ?_⟩
  cases reply with
  | noResponse isRetryable => exact ⟨rfl, rfl, rfl⟩
  | response raw =>
    have hcareful := hv.2
    have habsent : ∀ v, Known urlPassword (⟨.submit submission, .response raw, w⟩ :: l) v →
        Absent (safeResponseHeaders raw.headers redactions) v := fun v hknown =>
      safeResponseHeaders_absent (known_secret hknown) fun name value hname hinfix =>
        (hlist v hknown.1).mpr ((hcareful v hknown).1 name value hname hinfix)
    refine ⟨?_, fun _ w₁ _ => ?_⟩
    · intro id hid v hknown
      exact shareRequestId_absent (habsent v hknown) (by simpa [Ask.texts] using hid)
    unfold ShareResponse.read
    cases hbody : raw.body with
    | error failure =>
      refine ⟨rfl, rfl, ?_⟩
      cases failure <;> rfl
    | ok body =>
      refine ⟨?_, fun _ w₂ _ => ⟨rfl, rfl, ?_⟩⟩
      · intro text htext v hknown
        exact (habsent v hknown).values text htext
      · exact {
          secret := fun v hknown => known_secret hknown
          headers := habsent
          values := hlist
          code := fun hreturned hfail v hknown =>
            (hcareful v hknown).2 body hbody hfail hreturned }

theorem andThen_holds {Q : Except Error β → Trace → Prop} {run : Run α} {next : α → Run β}
    (h : CleanRun urlPassword (fun out l' => match out with
      | .ok value => CleanRun urlPassword Q (next value) l'
      | .error error => Q (.error error) l') run l) :
    CleanRun urlPassword Q (andThen run next) l := by
  refine h.bind fun out l' hout => ?_
  cases out with
  | ok value => exact hout
  | error error => exact hout

theorem withRetries_holds {I : Trace → Prop} {P : Bool → α → Trace → Prop} {E : Error → Prop}
    {policy : ShareRetryPolicy} {status : α → Nat} {once : Bool → Run α}
    (honce : ∀ b l, I l → CleanRun urlPassword (fun out l' => I l' ∧ match out with
      | .ok a => P b a l'
      | .error e => E e) (once b) l) (retries : Nat) (hi : I l) :
    CleanRun urlPassword (fun out l' => I l' ∧ match out with
      | .ok a => ∃ b, P b a l' ∧ ¬ (b = true ∧ shouldRetryStorageStatus (status a))
      | .error e => E e) (withRetries policy status once retries) l := by
  induction retries generalizing l with
  | zero =>
    refine (honce false l hi).mono ?_
    rintro (e | a) l' ⟨hi', hout⟩
    · exact ⟨hi', hout⟩
    · exact ⟨hi', false, hout, by simp⟩
  | succ retries ih =>
    refine (honce _ l hi).bind ?_
    rintro (e | a) l' ⟨hi', hout⟩
    · dsimp only
      split
      · exact ih hi'
      · exact ⟨hi', hout⟩
    · dsimp only
      split
      · exact ih hi'
      · rename_i hstop
        exact ⟨hi', _, hout, by simpa using hstop⟩

theorem Received.returned {K C : Text → Prop} {returned : Prop} {response : ShareResponse}
    (h : Received K C returned response) (hr : returned) : Received K C True response :=
  { h with code := fun _ => h.code hr }

def CleanOutcome (urlPassword : Option Text) (l : Trace) (outcome : Outcome) : Prop :=
  ∀ text ∈ outcome.texts, ∀ v, Known urlPassword l v → ¬ v <:+: text

-- What a request has to offer once its loops have ended.
def Sent (urlPassword : Option Text) (out : Except Error ShareResponse) (l : Trace) : Prop :=
  match out with
  | .ok response => isSuccess response.status = true ∧
      ∀ v, Known urlPassword l v → Absent response.headers v
  | .error error => CleanOutcome urlPassword l (.error error)

theorem cleanOutcome_of_texts {outcome : Outcome} (h : outcome.texts = []) :
    CleanOutcome urlPassword l outcome := by
  intro text htext
  rw [h] at htext
  exact absurd htext List.not_mem_nil

theorem checked_holds {C : Text → Prop} {response : ShareResponse}
    (h : Received (Known urlPassword l) C True response)
    (hextra : ∀ u ∈ redactions, u ≠ [] → C u) :
    CleanRun urlPassword (Sent urlPassword) (checked response redactions) l := by
  unfold checked
  cases hcheck : response.checkStatus redactions with
  | error error => exact fun text htext v hv => h.checkStatus hextra hcheck hv text htext
  | ok u =>
    refine ⟨?_, h.headers⟩
    unfold ShareResponse.checkStatus at hcheck
    split at hcheck
    · assumption
    · cases hcheck

theorem sendWithRetries_holds (h : Carries urlPassword request session l) :
    CleanRun urlPassword (Sent urlPassword) (client.sendWithRetries request session) l := by
  refine andThen_holds ((withRetries_holds (I := fun l' => Carries urlPassword request session l')
    (P := fun b response l' => Received (Known urlPassword l')
      (Covered urlPassword l' request.sharePwd session none)
      (Submission.Returned ⟨request, session, none, b, false⟩ response.status) response)
    (E := fun e => (Outcome.error e).texts = []) ?_ _ h).mono ?_)
  · intro b l₁ h₁
    have hlist : ∀ v, v ≠ [] → (v ∈ request.redactions ↔
        Submission.Covered ⟨request, session, none, b, false⟩ urlPassword l₁ v) := h₁
    refine (submit_holds hlist).mono ?_
    rintro (e | response) l₂ ⟨hm, hr, hout⟩
    · exact ⟨h₁.congr hm hr, hout⟩
    · refine ⟨h₁.congr hm hr, ?_⟩
      rw [covered_congr hm hr]
      exact hout
  · rintro (e | response) l₁ ⟨h₁, hout⟩
    · exact cleanOutcome_of_texts hout
    · obtain ⟨b, hgot, hstop⟩ := hout
      refine checked_holds (hgot.returned ⟨hstop, by simp⟩) fun u hu hne => (h₁ u hne).mp hu

theorem mem_appliedRedactions {t : Text} (hv : v ≠ []) :
    v ∈ appliedRedactions t request ↔ Authorized t v ∨ v ∈ request.redactions := by
  simp only [appliedRedactions, List.mem_append, List.mem_filter, List.mem_singleton, Authorized]
  constructor
  · rintro ((⟨rfl, -⟩ | hm) | ⟨rfl, hb⟩)
    · exact .inl (.inl rfl)
    · exact .inr hm
    · exact .inl (.inr ⟨rfl, hb⟩)
  · rintro ((rfl | ⟨rfl, hb⟩) | hm)
    · exact .inl (.inl ⟨rfl, by simpa using hv⟩)
    · exact .inr ⟨rfl, hb⟩
    · exact .inl (.inr hm)

-- The answer of one round of attempts with an account token.
def Attempted (urlPassword : Option Text) (request : ShareRequest) (isReplay : Bool)
    (out : Except Error ShareAttempt) (l : Trace) : Prop :=
  Carries urlPassword request none l ∧ match out with
    | .ok attempt => Received (Known urlPassword l)
        (Covered urlPassword l request.sharePwd none (some attempt.oauthAccessToken))
        (isReplay = false → attempt.response.status ≠ 401) attempt.response
    | .error error => (Outcome.error error).texts = []

theorem shareSendRetries_holds {isReplay : Bool} (h : Carries urlPassword request none l) :
    CleanRun urlPassword (Attempted urlPassword request isReplay)
      (client.shareSendRetries request isReplay) l := by
  refine (withRetries_holds (I := fun l' => Carries urlPassword request none l')
    (P := fun b attempt l' => Received (Known urlPassword l')
      (Covered urlPassword l' request.sharePwd none (some attempt.oauthAccessToken))
      (Submission.Returned ⟨request, none, some attempt.oauthAccessToken, b, isReplay⟩
        attempt.response.status) attempt.response)
    (E := fun e => (Outcome.error e).texts = []) ?_ _ h).mono ?_
  · intro b l₁ h₁
    refine ⟨clean_of_texts rfl, fun answer w _ => ?_⟩
    cases answer with
    | none => exact ⟨h₁, rfl⟩
    | some credential =>
      obtain ⟨t, userId⟩ := credential
      refine andThen_holds ((submit_holds fun v hv => ?_).mono ?_)
      · rw [mem_appliedRedactions hv, h₁ v hv]
        exact covered_oauth.symm
      · rintro (e | response) l₂ ⟨hm, hr, hout⟩
        · exact ⟨h₁.congr hm hr, hout⟩
        · refine ⟨h₁.congr hm hr, ?_⟩
          dsimp only
          rw [covered_congr hm hr]
          exact hout
  · rintro (e | attempt) l₁ ⟨h₁, hout⟩
    · exact ⟨h₁, hout⟩
    · obtain ⟨b, hgot, hstop⟩ := hout
      exact ⟨h₁, { hgot with
        code := fun hreplay => hgot.code ⟨hstop, fun hfirst => hreplay hfirst.2.1 hfirst.2.2⟩ }⟩

theorem shareSend_holds (h : Carries urlPassword request none l) :
    CleanRun urlPassword (fun out l' => match out with
      | .ok response => ∃ C, Received (Known urlPassword l') C True response
      | .error error => (Outcome.error error).texts = []) (client.shareSend request) l := by
  refine andThen_holds ((shareSendRetries_holds h).mono ?_)
  rintro (e | first) l₁ ⟨h₁, hout⟩
  · exact hout
  dsimp only
  split
  · rename_i hstatus
    exact ⟨_, hout.returned fun _ => hstatus⟩
  refine ⟨clean_of_texts rfl, fun answer w _ => ?_⟩
  cases answer with
  | false => rfl
  | true =>
    refine andThen_holds ((shareSendRetries_holds fun v hv => ?_).mono ?_)
    · rw [ShareRequest.extend, List.mem_append, h₁ v hv, hout.values v hv, covered_oauth]
      simp only [Covered, rejected, memory, List.mem_cons, exists_eq_or_imp]
      generalize (∃ t ∈ rejected l₁, Authorized t v) = earlier
      tauto
    · rintro (e | attempt) l₂ ⟨-, hlast⟩
      · exact hlast
      · exact ⟨_, hlast.returned nofun⟩

-- The client a request goes through: the session's own, or one which knows the address.
def Through (urlPassword : Option Text) (client : ShareClient) : Option ShareSession → Prop
  | some session => client = session.client
  | none => client.redactions = urlPassword.toList

theorem extend_carries (hc : Through urlPassword client session)
    (hown : ∀ v, v ∈ request.redactions ↔ v ∈ request.sharePwd) (hr : rejected l = []) :
    Carries urlPassword (request.extend (client.redactions ++ memory l ++
      (session.map ShareSession.values).getD [])) session l := by
  intro v _
  simp only [ShareRequest.extend, List.mem_append, hown v, Covered, hr]
  cases session with
  | none =>
    rw [Through] at hc
    simp [hc, or_comm]
  | some session =>
    obtain rfl := hc
    simp only [Option.map_some, Option.getD_some]
    have hnone : ∀ {p : Text → Prop}, ¬ ∃ t ∈ (none : Option Text), p t := by simp
    have hnil : ∀ {p : Text → Prop}, ¬ ∃ t ∈ ([] : List Text), p t := by simp
    simp only [hnone, hnil, false_or]
    tauto

theorem send_holds (hc : Through urlPassword client session)
    (hown : ∀ v, v ∈ request.redactions ↔ v ∈ request.sharePwd) :
    CleanRun urlPassword (Sent urlPassword) (client.send request session) l := by
  refine ⟨clean_of_texts rfl, fun remembered w hv => ?_⟩
  obtain rfl : remembered = memory l := hv.1
  have hcarries : Carries urlPassword (request.extend (client.redactions ++ memory l ++
      (session.map ShareSession.values).getD [])) session (⟨.oauthRedactions, memory l, w⟩ :: l) :=
    extend_carries (l := ⟨.oauthRedactions, memory l, w⟩ :: l) hc hown rfl
  dsimp only
  split
  · rename_i hoauth
    obtain rfl : session = none := by simpa using (Bool.and_eq_true_iff.mp hoauth).1
    refine andThen_holds ((shareSend_holds hcarries).mono ?_)
    rintro (e | response) l₁ hout
    · exact cleanOutcome_of_texts hout
    · obtain ⟨C, hgot⟩ := hout
      refine ⟨clean_of_texts rfl, fun _ w₁ _ => checked_holds (C := C) ?_ (by simp)⟩
      exact hgot
  · exact sendWithRetries_holds hcarries

theorem decode_texts {response : ShareResponse} {read : Body → Option α} {error : Error}
    (h : isSuccess response.status = true) (he : response.decode redactions read = .error error) :
    (Outcome.error error).texts = [] := by
  unfold ShareResponse.decode ShareResponse.checkStatus at he
  rw [if_pos h] at he
  dsimp only at he
  split at he
  · cases he
  · obtain rfl := Except.error.inj he
    rfl

theorem read_holds {read : Body → Option Unit} (hc : Through urlPassword client session)
    (hown : ∀ v, v ∈ request.redactions ↔ v ∈ request.sharePwd) :
    CleanRun urlPassword (fun out l' => CleanOutcome urlPassword l' (.ofInfo out))
      (andThen (client.send request session) fun response =>
        .ret ((response.decode redactions read).map fun _ => response.info)) l := by
  refine andThen_holds ((send_holds hc hown).mono ?_)
  rintro (e | response) l₁ hout
  · exact hout
  obtain ⟨hok, habsent⟩ := hout
  dsimp only
  cases hdecode : response.decode redactions read with
  | error error => exact cleanOutcome_of_texts (decode_texts hok hdecode)
  | ok u => exact fun text htext v hv => info_absent (known_secret hv) (habsent v hv) text htext

theorem fetch_holds {read : Body → Option Unit} (hc : Through urlPassword client session)
    (hown : ∀ v, v ∈ request.redactions ↔ v ∈ request.sharePwd) :
    CleanRun urlPassword (fun out l' => CleanOutcome urlPassword l' (.ofUnit out))
      (andThen (client.send request session) fun response =>
        .ret (response.decode redactions read)) l := by
  refine andThen_holds ((send_holds hc hown).mono ?_)
  rintro (e | response) l₁ hout
  · exact hout
  dsimp only
  cases hdecode : response.decode redactions read with
  | error error => exact cleanOutcome_of_texts (decode_texts hout.1 hdecode)
  | ok u => exact cleanOutcome_of_texts rfl

end VeStorage.ADrive.ShareAccess
