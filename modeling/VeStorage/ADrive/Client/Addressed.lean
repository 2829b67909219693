import VeStorage.ADrive.Client.Verified

namespace VeStorage.ADrive.Client
open Lib Percent
open Lib.Url (slash question pathCode)

def Sent.Authorized (sent : Sent) : Prop :=
  match sent.authorization with
  | .signature canonical => Verified sent.url sent.headers canonical
  | .bearer accepted => ∀ inst, sent.url.inst = some inst → accepted = some inst

structure Reaches (client : IdsClient) (now : Timestamp) (request : Request) : Prop where
  segments : (client.url request).segments = request.target.segments
  pairs : (client.url request).pairs = (request.query.map Query.pairs).getD []
  authorized : ∀ sent, sendOnce client now request = .ok sent →
    sent.url = client.url request ∧ sent.Authorized

def SameRequest (client : IdsClient) (a b : Request) : Prop :=
  a.target.call.method = b.target.call.method ∧ (client.url a).path = (client.url b).path

instance (client : IdsClient) (a b : Request) : Decidable (SameRequest client a b) :=
  inferInstanceAs (Decidable (_ ∧ _))

structure PlainRequest (client : IdsClient) (request : Request) : Prop where
  target : PlainTarget client.endpoint request.target
  visible : ∀ token payloadHash, client.auth = .aksk token payloadHash →
    CallerVisible request.headers token

-- Operations on a whole file share their method with operations that end in a word.
def Operation.Hides : Operation → Operation → Prop
  | .putFile, .renameFile | .putFile, .copyFile | .putFile, .initiateMultipartUpload
  | .putFile, .completeMultipartUpload | .deleteFile, .abortMultipartUpload => True
  | _, _ => False

def Shadowed (a b : Target) : Prop :=
  a.operation.Hides b.operation ∧ a.inst = b.inst ∧ a.space = b.space ∧ a.path = b.name

section Auth

variable {client : IdsClient} {now : Timestamp} {request : Request}

theorem url_inst (h : PlainTarget client.endpoint request.target) {inst : Bytes}
    (hi : (client.url request).inst = some inst) : request.target.inst = inst ∧ inst ≠ [] := by
  have hsegments : (client.url request).segments = request.target.segments := segments_iff.mpr h
  simp only [Url.inst, hsegments, Target.segments, List.cons_append] at hi
  split at hi
  next hne => exact ⟨Option.some.inj hi, Option.some.inj hi ▸ hne.2.2⟩
  next => cases hi

theorem requestInstanceId_call {target : Target} (hslash : slash ∉ target.inst)
    (hne : target.inst ≠ []) (query : Option Query) :
    requestInstanceId target.call.path query = some target.inst := by
  have hwords : ascii "/v1/instances/" =
      slash :: (ascii "v1" ++ slash :: (ascii "instances" ++ [slash])) := by decide
  have hsplit : target.call.path = ascii "/v1/instances/" ++ (target.inst ++ slash ::
      (ascii "spaces" ++ slash :: (target.space ++ slash ::
        (target.operation.collection ++ slash :: target.name)))) := by
    rw [call_path, hwords]
    simp only [List.cons_append, List.append_assoc, List.nil_append]
  rw [requestInstanceId, hsplit, stripPrefix_append, Option.bind_some, splitOnce_append hslash,
    if_neg hne]
  rfl

theorem oauth_authorized (h : PlainTarget client.endpoint request.target) {stored : Option Bytes}
    {headers : HeaderMap} {sent : Sent}
    (hs : applyOAuth stored request.target.call request.query (client.url request) headers = .ok sent) :
    sent.url = client.url request ∧ sent.Authorized := by
  have hsent : sent = ⟨request.target.call.method, client.url request, headers,
      .bearer (requestInstanceId request.target.call.path request.query)⟩ := by
    unfold applyOAuth at hs
    cases ha : requestInstanceId request.target.call.path request.query with
    | none =>
      rw [ha] at hs
      exact (Except.ok.inj hs).symm
    | some inst =>
      rw [ha] at hs
      simp only [validateInstance] at hs
      split at hs
      next => cases hs
      next => exact (Except.ok.inj hs).symm
  subst hsent
  refine ⟨rfl, fun inst hinst => ?_⟩
  obtain ⟨rfl, hne⟩ := url_inst h hinst
  exact requestInstanceId_call h.inst hne request.query

theorem aksk_verified (h : PlainTarget client.endpoint request.target) (token : Option HeaderValue)
    (payloadHash : Bytes) :
    (applyAkskAuth token now payloadHash request.target.call (client.url request)
      (client.headers request)).Authorized ↔ CallerVisible request.headers token := by
  have hpath : question ∉ (client.url request).origin ++
      (client.url request).path.flatMap (slash :: ·) := by
    refine List.not_mem_append ?_ (question_not_mem_path h request.query)
    have horigin : (client.url request).origin = client.endpoint.origin := by
      unfold IdsClient.url requestUrl
      split <;> rfl
    exact horigin ▸ client.endpoint.question_not_mem
  have hhost : (hostName, client.host) ∈
      (akskHeaders token now (client.headers request)).entries := host_mem_akskHeaders
  have hheaders := canonicalRequest_headers request.target.call.method (client.url request).asStr
    request.target.call.path now.value.bytes payloadHash ⟨client.host, hhost⟩
    ⟨now.value, date_mem_akskHeaders⟩
  have hvisible : (∀ entry ∈ (akskHeaders token now (client.headers request)).entries,
      shouldSignHeader entry.1.bytes → entry.2.Visible) ↔ CallerVisible request.headers token :=
    akskHeaders_visible
  rw [← hvisible, ← signed_received]
  constructor
  · intro hverified header hheader
    refine hverified.headers header ?_
    rw [hheaders]
    exact List.mem_mergeSort.mpr hheader
  · intro hreceived
    refine ⟨encodePath_call h request.query, ?_, fun header hheader => ?_⟩
    · exact canonicalQuery_asStr hpath fun q hq => hash_not_mem_query hq
    · rw [hheaders, List.mem_mergeSort] at hheader
      exact hreceived header hheader

theorem reaches_iff (client : IdsClient) (now : Timestamp) (request : Request) :
    Reaches client now request ↔ PlainRequest client request := by
  constructor
  · intro h
    have htarget : PlainTarget client.endpoint request.target := segments_iff.mp h.segments
    refine ⟨htarget, fun token payloadHash hauth => ?_⟩
    have hsent := h.authorized (applyAkskAuth token now payloadHash request.target.call
      (client.url request) (client.headers request)) (by simp [sendOnce, hauth])
    exact (aksk_verified htarget token payloadHash).mp hsent.2
  · intro h
    refine ⟨segments_iff.mpr h.target, requestUrl_pairs _ _ _, fun sent hsent => ?_⟩
    unfold sendOnce at hsent
    cases hauth : client.auth with
    | aksk token payloadHash =>
      simp only [hauth] at hsent
      cases hsent
      exact ⟨rfl, (aksk_verified h.target token payloadHash).mpr (h.visible token payloadHash hauth)⟩
    | oauth stored =>
      simp only [hauth] at hsent
      exact oauth_authorized h.target hsent

end Auth

section Pairs

def Operation.method (operation : Operation) : Method := (operation.call [] [] []).method

instance (x y : Operation) : Decidable (x.Hides y) := by
  unfold Operation.Hides
  split <;> infer_instance

def Operation.all : List Operation :=
  [.putFile, .getFile, .headFile, .deleteFile, .renameFile, .copyFile, .initiateMultipartUpload,
    .uploadPart, .completeMultipartUpload, .abortMultipartUpload, .deleteFolder, .renameFolder]

theorem Operation.mem_all (operation : Operation) : operation ∈ Operation.all := by
  cases operation <;> decide

theorem hides_suffix : ∀ x ∈ Operation.all, ∀ y ∈ Operation.all, x.Hides y →
    x.suffix = [] ∧ x.method = y.method ∧ x.collection = y.collection := by decide

-- Words of two operations with one method do not end in each other.
theorem suffix_cases : ∀ x ∈ Operation.all, ∀ y ∈ Operation.all, x.method = y.method →
    x.collection = y.collection →
      x = y ∨ x.Hides y ∨ y.Hides x ∨ ¬ x.suffix <:+ y.suffix ∧ ¬ y.suffix <:+ x.suffix := by decide

variable {client : IdsClient} {now : Timestamp} {a b : Request} {x y : Target}

theorem call_method (target : Target) : target.call.method = target.operation.method := by
  obtain ⟨operation, inst, space, path⟩ := target
  cases operation <;> rfl

theorem segments_eq_iff : x.segments = y.segments ↔
    x.inst = y.inst ∧ x.space = y.space ∧ x.operation.collection = y.operation.collection ∧
      x.name = y.name := by
  constructor
  · intro h
    simp only [Target.segments, List.cons_append, List.nil_append, List.cons.injEq] at h
    obtain ⟨-, -, hinst, -, hspace, hcollection, hname⟩ := h
    have hjoin := congrArg (join slash) hname
    rw [join_splitOn, join_splitOn] at hjoin
    exact ⟨hinst, hspace, hcollection, hjoin⟩
  · rintro ⟨hinst, hspace, hcollection, hname⟩
    rw [Target.segments, Target.segments, hinst, hspace, hcollection, hname]

theorem shadowed_segments (h : Shadowed x y) :
    x.operation.method = y.operation.method ∧ x.segments = y.segments := by
  obtain ⟨hhides, hinst, hspace, hpath⟩ := h
  obtain ⟨hsuffix, hmethod, hcollection⟩ :=
    hides_suffix _ (Operation.mem_all _) _ (Operation.mem_all _) hhides
  refine ⟨hmethod, segments_eq_iff.mpr ⟨hinst, hspace, hcollection, ?_⟩⟩
  rw [Target.name, hsuffix, List.append_nil, hpath]

theorem shadowed_of_segments (hne : x ≠ y) (hmethod : x.operation.method = y.operation.method)
    (h : x.segments = y.segments) : Shadowed x y ∨ Shadowed y x := by
  obtain ⟨hinst, hspace, hcollection, hname⟩ := segments_eq_iff.mp h
  rcases suffix_cases _ (Operation.mem_all _) _ (Operation.mem_all _) hmethod hcollection with
    hop | hhides | hhides | ⟨hx, hy⟩
  · obtain ⟨operation, inst, space, path⟩ := x
    obtain ⟨operation', inst', space', path'⟩ := y
    cases hop
    cases hinst
    cases hspace
    exact absurd (congrArg (Target.mk operation inst space) (List.append_cancel_right hname)) hne
  · have hsuffix := (hides_suffix _ (Operation.mem_all _) _ (Operation.mem_all _) hhides).1
    refine .inl ⟨hhides, hinst, hspace, ?_⟩
    rw [← hname, Target.name, hsuffix, List.append_nil]
  · have hsuffix := (hides_suffix _ (Operation.mem_all _) _ (Operation.mem_all _) hhides).1
    refine .inr ⟨hhides, hinst.symm, hspace.symm, ?_⟩
    rw [hname, Target.name, hsuffix, List.append_nil]
  · have hends : x.operation.suffix <:+ y.operation.suffix ∨
        y.operation.suffix <:+ x.operation.suffix :=
      List.suffix_or_suffix_of_suffix (List.suffix_append x.path _)
        (show y.operation.suffix <:+ x.name from hname ▸ List.suffix_append y.path _)
    rcases hends with he | he
    · exact absurd he hx
    · exact absurd he hy

theorem sameRequest_iff (ha : PlainTarget client.endpoint a.target)
    (hb : PlainTarget client.endpoint b.target) :
    SameRequest client a b ↔
      a.target.operation.method = b.target.operation.method ∧
        a.target.segments = b.target.segments := by
  have hpaths : (client.url a).path = a.target.segments.map pathCode.encode := ha.path a.query
  have hpathsB : (client.url b).path = b.target.segments.map pathCode.encode := hb.path b.query
  rw [SameRequest, call_method, call_method, hpaths, hpathsB,
    (List.map_injective_iff.mpr pathCode.encode_injective).eq_iff]

theorem distinct_iff (ha : PlainTarget client.endpoint a.target)
    (hb : PlainTarget client.endpoint b.target) :
    (a.target ≠ b.target → ¬ SameRequest client a b) ↔
      ¬ Shadowed a.target b.target ∧ ¬ Shadowed b.target a.target := by
  have hself : ∀ t : Target, ¬ Shadowed t t := fun t h => by
    have hnot : ∀ x ∈ Operation.all, ¬ x.Hides x := by decide
    exact hnot _ (Operation.mem_all _) h.1
  rw [sameRequest_iff ha hb, ← not_or]
  constructor
  · intro h hshadowed
    have hne : a.target ≠ b.target := by
      intro he
      rw [he, or_self] at hshadowed
      exact hself _ hshadowed
    rcases hshadowed with hs | hs
    · exact h hne (shadowed_segments hs)
    · obtain ⟨hmethod, hsegments⟩ := shadowed_segments hs
      exact h hne ⟨hmethod.symm, hsegments.symm⟩
  · intro h hne hsame
    exact h (shadowed_of_segments hne hsame.1 hsame.2)

end Pairs

-- A request reaches the resource it names when nothing in it reads as a dot segment and no
-- operation of the same method ends in the word that its own path ends in.
theorem requests_reach_their_targets (client : IdsClient) (now : Timestamp) (a b : Request) :
    (Reaches client now a ∧ Reaches client now b ∧
        (a.target ≠ b.target → ¬ SameRequest client a b)) ↔
      (PlainRequest client a ∧ PlainRequest client b ∧
        ¬ Shadowed a.target b.target ∧ ¬ Shadowed b.target a.target) := by
  rw [reaches_iff, reaches_iff]
  refine and_congr_right fun ha => and_congr_right fun hb => ?_
  exact distinct_iff ha.target hb.target

def sampleClient : IdsClient where
  endpoint := ⟨ascii "https://ids.example", [], by decide +kernel⟩
  host := ⟨ascii "ids.example", by decide +kernel⟩
  host_visible := by decide +kernel
  auth := .oauth (some (ascii "mine"))

def sampleNow : Timestamp := ⟨⟨ascii "20250101T000000Z", by decide +kernel⟩, by decide +kernel⟩

def sampleRequest (operation : Operation) (path : String) : Request where
  target := ⟨operation, ascii "mine", ascii "space", ascii path⟩
  query := none
  headers := ⟨[], List.nodup_nil⟩
  contentType := none
  contentLength := none

-- The credentials are checked for the named instance, the URL leads to another one.
theorem dotted_path_leaves_the_instance : ∃ sent,
    sendOnce sampleClient sampleNow
      (sampleRequest .getFile "../../../../other/spaces/theirs/files/x") = .ok sent ∧
    sent.authorization = .bearer (some (ascii "mine")) ∧ sent.url.inst = some (ascii "other") ∧
    ¬ Reaches sampleClient sampleNow
      (sampleRequest .getFile "../../../../other/spaces/theirs/files/x") := by
  refine ⟨_, rfl, rfl, by decide +kernel, fun h => ?_⟩
  exact absurd h.segments (by decide +kernel)

example : SameRequest sampleClient (sampleRequest .putFile "x:copy") (sampleRequest .copyFile "x") := by
  decide +kernel

end VeStorage.ADrive.Client
