import VeStorage.Tos.Client.Sent

namespace VeStorage.Tos.Client
open Lib Percent
open Lib.Url (slash queryCode readSegments)

section Send

variable {signer : V4Signer} {now : Moment} {request : ObjectRequest} {endpoint : Endpoint}
  {bucket : Bucket} {key : Bytes} {url : Url} {query : Map}

@[simp] theorem withQuery_host : (withQuery url query).host = url.host := by
  unfold withQuery
  split <;> rfl

@[simp] theorem withQuery_port : (withQuery url query).port = url.port := by
  unfold withQuery
  split <;> rfl

@[simp] theorem withQuery_path : (withQuery url query).path = url.path := by
  unfold withQuery
  split <;> rfl

theorem readPairs_withQuery (hq : url.query = none) :
    readPairs (withQuery url query).query = query.entries := by
  unfold withQuery
  split
  next hempty =>
    rw [hq, hempty]
    rfl
  next => exact parse_query query

theorem objectRequestPath_ok (endpoint : Endpoint) (bucket : Bucket) (key : Bytes) :
    ∃ path, objectRequestPath endpoint bucket.name key = .ok path := by
  simp only [objectRequestPath, bucket.valid]
  cases endpointUsesVirtualHostedStyle endpoint with
  | true => exact ⟨_, rfl⟩
  | false => exact ⟨_, rfl⟩

theorem sendRequest_ok (endpoint : Endpoint) (signer : V4Signer) (now : Moment)
    (request : ObjectRequest) : ∃ path,
    objectRequestPath endpoint request.bucket.name request.key = .ok path ∧
      sendRequest endpoint signer now request = .ok
        { url := withQuery (objectUrl endpoint request.bucket request.key) request.query
          received := arrives signer now request
            (withQuery (objectUrl endpoint request.bucket request.key) request.query)
          canonical := canonicalRequest request.method path request.query
            (signing signer now request (objectUrl endpoint request.bucket request.key).host)
            request.payloadHash } := by
  obtain ⟨path, hpath⟩ := objectRequestPath_ok endpoint request.bucket request.key
  have haddress := objectEndpoint_ok endpoint request.bucket request.key
  refine ⟨path, hpath, ?_⟩
  rw [sendRequest, haddress, hpath]
  have hurl := parse_objectEndpoint haddress
  simp only [bind, Except.bind, pure, Except.pure, sendRequestOnce, hurl, arrives, carried, signing,
    withQuery_host]

theorem parameters_arrives (hq : url.query = none) :
    (arrives signer now request (withQuery url request.query)).parameters =
      (request.query.remove signatureName).entries := by
  rw [Received.parameters, arrives, readPairs_withQuery hq]
  exact sortOn_entries (request.query.remove signatureName)

theorem query_iff : encodedQueryString request.query =
    Lib.Url.render queryCode.encode (request.query.remove signatureName).entries ↔
      ∀ pair ∈ request.query.entries, pair.1 ≠ signatureName := by
  rw [← Map.remove_eq_self]
  constructor
  · intro h
    exact (encodedQueryString_injective h).symm
  · intro h
    rw [h, encodedQueryString]

theorem addresses_withQuery : Addresses endpoint bucket key (withQuery url query) ↔
    Addresses endpoint bucket key url := by
  simp only [Addresses, withQuery_host, withQuery_port, withQuery_path]

theorem arrives_iff (hq : url.query = none) (hhost : ∀ b ∈ url.host, graphic b)
    (hport : ∀ p, url.port = some p → ∀ b ∈ p, graphic b) {path : Bytes}
    (hpath : uriEncode path = (readSegments url.path).flatMap fun s => slash :: queryCode.encode s) :
    Verifies (arrives signer now request (withQuery url request.query))
      (canonicalRequest request.method path request.query (signing signer now request url.host)
        request.payloadHash) ↔
      (∀ pair ∈ request.query.entries, pair.1 ≠ signatureName) ∧
        url.port = none ∧ PlainHeaders signer request := by
  have hhost' : (withQuery url request.query).host = url.host := withQuery_host
  have hport' : (withQuery url request.query).port = url.port := withQuery_port
  have hnames : (arrives signer now request (withQuery url request.query)).names =
      (signing signer now request url.host).entries.map fun header => asciiLower header.1 := by
    rw [names_arrives, hhost']
  have hsorted : ((arrives signer now request (withQuery url request.query)).names.Pairwise
      fun a b => byteRank a < byteRank b) ↔
        Ordered lowerRank (signing signer now request url.host).entries := by
    rw [hnames, List.pairwise_map]
    rfl
  have hvalues (hord : Ordered lowerRank (signing signer now request url.host).entries) :
      (∀ pair ∈ (signing signer now request url.host).entries,
        (arrives signer now request (withQuery url request.query)).value (asciiLower pair.1) =
          some (strTrim pair.2)) ↔ url.port = none ∧ PlainHeaders signer request := by
    rw [← hhost'] at hord hhost ⊢
    rw [← hport'] at hport ⊢
    exact values_iff hord hhost hport
  rw [← query_iff, ← parameters_arrives hq]
  constructor
  · intro h
    have hheaders := (headers_verify_iff _ hnames).mp h.headers
    exact ⟨h.query, (hvalues (hsorted.mp h.sorted)).mp hheaders⟩
  · rintro ⟨hquery, hall⟩
    have hord : Ordered lowerRank (signing signer now request url.host).entries :=
      ordered_iff.mpr hall.2.order
    refine ⟨rfl, ?_, hquery, hsorted.mpr hord, ?_, ?_, rfl⟩
    · rw [arrives, withQuery_path]
      exact hpath
    · rw [hnames]
      intro name hname
      obtain ⟨header, -, rfl⟩ := List.mem_map.mp hname
      exact asciiLower_idem header.1
    · exact (headers_verify_iff _ hnames).mpr ((hvalues hord).mpr hall)

theorem sends_iff (endpoint : Endpoint) (signer : V4Signer) (now : Moment) (request : ObjectRequest) :
    (∃ sent, sendRequest endpoint signer now request = .ok sent ∧
      Verifies sent.received sent.canonical ∧
        Addresses endpoint request.bucket request.key sent.url) ↔
      PlainSend endpoint signer request := by
  obtain ⟨path, hpath, hsent⟩ := sendRequest_ok endpoint signer now request
  have hhost := host_graphic endpoint request.bucket request.key
  have hport : ∀ p, (objectUrl endpoint request.bucket request.key).port = some p →
      ∀ b ∈ p, graphic b := endpoint.port_graphic
  have hport' : (objectUrl endpoint request.bucket request.key).port = endpoint.port := rfl
  constructor
  · rintro ⟨sent, hok, hverifies, haddresses⟩
    rw [hsent] at hok
    cases hok
    have hobject : PlainObject endpoint request.bucket request.key :=
      (addresses_objectUrl endpoint request.bucket request.key).mp (addresses_withQuery.mp haddresses)
    obtain ⟨hquery, hnone, hheaders⟩ :=
      (arrives_iff rfl hhost hport (path_verifies hobject hpath)).mp hverifies
    exact ⟨hobject, hport' ▸ hnone, hquery, hheaders⟩
  · intro h
    refine ⟨_, hsent, ?_, addresses_withQuery.mpr
      ((addresses_objectUrl endpoint request.bucket request.key).mpr h.object)⟩
    exact (arrives_iff rfl hhost hport (path_verifies h.object hpath)).mpr
      ⟨h.query, hport' ▸ h.port, h.headers⟩

end Send

end VeStorage.Tos.Client
