import VeStorage.Tos.Client.Verified

namespace VeStorage.Tos.Client
open Lib Percent
open Lib.Url (slash queryCode readSegments)

structure PlainPresign (endpoint : Endpoint) (signer : V4Signer) (bucket : Bucket) (key : Bytes) :
    Prop where
  object : PlainObject endpoint bucket key
  port : endpoint.port = none
  token : signer.securityToken = none

section Presign

variable {sign : Canonical → Bytes} {signer : V4Signer} {now : Moment} {endpoint : Endpoint}
  {bucket : Bucket} {key method host : Bytes} {url : Url} {expires : Nat} {pair : Pair}
  {canonical : Canonical} {headers : Map}

def hostHeaders (host : Bytes) : Map := Map.empty.insert hostName host

def parameters (signer : V4Signer) (now : Moment) (host : Bytes) (expires : Nat) : Map :=
  presignParameters signer now Map.empty (hostHeaders host) expires

theorem mem_presignHeaders : pair ∈ (presignHeaders signer (hostHeaders host)).entries ↔
    (∃ token, signer.securityToken = some token ∧ pair = (securityTokenName, token)) ∨
      pair = (hostName, host) := by
  have hne : hostName ≠ securityTokenName := by decide
  simp only [presignHeaders, hostHeaders, Map.mem_insertSome, Map.mem_insert, Map.not_mem_empty,
    false_and, or_false]
  refine or_congr_right ⟨And.left, ?_⟩
  rintro rfl
  exact ⟨rfl, fun _ => hne⟩

theorem lower_presignHeaders (h : pair ∈ (presignHeaders signer (hostHeaders host)).entries) :
    asciiLower pair.1 = pair.1 ∧ semicolon ∉ pair.1 := by
  have hnames : ∀ name ∈ [securityTokenName, hostName],
      asciiLower name = name ∧ semicolon ∉ name := by decide
  rcases mem_presignHeaders.mp h with ⟨token, -, rfl⟩ | rfl
  · exact hnames _ (by simp)
  · exact hnames _ (by simp)

theorem signature_not_mem (h : pair ∈ (parameters signer now host expires).entries) :
    pair.1 ≠ signatureName := by
  have hnames : ∀ name ∈ [ascii "X-Tos-Security-Token", signedHeadersName, ascii "X-Tos-Expires",
      ascii "X-Tos-Date", ascii "X-Tos-Credential", ascii "X-Tos-Algorithm"],
      name ≠ signatureName := by decide
  simp only [parameters, presignParameters, Map.mem_insertSome, Map.mem_insert, Map.not_mem_empty,
    false_and, or_false] at h
  rcases h with ⟨token, -, rfl⟩ | ⟨rfl | ⟨rfl | ⟨rfl | ⟨rfl | ⟨rfl, -⟩, -⟩, -⟩, -⟩, -⟩
  all_goals exact hnames _ (by simp)

theorem remove_insert {m : Map} {name value : Bytes} (h : ∀ pair ∈ m.entries, pair.1 ≠ name) :
    (m.insert name value).remove name = m := by
  refine Map.ext fun pair => ?_
  rw [Map.remove, List.mem_filter, Map.mem_insert]
  constructor
  · rintro ⟨rfl | ⟨hpair, -⟩, hne⟩
    · simp at hne
    · exact hpair
  · intro hpair
    exact ⟨.inr ⟨hpair, h pair hpair⟩, by simpa using h pair hpair⟩

theorem signedHeaders_mem :
    (signedHeadersName, signedHeaders (presignHeaders signer (hostHeaders host))) ∈
      ((parameters signer now host expires).insert signatureName (sign canonical)).entries := by
  have hsignature : signedHeadersName ≠ signatureName := by decide
  have htoken : signedHeadersName ≠ ascii "X-Tos-Security-Token" := by decide
  refine Map.mem_insert.mpr (.inr ⟨?_, hsignature⟩)
  exact Map.mem_insertSome.mpr (.inr ⟨Map.mem_insert.mpr (.inl rfl), fun _ => htoken⟩)

def presignedUrl (sign : Canonical → Bytes) (signer : V4Signer) (now : Moment) (url : Url)
    (expires : Nat) (canonical : Canonical) : Url :=
  { url with query := some (Lib.Url.render formCode.encode
      ((parameters signer now url.host expires).insert signatureName (sign canonical)).entries) }

theorem names_fetch : (fetch method (presignedUrl sign signer now url expires canonical)).names =
    (presignHeaders signer (hostHeaders url.host)).entries.map fun header => asciiLower header.1 := by
  have hmem : (signedHeadersName, signedHeaders (presignHeaders signer (hostHeaders url.host))) ∈
      ((parameters signer now url.host expires).insert signatureName (sign canonical)).entries :=
    signedHeaders_mem
  have hfind := find_of_unique hmem fun other ho he => Map.eq_of_key ho hmem he
  rw [Received.names, fetch, presignedUrl, readPairs, Option.getD_some, parse_form, hfind]
  exact splitOn_signedHeaders (List.ne_nil_of_mem (mem_presignHeaders.mpr (.inr rfl)))
    fun header hheader => (lower_presignHeaders hheader).2

theorem parameters_fetch :
    (fetch method (presignedUrl sign signer now url expires canonical)).parameters =
      (parameters signer now url.host expires).entries := by
  rw [Received.parameters, fetch, presignedUrl, readPairs, Option.getD_some, parse_form]
  have hremove : ((parameters signer now url.host expires).insert signatureName
      (sign canonical)).remove signatureName = parameters signer now url.host expires :=
    remove_insert fun pair hpair => signature_not_mem hpair
  exact (sortOn_entries (Map.remove _ signatureName)).trans (congrArg Map.entries hremove)

theorem values_fetch (hhost : ∀ b ∈ url.host, graphic b)
    (hport : ∀ p, url.port = some p → ∀ b ∈ p, graphic b) :
    (∀ pair ∈ (presignHeaders signer (hostHeaders url.host)).entries,
      (fetch method (presignedUrl sign signer now url expires canonical)).value (asciiLower pair.1) =
        some (strTrim pair.2)) ↔ url.port = none ∧ signer.securityToken = none := by
  have hlower : asciiLower hostName = hostName ∧ asciiLower securityTokenName = securityTokenName ∧
      hostName ≠ securityTokenName := by decide
  have hvalue : (fetch method (presignedUrl sign signer now url expires canonical)).value hostName =
      some (owsTrim (hostPort url.host url.port)) := by
    simp [Received.value, fetch, presignedUrl]
  constructor
  · intro h
    constructor
    · have hsame := h _ (mem_presignHeaders.mpr (.inr rfl))
      rw [hlower.1, hvalue, Option.some.injEq, strTrim_of_graphic hhost,
        owsTrim_of_graphic (graphic_hostPort hhost hport)] at hsame
      exact hostPort_eq_host.mp hsame
    · cases hk : signer.securityToken with
      | none => rfl
      | some token =>
        have hsame := h _ (mem_presignHeaders.mpr (.inl ⟨token, hk, rfl⟩))
        rw [hlower.2.1] at hsame
        simp [Received.value, fetch, hlower.2.2] at hsame
  · rintro ⟨hnone, htoken⟩ pair hpair
    rcases mem_presignHeaders.mp hpair with ⟨token, hk, -⟩ | rfl
    · rw [htoken] at hk
      cases hk
    · rw [hlower.1, hvalue, hnone, hostPort_eq_host.mpr rfl, owsTrim_of_graphic hhost,
        strTrim_of_graphic hhost]

theorem fetch_iff (hhost : ∀ b ∈ url.host, graphic b)
    (hport : ∀ p, url.port = some p → ∀ b ∈ p, graphic b) {path : Bytes}
    (hpath : uriEncode path = (readSegments url.path).flatMap fun s => slash :: queryCode.encode s) :
    Verifies (fetch method (presignedUrl sign signer now url expires canonical))
      (presignCanonical signer now method path Map.empty (hostHeaders url.host) expires) ↔
      url.port = none ∧ signer.securityToken = none := by
  have hnames : (fetch method (presignedUrl sign signer now url expires canonical)).names =
      (presignHeaders signer (hostHeaders url.host)).entries.map fun header => asciiLower header.1 :=
    names_fetch
  rw [← values_fetch hhost hport, ← headers_verify_iff _ hnames]
  constructor
  · intro h
    exact h.headers
  · intro hheaders
    refine ⟨rfl, hpath, ?_, ?_, ?_, hheaders, rfl⟩
    · rw [parameters_fetch]
      rfl
    · rw [hnames, List.pairwise_map]
      refine (presignHeaders signer (hostHeaders url.host)).ordered.imp_of_mem fun hx hy hlt => ?_
      rw [(lower_presignHeaders hx).1, (lower_presignHeaders hy).1]
      exact hlt
    · rw [hnames]
      intro name hname
      obtain ⟨header, -, rfl⟩ := List.mem_map.mp hname
      exact asciiLower_idem header.1

theorem addresses_presignedUrl :
    Addresses endpoint bucket key (presignedUrl sign signer now url expires canonical) ↔
      Addresses endpoint bucket key url := Iff.rfl

theorem presignObjectUrl_ok (hexpires : expires ≠ 0) : ∃ path,
    objectRequestPath endpoint bucket.name key = .ok path ∧
      presignObjectUrl sign endpoint signer now method bucket key expires = .ok
        { url := presignedUrl sign signer now (objectUrl endpoint bucket key) expires
            (presignCanonical signer now method path Map.empty
              (hostHeaders (objectUrl endpoint bucket key).host) expires)
          canonical := presignCanonical signer now method path Map.empty
            (hostHeaders (objectUrl endpoint bucket key).host) expires } := by
  obtain ⟨path, hpath⟩ := objectRequestPath_ok endpoint bucket key
  have haddress := objectEndpoint_ok endpoint bucket key
  have hurl := parse_objectEndpoint haddress
  refine ⟨path, hpath, ?_⟩
  rw [presignObjectUrl, if_neg hexpires, haddress, hpath]
  simp only [bind, Except.bind, pure, Except.pure, hurl]
  rfl

theorem presigns_iff (sign : Canonical → Bytes) (endpoint : Endpoint) (signer : V4Signer)
    (now : Moment) (method : Bytes) (bucket : Bucket) (key : Bytes) (expires : Nat) :
    (∀ presigned, presignObjectUrl sign endpoint signer now method bucket key expires = .ok presigned →
      Verifies (fetch method presigned.url) presigned.canonical ∧
        Addresses endpoint bucket key presigned.url) ↔
      (expires ≠ 0 → PlainPresign endpoint signer bucket key) := by
  have hhost := host_graphic endpoint bucket key
  have hport : ∀ p, (objectUrl endpoint bucket key).port = some p → ∀ b ∈ p, graphic b :=
    endpoint.port_graphic
  constructor
  · intro h hexpires
    obtain ⟨path, hpath, hok⟩ := presignObjectUrl_ok hexpires
    obtain ⟨hverifies, haddresses⟩ := h _ hok
    have hobject : PlainObject endpoint bucket key :=
      (addresses_objectUrl endpoint bucket key).mp (addresses_presignedUrl.mp haddresses)
    obtain ⟨hnone, htoken⟩ := (fetch_iff hhost hport (path_verifies hobject hpath)).mp hverifies
    exact ⟨hobject, hnone, htoken⟩
  · intro h presigned hok
    by_cases hexpires : expires = 0
    · rw [presignObjectUrl, if_pos hexpires] at hok
      cases hok
    · have hplain := h hexpires
      obtain ⟨path, hpath, hbuilt⟩ := presignObjectUrl_ok hexpires
      rw [hok] at hbuilt
      cases hbuilt
      exact ⟨(fetch_iff hhost hport (path_verifies hplain.object hpath)).mpr
        ⟨hplain.port, hplain.token⟩, addresses_presignedUrl.mpr
          ((addresses_objectUrl endpoint bucket key).mpr hplain.object)⟩

end Presign

-- Requests with a header signature and presigned URLs, each with the condition that makes it good.
theorem signed_requests_verify (sign : Canonical → Bytes) (endpoint : Endpoint) (signer : V4Signer)
    (now : Moment) (request : ObjectRequest) (expires : Nat) :
    ((∃ sent, sendRequest endpoint signer now request = .ok sent ∧
        Verifies sent.received sent.canonical ∧
          Addresses endpoint request.bucket request.key sent.url) ↔
      PlainSend endpoint signer request) ∧
    ((∀ presigned, presignObjectUrl sign endpoint signer now request.method request.bucket request.key
        expires = .ok presigned →
      Verifies (fetch request.method presigned.url) presigned.canonical ∧
        Addresses endpoint request.bucket request.key presigned.url) ↔
      (expires ≠ 0 → PlainPresign endpoint signer request.bucket request.key)) :=
  ⟨sends_iff endpoint signer now request,
    presigns_iff sign endpoint signer now request.method request.bucket request.key expires⟩

def sampleEndpoint (port : Option Bytes) (h : ∀ p, port = some p → ∀ b ∈ p, graphic b) : Endpoint where
  host := ascii "tos-cn-beijing.volces.com"
  port := port
  base := []
  takesHost _ := true
  host_graphic := by decide +kernel
  port_graphic := h

def sampleSigner : V4Signer where
  accessKey := ascii "key"
  region := ascii "cn-beijing"
  service := ascii "tos"
  securityToken := some (ascii "session")

def sampleMoment : Moment := ⟨ascii "20250101", ascii "20250101T000000Z", by decide +kernel⟩

def sampleBucket : Bucket := ⟨ascii "bucket", by decide +kernel⟩

-- A session token is signed as a header, which nobody who opens the URL sends.
theorem session_token_breaks_presigned_url : ∃ presigned,
    presignObjectUrl (fun _ => ascii "signature") (sampleEndpoint none nofun) sampleSigner sampleMoment
      (ascii "GET") sampleBucket (ascii "dir/file") 3600 = .ok presigned ∧
    ¬ Verifies (fetch (ascii "GET") presigned.url) presigned.canonical := by
  refine ⟨_, rfl, fun h => ?_⟩
  exact absurd h.headers (by decide +kernel)

end VeStorage.Tos.Client
