import VeStorage.Tos.Client.Verifier

namespace VeStorage.Tos.Client
open Lib Percent
open Lib.Url (slash queryCode readSegments)

def fixedNames (token : Option Bytes) : List Bytes :=
  [hostName, dateName, contentSha256Name] ++ if token.isSome then [securityTokenName] else []

-- The white space around a value is stripped alike by the signer and by a receiver.
def Exact (value : Bytes) : Prop := owsTrim value = strTrim value

def SignedName (signer : V4Signer) (request : ObjectRequest) (name : Bytes) : Prop :=
  name ∈ fixedNames signer.securityToken ∨ ∃ header ∈ request.extraHeaders.entries, header.1 = name

structure PlainHeaders (signer : V4Signer) (request : ObjectRequest) : Prop where
  values : ∀ header ∈ request.extraHeaders.entries, header.1 ∉ fixedNames signer.securityToken →
    asciiLower header.1 ≠ authorizationName ∧ Exact header.2
  token : ∀ token, signer.securityToken = some token → Exact token
  order : ∀ a b, SignedName signer request a → SignedName signer request b →
    byteRank a < byteRank b → byteRank (asciiLower a) < byteRank (asciiLower b)

structure PlainSend (endpoint : Endpoint) (signer : V4Signer) (request : ObjectRequest) : Prop where
  object : PlainObject endpoint request.bucket request.key
  port : endpoint.port = none
  query : ∀ pair ∈ request.query.entries, pair.1 ≠ signatureName
  headers : PlainHeaders signer request

section Signing

variable {signer : V4Signer} {now : Moment} {request : ObjectRequest} {endpoint : Endpoint}
  {host : Bytes} {port : Option Bytes} {pair : Pair}

def signing (signer : V4Signer) (now : Moment) (request : ObjectRequest) (host : Bytes) : Map :=
  signHeaders signer now (request.extraHeaders.insert hostName host) request.payloadHash

def lowerRank (pair : Pair) : List ℕ := byteRank (asciiLower pair.1)

theorem mem_signing : pair ∈ (signing signer now request host).entries ↔
    pair = (contentSha256Name, request.payloadHash) ∨
      (∃ token, signer.securityToken = some token ∧ pair = (securityTokenName, token)) ∨
      pair = (dateName, now.datetime) ∨ pair = (hostName, host) ∨
      pair ∈ request.extraHeaders.entries ∧ pair.1 ∉ fixedNames signer.securityToken := by
  have hsha : contentSha256Name ≠ securityTokenName ∧ contentSha256Name ≠ dateName ∧
      contentSha256Name ≠ hostName := by decide
  have htoken : securityTokenName ≠ dateName ∧ securityTokenName ≠ hostName := by decide
  have hdate : dateName ≠ hostName := by decide
  simp only [signing, signHeaders, Map.mem_insert, Map.mem_insertSome]
  constructor
  · rintro (rfl | ⟨h | ⟨rfl | ⟨rfl | ⟨h, hhost⟩, hd⟩, ht⟩, hs⟩)
    · exact .inl rfl
    · exact .inr (.inl h)
    · exact .inr (.inr (.inl rfl))
    · exact .inr (.inr (.inr (.inl rfl)))
    · refine .inr (.inr (.inr (.inr ⟨h, ?_⟩)))
      cases hk : signer.securityToken with
      | none => simp [fixedNames, hhost, hd, hs]
      | some token => simpa [fixedNames, hhost, hd, hs] using ht (by simp [hk])
  · rintro (rfl | ⟨token, hk, rfl⟩ | rfl | rfl | ⟨h, hfixed⟩)
    · exact .inl rfl
    · exact .inr ⟨.inl ⟨token, hk, rfl⟩, hsha.1.symm⟩
    · exact .inr ⟨.inr ⟨.inl rfl, fun _ => htoken.1.symm⟩, hsha.2.1.symm⟩
    · exact .inr ⟨.inr ⟨.inr ⟨.inl rfl, hdate.symm⟩, fun _ => htoken.2.symm⟩, hsha.2.2.symm⟩
    · simp only [fixedNames, List.mem_append, List.mem_cons, List.not_mem_nil, or_false, not_or] at hfixed
      obtain ⟨⟨hhost, hd, hs⟩, ht⟩ := hfixed
      refine .inr ⟨.inr ⟨.inr ⟨.inr ⟨h, hhost⟩, hd⟩, fun hk => ?_⟩, hs⟩
      simpa [hk] using ht

theorem mem_clientSignedHeaders : pair ∈ (clientSignedHeaders signer now request.payloadHash).entries ↔
    (∃ token, signer.securityToken = some token ∧ pair = (securityTokenName, token)) ∨
      pair = (contentSha256Name, request.payloadHash) ∨ pair = (dateName, now.datetime) := by
  have hsha : contentSha256Name ≠ securityTokenName ∧ contentSha256Name ≠ dateName := by decide
  have htoken : securityTokenName ≠ dateName := by decide
  simp only [clientSignedHeaders, Map.mem_insert, Map.mem_insertSome, Map.not_mem_empty, false_and,
    or_false]
  constructor
  · rintro (h | ⟨rfl | ⟨rfl, -⟩, -⟩)
    · exact .inl h
    · exact .inr (.inl rfl)
    · exact .inr (.inr rfl)
  · rintro (h | rfl | rfl)
    · exact .inl h
    · exact .inr ⟨.inl rfl, fun _ => hsha.1⟩
    · exact .inr ⟨.inr ⟨rfl, hsha.2.symm⟩, fun _ => htoken.symm⟩

theorem clientSigned_fixed (h : pair ∈ (clientSignedHeaders signer now request.payloadHash).entries) :
    pair.1 ∈ fixedNames signer.securityToken ∧ asciiLower pair.1 = pair.1 ∧
      pair.1 ≠ authorizationName ∧ pair.1 ≠ hostName := by
  have hnames : ∀ name ∈ [securityTokenName, contentSha256Name, dateName],
      asciiLower name = name ∧ name ≠ authorizationName ∧ name ≠ hostName := by decide
  rcases mem_clientSignedHeaders.mp h with ⟨token, hk, rfl⟩ | rfl | rfl
  · exact ⟨by simp [fixedNames, hk], hnames _ (by simp)⟩
  · exact ⟨by simp [fixedNames], hnames _ (by simp)⟩
  · exact ⟨by simp [fixedNames], hnames _ (by simp)⟩

def carried (signer : V4Signer) (now : Moment) (request : ObjectRequest) (host : Bytes) : List Pair :=
  wireHeaders (clientSignedHeaders signer now request.payloadHash)
    (request.extraHeaders.insert hostName host)

-- What is carried besides the host is a signed header.
theorem mem_carried (h : pair ∈ carried signer now request host) :
    ∃ header ∈ (signing signer now request host).entries,
      pair = (asciiLower header.1, header.2) ∧ asciiLower header.1 ≠ authorizationName := by
  simp only [carried, wireHeaders, List.mem_map, List.mem_append, List.mem_filter] at h
  obtain ⟨header, hheader | ⟨hheader, hkeep⟩, rfl⟩ := h
  · obtain ⟨-, hlower, hauth, -⟩ := clientSigned_fixed hheader
    refine ⟨header, mem_signing.mpr ?_, rfl, hlower.symm ▸ hauth⟩
    rcases mem_clientSignedHeaders.mp hheader with h | h | h
    · exact .inr (.inl h)
    · exact .inl h
    · exact .inr (.inr (.inl h))
  · simp only [Bool.and_eq_true, Bool.not_eq_true', eqIgnoreAsciiCase, decide_eq_false_iff_not] at hkeep
    obtain ⟨⟨hhost, hauth⟩, hsigned⟩ := hkeep
    have hlowerAuth : asciiLower authorizationName = authorizationName := by decide
    rcases Map.mem_insert.mp hheader with rfl | ⟨hextra, hne⟩
    · exact absurd rfl hhost
    · refine ⟨header, mem_signing.mpr (.inr (.inr (.inr (.inr ⟨hextra, fun hfixed => ?_⟩)))), rfl,
        hlowerAuth ▸ hauth⟩
      have hnot : ∀ signed ∈ (clientSignedHeaders signer now request.payloadHash).entries,
          signed.1 ≠ header.1 := by
        intro signed hs he
        have hany := List.any_eq_false.mp hsigned signed hs
        simp [eqIgnoreAsciiCase, he] at hany
      simp only [fixedNames, List.mem_append, List.mem_cons, List.not_mem_nil, or_false] at hfixed
      rcases hfixed with (he | he | he) | he
      · exact hne he
      · exact hnot _ (mem_clientSignedHeaders.mpr (.inr (.inr rfl))) he.symm
      · exact hnot _ (mem_clientSignedHeaders.mpr (.inr (.inl rfl))) he.symm
      · split at he
        next hk =>
          obtain ⟨token, hk⟩ := Option.isSome_iff_exists.mp hk
          exact hnot _ (mem_clientSignedHeaders.mpr (.inl ⟨token, hk, rfl⟩))
            (List.mem_singleton.mp he).symm
        next => cases he

theorem eq_of_lower (hord : Ordered lowerRank (signing signer now request host).entries) {other : Pair}
    (h : pair ∈ (signing signer now request host).entries)
    (ho : other ∈ (signing signer now request host).entries)
    (he : asciiLower pair.1 = asciiLower other.1) : pair = other :=
  hord.eq_of_rank h ho (congrArg byteRank he)

theorem host_mem_signing : (hostName, host) ∈ (signing signer now request host).entries :=
  mem_signing.mpr (.inr (.inr (.inr (.inl rfl))))

theorem carried_of_signing (hord : Ordered lowerRank (signing signer now request host).entries)
    (h : pair ∈ (signing signer now request host).entries) (hne : pair ≠ (hostName, host))
    (hauth : asciiLower pair.1 ≠ authorizationName) :
    (asciiLower pair.1, pair.2) ∈ carried signer now request host := by
  refine List.mem_map.mpr ⟨pair, List.mem_append.mpr ?_, rfl⟩
  by_cases hsigned : pair ∈ (clientSignedHeaders signer now request.payloadHash).entries
  · exact .inl hsigned
  have hextra : pair ∈ request.extraHeaders.entries ∧ pair.1 ∉ fixedNames signer.securityToken := by
    rcases mem_signing.mp h with he | he | he | he | he
    · exact absurd (mem_clientSignedHeaders.mpr (.inr (.inl he))) hsigned
    · exact absurd (mem_clientSignedHeaders.mpr (.inl he)) hsigned
    · exact absurd (mem_clientSignedHeaders.mpr (.inr (.inr he))) hsigned
    · exact absurd he hne
    · exact he
  have hname : pair.1 ≠ hostName := fun he => hextra.2 (he ▸ by simp [fixedNames])
  refine .inr (List.mem_filter.mpr ⟨Map.mem_insert.mpr (.inr ⟨hextra.1, hname⟩), ?_⟩)
  have hlowerHost : asciiLower hostName = hostName := by decide
  have hlowerAuth : asciiLower authorizationName = authorizationName := by decide
  simp only [Bool.and_eq_true, Bool.not_eq_true', eqIgnoreAsciiCase, decide_eq_false_iff_not]
  refine ⟨⟨fun he => hne (eq_of_lower hord h host_mem_signing he), hlowerAuth ▸ hauth⟩, ?_⟩
  refine List.any_eq_false.mpr fun signed hs he => hsigned ?_
  have hsame : asciiLower signed.1 = asciiLower pair.1 := by simpa [eqIgnoreAsciiCase] using he
  have hmem : signed ∈ (signing signer now request host).entries := by
    rcases mem_clientSignedHeaders.mp hs with he | he | he
    · exact mem_signing.mpr (.inr (.inl he))
    · exact mem_signing.mpr (.inl he)
    · exact mem_signing.mpr (.inr (.inr (.inl he)))
  exact eq_of_lower hord hmem h hsame ▸ hs

-- The message as its receiver sees it.
def arrives (signer : V4Signer) (now : Moment) (request : ObjectRequest) (url : Url) : Received where
  method := request.method
  path := url.path
  query := url.query
  headers := (hostName, hostPort url.host url.port) :: carried signer now request url.host
  signedHeaders := signedHeaders (signing signer now request url.host)
  payloadHash := request.payloadHash

variable {url : Url}

theorem value_host (url : Url) : (arrives signer now request url).value hostName =
    some (owsTrim (hostPort url.host url.port)) := by
  simp [Received.value, arrives]

theorem value_carried (hord : Ordered lowerRank (signing signer now request url.host).entries)
    (h : pair ∈ (signing signer now request url.host).entries) (hne : pair ≠ (hostName, url.host)) :
    (arrives signer now request url).value (asciiLower pair.1) =
      if asciiLower pair.1 = authorizationName then none else some (owsTrim pair.2) := by
  have hname : hostName ≠ asciiLower pair.1 := fun he => by
    have hlowerHost : asciiLower hostName = hostName := by decide
    exact hne (eq_of_lower hord h host_mem_signing (hlowerHost ▸ he.symm))
  have hskip : (arrives signer now request url).headers.find? (·.1 = asciiLower pair.1) =
      (carried signer now request url.host).find? (·.1 = asciiLower pair.1) := by
    rw [arrives, List.find?_cons_of_neg (by simpa using hname)]
  rw [Received.value, hskip]
  split
  next hauth =>
    have hnone : (carried signer now request url.host).find? (·.1 = asciiLower pair.1) = none := by
      refine List.find?_eq_none.mpr fun other ho => ?_
      obtain ⟨header, -, rfl, hlower⟩ := mem_carried ho
      simpa [hauth] using hlower
    rw [hnone, Option.map_none]
  next hauth =>
    have hfind := find_of_unique (carried_of_signing hord h hne hauth) fun other ho he => by
      obtain ⟨header, hheader, rfl, -⟩ := mem_carried ho
      rw [eq_of_lower hord hheader h he]
    rw [hfind, Option.map_some]

theorem signedName_iff {name : Bytes} : SignedName signer request name ↔
    ∃ pair ∈ (signing signer now request host).entries, pair.1 = name := by
  constructor
  · intro h
    by_cases hfixed : name ∈ fixedNames signer.securityToken
    · simp only [fixedNames, List.mem_append, List.mem_cons, List.not_mem_nil, or_false] at hfixed
      rcases hfixed with (rfl | rfl | rfl) | he
      · exact ⟨_, host_mem_signing, rfl⟩
      · exact ⟨_, mem_signing.mpr (.inr (.inr (.inl rfl))), rfl⟩
      · exact ⟨_, mem_signing.mpr (.inl rfl), rfl⟩
      · split at he
        next hk =>
          obtain ⟨token, hk⟩ := Option.isSome_iff_exists.mp hk
          exact ⟨_, mem_signing.mpr (.inr (.inl ⟨token, hk, rfl⟩)), (List.mem_singleton.mp he).symm⟩
        next => cases he
    · obtain ⟨header, hheader, rfl⟩ := h.resolve_left hfixed
      exact ⟨header, mem_signing.mpr (.inr (.inr (.inr (.inr ⟨hheader, hfixed⟩)))), rfl⟩
  · rintro ⟨pair, hpair, rfl⟩
    rcases mem_signing.mp hpair with rfl | ⟨token, hk, rfl⟩ | rfl | rfl | ⟨hheader, -⟩
    · exact .inl (by simp [fixedNames])
    · exact .inl (by simp [fixedNames, hk])
    · exact .inl (by simp [fixedNames])
    · exact .inl (by simp [fixedNames])
    · exact .inr ⟨pair, hheader, rfl⟩

-- Lower case keeps the order of the map exactly when it keeps it for every two signed names.
theorem ordered_iff : Ordered lowerRank (signing signer now request host).entries ↔
    ∀ a b, SignedName signer request a → SignedName signer request b →
      byteRank a < byteRank b → byteRank (asciiLower a) < byteRank (asciiLower b) := by
  have hmap := (signing signer now request host).ordered
  constructor
  · intro h a b ha hb hlt
    obtain ⟨x, hx, rfl⟩ := signedName_iff.mp ha
    obtain ⟨y, hy, rfl⟩ := signedName_iff.mp hb
    have hpair : (signing signer now request host).entries.Pairwise fun x y =>
        pairRank x < pairRank y ∧ lowerRank x < lowerRank y ∨
          pairRank y < pairRank x ∧ lowerRank y < lowerRank x :=
      (List.pairwise_and_iff.mpr ⟨hmap, h⟩).imp .inl
    have hsymm : Std.Symm fun x y : Pair => pairRank x < pairRank y ∧ lowerRank x < lowerRank y ∨
        pairRank y < pairRank x ∧ lowerRank y < lowerRank x := ⟨fun _ _ => Or.symm⟩
    have hne : x ≠ y := fun he => hlt.ne (congrArg pairRank he)
    rcases hpair.forall hx hy hne with h | h
    · exact h.2
    · exact absurd h.1 hlt.not_gt
  · intro h
    refine hmap.imp_of_mem fun hx hy hlt => ?_
    exact h _ _ (signedName_iff.mpr ⟨_, hx, rfl⟩) (signedName_iff.mpr ⟨_, hy, rfl⟩) hlt

theorem values_iff (hord : Ordered lowerRank (signing signer now request url.host).entries)
    (hurl : ∀ b ∈ url.host, graphic b) (hport : ∀ p, url.port = some p → ∀ b ∈ p, graphic b) :
    (∀ pair ∈ (signing signer now request url.host).entries,
      (arrives signer now request url).value (asciiLower pair.1) = some (strTrim pair.2)) ↔
      url.port = none ∧ PlainHeaders signer request := by
  have hlowerHost : asciiLower hostName = hostName := by decide
  have hnames : ∀ name ∈ [securityTokenName, contentSha256Name, dateName],
      asciiLower name ≠ authorizationName ∧ name ≠ hostName := by decide
  constructor
  · intro h
    refine ⟨?_, fun header hheader hfixed => ?_, fun token hk => ?_, ordered_iff.mp hord⟩
    · have hvalue := h _ host_mem_signing
      rw [hlowerHost, value_host, Option.some.injEq, strTrim_of_graphic hurl,
        owsTrim_of_graphic (graphic_hostPort hurl hport)] at hvalue
      exact hostPort_eq_host.mp hvalue
    · have hmem : header ∈ (signing signer now request url.host).entries :=
        mem_signing.mpr (.inr (.inr (.inr (.inr ⟨hheader, hfixed⟩))))
      have hne : header ≠ (hostName, url.host) := by
        rintro rfl
        exact hfixed (by simp [fixedNames])
      have hvalue := h header hmem
      rw [value_carried hord hmem hne] at hvalue
      split at hvalue
      next => cases hvalue
      next hauth => exact ⟨hauth, Option.some.inj hvalue⟩
    · have hmem : (securityTokenName, token) ∈ (signing signer now request url.host).entries :=
        mem_signing.mpr (.inr (.inl ⟨token, hk, rfl⟩))
      have hname := hnames securityTokenName (by simp)
      have hvalue := h _ hmem
      rw [value_carried hord hmem fun he => hname.2 (congrArg Prod.fst he), if_neg hname.1] at hvalue
      exact Option.some.inj hvalue
  · rintro ⟨hnone, hextra, htoken, -⟩ pair hpair
    by_cases hhost : pair = (hostName, url.host)
    · subst hhost
      rw [hlowerHost, value_host, hnone, hostPort_eq_host.mpr rfl, owsTrim_of_graphic hurl,
        strTrim_of_graphic hurl]
    · rw [value_carried hord hpair hhost]
      rcases mem_signing.mp hpair with rfl | ⟨token, hk, rfl⟩ | rfl | rfl | ⟨hheader, hfixed⟩
      · rw [if_neg (hnames contentSha256Name (by simp)).1, owsTrim_of_graphic request.payload_graphic,
          strTrim_of_graphic request.payload_graphic]
      · rw [if_neg (hnames securityTokenName (by simp)).1, htoken token hk]
      · rw [if_neg (hnames dateName (by simp)).1, owsTrim_of_graphic now.graphic,
          strTrim_of_graphic now.graphic]
      · exact absurd rfl hhost
      · obtain ⟨hauth, hexact⟩ := hextra pair hheader hfixed
        rw [if_neg hauth, hexact]

theorem names_arrives (url : Url) : (arrives signer now request url).names =
    (signing signer now request url.host).entries.map fun header => asciiLower header.1 := by
  have hnames : ∀ name ∈ [hostName, dateName, contentSha256Name, securityTokenName],
      semicolon ∉ name := by decide
  refine splitOn_signedHeaders (List.ne_nil_of_mem host_mem_signing) fun header hheader => ?_
  rcases mem_signing.mp hheader with rfl | ⟨token, -, rfl⟩ | rfl | rfl | ⟨hextra, -⟩
  · exact hnames _ (by simp)
  · exact hnames _ (by simp)
  · exact hnames _ (by simp)
  · exact hnames _ (by simp)
  · exact request.extra_token header hextra

end Signing

end VeStorage.Tos.Client
