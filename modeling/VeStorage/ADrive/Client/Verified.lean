import VeStorage.ADrive.Client.Request
import VeStorage.ADrive.Client.Signing

namespace VeStorage.ADrive.Client
open Lib Percent
open Lib.Url (slash question hash queryCode)

def Url.pairs (url : Url) : List (Bytes × Bytes) :=
  Lib.Url.parse percentDecode (url.query.getD [])

-- A receiver computes the signed text from the URL and the headers that reach it.
structure Verified (url : Url) (headers : HeaderMap) (canonical : Canonical) : Prop where
  path : canonical.path = url.segments.flatMap fun s => slash :: uriEncode s true
  query : canonical.query = canonicalPairs url.pairs
  headers : ∀ header ∈ canonical.headers,
    (headers.get header.1).map (fun value => normalizeHeaderValue value.bytes) = some header.2

section Query

variable {query : Option Query} {url : Url} {target : Target} {endpoint : Endpoint}

theorem percentDecode_form (s : Str) : percentDecode (formCode.encode s.bytes) = s.bytes := by
  rw [percentDecode, formCode.decode_encode, s.valid]

theorem requestUrl_pairs (endpoint : Endpoint) (path : Bytes) (query : Option Query) :
    (requestUrl endpoint path query).pairs = (query.map Query.pairs).getD [] := by
  cases query with
  | none => rfl
  | some query =>
    refine Lib.Url.parse_render (fun t => ?_) (fun t => ?_) ?_
    · exact not_mem_form (by decide) (by decide) (by decide) (by decide)
    · exact not_mem_form (by decide) (by decide) (by decide) (by decide)
    · intro pair hpair
      obtain ⟨named, -, rfl⟩ := List.mem_map.mp hpair
      exact ⟨percentDecode_form named.1, percentDecode_form named.2⟩

theorem hash_not_mem_query {path q : Bytes} (h : (requestUrl endpoint path query).query = some q) :
    hash ∉ q := by
  cases query with
  | none => cases h
  | some query =>
    cases h
    intro hmem
    obtain ⟨part, hpart, hmem⟩ := Lib.Url.mem_render hmem (by decide)
    rcases Lib.Url.mem_renderPair hmem (by decide) with hmem | hmem
    · exact not_mem_form (by decide) (by decide) (by decide) (by decide) hmem
    · exact not_mem_form (by decide) (by decide) (by decide) (by decide) hmem

theorem canonicalQuery_asStr (hpath : question ∉ url.origin ++ url.path.flatMap (slash :: ·))
    (hquery : ∀ q, url.query = some q → hash ∉ q) :
    canonicalQuery url.asStr = canonicalPairs url.pairs := by
  cases hq : url.query with
  | none =>
    have hnone : (splitOnce question url.asStr).2 = none := by
      rw [Url.asStr, hq, List.append_nil, splitOnce_of_not_mem hpath]
    have hempty : Lib.Url.parse percentDecode [] = [] := rfl
    simp [canonicalQuery, hnone, Url.pairs, hq, hempty, canonicalPairs, Lib.Url.render, join]
  | some q =>
    have hsome : (splitOnce question url.asStr).2 = some q := by
      rw [Url.asStr, hq, splitOnce_append hpath]
    rw [canonicalQuery, hsome, Url.pairs, hq]
    simp only [splitOnce_of_not_mem (hquery q hq), Option.getD_some]

theorem question_not_mem_path (h : PlainTarget endpoint target) (query : Option Query) :
    question ∉ (requestUrl endpoint target.call.path query).path.flatMap (slash :: ·) := by
  rw [h.path query]
  intro hmem
  obtain ⟨piece, hpiece, hmem⟩ := List.mem_flatMap.mp hmem
  obtain ⟨s, -, rfl⟩ := List.mem_map.mp hpiece
  rcases List.mem_cons.mp hmem with hslash | hmem
  · exact absurd hslash (by decide)
  · exact not_mem_uri (by decide) (by decide) (by decide) (by decide) hmem

theorem encodePath_call (h : PlainTarget endpoint target) (query : Option Query) :
    encodePath target.call.path =
      (requestUrl endpoint target.call.path query).segments.flatMap
        fun s => slash :: uriEncode s true := by
  obtain ⟨hslash, hsplit⟩ := splitOn_call_path target
  have hne : target.call.path ≠ [] := by simp [call_path]
  rw [segments_iff.mpr h, encodePath, if_neg hne, uriEncode, if_neg (by decide), hslash,
    Lib.Url.pathCode_encode_cons, hsplit, pieces_eq_segments h.inst h.space]
  rfl

end Query

section Headers

variable {headers : HeaderMap} {name : HeaderName} {value : HeaderValue}
  {entry : HeaderName × HeaderValue} {token : Option HeaderValue} {now : Timestamp}

namespace HeaderMap

@[simp] theorem mem_remove :
    entry ∈ (headers.remove name).entries ↔ entry ∈ headers.entries ∧ entry.1 ≠ name := by
  simp [remove]

@[simp] theorem mem_insert :
    entry ∈ (headers.insert name value).entries ↔
      entry ∈ headers.entries ∧ entry.1 ≠ name ∨ entry = (name, value) := by
  rw [insert, List.mem_append, mem_remove, List.mem_singleton]

theorem mem_insertSome {value : Option HeaderValue} :
    entry ∈ (insertSome headers name value).entries ↔
      entry ∈ headers.entries ∧ (value.isSome → entry.1 ≠ name) ∨
        ∃ v, value = some v ∧ entry = (name, v) := by
  cases value with
  | none => simp [insertSome]
  | some value => simp [insertSome]

theorem get_of_mem (h : entry ∈ headers.entries) : headers.get entry.1.bytes = some entry.2 := by
  have hsome : (headers.entries.find? (·.1.bytes = entry.1.bytes)).isSome :=
    List.find?_isSome.mpr ⟨entry, h, by simp⟩
  obtain ⟨found, hfound⟩ := Option.isSome_iff_exists.mp hsome
  have hbytes : found.1.bytes = entry.1.bytes := by simpa using List.find?_some hfound
  have hname : found.1 = entry.1 := by
    obtain ⟨⟨first, _⟩, _⟩ := found
    obtain ⟨⟨second, _⟩, _⟩ := entry
    cases hbytes
    rfl
  have hentry := List.inj_on_of_nodup_map headers.nodup (List.mem_of_find?_eq_some hfound) h hname
  rw [get, hfound, hentry, Option.map_some]

end HeaderMap

theorem normalizeHeaderValue_ne_nil {t : Bytes} (h : ∃ b ∈ t, isSpace b = false) :
    normalizeHeaderValue t ≠ [] := by
  obtain ⟨b, hb, hspace⟩ := h
  refine join_ne_nil (segments_ne_nil ⟨b, ?_, ?_⟩) fun part hpart => ?_
  · exact List.mem_map.mpr ⟨b, hb, by simp [hspace]⟩
  · rintro rfl
    cases hspace
  · simpa using (List.mem_filter.mp hpart).2

-- A value is signed as it is sent when every byte of it is visible, and as empty otherwise.
theorem normalize_toStr (value : HeaderValue) :
    normalizeHeaderValue value.bytes = normalizeHeaderValue (value.toStr.getD []) ↔
      value.Visible := by
  constructor
  · intro h
    by_contra hv
    have hnone : value.toStr = none := if_neg hv
    have hempty : normalizeHeaderValue [] = [] := rfl
    rw [hnone, Option.getD_none, hempty] at h
    unfold HeaderValue.Visible at hv
    push Not at hv
    obtain ⟨b, hb, hvisible⟩ := hv
    refine normalizeHeaderValue_ne_nil ⟨b, hb, ?_⟩ h
    have hlow : b ≠ 9 ∧ ¬ (32 ≤ b.toNat ∧ b.toNat < 127) := by simpa [visible, and_comm] using hvisible
    have hvalid := (value.valid b hb).resolve_left hlow.1
    simp only [isSpace, Bool.or_eq_false_iff, Bool.and_eq_false_iff, decide_eq_false_iff_not]
    refine ⟨?_, by omega⟩
    rintro rfl
    exact hlow.2 (by decide)
  · intro h
    rw [HeaderValue.toStr, if_pos h, Option.getD_some]

theorem headerName_ext {a b : HeaderName} (h : a.bytes = b.bytes) : a = b := by
  obtain ⟨a, _⟩ := a
  obtain ⟨b, _⟩ := b
  cases h
  rfl

def signedHeaders (headers : HeaderMap) : List (Bytes × Bytes) :=
  headers.entries.filterMap fun entry =>
    if shouldSignHeader entry.1.bytes then
      some (entry.1.bytes, normalizeHeaderValue (entry.2.toStr.getD []))
    else none

theorem mem_signedHeaders {header : Bytes × Bytes} :
    header ∈ signedHeaders headers ↔ ∃ entry ∈ headers.entries, shouldSignHeader entry.1.bytes ∧
      (entry.1.bytes, normalizeHeaderValue (entry.2.toStr.getD [])) = header := by
  simp only [signedHeaders, List.mem_filterMap]
  refine exists_congr fun entry => and_congr_right fun _ => ?_
  split
  next h => simp [h]
  next h => simp [h]

theorem any_signed (h : (name, value) ∈ headers.entries) (hs : shouldSignHeader name.bytes) :
    (signedHeaders headers).any (·.1 = name.bytes) := by
  rw [List.any_eq_true]
  exact ⟨_, mem_signedHeaders.mpr ⟨(name, value), h, hs, rfl⟩, by simp⟩

theorem canonicalRequest_headers (method : Method) (url path timestamp payloadHash : Bytes)
    (hhost : ∃ v, (hostName, v) ∈ headers.entries) (hdate : ∃ v, (xDate, v) ∈ headers.entries) :
    (canonicalRequest method url path timestamp
      (headers.entries.map fun header => (header.1.bytes, header.2.toStr.getD []))
      payloadHash).headers =
        (signedHeaders headers).mergeSort fun left right => left.1 ≤ right.1 := by
  obtain ⟨host, hhost⟩ := hhost
  obtain ⟨date, hdate⟩ := hdate
  have hsigned : ((headers.entries.map fun header => (header.1.bytes, header.2.toStr.getD [])).map
      fun header => (asciiLower header.1, header.2)).filterMap (fun header =>
        if shouldSignHeader header.1 then some (header.1, normalizeHeaderValue header.2) else none) =
      signedHeaders headers := by
    rw [List.map_map, List.filterMap_map, signedHeaders]
    refine congrArg (List.filterMap · headers.entries) (funext fun entry => ?_)
    simp only [Function.comp_apply, entry.1.lower]
  have hanyHost : (signedHeaders headers).any (·.1 = ascii "host") := any_signed hhost (by decide)
  have hanyDate : (signedHeaders headers).any (·.1 = ascii "x-date") := any_signed hdate (by decide)
  simp only [canonicalRequest, hsigned, hanyHost, hanyDate, if_true]

-- Every signed header is received as it was signed when the signed values are visible.
theorem signed_received :
    (∀ header ∈ signedHeaders headers,
      (headers.get header.1).map (fun value => normalizeHeaderValue value.bytes) = some header.2) ↔
      ∀ entry ∈ headers.entries, shouldSignHeader entry.1.bytes → entry.2.Visible := by
  constructor
  · intro h entry hentry hsign
    have hheader := h _ (mem_signedHeaders.mpr ⟨entry, hentry, hsign, rfl⟩)
    rw [HeaderMap.get_of_mem hentry, Option.map_some, Option.some.injEq] at hheader
    exact (normalize_toStr entry.2).mp hheader
  · rintro h header hheader
    obtain ⟨entry, hentry, hsign, rfl⟩ := mem_signedHeaders.mp hheader
    rw [HeaderMap.get_of_mem hentry, Option.map_some]
    exact congrArg some ((normalize_toStr entry.2).mpr (h entry hentry hsign))

def CallerVisible (headers : HeaderMap) (token : Option HeaderValue) : Prop :=
  (∀ value, token = some value → value.Visible) ∧
    ∀ entry ∈ headers.entries, ascii "x-ids-" <+: entry.1.bytes → entry.2.Visible

theorem shouldSignHeader_cases (h : shouldSignHeader name.bytes) :
    name = hostName ∨ name = xDate ∨ name = xSecurityToken ∨ ascii "x-ids-" <+: name.bytes := by
  simp only [shouldSignHeader, Bool.or_eq_true, decide_eq_true_eq] at h
  rcases h with ((h | h) | h) | h
  · exact .inl (headerName_ext h)
  · exact .inr (.inl (headerName_ext h))
  · exact .inr (.inr (.inl (headerName_ext h)))
  · exact .inr (.inr (.inr h))

theorem shouldSignHeader_ids (h : ascii "x-ids-" <+: name.bytes) : shouldSignHeader name.bytes := by
  simp [shouldSignHeader, h]

theorem ids_ne {other : HeaderName} (h : ascii "x-ids-" <+: name.bytes)
    (ho : ¬ ascii "x-ids-" <+: other.bytes) : name ≠ other := by
  rintro rfl
  exact ho h

variable {client : IdsClient} {request : Request}

theorem mem_akskHeaders (h : entry ∈ (akskHeaders token now (client.headers request)).entries)
    (hs : shouldSignHeader entry.1.bytes) :
    (∃ value, token = some value ∧ entry = (xSecurityToken, value)) ∨ entry = (xDate, now.value) ∨
      entry = (hostName, client.host) ∨
        entry ∈ request.headers.entries ∧ ascii "x-ids-" <+: entry.1.bytes := by
  rw [akskHeaders, HeaderMap.mem_insertSome] at h
  rcases h with ⟨h, -⟩ | h
  · rw [HeaderMap.mem_insert, IdsClient.headers, applyContentHeaders, HeaderMap.mem_insert] at h
    rcases h with ⟨⟨h, hhost⟩ | rfl, hdate⟩ | rfl
    · rw [HeaderMap.mem_insertSome, HeaderMap.mem_insertSome] at h
      rcases h with ⟨⟨h, -⟩ | ⟨value, -, rfl⟩, -⟩ | ⟨value, -, rfl⟩
      · rw [HeaderMap.mem_remove, HeaderMap.mem_remove] at h
        rcases shouldSignHeader_cases hs with he | he | he | he
        · exact absurd he hhost
        · exact absurd he hdate
        · exact absurd he h.2
        · exact .inr (.inr (.inr ⟨(HeaderMap.mem_remove.mp h.1.1).1, he⟩))
      · exact absurd hs (by simp +decide [shouldSignHeader, contentTypeName])
      · exact absurd hs (by simp +decide [shouldSignHeader, contentLengthName])
    · exact .inr (.inr (.inl rfl))
    · exact .inr (.inl rfl)
  · exact .inl h

theorem caller_mem_akskHeaders (h : entry ∈ request.headers.entries)
    (hids : ascii "x-ids-" <+: entry.1.bytes) :
    entry ∈ (akskHeaders token now (client.headers request)).entries := by
  rw [akskHeaders, HeaderMap.mem_insertSome]
  refine .inl ⟨?_, fun _ => ids_ne hids (by decide)⟩
  rw [HeaderMap.mem_insert, IdsClient.headers, applyContentHeaders, HeaderMap.mem_insert,
    HeaderMap.mem_insertSome, HeaderMap.mem_insertSome, HeaderMap.mem_remove, HeaderMap.mem_remove,
    HeaderMap.mem_remove]
  refine .inl ⟨.inl ⟨.inl ⟨.inl ⟨⟨⟨⟨h, ?_⟩, ?_⟩, ?_⟩, fun _ => ?_⟩, fun _ => ?_⟩, ?_⟩, ?_⟩
  all_goals exact ids_ne hids (by decide)

theorem host_mem_akskHeaders :
    (hostName, client.host) ∈ (akskHeaders token now (client.headers request)).entries := by
  rw [akskHeaders, HeaderMap.mem_insertSome]
  refine .inl ⟨HeaderMap.mem_insert.mpr (.inl ⟨?_, by simp +decide⟩), fun _ => by simp +decide⟩
  exact HeaderMap.mem_insert.mpr (.inr rfl)

theorem date_mem_akskHeaders :
    (xDate, now.value) ∈ (akskHeaders token now (client.headers request)).entries := by
  rw [akskHeaders, HeaderMap.mem_insertSome]
  exact .inl ⟨HeaderMap.mem_insert.mpr (.inr rfl), fun _ => by simp +decide⟩

theorem akskHeaders_visible :
    (∀ entry ∈ (akskHeaders token now (client.headers request)).entries,
      shouldSignHeader entry.1.bytes → entry.2.Visible) ↔ CallerVisible request.headers token := by
  constructor
  · intro h
    refine ⟨fun value hvalue => ?_, fun entry hentry hids => ?_⟩
    · refine h (xSecurityToken, value) ?_ (by simp +decide [shouldSignHeader, xSecurityToken])
      rw [akskHeaders, HeaderMap.mem_insertSome]
      exact .inr ⟨value, hvalue, rfl⟩
    · exact h entry (caller_mem_akskHeaders hentry hids) (shouldSignHeader_ids hids)
  · intro h entry hentry hsign
    rcases mem_akskHeaders hentry hsign with ⟨value, hvalue, rfl⟩ | rfl | rfl | ⟨hcaller, hids⟩
    · exact h.1 value hvalue
    · exact now.visible
    · exact client.host_visible
    · exact h.2 entry hcaller hids

end Headers

end VeStorage.ADrive.Client
