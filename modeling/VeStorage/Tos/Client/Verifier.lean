import VeStorage.Lib.Sorted
import VeStorage.Tos.Client.Signer

namespace VeStorage.Tos.Client
open Lib Percent
open Lib.Url (slash queryCode pathCode readSegments Undotted)

def Received.names (received : Received) : List Bytes := received.signedHeaders.splitOn semicolon

def Received.value (received : Received) (name : Bytes) : Option Bytes :=
  (received.headers.find? (·.1 = name)).map fun header => owsTrim header.2

def Received.parameters (received : Received) : List Pair :=
  sortOn pairRank ((readPairs received.query).filter (·.1 ≠ signatureName))

-- What a receiver computes from the message alone is the text that was signed.
structure Verifies (received : Received) (canonical : Canonical) : Prop where
  method : canonical.method = received.method
  path : canonical.path =
    (readSegments received.path).flatMap fun s => slash :: queryCode.encode s
  query : canonical.query = Lib.Url.render queryCode.encode received.parameters
  sorted : received.names.Pairwise fun a b => byteRank a < byteRank b
  lower : ∀ name ∈ received.names, asciiLower name = name
  headers : canonical.headers.map (fun header => (header.1, some header.2)) =
    received.names.map fun name => (name, received.value name)
  payloadHash : canonical.payloadHash = received.payloadHash

theorem byteRank_injective : Function.Injective byteRank :=
  List.map_injective_iff.mpr fun _ _ h => UInt8.toNat_inj.mp h

section Maps

variable {m : Map} {key value : Bytes} {pair : Pair}

namespace Map

theorem rank_ne : pairRank pair ≠ pairRank (key, value) ↔ pair.1 ≠ key :=
  not_congr byteRank_injective.eq_iff

@[simp] theorem mem_insert :
    pair ∈ (m.insert key value).entries ↔ pair = (key, value) ∨ pair ∈ m.entries ∧ pair.1 ≠ key := by
  rw [insert, mem_insertBy m.ordered, rank_ne]

theorem mem_insertSome {value : Option Bytes} :
    pair ∈ (m.insertSome key value).entries ↔
      (∃ v, value = some v ∧ pair = (key, v)) ∨ pair ∈ m.entries ∧ (value.isSome → pair.1 ≠ key) := by
  cases value with
  | none => simp [insertSome]
  | some value => simp [insertSome]

@[simp] theorem not_mem_empty : pair ∉ empty.entries := List.not_mem_nil

theorem eq_of_key {other : Pair} (h : pair ∈ m.entries) (ho : other ∈ m.entries)
    (hk : pair.1 = other.1) : pair = other :=
  m.ordered.eq_of_rank h ho (congrArg byteRank hk)

theorem ext {m' : Map} (h : ∀ pair, pair ∈ m.entries ↔ pair ∈ m'.entries) : m = m' := by
  obtain ⟨entries, hordered⟩ := m
  obtain ⟨entries', hordered'⟩ := m'
  have he : entries = entries' := hordered.ext hordered' h
  subst he
  rfl

end Map

-- The entry of a list is found by a key that no other entry has.
theorem find_of_unique {l : List Pair} (h : pair ∈ l) (hu : ∀ other ∈ l, other.1 = pair.1 → other = pair) :
    l.find? (·.1 = pair.1) = some pair := by
  have hsome : (l.find? (·.1 = pair.1)).isSome := List.find?_isSome.mpr ⟨pair, h, by simp⟩
  obtain ⟨found, hfound⟩ := Option.isSome_iff_exists.mp hsome
  have hkey : found.1 = pair.1 := by simpa using List.find?_some hfound
  rw [hfound, hu found (List.mem_of_find?_eq_some hfound) hkey]

end Maps

section Trimmed

variable {t : Bytes} {spaces : List Bytes}

theorem trimLeading_of_graphic (hs : ∀ found ∈ spaces, ∃ b rest, found = b :: rest ∧ graphic b = false)
    (h : ∀ b ∈ t, graphic b) (fuel : Nat) : trimLeading spaces fuel t = t := by
  cases fuel with
  | zero => rfl
  | succ fuel =>
    have hnone : spaces.find? (· <+: t) = none := by
      refine List.find?_eq_none.mpr fun found hfound => ?_
      obtain ⟨b, rest, rfl, hb⟩ := hs found hfound
      rw [decide_eq_true_eq]
      rintro ⟨tail, rfl⟩
      have hgraphic := h b (by simp)
      rw [hb] at hgraphic
      cases hgraphic
    rw [trimLeading, hnone]

theorem trimEnds_of_graphic (hs : ∀ found ∈ spaces, ∃ b rest, found = b :: rest ∧ graphic b = false)
    (hr : ∀ found ∈ spaces.map List.reverse, ∃ b rest, found = b :: rest ∧ graphic b = false)
    (h : ∀ b ∈ t, graphic b) : trimEnds spaces t = t := by
  rw [trimEnds, trimLeading_of_graphic hs h]
  rw [trimLeading_of_graphic hr fun b hb => h b (List.mem_reverse.mp hb), List.reverse_reverse]

def startsBlank (found : Bytes) : Bool := found.head?.any fun b => !graphic b

theorem of_startsBlank {found : Bytes} (h : startsBlank found) :
    ∃ b rest, found = b :: rest ∧ graphic b = false := by
  cases found with
  | nil => cases h
  | cons b rest => exact ⟨b, rest, rfl, by simpa [startsBlank] using h⟩

theorem strTrim_of_graphic (h : ∀ b ∈ t, graphic b) : strTrim t = t := by
  have hs : ∀ found ∈ unicodeSpaces, startsBlank found := by decide
  have hr : ∀ found ∈ unicodeSpaces.map List.reverse, startsBlank found := by decide
  exact trimEnds_of_graphic (fun found hf => of_startsBlank (hs found hf))
    (fun found hf => of_startsBlank (hr found hf)) h

theorem owsTrim_of_graphic (h : ∀ b ∈ t, graphic b) : owsTrim t = t := by
  have hs : ∀ found ∈ ([[32], [9]] : List Bytes), startsBlank found := by decide
  have hr : ∀ found ∈ ([[32], [9]] : List Bytes).map List.reverse, startsBlank found := by decide
  exact trimEnds_of_graphic (fun found hf => of_startsBlank (hs found hf))
    (fun found hf => of_startsBlank (hr found hf)) h

theorem graphic_hostPort {host : Bytes} {port : Option Bytes} (hh : ∀ b ∈ host, graphic b)
    (hp : ∀ p, port = some p → ∀ b ∈ p, graphic b) : ∀ b ∈ hostPort host port, graphic b := by
  cases port with
  | none => exact hh
  | some p =>
    intro b hb
    simp only [hostPort, List.mem_append] at hb
    rcases hb with (hb | hb) | hb
    · exact hh b hb
    · exact List.mem_singleton.mp hb ▸ by decide
    · exact hp p rfl b hb

theorem hostPort_eq_host {host : Bytes} {port : Option Bytes} :
    hostPort host port = host ↔ port = none := by
  cases port with
  | none => simp [hostPort]
  | some p => simp [hostPort, ascii]

end Trimmed

section Names

variable {headers : Map}

theorem semicolon_not_mem_lower {t : Bytes} (h : semicolon ∉ t) : semicolon ∉ asciiLower t := by
  intro hmem
  obtain ⟨b, hb, heq⟩ := List.mem_map.mp hmem
  split at heq
  next hupper =>
    have hnat := congrArg UInt8.toNat heq
    have hsemi : semicolon.toNat = 59 := rfl
    rw [UInt8.toNat_ofNat', hsemi] at hnat
    omega
  next => exact h (heq ▸ hb)

theorem splitOn_signedHeaders (hne : headers.entries ≠ [])
    (h : ∀ header ∈ headers.entries, semicolon ∉ header.1) :
    (signedHeaders headers).splitOn semicolon = headers.entries.map fun header => asciiLower header.1 := by
  have hmap : (headers.entries.map fun header => asciiLower header.1) ≠ [] :=
    fun he => hne (List.map_eq_nil_iff.mp he)
  refine List.splitOn_intercalate semicolon (fun name hname => ?_) hmap
  obtain ⟨header, hheader, rfl⟩ := List.mem_map.mp hname
  exact semicolon_not_mem_lower (h header hheader)

theorem asciiLower_idem (t : Bytes) : asciiLower (asciiLower t) = asciiLower t := by
  rw [asciiLower, asciiLower, List.map_map]
  refine List.map_congr_left fun b _ => ?_
  have hb := b.toNat_lt
  simp only [Function.comp_apply]
  split
  next h =>
    have hnat : (UInt8.ofNat (b.toNat + 32)).toNat = b.toNat + 32 := by
      rw [UInt8.toNat_ofNat']
      omega
    rw [hnat, if_neg (by omega)]
  next => rfl

-- Headers are received as they were signed.
theorem headers_verify_iff (received : Received)
    (hn : received.names = headers.entries.map fun header => asciiLower header.1) :
    ((headers.entries.map fun header => (asciiLower header.1, strTrim header.2)).map
        (fun header => (header.1, some header.2)) =
      received.names.map fun name => (name, received.value name)) ↔
      ∀ header ∈ headers.entries, received.value (asciiLower header.1) = some (strTrim header.2) := by
  rw [hn, List.map_map, List.map_map, List.map_inj_left]
  refine forall₂_congr fun header _ => ?_
  simp [eq_comm]

end Names

section Parameters

variable {m : Map}

theorem decode_form_query (t : Bytes) : decode formCode.read (queryCode.encode t) = t := by
  refine Code.decode_encode_of (fun b c hw => ?_) t
  simp only [queryCode, uriCode] at hw
  split at hw
  next h =>
    cases hw
    have hne : b ≠ plus := by
      rintro rfl
      revert h
      decide
    exact if_neg hne
  next => cases hw

theorem parse_query (m : Map) :
    Lib.Url.parse (decode formCode.read) (encodedQueryString m) = m.entries :=
  Lib.Url.parse_render (fun _ => not_mem_uri (by decide) (by decide) (by decide) (by decide))
    (fun _ => not_mem_uri (by decide) (by decide) (by decide) (by decide))
    fun pair _ => ⟨decode_form_query pair.1, decode_form_query pair.2⟩

theorem parse_form (m : Map) :
    Lib.Url.parse (decode formCode.read) (Lib.Url.render formCode.encode m.entries) = m.entries :=
  Lib.Url.parse_render
    (fun _ => not_mem_form (by decide) (by decide) (by decide) (by decide))
    (fun _ => not_mem_form (by decide) (by decide) (by decide) (by decide))
    fun pair _ => ⟨formCode.decode_encode pair.1, formCode.decode_encode pair.2⟩

def Map.remove (m : Map) (key : Bytes) : Map :=
  ⟨m.entries.filter (·.1 ≠ key), List.Pairwise.filter _ m.ordered⟩

theorem sortOn_entries (m : Map) : sortOn pairRank m.entries = m.entries :=
  List.mergeSort_of_pairwise (m.ordered.imp fun h => decide_eq_true h.le)

theorem Map.remove_eq_self {key : Bytes} :
    m.remove key = m ↔ ∀ pair ∈ m.entries, pair.1 ≠ key := by
  constructor
  · intro h pair hpair
    rw [← h] at hpair
    simpa using (List.mem_filter.mp hpair).2
  · intro h
    refine Map.ext fun pair => ?_
    rw [Map.remove, List.mem_filter]
    exact ⟨And.left, fun hp => ⟨hp, by simpa using h pair hp⟩⟩

theorem encodedQueryString_injective {m' : Map} (h : encodedQueryString m = encodedQueryString m') :
    m = m' := by
  have hentries : m.entries = m'.entries := by rw [← parse_query m, h, parse_query m']
  obtain ⟨entries, _⟩ := m
  obtain ⟨entries', _⟩ := m'
  cases hentries
  rfl

end Parameters

section Paths

variable {endpoint : Endpoint} {bucket : Bucket} {key : Bytes}

theorem uriEncode_cons (t : Bytes) :
    uriEncode (slash :: t) = (t.splitOn slash).flatMap fun s => slash :: queryCode.encode s := by
  have hsplit : (slash :: t).splitOn slash = [] :: t.splitOn slash :=
    List.splitOn_append_cons_self [] t
  have hne : (t.splitOn slash).map queryCode.encode ≠ [] :=
    fun he => List.splitOn_ne_nil slash t (List.map_eq_nil_iff.mp he)
  have hjoin : join slash ([] :: (t.splitOn slash).map queryCode.encode) =
      slash :: join slash ((t.splitOn slash).map queryCode.encode) :=
    join_append (List.cons_ne_nil [] []) hne
  rw [uriEncode, if_neg (List.cons_ne_nil _ _), hsplit, List.map_cons, Code.encode_nil, hjoin,
    cons_join hne, List.flatMap_map]

-- The signed path of an object is the one that its URL leads to.
theorem path_verifies (h : PlainObject endpoint bucket key) {path : Bytes}
    (hp : objectRequestPath endpoint bucket.name key = .ok path) :
    uriEncode path = (readSegments (objectUrl endpoint bucket key).path).flatMap
      fun s => slash :: queryCode.encode s := by
  have haddress := (addresses_objectUrl endpoint bucket key).mpr h
  have hpath : path = if endpointUsesVirtualHostedStyle endpoint then slash :: key
      else slash :: (bucket.name ++ slash :: key) := by
    simp only [objectRequestPath, bucket.valid] at hp
    split at hp
    next hstyle => rw [if_pos hstyle]; exact (Except.ok.inj hp).symm
    next hstyle => rw [if_neg hstyle]; exact (Except.ok.inj hp).symm
  have hsegments := haddress.2
  rw [hpath]
  split
  next hstyle =>
    rw [if_pos hstyle] at hsegments
    rw [uriEncode_cons, hsegments.2]
  next hstyle =>
    rw [if_neg hstyle] at hsegments
    rw [uriEncode_cons, hsegments.2,
      List.splitOn_append_cons_self_of_not_mem (slash_not_mem_bucket bucket)]

theorem host_graphic (endpoint : Endpoint) (bucket : Bucket) (key : Bytes) :
    ∀ b ∈ (objectUrl endpoint bucket key).host, graphic b := by
  intro b hb
  rw [objectUrl, bucketHost] at hb
  split at hb
  next =>
    rcases List.mem_append.mp hb with hb | hb
    · rcases List.mem_append.mp hb with hb | hb
      · have hbyte := bucket_chars bucket b hb
        simp only [bucketByte, Bool.or_eq_true, Bool.and_eq_true, decide_eq_true_eq] at hbyte
        simp only [graphic, Bool.and_eq_true, decide_eq_true_eq]
        rcases hbyte with (h | h) | h
        · omega
        · omega
        · exact List.mem_singleton.mp h ▸ by decide
      · exact List.mem_singleton.mp hb ▸ by decide
    · exact endpoint.host_graphic b hb
  next => exact endpoint.host_graphic b hb

end Paths

end VeStorage.Tos.Client
