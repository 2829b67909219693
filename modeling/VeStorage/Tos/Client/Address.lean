import VeStorage.Lib.Url
import VeStorage.Tos.Uri

namespace VeStorage.Tos.Client
open Lib Percent
open Lib.Url (slash pathCode queryCode Segment pathText splitPath Undotted readSegments)

def graphic (b : UInt8) : Bool := 33 ≤ b.toNat && b.toNat < 127

-- The parsed host and port of the configured endpoint; a default port is no port.
-- `takesHost` is what the url crate's host parser accepts.
structure Endpoint where
  host : Bytes
  port : Option Bytes
  base : List Segment
  takesHost : Bytes → Bool
  host_graphic : ∀ b ∈ host, graphic b
  port_graphic : ∀ p, port = some p → ∀ b ∈ p, graphic b

def Endpoint.urlPath (endpoint : Endpoint) : List Bytes :=
  if endpoint.base = [] then [[]] else Lib.Url.resolve (endpoint.base.map Segment.bytes)

def endpointUsesVirtualHostedStyle (endpoint : Endpoint) : Bool :=
  decide (endpoint.urlPath = [[]]) && decide (ascii "tos-" <+: endpoint.host)

def bucketByte (b : UInt8) : Bool :=
  (97 ≤ b.toNat && b.toNat ≤ 122) || (48 ≤ b.toNat && b.toNat ≤ 57) || b ∈ ascii "-"

def validateBucketName (bucket : Bytes) : Except CliError Unit :=
  if bucket.length < 3 ∨ bucket.length > 63 then
    .error (.validationError "invalid bucket name, the length must be [3, 63]".toList)
  else if ascii "-" <+: bucket ∨ ascii "-" <:+ bucket then
    .error (.validationError
      ("invalid bucket name, the bucket name can be neither starting with '-' nor ending with " ++
        "'-'").toList)
  else if bucket.all bucketByte then .ok ()
  else .error (.validationError "invalid bucket name, the character set is illegal".toList)

-- A URL as text: its host, its port and what follows them.
structure Address where
  host : Bytes
  port : Option Bytes
  path : Bytes
deriving DecidableEq, Repr

-- A host that is refused leaves the one that was there.
def Address.setHost (address : Address) (takesHost : Bytes → Bool) (newHost : Bytes) : Address :=
  if takesHost newHost then { address with host := newHost } else address

def insertBucketIntoEndpoint (endpoint : Endpoint) (bucket : Bytes) : Address :=
  let url : Address := ⟨endpoint.host, endpoint.port, trimEnd slash (endpoint.urlPath.flatMap (slash :: ·))⟩
  url.setHost endpoint.takesHost (bucket ++ ascii "." ++ endpoint.host)

def bucketEndpoint (endpoint : Endpoint) (bucket : Bytes) : Except CliError Address := do
  validateBucketName bucket
  if endpointUsesVirtualHostedStyle endpoint then
    return insertBucketIntoEndpoint endpoint bucket
  else
    return ⟨endpoint.host, endpoint.port, trimEnd slash (pathText endpoint.base) ++ slash :: bucket⟩

def encodedObjectKeyPath (key : Bytes) : Bytes := pathCode.encode key

def objectEndpoint (endpoint : Endpoint) (bucket key : Bytes) : Except CliError Address := do
  let address ← bucketEndpoint endpoint bucket
  return { address with path := address.path ++ slash :: encodedObjectKeyPath key }

def objectRequestPath (endpoint : Endpoint) (bucket key : Bytes) : Except CliError Bytes := do
  validateBucketName bucket
  if endpointUsesVirtualHostedStyle endpoint then
    return slash :: key
  else
    return slash :: bucket ++ slash :: key

structure Url where
  host : Bytes
  port : Option Bytes
  path : List Bytes
  query : Option Bytes
deriving DecidableEq, Repr

def Url.parse (address : Address) : Url where
  host := address.host
  port := address.port
  path := Lib.Url.resolve (splitPath address.path)
  query := none

def hostPort (host : Bytes) (port : Option Bytes) : Bytes :=
  match port with
  | some port => host ++ ascii ":" ++ port
  | none => host

structure Bucket where
  name : Bytes
  valid : validateBucketName name = .ok ()

-- Where an object is: in path style below its bucket, otherwise below the bucket's own host.
def Addresses (endpoint : Endpoint) (bucket : Bucket) (key : Bytes) (url : Url) : Prop :=
  url.port = endpoint.port ∧
    if endpointUsesVirtualHostedStyle endpoint then
      url.host = bucket.name ++ ascii "." ++ endpoint.host ∧
        readSegments url.path = key.splitOn slash
    else
      url.host = endpoint.host ∧ readSegments url.path = bucket.name :: key.splitOn slash

-- The endpoint's own path leads nowhere, the bucket makes a host and the key has no dot segment.
structure PlainObject (endpoint : Endpoint) (bucket : Bucket) (key : Bytes) : Prop where
  host : endpointUsesVirtualHostedStyle endpoint = true →
    endpoint.takesHost (bucket.name ++ ascii "." ++ endpoint.host) = true
  base : endpointUsesVirtualHostedStyle endpoint = false →
    Lib.Url.normalize ((endpoint.base.rdropWhile (·.bytes = [])).map Segment.bytes) = []
  undotted : Undotted (key.splitOn slash)

section Objects

variable {endpoint : Endpoint} {bucket : Bucket} {key : Bytes} {address : Address}

theorem bucket_chars (bucket : Bucket) : ∀ b ∈ bucket.name, bucketByte b := by
  have hvalid := bucket.valid
  unfold validateBucketName at hvalid
  split at hvalid
  next => cases hvalid
  next =>
    split at hvalid
    next => cases hvalid
    next =>
      split at hvalid
      next hall => exact List.all_eq_true.mp hall
      next => cases hvalid

theorem slash_not_mem_bucket (bucket : Bucket) : slash ∉ bucket.name := by
  intro h
  exact absurd (bucket_chars bucket slash h) (by decide)

theorem bucket_undotted (bucket : Bucket) : bucket.name ≠ ascii "." ∧ bucket.name ≠ ascii ".." := by
  constructor
  all_goals
    intro h
    have hdot := bucket_chars bucket 46 (h ▸ by decide)
    exact absurd hdot (by decide)

theorem encode_bucket (bucket : Bucket) : pathCode.encode bucket.name = bucket.name := by
  have hkeep : ∀ b ∈ bucket.name, unreserved b := by
    intro b hb
    have hbyte := bucket_chars bucket b hb
    simp only [bucketByte, Bool.or_eq_true, Bool.and_eq_true, decide_eq_true_eq] at hbyte
    simp only [unreserved, alphanumeric, Bool.or_eq_true, Bool.and_eq_true, decide_eq_true_eq]
    rcases hbyte with (h | h) | h
    · exact .inl (.inr h)
    · exact .inl (.inl (.inl h))
    · exact .inr (List.mem_cons.mpr (.inl (List.mem_singleton.mp h)))
  refine Code.encode_of_write fun b hb => ?_
  simp [pathCode, uriCode, hkeep b hb]

def bucketHost (endpoint : Endpoint) (bucket : Bucket) : Bytes :=
  if endpointUsesVirtualHostedStyle endpoint ∧
      endpoint.takesHost (bucket.name ++ ascii "." ++ endpoint.host) then
    bucket.name ++ ascii "." ++ endpoint.host
  else endpoint.host

theorem setHost_bucket (hstyle : endpointUsesVirtualHostedStyle endpoint = true) (path : Bytes) :
    Address.setHost ⟨endpoint.host, endpoint.port, path⟩ endpoint.takesHost
      (bucket.name ++ ascii "." ++ endpoint.host) = ⟨bucketHost endpoint bucket, endpoint.port, path⟩ := by
  unfold Address.setHost bucketHost
  cases endpoint.takesHost (bucket.name ++ ascii "." ++ endpoint.host) with
  | true => simp [hstyle]
  | false => simp

theorem bucketHost_pathStyle (hstyle : endpointUsesVirtualHostedStyle endpoint = false) :
    bucketHost endpoint bucket = endpoint.host := by
  simp [bucketHost, hstyle]

-- A bucket that makes no host is not in the URL at all.
theorem bucketHost_eq (hstyle : endpointUsesVirtualHostedStyle endpoint = true) :
    bucketHost endpoint bucket = bucket.name ++ ascii "." ++ endpoint.host ↔
      endpoint.takesHost (bucket.name ++ ascii "." ++ endpoint.host) = true := by
  unfold bucketHost
  cases htakes : endpoint.takesHost (bucket.name ++ ascii "." ++ endpoint.host) with
  | true => simp [hstyle]
  | false =>
    simp only [Bool.false_eq_true, and_false, if_false, iff_false]
    intro he
    have hlength := congrArg List.length he
    simp only [List.length_append] at hlength
    have hdot : (ascii ".").length = 1 := by decide
    omega

theorem objectEndpoint_ok (endpoint : Endpoint) (bucket : Bucket) (key : Bytes) :
    objectEndpoint endpoint bucket.name key = .ok
      (if endpointUsesVirtualHostedStyle endpoint then
        ⟨bucketHost endpoint bucket, endpoint.port, slash :: pathCode.encode key⟩
      else ⟨endpoint.host, endpoint.port,
        pathText (endpoint.base.rdropWhile (·.bytes = [])) ++
          slash :: pathCode.encode (bucket.name ++ slash :: key)⟩) := by
  have hkey : pathCode.encode (bucket.name ++ slash :: key) =
      bucket.name ++ slash :: pathCode.encode key := by
    rw [Lib.Url.pathCode_componentwise.map_append, encode_bucket]
  cases hstyle : endpointUsesVirtualHostedStyle endpoint with
  | true =>
    have hroot : endpoint.urlPath = [[]] := by
      simp only [endpointUsesVirtualHostedStyle, Bool.and_eq_true, decide_eq_true_eq] at hstyle
      exact hstyle.1
    simp only [objectEndpoint, bucketEndpoint, bucket.valid, hstyle, insertBucketIntoEndpoint,
      setHost_bucket hstyle, hroot]
    rfl
  | false =>
    simp only [objectEndpoint, bucketEndpoint, bucket.valid, hstyle, Lib.Url.trimEnd_pathText, hkey]
    simp [bind, Except.bind, encodedObjectKeyPath, pure, Except.pure]

-- The URL of an object, with the segments that stand before those of its key.
def objectUrl (endpoint : Endpoint) (bucket : Bucket) (key : Bytes) : Url where
  host := bucketHost endpoint bucket
  port := endpoint.port
  path := Lib.Url.resolve
    (if endpointUsesVirtualHostedStyle endpoint then (key.splitOn slash).map pathCode.encode
    else (endpoint.base.rdropWhile (·.bytes = [])).map Segment.bytes ++
      (bucket.name :: key.splitOn slash).map pathCode.encode)
  query := none

theorem parse_objectEndpoint (h : objectEndpoint endpoint bucket.name key = .ok address) :
    Url.parse address = objectUrl endpoint bucket key := by
  rw [objectEndpoint_ok, Except.ok.injEq] at h
  subst h
  unfold Url.parse objectUrl
  cases hstyle : endpointUsesVirtualHostedStyle endpoint with
  | true =>
    have hpath : splitPath (slash :: pathCode.encode key) =
        (key.splitOn slash).map pathCode.encode := by
      rw [← Lib.Url.pathCode_componentwise.splitOn_map]
      exact Lib.Url.splitPath_pathText [] _
    simp [hpath]
  | false =>
    have hpath := Lib.Url.splitPath_pathText (endpoint.base.rdropWhile (·.bytes = []))
      (pathCode.encode (bucket.name ++ slash :: key))
    rw [Lib.Url.pathCode_componentwise.splitOn_map,
      List.splitOn_append_cons_self_of_not_mem (slash_not_mem_bucket bucket)] at hpath
    simpa [bucketHost_pathStyle hstyle] using congrArg Lib.Url.resolve hpath

theorem addresses_objectUrl (endpoint : Endpoint) (bucket : Bucket) (key : Bytes) :
    Addresses endpoint bucket key (objectUrl endpoint bucket key) ↔ PlainObject endpoint bucket key := by
  have hkey := not_mem_splitOn slash key
  have hne := List.splitOn_ne_nil slash key
  unfold Addresses objectUrl
  cases hstyle : endpointUsesVirtualHostedStyle endpoint with
  | true =>
    have hread := @Lib.Url.readSegments_resolve [] _ hne hkey
    simp only [List.map_nil, List.nil_append] at hread
    simp only [if_true, true_and, hread, bucketHost_eq hstyle]
    exact ⟨fun h => ⟨fun _ => h.1, fun hf => absurd (hstyle.symm.trans hf) (by decide), h.2.2⟩,
      fun h => ⟨h.host hstyle, rfl, h.undotted⟩⟩
  | false =>
    have hpieces : ∀ piece ∈ bucket.name :: key.splitOn slash, slash ∉ piece := by
      intro piece hpiece
      rcases List.mem_cons.mp hpiece with rfl | hpiece
      · exact slash_not_mem_bucket bucket
      · exact hkey piece hpiece
    simp only [Bool.false_eq_true, if_false, true_and, bucketHost_pathStyle hstyle,
      Lib.Url.readSegments_resolve (List.cons_ne_nil _ _) hpieces]
    constructor
    · rintro ⟨hbase, hundotted⟩
      exact ⟨fun ht => absurd (hstyle.symm.trans ht) (by decide), fun _ => hbase,
        fun s hs => hundotted s (List.mem_cons_of_mem _ hs)⟩
    · rintro ⟨-, hbase, hundotted⟩
      refine ⟨hbase hstyle, fun s hs => ?_⟩
      rcases List.mem_cons.mp hs with rfl | hs
      · exact bucket_undotted bucket
      · exact hundotted s hs

end Objects

end VeStorage.Tos.Client
