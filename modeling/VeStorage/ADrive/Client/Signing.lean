import Mathlib.Data.List.Nodup
import VeStorage.ADrive.Client.Request

namespace VeStorage.ADrive.Client
open Lib Percent
open Lib.Url (slash question hash)

def visible (b : UInt8) : Bool := (32 ≤ b.toNat && b.toNat < 127) || b = 9

structure HeaderName where
  bytes : Bytes
  lower : asciiLower bytes = bytes
deriving DecidableEq

structure HeaderValue where
  bytes : Bytes
  valid : ∀ b ∈ bytes, b = 9 ∨ 32 ≤ b.toNat ∧ b ≠ 127
deriving DecidableEq

def HeaderValue.Visible (value : HeaderValue) : Prop := ∀ b ∈ value.bytes, visible b

instance (value : HeaderValue) : Decidable value.Visible := inferInstanceAs (Decidable (∀ _ ∈ _, _))

def HeaderValue.toStr (value : HeaderValue) : Option Bytes :=
  if value.Visible then some value.bytes else none

structure HeaderMap where
  entries : List (HeaderName × HeaderValue)
  nodup : (entries.map Prod.fst).Nodup

namespace HeaderMap

def get (headers : HeaderMap) (name : Bytes) : Option HeaderValue :=
  (headers.entries.find? (·.1.bytes = name)).map Prod.snd

def remove (headers : HeaderMap) (name : HeaderName) : HeaderMap where
  entries := headers.entries.filter (·.1 ≠ name)
  nodup := headers.nodup.sublist (List.filter_sublist.map _)

def insert (headers : HeaderMap) (name : HeaderName) (value : HeaderValue) : HeaderMap where
  entries := (headers.remove name).entries ++ [(name, value)]
  nodup := by
    rw [List.map_append, List.nodup_append]
    refine ⟨(headers.remove name).nodup, by simp, ?_⟩
    intro x hx y hy
    obtain ⟨entry, hentry, rfl⟩ := List.mem_map.mp hx
    rw [List.map_singleton, List.mem_singleton] at hy
    subst hy
    simpa using (List.mem_filter.mp hentry).2

end HeaderMap

def authorizationName : HeaderName := ⟨ascii "authorization", by decide⟩

def xDate : HeaderName := ⟨ascii "x-date", by decide⟩

def xSecurityToken : HeaderName := ⟨ascii "x-security-token", by decide⟩

def contentTypeName : HeaderName := ⟨ascii "content-type", by decide⟩

def contentLengthName : HeaderName := ⟨ascii "content-length", by decide⟩

def hostName : HeaderName := ⟨ascii "host", by decide⟩

def insertSome (headers : HeaderMap) (name : HeaderName) (value : Option HeaderValue) : HeaderMap :=
  match value with
  | some value => headers.insert name value
  | none => headers

def applyContentHeaders (host : HeaderValue) (headers : HeaderMap)
    (contentType contentLength : Option HeaderValue) : HeaderMap :=
  (insertSome (insertSome headers contentTypeName contentType) contentLengthName
    contentLength).insert hostName host

def shouldSignHeader (key : Bytes) : Bool :=
  key = ascii "host" || key = ascii "x-date" || key = ascii "x-security-token" ||
    decide (ascii "x-ids-" <+: key)

def isSpace (b : UInt8) : Bool := b = 32 || (9 ≤ b.toNat && b.toNat ≤ 13)

def splitWhitespace (value : Bytes) : List Bytes :=
  segments 32 (value.map fun b => if isSpace b then 32 else b)

def normalizeHeaderValue (value : Bytes) : Bytes := join 32 (splitWhitespace value)

def extractHost (url : Bytes) : Bytes :=
  let rest := match (List.range url.length).find? (ascii "://" <+: url.drop ·) with
    | some position => url.drop (position + 3)
    | none => url
  (splitOnce slash rest).1

def percentDecode (input : Bytes) : Bytes := fromUtf8Lossy (decode formCode.read input)

def pairLe (left right : Bytes × Bytes) : Bool :=
  left.1 < right.1 || (left.1 = right.1 && left.2 ≤ right.2)

def canonicalPairs (pairs : List (Bytes × Bytes)) : Bytes :=
  Lib.Url.render (uriEncode · true) (pairs.mergeSort pairLe)

def canonicalQuery (url : Bytes) : Bytes :=
  match (splitOnce question url).2 with
  | some query => canonicalPairs (Lib.Url.parse percentDecode (splitOnce hash query).1)
  | none => []

structure Canonical where
  method : Method
  path : Bytes
  query : Bytes
  headers : List (Bytes × Bytes)
  payloadHash : Bytes
deriving DecidableEq

def canonicalRequest (method : Method) (url path timestamp : Bytes) (headers : List (Bytes × Bytes))
    (payloadHash : Bytes) : Canonical :=
  let signed := (headers.map fun header => (asciiLower header.1, header.2)).filterMap fun header =>
    if shouldSignHeader header.1 then some (header.1, normalizeHeaderValue header.2) else none
  let signed := if signed.any (·.1 = ascii "host") then signed
    else signed ++ [(ascii "host", extractHost url)]
  let signed := if signed.any (·.1 = ascii "x-date") then signed
    else signed ++ [(ascii "x-date", timestamp)]
  { method
    path := encodePath path
    query := canonicalQuery url
    headers := signed.mergeSort (fun left right => left.1 ≤ right.1)
    payloadHash }

-- The text of the current time.
structure Timestamp where
  value : HeaderValue
  visible : value.Visible

inductive Authorization
  | signature (canonical : Canonical)
  | bearer (accepted : Option Bytes)

structure Sent where
  method : Method
  url : Url
  headers : HeaderMap
  authorization : Authorization

def akskHeaders (token : Option HeaderValue) (now : Timestamp) (headers : HeaderMap) : HeaderMap :=
  insertSome (headers.insert xDate now.value) xSecurityToken token

def applyAkskAuth (token : Option HeaderValue) (now : Timestamp) (payloadHash : Bytes)
    (call : Call) (url : Url) (headers : HeaderMap) : Sent :=
  let headers := akskHeaders token now headers
  let pairs := headers.entries.map fun header => (header.1.bytes, header.2.toStr.getD [])
  { method := call.method
    url
    headers
    authorization := .signature
      (canonicalRequest call.method url.asStr call.path now.value.bytes pairs payloadHash) }

inductive AuthError
  | differentInstance
deriving DecidableEq, Repr

-- The instance that the stored credentials belong to, when they name one.
def validateInstance (stored : Option Bytes) (target : Bytes) : Except AuthError Unit :=
  if stored.any (· ≠ target) then .error .differentInstance else .ok ()

def applyOAuth (stored : Option Bytes) (call : Call) (query : Option Query) (url : Url)
    (headers : HeaderMap) : Except AuthError Sent := do
  let accepted := requestInstanceId call.path query
  if let some inst := accepted then
    validateInstance stored inst
  return { method := call.method, url, headers, authorization := .bearer accepted }

inductive Auth
  | aksk (token : Option HeaderValue) (payloadHash : Bytes)
  | oauth (stored : Option Bytes)

structure IdsClient where
  endpoint : Endpoint
  host : HeaderValue
  host_visible : host.Visible
  auth : Auth

structure Request where
  target : Target
  query : Option Query
  headers : HeaderMap
  contentType : Option HeaderValue
  contentLength : Option HeaderValue

def IdsClient.url (client : IdsClient) (request : Request) : Url :=
  requestUrl client.endpoint request.target.call.path request.query

def IdsClient.headers (client : IdsClient) (request : Request) : HeaderMap :=
  applyContentHeaders client.host
    (((request.headers.remove authorizationName).remove xDate).remove xSecurityToken)
    request.contentType request.contentLength

def sendOnce (client : IdsClient) (now : Timestamp) (request : Request) : Except AuthError Sent :=
  let url := client.url request
  let headers := client.headers request
  match client.auth with
  | .aksk token payloadHash =>
      .ok (applyAkskAuth token now payloadHash request.target.call url headers)
  | .oauth stored => applyOAuth stored request.target.call request.query url headers

end VeStorage.ADrive.Client
