import Mathlib.Data.List.Lex
import VeStorage.Lib.Ordered
import VeStorage.Tos.Client.Address

namespace VeStorage.Tos.Client
open Lib Percent
open Lib.Url (slash queryCode)

abbrev Pair := Bytes × Bytes

def byteRank (t : Bytes) : List ℕ := t.map UInt8.toNat

def pairRank (pair : Pair) : List ℕ := byteRank pair.1

structure Map where
  entries : List Pair
  ordered : Ordered pairRank entries

namespace Map

def empty : Map := ⟨[], ordered_nil⟩

def insert (m : Map) (key value : Bytes) : Map :=
  ⟨insertBy pairRank (key, value) m.entries, ordered_insertBy m.ordered⟩

def insertSome (m : Map) (key : Bytes) (value : Option Bytes) : Map :=
  match value with
  | some value => m.insert key value
  | none => m

end Map

section Trim

def trimLeading (spaces : List Bytes) : Nat → Bytes → Bytes
  | 0, t => t
  | fuel + 1, t => match spaces.find? (· <+: t) with
    | some found => trimLeading spaces fuel (t.drop found.length)
    | none => t

def trimEnds (spaces : List Bytes) (t : Bytes) : Bytes :=
  let rest := trimLeading spaces t.length t
  (trimLeading (spaces.map List.reverse) rest.length rest.reverse).reverse

-- The white space of Unicode, as UTF-8.
def unicodeSpaces : List Bytes :=
  [[9], [10], [11], [12], [13], [32], [0xC2, 0x85], [0xC2, 0xA0], [0xE1, 0x9A, 0x80]] ++
    (List.range 11).map (fun n => [0xE2, 0x80, UInt8.ofNat (0x80 + n)]) ++
    [[0xE2, 0x80, 0xA8], [0xE2, 0x80, 0xA9], [0xE2, 0x80, 0xAF], [0xE2, 0x81, 0x9F],
      [0xE3, 0x80, 0x80]]

def strTrim : Bytes → Bytes := trimEnds unicodeSpaces

-- The white space that a receiver strips around a header value.
def owsTrim : Bytes → Bytes := trimEnds [[32], [9]]

end Trim

def hostName : Bytes := ascii "host"

def dateName : Bytes := ascii "x-tos-date"

def contentSha256Name : Bytes := ascii "x-tos-content-sha256"

def securityTokenName : Bytes := ascii "x-tos-security-token"

def authorizationName : Bytes := ascii "authorization"

def signatureName : Bytes := ascii "X-Tos-Signature"

def signedHeadersName : Bytes := ascii "X-Tos-SignedHeaders"

def unsignedPayload : Bytes := ascii "UNSIGNED-PAYLOAD"

structure Moment where
  date : Bytes
  datetime : Bytes
  graphic : ∀ b ∈ datetime, Client.graphic b

structure V4Signer where
  accessKey : Bytes
  region : Bytes
  service : Bytes
  securityToken : Option Bytes

def credentialScope (signer : V4Signer) (now : Moment) : Bytes :=
  now.date ++ slash :: signer.region ++ slash :: signer.service ++ slash :: ascii "request"

structure Canonical where
  method : Bytes
  path : Bytes
  query : Bytes
  headers : List Pair
  payloadHash : Bytes
deriving DecidableEq, Repr

def uriEncode (uri : Bytes) : Bytes :=
  if uri = [] then [slash] else join slash ((uri.splitOn slash).map queryCode.encode)

def encodedQueryString (query : Map) : Bytes := Lib.Url.render queryCode.encode query.entries

def canonicalRequest (method uri : Bytes) (query headers : Map) (payloadHash : Bytes) : Canonical where
  method := method
  path := uriEncode uri
  query := encodedQueryString query
  headers := headers.entries.map fun header => (asciiLower header.1, strTrim header.2)
  payloadHash := payloadHash

def semicolon : UInt8 := 59

def signedHeaders (headers : Map) : Bytes :=
  join semicolon (headers.entries.map fun header => asciiLower header.1)

def signHeaders (signer : V4Signer) (now : Moment) (headers : Map) (payloadHash : Bytes) : Map :=
  ((headers.insert dateName now.datetime).insertSome securityTokenName signer.securityToken).insert
    contentSha256Name payloadHash

-- The headers that carry the signature, without `Authorization` itself.
def clientSignedHeaders (signer : V4Signer) (now : Moment) (payloadHash : Bytes) : Map :=
  ((Map.empty.insert dateName now.datetime).insert contentSha256Name payloadHash).insertSome
    securityTokenName signer.securityToken

def eqIgnoreAsciiCase (a b : Bytes) : Bool := asciiLower a = asciiLower b

def hasHeaderCaseInsensitive (headers : Map) (name : Bytes) : Bool :=
  headers.entries.any fun header => eqIgnoreAsciiCase header.1 name

-- A message at its receiver, its header names in lower case.
structure Received where
  method : Bytes
  path : List Bytes
  query : Option Bytes
  headers : List Pair
  signedHeaders : Bytes
  payloadHash : Bytes

def wireHeaders (signed headers : Map) : List Pair :=
  (signed.entries ++ headers.entries.filter fun header =>
    !eqIgnoreAsciiCase header.1 hostName && !eqIgnoreAsciiCase header.1 authorizationName &&
      !hasHeaderCaseInsensitive signed header.1).map fun header => (asciiLower header.1, header.2)

structure ObjectRequest where
  method : Bytes
  bucket : Bucket
  key : Bytes
  query : Map
  extraHeaders : Map
  payloadHash : Bytes
  extra_token : ∀ header ∈ extraHeaders.entries, semicolon ∉ header.1
  payload_graphic : ∀ b ∈ payloadHash, graphic b

structure Sent where
  url : Url
  received : Received
  canonical : Canonical

def withQuery (url : Url) (query : Map) : Url :=
  if query.entries = [] then url else { url with query := some (encodedQueryString query) }

def sendRequestOnce (signer : V4Signer) (now : Moment) (address : Address) (path : Bytes)
    (request : ObjectRequest) : Sent :=
  let target := Url.parse address
  let headers := request.extraHeaders.insert hostName target.host
  let url := withQuery target request.query
  let signing := signHeaders signer now headers request.payloadHash
  let signed := clientSignedHeaders signer now request.payloadHash
  { url
    received :=
      { method := request.method
        path := url.path
        query := url.query
        headers := (hostName, hostPort url.host url.port) :: wireHeaders signed headers
        signedHeaders := signedHeaders signing
        payloadHash := request.payloadHash }
    canonical := canonicalRequest request.method path request.query signing request.payloadHash }

def sendRequest (endpoint : Endpoint) (signer : V4Signer) (now : Moment) (request : ObjectRequest) :
    Except CliError Sent := do
  let address ← objectEndpoint endpoint request.bucket.name request.key
  let path ← objectRequestPath endpoint request.bucket.name request.key
  return sendRequestOnce signer now address path request

def decimal (n : Nat) : Bytes := (Nat.toDigits 10 n).map fun c => UInt8.ofNat c.toNat

def presignHeaders (signer : V4Signer) (headers : Map) : Map :=
  headers.insertSome securityTokenName signer.securityToken

-- The signed parameters of a presigned URL.
def presignParameters (signer : V4Signer) (now : Moment) (query headers : Map) (expires : Nat) : Map :=
  (((((query.insert (ascii "X-Tos-Algorithm") (ascii "TOS4-HMAC-SHA256")).insert
    (ascii "X-Tos-Credential") (signer.accessKey ++ slash :: credentialScope signer now)).insert
    (ascii "X-Tos-Date") now.datetime).insert (ascii "X-Tos-Expires") (decimal expires)).insert
    signedHeadersName (signedHeaders (presignHeaders signer headers))).insertSome
    (ascii "X-Tos-Security-Token") signer.securityToken

def presignCanonical (signer : V4Signer) (now : Moment) (method uri : Bytes) (query headers : Map)
    (expires : Nat) : Canonical :=
  canonicalRequest method uri (presignParameters signer now query headers expires)
    (presignHeaders signer headers) unsignedPayload

def presignQuery (sign : Canonical → Bytes) (signer : V4Signer) (now : Moment) (method uri : Bytes)
    (query headers : Map) (expires : Nat) : Map :=
  (presignParameters signer now query headers expires).insert signatureName
    (sign (presignCanonical signer now method uri query headers expires))

structure Presigned where
  url : Url
  canonical : Canonical

def presignObjectUrl (sign : Canonical → Bytes) (endpoint : Endpoint) (signer : V4Signer)
    (now : Moment) (method : Bytes) (bucket : Bucket) (key : Bytes) (expires : Nat) :
    Except CliError Presigned := do
  if expires = 0 then
    throw (.validationError "presign expires must be greater than 0".toList)
  let address ← objectEndpoint endpoint bucket.name key
  let path ← objectRequestPath endpoint bucket.name key
  let target := Url.parse address
  let headers := Map.empty.insert hostName target.host
  let query := presignQuery sign signer now method path Map.empty headers expires
  return {
    url := { target with query := some (Lib.Url.render formCode.encode query.entries) }
    canonical := presignCanonical signer now method path Map.empty headers expires }

def readPairs (query : Option Bytes) : List Pair :=
  Lib.Url.parse (decode formCode.read) (query.getD [])

-- A client that fetches a URL sends the host, with the port when there is one, and nothing else.
def fetch (method : Bytes) (url : Url) : Received where
  method := method
  path := url.path
  query := url.query
  headers := [(hostName, hostPort url.host url.port)]
  signedHeaders := (((readPairs url.query).find? (·.1 = signedHeadersName)).map Prod.snd).getD []
  payloadHash := unsignedPayload

end VeStorage.Tos.Client
