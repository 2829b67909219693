import VeStorage.Tos.Payload.Names
import VeStorage.Tos.RollingCsv

namespace VeStorage.Tos.Payload
open Lib
open RollingCsv (parseUsize parseUsize_toDigits)

def texts (names : List String) : List Text := names.map String.toList

def Value.listed : Value → Option (List Value)
  | .array items => some items
  | .object fields => some [.object fields]
  | _ => none

def jsonArray (value : Value) (names : List String) : List Value :=
  ((texts names).findSome? fun name => (value.get name).bind Value.listed).getD []

def Value.printed (value : Value) : Option Text :=
  value.asStr.or (value.asU64.map fun number => Nat.toDigits 10 number.toNat)

def jsonString (value : Value) (names : List String) : Option Text :=
  (texts names).findSome? fun name => (value.get name).bind Value.printed

def parseBool (text : Text) : Option Bool :=
  let lower := text.map Char.toLower
  if lower = "true".toList then some true
  else if lower = "false".toList then some false
  else none

def Value.switched (value : Value) : Option Bool := value.asBool.or (value.asStr.bind parseBool)

def jsonBool (value : Value) (names : List String) : Option Bool :=
  (texts names).findSome? fun name => (value.get name).bind Value.switched

def u32Max : Nat := 2 ^ 32 - 1

def parseU32 (text : Text) : Option UInt32 :=
  ((parseUsize text).filter (· ≤ u32Max)).map UInt32.ofNat

def parseU64 (text : Text) : Option UInt64 := (parseUsize text).map UInt64.ofNat

def Value.small (value : Value) : Option UInt32 :=
  (value.asU64.bind fun number =>
    if number.toNat ≤ u32Max then some (UInt32.ofNat number.toNat) else none).or
      (value.asStr.bind parseU32)

def jsonU32 (value : Value) (names : List String) : Option UInt32 :=
  (texts names).findSome? fun name => (value.get name).bind Value.small

def Value.large (value : Value) : Option UInt64 := value.asU64.or (value.asStr.bind parseU64)

def jsonU64 (value : Value) (names : List String) : Option UInt64 :=
  (texts names).findSome? fun name => (value.get name).bind Value.large

-- The chains of `get` with `or_else`, read as a string.
def getStr (value : Value) (names : List String) : Option Text :=
  ((texts names).findSome? value.get).bind Value.asStr

structure ObjectEntry where
  key : Text
  size : UInt64
  lastModified : Option Text
  etag : Option Text
  storageClass : Option Text

def parseObjectEntry (value : Value) : Option ObjectEntry :=
  (jsonString value ["key", "Key"]).map fun key => {
    key := key
    size := (jsonU64 value ["size", "Size", "content_length", "ContentLength"]).getD 0
    lastModified := jsonString value ["last_modified", "LastModified"]
    etag := jsonString value ["etag", "e_tag", "ETag"]
    storageClass := jsonString value ["storage_class", "StorageClass"] }

def parseCommonPrefixEntry (value : Value) : Option Text :=
  value.asStr.or (getStr value ["Prefix", "prefix"])

structure ObjectVersionRef where
  key : Text
  versionId : Text

def parseVersion (value : Value) : Option ObjectVersionRef :=
  (jsonString value ["key", "Key"]).bind fun key =>
    (jsonString value ["version_id", "VersionId"]).map fun versionId => ⟨key, versionId⟩

structure MultipartUploadRef where
  key : Text
  uploadId : Text

def parseUpload (value : Value) : Option MultipartUploadRef :=
  let key := (getStr value ["Key", "key"]).getD []
  let uploadId := (getStr value ["UploadId", "upload_id", "uploadId", "uploadID"]).getD []
  if key ≠ [] ∧ uploadId ≠ [] then some ⟨key, uploadId⟩ else none

def commonPrefixNames : List String :=
  ["common_prefixes", "CommonPrefixes", "commonPrefixes", "common_prefix", "commonPrefix"]

-- What a listing takes from one page; the markers only where another page follows.
structure PageRead (α : Type) where
  items : List α
  prefixes : List Text
  next : Option (List (Option Text))

def markers (json : Value) (names : List (List String)) : Option (List (Option Text)) :=
  if (jsonBool json ["is_truncated", "IsTruncated"]).getD false then
    some (names.map (jsonString json))
  else none

def readObjects (json : Value) : PageRead ObjectEntry where
  items := (jsonArray json ["contents", "Contents", "objects"]).filterMap parseObjectEntry
  prefixes := (jsonArray json commonPrefixNames).filterMap parseCommonPrefixEntry
  next := markers json
    [["next_continuation_token", "NextContinuationToken", "next_marker", "NextMarker"]]

def readVersions (json : Value) : PageRead ObjectVersionRef where
  items := (jsonArray json ["versions", "Versions"]).filterMap parseVersion ++
    (jsonArray json ["delete_markers", "DeleteMarkers"]).filterMap parseVersion
  prefixes := (jsonArray json commonPrefixNames).filterMap parseCommonPrefixEntry
  next := markers json
    [["next_key_marker", "NextKeyMarker"], ["next_version_id_marker", "NextVersionIdMarker"]]

def readUploads (json : Value) : PageRead MultipartUploadRef where
  items := (jsonArray json ["uploads", "upload", "Uploads", "Upload"]).filterMap parseUpload
  prefixes := []
  next := markers json
    [["next_key_marker", "NextKeyMarker"], ["next_upload_id_marker", "NextUploadIdMarker"]]

def readParts (json : Value) : PageRead UInt32 where
  items := (jsonArray json ["parts", "part", "Parts", "Part"]).filterMap fun part =>
    jsonU32 part ["part_number", "part_id", "PartNumber"]
  prefixes := []
  next := markers json [["next_part_number_marker", "NextPartNumberMarker"]]

section Normal

variable {value : Value} {g : Name → Option Value} {names : List String} {α : Type}

def namesOf (names : List String) : List Name := (texts names).filterMap ofSnake

-- What the readers ask for, and the names that are found so.
def asked : List (List String × List Name) :=
  [(["key", "Key"], [.key]),
    (["size", "Size", "content_length", "ContentLength"], [.size]),
    (["last_modified", "LastModified"], [.lastModified]),
    (["etag", "e_tag", "ETag"], [.etag]),
    (["storage_class", "StorageClass"], [.storageClass]),
    (["Prefix", "prefix"], [.keyPrefix]),
    (["version_id", "VersionId"], [.versionId]),
    (["Key", "key"], [.key]),
    (["UploadId", "upload_id", "uploadId", "uploadID"], [.uploadId]),
    (["part_number", "part_id", "PartNumber"], [.partNumber]),
    (["is_truncated", "IsTruncated"], [.isTruncated]),
    (commonPrefixNames, [.commonPrefixes]),
    (["contents", "Contents", "objects"], [.contents]),
    (["next_continuation_token", "NextContinuationToken", "next_marker", "NextMarker"],
      [.nextContinuationToken, .nextMarker]),
    (["versions", "Versions"], [.versions]),
    (["delete_markers", "DeleteMarkers"], [.deleteMarkers]),
    (["next_key_marker", "NextKeyMarker"], [.nextKeyMarker]),
    (["next_version_id_marker", "NextVersionIdMarker"], [.nextVersionIdMarker]),
    (["next_upload_id_marker", "NextUploadIdMarker"], [.nextUploadIdMarker]),
    (["uploads", "upload", "Uploads", "Upload"], [.uploads, .upload]),
    (["next_part_number_marker", "NextPartNumberMarker"], [.nextPartNumberMarker]),
    (["parts", "part", "Parts", "Part"], [.parts, .part])]

theorem namesOf_asked {found : List Name} (h : (names, found) ∈ asked) : namesOf names = found := by
  have hall : ∀ entry ∈ asked, namesOf entry.1 = entry.2 := by decide +kernel
  exact hall _ h

theorem findSome_normal (h : Normal value g) (f : Value → Option α) :
    ((texts names).findSome? fun name => (value.get name).bind f) =
      (namesOf names).findSome? fun name => (g name).bind f := by
  unfold namesOf
  induction texts names with
  | nil => rfl
  | cons text rest ih =>
    rw [List.findSome?_cons, ih, h text]
    cases hname : ofSnake text with
    | none => rw [List.filterMap_cons_none hname, Option.bind_none, Option.bind_none]
    | some name => rw [List.filterMap_cons_some hname, List.findSome?_cons, Option.bind_some]

theorem getStr_normal (h : Normal value g) :
    getStr value names = ((namesOf names).findSome? g).bind Value.asStr := by
  have hfind : ((texts names).findSome? fun name => (value.get name).bind some) =
      (namesOf names).findSome? fun name => (g name).bind some := findSome_normal h some
  simp only [Option.bind_fun_some] at hfind
  rw [getStr, hfind]

end Normal

end VeStorage.Tos.Payload
