import VeStorage.Tos.Payload.Readers
import VeStorage.Tos.Uri
import VeStorage.Lib.Tables
import VeStorage.Lib.TopK
import Mathlib.Data.List.Lex
import Mathlib.Data.Char
import Mathlib.Data.Prod.Lex
import Mathlib.Order.Lex

namespace VeStorage.Tos.Du
open Lib
open Lib.Tables (bump bumpLimited mergeInto mergeLimited)
open Lib.TopK (keepTop)
open Payload (ObjectEntry)

def duCategoryBucketLimit : Nat := 1024

def duRequestIdLimit : Nat := 100

def duOverflowBucket : Text := "(other)".toList

-- The totals are within a u64, as plain numbers.
structure DuDistributionBucket where
  count : Nat
  bytes : Nat
deriving DecidableEq, Repr

namespace DuDistributionBucket

instance : Zero DuDistributionBucket := ⟨⟨0, 0⟩⟩

instance : Add DuDistributionBucket := ⟨fun a b => ⟨a.count + b.count, a.bytes + b.bytes⟩⟩

variable {a b c : DuDistributionBucket}

theorem add_def : a + b = ⟨a.count + b.count, a.bytes + b.bytes⟩ := rfl

theorem zero_def : (0 : DuDistributionBucket) = ⟨0, 0⟩ := rfl

instance : AddCommMonoid DuDistributionBucket where
  add_assoc a b c := by simp [add_def, Nat.add_assoc]
  zero_add a := by simp [add_def, zero_def]
  add_zero a := by simp [add_def, zero_def]
  add_comm a b := by simp [add_def, Nat.add_comm]
  nsmul := nsmulRec

end DuDistributionBucket

abbrev Buckets := List (Text × DuDistributionBucket)

structure DuObjectSample where
  key : Text
  size : UInt64
  lastModified : Option Text
  storageClass : Option Text
  timestampMillis : Option Int
deriving DecidableEq

structure ListManifestItem where
  source : Text
  relativeKey : Option Text
  itemType : Text
  size : UInt64
  etag : Option Text
  lastModified : Option Text
  storageClass : Option Text
  versionId : Option Text

structure DuAccumulator where
  objectCount : Nat
  totalBytes : Nat
  directoryCount : Nat
  directoryPrefixes : List Text
  requestIds : List Text
  requestIdsOmitted : Nat
  captureManifest : Bool
  manifestItems : List ListManifestItem
  fileTypes : Buckets
  directories : Buckets
  sizeHistogram : Buckets
  storageClasses : Buckets
  largestObjects : List DuObjectSample
  oldestObjects : List DuObjectSample
  topK : Nat

-- The size classes in the order of their names.
def emptyHistogram : Buckets :=
  ["0-1K", "1K-1M", "1M-100M", ">100M"].map fun name => (name.toList, 0)

def fileExtensionBucket (key : Text) : Text :=
  let name := lastSegment key
  let ext := name.rtakeWhile (· ≠ '.')
  if '.' ∈ name ∧ ext ≠ [] then ext.map Char.toLower else "(none)".toList

def directoryGroup (key pre : Text) (maxDepth : Option Nat) : Text :=
  let depth := maxDepth.getD (2 ^ 32 - 1)
  if depth = 0 then ".".toList
  else
    let parents := (segments '/' (trim '/' (stripTosPrefix key pre))).dropLast
    let group := ['/'].intercalate (parents.take depth)
    if group = [] then ".".toList else group

def sizeHistogramBucket (size : UInt64) : Text :=
  if size ≤ 1024 then "0-1K".toList
  else if size ≤ 1048576 then "1K-1M".toList
  else if size ≤ 104857600 then "1M-100M".toList
  else ">100M".toList

def storageClassBucket (storageClass : Option Text) : Text :=
  ((storageClass.filter (· ≠ [])).getD "STANDARD".toList).map Char.toUpper

def objectEntryManifestItem (bucket : Text) (rootPrefix : Option Text) (entry : ObjectEntry) :
    ListManifestItem where
  source := "tos://".toList ++ bucket ++ '/' :: entry.key
  relativeKey := some (stripTosPrefix entry.key (rootPrefix.getD []))
  itemType := "object".toList
  size := entry.size
  etag := entry.etag
  lastModified := entry.lastModified
  storageClass := entry.storageClass
  versionId := none

def normalizeTosDirectoryPrefix (dir : Text) : Option Text :=
  let trimmed := trimEnd '/' dir
  if trimmed = [] then none else some (trimmed ++ ['/'])

def largestRank (sample : DuObjectSample) : Lex (OrderDual Nat × Text) :=
  toLex (OrderDual.toDual sample.size.toNat, sample.key)

def oldestRank (sample : DuObjectSample) : Lex (Int × Text) :=
  toLex (sample.timestampMillis.getD (2 ^ 63 - 1), sample.key)

namespace DuAccumulator

def new (topK : Nat) (captureManifest : Bool) : DuAccumulator where
  objectCount := 0
  totalBytes := 0
  directoryCount := 0
  directoryPrefixes := []
  requestIds := []
  requestIdsOmitted := 0
  captureManifest := captureManifest
  manifestItems := []
  fileTypes := []
  directories := []
  sizeHistogram := emptyHistogram
  storageClasses := []
  largestObjects := []
  oldestObjects := []
  topK := topK

variable (acc : DuAccumulator)

def recordLargestSample (sample : DuObjectSample) : DuAccumulator :=
  if acc.topK = 0 then acc
  else { acc with largestObjects := keepTop largestRank acc.topK sample acc.largestObjects }

def recordOldestSample (sample : DuObjectSample) : DuAccumulator :=
  if acc.topK = 0 then acc
  else { acc with oldestObjects := keepTop oldestRank acc.topK sample acc.oldestObjects }

def recordSample (sample : DuObjectSample) : DuAccumulator :=
  let acc := acc.recordLargestSample sample
  if sample.timestampMillis.isSome then acc.recordOldestSample sample else acc

def recordRequestId (requestId : Option Text) : DuAccumulator :=
  match requestId.filter (· ≠ []) with
  | none => acc
  | some requestId =>
      if acc.requestIds.length < duRequestIdLimit then
        { acc with requestIds := acc.requestIds ++ [requestId] }
      else { acc with requestIdsOmitted := acc.requestIdsOmitted + 1 }

def mergeRequestIds (requestIds : List Text) (omittedCount : Nat) : DuAccumulator :=
  requestIds.foldl (fun acc requestId =>
    if acc.requestIds.length < duRequestIdLimit then
      { acc with requestIds := acc.requestIds ++ [requestId] }
    else { acc with requestIdsOmitted := acc.requestIdsOmitted + 1 })
    { acc with requestIdsOmitted := acc.requestIdsOmitted + omittedCount }

def recordDirectoryPrefix (dir : Text) : DuAccumulator :=
  match normalizeTosDirectoryPrefix dir with
  | none => acc
  | some dir =>
      if dir ∈ acc.directoryPrefixes then acc
      else { acc with
        directoryPrefixes := acc.directoryPrefixes ++ [dir]
        directoryCount := acc.directoryCount + 1 }

end DuAccumulator

section Record

variable (parseRfc3339Millis : Text → Option Int) (bucket : Text) (rootPrefix : Option Text)
  (maxDepth : Option Nat)

def duObjectSample (entry : ObjectEntry) : DuObjectSample where
  key := entry.key
  size := entry.size
  lastModified := entry.lastModified
  storageClass := some (storageClassBucket entry.storageClass)
  timestampMillis := entry.lastModified.bind parseRfc3339Millis

def DuAccumulator.recordTosObject (acc : DuAccumulator) (entry : ObjectEntry) : DuAccumulator :=
  let weight : DuDistributionBucket := ⟨1, entry.size.toNat⟩
  let acc := { acc with
    objectCount := acc.objectCount + 1
    totalBytes := acc.totalBytes + entry.size.toNat
    manifestItems :=
      if acc.captureManifest then
        acc.manifestItems ++ [objectEntryManifestItem bucket rootPrefix entry]
      else acc.manifestItems
    fileTypes := bumpLimited duCategoryBucketLimit duOverflowBucket (fileExtensionBucket entry.key)
      weight acc.fileTypes
    directories := bumpLimited duCategoryBucketLimit duOverflowBucket
      (directoryGroup entry.key (rootPrefix.getD []) maxDepth) weight acc.directories
    sizeHistogram := bump (sizeHistogramBucket entry.size) weight acc.sizeHistogram
    storageClasses := bump (storageClassBucket entry.storageClass) weight acc.storageClasses }
  acc.recordSample (duObjectSample parseRfc3339Millis entry)

end Record

-- `visited` is the other's set of directories in the order its iterator takes.
def DuAccumulator.merge (acc other : DuAccumulator) (visited : List Text) : DuAccumulator :=
  let acc := { acc with
    objectCount := acc.objectCount + other.objectCount
    totalBytes := acc.totalBytes + other.totalBytes }
  let acc := visited.foldl recordDirectoryPrefix acc
  let acc := acc.mergeRequestIds other.requestIds other.requestIdsOmitted
  let acc := { acc with
    manifestItems := acc.manifestItems ++ other.manifestItems
    fileTypes := mergeLimited duCategoryBucketLimit duOverflowBucket acc.fileTypes other.fileTypes
    directories := mergeLimited duCategoryBucketLimit duOverflowBucket acc.directories other.directories
    sizeHistogram := mergeInto acc.sizeHistogram other.sizeHistogram
    storageClasses := mergeInto acc.storageClasses other.storageClasses }
  let acc := other.largestObjects.foldl recordLargestSample acc
  other.oldestObjects.foldl recordOldestSample acc

end VeStorage.Tos.Du
