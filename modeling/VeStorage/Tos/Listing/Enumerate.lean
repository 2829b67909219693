import VeStorage.Lib.Paging
import VeStorage.Tos.Plan
import VeStorage.Tos.Rm.Plan

namespace VeStorage.Tos.Listing
open Lib
open Rm (ObjectVersionRef MultipartUploadRef versionRank namedUploads)

inductive Binary where
  | tos
  | veTos
deriving DecidableEq

-- The query parameters, by their names.
inductive Param where
  | listType
  | maxKeys
  | pre
  | delimiter
  | continuationToken
  | versions
  | keyMarker
  | versionIdMarker
  | uploads
  | maxUploads
  | uploadIdMarker
  | uploadId
  | uploadID
  | maxParts
  | partNumberMarker
deriving DecidableEq

abbrev Query := List (Param × Text)

def Query.insertSome (q : Query) (name : Param) : Option Text → Query
  | some value => q ++ [(name, value)]
  | none => q

@[ext] structure Marker where
  first : Option Text
  second : Option Text

def Marker.none : Marker := ⟨Option.none, Option.none⟩

inductive Api where
  | listObjects
  | listObjectVersions
  | listMultipartUploads
  | listParts

def Api.firstMarker : Api → Param
  | .listObjects => .continuationToken
  | .listObjectVersions => .keyMarker
  | .listMultipartUploads => .keyMarker
  | .listParts => .partNumberMarker

def Api.secondMarker : Api → Option Param
  | .listObjectVersions => some .versionIdMarker
  | .listMultipartUploads => some .uploadIdMarker
  | _ => none

def readMarker (api : Api) (q : Query) : Marker :=
  ⟨List.lookup api.firstMarker q, api.secondMarker.bind fun name => List.lookup name q⟩

def stripMarker (api : Api) (q : Query) : Query :=
  q.filter fun p => decide (p.1 ≠ api.firstMarker ∧ some p.1 ≠ api.secondMarker)

def Marker.without (m : Marker) (first second : Bool) : Marker :=
  ⟨if first then Option.none else m.first, if second then Option.none else m.second⟩

-- A truncated page may leave out either of its markers. A first marker alone never starts earlier
-- than both do, and a request without the first marker gets the first page.
structure ApiService (api : Api) (α : Type) extends Service α Marker where
  token : Nat → Marker
  omitsFirst : Nat → Bool
  omitsSecond : Nat → Bool
  first_eq : first = .none
  token_first : ∀ n, (token n).first.isSome = true
  token_single : api.secondMarker = Option.none → ∀ n, (token n).second = Option.none
  next_eq : ∀ n, next n = (token (toListing.after n)).without (omitsFirst n) (omitsSecond n)
  position_token : ∀ n, position (token n) = n
  position_first_alone : ∀ n, n ≤ position ⟨(token n).first, Option.none⟩
  position_second_alone : ∀ second, position ⟨Option.none, second⟩ = 0

-- Every truncated page carries all its markers.
def ApiService.Marked {api : Api} {α : Type} (S : ApiService api α) : Prop :=
  ∀ n, S.Begins 0 n → S.truncated n = true → S.next n = S.token (S.after n)

-- What the service holds for a request, by the parameters other than its markers.
abbrev Matching (api : Api) (α : Type) := Query → ApiService api α

def Matching.send {api : Api} {α : Type} (S : Matching api α) (q : Query) : Page α Marker :=
  (S (stripMarker api q)).answer (readMarker api q)

inductive Row (I : Type) where
  | entry (i : I)
  | commonPrefix (q : Text)
deriving DecidableEq

def Row.entry? {I : Type} : Row I → Option I
  | .entry i => some i
  | .commonPrefix _ => none

def Row.prefix? {I : Type} : Row I → Option Text
  | .entry _ => none
  | .commonPrefix q => some q

def entriesOf {I : Type} (rows : List (Row I)) : List I := rows.filterMap Row.entry?

def prefixesOf {I : Type} (rows : List (Row I)) : List Text := rows.filterMap Row.prefix?

abbrev Outcome (ρ : Type) := Option (Except Text ρ)

def missingToken : Text :=
  "truncated ListObjects JSON response is missing a continuation token".toList

def missingVersionMarkers : Text :=
  "truncated ListObjectVersions response is missing pagination markers".toList

def missingPartMarker : Text :=
  "truncated ListParts JSON response is missing next part marker".toList

def listObjectsType2Query (maxKeys : Text) : Query := [(.listType, "2".toList), (.maxKeys, maxKeys)]

def objectsQuery (pre delimiter token : Option Text) : Query :=
  (((listObjectsType2Query "1000".toList).insertSome .pre pre).insertSome .delimiter
    delimiter).insertSome .continuationToken token

def listObjectEntries (S : Matching .listObjects (Row ObjectEntry)) (pre delimiter : Option Text)
    (fuel : Nat) : Outcome (List ObjectEntry) :=
  paginate (fun m => S.send (objectsQuery pre delimiter m.first)) (fun next => next.first.isSome)
    (fun rows => .ok (sortOn ObjectEntry.key (entriesOf rows))) (fun _ => .error missingToken)
    fuel .none []

def listObjectEntriesWithPrefixes (S : Matching .listObjects (Row ObjectEntry))
    (pre delimiter : Option Text) (fuel : Nat) : Outcome (List ObjectEntry × List Text) :=
  paginate (fun m => S.send (objectsQuery pre delimiter m.first)) (fun next => next.first.isSome)
    (fun rows => .ok (sortOn ObjectEntry.key (entriesOf rows), sortOn id (prefixesOf rows)))
    (fun _ => .error missingToken) fuel .none []

structure ListObjectsPage where
  entries : List ObjectEntry
  prefixes : List Text
  nextToken : Option Text
  isTruncated : Bool

def listObjectEntriesPage (S : Matching .listObjects (Row ObjectEntry))
    (pre delimiter token : Option Text) : Except Text ListObjectsPage :=
  let page := S.send (objectsQuery pre delimiter token)
  if page.isTruncated && page.next.first.isNone then .error missingToken
  else .ok ⟨entriesOf page.items, prefixesOf page.items,
    if page.isTruncated then page.next.first else none, page.isTruncated⟩

-- The loop around `list_object_entries_page`: the entries and prefixes handed on, in order.
def forEachPage (S : Matching .listObjects (Row ObjectEntry)) (pre delimiter : Option Text) :
    Nat → Option Text → List ObjectEntry → List Text → Outcome (List ObjectEntry × List Text)
  | 0, _, _, _ => none
  | fuel + 1, token, entries, prefixes =>
      match listObjectEntriesPage S pre delimiter token with
      | .error e => some (.error e)
      | .ok page =>
          if page.isTruncated then
            forEachPage S pre delimiter fuel page.nextToken (entries ++ page.entries)
              (prefixes ++ page.prefixes)
          else some (.ok (entries ++ page.entries, prefixes ++ page.prefixes))

def versionsQuery (pre delimiter keyMarker versionIdMarker : Option Text) : Query :=
  (((Query.insertSome [(.versions, []), (.maxKeys, "1000".toList)] .pre pre).insertSome .delimiter
    delimiter).insertSome .keyMarker keyMarker).insertSome .versionIdMarker versionIdMarker

def listObjectVersionsWithPrefixes (S : Matching .listObjectVersions (Row ObjectVersionRef))
    (pre delimiter : Option Text) (fuel : Nat) : Outcome (List ObjectVersionRef × List Text) :=
  paginate (fun m => S.send (versionsQuery pre delimiter m.first m.second))
    (fun next => next.first.isSome || next.second.isSome)
    (fun rows => .ok (sortOn versionRank (entriesOf rows), dedupBy id (sortOn id (prefixesOf rows))))
    (fun _ => .error missingVersionMarkers) fuel .none []

def uploadsQuery (pre keyMarker uploadIdMarker : Option Text) : Query :=
  ((Query.insertSome [(.uploads, []), (.maxUploads, "1000".toList)] .pre pre).insertSome .keyMarker
    keyMarker).insertSome .uploadIdMarker uploadIdMarker

-- A truncated page without a key marker ends this loop as the last page does.
def listMultipartUploadsForRm (S : Matching .listMultipartUploads MultipartUploadRef)
    (pre : Option Text) (fuel : Nat) : Outcome (List MultipartUploadRef) :=
  paginate (fun m => S.send (uploadsQuery pre m.first m.second)) (fun next => next.first.isSome)
    (fun uploads => .ok (namedUploads uploads)) (fun uploads => .ok (namedUploads uploads)) fuel .none []

def multipartUploadIdQuery (b : Binary) (uploadId : Text) : Query :=
  [(if b = .tos then .uploadID else .uploadId, uploadId)]

def listPartsQuery (b : Binary) (uploadId : Text) (partNumberMarker : Option Text) : Query :=
  if b = .tos then multipartUploadIdQuery b uploadId
  else ((multipartUploadIdQuery b uploadId).insertSome .maxParts (some "1000".toList)).insertSome
    .partNumberMarker partNumberMarker

def listUploadedPartNumbers (b : Binary) (S : Matching .listParts Nat) (uploadId : Text) (fuel : Nat) :
    Outcome (Finset Nat) :=
  paginate (fun m => S.send (listPartsQuery b uploadId m.first)) (fun next => next.first.isSome)
    (fun parts => .ok parts.toFinset) (fun _ => .error missingPartMarker) fuel .none []

end VeStorage.Tos.Listing
