import VeStorage.Lib.PageLoop
import VeStorage.Lib.Fingerprint
import VeStorage.ADrive.Listing.Normalize
import VeStorage.ADrive.Share.Manifest

namespace VeStorage.ADrive.ShareListing
open Lib
open Lib.PageLoop (Loop)
open Lib.Crash (ensure)
open ADrive.Share (CliError isControl utf8Len)

structure ShareFilesArgs where
  path : Option Text
  marker : Option Text
  maxKeys : Int32

structure ShareListFilesInput where
  pathPrefix : Option Text
  delimiter : Option Text
  marker : Option Text
  limit : Option Nat
  listRoot : Option Bool

-- `underflow`: `max_keys - count` went below zero.
inductive Stop
  | failed (error : CliError)
  | underflow

def maxServicePageSize : Nat := 1000

def maxListingPages : Nat := 10000

def maxMarkerBytes : Nat := 4096

def invalid (message : String) : Stop :=
  .failed (.validation ("[share_files_pagination] " ++ message))

def folderKey (path : Text) : Text := trimEnd '/' path

def normalizePage (page : ListFilesOutput) (listed : Text) : ListFilesOutput :=
  let normalized := normalizeLsFilesAndFolders page.files page.folders listed
  { page with
    files := normalized.1
    folders := normalized.2.filter fun folder =>
      folderKey folder.folder ≠ [] && folderKey folder.folder ≠ folderKey listed }

def validateMarker (marker : Text) : Except Stop Unit :=
  ensure (¬ (marker = [] ∨ utf8Len marker > maxMarkerBytes ∨ marker.any isControl = true))
    (invalid "pagination marker must contain 1..4096 bytes without control characters")

structure Listing where
  output : ListFilesOutput
  maxKeys : Nat
  marker : Option Text
  markers : List Text
  filePaths : List Text
  folderPaths : List Text
  pages : Nat

-- `max_keys as usize` on 64 bits.
def asUsize (n : Int32) : Nat := (n.toInt % 2 ^ 64).toNat

namespace Listing

def new (args : ShareFilesArgs) : Listing where
  output := ⟨[], [], [], false⟩
  maxKeys := asUsize args.maxKeys
  marker := args.marker
  markers := args.marker.toList
  filePaths := []
  folderPaths := []
  pages := 0

variable (s : Listing)

def count : Nat := s.output.files.length + s.output.folders.length

def pageLimit : Except Stop Nat :=
  if s.count ≤ s.maxKeys then .ok (min (s.maxKeys - s.count) maxServicePageSize)
  else .error .underflow

def nextRequest (args : ShareFilesArgs) : Except Stop (ShareListFilesInput × Listing) := do
  ensure (¬ s.pages ≥ maxListingPages) (invalid "listing exceeded the 10000-page safety bound")
  let s := { s with pages := s.pages + 1 }
  let limit ← s.pageLimit
  return ({
    pathPrefix := args.path
    delimiter := some ['/']
    marker := s.marker
    limit := some limit
    listRoot := some args.path.isNone }, s)

def validatePagination (page : ListFilesOutput) : Except Stop Listing := do
  ensure (page.isTruncated ≠ page.nextMarker.isEmpty)
    (invalid "IsTruncated and NextMarker disagree")
  if page.isTruncated = false then return s
  else do
    validateMarker page.nextMarker
    ensure (page.nextMarker ∉ s.markers) (invalid "service repeated a pagination marker")
    return { s with markers := page.nextMarker :: s.markers }

end Listing

-- `Vec::retain` with `HashSet::insert` on each key.
def retainNew {α : Type} (key : α → Text) : List Text → List α → List Text × List α
  | keys, [] => (keys, [])
  | keys, a :: rest =>
      if key a ∈ keys then retainNew key keys rest
      else
        let retained := retainNew key (key a :: keys) rest
        (retained.1, a :: retained.2)

namespace Listing

variable (s : Listing)

def accept (page : ListFilesOutput) (listed : Option Text) : Except Stop Listing := do
  let s ← s.validatePagination page
  let page := normalizePage page (listed.getD [])
  let files := retainNew FileInfo.filePath s.filePaths page.files
  let folders := retainNew (fun folder => folderKey folder.folder) s.folderPaths page.folders
  let limit ← s.pageLimit
  ensure (¬ files.2.length + folders.2.length > limit)
    (invalid "service returned more entries than the requested page size")
  return { s with
    output := ⟨s.output.files ++ files.2, s.output.folders ++ folders.2, page.nextMarker,
      page.isTruncated⟩
    marker := if page.isTruncated then some page.nextMarker else none
    filePaths := files.1
    folderPaths := folders.1 }

def isFinished : Bool := s.count ≥ s.maxKeys || !s.output.isTruncated

end Listing

def listedPath (args : ShareFilesArgs) : Option Text := args.path.filter (· ≠ ['/'])

def loop (args : ShareFilesArgs) : Loop Listing ShareListFilesInput ListFilesOutput Stop where
  ask s := do
    let next ← s.nextRequest args
    return some next
  accept s page := do
    let s ← s.accept page (listedPath args)
    return (s, s.isFinished)

-- One turn more than the page bound allows.
def listFiles (args : ShareFilesArgs) (listPage : Nat → Except CliError ListFilesOutput) :
    List ShareListFilesInput × Option (Except Stop Listing) :=
  (loop args).run (fun n => (listPage n).mapError .failed) (maxListingPages + 1) 0
    (Listing.new args)

end VeStorage.ADrive.ShareListing
