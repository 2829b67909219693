import VeStorage.ADrive.Share.Manifest
import VeStorage.Lib.Ordered
import Mathlib.Data.List.Lex
import Mathlib.Data.Char
import Mathlib.Logic.Relation

namespace VeStorage.ADrive.Share
open Lib
open Lib.Crash (ensure)

structure FileInfo where
  filePath : Text
  fileType : Text
  size : Int
  etag : Text
  hashCrc64Ecma : Nat
  updatedAt : Int

structure FolderInfo where
  folder : Text
  updatedAt : Int

structure ListFilesOutput where
  nextMarker : Text
  isTruncated : Bool
  folders : List FolderInfo
  files : List FileInfo

structure DirectoryListing where
  files : List FileInfo
  folders : List FolderInfo

def okOr {α : Type} (o : Option α) (err : CliError) : Except CliError α :=
  match o with
  | some a => .ok a
  | none => .error err

variable (u : Unicode)

def isFolder (info : FileInfo) : Bool :=
  toAsciiLowercase info.fileType = "folder".toList || decide (['/'] <:+ info.filePath)

def directoryPath (path : Text) : Except CliError Text := do
  validateRelative u (stripSlash path)
  return trimEnd '/' path ++ ['/']

def RemoteFile.fromInfo (info : FileInfo) : Except CliError RemoteFile := do
  validateRelative u info.filePath
  ensure (0 ≤ info.size)
    (invalid "remote file size is missing or negative; cannot build an exact download plan")
  ensure (¬ (utf8Len info.etag > 1024 ∨ info.etag.any isControl = true))
    (invalid "invalid remote ETag")
  return ⟨info.filePath, info.size.toNat, info.etag, info.hashCrc64Ecma, info.updatedAt⟩

structure Snapshot where
  roots : List Text
  files : List RemoteFile
  directories : List Text
  queue : List Text
  directoryVersions : List (Text × Int)
  policy : MappingPolicy

namespace Snapshot

def addDirectory (s : Snapshot) (path : Text) : Except CliError Snapshot := do
  let directory ← directoryPath u path
  if directory ∈ s.directories then return s
  else return { s with
    directories := insertBy id directory s.directories
    queue := s.queue ++ [directory] }

def directoryVersion (s : Snapshot) (path : Text) (version : Int) : Except CliError Snapshot := do
  let path ← directoryPath u path
  if version = 0 then return s
  else do
    let versions ← okOr (recordBy Prod.fst (path, version) s.directoryVersions)
      (invalid "conflicting duplicate directory metadata")
    return { s with directoryVersions := versions }

def addFile (s : Snapshot) (info : FileInfo) : Except CliError Snapshot :=
  if isFolder info = true then do
    let s ← s.directoryVersion u info.filePath info.updatedAt
    s.addDirectory u info.filePath
  else do
    let file ← RemoteFile.fromInfo u info
    let files ← okOr (recordBy RemoteFile.path file s.files)
      (invalid "remote file changed or conflicting duplicate during enumeration")
    return { s with files := files }

def acceptFolder (s : Snapshot) (folder : FolderInfo) : Except CliError Snapshot := do
  let s ← s.directoryVersion u folder.folder folder.updatedAt
  s.addDirectory u folder.folder

def accept (s : Snapshot) (listing : DirectoryListing) : Except CliError Snapshot := do
  let s ← listing.folders.foldlM (acceptFolder u) s
  listing.files.foldlM (addFile u) s

end Snapshot

def canonicalPath (path : Text) (isDirectory : Bool) : Except CliError Text :=
  if isDirectory = true then directoryPath u path else do
    validateRelative u path
    return path

def validateScopedPath (scope : Option Text) (path : Text) (isDirectory : Bool) :
    Except CliError Unit := do
  let canonical ← canonicalPath u path isDirectory
  ensure (∀ outer ∈ scope, outer = ['/'] ∨ outer <+: canonical)
    (invalid "service returned a path outside the selected directory")

def validateScope (page : ListFilesOutput) (scope : Option Text) : Except CliError Unit := do
  let _ ← page.files.mapM fun file => validateScopedPath u scope file.filePath (isFolder file)
  let _ ← page.folders.mapM fun folder => validateScopedPath u scope folder.folder true
  return

def nextMarker (page : ListFilesOutput) (markers : List Text) : Except CliError (Option Text) :=
  if page.nextMarker = [] then do
    ensure (page.isTruncated = false) (invalid "truncated page is missing NextMarker")
    return none
  else do
    ensure (¬ (utf8Len page.nextMarker > 4096 ∨ page.nextMarker.any isControl = true))
      (invalid "pagination marker exceeds 4096 bytes or contains control characters")
    ensure (page.nextMarker ∉ markers) (invalid "cyclic pagination marker")
    return some page.nextMarker

-- The answer to one `ListFiles` request, by prefix and marker.
abbrev ListPage := Option Text → Option Text → Except CliError ListFilesOutput

def readPage (listPage : ListPage) (scope marker : Option Text) (markers : List Text) :
    Except CliError (ListFilesOutput × Option Text) := do
  let page ← listPage scope marker
  validateScope u page scope
  let next ← nextMarker page markers
  return (page, next)

def readDirectory (listPage : ListPage) (scope : Option Text) :
    Nat → Option Text → List Text → DirectoryListing → Option (Except CliError DirectoryListing)
  | 0, _, _, _ => none
  | fuel + 1, marker, markers, listing =>
    match readPage u listPage scope marker markers with
    | .error err => some (.error err)
    | .ok (page, none) =>
        some (.ok ⟨listing.files ++ page.files, listing.folders ++ page.folders⟩)
    | .ok (page, some next) =>
        readDirectory listPage scope fuel (some next) (next :: markers)
          ⟨listing.files ++ page.files, listing.folders ++ page.folders⟩

def Reads (listPage : ListPage) (directory : Text)
    (result : Except CliError DirectoryListing) : Prop :=
  ∃ fuel, readDirectory u listPage (some directory) fuel none [] ⟨[], []⟩ = some result

-- `retain_parents` from one path upwards, to the root that holds it.
def retainFrom (mapping : MappingIndex) (retained : List (Text × Text)) :
    List Text → Except CliError (List (Text × Text))
  | [] => .ok retained
  | current :: rest =>
    if mapping.root u (current ++ ['/']) = none then .ok retained else do
      let mapped ← mapping.localPath u (current ++ ['/'])
      retainFrom mapping
        (if mapped = [] then retained else insertBy Prod.fst (current ++ ['/'], mapped) retained) rest

def retainParents (mapping : MappingIndex) (remote : Text) (isDirectory : Bool)
    (retained : List (Text × Text)) : Except CliError (List (Text × Text)) :=
  retainFrom u mapping retained (localParents (trimEnd '/' remote) isDirectory)

def keepFiles (mapping : MappingIndex) (kept : List Entry) (retained : List (Text × Text)) :
    List RemoteFile → Except CliError (List Entry × List (Text × Text))
  | [] => .ok (kept, retained)
  | remote :: rest => do
      let mapped ← mapping.localPath u remote.path
      if mapping.policy.matchesPath mapped = true then do
        let retained ← retainParents u mapping remote.path false retained
        keepFiles mapping (kept ++ [⟨mapped, remote⟩]) retained rest
      else keepFiles mapping kept retained rest

def keepDirectories (mapping : MappingIndex) (retained : List (Text × Text)) :
    List Text → Except CliError (List (Text × Text))
  | [] => .ok retained
  | directory :: rest => do
      let mapped ← mapping.localPath u directory
      if mapped ≠ [] ∧ mapping.policy.matchesPath mapped = true then do
        let retained ← retainParents u mapping directory true retained
        keepDirectories mapping retained rest
      else keepDirectories mapping retained rest

def buildManifest (roots : List Text) (files : List RemoteFile) (directories : List Text)
    (policy : MappingPolicy) : Except CliError Manifest := do
  let (keptFiles, retained) ← keepFiles u ⟨roots, policy⟩ [] [] files
  let keptDirectories ← keepDirectories u ⟨roots, policy⟩ retained directories
  -- A `Vec` past this bound is a capacity overflow.
  if h : keptFiles.length ≤ maxEntries then do
    let manifest : Manifest := ⟨roots, keptFiles, keptDirectories.map Prod.snd,
      keptDirectories.map Prod.fst, policy, h⟩
    manifest.validate u
    return manifest
  else .error (invalid "capacity overflow")

def Snapshot.finish (s : Snapshot) : Except CliError Manifest :=
  buildManifest u s.roots s.files s.directories s.policy

structure Scan where
  snapshot : Snapshot
  pending : List Text
  requested : List Text

variable (listPage : ListPage) (concurrency : Nat)

-- The loop tops up its reads before it waits for one of them.
def Scan.Full (x : Scan) : Prop := concurrency ≤ x.pending.length ∨ x.snapshot.queue = []

inductive Scan.Step : Scan → Scan → Prop
  | request (s : Snapshot) (directory : Text) (rest pending requested : List Text)
      (h : pending.length < concurrency) (hq : s.queue = directory :: rest) :
      Scan.Step ⟨s, pending, requested⟩
        ⟨{ s with queue := rest }, pending ++ [directory], requested ++ [directory]⟩
  | complete (s s' : Snapshot) (directory : Text) (before after requested : List Text)
      (listing : DirectoryListing)
      (hfull : Scan.Full concurrency ⟨s, before ++ directory :: after, requested⟩)
      (hread : Reads u listPage directory (.ok listing)) (haccept : s.accept u listing = .ok s') :
      Scan.Step ⟨s, before ++ directory :: after, requested⟩ ⟨s', before ++ after, requested⟩

inductive Scan.Ends : Scan → Except CliError Snapshot → Prop
  | drained (s : Snapshot) (requested : List Text) (hfull : Scan.Full concurrency ⟨s, [], requested⟩) :
      Scan.Ends ⟨s, [], requested⟩ (.ok s)
  | unread (s : Snapshot) (directory : Text) (pending requested : List Text) (err : CliError)
      (hfull : Scan.Full concurrency ⟨s, pending, requested⟩) (hp : directory ∈ pending)
      (hread : Reads u listPage directory (.error err)) :
      Scan.Ends ⟨s, pending, requested⟩ (.error err)
  | rejected (s : Snapshot) (directory : Text) (pending requested : List Text)
      (listing : DirectoryListing) (err : CliError)
      (hfull : Scan.Full concurrency ⟨s, pending, requested⟩) (hp : directory ∈ pending)
      (hread : Reads u listPage directory (.ok listing))
      (haccept : s.accept u listing = .error err) : Scan.Ends ⟨s, pending, requested⟩ (.error err)

def Scan.start (s : Snapshot) : Scan := ⟨s, [], []⟩

def Scan.Runs (s : Snapshot) : Scan → Prop :=
  Relation.ReflTransGen (Scan.Step u listPage concurrency) (Scan.start s)

end VeStorage.ADrive.Share
