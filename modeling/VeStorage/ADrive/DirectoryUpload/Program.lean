import VeStorage.ADrive.Plan
import VeStorage.ADrive.Rm
import VeStorage.Lib.Components
import VeStorage.Lib.Requests

namespace VeStorage.ADrive.DirectoryUpload
open Lib Requests
open Tos (CliError FileName)

structure ListFilesOutput where
  files : List FileInfo
  folders : List FolderInfo
  isTruncated : Bool
  nextMarker : Text

-- The pages of one listing; `failure` answers the request behind the last of them.
structure Listing where
  pages : List ListFilesOutput
  failure : CliError

structure ParentEntries where
  folders : List Text
  files : List Text

def ParentEntries.add (entries : ParentEntries) (output : ListFilesOutput) : ParentEntries where
  folders :=
    (output.files.filter adriveFileInfoIsFolderMarker).map
        (fun file => normalizeAdriveFolderPath file.filePath) ++
      (output.folders.map (fun folder => normalizeAdriveFolderPath folder.folder) ++ entries.folders)
  files :=
    (output.files.filter fun file => !adriveFileInfoIsFolderMarker file).map
        (fun file => normalizeAdriveFolderPath file.filePath) ++ entries.files

def invalidMarker : CliError :=
  .transferFailed "ADrive folder listing returned an invalid pagination marker".toList

def listParentPages (failure : CliError) :
    List ListFilesOutput → List Text → ParentEntries → Except CliError ParentEntries
  | [], _, _ => .error failure
  | output :: pages, seenMarkers, entries =>
    if output.isTruncated = false then .ok (entries.add output)
    else if output.nextMarker = [] ∨ output.nextMarker ∈ seenMarkers then .error invalidMarker
    else listParentPages failure pages (output.nextMarker :: seenMarkers) (entries.add output)

def listParentEntries (listing : Listing) : Except CliError ParentEntries :=
  listParentPages listing.failure listing.pages [] ⟨[], []⟩

def listPrefixOf (parent : Text) : Option Text :=
  if parent = [] then none else some (trimFolderPrefix parent)

inductive IdsSdkError
  | server (statusCode : Option Nat)
  | other
  deriving DecidableEq

def mapIdsError (_ : IdsSdkError) : CliError := .http

inductive Request
  | list (folderPrefix : Option Text)
  | create (folderPath : Text)
  | record (remotePath : Text) (isSuccess : Bool)
  | skips (remotePath : Text)
  | upload (remotePath : Text)
  deriving DecidableEq

abbrev Answer : Request → Type
  | .list _ => Listing
  | .create _ => Except IdsSdkError Unit
  | .record _ _ => Except CliError Unit
  | .skips _ => Except CliError Bool
  | .upload _ => Unit

structure DirectoryUploadState where
  parents : Text → Option ParentEntries
  verified : List Text
  reported : List Text

def DirectoryUploadState.default : DirectoryUploadState := ⟨fun _ => none, [], []⟩

def DirectoryUploadState.cache (s : DirectoryUploadState) (parent : Text) (entries : ParentEntries) :
    DirectoryUploadState :=
  { s with parents := Function.update s.parents parent (some entries) }

def DirectoryUploadState.insertFolder (s : DirectoryUploadState) (parent folder : Text) :
    DirectoryUploadState :=
  { s with parents := Function.update s.parents parent ((s.parents parent).map fun entries =>
      { entries with folders := folder :: entries.folders }) }

abbrev Io (α : Type) := Prog Request Answer α

abbrev Outcome := DirectoryUploadState × Except CliError Unit

def accumulate (current : Text) : List Text → List Text
  | [] => []
  | segment :: rest =>
    let next := if current = [] then segment else current ++ '/' :: segment
    next :: accumulate next rest

def folderPathsForMkdir (path : Text) (parents : Bool) : List Text :=
  if parents = false then [path]
  else if accumulate [] (segments '/' path) = [] then [path]
  else accumulate [] (segments '/' path)

def rsplitOnce (t : Text) : Option (Text × Text) :=
  if '/' ∈ t then
    some (join '/' (t.splitOn '/').dropLast, (t.splitOn '/').getLastD [])
  else none

def parentOf (folder : Text) : Text := ((rsplitOnce folder).map Prod.fst).getD []

def directoryTarget (destination : ParsedADriveUri) (remotePath : Text) : Text :=
  adriveScheme ++ destination.inst ++ '/' :: destination.space ++ '/' :: remotePath ++ ['/']

def createMissingFolder (s : DirectoryUploadState) (folder parent : Text) : Io Outcome :=
  .ask (.create folder) fun created =>
    match created with
    | .ok _ => .ret (s, .ok ())
    | .error error =>
      if error = .server (some 409) then
        .ask (.list (listPrefixOf parent)) fun listing =>
          match listParentEntries listing with
          | .error e => .ret (s, .error e)
          | .ok entries =>
            if folder ∈ entries.files ∨ folder ∉ entries.folders then
              .ret (s, .error (mapIdsError error))
            else .ret (s.cache parent entries, .ok ())
      else .ret (s, .error (mapIdsError error))

def ensureListed (destination : ParsedADriveUri) (folder : Text) (s : DirectoryUploadState)
    (entries : ParentEntries) : Io Outcome :=
  if folder ∈ entries.files then
    .ret (s, .error (.conflict ("cannot create folder over existing file: ".toList ++
      directoryTarget destination folder)))
  else if folder ∈ entries.folders then .ret (s, .ok ())
  else
    (createMissingFolder s folder (parentOf folder)).bind fun out =>
      match out with
      | (s, .error e) => .ret (s, .error e)
      | (s, .ok _) => .ret (s.insertFolder (parentOf folder) folder, .ok ())

def ensureOne (destination : ParsedADriveUri) (s : DirectoryUploadState) (folder : Text) : Io Outcome :=
  match s.parents (parentOf folder) with
  | some entries => ensureListed destination folder s entries
  | none =>
    .ask (.list (listPrefixOf (parentOf folder))) fun listing =>
      match listParentEntries listing with
      | .error e => .ret (s, .error e)
      | .ok entries => ensureListed destination folder (s.cache (parentOf folder) entries) entries

def ensureVerified (destination : ParsedADriveUri) (s : DirectoryUploadState) (folder : Text) :
    Io Outcome :=
  if folder ∈ s.verified then .ret (s, .ok ())
  else
    (ensureOne destination s folder).bind fun out =>
      match out with
      | (s, .error e) => .ret (s, .error e)
      | (s, .ok _) => .ret ({ s with verified := folder :: s.verified }, .ok ())

def ensure (destination : ParsedADriveUri) (s : DirectoryUploadState) (remotePath : Text) :
    Io Outcome :=
  each (ensureVerified destination) (folderPathsForMkdir remotePath true) s

def recordDirectoryUpload (destination : ParsedADriveUri) (s : DirectoryUploadState)
    (remotePath : Text) : Io Outcome :=
  if remotePath ∈ s.reported then .ret (s, .ok ())
  else
    (ensure destination { s with reported := remotePath :: s.reported } remotePath).bind fun out =>
      .ask (.record remotePath out.2.isOk) fun saved =>
        .ret (out.1, if out.2.isOk then saved else .ok ())

-- What one directory holds, sorted by name.
inductive Forest
  | nil
  | file (name : Text) (rest : Forest)
  | dir (name : Text) (children rest : Forest)
  | other (name : Text) (rest : Forest)
  deriving Repr

def Forest.names : Forest → List Text
  | nil => []
  | file name rest => name :: rest.names
  | dir name _ rest => name :: rest.names
  | other name rest => name :: rest.names

def Forest.WellFormed : Forest → Prop
  | nil => True
  | file name rest => FileName name ∧ name ∉ rest.names ∧ rest.WellFormed
  | dir name children rest =>
    FileName name ∧ name ∉ rest.names ∧ children.WellFormed ∧ rest.WellFormed
  | other name rest => FileName name ∧ name ∉ rest.names ∧ rest.WellFormed

def Forest.size : Forest → Nat
  | nil => 1
  | file _ rest => rest.size
  | dir _ children rest => children.size + rest.size
  | other _ rest => rest.size

def Forest.fileNames : Forest → List Text
  | nil => []
  | file name rest => name :: rest.fileNames
  | dir _ _ rest => rest.fileNames
  | other _ rest => rest.fileNames

def Forest.subdirs : Forest → List (Text × Forest)
  | nil => []
  | file _ rest => rest.subdirs
  | dir name children rest => (name, children) :: rest.subdirs
  | other _ rest => rest.subdirs

def Forest.collectLocalFiles (names : List Text) : Forest → List (List Text × Text)
  | nil => []
  | file name rest => (names, name) :: rest.collectLocalFiles names
  | dir name children rest =>
    children.collectLocalFiles (names ++ [name]) ++ rest.collectLocalFiles names
  | other _ rest => rest.collectLocalFiles names

structure UploadArgs extends CpArgs where
  disableDirObject : Bool

structure Job where
  args : UploadArgs
  tree : Forest
  tree_ok : tree.WellFormed
  destination : ParsedADriveUri
  destination_eq : parseAdriveUri args.destination false = .ok destination
  parent : Option Text
  parent_eq : recursiveAdriveSourceParentPrefix args.source args.includeParent = .ok parent

variable (j : Job)

def Job.relative (names : List Text) : Text :=
  prependAdriveParentPrefix (join '/' names) j.parent

def Job.selected (names : List Text) : Bool :=
  pathMatchesFilters (j.relative names) j.args.includePattern j.args.excludePattern

def Job.remotePath (names : List Text) : Text :=
  joinRemotePath j.destination.path (j.relative names)

def addRelativeFolderWithParents (relativeFolder : Text) : List Text :=
  accumulate [] (segments '/' (trim '/' relativeFolder))

def addRelativeFileParentFolders (relativeFile : Text) : List Text :=
  match rsplitOnce (trim '/' relativeFile) with
  | none => []
  | some (parent, _) => addRelativeFolderWithParents parent

def Job.collectDesiredInner (names : List Text) : Forest → List Text
  | .nil => []
  | .file name rest =>
    (if j.selected (names ++ [name]) then addRelativeFileParentFolders (j.relative (names ++ [name]))
      else []) ++ Job.collectDesiredInner names rest
  | .dir name children rest =>
    (if j.selected (names ++ [name]) then addRelativeFolderWithParents (j.relative (names ++ [name]))
      else []) ++ (Job.collectDesiredInner (names ++ [name]) children ++
        Job.collectDesiredInner names rest)
  | .other _ rest => Job.collectDesiredInner names rest

def Job.collectLocalSyncDesiredFolders : List Text :=
  (match j.parent with
    | some parent => addRelativeFolderWithParents parent
    | none => []) ++ j.collectDesiredInner [] j.tree

def taskRank (remotePath : Text) : ℕ ×ₗ Text := toLex (adrivePathDepth remotePath, remotePath)

def Job.collectUploadDirectoryTasks : List Text :=
  if j.args.disableDirObject then []
  else
    sortOn taskRank
      ((dedupBy id (sortOn id (j.parent.getD [] :: j.collectLocalSyncDesiredFolders))).filterMap
        fun relative =>
          let remotePath := joinRemotePath j.destination.path relative
          if remotePath = [] then none else some remotePath)

def uploadFile (remotePath : Text) (s : DirectoryUploadState) : Io Outcome :=
  .ask (.skips remotePath) fun skips =>
    match skips with
    | .error e => .ret (s, .error e)
    | .ok true => .ret (s, .ok ())
    | .ok false => .ask (.upload remotePath) fun _ => .ret (s, .ok ())

def Job.manifestFiles : List Text :=
  ((j.tree.collectLocalFiles []).filter fun file => j.selected (file.1 ++ [file.2])).map
    fun file => j.remotePath (file.1 ++ [file.2])

def Job.uploadDirectoryRecursive : Io Outcome :=
  (each (recordDirectoryUpload j.destination) j.collectUploadDirectoryTasks .default).bind fun out =>
    match out with
    | (s, .error e) => .ret (s, .error e)
    | (s, .ok _) => each (fun s remotePath => uploadFile remotePath s) j.manifestFiles s

def Job.streamUploadDirectory (isRequired : Bool) (s : DirectoryUploadState) (names : List Text) :
    Io Outcome :=
  if j.args.disableDirObject then .ret (s, .ok ())
  else if !isRequired && names ≠ [] && !j.selected names then .ret (s, .ok ())
  else
    each (fun s ancestor =>
      if j.remotePath ancestor = [] then .ret (s, .ok ())
      else recordDirectoryUpload j.destination s (j.remotePath ancestor)) names.inits s

inductive Visit
  | directory (names : List Text)
  | file (names : List Text) (name : Text)
  deriving DecidableEq

theorem subdirs_size (forest : Forest) (names : List Text) :
    ((forest.subdirs.map fun sub => (names ++ [sub.1], sub.2)).map fun next => next.2.size).sum <
      forest.size := by
  induction forest with
  | nil => simp [Forest.subdirs, Forest.size]
  | file _ _ ih => exact ih
  | dir name children rest _ ih =>
    simp only [Forest.subdirs, List.map_cons, List.sum_cons, Forest.size]
    omega
  | other _ _ ih => exact ih

-- The order in which the streamed walk pops directories and meets their files.
def walk : List (List Text × Forest) → List Visit
  | [] => []
  | (names, forest) :: pending =>
    .directory names :: (forest.fileNames.map (.file names) ++
      walk ((forest.subdirs.map fun sub => (names ++ [sub.1], sub.2)) ++ pending))
termination_by pending => (pending.map fun next => next.2.size).sum
decreasing_by
  have := subdirs_size forest names
  simp only [List.map_append, List.sum_append, List.map_cons, List.sum_cons]
  omega

def Job.queueUploadFile (s : DirectoryUploadState) (names : List Text) (name : Text) : Io Outcome :=
  if j.selected (names ++ [name]) then
    (j.streamUploadDirectory true s names).bind fun out =>
      match out with
      | (s, .error e) => .ret (s, .error e)
      | (s, .ok _) => uploadFile (j.remotePath (names ++ [name])) s
  else .ret (s, .ok ())

def Job.visit (s : DirectoryUploadState) : Visit → Io Outcome
  | .directory names => j.streamUploadDirectory false s names
  | .file names name => j.queueUploadFile s names name

def Job.streamUploadNoManifest : Io Outcome :=
  each j.visit (walk [([], j.tree)]) .default

end VeStorage.ADrive.DirectoryUpload
