import VeStorage.ADrive.Sync.Plan
import VeStorage.ADrive.Mapping
import VeStorage.Lib.CopyDelete
import Mathlib.Logic.Relation

namespace VeStorage.ADrive.Move
open Lib
open Tos (CliError)
open Listing (prefixScan)
open Sync (parseFileTarget)

structure MvArgs extends CpArgs where
  force : Bool
  noManifest : Bool

def MvArgs.hasRecursiveFilters (args : MvArgs) : Bool := args.includePattern.isSome || args.excludePattern.isSome

def validateFilteredMoveDestination (args : MvArgs) (source destination : ParsedADriveUri) :
    Except CliError Unit := do
  let segments := source.path.splitOn '/' ++ destination.path.splitOn '/'
  if ".".toList ∈ segments ∨ "..".toList ∈ segments then .error (.validationError
    "filtered recursive move paths must not contain '.' or '..' segments".toList)
  else
    let parentPrefix ← recursiveAdriveSourceParentPrefix args.source args.includeParent
    let destinationPath := joinRemotePath destination.path (parentPrefix.getD [])
    if trimFolderPrefix (trim '/' source.path) <+: trimFolderPrefix destinationPath then
      .error (.validationError "filtered recursive move destination must be outside the source folder".toList)
    else .ok ()

structure Job where
  source : SpaceTarget
  destination : SpaceTarget
  task : Task

inductive MvPlan where
  | renameFolder (source destination : SpaceTarget)
  | copyDelete (job : Job)

def otherInstance (args : MvArgs) : Text :=
  if args.noManifest then
    "ve-adrive recursive remote move requires source and destination in the same instance".toList
  else "ve-adrive recursive remote copy requires source and destination in the same instance".toList

def remoteMoveJob (args : MvArgs) (source destination : SpaceTarget) : Except CliError Job := do
  if source.inst ≠ destination.inst then .error (.validationError (otherInstance args))
  else
    let parentPrefix ← recursiveAdriveSourceParentPrefix args.source args.includeParent
    .ok ⟨source, destination,
      ⟨[], .remoteCopy source destination, parentPrefix, args.includePattern, args.excludePattern⟩⟩

-- `execute_mv` with `--recursive` and ADrive at both ends.
def executeRecursiveMv (args : MvArgs) : Except CliError MvPlan := do
  let source ← parseSpaceTarget args.source
  let destination ← parseSpaceTarget args.destination
  if source.inst = destination.inst ∧ source.space = destination.space then
    if args.hasRecursiveFilters then
      let _ ← validateFilteredMoveDestination args source.toParsedADriveUri destination.toParsedADriveUri
      (remoteMoveJob args source destination).map .copyDelete
    else .ok (.renameFolder source destination)
  else (remoteMoveJob args source destination).map .copyDelete

namespace Job

variable (j : Job)

def listed (path : Text) : Prop := j.source.lists j.source.inst j.source.space path

def target (path : Text) : Option Text :=
  (Mapping.queueAdriveRemoteMoveFile j.task j.source j.destination path).map Prod.snd

def filtered : Bool := j.task.includePattern.isSome || j.task.excludePattern.isSome

def root : Text := trimFolderPrefix j.source.path

-- The folder that `cleanup_recursive_move_source` asks the service to delete.
def cleanupFolder : Text := trimEnd '/' j.source.path

def deleteSourceTarget (path : Text) : Except CliError ParsedADriveUri := do
  let target ← parseAdriveUri (j.source.at path) false
  parseFileTarget target

end Job

abbrev Store (C : Type) := Place → Option C

section Requests

variable {C : Type} (j : Job)

-- A request may take effect although its answer is lost.
inductive CopyFile (path dest : Text) : Store C → Store C → Bool → Prop
  | refused (s) : CopyFile path dest s s false
  | copied (s c ok) (h : s (j.source.place path) = some c) :
      CopyFile path dest s (Function.update s (j.destination.place dest) (some c)) ok

inductive DeleteFile (place : Place) : Store C → Store C → Bool → Prop
  | refused (s) : DeleteFile place s s false
  | removed (s ok) : DeleteFile place s (Function.update s place none) ok

def InFolder (folder : Text) (place : Place) : Prop :=
  ∃ path, place = j.source.place path ∧ trimFolderPrefix folder <+: path

-- A failed request may have removed some of the files.
structure DeleteFolder (folder : Text) (s s' : Store C) (ok : Bool) : Prop where
  kept : ∀ p, s' p = s p ∨ s' p = none ∧ InFolder j folder p
  removed : ok = true → ∀ p, InFolder j folder p → s' p = none

def DeleteSource (path : Text) (s s' : Store C) (ok : Bool) : Prop :=
  match j.deleteSourceTarget path with
  | .ok target => DeleteFile (.remote target.inst target.space target.path) s s' ok
  | .error _ => s' = s ∧ ok = false

end Requests

def failedRow (ok : Bool) : Nat := if ok then 0 else 1

-- `none` is the exit with an error.
def exitCode (ok : Bool) (failed : Nat) (lost : Bool) : Option Nat :=
  if lost || !ok then none else if failed = 0 then some 0 else some 1

inductive BatchStage where
  | copying
  | deleting (rest : List Text)
  | removing
  | finished (code : Option Nat)

structure Batch (C : Type) where
  world : Store C
  pending : List (Text × Text)
  running : List ((Text × Text) × Option Bool)
  failed : Nat
  stage : BatchStage

section Manifest

variable {C : Type} (j : Job) (limit : Nat) (files : List Text)

def manifest : List (Text × Text) := Mapping.copyRemoteRecursive j.task j.source j.destination files

def Batch.init (s : Store C) : Batch C := ⟨s, manifest j files, [], 0, .copying⟩

inductive Step : Batch C → Batch C → Prop
  | launch (w item pending running failed) (h : running.length < limit) :
      Step ⟨w, item :: pending, running, failed, .copying⟩
        ⟨w, pending, running ++ [(item, none)], failed, .copying⟩
  | copy (w w' path dest ok pending pre post failed) (h : CopyFile j path dest w w' ok) :
      Step ⟨w, pending, pre ++ ((path, dest), none) :: post, failed, .copying⟩
        ⟨w', pending, pre ++ ((path, dest), some ok) :: post, failed, .copying⟩
  | record (w item ok pending pre post failed)
      (h : pending = [] ∨ limit ≤ (pre ++ (item, some ok) :: post).length) :
      Step ⟨w, pending, pre ++ (item, some ok) :: post, failed, .copying⟩
        ⟨w, pending, pre ++ post, failed + failedRow ok, .copying⟩
  | skipDeletes (w failed lost) (h : 0 < failed) :
      Step ⟨w, [], [], failed, .copying⟩ ⟨w, [], [], failed, .finished (exitCode true failed lost)⟩
  | beginDeletes (w) (h : j.filtered = true) :
      Step ⟨w, [], [], 0, .copying⟩ ⟨w, [], [], 0, .deleting ((manifest j files).map Prod.fst)⟩
  | delete (w w' path rest ok failed) (h : DeleteSource j path w w' ok) :
      Step ⟨w, [], [], failed, .deleting (path :: rest)⟩
        ⟨w', [], [], failed + failedRow ok, .deleting rest⟩
  | endDeletes (w failed lost) :
      Step ⟨w, [], [], failed, .deleting []⟩ ⟨w, [], [], failed, .finished (exitCode true failed lost)⟩
  | beginCleanup (w) (h : j.filtered = false) :
      Step ⟨w, [], [], 0, .copying⟩ ⟨w, [], [], 0, .removing⟩
  -- every planned file gets a row with the result of the one request
  | cleanup (w w' ok lost) (h : DeleteFolder j j.cleanupFolder w w' ok) :
      Step ⟨w, [], [], 0, .removing⟩ ⟨w', [], [], failedRow ok * (manifest j files).length,
        .finished (exitCode true (failedRow ok * (manifest j files).length) lost)⟩

abbrev Run : Batch C → Batch C → Prop := Relation.ReflTransGen (Step j limit files)

end Manifest

inductive Phase where
  | copying
  | copied
  | done (copyOk deleteOk : Bool)
deriving DecidableEq

def Phase.outcome : Phase → Option Bool
  | .done copyOk deleteOk => some (copyOk && deleteOk)
  | _ => none

structure Scan where
  dir : Text
  pages : List ListFilesPage

inductive StreamStage where
  | listing
  | draining (ok : Bool)
  | removing
  | finished (code : Option Nat)

-- `steady` holds the files that have been present since the listing began: a listing has to
-- return those, and may or may not return any other. `found` keeps what it has returned.
structure Stream (C : Type) where
  world : Store C
  steady : Set Text
  pending : List Text
  seen : List Text
  scan : Option Scan
  fetched : List Text
  found : List Text
  running : List ((Text × Text) × Phase)
  failed : Nat
  stage : StreamStage

section Streaming

variable {C : Type} (j : Job) (limit : Nat)

def pageFiles (page : ListFilesPage) : List Text := (scannedFiles [page]).map FileInfo.filePath

def pageFolders (page : ListFilesPage) : List Text := (prefixScan [page]).childPrefixes

def Present (s : Store C) : Set Text := {path | s (j.source.place path) ≠ none}

structure OnPage (s : Store C) (dir : Text) (page : ListFilesPage) : Prop where
  files : ∀ path ∈ pageFiles page, s (j.source.place path) ≠ none ∧ dir <+: path ∧ path ≠ [] ∧ ¬ ['/'] <:+ path
  folders : ∀ sub ∈ pageFolders page, dir <+: sub

-- The last page of a prefix ends a listing that has returned every steady file below it.
def Complete (steady : Set Text) (dir : Text) (pages : List ListFilesPage) : Prop :=
  Folders.Asked '/' steady {path | path ∈ pages.flatMap pageFiles} {sub | sub ∈ pages.flatMap pageFolders} dir

def Stream.init (s : Store C) : Stream C :=
  ⟨s, Present j s, [j.root], [], none, [], [], [], 0, .listing⟩

def Stream.live (b : Stream C) : Prop := b.stage = .listing ∨ ∃ ok, b.stage = .draining ok

def Stream.waiting (b : Stream C) : Prop :=
  (∃ ok, b.stage = .draining ok) ∨ (b.stage = .listing ∧ b.fetched ≠ [] ∧ max limit 1 ≤ b.running.length)

inductive StreamStep : Stream C → Stream C → Prop
  | skip (b dir rest) (hs : b.stage = .listing) (hscan : b.scan = none) (hf : b.fetched = [])
      (hp : b.pending = rest ++ [dir]) (h : dir ∈ b.seen) : StreamStep b { b with pending := rest }
  | visit (b dir rest) (hs : b.stage = .listing) (hscan : b.scan = none) (hf : b.fetched = [])
      (hp : b.pending = rest ++ [dir]) (h : dir ∉ b.seen) :
      StreamStep b { b with pending := rest, seen := dir :: b.seen, scan := some ⟨dir, []⟩ }
  | page (b scan page last) (hs : b.stage = .listing) (hscan : b.scan = some scan) (hf : b.fetched = [])
      (h : OnPage j b.world scan.dir page)
      (hlast : last = true → Complete b.steady scan.dir (scan.pages ++ [page])) :
      StreamStep b { b with
        pending := b.pending ++ pageFolders page
        scan := if last then none else some ⟨scan.dir, scan.pages ++ [page]⟩
        fetched := pageFiles page, found := b.found ++ pageFiles page }
  | leave (b path rest) (hs : b.stage = .listing) (hf : b.fetched = path :: rest)
      (h : j.target path = none) : StreamStep b { b with fetched := rest }
  | queue (b path rest dest) (hs : b.stage = .listing) (hf : b.fetched = path :: rest)
      (h : j.target path = some dest) (hl : b.running.length < max limit 1) :
      StreamStep b { b with fetched := rest, running := b.running ++ [((path, dest), .copying)] }
  | listError (b) (hs : b.stage = .listing) (hf : b.fetched = []) :
      StreamStep b { b with stage := .draining false }
  | listEnds (b) (hs : b.stage = .listing) (hscan : b.scan = none) (hf : b.fetched = [])
      (hp : b.pending = []) : StreamStep b { b with stage := .draining true }
  | copy (b w' path dest ok pre post) (hs : b.live) (hr : b.running = pre ++ ((path, dest), .copying) :: post)
      (h : CopyFile j path dest b.world w' ok) :
      StreamStep b { b with
        world := w', steady := b.steady ∩ Present j w'
        running := pre ++ ((path, dest), if ok then .copied else .done false false) :: post }
  | delete (b w' path dest ok pre post) (hs : b.live) (hr : b.running = pre ++ ((path, dest), .copied) :: post)
      (h : DeleteFile (j.source.place path) b.world w' ok) :
      StreamStep b { b with
        world := w', steady := b.steady ∩ Present j w'
        running := pre ++ ((path, dest), .done true ok) :: post }
  | record (b item phase ok pre post) (hs : b.waiting limit) (hr : b.running = pre ++ (item, phase) :: post)
      (ho : phase.outcome = some ok) :
      StreamStep b { b with running := pre ++ post, failed := b.failed + failedRow ok }
  | beginCleanup (b) (hs : b.stage = .draining true) (hr : b.running = []) (hf : b.failed = 0)
      (h : j.filtered = false) : StreamStep b { b with stage := .removing }
  | finish (b ok lost) (hs : b.stage = .draining ok) (hr : b.running = [])
      (h : ok = false ∨ 0 < b.failed ∨ j.filtered = true) :
      StreamStep b { b with stage := .finished (exitCode ok b.failed lost) }
  | cleanup (b w' ok lost) (hs : b.stage = .removing) (h : DeleteFolder j j.cleanupFolder b.world w' ok) :
      StreamStep b { b with
        world := w', failed := failedRow ok, stage := .finished (exitCode ok (failedRow ok) lost) }

abbrev StreamRun : Stream C → Stream C → Prop := Relation.ReflTransGen (StreamStep j limit)

end Streaming

end VeStorage.ADrive.Move
