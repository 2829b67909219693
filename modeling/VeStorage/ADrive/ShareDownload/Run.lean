import VeStorage.ADrive.ShareDownload.Driver
import Mathlib.Logic.Relation

namespace VeStorage.ADrive.ShareDownload
open Lib
open Share (Journal Entry CliError)

-- `save_progress` and the steps of `Driver::open`: up to the artifacts, the manifest, one row for
-- each directory that failed.
structure Opening where
  save : Except CliError Unit
  prepare : Except CliError Unit
  manifest : Except CliError Unit
  directoryRow : Text → Except CliError Unit

inductive Run where
  | scan (progress : Progress)
  | preflight (progress : Progress) (rest : List (Text × Text))
  | resuming (progress : Progress) (index : Nat)
  | saving (progress : Progress)
  | transfer (driver : Driver)
  | ended (progress : Progress) (trace : Trace) (result : Except CliError Unit)
      (isInterrupted : Bool)

inductive Event where
  | scanFailed (error : CliError)
  | loaded (journal : Journal) (reserved : Except CliError Unit)
  | directory (answer : Except String Unit)
  | checked
  | verified (result : Except CliError Unit)
  | opened (opening : Opening)
  | loop (event : LoopEvent)
  | returned
  | interrupted (signal : Except CliError Unit)

def interruption : String := "download interrupted; completed files retained"

def insertFailure (failure : DirectoryFailure) : List DirectoryFailure → List DirectoryFailure
  | [] => [failure]
  | other :: rest =>
      if failure.path = other.path then failure :: rest
      else if failure.path < other.path then failure :: other :: rest
      else other :: insertFailure failure rest

def recordDirectories (directoryRow : Text → Except CliError Unit) (progress : Progress) :
    List DirectoryFailure → Progress × Except CliError Unit
  | [] => (progress, .ok ())
  | failure :: rest =>
      let answer := directoryRow failure.path
      let progress := progress.addRow
        ⟨.directory failure.path, .failed, some failure.message, isOk answer⟩
      match answer with
      | .error e => (progress, .error e)
      | .ok () => recordDirectories directoryRow progress rest

variable (cfg : Config)

def fileCount (progress : Progress) : Nat :=
  (progress.journal.map fun journal => journal.manifest.files.length).getD 0

def beginTransferDisplay (progress : Progress) : Progress :=
  match progress.journal with
  | some journal => { progress with skipped := journal.completed.countP Option.isSome }
  | none => progress

def begin (opening : Opening) (progress : Progress) : Run :=
  match cfg.hasCheckpoint, opening.save with
  | true, .error e => .ended progress .empty (.error e) false
  | _, _ =>
    let progress := beginTransferDisplay progress
    match opening.prepare, opening.manifest with
    | .error e, _ => .ended progress .empty (.error e) false
    | .ok (), .error e => .ended { progress with rows := some [] } .empty (.error e) false
    | .ok (), .ok () =>
      match recordDirectories opening.directoryRow { progress with rows := some [] }
          progress.directoryFailures with
      | (progress, .error e) => .ended progress .empty (.error e) false
      | (progress, .ok ()) => .transfer (.start progress (fileCount progress))

-- The head of the loop of `validate_resume`.
def enterResume (progress : Progress) (index : Nat) : Run :=
  if index < fileCount progress then .resuming { progress with active := some index } index
  else .saving progress

def verifyResumed (progress : Progress) (index : Nat) : Progress :=
  { progress with
    skipped := progress.skipped + (progress.digest index).isSome.toNat
    verified := progress.verified.set index true
    active := none }

def load (journal : Journal) (progress : Progress) : Progress :=
  { progress with
    verified := List.replicate journal.manifest.files.length (!cfg.isResume)
    journal := some journal }

def isLoadable (journal : Journal) : Bool :=
  isOk (journal.validate cfg.env journal.identity) &&
    (cfg.isResume || journal.completed.all Option.isNone)

def directoryConflict (failure : DirectoryFailure) : CliError :=
  .conflict ("[share_local_path_conflict] cannot create download directory " ++
    String.ofList failure.path ++ ": " ++ failure.message)

def finishTransfer (driver : Driver) : Except CliError Unit → Run
  | .error e => .ended driver.progress driver.trace (.error e) false
  | .ok () =>
    match driver.progress.directoryFailures with
    | failure :: _ => .ended driver.progress driver.trace (.error (directoryConflict failure)) false
    | [] => .ended driver.progress driver.trace (.ok ()) false

def interrupt (progress : Progress) (trace : Trace) : Except CliError Unit → Run
  | .ok () => .ended progress trace (.error (.transferFailed interruption)) true
  | .error e => .ended progress trace (.error e) true

def Run.start : Run := .scan (.default cfg.isResume)

def Run.step : Run → Event → Option Run
  | .scan progress, .scanFailed e => some (.ended progress .empty (.error e) false)
  | .scan progress, .loaded journal reserved =>
      if isLoadable cfg journal then
        match reserved with
        | .error e => some (.ended (load cfg journal progress) .empty (.error e) false)
        | .ok () => some (.preflight (load cfg journal progress)
            (journal.manifest.directories.zip journal.manifest.remoteDirectories))
      else none
  | .preflight progress (_ :: rest), .directory (.ok ()) => some (.preflight progress rest)
  | .preflight progress ((path, remote) :: rest), .directory (.error message) =>
      some (.preflight { progress with
        directoryFailures := insertFailure ⟨path, remote, message⟩ progress.directoryFailures } rest)
  | .preflight progress [], .checked =>
      some (if cfg.isResume then enterResume progress 0 else .saving progress)
  | .resuming progress _, .verified (.error e) => some (.ended progress .empty (.error e) false)
  | .resuming progress index, .verified (.ok ()) =>
      some (enterResume (verifyResumed progress index) (index + 1))
  | .saving progress, .opened opening => some (begin cfg opening progress)
  | .transfer driver, .loop event => (driver.step cfg event).map .transfer
  | .transfer driver, .returned => (driver.returns cfg).map (finishTransfer driver)
  | .scan progress, .interrupted signal
  | .preflight progress _, .interrupted signal
  | .resuming progress _, .interrupted signal => some (interrupt progress .empty signal)
  | .transfer driver, .interrupted signal =>
      if (driver.returns cfg).isNone && !driver.canSchedule cfg then
        some (interrupt driver.progress driver.trace signal)
      else none
  | _, _ => none

def Run.progress : Run → Progress
  | .scan progress | .preflight progress _ | .resuming progress _ | .saving progress => progress
  | .transfer driver => driver.progress
  | .ended progress _ _ _ => progress

def Run.trace : Run → Trace
  | .transfer driver => driver.trace
  | .ended _ trace _ _ => trace
  | _ => .empty

def Reaches : Run → Run → Prop := Relation.ReflTransGen fun r r' => ∃ event, r.step cfg event = some r'

def Run.play (run : Run) : List Event → Run
  | [] => run
  | event :: events =>
    match run.step cfg event with
    | some next => next.play events
    | none => run

-- `finalize_execution`
def incomplete (progress : Progress) : List Nat :=
  (List.range progress.states.length).filter fun index =>
    progress.states[index]?.any fun state => 1 ≤ state && state ≤ 4

def failIncomplete (rowAnswer : Nat → Except CliError Unit) (message : String)
    (progress : Progress) (failure : Option CliError) : List Nat → Progress × Option CliError
  | [] => (progress, failure)
  | index :: rest =>
    match failFile cfg (rowAnswer index) progress index (.transferFailed message) with
    | (progress, .file _) => failIncomplete rowAnswer message progress failure rest
    | (progress, .tracking e) => failIncomplete rowAnswer message progress (some e) rest

structure Finish where
  rowAnswer : Nat → Except CliError Unit
  artifacts : Except CliError Unit

def finalize (finish : Finish) (progress : Progress) (error : Option CliError) :
    Progress × Except CliError Unit :=
  let message := (error.map cfg.message).getD interruption
  let (progress, failure) :=
    failIncomplete cfg finish.rowAnswer message progress none (incomplete progress)
  match progress.rows, finish.artifacts, failure with
  | some _, .error e, _ | _, _, some e => (progress, .error e)
  | _, _, none => (progress, .ok ())

def markIssuing (progress : Progress) : Progress :=
  { progress with isIssuing := progress.isIssuing || progress.states.any fun state => state == 2 }

def errorOf : Except CliError Unit → Option CliError
  | .ok () => none
  | .error e => some e

def finalizeExecution (finish : Finish) (progress : Progress) (result : Except CliError Unit) :
    Progress × Except CliError Unit :=
  match finalize cfg finish (markIssuing progress) (errorOf result) with
  | (progress, .ok ()) => (progress, result)
  | (progress, .error e) => (progress, .error e)

inductive FileStatus where
  | completed
  | skipped
  | failed
  | pending
deriving DecidableEq

structure FilePayload where
  path : Text
  localPath : Text
  status : FileStatus
  sha256 : Option Text
  error : Option String
deriving DecidableEq

def fileStatus (progress : Progress) (index : Nat) : FileStatus :=
  let isActive := progress.states[index]?.any fun state => 1 ≤ state && state ≤ 4
  if (progress.reported index).isSome then .completed
  else if progress.skippedFiles.contains index then .skipped
  else if (progress.failures index).isSome || progress.active == some index || isActive then .failed
  else .pending

def filePayload (progress : Progress) (index : Nat) (entry : Entry) : FilePayload where
  path := entry.remote.path
  localPath := entry.localPath
  status := fileStatus progress index
  sha256 := progress.reported index
  error := (progress.failures index).map FileFailure.message

structure Payload where
  complete : Bool
  planComplete : Bool
  issuanceOutcomeUnknown : Bool
  total : Nat
  completed : Nat
  failed : Nat
  pending : Nat
  skipped : Nat
  files : List FilePayload
  directoryFailures : List DirectoryFailure

def filePayloads (progress : Progress) : List FilePayload :=
  match progress.journal with
  | none => []
  | some journal => journal.manifest.files.zipIdx.map fun (entry, index) =>
      filePayload progress index entry

def aggregate (progress : Progress) (error : Option CliError) : Payload × Nat :=
  let files := filePayloads progress
  let completed := files.countP fun file => file.status == .completed || file.status == .skipped
  let failed := files.countP fun file => file.status == .failed
  ({ complete := error.isNone
     planComplete := progress.journal.isSome
     issuanceOutcomeUnknown := progress.isIssuing
     total := files.length
     completed := completed
     failed := failed
     pending := files.length - completed - failed
     skipped := progress.skipped
     files := files
     directoryFailures := progress.directoryFailures },
   (error.map cfg.exitCode).getD 0)

end VeStorage.ADrive.ShareDownload
