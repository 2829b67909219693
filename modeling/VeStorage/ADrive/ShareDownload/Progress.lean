import VeStorage.ADrive.Share.Journal
import Mathlib.Logic.Function.Basic

namespace VeStorage.ADrive.ShareDownload
open Lib
open Share (Journal Entry CliError)

-- `message` and `exitCode` are those of `CliError::agent_semantics` and `CliError::exit_code`.
structure Config where
  env : Share.Env
  batchConcurrency : Nat
  message : CliError → String
  exitCode : CliError → Nat
  isValidUrl : Text → Bool
  isResume : Bool
  hasCheckpoint : Bool
  concurrency_pos : 0 < batchConcurrency
  exitCode_pos : ∀ e, 0 < exitCode e

inductive RowStatus where
  | succeeded
  | failed
  | skipped
deriving DecidableEq

inductive RowSource where
  | file (index : Nat)
  | directory (path : Text)
deriving DecidableEq

-- One call of `Artifacts::record`, and whether the row was written.
structure Row where
  source : RowSource
  status : RowStatus
  error : Option String
  isWritten : Bool
deriving DecidableEq

structure FileFailure where
  message : String

structure DirectoryFailure where
  path : Text
  remote : Text
  message : String

-- `rows` are the attempts once the artifacts are open; `published` and `saves` say which files
-- were published in this run and what `save_completion` answered.
structure Progress where
  journal : Option Journal
  active : Option Nat
  isIssuing : Bool
  skipped : Nat
  isResuming : Bool
  verified : List Bool
  states : List Nat
  failures : Nat → Option FileFailure
  skippedFiles : List Nat
  rows : Option (List Row)
  isTrackingFailure : Bool
  directoryFailures : List DirectoryFailure
  published : List Nat
  saves : List (Nat × Bool)

-- What the file system answers to the local operations of one file.
structure Answers where
  shouldSkip : Except CliError Bool
  publish : Except CliError Unit
  save : Except CliError Unit
  row : Except CliError Unit

inductive JobError where
  | file (error : CliError)
  | tracking (error : CliError)

structure Outcome where
  index : Nat
  result : Except CliError Text
  isUnknown : Bool

def invalid (message : String) : CliError := .validation message

def Progress.default (isResuming : Bool) : Progress where
  journal := none
  active := none
  isIssuing := false
  skipped := 0
  isResuming := isResuming
  verified := []
  states := []
  failures := fun _ => none
  skippedFiles := []
  rows := none
  isTrackingFailure := false
  directoryFailures := []
  published := []
  saves := []

def isOk {α : Type} : Except CliError α → Bool
  | .ok _ => true
  | .error _ => false

def Progress.setState (progress : Progress) (index value : Nat) : Progress :=
  { progress with states := progress.states.set index value }

def Progress.digest (progress : Progress) (index : Nat) : Option Text :=
  (progress.journal.bind fun journal => journal.completed[index]?).join

-- The digest that `file_payload` counts: a resumed one only after its verification.
def Progress.reported (progress : Progress) (index : Nat) : Option Text :=
  (progress.digest index).filter fun _ =>
    !progress.isResuming || progress.verified[index]? == some true

def entry (progress : Progress) (index : Nat) : Except CliError Entry :=
  match progress.journal.bind fun journal => journal.manifest.files[index]? with
  | some entry => .ok entry
  | none => .error (invalid "missing manifest entry")

def Progress.addRow (progress : Progress) (row : Row) : Progress :=
  { progress with rows := progress.rows.map fun rows => rows ++ [row] }

def record (answer : Except CliError Unit) (progress : Progress) (index : Nat)
    (status : RowStatus) (error : Option String) : Progress × Except CliError Unit :=
  match entry progress index, progress.rows with
  | .error e, _ => (progress, .error e)
  | .ok _, none => (progress, .ok ())
  | .ok _, some _ => (progress.addRow ⟨.file index, status, error, isOk answer⟩, answer)

def tracked {α : Type} : Except CliError α → Except JobError α
  | .ok a => .ok a
  | .error e => .error (.tracking e)

def Progress.addSkipped (progress : Progress) (index : Nat) : Progress :=
  { progress with
    skipped := progress.skipped + 1
    skippedFiles := progress.skippedFiles.insert index }

def Progress.addFailure (progress : Progress) (index : Nat) (failure : FileFailure) : Progress :=
  { progress with failures := Function.update progress.failures index (some failure) }

def markSkipped (answer : Except CliError Unit) (progress : Progress) (index : Nat) :
    Progress × Except CliError Unit :=
  record answer ((progress.addSkipped index).setState index 7) index .skipped none

variable (cfg : Config)

def failFile (answer : Except CliError Unit) (progress : Progress) (index : Nat)
    (error : CliError) : Progress × JobError :=
  let failed := (progress.addFailure index ⟨cfg.message error⟩).setState index 5
  match record answer failed index .failed (some (cfg.message error)) with
  | (progress, .ok ()) => (progress, .file error)
  | (progress, .error e) => (progress, .tracking e)

def prepareSkip (answers : Answers) (progress : Progress) (index : Nat) :
    Progress × Except JobError Bool :=
  if (progress.digest index).isSome then
    match record answers.row progress index .skipped none with
    | (progress, .ok ()) => (progress, .ok true)
    | (progress, .error e) => (progress, .error (.tracking e))
  else
    match entry progress index, answers.shouldSkip with
    | .error e, _ | .ok _, .error e =>
        let (progress, failure) := failFile cfg answers.row progress index e
        (progress, .error failure)
    | .ok _, .ok false => (progress, .ok false)
    | .ok _, .ok true =>
        let (progress, marked) := markSkipped answers.row progress index
        (progress, tracked (marked.map fun _ => true))

def saveCompletionProgress (answer : Except CliError Unit) (progress : Progress) (index : Nat) :
    Progress × Except CliError Unit :=
  if cfg.hasCheckpoint then
    ({ progress with saves := progress.saves ++ [(index, isOk answer)] }, answer)
  else (progress, .ok ())

def Progress.complete (progress : Progress) (index : Nat) (digest : Text) : Progress :=
  { progress with
    journal := progress.journal.map fun journal =>
      { journal with completed := journal.completed.set index (some digest) }
    verified := progress.verified.set index true
    states := progress.states.set index 6
    published := progress.published ++ [index] }

def finishFile (answers : Answers) (progress : Progress) (index : Nat) (digest : Text) :
    Progress × Except JobError Unit :=
  match entry progress index with
  | .error e => (progress, .error (.tracking e))
  | .ok _ =>
    match answers.shouldSkip with
    | .ok true =>
        let (progress, marked) := markSkipped answers.row progress index
        (progress, tracked marked)
    | .error e =>
        let (progress, failure) := failFile cfg answers.row progress index e
        (progress, .error failure)
    | .ok false =>
      match answers.publish with
      | .error e =>
          let (progress, failure) := failFile cfg answers.row progress index e
          (progress, .error failure)
      | .ok () =>
          let (progress, saved) :=
            saveCompletionProgress cfg answers.save (progress.complete index digest) index
          let (progress, reported) := record answers.row progress index .succeeded none
          (progress, tracked (saved.bind fun _ => reported))

def accept (answers : Answers) (progress : Progress) (outcome : Outcome) :
    Progress × Except JobError Unit :=
  match outcome.result with
  | .ok digest => finishFile cfg answers progress outcome.index digest
  | .error e =>
      let (progress, failure) := failFile cfg answers.row progress outcome.index e
      (progress, .error failure)

end VeStorage.ADrive.ShareDownload
