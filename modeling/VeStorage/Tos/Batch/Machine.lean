import VeStorage.Tos.Batch.Report
import Mathlib.Logic.Relation

namespace VeStorage.Tos.Batch
open Lib
open Move (MvArgs moveDeleteGroups)

-- What the manifest-backed recursive commands differ in.
structure Command where
  manifest : TransferManifest
  copies : List Action
  groups : List (List Action)
  -- the deletes in the order of their rows when the copies had failures
  skippedDeletes : List Action
  copyLimit : Nat
  deleteLimit : Nat
  skips : Bool
  checkFails : Bool
  prunes : Bool

def executeMvRecursiveTos (args : MvArgs) (planned : List TransferPlanItem) (useHnsBottomUp : Bool)
    (batchConcurrency : Nat) : Command :=
  let manifest := appendMoveSourceRootAction (buildMoveTransferManifest planned) args planned useHnsBottomUp
  { manifest := manifest
    copies := planned.map (copyAction .copy)
    groups := (moveDeleteGroups planned useHnsBottomUp).map (List.map deleteSourceAction) ++
      ((unplannedSourceRoot args planned useHnsBottomUp).map fun root => [rootAction root.2]).toList
    skippedDeletes := manifest.actions.filter fun a => a.operation = .deleteSource
    copyLimit := batchConcurrency
    deleteLimit := batchConcurrency
    skips := false
    checkFails := false
    prunes := !isTosUri args.source }

-- Both loops of this command are sequential.
def executeMvRecursiveLocal (planned : List TransferPlanItem) : Command where
  manifest := buildMoveTransferManifest planned
  copies := planned.map (copyAction .copy)
  groups := [planned.map deleteSourceAction]
  skippedDeletes := planned.map deleteSourceAction
  copyLimit := 1
  deleteLimit := 1
  skips := false
  checkFails := false
  prunes := true

def executeSyncRecursive (planned : List TransferPlanItem) (deletePlan : List SyncExtra)
    (batchConcurrency : Nat) : Command where
  manifest := syncManifest planned deletePlan
  copies := planned.map (copyAction .syncCopy)
  groups := (syncDeleteGroups deletePlan).map (List.map fun extra => deleteExtraAction extra.toDeleteExtra)
  skippedDeletes := deletePlan.map fun extra => deleteExtraAction extra.toDeleteExtra
  copyLimit := batchConcurrency
  deleteLimit := batchConcurrency
  skips := true
  checkFails := true
  prunes := false

-- The deletes of this command are sequential.
def executeSyncLocalToTos (planned : List TransferPlanItem) (extras : List SyncExtra) (isHns : Bool)
    (batchConcurrency : Nat) : Command :=
  let extras := sortTosSyncDeleteEntriesBottomUp isHns extras
  let deletes := extras.map fun extra => deleteExtraAction extra.toDeleteExtra
  { manifest := { syncManifest planned extras with totalSize := (planned.map TransferPlanItem.size).sum }
    copies := planned.map (copyAction .syncCopy)
    groups := [deletes]
    skippedDeletes := deletes
    copyLimit := batchConcurrency
    deleteLimit := 1
    skips := true
    checkFails := false
    prunes := false }

-- Both loops of this command are sequential.
def executeSyncLocalToLocal (planned : List TransferPlanItem) (deletePlan : List SyncExtra) :
    Command where
  manifest := syncManifest planned deletePlan
  copies := planned.map (copyAction .syncCopy)
  groups := [deletePlan.map fun extra => deleteExtraAction extra.toDeleteExtra]
  skippedDeletes := deletePlan.map fun extra => deleteExtraAction extra.toDeleteExtra
  copyLimit := 1
  deleteLimit := 1
  skips := true
  checkFails := true
  prunes := false

-- `answers`: the row is the result of a request that was sent. `lost`: it could not be written.
structure Recorded where
  action : Action
  status : Status
  actionId : Option Nat
  answers : Bool
  lost : Bool

inductive Event where
  | send (a : Action)
  | row (r : Recorded)

def Event.sent? : Event → Option Action
  | .send a => some a
  | .row _ => none

def Event.row? : Event → Option Recorded
  | .send _ => none
  | .row r => some r

def sends (log : List Event) : List Action := log.filterMap Event.sent?

def rows (log : List Event) : List Recorded := log.filterMap Event.row?

def answers (log : List Event) : List Action :=
  ((rows log).filter Recorded.answers).map Recorded.action

inductive Stage where
  | copying (pending : List Action)
  | deleting (groups : List (List Action)) (pending : List Action)
  | skipping (pending : List Action)
  | returned (result : Except CliError Nat)

-- A future in flight has sent its request once it has been polled.
structure BatchState (D : Type) where
  report : BatchReport D
  inFlight : List (Action × Bool)
  log : List Event
  stage : Stage

inductive Label where
  | plain
  | checkFailed
  | writeFailed

section Steps

variable {D : Type} [DecidableEq D] (sha256 : List UInt8 → D) (c : Command)

def BatchState.init (failuresOnly : Bool) : BatchState D :=
  ⟨.newStreaming sha256 c.manifest.objectCount failuresOnly (some c.manifest), [], [],
    .copying c.copies⟩

def recordRow (report : BatchReport D) (log : List Event) (a : Action) (status : Status)
    (answers : Bool) (failure : Option Text) : List Event :=
  log ++ [.row ⟨a, status, (report.streamingSink.resolveActionId sha256 a).1, answers, failure.isSome⟩]

-- The inner loop is over: the driver waits for the futures in flight.
def Filled (b : BatchState D) : Prop :=
  match b.stage with
  | .copying pending => pending = [] ∨ max c.copyLimit 1 ≤ b.inFlight.length
  | .deleting _ pending =>
      pending = [] ∨ max c.deleteLimit 1 ≤ b.inFlight.length ∨ b.report.reportingFailed = true
  | _ => False

def finishResult (report : BatchReport D) (output : Except CliError Unit) : Except CliError Nat := do
  writeTosBatchReport report
  output
  .ok (if report.failed = 0 then 0 else 1)

def failureLabel : Option Text → Label
  | some _ => .writeFailed
  | none => .plain

inductive Step : Label → BatchState D → BatchState D → Prop
  | launchCopy (report inFlight log a pending) (h : inFlight.length < max c.copyLimit 1) :
      Step .plain ⟨report, inFlight, log, .copying (a :: pending)⟩
        ⟨report, inFlight ++ [(a, false)], log, .copying pending⟩
  | skipCopy (report inFlight log a pending failure) (hs : c.skips = true)
      (h : inFlight.length < max c.copyLimit 1)
      (hw : failure.isSome = true → report.streamingSink.writes .skipped = true) :
      Step .plain ⟨report, inFlight, log, .copying (a :: pending)⟩
        ⟨report.record sha256 a .skipped failure, inFlight,
          recordRow sha256 report log a .skipped false failure, .copying pending⟩
  | checkFails (report inFlight log a pending e) (hc : c.checkFails = true)
      (h : inFlight.length < max c.copyLimit 1) :
      Step .checkFailed ⟨report, inFlight, log, .copying (a :: pending)⟩
        ⟨report, [], log, .returned (.error e)⟩
  | start (report before a after log stage)
      (hf : Filled c ⟨report, before ++ (a, false) :: after, log, stage⟩) :
      Step .plain ⟨report, before ++ (a, false) :: after, log, stage⟩
        ⟨report, before ++ (a, true) :: after, log ++ [.send a], stage⟩
  | finish (report before a after log stage status failure)
      (hf : Filled c ⟨report, before ++ (a, true) :: after, log, stage⟩)
      (hs : a.operation.isDelete = true → status ≠ .skipped)
      (hw : failure.isSome = true → report.streamingSink.writes status = true) :
      Step (failureLabel failure) ⟨report, before ++ (a, true) :: after, log, stage⟩
        ⟨report.record sha256 a status failure, before ++ after,
          recordRow sha256 report log a status true failure, stage⟩
  | skipDeletes (report log) (h : report.hasFailures = true) :
      Step .plain ⟨report, [], log, .copying []⟩ ⟨report, [], log, .skipping c.skippedDeletes⟩
  | beginDeletes (report log) (h : report.hasFailures = false) :
      Step .plain ⟨report, [], log, .copying []⟩ ⟨report, [], log, .deleting c.groups []⟩
  | skipDelete (report log a pending failure)
      (hw : failure.isSome = true → report.streamingSink.writes .skipped = true) :
      Step .plain ⟨report, [], log, .skipping (a :: pending)⟩
        ⟨report.record sha256 a .skipped failure, [],
          recordRow sha256 report log a .skipped false failure, .skipping pending⟩
  | endSkips (report log output) :
      Step .plain ⟨report, [], log, .skipping []⟩
        ⟨report, [], log, .returned (finishResult report output)⟩
  | launchDelete (report inFlight log gs a pending) (hr : report.reportingFailed = false)
      (h : inFlight.length < max c.deleteLimit 1) :
      Step .plain ⟨report, inFlight, log, .deleting gs (a :: pending)⟩
        ⟨report, inFlight ++ [(a, false)], log, .deleting gs pending⟩
  | skipRest (report log gs a pending failure) (hr : report.reportingFailed = true)
      (hw : failure.isSome = true → report.streamingSink.writes .skipped = true) :
      Step .plain ⟨report, [], log, .deleting gs (a :: pending)⟩
        ⟨report.record sha256 a .skipped failure, [],
          recordRow sha256 report log a .skipped false failure, .deleting gs pending⟩
  | nextGroup (report log g gs) :
      Step .plain ⟨report, [], log, .deleting (g :: gs) []⟩ ⟨report, [], log, .deleting gs g⟩
  | pruneFails (report log e) (hp : c.prunes = true) (hr : report.reportingFailed = false) :
      Step .plain ⟨report, [], log, .deleting [] []⟩ ⟨report, [], log, .returned (.error e)⟩
  | endDeletes (report log output) :
      Step .plain ⟨report, [], log, .deleting [] []⟩
        ⟨report, [], log, .returned (finishResult report output)⟩

abbrev Runs (allowed : Label → BatchState D → Prop) : BatchState D → BatchState D → Prop :=
  Relation.ReflTransGen fun b b' => ∃ l, allowed l b ∧ Step sha256 c l b b'

end Steps

end VeStorage.Tos.Batch
