import VeStorage.Lib.Text
import VeStorage.Lib.Sorted
import VeStorage.Tos.Transfer.Parts
import Mathlib.Logic.Function.Basic
import Mathlib.Logic.Relation

namespace VeStorage.Tos.Multipart
open Lib Transfer

abbrev Bytes := List UInt8

def shouldUseMultipart (fileSize : Nat) (checkpointEnabled : Bool) (checkpointThreshold : Nat) : Bool :=
  decide (autoSelect fileSize ≠ .simple) ||
    (checkpointEnabled && decide (checkpointThreshold ≤ fileSize))

inductive Kind where
  | upload
  | copy
deriving DecidableEq

-- The arguments of one upload or copy; the source does not change.
structure Job where
  kind : Kind
  source : Text
  bucket : Text
  key : Text
  content : Bytes
  checkpointEnabled : Bool
  checkpointThreshold : Nat
  multipartConcurrency : Nat
  etagHeader : Bytes → Text
  selected : shouldUseMultipart content.length checkpointEnabled checkpointThreshold = true
  concurrency_pos : 0 < multipartConcurrency

structure CompletedPart where
  partNumber : Nat
  etag : Text
deriving DecidableEq

structure Checkpoint where
  bucket : Text
  key : Text
  sourcePath : Option Text
  fileSize : Nat
  partSize : Nat
  uploadId : Option Nat
  completedParts : List CompletedPart
deriving DecidableEq

-- What a run leaves behind: the lock file, the checkpoint file, and the service.
structure World where
  lock : Bool
  checkpoint : Option Checkpoint
  nextId : Nat
  uploads : Nat → Option (Nat → Option Bytes)
  object : Option Bytes

inductive Outcome where
  | ok (parts : List CompletedPart)
  | failed

inductive Stage where
  | start
  | locked
  | loaded (c : Checkpoint)
  | created (c : Checkpoint) (id : Nat)
  | ready (c : Checkpoint) (id : Nat)
  | listed (c : Checkpoint) (id : Nat)
  | saved (c : Checkpoint) (id : Nat)
  | parts (c : Checkpoint) (id : Nat) (pending : List PartRange)
      (inFlight : List (PartRange × Option Text))
  | complete (c : Checkpoint) (id : Nat)
  | completed (c : Checkpoint)
  | removed (c : Checkpoint)
  | done (outcome : Outcome)
  | killed

def Stage.holdsLock : Stage → Bool
  | .start => false
  | .done _ => false
  | .killed => false
  | _ => true

def Stage.ended : Stage → Bool
  | .done _ => true
  | .killed => true
  | _ => false

structure State where
  world : World
  stage : Stage

namespace Job

variable (j : Job)

def fileSize : Nat := j.content.length

def partSize : Nat := multipartPartSize j.fileSize

def ranges : List PartRange := partRanges j.fileSize

def uploadPartEtag (bytes : Bytes) : Text := trim '"' (j.etagHeader bytes)

def completedPart (r : PartRange) : CompletedPart := ⟨r.number, j.uploadPartEtag (r.slice j.content)⟩

def freshCheckpoint : Checkpoint := ⟨j.bucket, j.key, some j.source, j.fileSize, j.partSize, none, []⟩

def accepts (c : Checkpoint) : Bool :=
  decide (c.fileSize = j.fileSize ∧ c.partSize = j.partSize) &&
    match j.kind with
    | .upload => true
    | .copy => decide (c.bucket = j.bucket ∧ c.key = j.key)

end Job

namespace Checkpoint

def numbers (c : Checkpoint) : List Nat := c.completedParts.map CompletedPart.partNumber

def retainParts (c : Checkpoint) (stored : Nat → Option Bytes) : Checkpoint :=
  { c with completedParts := c.completedParts.filter fun p => (stored p.partNumber).isSome }

def pushPart (c : Checkpoint) (p : CompletedPart) : Checkpoint :=
  { c with completedParts := sortOn CompletedPart.partNumber (c.completedParts ++ [p]) }

end Checkpoint

-- The part numbers are 32-bit; the loop stops with an error when one more does not fit.
def pendingParts (j : Job) (c : Checkpoint) : Option (List PartRange) :=
  if ∀ r ∈ j.ranges, r.number + 1 < 2 ^ 32 then
    some (j.ranges.filter fun r => decide (r.number ∉ c.numbers))
  else none

def storePart (stored : Nat → Option Bytes) (r : PartRange) (bytes : Bytes) : Nat → Option Bytes :=
  Function.update stored r.number (some bytes)

def World.putUpload (w : World) (id : Nat) (u : Option (Nat → Option Bytes)) : World :=
  { w with uploads := Function.update w.uploads id u }

def Listed (j : Job) (stored : Nat → Option Bytes) (p : CompletedPart) : Prop :=
  ∃ b, stored p.partNumber = some b ∧ p.etag = j.uploadPartEtag b

def assembled (stored : Nat → Option Bytes) (parts : List CompletedPart) : Bytes :=
  parts.flatMap fun p => (stored p.partNumber).getD []

-- The service accepts a list of stored parts with their ETags, in increasing order.
inductive CompleteUpload (j : Job) (id : Nat) (parts : List CompletedPart) (w : World) : World → Prop
  | accepted (stored) (hlive : w.uploads id = some stored) (hne : parts ≠ [])
      (hlisted : ∀ p ∈ parts, Listed j stored p)
      (hsorted : (parts.map CompletedPart.partNumber).Pairwise (· < ·)) :
      CompleteUpload j id parts w
        { w.putUpload id none with object := some (assembled stored parts) }

inductive Step (j : Job) : State → State → Prop
  | fail (w stage lock) (hlive : stage.ended = false)
      (hlock : lock = w.lock ∨ stage.holdsLock = true ∧ lock = false) :
      Step j ⟨w, stage⟩ ⟨{ w with lock := lock }, .done .failed⟩
  | kill (w stage) (hlive : stage.ended = false) : Step j ⟨w, stage⟩ ⟨w, .killed⟩
  -- a part request of this or an earlier run that takes effect after nobody waits for it
  | late (w stage id stored r) (hlive : w.uploads id = some stored) (hr : r ∈ j.ranges) :
      Step j ⟨w, stage⟩ ⟨w.putUpload id (some (storePart stored r (r.slice j.content))), stage⟩
  | acquire (w) (h : w.lock = false) : Step j ⟨w, .start⟩ ⟨{ w with lock := true }, .locked⟩
  -- the lock file was created but writing the pid into it failed
  | acquireLeak (w) (h : w.lock = false) :
      Step j ⟨w, .start⟩ ⟨{ w with lock := true }, .done .failed⟩
  | loadNone (w) (h : w.checkpoint = none) : Step j ⟨w, .locked⟩ ⟨w, .loaded j.freshCheckpoint⟩
  | load (w c) (h : w.checkpoint = some c) (hv : j.accepts c = true) :
      Step j ⟨w, .locked⟩ ⟨w, .loaded c⟩
  | create (w c) (h : c.uploadId = none) :
      Step j ⟨w, .loaded c⟩
        ⟨{ w.putUpload w.nextId (some fun _ => none) with nextId := w.nextId + 1 },
          .created { c with uploadId := some w.nextId } w.nextId⟩
  | createLost (w c lock) (h : c.uploadId = none) :
      Step j ⟨w, .loaded c⟩
        ⟨{ w.putUpload w.nextId (some fun _ => none) with nextId := w.nextId + 1, lock := lock },
          .done .failed⟩
  | saveCreated (w c id) :
      Step j ⟨w, .created c id⟩ ⟨{ w with checkpoint := some c }, .ready c id⟩
  | resume (w c id) (h : c.uploadId = some id) : Step j ⟨w, .loaded c⟩ ⟨w, .ready c id⟩
  | listParts (w c id stored) (h : w.uploads id = some stored) :
      Step j ⟨w, .ready c id⟩ ⟨w, .listed (c.retainParts stored) id⟩
  | saveListed (w c id) : Step j ⟨w, .listed c id⟩ ⟨{ w with checkpoint := some c }, .saved c id⟩
  | plan (w c id pending) (h : pendingParts j c = some pending) :
      Step j ⟨w, .saved c id⟩ ⟨w, .parts c id pending []⟩
  | launch (w c id r pending inFlight) (h : inFlight.length < j.multipartConcurrency) :
      Step j ⟨w, .parts c id (r :: pending) inFlight⟩
        ⟨w, .parts c id pending (inFlight ++ [(r, none)])⟩
  | store (w c id pending before r after stored) (h : w.uploads id = some stored) :
      Step j ⟨w, .parts c id pending (before ++ (r, none) :: after)⟩
        ⟨w.putUpload id (some (storePart stored r (r.slice j.content))),
          .parts c id pending (before ++ (r, some (j.uploadPartEtag (r.slice j.content))) :: after)⟩
  | record (w c id pending before r etag after) :
      Step j ⟨w, .parts c id pending (before ++ (r, some etag) :: after)⟩
        ⟨{ w with checkpoint := some (c.pushPart ⟨r.number, etag⟩) },
          .parts (c.pushPart ⟨r.number, etag⟩) id pending (before ++ after)⟩
  | finish (w c id) (hne : c.completedParts ≠ []) :
      Step j ⟨w, .parts c id [] []⟩ ⟨w, .complete c id⟩
  | complete (w c id w') (h : CompleteUpload j id c.completedParts w w') :
      Step j ⟨w, .complete c id⟩ ⟨w', .completed c⟩
  | completeLost (w c id w' lock) (h : CompleteUpload j id c.completedParts w w') :
      Step j ⟨w, .complete c id⟩ ⟨{ w' with lock := lock }, .done .failed⟩
  | removeCheckpoint (w c) : Step j ⟨w, .completed c⟩ ⟨{ w with checkpoint := none }, .removed c⟩
  | exit (w c lock) : Step j ⟨w, .removed c⟩ ⟨{ w with lock := lock }, .done (.ok c.completedParts)⟩

abbrev Run (j : Job) : State → State → Prop := Relation.ReflTransGen (Step j)

def World.initial (nextId : Nat) (object : Option Bytes) : World :=
  ⟨false, none, nextId, fun _ => none, object⟩

-- Any number of earlier runs, each stopped anywhere.
inductive Reachable (j : Job) : World → Prop
  | initial (nextId object) : Reachable j (World.initial nextId object)
  | run (w x) (h : Reachable j w) (hr : Run j ⟨w, .start⟩ x) : Reachable j x.world

end VeStorage.Tos.Multipart
