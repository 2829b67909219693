import VeStorage.ADrive.Checkpoint.Store

namespace VeStorage.ADrive.Multipart
open Lib
open Tos.Transfer (PartRange)
open Checkpoint (ranges shouldUseMultipart)

-- `acceptsEmpty`: whether an upload without any part can be completed.
structure Service where
  etag : Bytes → Text
  crc64 : Bytes → Nat
  acceptsEmpty : Bool

structure UploadTarget where
  inst : Text
  space : Text
  filePath : Text
  sourcePath : Text
deriving DecidableEq

-- The arguments that the runs share; one checkpoint file belongs to them.
structure Upload where
  service : Service
  target : UploadTarget
  checkpointEnabled : Bool
  checkpointThreshold : Nat
  multipartConcurrency : Nat
  concurrency_pos : 0 < multipartConcurrency

structure Job extends Upload where
  content : Bytes
  selected : shouldUseMultipart content.length checkpointEnabled checkpointThreshold = true

structure UploadPartCheckpoint where
  partNumber : Int
  etag : Text
deriving DecidableEq

structure UploadCheckpoint where
  target : UploadTarget
  fileSize : Nat
  partSize : Nat
  uploadId : Option Nat
  completedParts : List UploadPartCheckpoint
deriving DecidableEq

-- The checkpoint file may hold text that no longer parses.
structure World where
  checkpoint : Option (Option UploadCheckpoint)
  nextId : Nat
  uploads : Nat → Option (Int → Option Bytes)
  object : Option Bytes

inductive Outcome where
  | ok (parts : List UploadPartCheckpoint)
  | failed

inductive Stage where
  | start
  | loaded (c : UploadCheckpoint)
  | created (c : UploadCheckpoint) (id : Nat)
  | parts (c : UploadCheckpoint) (id : Nat) (pending : List PartRange)
      (inFlight : List (PartRange × Option Text))
  | complete (parts : List UploadPartCheckpoint) (id : Nat)
  | completed (parts : List UploadPartCheckpoint)
  | removed (parts : List UploadPartCheckpoint)
  | done (outcome : Outcome)
  | killed

def Stage.ended : Stage → Bool
  | .done _ => true
  | .killed => true
  | _ => false

structure State where
  world : World
  stage : Stage

-- `part_index + 1` goes through `as i32`.
def i32 (n : Nat) : Int := Int.bmod n (2 ^ 32)

def partNumber (r : PartRange) : Int := i32 r.number

def UploadCheckpoint.numbers (c : UploadCheckpoint) : List Int :=
  c.completedParts.map UploadPartCheckpoint.partNumber

def UploadCheckpoint.pushPart (c : UploadCheckpoint) (p : UploadPartCheckpoint) : UploadCheckpoint :=
  { c with completedParts := c.completedParts ++ [p] }

def sortedParts (c : UploadCheckpoint) : List UploadPartCheckpoint :=
  sortOn UploadPartCheckpoint.partNumber c.completedParts

namespace Job

variable (j : Job)

def fileSize : Nat := j.content.length

def ranges : List PartRange := Checkpoint.ranges j.fileSize

def etagOf (r : PartRange) : Text := j.service.etag (r.slice j.content)

def freshCheckpoint : UploadCheckpoint :=
  ⟨j.target, j.fileSize, Checkpoint.adriveMultipartPartSize, none, []⟩

def validateUploadCheckpoint (c : UploadCheckpoint) : Bool :=
  decide (c.target = j.target ∧ c.fileSize = j.fileSize ∧
    c.partSize = Checkpoint.adriveMultipartPartSize)

end Job

def pendingParts (j : Job) (c : UploadCheckpoint) : List PartRange :=
  j.ranges.filter fun r => decide (partNumber r ∉ c.numbers)

def storePart (stored : Int → Option Bytes) (r : PartRange) (bytes : Bytes) : Int → Option Bytes :=
  Function.update stored (partNumber r) (some bytes)

def World.putUpload (w : World) (id : Nat) (u : Option (Int → Option Bytes)) : World :=
  { w with uploads := Function.update w.uploads id u }

def World.initiate (w : World) : World :=
  { w.putUpload w.nextId (some fun _ => none) with nextId := w.nextId + 1 }

def World.save (w : World) (j : Job) (c : UploadCheckpoint) : World :=
  if j.checkpointEnabled then { w with checkpoint := some (some c) } else w

def World.removeCheckpointFile (w : World) (j : Job) : World :=
  if j.checkpointEnabled then { w with checkpoint := none } else w

def assembled (stored : Int → Option Bytes) (parts : List UploadPartCheckpoint) : Bytes :=
  parts.flatMap fun p => (stored p.partNumber).getD []

def Listed (S : Service) (stored : Int → Option Bytes) (p : UploadPartCheckpoint) : Prop :=
  ∃ b, stored p.partNumber = some b ∧ p.etag = S.etag b

def numbersFromOne (n : Nat) : List Int := (List.range' 1 n).map Int.ofNat

-- The service takes stored parts numbered from one without gaps, and retires the id.
inductive CompleteUpload (S : Service) (id : Nat) (parts : List UploadPartCheckpoint) (w : World) :
    World → Prop
  | accepted (stored) (hl : w.uploads id = some stored)
      (hnumbers : parts.map UploadPartCheckpoint.partNumber = numbersFromOne parts.length)
      (hempty : parts ≠ [] ∨ S.acceptsEmpty = true) (hlisted : ∀ p ∈ parts, Listed S stored p) :
      CompleteUpload S id parts w
        { w.putUpload id none with object := some (assembled stored parts) }

inductive Step (j : Job) : State → State → Prop
  | fail (w stage) (h : stage.ended = false) : Step j ⟨w, stage⟩ ⟨w, .done .failed⟩
  | kill (w stage) (h : stage.ended = false) : Step j ⟨w, stage⟩ ⟨w, .killed⟩
  | loadNone (w) (h : j.checkpointEnabled = true → w.checkpoint = none) :
      Step j ⟨w, .start⟩ ⟨w, .loaded j.freshCheckpoint⟩
  | load (w c) (he : j.checkpointEnabled = true) (h : w.checkpoint = some (some c))
      (hv : j.validateUploadCheckpoint c = true) : Step j ⟨w, .start⟩ ⟨w, .loaded c⟩
  | initiate (w c) (h : c.uploadId = none) :
      Step j ⟨w, .loaded c⟩ ⟨w.initiate, .created { c with uploadId := some w.nextId } w.nextId⟩
  | saveInitiated (w c id) :
      Step j ⟨w, .created c id⟩ ⟨w.save j c, .parts c id (pendingParts j c) []⟩
  | tearInitiated (w c id) (he : j.checkpointEnabled = true) :
      Step j ⟨w, .created c id⟩ ⟨{ w with checkpoint := some none }, .killed⟩
  | resume (w c id) (h : c.uploadId = some id) :
      Step j ⟨w, .loaded c⟩ ⟨w, .parts c id (pendingParts j c) []⟩
  | launch (w c id r pending inFlight) (h : inFlight.length < j.multipartConcurrency) :
      Step j ⟨w, .parts c id (r :: pending) inFlight⟩
        ⟨w, .parts c id pending (inFlight ++ [(r, none)])⟩
  | store (w c id pending before r after stored) (hl : w.uploads id = some stored) :
      Step j ⟨w, .parts c id pending (before ++ (r, none) :: after)⟩
        ⟨w.putUpload id (some (storePart stored r (r.slice j.content))),
          .parts c id pending (before ++ (r, some (j.etagOf r)) :: after)⟩
  | record (w c id pending before r etag after) :
      Step j ⟨w, .parts c id pending (before ++ (r, some etag) :: after)⟩
        ⟨w.save j (c.pushPart ⟨partNumber r, etag⟩),
          .parts (c.pushPart ⟨partNumber r, etag⟩) id pending (before ++ after)⟩
  | tearRecorded (w c id pending before r etag after) (he : j.checkpointEnabled = true) :
      Step j ⟨w, .parts c id pending (before ++ (r, some etag) :: after)⟩
        ⟨{ w with checkpoint := some none }, .killed⟩
  -- without a checkpoint a failed upload is aborted
  | abort (w c id pending inFlight) (he : j.checkpointEnabled = false) :
      Step j ⟨w, .parts c id pending inFlight⟩ ⟨w.putUpload id none, .done .failed⟩
  | finish (w c id) : Step j ⟨w, .parts c id [] []⟩ ⟨w, .complete (sortedParts c) id⟩
  | abortComplete (w parts id) (he : j.checkpointEnabled = false) :
      Step j ⟨w, .complete parts id⟩ ⟨w.putUpload id none, .done .failed⟩
  | complete (w parts id w') (h : CompleteUpload j.service id parts w w') (hash : Nat)
      (hhash : hash = 0 ∨ ∃ b, w'.object = some b ∧ hash = j.service.crc64 b)
      (hcrc : hash = 0 ∨ hash = j.service.crc64 j.content) :
      Step j ⟨w, .complete parts id⟩ ⟨w', .completed parts⟩
  | completeLost (w parts id w') (h : CompleteUpload j.service id parts w w') :
      Step j ⟨w, .complete parts id⟩ ⟨w', .done .failed⟩
  | removeCheckpoint (w parts) :
      Step j ⟨w, .completed parts⟩ ⟨w.removeCheckpointFile j, .removed parts⟩
  | exit (w parts) : Step j ⟨w, .removed parts⟩ ⟨w, .done (.ok parts)⟩

abbrev Run (j : Job) : State → State → Prop := Relation.ReflTransGen (Step j)

def World.initial (nextId : Nat) (object : Option Bytes) : World := ⟨none, nextId, fun _ => none, object⟩

-- Any number of earlier runs, each stopped anywhere and each over whatever the source file then was.
inductive Reachable (u : Upload) : World → Prop
  | initial (nextId object) : Reachable u (World.initial nextId object)
  | run (w x) (j : Job) (hj : j.toUpload = u) (h : Reachable u w) (hr : Run j ⟨w, .start⟩ x) :
      Reachable u x.world
  | put (w b) (h : Reachable u w) : Reachable u { w with object := b }

def Later (j : Job) : World → World → Prop :=
  Relation.ReflTransGen fun w w' => ∃ x, Run j ⟨w, .start⟩ x ∧ x.world = w'

structure MultipartCorrect (j : Job) (w : World) : Prop where
  ok_complete : ∀ w' parts, Run j ⟨w, .start⟩ ⟨w', .done (.ok parts)⟩ →
    parts.map UploadPartCheckpoint.partNumber = numbersFromOne j.ranges.length ∧
      w'.object = some j.content
  can_finish : ∃ w', Later j w w' ∧ ∃ w'' parts, Run j ⟨w', .start⟩ ⟨w'', .done (.ok parts)⟩

def Fits (j : Job) : Prop := j.ranges.length < 2 ^ 31

-- What an earlier run recorded under part number `n` and the service still holds.
def World.recorded (w : World) (j : Job) (n : Int) : Option Bytes :=
  match w.checkpoint with
  | some (some c) =>
      if j.checkpointEnabled = true ∧ n ∈ c.numbers then
        c.uploadId.bind fun id => (w.uploads id).bind fun stored => stored n
      else none
  | _ => none

def piece (j : Job) (w : World) (r : PartRange) : Bytes :=
  (w.recorded j (partNumber r)).getD (r.slice j.content)

def Usable (j : Job) (w : World) : Prop :=
  j.checkpointEnabled = true → ∀ file, w.checkpoint = some file → ∃ c, file = some c ∧
    j.validateUploadCheckpoint c = true ∧ ∀ id, c.uploadId = some id → w.uploads id ≠ none

structure Resumable (j : Job) (w : World) : Prop where
  usable : Usable j w
  fits : Fits j
  accepted : j.fileSize ≠ 0 ∨ j.service.acceptsEmpty = true
  same_parts : ∀ r ∈ j.ranges, piece j w r = r.slice j.content

end VeStorage.ADrive.Multipart
