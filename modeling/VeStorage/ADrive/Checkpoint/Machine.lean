import VeStorage.ADrive.Plan
import VeStorage.Lib.Recorded
import VeStorage.Lib.Sorted
import VeStorage.Tos.Transfer.Parts
import Mathlib.Logic.Function.Basic

namespace VeStorage.ADrive.Checkpoint
open Lib
open Tos.Transfer (PartRange partRangesFrom mebibyte)

structure Service where
  etag : Bytes → Text
  crc64 : Bytes → Nat

structure TransferRuntimeConfig where
  checkpointThreshold : Nat
  batchConcurrency : Nat
  noManifest : Bool

def adriveSinglePutLimit : Nat := 64 * mebibyte

def adriveMultipartPartSize : Nat := 16 * mebibyte

def shouldUseMultipart (fileSize : Nat) (checkpointEnabled : Bool) (checkpointThreshold : Nat) : Bool :=
  decide (adriveSinglePutLimit < fileSize) ||
    (checkpointEnabled && decide (checkpointThreshold ≤ fileSize))

-- Parts of an upload and ranges of a download have the same fixed size.
def ranges (fileSize : Nat) : List PartRange :=
  partRangesFrom adriveMultipartPartSize fileSize fileSize 1 0

structure UploadPartCheckpoint where
  partNumber : Nat
  etag : Text
deriving DecidableEq

structure UploadCheckpoint where
  fileSize : Nat
  uploadId : Nat
  completedParts : List UploadPartCheckpoint
deriving DecidableEq

def UploadCheckpoint.numbers (s : UploadCheckpoint) : List Nat :=
  s.completedParts.map UploadPartCheckpoint.partNumber

-- The values that are hashed into the name of a range file, and its number.
structure RangePart where
  destination : Place
  etag : Text
  fileSize : Nat
  number : Nat
deriving DecidableEq

-- A session file may hold text that no longer parses.
structure World where
  tree : Tree
  sessions : Item → Option (Option UploadCheckpoint)
  uploads : Nat → Option (Nat → Option Bytes)
  nextId : Nat
  parts : RangePart → Option Bytes

-- `etag`, `size` and `crc64` are what the listing says of a remote file.
structure Job where
  item : Item
  etag : Text
  size : Nat
  crc64 : Nat

inductive Stage where
  | start
  | uploading (s : UploadCheckpoint) (outstanding : List PartRange)
  | completed
  | writing (body : Bytes)
  | ranges (outstanding : List PartRange)
  | assemble (rest : List PartRange) (written : Bytes)
  | cleanup (rest : List PartRange)
  | done (ok : Bool)

def Stage.ended : Stage → Option Bool
  | .done ok => some ok
  | _ => none

namespace World

def setFile (w : World) (p : Place) (v : Option Bytes) : World :=
  { w with tree := Function.update w.tree p v }

def setSession (w : World) (i : Item) (v : Option (Option UploadCheckpoint)) : World :=
  { w with sessions := Function.update w.sessions i v }

def putUpload (w : World) (id : Nat) (u : Option (Nat → Option Bytes)) : World :=
  { w with uploads := Function.update w.uploads id u }

def setPart (w : World) (k : RangePart) (v : Option Bytes) : World :=
  { w with parts := Function.update w.parts k v }

def initiate (w : World) : World :=
  { w.putUpload w.nextId (some fun _ => none) with nextId := w.nextId + 1 }

end World

def storePart (stored : Nat → Option Bytes) (r : PartRange) (bytes : Bytes) : Nat → Option Bytes :=
  Function.update stored r.number (some bytes)

def UploadCheckpoint.pushPart (s : UploadCheckpoint) (p : UploadPartCheckpoint) : UploadCheckpoint :=
  { s with completedParts := s.completedParts ++ [p] }

def UploadCheckpoint.outstanding (s : UploadCheckpoint) (fileSize : Nat) : List PartRange :=
  (ranges fileSize).filter fun r => decide (r.number ∉ s.numbers)

def assembled (stored : Nat → Option Bytes) (parts : List UploadPartCheckpoint) : Bytes :=
  (sortOn UploadPartCheckpoint.partNumber parts).flatMap fun p => (stored p.partNumber).getD []

namespace Job

variable (j : Job)

def src : Place := j.item.src

def dst : Place := j.item.dst

def key : Text := j.item.key

def part (r : PartRange) : RangePart := ⟨j.dst, j.etag, j.size, r.number⟩

end Job

section Transfers

variable (S : Service) (cfg : TransferRuntimeConfig)

def Listed (stored : Nat → Option Bytes) (p : UploadPartCheckpoint) : Prop :=
  ∃ b, stored p.partNumber = some b ∧ p.etag = S.etag b

-- A condition on the source that the service checks with every request.
def IfMatch (j : Job) (w : World) (c : Bytes) : Prop := w.tree j.src = some c ∧ S.etag c = j.etag

inductive Transfer (j : Job) : World × Stage → World × Stage → Prop
  | fail (w t) (h : t.ended = none) : Transfer j (w, t) (w, .done false)
  | put (w c ok) (ho : j.item.operation = .upload) (hc : w.tree j.src = some c)
      (hs : shouldUseMultipart c.length true cfg.checkpointThreshold = false) :
      Transfer j (w, .start) (w.setFile j.dst (some c), .done ok)
  | initiate (w c) (ho : j.item.operation = .upload) (hc : w.tree j.src = some c)
      (hs : shouldUseMultipart c.length true cfg.checkpointThreshold = true)
      (hn : w.sessions j.item = none) :
      Transfer j (w, .start)
        (w.initiate.setSession j.item (some (some ⟨c.length, w.nextId, []⟩)),
          .uploading ⟨c.length, w.nextId, []⟩ (ranges c.length))
  | initiateLost (w) (ho : j.item.operation = .upload) :
      Transfer j (w, .start) (w.initiate, .done false)
  | resume (w c s) (ho : j.item.operation = .upload) (hc : w.tree j.src = some c)
      (hs : shouldUseMultipart c.length true cfg.checkpointThreshold = true)
      (hn : w.sessions j.item = some (some s)) (hv : s.fileSize = c.length) :
      Transfer j (w, .start) (w, .uploading s (s.outstanding c.length))
  | tear (w s outstanding) :
      Transfer j (w, .uploading s outstanding) (w.setSession j.item (some none), .done false)
  | storePart (w s outstanding r c stored) (hr : r ∈ outstanding) (hc : w.tree j.src = some c)
      (hl : w.uploads s.uploadId = some stored) :
      Transfer j (w, .uploading s outstanding)
        (w.putUpload s.uploadId (some (storePart stored r (r.slice c))), .uploading s outstanding)
  | recordPart (w s s' outstanding r c stored) (hr : r ∈ outstanding) (hc : w.tree j.src = some c)
      (hl : w.uploads s.uploadId = some stored)
      (hs' : s' = s.pushPart ⟨r.number, S.etag (r.slice c)⟩) :
      Transfer j (w, .uploading s outstanding)
        ((w.putUpload s.uploadId (some (storePart stored r (r.slice c)))).setSession j.item
            (some (some s')), .uploading s' (outstanding.filter (· ≠ r)))
  -- the service may answer without a checksum
  | complete (w s c stored hash) (hc : w.tree j.src = some c)
      (hl : w.uploads s.uploadId = some stored) (hlisted : ∀ p ∈ s.completedParts, Listed S stored p)
      (hhash : hash = 0 ∨ hash = S.crc64 (assembled stored s.completedParts))
      (hcrc : hash = 0 ∨ hash = S.crc64 c) :
      Transfer j (w, .uploading s [])
        ((w.putUpload s.uploadId none).setFile j.dst (some (assembled stored s.completedParts)),
          .completed)
  | completeLost (w s stored) (hl : w.uploads s.uploadId = some stored)
      (hlisted : ∀ p ∈ s.completedParts, Listed S stored p) :
      Transfer j (w, .uploading s [])
        ((w.putUpload s.uploadId none).setFile j.dst (some (assembled stored s.completedParts)),
          .done false)
  | removeSession (w) : Transfer j (w, .completed) (w.setSession j.item none, .done true)
  | get (w c) (ho : j.item.operation = .download) (hs : j.size < cfg.checkpointThreshold)
      (hm : IfMatch S j w c) (hlength : c.length = j.size) (hcrc : j.crc64 = 0 ∨ S.crc64 c = j.crc64) :
      Transfer j (w, .start) (w, .writing c)
  | write (w body b) (hb : b <+: body) :
      Transfer j (w, .writing body) (w.setFile j.dst (some b), .writing body)
  | written (w body) : Transfer j (w, .writing body) (w.setFile j.dst (some body), .done true)
  | plan (w) (ho : j.item.operation = .download) (hs : cfg.checkpointThreshold ≤ j.size) :
      Transfer j (w, .start) (w, .ranges (ranges j.size))
  | present (w outstanding r b) (hr : r ∈ outstanding) (hb : w.parts (j.part r) = some b)
      (hsize : b.length = r.size) :
      Transfer j (w, .ranges outstanding) (w, .ranges (outstanding.filter (· ≠ r)))
  | fetch (w outstanding r c b) (hr : r ∈ outstanding) (hm : IfMatch S j w c)
      (hb : b <+: r.slice c) :
      Transfer j (w, .ranges outstanding) (w.setPart (j.part r) (some b), .ranges outstanding)
  | fetched (w outstanding r c) (hr : r ∈ outstanding) (hm : IfMatch S j w c)
      (hsize : (r.slice c).length = r.size) :
      Transfer j (w, .ranges outstanding)
        (w.setPart (j.part r) (some (r.slice c)), .ranges (outstanding.filter (· ≠ r)))
  | discard (w outstanding r) :
      Transfer j (w, .ranges outstanding) (w.setPart (j.part r) none, .done false)
  | create (w) :
      Transfer j (w, .ranges []) (w.setFile j.dst (some []), .assemble (ranges j.size) [])
  | append (w r rest written b) (hb : w.parts (j.part r) = some b) :
      Transfer j (w, .assemble (r :: rest) written)
        (w.setFile j.dst (some (written ++ b)), .assemble rest (written ++ b))
  | appendFailed (w r rest written b b') (hb : w.parts (j.part r) = some b) (hb' : b' <+: b) :
      Transfer j (w, .assemble (r :: rest) written)
        (w.setFile j.dst (some (written ++ b')), .done false)
  | assembled (w written) : Transfer j (w, .assemble [] written) (w, .cleanup (ranges j.size))
  | removePart (w r rest) :
      Transfer j (w, .cleanup (r :: rest)) (w.setPart (j.part r) none, .cleanup rest)
  | verified (w b) (hb : w.tree j.dst = some b) (hcrc : j.crc64 = 0 ∨ S.crc64 b = j.crc64) :
      Transfer j (w, .cleanup []) (w, .done true)
  | mismatch (w b) (hb : w.tree j.dst = some b) (hcrc : j.crc64 ≠ 0 ∧ S.crc64 b ≠ j.crc64) :
      Transfer j (w, .cleanup []) (w.setFile j.dst none, .done false)
  | copy (w c ok) (ho : j.item.operation = .remoteCopy) (hm : IfMatch S j w c) :
      Transfer j (w, .start) (w.setFile j.dst (some c), .done ok)

end Transfers

structure Discovery where
  start : Tree
  seen : List Place
  closed : Bool

section Runs

variable (S : Service) (t : Task) (cfg : TransferRuntimeConfig)

structure Found (tree : Tree) (job : Job) (c : Bytes) : Prop where
  item : t.item job.src = some job.item
  content : tree job.src = some c
  etag : job.etag = S.etag c
  size : job.size = c.length
  crc64 : job.crc64 = 0 ∨ job.crc64 = S.crc64 c

-- With a manifest one complete listing; without one, page after page of what is there by then.
inductive Discover (w : World) : Discovery → List Job → Discovery → Prop
  | manifest (start jobs) (hm : cfg.noManifest = false) (hfound : ∀ job ∈ jobs, ∃ c, Found S t w.tree job c)
      (hnodup : (jobs.map Job.src).Nodup)
      (hall : ∀ p i, t.item p = some i → w.tree p ≠ none → p ∈ jobs.map Job.src) :
      Discover w ⟨start, [], false⟩ jobs ⟨start, jobs.map Job.src, true⟩
  | page (start seen jobs) (hm : cfg.noManifest = true) (hfound : ∀ job ∈ jobs, ∃ c, Found S t w.tree job c)
      (hnodup : (seen ++ jobs.map Job.src).Nodup) :
      Discover w ⟨start, seen, false⟩ jobs ⟨start, seen ++ jobs.map Job.src, false⟩
  | close (start seen) (hm : cfg.noManifest = true)
      (hall : ∀ p i, t.item p = some i → start p ≠ none → w.tree p ≠ none → p ∈ seen) :
      Discover w ⟨start, seen, false⟩ [] ⟨start, seen, true⟩

abbrev Exec := Recorded.Exec World Discovery Job Stage Text

abbrev Run : Exec → Exec → Prop :=
  Recorded.Run (Discover S t cfg) (Transfer S cfg) .start Stage.ended Job.key cfg.batchConcurrency

-- What the steps so far leave: `none` for a batch checkpoint whose last save was cut off.
structure Left where
  world : World
  completed : Option (List Text)

def Left.fresh (tree : Tree) : Left := ⟨⟨tree, fun _ => none, fun _ => none, 0, fun _ => none⟩, some []⟩

def Exec.Successful (x : Exec) : Prop := x.Done (fun d => d.closed = true) ∧ x.failures = 0

def World.removeAll (w : World) (removed : List Place) : World :=
  { w with tree := fun p => if p ∈ removed then none else w.tree p }

inductive Action where
  | edit (p : Place) (v : Option Bytes)
  | stopped (x : Exec) (torn : Bool)
  | returned (x : Exec) (removed : List Place)

def Exec.begin (w : World) (record : List Text) : Exec := .init w ⟨w.tree, [], false⟩ record

-- `removed` is what the delete stage of a sync takes away after its copies.
inductive Step : Left → Action → Left → Prop
  | edit (l p v) : Step l (.edit p v) ⟨l.world.setFile p v, l.completed⟩
  | stopped (w record x torn) (h : Run S t cfg (Exec.begin w record) x) :
      Step ⟨w, some record⟩ (.stopped x torn)
        ⟨x.world, if torn then none else some x.record⟩
  | returned (w record x removed) (h : Run S t cfg (Exec.begin w record) x) (hx : Exec.Successful x) :
      Step ⟨w, some record⟩ (.returned x removed) ⟨x.world.removeAll removed, some x.record⟩

inductive History (l₀ : Left) : List (Left × Action) → Left → Prop
  | nil : History l₀ [] l₀
  | snoc (hist l a l') (h : History l₀ hist l) (hs : Step S t cfg l a l') :
      History l₀ (hist ++ [(l, a)]) l'

end Runs

end VeStorage.ADrive.Checkpoint
