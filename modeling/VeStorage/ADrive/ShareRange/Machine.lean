import VeStorage.ADrive.ShareRange.Heals
import VeStorage.ADrive.Download.Machine

namespace VeStorage.ADrive.ShareRange
open Lib
open Lib.Crash (Stop forEach)
open ADrive.Share (CliError hexEncode)
open Tos.Transfer (PartRange)

-- The file that every checked response carries a piece of.
structure Remote where
  content : List UInt8
  size : UInt64
  crc64 : List UInt8 → UInt64
  hashCrc64 : UInt64
  size_eq : content.length = size.toNat

def ofPart (r : PartRange) : DownloadRange := ⟨.ofNat r.number, .ofNat r.offset, .ofNat r.size⟩

-- `RangePlan::new` and the ranges that it yields.
def rangePlan (size : UInt64) : Option (List DownloadRange) :=
  (Download.rangePlan size.toNat).map fun plan => plan.map ofPart

def DownloadRange.slice (range : DownloadRange) (content : List UInt8) : List UInt8 :=
  (content.drop range.offset.toNat).take range.size.toNat

structure Args where
  concurrency : Nat
  hasCheckpoint : Bool

-- `part` is the staged file of the range in a run with a checkpoint.
inductive Job
  | restoring
  | requesting (attempt : Nat) (part : List UInt8)
  | receiving (attempt : Nat) (part body : List UInt8)

inductive Stage
  | start
  | transfer (pending : List DownloadRange) (inFlight : List (DownloadRange × Job))
  | assemble (rest : List DownloadRange) (written : Nat)
  | verify
  | done (digest : Option Text)

structure State where
  directory : Directory
  staged : List UInt8
  stage : Stage

def Job.first (args : Args) : Job := if args.hasCheckpoint then .restoring else .requesting 0 []

inductive Step (env : Env) (remote : Remote) (args : Args) : State → State → Prop
  | fail (dir staged stage) (h : ∀ digest, stage ≠ .done digest) :
      Step env remote args ⟨dir, staged, stage⟩ ⟨dir, staged, .done none⟩
  | plan (dir staged ranges) (h : rangePlan remote.size = some ranges) (hc : 0 < args.concurrency) :
      Step env remote args ⟨dir, staged, .start⟩
        ⟨dir, List.replicate remote.size.toNat 0, .transfer ranges []⟩
  | launch (dir staged range pending inFlight) (hroom : inFlight.length < args.concurrency) :
      Step env remote args ⟨dir, staged, .transfer (range :: pending) inFlight⟩
        ⟨dir, staged, .transfer pending (inFlight ++ [(range, .first args)])⟩
  | restored (dir staged pending before range after faults found left)
      (h : restore env range ⟨dir, faults⟩ = .ok (some found) left) :
      Step env remote args ⟨dir, staged, .transfer pending (before ++ (range, .restoring) :: after)⟩
        ⟨left.state, staged, .transfer pending (before ++ after)⟩
  | stage (dir staged pending before range after faults left)
      (h : restore env range ⟨dir, faults⟩ = .ok none left) :
      Step env remote args ⟨dir, staged, .transfer pending (before ++ (range, .restoring) :: after)⟩
        ⟨left.state, staged, .transfer pending (before ++ (range, .requesting 0 []) :: after)⟩
  | restoreStopped (dir staged pending before range after faults stop left)
      (h : restore env range ⟨dir, faults⟩ = .error stop left) :
      Step env remote args ⟨dir, staged, .transfer pending (before ++ (range, .restoring) :: after)⟩
        ⟨left.state, staged, .done none⟩
  | refused (dir staged pending before range after attempt part) (hleft : attempt < 2) :
      Step env remote args
        ⟨dir, staged, .transfer pending (before ++ (range, .requesting attempt part) :: after)⟩
        ⟨dir, staged, .transfer pending (before ++ (range, .requesting (attempt + 1) part) :: after)⟩
  | respond (dir staged pending before range after attempt part) :
      Step env remote args
        ⟨dir, staged, .transfer pending (before ++ (range, .requesting attempt part) :: after)⟩
        ⟨dir, staged, .transfer pending (before ++ (range, .receiving attempt part []) :: after)⟩
  | chunk (dir staged pending before range after attempt part body chunk)
      (h : args.hasCheckpoint = false) (hchunk : body ++ chunk <+: range.slice remote.content) :
      Step env remote args
        ⟨dir, staged, .transfer pending (before ++ (range, .receiving attempt part body) :: after)⟩
        ⟨dir, writeAt staged chunk (range.offset.toNat + body.length),
          .transfer pending (before ++ (range, .receiving attempt part (body ++ chunk)) :: after)⟩
  | chunkPart (dir staged pending before range after attempt part body chunk)
      (h : args.hasCheckpoint = true) (hchunk : body ++ chunk <+: range.slice remote.content) :
      Step env remote args
        ⟨dir, staged, .transfer pending (before ++ (range, .receiving attempt part body) :: after)⟩
        ⟨dir, staged, .transfer pending (before ++ (range, .receiving attempt
          (writeAt part chunk body.length) (body ++ chunk)) :: after)⟩
  | interrupted (dir staged pending before range after attempt part body) (hleft : attempt < 2) :
      Step env remote args
        ⟨dir, staged, .transfer pending (before ++ (range, .receiving attempt part body) :: after)⟩
        ⟨dir, staged, .transfer pending (before ++ (range, .requesting (attempt + 1) part) :: after)⟩
  | received (dir staged pending before range after attempt part body)
      (h : args.hasCheckpoint = false) (hsize : body.length = range.size.toNat) :
      Step env remote args
        ⟨dir, staged, .transfer pending (before ++ (range, .receiving attempt part body) :: after)⟩
        ⟨dir, staged, .transfer pending (before ++ after)⟩
  | completed (dir staged pending before range after attempt part body faults left)
      (hc : args.hasCheckpoint = true) (hsize : body.length = range.size.toNat)
      (h : complete range part (hexEncode (env.sha256 body).bytes) ⟨dir, faults⟩ = .ok () left) :
      Step env remote args
        ⟨dir, staged, .transfer pending (before ++ (range, .receiving attempt part body) :: after)⟩
        ⟨left.state, staged, .transfer pending (before ++ after)⟩
  | completeStopped (dir staged pending before range after attempt part body faults stop left)
      (hc : args.hasCheckpoint = true) (hsize : body.length = range.size.toNat)
      (h : complete range part (hexEncode (env.sha256 body).bytes) ⟨dir, faults⟩ = .error stop left) :
      Step env remote args
        ⟨dir, staged, .transfer pending (before ++ (range, .receiving attempt part body) :: after)⟩
        ⟨left.state, staged, .done none⟩
  | transferred (dir staged) (h : args.hasCheckpoint = false) :
      Step env remote args ⟨dir, staged, .transfer [] []⟩ ⟨dir, staged, .verify⟩
  | assemble (dir staged ranges) (hc : args.hasCheckpoint = true)
      (h : rangePlan remote.size = some ranges) :
      Step env remote args ⟨dir, staged, .transfer [] []⟩ ⟨dir, staged, .assemble ranges 0⟩
  | copy (dir staged range rest written faults part expected left)
      (h : openCompleted env range ⟨dir, faults⟩ = .ok (some (part, expected)) left)
      (hsize : part.length = range.size.toNat)
      (hdigest : hexEncode (env.sha256 part).bytes = expected) :
      Step env remote args ⟨dir, staged, .assemble (range :: rest) written⟩
        ⟨left.state, writeAt staged part written, .assemble rest (written + part.length)⟩
  | missing (dir staged range rest written faults left)
      (h : openCompleted env range ⟨dir, faults⟩ = .ok none left) :
      Step env remote args ⟨dir, staged, .assemble (range :: rest) written⟩
        ⟨left.state, staged, .done none⟩
  | openStopped (dir staged range rest written faults stop left)
      (h : openCompleted env range ⟨dir, faults⟩ = .error stop left) :
      Step env remote args ⟨dir, staged, .assemble (range :: rest) written⟩
        ⟨left.state, staged, .done none⟩
  | assembled (dir staged written) :
      Step env remote args ⟨dir, staged, .assemble [] written⟩ ⟨dir, staged, .verify⟩
  | verified (dir staged) (hsize : staged.length = remote.size.toNat)
      (hcrc : remote.hashCrc64 = 0 ∨ remote.crc64 staged = remote.hashCrc64) :
      Step env remote args ⟨dir, staged, .verify⟩
        ⟨dir, staged, .done (some (hexEncode (env.sha256 staged).bytes))⟩
  | cleared (dir staged ranges faults left)
      (hbad : ¬ (staged.length = remote.size.toNat ∧
        (remote.hashCrc64 = 0 ∨ remote.crc64 staged = remote.hashCrc64)))
      (hc : args.hasCheckpoint = true) (hplan : rangePlan remote.size = some ranges)
      (h : forEach ranges discard ⟨dir, faults⟩ = .ok () left) :
      Step env remote args ⟨dir, staged, .verify⟩ ⟨left.state, staged, .done none⟩
  | clearStopped (dir staged ranges faults stop left)
      (hbad : ¬ (staged.length = remote.size.toNat ∧
        (remote.hashCrc64 = 0 ∨ remote.crc64 staged = remote.hashCrc64)))
      (hc : args.hasCheckpoint = true) (hplan : rangePlan remote.size = some ranges)
      (h : forEach ranges discard ⟨dir, faults⟩ = .error stop left) :
      Step env remote args ⟨dir, staged, .verify⟩ ⟨left.state, staged, .done none⟩

abbrev Run (env : Env) (remote : Remote) (args : Args) : State → State → Prop :=
  Relation.ReflTransGen (Step env remote args)

-- What a loss of power leaves: parts of any bytes, and receipts that are whole or not readable.
def Torn (env : Env) (dir dir' : Directory) : Prop :=
  ∀ name, dir' name = dir name ∨ dir' name = none ∨
    (∃ range file, name = partName range ∧ dir' name = some (.ordinary file)) ∨
    ∃ bytes, dir' name = some (.ordinary bytes) ∧ env.fromSlice bytes = none

-- The checkpoint after any number of earlier runs, each stopped anywhere.
inductive Left (env : Env) (remote : Remote) : Directory → Prop
  | fresh : Left env remote fun _ => none
  | run {dir : Directory} {args : Args} {x : State} (h : Left env remote dir)
      (hr : Run env remote args ⟨dir, [], .start⟩ x) : Left env remote x.directory
  | torn {dir dir' : Directory} (h : Left env remote dir) (ht : Torn env dir dir') : Left env remote dir'

end VeStorage.ADrive.ShareRange
