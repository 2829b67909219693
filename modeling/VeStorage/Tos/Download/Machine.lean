import VeStorage.Lib.Text
import VeStorage.Tos.Transfer.Parts
import Mathlib.Logic.Function.Basic
import Mathlib.Logic.Relation

namespace VeStorage.Tos.Download
open Lib Transfer

abbrev Bytes := List UInt8

inductive Node where
  | absent
  | file (bytes : Bytes)
  | directory
deriving DecidableEq

-- The values that are hashed into the name of the range files.
structure RangeBase where
  etag : Text
  fileSize : Nat
deriving DecidableEq

structure Files where
  destination : Node
  partials : Nat → Option Bytes
  assembled : RangeBase → Option Bytes
  parts : RangeBase × Nat → Option Bytes

def Files.clean (destination : Node) : Files := ⟨destination, fun _ => none, fun _ => none, fun _ => none⟩

inductive EffectiveOverwriteStrategy where
  | force
  | noClobber
  | newer
deriving DecidableEq

structure Service where
  content : Text → Bytes
  crc64 : Bytes → Nat

-- One call: what HEAD answered, the options, and the process that makes it.
structure DownloadCall (S : Service) where
  etag : Text
  contentLength : Option Nat
  expectedCrc64 : Option Nat
  lastModified : Option Nat
  destinationModified : Nat
  overwriteStrategy : EffectiveOverwriteStrategy
  checkpointEnabled : Bool
  checkpointThreshold : Nat
  multipartConcurrency : Nat
  pid : Nat
  length_ok : ∀ n, contentLength = some n → n = (S.content etag).length
  crc_ok : ∀ c, expectedCrc64 = some c → c = S.crc64 (S.content etag)
  concurrency_pos : 0 < multipartConcurrency

inductive Outcome where
  | ok
  | skipped
  | failed
deriving DecidableEq

inductive Temp where
  | partialFile
  | assembledFile
deriving DecidableEq

inductive Stage where
  | head
  | get
  | body
  | ranges (pending : List PartRange) (inFlight : List (PartRange × Bool))
  | assemble (rest : List PartRange)
  | discard (rest : List PartRange)
  | publish (temp : Temp)
  | rename (temp : Temp)
  | cleanup (rest : List PartRange)
  | done (outcome : Outcome)

structure State where
  files : Files
  stage : Stage

variable {S : Service}

namespace DownloadCall

def content (d : DownloadCall S) : Bytes := S.content d.etag

def useRange (d : DownloadCall S) : Bool :=
  d.checkpointEnabled && d.contentLength.any fun length => decide (d.checkpointThreshold ≤ length)

def expectedLength (d : DownloadCall S) : Nat := d.contentLength.getD 0

def ranges (d : DownloadCall S) : List PartRange := partRanges d.expectedLength

def base (d : DownloadCall S) : RangeBase := ⟨d.etag, d.expectedLength⟩

def part (d : DownloadCall S) (r : PartRange) : RangeBase × Nat := (d.base, r.number)

def shouldSkip (d : DownloadCall S) (destination : Node) : Bool :=
  if destination = .absent then false
  else match d.overwriteStrategy with
    | .force => false
    | .noClobber => true
    | .newer => d.lastModified.any fun source => decide (source ≤ d.destinationModified)

end DownloadCall

namespace Files

def temp (f : Files) (d : DownloadCall S) : Temp → Option Bytes
  | .partialFile => f.partials d.pid
  | .assembledFile => f.assembled d.base

def setPartial (f : Files) (d : DownloadCall S) (v : Option Bytes) : Files :=
  { f with partials := Function.update f.partials d.pid v }

def setAssembled (f : Files) (d : DownloadCall S) (v : Option Bytes) : Files :=
  { f with assembled := Function.update f.assembled d.base v }

def setPart (f : Files) (d : DownloadCall S) (r : PartRange) (v : Option Bytes) : Files :=
  { f with parts := Function.update f.parts (d.part r) v }

def setDestination (f : Files) (node : Node) : Files := { f with destination := node }

def takeTemp (f : Files) (d : DownloadCall S) : Temp → Files
  | .partialFile => f.setPartial d none
  | .assembledFile => f.setAssembled d none

def isComplete (f : Files) (d : DownloadCall S) (r : PartRange) : Bool :=
  (f.parts (d.part r)).any fun b => decide (b.length = r.size)

end Files

def afterRename : Temp → List PartRange → Stage
  | .partialFile, _ => .done .ok
  | .assembledFile, ranges => .cleanup ranges

inductive Step (d : DownloadCall S) : State → State → Prop
  | fail (f stage) (h : ∀ o, stage ≠ .done o) : Step d ⟨f, stage⟩ ⟨f, .done .failed⟩
  | skip (f) (h : d.shouldSkip f.destination = true) : Step d ⟨f, .head⟩ ⟨f, .done .skipped⟩
  | simple (f) (h : d.shouldSkip f.destination = false) (hr : d.useRange = false) :
      Step d ⟨f, .head⟩ ⟨f, .get⟩
  | open (f) : Step d ⟨f, .get⟩ ⟨f.setPartial d (some []), .body⟩
  | write (f b chunk) (h : f.partials d.pid = some b) (hc : b ++ chunk <+: d.content) :
      Step d ⟨f, .body⟩ ⟨f.setPartial d (some (b ++ chunk)), .body⟩
  | retry (f) : Step d ⟨f, .body⟩ ⟨f, .get⟩
  | giveUp (f stage) (h : stage = .get ∨ stage = .body) :
      Step d ⟨f, stage⟩ ⟨f.setPartial d none, .done .failed⟩
  -- a response announced without a length ends only when it is complete
  | received (f b) (h : f.partials d.pid = some b)
      (hframed : d.contentLength = none → b = d.content)
      (hlength : ∀ n, d.contentLength = some n → b.length = n)
      (hcrc : ∀ c, d.expectedCrc64 = some c → S.crc64 b = c) :
      Step d ⟨f, .body⟩ ⟨f, .publish .partialFile⟩
  | ranged (f f') (h : d.shouldSkip f.destination = false) (hr : d.useRange = true)
      (hstale : f' = f ∨ ∃ b, f.partials d.pid = some b ∧ d.expectedLength ≤ b.length ∧
        f' = f.setPartial d none) :
      Step d ⟨f, .head⟩ ⟨f', .ranges d.ranges []⟩
  | present (f r pending inFlight) (hroom : inFlight.length < d.multipartConcurrency)
      (h : f.isComplete d r = true) :
      Step d ⟨f, .ranges (r :: pending) inFlight⟩ ⟨f, .ranges pending inFlight⟩
  | launch (f r pending inFlight) (hroom : inFlight.length < d.multipartConcurrency)
      (h : f.isComplete d r = false) :
      Step d ⟨f, .ranges (r :: pending) inFlight⟩ ⟨f, .ranges pending (inFlight ++ [(r, false)])⟩
  | openPart (f pending pre r opened post) :
      Step d ⟨f, .ranges pending (pre ++ (r, opened) :: post)⟩
        ⟨f.setPart d r (some []), .ranges pending (pre ++ (r, true) :: post)⟩
  | writePart (f pending pre r post b chunk) (h : f.parts (d.part r) = some b)
      (hc : b ++ chunk <+: r.slice d.content) :
      Step d ⟨f, .ranges pending (pre ++ (r, true) :: post)⟩
        ⟨f.setPart d r (some (b ++ chunk)), .ranges pending (pre ++ (r, true) :: post)⟩
  | partReceived (f pending pre r post b) (h : f.parts (d.part r) = some b)
      (hsize : b.length = r.size) :
      Step d ⟨f, .ranges pending (pre ++ (r, true) :: post)⟩ ⟨f, .ranges pending (pre ++ post)⟩
  | partFailed (f pending pre r opened post) :
      Step d ⟨f, .ranges pending (pre ++ (r, opened) :: post)⟩
        ⟨f.setPart d r none, .done .failed⟩
  | create (f) : Step d ⟨f, .ranges [] []⟩ ⟨f.setAssembled d (some []), .assemble d.ranges⟩
  | append (f r rest acc b) (ha : f.assembled d.base = some acc)
      (hb : f.parts (d.part r) = some b) :
      Step d ⟨f, .assemble (r :: rest)⟩ ⟨f.setAssembled d (some (acc ++ b)), .assemble rest⟩
  | appendFailed (f r rest acc b b') (ha : f.assembled d.base = some acc)
      (hb : f.parts (d.part r) = some b) (hb' : b' <+: b) :
      Step d ⟨f, .assemble (r :: rest)⟩ ⟨f.setAssembled d (some (acc ++ b')), .done .failed⟩
  | verified (f b) (h : f.assembled d.base = some b)
      (hcrc : ∀ c, d.expectedCrc64 = some c → S.crc64 b = c) :
      Step d ⟨f, .assemble []⟩ ⟨f, .publish .assembledFile⟩
  | mismatch (f b c) (h : f.assembled d.base = some b) (hc : d.expectedCrc64 = some c)
      (hne : S.crc64 b ≠ c) : Step d ⟨f, .assemble []⟩ ⟨f, .discard d.ranges⟩
  | discardPart (f r rest) :
      Step d ⟨f, .discard (r :: rest)⟩ ⟨f.setPart d r none, .discard rest⟩
  | discarded (f) : Step d ⟨f, .discard []⟩ ⟨f.setAssembled d none, .done .failed⟩
  | unlink (f temp old) (h : f.destination = .file old) :
      Step d ⟨f, .publish temp⟩ ⟨f.setDestination .absent, .rename temp⟩
  | vacant (f temp) (h : f.destination = .absent) : Step d ⟨f, .publish temp⟩ ⟨f, .rename temp⟩
  | rename (f temp b) (h : f.temp d temp = some b) :
      Step d ⟨f, .rename temp⟩
        ⟨(f.takeTemp d temp).setDestination (.file b), afterRename temp d.ranges⟩
  | removePart (f r rest) :
      Step d ⟨f, .cleanup (r :: rest)⟩ ⟨f.setPart d r none, .cleanup rest⟩
  | cleaned (f) : Step d ⟨f, .cleanup []⟩ ⟨f, .done .ok⟩

abbrev Run (d : DownloadCall S) : State → State → Prop := Relation.ReflTransGen (Step d)

-- What any number of earlier downloads to the same path, each cut off anywhere, can leave.
inductive LeftBehind (S : Service) : Files → Prop
  | clean (destination) : LeftBehind S (Files.clean destination)
  | download (f) (d : DownloadCall S) (x) (h : LeftBehind S f) (hr : Run d ⟨f, .head⟩ x) :
      LeftBehind S x.files

section Frame

variable (f : Files) (d : DownloadCall S) (r : PartRange) (v : Option Bytes) (node : Node) (t : Temp)

@[simp] theorem setPartial_destination : (f.setPartial d v).destination = f.destination := rfl
@[simp] theorem setAssembled_destination : (f.setAssembled d v).destination = f.destination := rfl
@[simp] theorem setPart_destination : (f.setPart d r v).destination = f.destination := rfl
@[simp] theorem setDestination_destination : (f.setDestination node).destination = node := rfl
@[simp] theorem setPartial_parts : (f.setPartial d v).parts = f.parts := rfl
@[simp] theorem setAssembled_parts : (f.setAssembled d v).parts = f.parts := rfl
@[simp] theorem setDestination_parts : (f.setDestination node).parts = f.parts := rfl
@[simp] theorem setPart_assembled : (f.setPart d r v).assembled = f.assembled := rfl
@[simp] theorem setDestination_temp : (f.setDestination node).temp d t = f.temp d t := by
  cases t <;> rfl

@[simp] theorem setPartial_partials : (f.setPartial d v).partials d.pid = v := by
  simp [Files.setPartial]

@[simp] theorem setAssembled_assembled : (f.setAssembled d v).assembled d.base = v := by
  simp [Files.setAssembled]

@[simp] theorem setPart_parts : (f.setPart d r v).parts (d.part r) = v := by
  simp [Files.setPart]

@[simp] theorem takeTemp_parts : (f.takeTemp d t).parts = f.parts := by cases t <;> rfl

theorem setPart_parts_ne {name : RangeBase × Nat} (h : name ≠ d.part r) :
    (f.setPart d r v).parts name = f.parts name := by
  simp [Files.setPart, h]

end Frame

end VeStorage.Tos.Download
