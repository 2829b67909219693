import VeStorage.ADrive.Checkpoint.Store
import VeStorage.Lib.Pool

namespace VeStorage.ADrive.Download
open Lib
open Tos.Transfer (PartRange)

def u32Max : Nat := 2 ^ 32 - 1

def i64Max : Nat := 2 ^ 63 - 1

-- `RangePlan::new`; the iterator counts at most `u32Max` parts.
def rangePlan (size : Nat) : Option (List PartRange) :=
  if (size + Checkpoint.adriveMultipartPartSize - 1) / Checkpoint.adriveMultipartPartSize > u32Max
  then none else some (Checkpoint.ranges size)

structure Remote where
  content : Bytes
  updatedAt : Int
  crc64 : Bytes → Nat
  hashCrc64 : Nat
  updated_le : updatedAt ≤ i64Max
  hash_ok : hashCrc64 = 0 ∨ hashCrc64 = crc64 content

inductive EffectiveOverwriteStrategy where
  | force
  | noClobber
  | newer
deriving DecidableEq

structure Args where
  batch : Bool
  checkpoint : Bool
  checkpointThreshold : Nat
  multipartConcurrency : Nat
  overwriteStrategy : EffectiveOverwriteStrategy
  concurrency_pos : 0 < multipartConcurrency

structure LocalFile where
  bytes : Bytes
  modified : Nat

-- `parts` are the range files, `completed` the mark of the item in the batch checkpoint.
structure World where
  destination : Option LocalFile
  parts : Nat → Option Bytes
  completed : Bool
  clock : Nat

inductive Stage where
  | start
  | get
  | body
  | fetch
  | writing (left : Bytes)
  | ranges (pending : List PartRange) (inFlight : List (PartRange × Bool))
  | assemble (rest : List PartRange)
  | copying (left : Bytes) (rest : List PartRange)
  | cleanup (rest : List PartRange)
  | verify
  | finished
  | done (ok : Bool)

structure State where
  world : World
  stage : Stage

namespace Remote

variable (R : Remote)

def size : Nat := R.content.length

def ranges : List PartRange := Checkpoint.ranges R.size

def HashOk (b : Bytes) : Prop := R.hashCrc64 = 0 ∨ R.crc64 b = R.hashCrc64

end Remote

namespace Args

variable (a : Args) (R : Remote)

def useRange : Bool := a.checkpoint && decide (a.checkpointThreshold ≤ R.size)

-- A batch run with `--checkpoint` marks the item as completed and skips a marked one.
def records : Bool := a.batch && a.checkpoint

def shouldSkipLocalDestination : Option LocalFile → Bool
  | none => false
  | some f =>
      match a.overwriteStrategy with
      | .force => false
      | .noClobber => true
      | .newer => decide (R.updatedAt ≤ min f.modified i64Max)

def Proceeds (w : World) : Prop :=
  a.shouldSkipLocalDestination R w.destination = false ∧ ¬ (a.records = true ∧ w.completed = true)

end Args

namespace World

variable (w : World)

def create : World := { w with destination := some ⟨[], w.clock⟩ }

def append (b chunk : Bytes) : World := { w with destination := some ⟨b ++ chunk, w.clock⟩ }

def setPart (r : PartRange) (v : Option Bytes) : World :=
  { w with parts := Function.update w.parts r.number v }

def holds (b : Bytes) : Prop := ∃ modified, w.destination = some ⟨b, modified⟩

end World

def isPresent (w : World) (r : PartRange) : Bool :=
  (w.parts r.number).any fun b => decide (b.length = r.size)

inductive Step (R : Remote) (a : Args) : State → State → Prop
  | tick (w stage n) (h : w.clock ≤ n) : Step R a ⟨w, stage⟩ ⟨{ w with clock := n }, stage⟩
  | fail (w stage) (h : ∀ ok, stage ≠ .done ok) : Step R a ⟨w, stage⟩ ⟨w, .done false⟩
  | skip (w) (h : a.shouldSkipLocalDestination R w.destination = true) :
      Step R a ⟨w, .start⟩ ⟨w, .done true⟩
  | skipCompleted (w) (h : a.shouldSkipLocalDestination R w.destination = false)
      (hr : a.records = true) (hc : w.completed = true) : Step R a ⟨w, .start⟩ ⟨w, .done true⟩
  | stream (w) (h : a.Proceeds R w) (hr : a.useRange R = false) (hb : a.batch = false) :
      Step R a ⟨w, .start⟩ ⟨w, .get⟩
  | simple (w) (h : a.Proceeds R w) (hr : a.useRange R = false) (hb : a.batch = true) :
      Step R a ⟨w, .start⟩ ⟨w, .fetch⟩
  | ranged (w plan) (h : a.Proceeds R w) (hr : a.useRange R = true) (hp : rangePlan R.size = some plan) :
      Step R a ⟨w, .start⟩ ⟨w, .ranges plan []⟩
  | open (w) : Step R a ⟨w, .get⟩ ⟨w.create, .body⟩
  | write (w b chunk) (h : w.holds b) (hc : b ++ chunk <+: R.content) :
      Step R a ⟨w, .body⟩ ⟨w.append b chunk, .body⟩
  | retry (w) : Step R a ⟨w, .body⟩ ⟨w, .get⟩
  | received (w b) (h : w.holds b) (hlength : b.length = R.size) (hcrc : R.HashOk b) :
      Step R a ⟨w, .body⟩ ⟨w, .finished⟩
  | buffered (w b) (h : b <+: R.content) (hlength : b.length = R.size) (hcrc : R.HashOk b) :
      Step R a ⟨w, .fetch⟩ ⟨w.create, .writing b⟩
  | writeBuffer (w b chunk left) (h : w.holds b) :
      Step R a ⟨w, .writing (chunk ++ left)⟩ ⟨w.append b chunk, .writing left⟩
  | retryBuffer (w left) : Step R a ⟨w, .writing left⟩ ⟨w, .fetch⟩
  | written (w) : Step R a ⟨w, .writing []⟩ ⟨w, .finished⟩
  | present (w r pending inFlight) (hroom : inFlight.length < a.multipartConcurrency)
      (h : isPresent w r = true) :
      Step R a ⟨w, .ranges (r :: pending) inFlight⟩ ⟨w, .ranges pending inFlight⟩
  | launch (w r pending inFlight) (hroom : inFlight.length < a.multipartConcurrency)
      (h : isPresent w r = false) :
      Step R a ⟨w, .ranges (r :: pending) inFlight⟩ ⟨w, .ranges pending (inFlight ++ [(r, false)])⟩
  | openPart (w pending before r opened after) :
      Step R a ⟨w, .ranges pending (before ++ (r, opened) :: after)⟩
        ⟨w.setPart r (some []), .ranges pending (before ++ (r, true) :: after)⟩
  | writePart (w pending before r after b chunk) (h : w.parts r.number = some b)
      (hc : b ++ chunk <+: r.slice R.content) :
      Step R a ⟨w, .ranges pending (before ++ (r, true) :: after)⟩
        ⟨w.setPart r (some (b ++ chunk)), .ranges pending (before ++ (r, true) :: after)⟩
  | partReceived (w pending before r after b) (h : w.parts r.number = some b)
      (hsize : b.length = r.size) :
      Step R a ⟨w, .ranges pending (before ++ (r, true) :: after)⟩
        ⟨w, .ranges pending (before ++ after)⟩
  | partFailed (w pending before r opened after) :
      Step R a ⟨w, .ranges pending (before ++ (r, opened) :: after)⟩ ⟨w.setPart r none, .done false⟩
  | create (w) : Step R a ⟨w, .ranges [] []⟩ ⟨w.create, .assemble R.ranges⟩
  | openInput (w r rest b) (h : w.parts r.number = some b) :
      Step R a ⟨w, .assemble (r :: rest)⟩ ⟨w, .copying b rest⟩
  | copy (w b chunk left rest) (h : w.holds b) :
      Step R a ⟨w, .copying (chunk ++ left) rest⟩ ⟨w.append b chunk, .copying left rest⟩
  | copied (w rest) : Step R a ⟨w, .copying [] rest⟩ ⟨w, .assemble rest⟩
  | assembled (w) : Step R a ⟨w, .assemble []⟩ ⟨w, .cleanup R.ranges⟩
  | removePart (w r rest) : Step R a ⟨w, .cleanup (r :: rest)⟩ ⟨w.setPart r none, .cleanup rest⟩
  | cleaned (w) : Step R a ⟨w, .cleanup []⟩ ⟨w, .verify⟩
  | verified (w b) (h : w.holds b) (hcrc : R.HashOk b) : Step R a ⟨w, .verify⟩ ⟨w, .finished⟩
  | mismatch (w b) (h : w.holds b) (hcrc : ¬ R.HashOk b) :
      Step R a ⟨w, .verify⟩ ⟨{ w with destination := none }, .done false⟩
  | record (w) (h : a.records = true) :
      Step R a ⟨w, .finished⟩ ⟨{ w with completed := true }, .done true⟩
  | exit (w) (h : a.records = false) : Step R a ⟨w, .finished⟩ ⟨w, .done true⟩

abbrev Run (R : Remote) (a : Args) : State → State → Prop := Relation.ReflTransGen (Step R a)

def World.fresh (destination : Option LocalFile) (clock : Nat) : World :=
  ⟨destination, fun _ => none, false, clock⟩

-- What any number of runs with admitted arguments, each stopped anywhere, leaves.
inductive Before (R : Remote) (admitted : Args → Prop) (w0 : World) : World → Prop
  | fresh : Before R admitted w0 w0
  | run (w a x) (h : Before R admitted w0 w) (ha : admitted a) (hr : Run R a ⟨w, .start⟩ x) :
      Before R admitted w0 x.world

structure NeverMistaken (R : Remote) (admitted : Args → Prop) (w0 : World) : Prop where
  success : w0.destination = none → ∀ w a w', Before R admitted w0 w → admitted a →
    Run R a ⟨w, .start⟩ ⟨w', .done true⟩ → w'.holds R.content
  existing : ∀ f, w0.destination = some f → ∀ w, Before R admitted w0 w →
    w.holds f.bytes ∨ w.holds R.content

def Args.Writes (a : Args) (R : Remote) : Prop := a.useRange R = true → (rangePlan R.size).isSome = true

def Trusted (R : Remote) (admitted : Args → Prop) : Option LocalFile → Prop
  | none => R.content = [] ∨ (∀ a, admitted a → ¬ a.Writes R) ∨
      ((∀ a, admitted a → a.overwriteStrategy = .force) ∧
        ((∀ a, admitted a → a.Writes R → a.records = true) ∨
          ∀ a, admitted a → a.Writes R → a.records = false))
  | some f => (∀ a, admitted a → a.Writes R → a.shouldSkipLocalDestination R (some f) = true) ∨
      ∀ b, b <+: R.content → b = f.bytes ∨ b = R.content

end VeStorage.ADrive.Download
