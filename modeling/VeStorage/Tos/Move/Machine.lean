import VeStorage.Tos.Plan
import VeStorage.Lib.CopyDelete
import Mathlib.Logic.Relation

namespace VeStorage.Tos.Move
open Lib

-- What one recursive mv needs of the two ends: `work` is one request of `copy_one`,
-- `remove` is `delete_move_source_item`, `close` is the removal of the source root.
structure Ops (W L : Type) where
  start : L
  outcome : L → Option Bool
  work : TransferPlanItem → W → L → W → L → Prop
  remove : TransferPlanItem → W → W → Bool → Prop
  close : Option (W → W → Option Bool → Prop)

inductive Stage where
  | copying
  | deleting (groups : List (List TransferPlanItem)) (pending : List TransferPlanItem)
      (running : List (TransferPlanItem × Option Bool))
  | closing
  | finished (code : Option Nat)

def Stage.code : Stage → Option (Option Nat)
  | .finished code => some code
  | _ => none

structure Batch (W L : Type) where
  world : W
  pending : List TransferPlanItem
  running : List (TransferPlanItem × L)
  failed : Nat
  reportingFailed : Bool
  stage : Stage

def failedRow (ok : Bool) : Nat := if ok then 0 else 1

def Batch.hasFailures {W L : Type} (b : Batch W L) : Prop := 0 < b.failed ∨ b.reportingFailed = true

def exitCode (failed : Nat) (reportingFailed : Bool) : Option Nat :=
  if reportingFailed then none else if failed = 0 then some 0 else some 1

def Batch.init {W L : Type} (w : W) (planned : List TransferPlanItem) : Batch W L :=
  ⟨w, planned, [], 0, false, .copying⟩

section Manifest

variable {W L : Type} (ops : Ops W L) (limit : Nat)
  (groups : List (List TransferPlanItem))

inductive Step : Batch W L → Batch W L → Prop
  | launch (w item pending running failed rf) (h : running.length < max limit 1) :
      Step ⟨w, item :: pending, running, failed, rf, .copying⟩
        ⟨w, pending, running ++ [(item, ops.start)], failed, rf, .copying⟩
  | work (w w' item l l' pending pre post failed rf) (h : ops.work item w l w' l') :
      Step ⟨w, pending, pre ++ (item, l) :: post, failed, rf, .copying⟩
        ⟨w', pending, pre ++ (item, l') :: post, failed, rf, .copying⟩
  | record (w item l ok pending pre post failed rf lost) (h : ops.outcome l = some ok) :
      Step ⟨w, pending, pre ++ (item, l) :: post, failed, rf, .copying⟩
        ⟨w, pending, pre ++ post, failed + failedRow ok, rf || lost, .copying⟩
  | skipDeletes (w failed rf lost) (h : 0 < failed ∨ rf = true) :
      Step ⟨w, [], [], failed, rf, .copying⟩
        ⟨w, [], [], failed, rf || lost, .finished (if rf || lost then none else some 1)⟩
  | beginDeletes (w) :
      Step ⟨w, [], [], 0, false, .copying⟩ ⟨w, [], [], 0, false, .deleting groups [] []⟩
  | launchDelete (w item gs pending running failed) (h : running.length < max limit 1) :
      Step ⟨w, [], [], failed, false, .deleting gs (item :: pending) running⟩
        ⟨w, [], [], failed, false, .deleting gs pending (running ++ [(item, none)])⟩
  | remove (w w' item ok gs pending pre post failed rf) (h : ops.remove item w w' ok) :
      Step ⟨w, [], [], failed, rf, .deleting gs pending (pre ++ (item, none) :: post)⟩
        ⟨w', [], [], failed, rf, .deleting gs pending (pre ++ (item, some ok) :: post)⟩
  | recordDelete (w item ok gs pending pre post failed rf lost) :
      Step ⟨w, [], [], failed, rf, .deleting gs pending (pre ++ (item, some ok) :: post)⟩
        ⟨w, [], [], failed + failedRow ok, rf || lost, .deleting gs pending (pre ++ post)⟩
  | skipGroup (w gs item pending failed) :
      Step ⟨w, [], [], failed, true, .deleting gs (item :: pending) []⟩
        ⟨w, [], [], failed, true, .deleting gs [] []⟩
  | nextGroup (w g gs failed rf) :
      Step ⟨w, [], [], failed, rf, .deleting (g :: gs) [] []⟩
        ⟨w, [], [], failed, rf, .deleting gs g []⟩
  | endDeletes (w failed rf) :
      Step ⟨w, [], [], failed, rf, .deleting [] [] []⟩ ⟨w, [], [], failed, rf, .closing⟩
  | closeSkipped (w failed rf lost) (h : ops.close = none ∨ rf = true) :
      Step ⟨w, [], [], failed, rf, .closing⟩
        ⟨w, [], [], failed, rf, .finished (exitCode failed (rf || lost))⟩
  | close (w w' ok failed lost act) (h : ops.close = some act) (ha : act w w' (some ok)) :
      Step ⟨w, [], [], failed, false, .closing⟩
        ⟨w', [], [], failed + failedRow ok, lost,
          .finished (exitCode (failed + failedRow ok) lost)⟩
  | closeError (w w' failed act) (h : ops.close = some act) (ha : act w w' none) :
      Step ⟨w, [], [], failed, false, .closing⟩ ⟨w', [], [], failed, false, .finished none⟩

abbrev Run : Batch W L → Batch W L → Prop := Relation.ReflTransGen (Step ops limit groups)

end Manifest

open Lib

structure StreamOps (W L E P : Type) extends Ops W L where
  present : W → P → Prop
  listed : W → E → Prop
  listedPlace : E → P
  inScope : P → Prop
  select : E → Except CliError (Option TransferPlanItem)
  defer : TransferPlanItem → Bool
  arrange : List (TransferPlanItem × Bool) → List (TransferPlanItem × Bool)
  root : Option (Text × (W → W → Bool → Prop))
  prune : Option (W → W → Bool → Prop)

inductive StreamStage where
  | streaming
  | draining (ok : Bool)
  | directories (ok can : Bool) (pending : List (TransferPlanItem × Bool))
      (root : Option Text)
  | closing (ok : Bool)
  | finished (code : Option Nat)

def StreamStage.code : StreamStage → Option (Option Nat)
  | .finished code => some code
  | _ => none

-- `steady` holds the places whose entry has been present since the listing began: a listing
-- has to return those, and may or may not return any other.
structure Stream (W L E P : Type) where
  world : W
  steady : Set P
  seen : List E
  fetched : List E
  queued : Option TransferPlanItem
  running : List (TransferPlanItem × L)
  deleting : Option TransferPlanItem
  deferred : List (TransferPlanItem × Bool)
  failed : Nat
  reportingFailed : Bool
  stage : StreamStage

def unlistedRoot {P : Type} (root : Option (Text × P)) (deferred : List (TransferPlanItem × Bool)) :
    Option Text :=
  (root.map Prod.fst).filter fun uri => decide (uri ∉ deferred.map fun x => x.1.source)

def Stream.init {W L E P : Type} (present : W → P → Prop) (w : W) : Stream W L E P :=
  ⟨w, {p | present w p}, [], [], none, [], none, [], 0, false, .streaming⟩

def streamExitCode (ok : Bool) (failed : Nat) (reportingFailed : Bool) : Option Nat :=
  if ok then exitCode failed reportingFailed else none

variable {W L E P : Type} (ops : StreamOps W L E P) (limit : Nat)

def Stream.live (b : Stream W L E P) : Prop := b.stage = .streaming ∨ ∃ ok, b.stage = .draining ok

def Stream.waiting (b : Stream W L E P) : Prop :=
  (∃ ok, b.stage = .draining ok) ∨
    (b.stage = .streaming ∧ b.queued ≠ none ∧ max limit 1 ≤ b.running.length)

inductive StreamStep : Stream W L E P → Stream W L E P → Prop
  | fetch (b entries) (hs : b.stage = .streaming) (hf : b.fetched = []) (hq : b.queued = none)
      (h : ∀ e ∈ entries, ops.listed b.world e ∧ ops.inScope (ops.listedPlace e)) :
      StreamStep b { b with fetched := entries, seen := b.seen ++ entries }
  | skip (b e rest) (hs : b.stage = .streaming) (hf : b.fetched = e :: rest)
      (hq : b.queued = none) (h : ops.select e = .ok none) :
      StreamStep b { b with fetched := rest }
  | queue (b e rest item) (hs : b.stage = .streaming) (hf : b.fetched = e :: rest)
      (hq : b.queued = none) (h : ops.select e = .ok (some item)) :
      StreamStep b { b with fetched := rest, queued := some item }
  | launch (b item) (hs : b.stage = .streaming) (hd : b.deleting = none)
      (hq : b.queued = some item) (hl : b.running.length < max limit 1) :
      StreamStep b { b with queued := none, running := b.running ++ [(item, ops.start)] }
  | discoveryError (b) (hs : b.stage = .streaming) (hd : b.deleting = none) (hq : b.queued = none) :
      StreamStep b { b with fetched := [], stage := .draining false }
  | listEnds (b) (hs : b.stage = .streaming) (hf : b.fetched = []) (hq : b.queued = none)
      (hall : ∀ p ∈ b.steady, ops.inScope p → ∃ e ∈ b.seen, ops.listedPlace e = p) :
      StreamStep b { b with stage := .draining true }
  | work (b w' item l l' pre post) (hs : b.live) (hr : b.running = pre ++ (item, l) :: post)
      (h : ops.work item b.world l w' l') :
      StreamStep b { b with
        world := w', steady := b.steady ∩ {p | ops.present w' p}
        running := pre ++ (item, l') :: post }
  | recordDeferred (b item l ok pre post lost) (hs : b.waiting limit) (hd : b.deleting = none)
      (hr : b.running = pre ++ (item, l) :: post) (ho : ops.outcome l = some ok)
      (hf : ops.defer item = true) :
      StreamStep b { b with
        running := pre ++ post, deferred := b.deferred ++ [(item, ok)]
        failed := b.failed + failedRow ok, reportingFailed := b.reportingFailed || lost }
  | recordCopied (b item l pre post) (hs : b.waiting limit) (hd : b.deleting = none)
      (hr : b.running = pre ++ (item, l) :: post) (ho : ops.outcome l = some true)
      (hf : ops.defer item = false) (hrf : b.reportingFailed = false) :
      StreamStep b { b with running := pre ++ post, deleting := some item }
  | recordKept (b item l ok pre post lost) (hs : b.waiting limit) (hd : b.deleting = none)
      (hr : b.running = pre ++ (item, l) :: post) (ho : ops.outcome l = some ok)
      (hf : ops.defer item = false) (hrf : ok = false ∨ (b.reportingFailed || lost) = true) :
      StreamStep b { b with
        running := pre ++ post, failed := b.failed + failedRow ok
        reportingFailed := b.reportingFailed || lost }
  | remove (b w' item ok lost) (hs : b.live) (hd : b.deleting = some item)
      (h : ops.remove item b.world w' ok) :
      StreamStep b { b with
        world := w', steady := b.steady ∩ {p | ops.present w' p}
        deleting := none, failed := b.failed + failedRow ok
        reportingFailed := b.reportingFailed || lost }
  | drained (b ok) (hs : b.stage = .draining ok) (hd : b.deleting = none) (hr : b.running = []) :
      StreamStep b { b with
        stage := .directories ok (ok && decide (b.failed = 0) && !b.reportingFailed)
          (ops.arrange b.deferred) (unlistedRoot ops.root b.deferred) }
  | directory (b w' ok can item rest root done lost)
      (hs : b.stage = .directories ok can ((item, true) :: rest) root) (hc : can = true)
      (hrf : b.reportingFailed = false) (h : ops.remove item b.world w' done) :
      StreamStep b { b with
        world := w', failed := b.failed + failedRow done, reportingFailed := lost
        stage := .directories ok (done && !lost) rest root }
  | keepDirectory (b ok can x rest root lost) (hs : b.stage = .directories ok can (x :: rest) root)
      (hc : can = false ∨ x.2 = false ∨ b.reportingFailed = true) :
      StreamStep b { b with
        reportingFailed := b.reportingFailed || lost
        stage := .directories ok (can && !(b.reportingFailed || lost)) rest root }
  | root (b w' ok uri act done lost) (hs : b.stage = .directories ok true [] (some uri))
      (ho : ok = true) (hf : b.failed = 0) (hrf : b.reportingFailed = false)
      (ha : ops.root = some (uri, act)) (h : act b.world w' done) :
      StreamStep b { b with
        world := w', failed := b.failed + failedRow done, reportingFailed := lost
        stage := .closing ok }
  | keepRoot (b ok can root lost) (hs : b.stage = .directories ok can [] root)
      (hr : root = none ∨ can = false ∨ ok = false ∨ 0 < b.failed ∨ b.reportingFailed = true) :
      StreamStep b { b with
        reportingFailed := b.reportingFailed || lost, stage := .closing ok }
  | prune (b w' ok act done lost) (hs : b.stage = .closing ok) (ho : ok = true)
      (hrf : b.reportingFailed = false) (ha : ops.prune = some act) (h : act b.world w' done) :
      StreamStep b { b with
        world := w', reportingFailed := lost
        stage := .finished (streamExitCode done b.failed lost) }
  | finish (b ok lost) (hs : b.stage = .closing ok)
      (hp : ops.prune = none ∨ ok = false ∨ b.reportingFailed = true) :
      StreamStep b { b with
        stage := .finished (streamExitCode ok b.failed (b.reportingFailed || lost)) }

abbrev StreamRun : Stream W L E P → Stream W L E P → Prop :=
  Relation.ReflTransGen (StreamStep ops limit)

end VeStorage.Tos.Move
