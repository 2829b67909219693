import VeStorage.ADrive.Share.Ledger

namespace VeStorage.ADrive.Share
open Lib
open Lib.Crash (CrashIo Fault Stop World ensure observe change require orRaise orPanic ofExcept
  effect atomic forEach)
open Lib.RecordLog

structure Checkpoint where
  hasSaved : Bool
  persistence : Option State
deriving DecidableEq

structure Machine where
  disk : Disk
  checkpoint : Checkpoint
deriving DecidableEq

abbrev Io := CrashIo CliError Machine

def Disk.publishSnapshot (saved : SavedJournal) (disk : Disk) : Disk :=
  { disk with snapshot := some saved }

def Disk.publishLedger (bytes : List UInt8) (disk : Disk) : Disk :=
  { disk with ledger := some ⟨disk.nextNode, bytes⟩, nextNode := disk.nextNode + 1 }

def Disk.appendLedger (bytes : List UInt8) (disk : Disk) : Disk :=
  { disk with ledger := disk.ledger.map fun file => { file with bytes := file.bytes ++ bytes } }

def Machine.onDisk (f : Disk → Disk) (machine : Machine) : Machine :=
  { machine with disk := f machine.disk }

def Machine.onState (f : State → State) (machine : Machine) : Machine :=
  { machine with checkpoint :=
      { machine.checkpoint with persistence := machine.checkpoint.persistence.map f } }

def Machine.install (state : State) (machine : Machine) : Machine :=
  { machine with checkpoint := { machine.checkpoint with persistence := some state } }

def Machine.markSaved (machine : Machine) : Machine :=
  { machine with checkpoint := { machine.checkpoint with hasSaved := true } }

variable (env : Env)

-- `self.persistence.as_mut().unwrap()`
def currentState : Io State := do
  let machine ← observe
  orPanic machine.checkpoint.persistence

def modifyState (f : State → State) : Io Unit := change (Machine.onState f)

def State.setPoisoned (isPoisoned : Bool) (state : State) : State :=
  { state with writer := state.writer.map fun writer => { writer with isPoisoned := isPoisoned } }

def LedgerWriter.ensureUsable (writer : LedgerWriter) : Except CliError Unit :=
  ensure (writer.isPoisoned = false)
    (.validation "completion ledger requires resume after a failed append")

def durableRecords (durable : List (Option Hash)) : List (Nat × Hash) :=
  durable.zipIdx.filterMap fun entry => entry.1.map fun digest => (entry.2, digest)

def LedgerWriter.create (isFresh : Bool) : Io LedgerWriter := do
  let state ← currentState
  let machine ← observe
  require (isFresh = true → machine.disk.ledger = none)
    (.validation "completion ledger already exists; choose another checkpoint")
  atomic .io (Machine.onDisk (Disk.publishLedger
    (ledgerBytes env state.binding (durableRecords state.durableCompletions))))
  return { file := machine.disk.nextNode, binding := state.binding, isPoisoned := false }

def LedgerWriter.append (index : Nat) (digest : Hash) : Io Unit := do
  let state ← currentState
  let writer ← orRaise state.writer (.validation "save snapshot before appending completions")
  ofExcept writer.ensureUsable
  modifyState (State.setPoisoned true)
  let machine ← observe
  let _ ← ofExcept (writer.verifyOpenFile machine.disk)
  let bytes := record env writer.binding index digest
  -- A failed `write_all` or `sync_all` leaves some part of the record behind.
  effect .io (fun kept => Machine.onDisk (Disk.appendLedger (bytes.take kept)))
    (Machine.onDisk (Disk.appendLedger bytes))
  modifyState (State.setPoisoned false)

def State.checkCompletions (state : State) (journal : Journal) : Except CliError Unit := do
  ensure (journal.completed.length = state.durableCompletions.length)
    (.validation "checkpoint completion count changed")
  (state.durableCompletions.zip journal.completed).forM fun (saved, current) => do
    let current ← decodeDigest current
    ensure (saved.isSome = true → saved = current)
      (.validation "a durable completion cannot be cleared or changed")

-- The part of `prepare_writer` that binds a pending snapshot to its journal.
def bindPending (journal : Journal) : Io Unit := do
  let state ← currentState
  if state.isSnapshotPending then do
    modifyState fun state => { state with binding := fingerprint env journal }
    let durable ← ofExcept (completions journal)
    modifyState fun state => { state with durableCompletions := durable }
  else pure ()

def State.prepareWriter (journal : Journal) (isFresh : Bool) : Io Unit := do
  let state ← currentState
  match state.writer with
  | some writer => do
      ofExcept writer.ensureUsable
      require (state.isSnapshotPending = true → state.binding = fingerprint env journal)
        (.validation "prepared checkpoint snapshot changed after publication failure")
  | none => do
      bindPending env journal
      let writer ← LedgerWriter.create env isFresh
      modifyState fun state => { state with writer := some writer }

-- Without overwriting, `publish` links the staged file and fails on an existing name.
def saveSnapshot (journal : Journal) (isFresh : Bool) : Io Unit := do
  let state ← currentState
  if state.isSnapshotPending then do
    let machine ← observe
    require (isFresh = true → machine.disk.snapshot = none) .io
    atomic .io (Machine.onDisk (Disk.publishSnapshot
      { journal with completionLedger := some (hexEncode state.binding.bytes) }))
    modifyState fun state => { state with isSnapshotPending := false }
  else pure ()

def State.saveCompletion (journal : Journal) (index : Nat) : Io Unit := do
  let state ← currentState
  require (state.isSnapshotPending = false)
    (.validation "snapshot must be durably saved before completion records")
  let writer ← orRaise state.writer (.validation "save snapshot before appending completions")
  ofExcept writer.ensureUsable
  require (journal.version = 1 ∧ journal.identity = state.identity ∧
      journal.completed.length = state.durableCompletions.length ∧
      journal.manifest.files.length = state.entryFingerprints.length)
    (.validation "checkpoint completion task identity or size differs")
  let entry ← orRaise journal.manifest.files[index]?
    (.validation "completion index is outside snapshot")
  require (state.entryFingerprints[index]? = some (fingerprintEntry env entry))
    (.validation "completed file fingerprint differs from snapshot")
  let completion ← orPanic journal.completed[index]?
  let text ← orRaise completion (.validation "completion digest is missing")
  let digest ← ofExcept (digestBytes text)
  let saved ← orPanic state.durableCompletions[index]?
  match saved with
  | some saved => require (saved = digest) (.validation "a durable completion digest changed")
  | none => do
      LedgerWriter.append env index digest
      modifyState fun state =>
        { state with durableCompletions := state.durableCompletions.set index (some digest) }

def saveCompletions (journal : Journal) : Io Unit :=
  forEach (List.range journal.completed.length) fun index =>
    if (journal.completed[index]?.join).isSome then State.saveCompletion env journal index
    else pure ()

def State.save (journal : Journal) (isFresh : Bool) : Io Unit := do
  let state ← currentState
  require (state.immutableTask = fingerprintTask env journal)
    (.validation "checkpoint snapshot metadata changed after initialization")
  ofExcept (state.checkCompletions journal)
  State.prepareWriter env journal isFresh
  saveSnapshot journal isFresh
  saveCompletions env journal

-- `Checkpoint::open` of a name that nobody else holds.
def Checkpoint.open (disk : Disk) (isResume : Bool) : Except CliError Checkpoint := do
  ensure (disk.snapshot.isSome = isResume)
    (.validation (if disk.snapshot.isSome then "checkpoint exists; use --resume"
      else "resume checkpoint does not exist"))
  return ⟨isResume, none⟩

def Checkpoint.load (identity : Identity) : Io Journal := do
  let machine ← observe
  let writer := machine.checkpoint.persistence.bind State.writer
  let (journal, state) ← ofExcept (Share.load env machine.disk identity writer)
  change (Machine.install state)
  return journal

def openPersistence (journal : Journal) : Io Unit := do
  let machine ← observe
  if machine.checkpoint.persistence.isNone then do
    let state ← ofExcept (if machine.checkpoint.hasSaved
      then (Share.load env machine.disk journal.identity none).map Prod.snd
      else State.fresh env journal)
    change (Machine.install state)
  else pure ()

def Checkpoint.save (journal : Journal) : Io Unit := do
  openPersistence env journal
  let machine ← observe
  State.save env journal (!machine.checkpoint.hasSaved)
  change Machine.markSaved

def hasWriter (machine : Machine) : Bool :=
  (machine.checkpoint.persistence.bind State.writer).isSome

def ensureWriter (journal : Journal) : Io Unit := do
  let machine ← observe
  if hasWriter machine then pure () else Checkpoint.save env journal

def Checkpoint.saveCompletion (journal : Journal) (index : Nat) : Io Unit := do
  ensureWriter env journal
  State.saveCompletion env journal index

inductive Call where
  | save (journal : Journal)
  | saveCompletion (journal : Journal) (index : Nat)
  | load (identity : Identity)

def Call.run : Call → Io Unit
  | .save journal => Checkpoint.save env journal
  | .saveCompletion journal index => Checkpoint.saveCompletion env journal index
  | .load identity => do
      let _ ← Checkpoint.load env identity

inductive Outcome where
  | returned
  | failed (error : CliError)
  | killed
deriving DecidableEq

structure Event where
  call : Call
  before : Machine
  outcome : Outcome
  after : Machine

inductive Action where
  | call (request : Call) (faults : List Fault)
  | reopen

-- A new process opens the checkpoint to resume it.
def Machine.reopened (machine : Machine) : Machine :=
  match Checkpoint.open machine.disk true with
  | .ok checkpoint => { machine with checkpoint := checkpoint }
  | .error _ => machine

def settle (request : Call) (before : Machine) :
    EStateM.Result (Stop CliError) (World Machine) Unit → List Event × Machine
  | .ok _ w => ([⟨request, before, .returned, w.state⟩], w.state)
  | .error (.raised e) w => ([⟨request, before, .failed e, w.state⟩], w.state)
  | .error .killed w => ([⟨request, before, .killed, w.state⟩], w.state.reopened)

def Action.perform (machine : Machine) : Action → List Event × Machine
  | .reopen => ([], machine.reopened)
  | .call request faults => settle request machine (request.run env ⟨machine, faults⟩)

def execute (machine : Machine) : List Action → List Event × Machine
  | [] => ([], machine)
  | action :: actions =>
      let first := action.perform env machine
      let rest := execute first.2 actions
      (first.1 ++ rest.1, rest.2)

end VeStorage.ADrive.Share
