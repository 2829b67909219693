import VeStorage.Lib.Fingerprint
import VeStorage.Tos.Batch.Manifest

namespace VeStorage.Tos.Batch
open Lib

inductive Status where
  | succeeded
  | failed
  | skipped
deriving DecidableEq

def fingerprintFields (a : Action) : List (Option Text) :=
  [some a.operation.name, some a.source, a.destination]

def transferActionFingerprint {D : Type} (sha256 : List UInt8 → D) (a : Action) : D :=
  sha256 (fieldsBytes (fingerprintFields a))

structure ManifestActionIds where
  first : Option Nat
  duplicates : List Nat

namespace ManifestActionIds

def empty : ManifestActionIds := ⟨none, []⟩

def push (ids : ManifestActionIds) (actionId : Nat) : ManifestActionIds :=
  match ids.first with
  | none => ⟨some actionId, ids.duplicates⟩
  | some _ => ⟨ids.first, ids.duplicates ++ [actionId]⟩

def pop (ids : ManifestActionIds) : Option Nat × ManifestActionIds :=
  match ids.first, ids.duplicates with
  | some actionId, duplicates => (some actionId, ⟨none, duplicates⟩)
  | none, actionId :: duplicates => (some actionId, ⟨none, duplicates⟩)
  | none, [] => (none, ⟨none, []⟩)

def len (ids : ManifestActionIds) : Nat := (if ids.first.isSome then 1 else 0) + ids.duplicates.length

def toList (ids : ManifestActionIds) : List Nat := ids.first.toList ++ ids.duplicates

theorem push_perm (ids : ManifestActionIds) (actionId : Nat) :
    (ids.push actionId).toList.Perm (actionId :: ids.toList) := by
  obtain ⟨first, duplicates⟩ := ids
  cases first with
  | none => exact .refl _
  | some f => exact (List.perm_append_singleton actionId (f :: duplicates))

theorem pop_some {ids : ManifestActionIds} {actionId : Nat} (h : ids.pop.1 = some actionId) :
    ids.toList = actionId :: ids.pop.2.toList := by
  obtain ⟨first, duplicates⟩ := ids
  cases first with
  | some f =>
    obtain rfl := Option.some.inj h
    rfl
  | none =>
    cases duplicates with
    | nil => cases h
    | cons d duplicates =>
      obtain rfl := Option.some.inj h
      rfl

theorem pop_none {ids : ManifestActionIds} (h : ids.pop.1 = none) : ids.toList = [] := by
  obtain ⟨first, duplicates⟩ := ids
  cases first with
  | some f => cases h
  | none =>
    cases duplicates with
    | nil => rfl
    | cons d duplicates => cases h

end ManifestActionIds

-- `HashMap<[u8; 32], ManifestActionIds>`: the entries, each key once.
abbrev ActionIdMap (D : Type) := List (D × ManifestActionIds)

namespace ActionIdMap

variable {D : Type} [DecidableEq D]

def push : ActionIdMap D → D → Nat → ActionIdMap D
  | [], key, actionId => [(key, ManifestActionIds.empty.push actionId)]
  | (k, ids) :: m, key, actionId =>
      if k = key then (k, ids.push actionId) :: m else (k, ids) :: push m key actionId

def pop : ActionIdMap D → D → Option Nat × ActionIdMap D
  | [], _ => (none, [])
  | (k, ids) :: m, key =>
      if k = key then (ids.pop.1, (k, ids.pop.2) :: m) else ((pop m key).1, (k, ids) :: (pop m key).2)

def unresolved (m : ActionIdMap D) : List (D × Nat) := m.flatMap fun e => e.2.toList.map fun id => (e.1, id)

def unresolvedActions (m : ActionIdMap D) : Nat := (m.map fun e => e.2.len).sum

theorem push_keys (m : ActionIdMap D) (key : D) (actionId : Nat) :
    (push m key actionId).map Prod.fst =
      if key ∈ m.map Prod.fst then m.map Prod.fst else m.map Prod.fst ++ [key] := by
  induction m with
  | nil => rfl
  | cons e m ih =>
    obtain ⟨k, ids⟩ := e
    rw [push]
    by_cases he : k = key
    · simp [he]
    · rw [if_neg he, List.map_cons, ih]
      by_cases hm : key ∈ m.map Prod.fst
      · simp [hm]
      · simp [hm, Ne.symm he]

theorem push_nodup {m : ActionIdMap D} (h : (m.map Prod.fst).Nodup) (key : D) (actionId : Nat) :
    ((push m key actionId).map Prod.fst).Nodup := by
  rw [push_keys]
  split
  · exact h
  · rename_i hm
    exact List.nodup_append.mpr ⟨h, List.nodup_singleton key, fun a ha b hb he =>
      hm (List.mem_singleton.mp hb ▸ he ▸ ha)⟩

theorem push_unresolved (m : ActionIdMap D) (key : D) (actionId : Nat) :
    (push m key actionId).unresolved.Perm ((key, actionId) :: unresolved m) := by
  induction m with
  | nil => exact .refl _
  | cons e m ih =>
    obtain ⟨k, ids⟩ := e
    rw [push]
    split
    · rename_i he
      subst he
      exact (((ids.push_perm actionId).map fun id => (k, id))).append_right _
    · exact (ih.append_left _).trans List.perm_middle

theorem pop_keys (m : ActionIdMap D) (key : D) : ((pop m key).2).map Prod.fst = m.map Prod.fst := by
  induction m with
  | nil => rfl
  | cons e m ih =>
    obtain ⟨k, ids⟩ := e
    rw [pop]
    split
    · rfl
    · rw [List.map_cons, List.map_cons, ih]

omit [DecidableEq D] in
theorem not_unresolved {m : ActionIdMap D} {key : D} (h : key ∉ m.map Prod.fst) :
    key ∉ (unresolved m).map Prod.fst := by
  rw [List.mem_map]
  rintro ⟨⟨k, id⟩, hk, rfl⟩
  obtain ⟨e, he, hid⟩ := List.mem_flatMap.mp hk
  obtain ⟨id', -, hpair⟩ := List.mem_map.mp hid
  exact h (List.mem_map.mpr ⟨e, he, (Prod.mk.inj hpair).1⟩)

theorem pop_resolves {m : ActionIdMap D} (hm : (m.map Prod.fst).Nodup) {key : D}
    (h : key ∈ (unresolved m).map Prod.fst) :
    ∃ actionId, (pop m key).1 = some actionId ∧
      (unresolved m).Perm ((key, actionId) :: unresolved (pop m key).2) := by
  induction m with
  | nil => cases h
  | cons e m ih =>
    obtain ⟨k, ids⟩ := e
    obtain ⟨hnew, hrest⟩ := List.nodup_cons.mp hm
    rw [pop]
    split
    · rename_i he
      subst he
      cases hp : ids.pop.1 with
      | none =>
        have hempty : unresolved ((k, ids) :: m) = unresolved m := by
          simp [unresolved, ManifestActionIds.pop_none hp]
        rw [hempty] at h
        exact absurd h (not_unresolved hnew)
      | some actionId =>
        refine ⟨actionId, rfl, ?_⟩
        simp [unresolved, ManifestActionIds.pop_some hp]
    · rename_i he
      have hmem : key ∈ (unresolved m).map Prod.fst := by
        simp only [unresolved, List.flatMap_cons, List.map_append, List.mem_append] at h
        refine h.resolve_left fun hl => ?_
        obtain ⟨p, hp, rfl⟩ := List.mem_map.mp hl
        obtain ⟨id, -, rfl⟩ := List.mem_map.mp hp
        exact he rfl
      obtain ⟨actionId, hpop, hperm⟩ := ih hrest hmem
      exact ⟨actionId, hpop, (hperm.append_left _).trans List.perm_middle⟩

end ActionIdMap

def u64Max : Nat := 2 ^ 64 - 1

def saturatingSucc (n : Nat) : Nat := min (n + 1) u64Max

structure ReportRow where
  action : Action
  status : Status
  actionId : Nat
deriving DecidableEq

structure StreamingReportSink (D : Type) where
  rows : List ReportRow
  failuresOnly : Bool
  actionIds : ActionIdMap D
  nextUnplannedActionId : Nat
  requiresManifestMatch : Bool
  firstError : Option Text

def missingFromManifest (a : Action) : Text :=
  "report action is missing from manifest: operation=".toList ++ a.operation.name ++
    " source=".toList ++ a.source ++ " destination=".toList ++ a.destination.getD []

def missingResults (unresolved : Nat) : Text :=
  "transfer report is missing ".toList ++ (toString unresolved).toList ++
    " manifest action result(s)".toList

namespace StreamingReportSink

variable {D : Type} [DecidableEq D] (sha256 : List UInt8 → D)

def new (failuresOnly : Bool) (manifest : Option TransferManifest) : StreamingReportSink D :=
  let items := (manifest.map TransferManifest.items).getD []
  { rows := []
    failuresOnly := failuresOnly
    actionIds := items.foldl (fun m item =>
      m.push (transferActionFingerprint sha256 item.toAction) item.actionId) []
    nextUnplannedActionId := items.foldl (fun n item => max n (saturatingSucc item.actionId)) 1
    requiresManifestMatch := manifest.isSome
    firstError := none }

def rememberError (sink : StreamingReportSink D) (message : Text) : StreamingReportSink D :=
  { sink with firstError := some (sink.firstError.getD message) }

def resolveActionId (sink : StreamingReportSink D) (a : Action) :
    Option Nat × StreamingReportSink D :=
  match sink.actionIds.pop (transferActionFingerprint sha256 a) with
  | (some actionId, ids) => (some actionId, { sink with actionIds := ids })
  | (none, ids) =>
      if sink.requiresManifestMatch then
        (none, ({ sink with actionIds := ids }).rememberError (missingFromManifest a))
      else (some sink.nextUnplannedActionId, { sink with
        actionIds := ids
        nextUnplannedActionId := saturatingSucc sink.nextUnplannedActionId })

-- The rows the writer is asked for; `failure` is the error of the write, if it fails.
def writes (sink : StreamingReportSink D) (status : Status) : Bool :=
  !(sink.failuresOnly && decide (status ≠ .failed))

def writeItem (sink : StreamingReportSink D) (a : Action) (status : Status)
    (failure : Option Text) : StreamingReportSink D :=
  match sink.resolveActionId sha256 a with
  | (none, sink) => sink
  | (some actionId, sink) =>
      if sink.writes status then
        match failure with
        | some message => sink.rememberError message
        | none => { sink with rows := sink.rows ++ [⟨a, status, actionId⟩] }
      else sink

def hasError (sink : StreamingReportSink D) : Bool := sink.firstError.isSome

def error (sink : StreamingReportSink D) : Option CliError :=
  if sink.hasError then some .io
  else if sink.requiresManifestMatch && decide (0 < sink.actionIds.unresolvedActions) then
    some (.transferFailed (missingResults sink.actionIds.unresolvedActions))
  else none

end StreamingReportSink

structure BatchReport (D : Type) where
  planned : Nat
  succeeded : Nat
  failed : Nat
  skipped : Nat
  streamingSink : StreamingReportSink D

namespace BatchReport

variable {D : Type} [DecidableEq D] (sha256 : List UInt8 → D)

def newStreaming (planned : Nat) (failuresOnly : Bool) (manifest : Option TransferManifest) :
    BatchReport D :=
  ⟨planned, 0, 0, 0, .new sha256 failuresOnly manifest⟩

-- `record_success`, `record_failure` and `record_skipped`.
def record (report : BatchReport D) (a : Action) (status : Status) (failure : Option Text) :
    BatchReport D :=
  { planned := report.planned
    succeeded := report.succeeded + if status = .succeeded then 1 else 0
    failed := report.failed + if status = .failed then 1 else 0
    skipped := report.skipped + if status = .skipped then 1 else 0
    streamingSink := report.streamingSink.writeItem sha256 a status failure }

def reportingFailed (report : BatchReport D) : Bool := report.streamingSink.hasError

def hasFailures (report : BatchReport D) : Bool :=
  decide (0 < report.failed) || report.reportingFailed

end BatchReport

def writeTosBatchReport {D : Type} [DecidableEq D] (report : BatchReport D) : Except CliError Unit :=
  match report.streamingSink.error with
  | some e => .error e
  | none => .ok ()

end VeStorage.Tos.Batch
