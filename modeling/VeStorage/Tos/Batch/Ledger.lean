import VeStorage.Tos.Batch.Machine

namespace VeStorage.Tos.Batch
open Lib

section Log

variable {log log' : List Event}

theorem sends_append (log log' : List Event) : sends (log ++ log') = sends log ++ sends log' :=
  List.filterMap_append ..

theorem rows_append (log log' : List Event) : rows (log ++ log') = rows log ++ rows log' :=
  List.filterMap_append ..

@[simp] theorem sends_send (log : List Event) (a : Action) :
    sends (log ++ [.send a]) = sends log ++ [a] := sends_append ..

@[simp] theorem rows_send (log : List Event) (a : Action) : rows (log ++ [.send a]) = rows log := by
  rw [rows_append]
  exact List.append_nil _

@[simp] theorem sends_row (log : List Event) (r : Recorded) :
    sends (log ++ [.row r]) = sends log := by
  rw [sends_append]
  exact List.append_nil _

@[simp] theorem rows_row (log : List Event) (r : Recorded) :
    rows (log ++ [.row r]) = rows log ++ [r] := rows_append ..

@[simp] theorem answers_send (log : List Event) (a : Action) :
    answers (log ++ [.send a]) = answers log := by
  rw [answers, rows_send, answers]

theorem answers_row (log : List Event) (r : Recorded) :
    answers (log ++ [.row r]) = answers log ++ if r.answers then [r.action] else [] := by
  rw [answers, rows_row, List.filter_append, List.map_append, ← answers]
  cases h : r.answers <;> simp [h]

end Log

-- What a written row holds: the recorded results that a report of failures only leaves out are not rows.
def csvRow (failuresOnly : Bool) (r : Recorded) : Option ReportRow :=
  match r.actionId with
  | none => none
  | some id =>
      if r.lost || (failuresOnly && decide (r.status ≠ .failed)) then none else some ⟨r.action, r.status, id⟩

section CsvRow

variable {failuresOnly answers : Bool} {a : Action} {status : Status} {id : Nat}

theorem csvRow_written (h : (failuresOnly && decide (status ≠ .failed)) = false) :
    csvRow failuresOnly ⟨a, status, some id, answers, false⟩ = some ⟨a, status, id⟩ := by
  simp only [csvRow, h, Bool.or_false, Bool.false_eq_true, if_false]

theorem csvRow_left (h : (failuresOnly && decide (status ≠ .failed)) = true) (lost : Bool) :
    csvRow failuresOnly ⟨a, status, some id, answers, lost⟩ = none := by
  simp only [csvRow, h, Bool.or_true, if_true]

theorem csvRow_lost : csvRow failuresOnly ⟨a, status, some id, answers, true⟩ = none := by
  simp only [csvRow, Bool.true_or, if_true]

end CsvRow

section Report

variable {D : Type} [DecidableEq D] (sha256 : List UInt8 → D)

def resolvedPairs (recorded : List Recorded) : List (D × Nat) :=
  recorded.filterMap fun r => r.actionId.map fun id => (transferActionFingerprint sha256 r.action, id)

def manifestPairs (manifest : TransferManifest) : List (D × Nat) :=
  manifest.items.map fun item => (transferActionFingerprint sha256 item.toAction, item.actionId)

def statusCount (status : Status) (recorded : List Recorded) : Nat :=
  recorded.countP fun r => decide (r.status = status)

-- `unresolved`: the actions that still wait for their row.
structure ReportInv (manifest : TransferManifest) (failuresOnly : Bool) (report : BatchReport D)
    (recorded : List Recorded) (waiting : List Action) : Prop where
  actions : (recorded.map Recorded.action ++ waiting).Perm manifest.actions
  keys : (report.streamingSink.actionIds.map Prod.fst).Nodup
  ids : (resolvedPairs sha256 recorded ++ report.streamingSink.actionIds.unresolved).Perm
    (manifestPairs sha256 manifest)
  resolved : ∀ r ∈ recorded, ∃ id, r.actionId = some id
  planned : report.planned = manifest.objectCount
  succeeded : report.succeeded = statusCount .succeeded recorded
  failed : report.failed = statusCount .failed recorded
  skipped : report.skipped = statusCount .skipped recorded
  error : report.reportingFailed = true ↔ ∃ r ∈ recorded, r.lost = true
  mode : report.streamingSink.failuresOnly = failuresOnly
  matched : report.streamingSink.requiresManifestMatch = true
  csv : report.streamingSink.rows = recorded.filterMap (csvRow failuresOnly)

variable {sha256} {manifest : TransferManifest} {failuresOnly : Bool} {report : BatchReport D}
  {recorded : List Recorded} {waiting waiting' : List Action} {a : Action}

omit [DecidableEq D] in
theorem ReportInv.perm (h : ReportInv sha256 manifest failuresOnly report recorded waiting)
    (hp : waiting.Perm waiting') : ReportInv sha256 manifest failuresOnly report recorded waiting' :=
  { h with actions := (List.Perm.append_left _ hp.symm).trans h.actions }

variable (sha256) in
theorem foldl_push (items : List TransferManifestItem) (m : ActionIdMap D)
    (hm : (m.map Prod.fst).Nodup) :
    let m' := items.foldl (fun m item =>
      m.push (transferActionFingerprint sha256 item.toAction) item.actionId) m
    (m'.map Prod.fst).Nodup ∧ m'.unresolved.Perm (m.unresolved ++ items.map fun item =>
      (transferActionFingerprint sha256 item.toAction, item.actionId)) := by
  induction items generalizing m with
  | nil => exact ⟨hm, by simp⟩
  | cons item items ih =>
    obtain ⟨hkeys, hperm⟩ := ih (m.push _ _) (ActionIdMap.push_nodup hm
      (transferActionFingerprint sha256 item.toAction) item.actionId)
    refine ⟨hkeys, hperm.trans ?_⟩
    refine ((ActionIdMap.push_unresolved m _ _).append_right _).trans ?_
    exact List.perm_middle.symm

variable (sha256 manifest failuresOnly) in
theorem ReportInv.init :
    ReportInv sha256 manifest failuresOnly
      (.newStreaming sha256 manifest.objectCount failuresOnly (some manifest)) []
      manifest.actions := by
  obtain ⟨hkeys, hperm⟩ := foldl_push sha256 manifest.items [] List.nodup_nil
  exact {
    actions := .refl _
    keys := hkeys
    ids := hperm
    resolved := by simp
    planned := rfl
    succeeded := rfl
    failed := rfl
    skipped := rfl
    error := by simp [BatchReport.reportingFailed, BatchReport.newStreaming,
      StreamingReportSink.new, StreamingReportSink.hasError]
    mode := rfl
    matched := rfl
    csv := rfl }

omit [DecidableEq D] in
theorem resolvedPairs_map (hr : ∀ r ∈ recorded, ∃ id, r.actionId = some id) :
    (resolvedPairs sha256 recorded).map Prod.fst =
      (recorded.map Recorded.action).map (transferActionFingerprint sha256) := by
  induction recorded with
  | nil => rfl
  | cons r recorded ih =>
    obtain ⟨id, hid⟩ := hr r (List.mem_cons_self ..)
    have hrest := ih fun r' hr' => hr r' (List.mem_cons_of_mem _ hr')
    simp only [resolvedPairs] at hrest ⊢
    simp [hid, hrest]

omit [DecidableEq D] in
-- The action ids that are left are those of the actions that wait.
theorem ReportInv.unresolved_waiting
    (h : ReportInv sha256 manifest failuresOnly report recorded waiting) :
    (report.streamingSink.actionIds.unresolved.map Prod.fst).Perm
      (waiting.map (transferActionFingerprint sha256)) := by
  have hids := h.ids.map Prod.fst
  have hactions := h.actions.map (transferActionFingerprint sha256)
  have hmanifest : (manifestPairs sha256 manifest).map Prod.fst =
      manifest.actions.map (transferActionFingerprint sha256) := by
    simp [manifestPairs, TransferManifest.actions]
  rw [List.map_append, resolvedPairs_map h.resolved, hmanifest] at hids
  rw [List.map_append] at hactions
  exact (List.perm_append_left_iff _).mp (hids.trans hactions.symm)

-- What the sink keeps while it resolves an action id.
structure Resolves (sha256 : List UInt8 → D) (sink sink' : StreamingReportSink D) (a : Action)
    (id : Nat) : Prop where
  unresolved : sink.actionIds.unresolved.Perm
    ((transferActionFingerprint sha256 a, id) :: sink'.actionIds.unresolved)
  keys : sink'.actionIds.map Prod.fst = sink.actionIds.map Prod.fst
  rows : sink'.rows = sink.rows
  mode : sink'.failuresOnly = sink.failuresOnly
  matched : sink'.requiresManifestMatch = sink.requiresManifestMatch
  error : sink'.firstError = sink.firstError

theorem ReportInv.resolves
    (h : ReportInv sha256 manifest failuresOnly report recorded (a :: waiting)) :
    ∃ id sink, report.streamingSink.resolveActionId sha256 a = (some id, sink) ∧
      Resolves sha256 report.streamingSink sink a id := by
  have hmem : transferActionFingerprint sha256 a ∈
      report.streamingSink.actionIds.unresolved.map Prod.fst :=
    h.unresolved_waiting.mem_iff.mpr (List.mem_cons_self ..)
  obtain ⟨id, hpop, hperm⟩ := ActionIdMap.pop_resolves h.keys hmem
  refine ⟨id, { report.streamingSink with actionIds := _ }, ?_, hperm, ActionIdMap.pop_keys .., rfl,
    rfl, rfl, rfl⟩
  rw [StreamingReportSink.resolveActionId]
  cases hm : report.streamingSink.actionIds.pop (transferActionFingerprint sha256 a) with
  | mk result ids =>
    rw [hm] at hpop
    obtain rfl : result = some id := hpop
    rfl

theorem statusCount_append (status : Status) (recorded : List Recorded) (r : Recorded) :
    statusCount status (recorded ++ [r]) =
      statusCount status recorded + if r.status = status then 1 else 0 := by
  rw [statusCount, List.countP_append, ← statusCount, List.countP_singleton]
  simp

variable {log : List Event} {status : Status} {failure : Option Text}

theorem writeItem_writes {sink sink' : StreamingReportSink D} {id : Nat}
    (hr : sink.resolveActionId sha256 a = (some id, sink')) (h : Resolves sha256 sink sink' a id)
    (hw : failure.isSome = true → sink.writes status = true) :
    let written := sink.writeItem sha256 a status failure
    written.actionIds = sink'.actionIds ∧ written.failuresOnly = sink.failuresOnly ∧
      written.requiresManifestMatch = sink.requiresManifestMatch ∧
      (written.hasError = true ↔ sink.hasError = true ∨ failure.isSome = true) ∧
      ∀ answers, written.rows = sink.rows ++
        (csvRow sink.failuresOnly ⟨a, status, some id, answers, failure.isSome⟩).toList := by
  have hwrites : sink'.writes status = sink.writes status := by
    rw [StreamingReportSink.writes, h.mode, StreamingReportSink.writes]
  rw [StreamingReportSink.writeItem, hr]
  simp only [StreamingReportSink.hasError]
  split
  · rename_i hwritten
    rw [hwrites, StreamingReportSink.writes, Bool.not_eq_true'] at hwritten
    cases failure with
    | none =>
      refine ⟨rfl, h.mode, h.matched, by simp [h.error], fun answers => ?_⟩
      rw [Option.isSome_none, csvRow_written hwritten, h.rows]
      rfl
    | some m =>
      refine ⟨rfl, h.mode, h.matched, by simp [StreamingReportSink.rememberError], fun answers => ?_⟩
      rw [Option.isSome_some, csvRow_lost]
      exact h.rows.trans (List.append_nil _).symm
  · rename_i hwritten
    cases failure with
    | some m => exact absurd (hwrites.trans (hw rfl)) hwritten
    | none =>
      rw [hwrites, StreamingReportSink.writes, Bool.not_eq_true', Bool.not_eq_false] at hwritten
      refine ⟨rfl, h.mode, h.matched, by simp [h.error], fun answers => ?_⟩
      rw [csvRow_left hwritten, h.rows]
      exact (List.append_nil _).symm

theorem ReportInv.record_error
    (h : ReportInv sha256 manifest failuresOnly report recorded (a :: waiting))
    (hw : failure.isSome = true → report.streamingSink.writes status = true) :
    (report.record sha256 a status failure).reportingFailed = true ↔
      report.reportingFailed = true ∨ failure.isSome = true := by
  obtain ⟨id, sink, hr, hres⟩ := h.resolves
  obtain ⟨-, -, -, herror, -⟩ := writeItem_writes hr hres hw
  exact herror

theorem ReportInv.record
    (h : ReportInv sha256 manifest failuresOnly report (rows log) (a :: waiting)) (answers : Bool)
    (hw : failure.isSome = true → report.streamingSink.writes status = true) :
    ReportInv sha256 manifest failuresOnly (report.record sha256 a status failure)
      (rows (recordRow sha256 report log a status answers failure)) waiting := by
  obtain ⟨id, sink, hr, hres⟩ := h.resolves
  obtain ⟨hids, hmode, hmatched, herror, hcsv⟩ := writeItem_writes hr hres hw
  rw [recordRow, rows_row, hr]
  exact {
    actions := by
      rw [List.map_append, List.append_assoc]
      exact h.actions
    keys := by
      rw [BatchReport.record, hids, hres.keys]
      exact h.keys
    ids := by
      rw [resolvedPairs, List.filterMap_append, ← resolvedPairs, List.append_assoc,
        BatchReport.record, hids]
      exact (List.Perm.append_left _ hres.unresolved.symm).trans h.ids
    resolved := fun r hr => by
      rcases List.mem_append.mp hr with hr | hr
      · exact h.resolved r hr
      · obtain rfl := List.mem_singleton.mp hr
        exact ⟨id, rfl⟩
    planned := h.planned
    succeeded := by rw [statusCount_append, ← h.succeeded]; rfl
    failed := by rw [statusCount_append, ← h.failed]; rfl
    skipped := by rw [statusCount_append, ← h.skipped]; rfl
    error := by
      have hold := h.error
      simp only [BatchReport.reportingFailed, BatchReport.record, herror] at hold ⊢
      simp [hold, or_and_right, exists_or]
    mode := hmode.trans h.mode
    matched := hmatched.trans h.matched
    csv := by
      rw [List.filterMap_append, ← h.csv, ← h.mode]
      refine (hcsv answers).trans ?_
      cases hr : csvRow report.streamingSink.failuresOnly ⟨a, status, some id, answers, failure.isSome⟩ <;>
        simp [hr] }

end Report

end VeStorage.Tos.Batch
