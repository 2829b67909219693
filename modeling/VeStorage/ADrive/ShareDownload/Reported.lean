import VeStorage.ADrive.ShareDownload.Accounted

namespace VeStorage.ADrive.ShareDownload
open Lib
open Share (Journal Entry CliError)

def report (cfg : Config) (progress : Progress) (result : Except CliError Unit) : Payload :=
  (aggregate cfg progress (errorOf result)).1

-- What the aggregate and the report rows say of a finished run.
structure Accounted (cfg : Config) (trace : Trace) (progress : Progress)
    (result : Except CliError Unit) : Prop where
  total : (report cfg progress result).total = fileCount progress
  sum : (report cfg progress result).completed + (report cfg progress result).failed +
    (report cfg progress result).pending = (report cfg progress result).total
  pending : (report cfg progress result).pending =
    (report cfg progress result).files.countP fun file => file.status == .pending
  skipped : (report cfg progress result).skipped ≤ (report cfg progress result).completed
  once : ∀ index < fileCount progress, (progress.fileRows index).length ≤ 1
  started : ∀ index ∈ trace.started, (progress.fileRows index).length = 1
  reached : ∀ index ∈ trace.reached, (progress.fileRows index).length = 1
  resumedRow : ∀ index ∈ trace.reached, fileStatus progress index = .completed →
    index ∉ progress.published → progress.fileRows index = [.skipped]
  skippedRow : ∀ index < fileCount progress, fileStatus progress index = .skipped →
    progress.fileRows index = [.skipped]
  failedRow : ∀ index < fileCount progress, fileStatus progress index = .failed →
    progress.fileRows index = [.failed] ∨
      (progress.active = some index ∧ progress.rows = none ∧ cfg.isResume = true)
  succeeded : ∀ index < fileCount progress,
    .succeeded ∈ progress.fileRows index ↔ index ∈ progress.published
  exit : (aggregate cfg progress (errorOf result)).2 = 0 →
    (report cfg progress result).complete = true ∧ (report cfg progress result).failed = 0 ∧
      (report cfg progress result).pending = 0 ∧
      (report cfg progress result).directoryFailures = []

variable {cfg : Config} {progress : Progress} {trace : Trace} {result : Except CliError Unit}
  {index : Nat}

theorem fileStatus_eq : fileStatus progress index =
    if (progress.view index).isDone then .completed
    else if (progress.view index).isSkipped then .skipped
    else if (progress.view index).isFailed || progress.active == some index ||
      (progress.view index).isActive then .failed
    else .pending := rfl

variable (cfg progress result) in
theorem files_countP (p : FileStatus → Bool) :
    (report cfg progress result).files.countP (fun file => p file.status) =
      (List.range (fileCount progress)).countP fun index => p (fileStatus progress index) := by
  cases hj : progress.journal with
  | none =>
    have hfiles : (report cfg progress result).files = [] := by rw [report, aggregate, filePayloads, hj]
    rw [hfiles, fileCount, hj]
    rfl
  | some journal =>
    have hrange : List.range (fileCount progress) = journal.manifest.files.zipIdx.map Prod.snd := by
      rw [fileCount_eq hj, List.zipIdx_map_snd, List.range_eq_range']
    rw [hrange, List.countP_map, report, aggregate, filePayloads, hj]
    dsimp only
    rw [List.countP_map]
    rfl

variable (cfg progress result) in
theorem files_length : (report cfg progress result).files.length = fileCount progress := by
  have hcount := files_countP cfg progress result fun _ => true
  rw [List.countP_true, List.countP_true, List.length_range] at hcount
  exact hcount

theorem statuses_sum (indices : List Nat) (status : Nat → FileStatus) :
    (indices.countP fun index => status index == .completed || status index == .skipped) +
      (indices.countP fun index => status index == .failed) +
      (indices.countP fun index => status index == .pending) = indices.length := by
  induction indices with
  | nil => rfl
  | cons index rest ih =>
    simp only [List.countP_cons, List.length_cons]
    cases status index <;> simp <;> omega

theorem FileView.Final.rows_length {view : FileView} (h : view.Final) : view.rows.length ≤ 1 := by
  cases h with
  | settled h => cases h <;> exact Nat.le_refl 1
  | idle => exact Nat.zero_le 1

theorem FileView.Settled.rows_length {view : FileView} (h : FileView.Settled view) :
    view.rows.length = 1 := by
  cases h <;> rfl

theorem FileView.Final.succeeded {view : FileView} (h : view.Final) :
    .succeeded ∈ view.rows ↔ view.isPublished = true := by
  cases h with
  | settled h => cases h <;> decide
  | idle => simp

theorem FileView.Final.skipped {view : FileView} (h : view.Final) (hs : view.isSkipped = true) :
    view.rows = [.skipped] := by
  cases h with
  | settled h => cases h <;> first | rfl | cases hs
  | idle => cases hs

theorem FileView.Settled.resumed_rows {view : FileView} (h : FileView.Settled view)
    (hd : view.isDone = true) (hp : view.isPublished = false) : view.rows = [.skipped] := by
  cases h with
  | resumed => rfl
  | published => cases hp
  | skipped | failed => cases hd

theorem FileView.Final.failed {view : FileView} (h : view.Final) (hf : view.isFailed = true) :
    view.rows = [.failed] := by
  cases h with
  | settled h => cases h <;> first | rfl | cases hf
  | idle => cases hf

theorem FileView.Settled.handled {view : FileView} (h : FileView.Settled view)
    (hf : view.isFailed = false) : view.isDone = true ∨ view.isSkipped = true := by
  cases h with
  | resumed | published => exact .inl rfl
  | skipped => exact .inr rfl
  | failed => cases hf

theorem completed_eq : (report cfg progress result).completed =
    (List.range (fileCount progress)).countP fun index =>
      fileStatus progress index == .completed || fileStatus progress index == .skipped :=
  files_countP cfg progress result fun status =>
    status == .completed || status == .skipped

theorem failed_eq : (report cfg progress result).failed =
    (List.range (fileCount progress)).countP fun index => fileStatus progress index == .failed :=
  files_countP cfg progress result fun status =>
    status == .failed

theorem pending_files : ((report cfg progress result).files.countP fun file =>
      file.status == .pending) =
    (List.range (fileCount progress)).countP fun index => fileStatus progress index == .pending :=
  files_countP cfg progress result fun status => status == .pending

theorem total_eq : (report cfg progress result).total = fileCount progress :=
  files_length cfg progress result

-- No file is counted twice, so the subtraction of `aggregate` does not underflow.
variable (cfg progress result) in
theorem counts_sum : (report cfg progress result).completed + (report cfg progress result).failed +
    ((report cfg progress result).files.countP fun file => file.status == .pending) =
      (report cfg progress result).total := by
  rw [completed_eq, failed_eq, pending_files, total_eq, statuses_sum, List.length_range]

variable (cfg progress result) in
theorem pending_eq : (report cfg progress result).pending =
    (report cfg progress result).files.countP fun file => file.status == .pending := by
  have hsum := counts_sum cfg progress result
  have hpending : (report cfg progress result).pending = (report cfg progress result).total -
    (report cfg progress result).completed - (report cfg progress result).failed := rfl
  omega

theorem Concluded.skipped_le (h : Concluded cfg trace progress result) :
    (report cfg progress result).skipped ≤ (report cfg progress result).completed := by
  have hskipped : (report cfg progress result).skipped = progress.credits (fileCount progress) :=
    h.balanced
  rw [hskipped, completed_eq]
  refine List.countP_mono_left fun index _ hc => ?_
  rw [FileView.credited, Bool.or_eq_true, Bool.and_eq_true] at hc
  rw [fileStatus_eq]
  split
  · rfl
  · rw [if_pos (hc.resolve_left fun hd => absurd hd.1 ‹_›)]
    rfl

theorem Concluded.failedRow (h : Concluded cfg trace progress result) (hi : index < fileCount progress)
    (hs : fileStatus progress index = .failed) : progress.fileRows index = [.failed] ∨
      (progress.active = some index ∧ progress.rows = none ∧ cfg.isResume = true) := by
  have hfinal := h.final index hi
  rw [fileStatus_eq, hfinal.inactive, Bool.or_false] at hs
  split at hs
  · cases hs
  · split at hs
    · cases hs
    · split at hs
      next hf =>
        rcases Bool.or_eq_true_iff.mp hf with hf | ha
        · exact .inl (hfinal.failed hf)
        · have hactive := eq_of_beq ha
          exact .inr ⟨hactive, h.active index hactive⟩
      next => cases hs

theorem Concluded.statuses (h : Concluded cfg trace progress result) (hok : result = .ok ()) :
    ∀ index < fileCount progress,
      fileStatus progress index = .completed ∨ fileStatus progress index = .skipped := by
  intro index hi
  obtain ⟨-, -, hsettled⟩ := h.ok hok
  obtain ⟨hs, hf⟩ := hsettled index hi
  rw [fileStatus_eq]
  rcases hs.handled hf with hd | hd
  · rw [if_pos hd]
    exact .inl rfl
  · rw [if_pos hd]
    split
    · exact .inl rfl
    · exact .inr rfl

theorem exit_ok (h : (aggregate cfg progress (errorOf result)).2 = 0) : result = .ok () := by
  cases result with
  | ok u => rfl
  | error e => exact absurd h (Nat.ne_of_gt (cfg.exitCode_pos e))

theorem Concluded.skippedRow (h : Concluded cfg trace progress result)
    (hi : index < fileCount progress) (hs : fileStatus progress index = .skipped) :
    progress.fileRows index = [.skipped] := by
  rw [fileStatus_eq] at hs
  split at hs
  · cases hs
  · split at hs
    next hskipped => exact (h.final index hi).skipped hskipped
    next => split at hs <;> cases hs

theorem Concluded.resumedRow (h : Concluded cfg trace progress result) (hi : index ∈ trace.reached)
    (hs : fileStatus progress index = .completed) (hp : index ∉ progress.published) :
    progress.fileRows index = [.skipped] := by
  have hdone : (progress.view index).isDone = true := by
    rw [fileStatus_eq] at hs
    split at hs
    next hd => exact hd
    next => split at hs <;> [cases hs; split at hs <;> cases hs]
  have hpublished : (progress.view index).isPublished = false :=
    Bool.eq_false_iff.mpr fun hc => hp (List.contains_iff_mem.mp hc)
  exact (h.reached index hi).2.resumed_rows hdone hpublished

theorem Concluded.exit (h : Concluded cfg trace progress result)
    (hcode : (aggregate cfg progress (errorOf result)).2 = 0) :
    (report cfg progress result).complete = true ∧ (report cfg progress result).failed = 0 ∧
      (report cfg progress result).pending = 0 ∧
      (report cfg progress result).directoryFailures = [] := by
  obtain rfl := exit_ok hcode
  have hstatuses := h.statuses rfl
  refine ⟨rfl, ?_, ?_, (h.ok rfl).1⟩
  · rw [failed_eq, List.countP_eq_zero]
    intro index hi
    rcases hstatuses index (List.mem_range.mp hi) with hs | hs <;> rw [hs] <;> decide
  · rw [pending_eq, pending_files, List.countP_eq_zero]
    intro index hi
    rcases hstatuses index (List.mem_range.mp hi) with hs | hs <;> rw [hs] <;> decide

theorem Concluded.accounted (h : Concluded cfg trace progress result) :
    Accounted cfg trace progress result where
  total := total_eq
  sum := pending_eq cfg progress result ▸ counts_sum cfg progress result
  pending := pending_eq cfg progress result
  skipped := h.skipped_le
  once := fun index hi => (h.final index hi).rows_length
  started := fun index hi => (h.reached index (h.started index hi)).2.rows_length
  reached := fun index hi => (h.reached index hi).2.rows_length
  resumedRow := fun _ hi hs hp => h.resumedRow hi hs hp
  skippedRow := fun _ hi hs => h.skippedRow hi hs
  failedRow := fun _ hi hs => h.failedRow hi hs
  succeeded := fun index hi => (h.final index hi).succeeded.trans List.contains_iff_mem
  exit := h.exit

theorem share_download_accounted (cfg : Config) {progress : Progress} {trace : Trace}
    {result : Except CliError Unit} {isInterrupted : Bool}
    (h : Reaches cfg (.start cfg) (.ended progress trace result isInterrupted)) (finish : Finish) :
    Accounted cfg trace (finalizeExecution cfg finish progress result).1
      (finalizeExecution cfg finish progress result).2 :=
  (finalize_concluded (start_reaches h) finish).accounted

section Example

def sampleFinish : Finish := ⟨fun _ => .ok (), .ok ()⟩

-- The first file is resumed, the issuance of the second fails without an answer, the third ends.
def resumedEvents : List Event :=
  [.loaded (samplePlan [some Share.sampleDigest, none, none]) (.ok ()), .checked,
    .verified (.ok ()), .verified (.ok ()), .verified (.ok ()), .opened accepted,
    .loop (.schedule accepting), .loop (.schedule accepting), .loop (.schedule accepting),
    .loop (.poll 0 (.session (.ok ())) accepting), .loop (.poll 1 (.session (.ok ())) accepting),
    .loop (.poll 0 (.issued (.error .other)) accepting),
    .loop (.poll 0 (.issued (.ok "u".toList)) accepting), .loop (.poll 0 .request accepting),
    .loop (.poll 0 (.fetched (.ok [])) accepting), .returned]

theorem resumed_run_accounted : ∃ progress trace result,
    Reaches (sampleConfig true) (.start (sampleConfig true)) (.ended progress trace result false) ∧
    trace.reached = [0, 1, 2] ∧ trace.started = [1, 2] ∧
    fileStatus (finalizeExecution (sampleConfig true) sampleFinish progress result).1 0 = .completed ∧
    0 ∉ (finalizeExecution (sampleConfig true) sampleFinish progress result).1.published ∧
    Accounted (sampleConfig true) trace
      (finalizeExecution (sampleConfig true) sampleFinish progress result).1
      (finalizeExecution (sampleConfig true) sampleFinish progress result).2 := by
  have hreaches := play_reaches (sampleConfig true) (.start (sampleConfig true)) resumedEvents
  exact ⟨_, _, _, hreaches, rfl, rfl, rfl, by decide,
    share_download_accounted (sampleConfig true) hreaches sampleFinish⟩

-- The completed local file changed between the runs: the verification ends the resumed run.
def conflictEvents : List Event :=
  [.loaded (samplePlan [some Share.sampleDigest, none, none]) (.ok ()), .checked,
    .verified (.error (.conflict "completed local file changed since checkpoint"))]

theorem resumed_conflict_unreported : ¬ ∀ (cfg : Config) (progress : Progress) (trace : Trace)
    (result : Except CliError Unit) (isInterrupted : Bool) (finish : Finish),
    Reaches cfg (.start cfg) (.ended progress trace result isInterrupted) →
    ∀ index < fileCount (finalizeExecution cfg finish progress result).1,
      fileStatus (finalizeExecution cfg finish progress result).1 index = .failed →
      ((finalizeExecution cfg finish progress result).1.fileRows index).length = 1 := by
  intro h
  have hreaches := play_reaches (sampleConfig true) (.start (sampleConfig true))
    conflictEvents
  have hrows := h (sampleConfig true) _ _ _ false sampleFinish hreaches 0 (by decide) (by decide)
  exact absurd hrows (by decide)

end Example

end VeStorage.ADrive.ShareDownload
