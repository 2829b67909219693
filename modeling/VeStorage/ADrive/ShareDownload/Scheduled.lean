import VeStorage.ADrive.Share.CrashSafe
import VeStorage.ADrive.ShareDownload.Reach

namespace VeStorage.ADrive.ShareDownload
open Lib
open Share (Journal Entry CliError)

-- An unknown outcome, a lost row or an unsaved completion.
def Run.Halted (run : Run) : Prop :=
  (∃ outcome ∈ run.trace.outcomes, outcome.isUnknown = true) ∨ run.progress.Lossy

structure Scheduled (cfg : Config) (run : Run) : Prop where
  started : run.trace.started.Nodup
  planned : ∀ index ∈ run.trace.started, index < fileCount run.progress
  issued : run.trace.issued.Nodup
  issued_started : ∀ index ∈ run.trace.issued, index ∈ run.trace.started
  urls : (run.trace.urls.map Prod.fst).Nodup
  requests : ∀ request ∈ run.trace.requests, request ∈ run.trace.urls
  halted : run.Halted → ∀ later, Reaches cfg run later → later.trace.started = run.trace.started
  accounted : ∀ progress trace result, run = .ended progress trace result false →
    trace.started.Perm (trace.outcomes.map Outcome.index) ∧
      ∀ index ∈ trace.started, progress.isSettled index

variable {cfg : Config} {run run' : Run} {driver driver' : Driver} {answers : Answers}
  {event : LoopEvent} {position : Nat} {job : JobEvent}

theorem Driver.Inv.count_eq {failure : Option JobError} (h : driver.Inv failure) :
    driver.count = fileCount driver.progress := by
  obtain ⟨journal, hj, hfiles, -⟩ := h.files.shape.journal
  rw [fileCount_eq hj, hfiles]

theorem Driver.Inv.started_count {failure : Option JobError} (h : driver.Inv failure)
    {index : Nat} (hi : index ∈ driver.trace.started) : index < driver.count :=
  Nat.lt_of_lt_of_le (h.started_lt index hi) h.next_le

theorem track_started {failure : Option JobError} :
    (driver.track failure).trace = driver.trace := by
  cases failure with
  | none => rfl
  | some failure => cases failure <;> rfl

theorem track_stopped {failure : Option JobError} (hs : driver.isStopped = true) :
    (driver.track failure).isStopped = true := by
  cases failure with
  | none => exact hs
  | some failure =>
    cases failure with
    | file e => exact hs
    | tracking e => rfl

variable (cfg answers) in
theorem Driver.accept_stopped (driver : Driver) (outcome : Outcome) (hs : driver.isStopped = true) :
    (driver.accept cfg answers outcome).isStopped = true ∧
      (driver.accept cfg answers outcome).trace.started = driver.trace.started := by
  rw [Driver.accept_eq, Driver.stopOnUnknown_eq]
  refine ⟨track_stopped (Bool.or_eq_true_iff.mpr (.inl hs)), ?_⟩
  rw [track_started]

-- A stopped driver starts nothing.
theorem Driver.step_stopped (hs : driver.isStopped = true)
    (h : driver.step cfg event = some driver') :
    driver'.isStopped = true ∧ driver'.trace.started = driver.trace.started := by
  have hnot : driver.canSchedule cfg = false := by
    rw [Bool.eq_false_iff]
    exact fun hcan => absurd ((Driver.canSchedule_iff.mp hcan).2.2.2.symm.trans hs) nofun
  cases event with
  | schedule answers =>
    rw [Driver.step, hnot, if_neg Bool.false_ne_true] at h
    cases h
  | poll position job answers =>
    rw [Driver.step] at h
    split at h
    next =>
      obtain ⟨before, index, phase, after, state, state', -, -, hnext⟩ := Driver.poll_cases h
      rcases hnext with ⟨phase', -, rfl⟩ | ⟨outcome, -, rfl⟩
      · exact ⟨hs, note_started⟩
      · obtain ⟨hstopped, hstarted⟩ := Driver.accept_stopped cfg answers { driver with
            progress := driver.progress.setState index state'
            trace := driver.trace.note index phase job
            pending := before ++ after } outcome hs
        exact ⟨hstopped, hstarted.trans note_started⟩
    next => cases h

-- Nothing is started any more: the driver has stopped, or the run has left it.
def Run.Stopped : Run → Prop
  | .transfer driver => driver.isStopped = true
  | .ended _ _ _ _ => True
  | _ => False

theorem finishTransfer_trace {result : Except CliError Unit} :
    (finishTransfer driver result).trace = driver.trace ∧
      (finishTransfer driver result).Stopped := by
  rw [finishTransfer.eq_def]
  split
  · exact ⟨rfl, trivial⟩
  · split <;> exact ⟨rfl, trivial⟩

theorem interrupt_trace {progress : Progress} {trace : Trace} {signal : Except CliError Unit} :
    (interrupt progress trace signal).trace = trace ∧
      (interrupt progress trace signal).Stopped := by
  cases signal <;> exact ⟨rfl, trivial⟩

theorem Run.Stopped.step {event : Event} (h : run.Stopped) (hs : run.step cfg event = some run') :
    run'.Stopped ∧ run'.trace.started = run.trace.started := by
  cases run with
  | transfer driver =>
    cases event with
    | loop event =>
      obtain ⟨driver', hstep, rfl⟩ := Option.map_eq_some_iff.mp hs
      exact Driver.step_stopped h hstep
    | returned =>
      obtain ⟨result, -, rfl⟩ := Option.map_eq_some_iff.mp hs
      exact ⟨finishTransfer_trace.2, congrArg Trace.started finishTransfer_trace.1⟩
    | interrupted signal =>
      rw [Run.step] at hs
      split at hs
      next =>
        obtain rfl := Option.some.inj hs
        exact ⟨interrupt_trace.2, congrArg Trace.started interrupt_trace.1⟩
      next => cases hs
    | scanFailed | loaded | directory | checked | verified | opened => cases hs
  | ended progress trace result isInterrupted => cases hs
  | scan | preflight | resuming | saving => cases h

theorem Run.Stopped.reaches (h : run.Stopped) (hs : Reaches cfg run run') :
    run'.Stopped ∧ run'.trace.started = run.trace.started := by
  induction hs with
  | refl => exact ⟨h, rfl⟩
  | tail _ hstep ih =>
    obtain ⟨event, hevent⟩ := hstep
    obtain ⟨hstopped, hstarted⟩ := ih.1.step hevent
    exact ⟨hstopped, hstarted.trans ih.2⟩

theorem Driver.Inv.stopped_of_halted (h : driver.Inv none)
    (hh : (Run.transfer driver).Halted) : driver.isStopped = true := by
  rcases hh with ⟨outcome, ho, hu⟩ | hl
  · exact h.unknown outcome ho hu
  · exact (h.lossy hl).resolve_right fun ⟨_, he⟩ => nomatch he

theorem Waiting.not_lossy {progress : Progress} {verified : Nat} (h : Waiting cfg progress verified) :
    ¬ progress.Lossy := by
  rintro (⟨row, hrow, -⟩ | ⟨save, hsave, -⟩)
  · rw [h.unopened] at hrow
    cases hrow
  · rw [h.planned.saves] at hsave
    cases hsave

theorem not_halted_of_waiting {progress : Progress} {verified : Nat}
    (h : Waiting cfg progress verified) (ht : run.trace = .empty) (hp : run.progress = progress) :
    ¬ run.Halted := by
  rintro (⟨outcome, ho, -⟩ | hl)
  · rw [ht] at ho
    cases ho
  · exact h.not_lossy (hp ▸ hl)

theorem Run.Inv.stopped_of_halted (h : run.Inv cfg) (hh : run.Halted) : run.Stopped := by
  cases run with
  | scan progress =>
    obtain rfl : progress = .default cfg.isResume := h
    rcases hh with ⟨outcome, ho, -⟩ | ⟨row, hrow, -⟩ | ⟨save, hsave, -⟩
    · cases ho
    · cases hrow
    · cases hsave
  | preflight progress rest => exact absurd hh (not_halted_of_waiting h.1 rfl rfl)
  | resuming progress index => exact absurd hh (not_halted_of_waiting h.1 rfl rfl)
  | saving progress => exact absurd hh (not_halted_of_waiting h.1 rfl rfl)
  | transfer driver => exact Driver.Inv.stopped_of_halted h hh
  | ended progress trace result isInterrupted => trivial

theorem Run.Inv.sound (h : run.Inv cfg) : run.trace.Sound ∧
    ∀ index ∈ run.trace.started, index < fileCount run.progress := by
  have hempty : Trace.empty.Sound := ⟨.nil, .nil, nofun, .nil, nofun, nofun⟩
  have hdriver : ∀ driver : Driver, driver.Inv none → driver.trace.Sound ∧
      ∀ index ∈ driver.trace.started, index < fileCount driver.progress := fun driver hd =>
    ⟨hd.sound, fun index hi => hd.count_eq ▸ hd.started_count hi⟩
  cases run with
  | scan | preflight | resuming | saving => exact ⟨hempty, nofun⟩
  | transfer driver => exact hdriver driver h
  | ended progress trace result isInterrupted =>
    cases h with
    | unplanned | planned => exact ⟨hempty, nofun⟩
    | returned hd | interrupted e hd => exact hdriver _ hd

theorem returns_pending {result : Except CliError Unit} (h : driver.Inv none)
    (hr : driver.returns cfg = some result) : driver.canSchedule cfg = false ∧ driver.pending = [] := by
  rw [Driver.returns, h.aborted] at hr
  dsimp only at hr
  split at hr
  next hc =>
    rw [Bool.and_eq_true, Bool.not_eq_true', List.isEmpty_iff] at hc
    exact hc
  next => cases hr

theorem returned_accounted {result : Except CliError Unit} (h : driver.Inv none)
    (hr : driver.returns cfg = some result) :
    driver.trace.started.Perm (driver.trace.outcomes.map Outcome.index) ∧
      ∀ index ∈ driver.trace.started, driver.progress.isSettled index := by
  obtain ⟨-, hpending⟩ := returns_pending h hr
  have haccounted := h.accounted
  rw [hpending, List.map_nil, List.append_nil] at haccounted
  refine ⟨haccounted, fun index hi => ?_⟩
  have hlt := h.started_lt index hi
  refine h.files.pool.finished index (List.mem_range.mpr (h.started_count hi)) ?_
  rw [hpending, List.map_nil, List.append_nil]
  exact fun hmem => Nat.not_lt.mpr (List.mem_range'_1.mp hmem).1 hlt

theorem share_download_scheduled (cfg : Config) {run : Run} (h : Reaches cfg (.start cfg) run) :
    Scheduled cfg run := by
  have hinv := start_reaches h
  obtain ⟨hsound, hlt⟩ := hinv.sound
  refine ⟨hsound.started, hlt, hsound.issued, hsound.issued_started, hsound.urls, hsound.requests,
    fun hh later hl => ((hinv.stopped_of_halted hh).reaches hl).2, ?_⟩
  rintro progress trace result rfl
  cases hinv with
  | unplanned | planned => exact ⟨.nil, nofun⟩
  | returned hd hr => exact returned_accounted hd hr

variable (cfg run) in
theorem play_reaches (events : List Event) : Reaches cfg run (run.play cfg events) := by
  induction events generalizing run with
  | nil => exact .refl
  | cons event events ih =>
    rw [Run.play]
    cases hstep : run.step cfg event with
    | none => exact .refl
    | some next => exact (Relation.ReflTransGen.single ⟨event, hstep⟩).trans (ih next)

section Example

def sampleConfig (isResume : Bool) : Config where
  env := Share.sampleEnv
  batchConcurrency := 2
  message _ := "failed"
  exitCode _ := 8
  isValidUrl _ := true
  isResume := isResume
  hasCheckpoint := false
  concurrency_pos := by decide
  exitCode_pos _ := by decide

def sampleEntry (name : Text) : Entry := ⟨name, name, 1, "tag".toList, 0, 1⟩

def samplePlan (completed : List (Option Text)) : Journal where
  version := 1
  identity := Share.sampleIdentity
  manifest := {
    roots := []
    files := [sampleEntry "a".toList, sampleEntry "b".toList, sampleEntry "c".toList]
    directories := []
    remoteDirectories := []
    policy := .legacy
    sized := by decide }
  completed := completed

def accepting : Answers := ⟨.ok false, .ok (), .ok (), .ok ()⟩

def accepted : Opening := ⟨.ok (), .ok (), .ok (), fun _ => .ok ()⟩

-- The first issuance fails without an answer while the second file is under way.
def unknownEvents : List Event :=
  [.loaded (samplePlan [none, none, none]) (.ok ()), .checked, .opened accepted,
    .loop (.schedule accepting), .loop (.schedule accepting),
    .loop (.poll 0 (.session (.ok ())) accepting), .loop (.poll 1 (.session (.ok ())) accepting),
    .loop (.poll 0 (.issued (.error .other)) accepting),
    .loop (.poll 0 (.issued (.ok "u".toList)) accepting), .loop (.poll 0 .request accepting),
    .loop (.poll 0 .request accepting), .loop (.poll 0 (.fetched (.ok [])) accepting), .returned]

theorem unknown_issuance_scheduled :
    Scheduled (sampleConfig false) ((Run.start (sampleConfig false)).play (sampleConfig false)
      unknownEvents) ∧
    ((Run.start (sampleConfig false)).play (sampleConfig false) unknownEvents).trace.started =
      [0, 1] :=
  ⟨share_download_scheduled (sampleConfig false) (play_reaches _ _ unknownEvents), by decide⟩

end Example

end VeStorage.ADrive.ShareDownload
