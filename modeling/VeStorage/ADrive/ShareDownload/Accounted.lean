import VeStorage.ADrive.ShareDownload.Scheduled

namespace VeStorage.ADrive.ShareDownload
open Lib
open Share (Journal Entry CliError)

-- A file of a finished run: settled, or never reached by the driver.
inductive FileView.Final : FileView → Prop
  | settled {view : FileView} : FileView.Settled view → Final view
  | idle (state : Option Nat) (isDone : Bool) : (∀ s ∈ state, s = 0) →
      Final ⟨state, isDone, false, false, false, []⟩

variable {cfg : Config} {progress : Progress} {total index : Nat} {driver : Driver}

def FileView.isActive (view : FileView) : Bool :=
  view.state.any fun state => 1 ≤ state && state ≤ 4

theorem FileView.Final.inactive {view : FileView} (h : view.Final) : view.isActive = false := by
  cases h with
  | settled h => cases h <;> rfl
  | idle state isDone hs =>
    cases state with
    | none => rfl
    | some state =>
      obtain rfl := hs state rfl
      rfl

theorem FileView.isActive_running {state : Nat} (h : 1 ≤ state ∧ state ≤ 4) :
    (FileView.running state).isActive = true := by
  simpa [FileView.isActive, FileView.running] using h

theorem Phase.state_bounds (phase : Phase) : 1 ≤ phase.state ∧ phase.state ≤ 4 := by
  cases phase <;> simp [Phase.state]

theorem mem_incomplete (hp : progress.states.length = total) :
    index ∈ incomplete progress ↔ index < total ∧ (progress.view index).isActive = true := by
  rw [incomplete, List.mem_filter, List.mem_range, hp]
  exact Iff.rfl

theorem Files.active_pending {waiting : List Nat} {pending : List (Nat × Phase)}
    (h : Files progress total waiting pending) (hi : index < total)
    (ha : (progress.view index).isActive = true) :
    ∃ state, progress.view index = .running state := by
  by_cases hw : index ∈ waiting
  · obtain ⟨isDone, hv⟩ := h.untouched index hw
    rw [hv] at ha
    cases ha
  · by_cases hp : index ∈ pending.map Prod.fst
    · obtain ⟨job, hj, rfl⟩ := List.mem_map.mp hp
      exact ⟨_, h.running job hj⟩
    · have hsettled := h.pool.finished index (List.mem_range.mpr hi) (by simp [hw, hp])
      rw [(FileView.Final.settled hsettled).inactive] at ha
      cases ha

theorem Files.inactive_settled {waiting : List Nat} {pending : List (Nat × Phase)}
    (h : Files progress total waiting pending) (hi : index < total) (hw : index ∉ waiting)
    (ha : (progress.view index).isActive = false) : FileView.Settled (progress.view index) := by
  refine h.pool.finished index (List.mem_range.mpr hi) fun hmem => ?_
  obtain ⟨job, hj, rfl⟩ := List.mem_map.mp ((List.mem_append.mp hmem).resolve_left hw)
  rw [h.running job hj, FileView.isActive_running job.2.state_bounds] at ha
  cases ha

theorem Files.inactive_final {waiting : List Nat} {pending : List (Nat × Phase)}
    (h : Files progress total waiting pending) (hi : index < total)
    (ha : (progress.view index).isActive = false) : (progress.view index).Final := by
  by_cases hw : index ∈ waiting
  · obtain ⟨isDone, hv⟩ := h.untouched index hw
    rw [hv]
    exact .idle (some 0) isDone fun s hs => (Option.some.inj hs).symm
  · exact .settled (h.inactive_settled hi hw ha)

theorem record_frame (answer : Except CliError Unit) (progress : Progress) (index : Nat)
    (status : RowStatus) (error : Option String) :
    (record answer progress index status error).1 =
      { progress with rows := (record answer progress index status error).1.rows } := by
  rw [record]
  split <;> rfl

theorem failFile_frame (cfg : Config) (answer : Except CliError Unit) (progress : Progress)
    (index : Nat) (error : CliError) :
    (failFile cfg answer progress index error).1.journal = progress.journal ∧
      (failFile cfg answer progress index error).1.directoryFailures = progress.directoryFailures ∧
      (failFile cfg answer progress index error).1.published = progress.published := by
  have hframe := record_frame answer
    ((progress.addFailure index ⟨cfg.message error⟩).setState index 5) index .failed
    (some (cfg.message error))
  rw [failFile]
  generalize record answer _ index .failed _ = recorded at hframe
  obtain ⟨q, result⟩ := recorded
  dsimp only at hframe ⊢
  cases result <;> (dsimp only; rw [hframe]; exact ⟨rfl, rfl, rfl⟩)

-- `finalize` fails every file that was under way and touches no other.
structure Failed (indices : List Nat) (total : Nat) (p q : Progress) : Prop where
  shape : q.Shape total
  failed : ∀ index ∈ indices, q.view index = .failed
  others : ∀ index ∉ indices, q.view index = p.view index
  credit : q.skipped = q.credits total
  journal : q.journal = p.journal
  directories : q.directoryFailures = p.directoryFailures

variable (cfg) in
theorem failIncomplete_failed (rowAnswer : Nat → Except CliError Unit) (message : String)
    (failure : Option CliError) (indices : List Nat) (hp : progress.Shape total)
    (hn : indices.Nodup)
    (hr : ∀ index ∈ indices, index < total ∧ ∃ state, progress.view index = .running state)
    (hc : progress.skipped = progress.credits total) :
    Failed indices total progress
      (failIncomplete cfg rowAnswer message progress failure indices).1 := by
  induction indices generalizing progress failure with
  | nil => exact ⟨hp, nofun, fun _ _ => rfl, hc, rfl, rfl⟩
  | cons index rest ih =>
    obtain ⟨hindex, hn⟩ := List.nodup_cons.mp hn
    obtain ⟨hlt, state, hv⟩ := hr index List.mem_cons_self
    have hs := failFile_settles cfg (.transferFailed message) (rowAnswer index) hp hlt hv
    obtain ⟨hjournal, hdirectories, -⟩ := failFile_frame cfg (rowAnswer index) progress index
      (.transferFailed message)
    have hcredit : (failFile cfg (rowAnswer index) progress index (.transferFailed message)).1.skipped =
        (failFile cfg (rowAnswer index) progress index (.transferFailed message)).1.credits total := by
      have hcredits := Files.credits_update hlt hs.others
      have hskipped := hs.credit
      rw [hs.seen] at hcredits
      omega
    have hrest : ∀ failure, Failed rest total
        (failFile cfg (rowAnswer index) progress index (.transferFailed message)).1
        (failIncomplete cfg rowAnswer message
          (failFile cfg (rowAnswer index) progress index (.transferFailed message)).1 failure
          rest).1 := fun failure => ih failure hs.shape hn (fun other ho => by
        obtain ⟨hother, hstate⟩ := hr other (List.mem_cons_of_mem _ ho)
        rw [hs.others other fun he => hindex (he ▸ ho)]
        exact ⟨hother, hstate⟩) hcredit
    have hwhole : ∀ failure, Failed (index :: rest) total progress (failIncomplete cfg rowAnswer
        message (failFile cfg (rowAnswer index) progress index (.transferFailed message)).1 failure
        rest).1 := by
      intro failure
      have h := hrest failure
      refine ⟨h.shape, fun other ho => ?_, fun other ho => ?_, h.credit, h.journal.trans hjournal,
        h.directories.trans hdirectories⟩
      · rcases List.mem_cons.mp ho with rfl | ho
        · rw [h.others other hindex, hs.seen]
        · exact h.failed other ho
      · rw [List.mem_cons, not_or] at ho
        rw [h.others other ho.2, hs.others other ho.1]
    rw [failIncomplete]
    generalize failFile cfg (rowAnswer index) progress index (.transferFailed message) = failed at hwhole
    obtain ⟨q, failure'⟩ := failed
    cases failure' with
    | file e => exact hwhole failure
    | tracking e => exact hwhole (some e)

theorem finalize_progress {finish : Finish} {error : Option CliError} :
    (finalize cfg finish progress error).1 = (failIncomplete cfg finish.rowAnswer
      ((error.map cfg.message).getD interruption) progress none (incomplete progress)).1 := by
  rw [finalize]
  generalize failIncomplete cfg finish.rowAnswer _ progress none (incomplete progress) = failed
  obtain ⟨q, failure⟩ := failed
  dsimp only
  split <;> rfl

variable (cfg progress) in
theorem finalizeExecution_progress (finish : Finish) (result : Except CliError Unit) :
    (finalizeExecution cfg finish progress result).1 =
      (failIncomplete cfg finish.rowAnswer (((errorOf result).map cfg.message).getD interruption)
        (markIssuing progress) none (incomplete progress)).1 := by
  have hincomplete : incomplete (markIssuing progress) = incomplete progress := rfl
  rw [← hincomplete, ← finalize_progress, finalizeExecution]
  generalize finalize cfg finish (markIssuing progress) (errorOf result) = finalized
  obtain ⟨q, final⟩ := finalized
  cases final <;> rfl

theorem finalizeExecution_ok {finish : Finish} {result : Except CliError Unit}
    (h : (finalizeExecution cfg finish progress result).2 = .ok ()) : result = .ok () := by
  rw [finalizeExecution] at h
  split at h
  · exact h
  · cases h

structure Concluded (cfg : Config) (trace : Trace) (progress : Progress)
    (result : Except CliError Unit) : Prop where
  balanced : progress.Balanced
  final : ∀ index < fileCount progress, (progress.view index).Final
  reached : ∀ index ∈ trace.reached,
    index < fileCount progress ∧ FileView.Settled (progress.view index)
  started : ∀ index ∈ trace.started, index ∈ trace.reached
  active : ∀ index, progress.active = some index → progress.rows = none ∧ cfg.isResume = true
  ok : result = .ok () → progress.directoryFailures = [] ∧ progress.active = none ∧
    ∀ index < fileCount progress, FileView.Settled (progress.view index) ∧
      (progress.view index).isFailed = false

theorem incomplete_nil (h : progress.states = []) : incomplete progress = [] := by
  rw [incomplete, h]
  rfl

theorem planned_concluded {verified : Nat} {finish : Finish} {e : CliError}
    (h : Planned cfg progress verified) (hb : progress.Balanced)
    (ha : ∀ index, progress.active = some index → progress.rows = none ∧ cfg.isResume = true) :
    Concluded cfg .empty (finalizeExecution cfg finish progress (.error e)).1
      (finalizeExecution cfg finish progress (.error e)).2 := by
  have hprogress := finalizeExecution_progress cfg progress finish (.error e)
  rw [incomplete_nil h.states] at hprogress
  rw [hprogress]
  refine ⟨hb, fun index hi => ?_, nofun, nofun, ha, fun hok => nomatch finalizeExecution_ok hok⟩
  have hview : (markIssuing progress).view index = progress.view index := rfl
  rw [failIncomplete, hview, h.view]
  exact .idle none _ nofun

theorem ended_settled (h : driver.Inv none) (herror : driver.error = none) (hnext : driver.next = driver.count)
    (hpending : driver.pending = []) (hi : index < driver.count) :
    index ∉ incomplete driver.progress ∧ FileView.Settled (driver.progress.view index) ∧
      (driver.progress.view index).isFailed = false := by
  have hsettled : FileView.Settled (driver.progress.view index) := by
    refine h.files.pool.finished index (List.mem_range.mpr hi) ?_
    rw [hnext, hpending]
    simp
  refine ⟨fun hmem => ?_, hsettled, Bool.eq_false_iff.mpr fun hf => ?_⟩
  · obtain ⟨-, ha⟩ := (mem_incomplete h.files.shape.states).mp hmem
    rw [(FileView.Final.settled hsettled).inactive] at ha
    cases ha
  · have herr := (h.failed index hi hf).resolve_right (by simp)
    rw [herror] at herr
    cases herr

theorem driver_concluded {finish : Finish} {result : Except CliError Unit} (h : driver.Inv none)
    (hok : result = .ok () → driver.error = none ∧ driver.next = driver.count ∧
      driver.pending = [] ∧ driver.progress.directoryFailures = []) :
    Concluded cfg driver.trace (finalizeExecution cfg finish driver.progress result).1
      (finalizeExecution cfg finish driver.progress result).2 := by
  have hprogress := finalizeExecution_progress cfg driver.progress finish result
  have hshape : (markIssuing driver.progress).Shape driver.count :=
    ⟨h.files.shape.journal, h.files.shape.states, h.files.shape.verified, h.files.shape.rows,
      h.files.shape.active⟩
  have hactive : ∀ index ∈ incomplete driver.progress, index < driver.count ∧
      ∃ state, (markIssuing driver.progress).view index = .running state := by
    intro index hi
    obtain ⟨hlt, ha⟩ := (mem_incomplete h.files.shape.states).mp hi
    exact ⟨hlt, h.files.active_pending hlt ha⟩
  have hfailed := failIncomplete_failed cfg finish.rowAnswer
    (((errorOf result).map cfg.message).getD interruption) none (incomplete driver.progress) hshape
    (List.nodup_range.filter _) hactive h.files.credit
  rw [← hprogress] at hfailed
  have hcount : fileCount (finalizeExecution cfg finish driver.progress result).1 = driver.count := by
    rw [h.count_eq, fileCount, hfailed.journal]
    rfl
  refine ⟨?_, ?_, ?_, fun index hi => ?_, ?_, ?_⟩
  · rw [Progress.Balanced, hcount]
    exact hfailed.credit
  · intro index hi
    rw [hcount] at hi
    by_cases hmem : index ∈ incomplete driver.progress
    · rw [hfailed.failed index hmem]
      exact .settled .failed
    · rw [hfailed.others index hmem]
      refine h.files.inactive_final hi (Bool.eq_false_iff.mpr fun ha => hmem ?_)
      exact (mem_incomplete h.files.shape.states).mpr ⟨hi, ha⟩
  · intro index hi
    rw [h.reached, List.mem_range] at hi
    have hlt := Nat.lt_of_lt_of_le hi h.next_le
    refine ⟨hcount.symm ▸ hlt, ?_⟩
    by_cases hmem : index ∈ incomplete driver.progress
    · rw [hfailed.failed index hmem]
      exact .failed
    · rw [hfailed.others index hmem]
      refine h.files.inactive_settled hlt ?_ (Bool.eq_false_iff.mpr fun ha => hmem ?_)
      · exact fun hw => Nat.not_lt.mpr (List.mem_range'_1.mp hw).1 hi
      · exact (mem_incomplete h.files.shape.states).mpr ⟨hlt, ha⟩
  · rw [h.reached]
    exact List.mem_range.mpr (h.started_lt index hi)
  · intro index hi
    exact absurd (hfailed.shape.active.symm.trans hi) (by simp)
  · intro hresult
    obtain ⟨herror, hnext, hpending, hdirectories⟩ := hok (finalizeExecution_ok hresult)
    refine ⟨hfailed.directories.trans hdirectories, hfailed.shape.active, fun index hi => ?_⟩
    obtain ⟨hmem, hsettled⟩ := ended_settled h herror hnext hpending (hcount ▸ hi)
    rw [hfailed.others index hmem]
    exact hsettled

theorem returned_ok {returned : Except CliError Unit} (h : driver.Inv none)
    (hr : driver.returns cfg = some returned) (hok : returned = .ok ()) :
    driver.error = none ∧ driver.next = driver.count ∧ driver.pending = [] := by
  obtain ⟨hcan, hpending⟩ := returns_pending h hr
  have herror : driver.error = none := by
    rw [Driver.returns, h.aborted, hcan, hpending, hok] at hr
    cases he : driver.error with
    | none => rfl
    | some e =>
      rw [he] at hr
      cases hr
  refine ⟨herror, Nat.le_antisymm h.next_le (Nat.not_lt.mp fun hlt => ?_), hpending⟩
  have hstopped : driver.isStopped = false := Bool.eq_false_iff.mpr fun hs => by
    have herr := (h.stopped hs).resolve_right (by simp)
    rw [herror] at herr
    cases herr
  have hschedule : driver.canSchedule cfg = true := Driver.canSchedule_iff.mpr
    ⟨h.aborted, hlt, hpending ▸ cfg.concurrency_pos, hstopped⟩
  exact absurd (hcan.symm.trans hschedule) (by simp)

theorem finalize_concluded {trace : Trace} {result : Except CliError Unit} {isInterrupted : Bool}
    (h : Ended cfg progress trace result isInterrupted) (finish : Finish) :
    Concluded cfg trace (finalizeExecution cfg finish progress result).1
      (finalizeExecution cfg finish progress result).2 := by
  cases h with
  | unplanned e =>
    have hprogress := finalizeExecution_progress cfg (.default cfg.isResume) finish (.error e)
    rw [hprogress]
    exact ⟨rfl, nofun, nofun, nofun, nofun, fun hok => nomatch finalizeExecution_ok hok⟩
  | planned e _ hp hb ha => exact planned_concluded hp hb ha
  | returned hd hr hok =>
    refine driver_concluded hd fun hresult => ?_
    obtain ⟨hreturned, hdirectories⟩ := hok hresult
    obtain ⟨herror, hnext, hpending⟩ := returned_ok hd hr hreturned
    exact ⟨herror, hnext, hpending, hdirectories⟩
  | interrupted e hd => exact driver_concluded hd nofun

end VeStorage.ADrive.ShareDownload
