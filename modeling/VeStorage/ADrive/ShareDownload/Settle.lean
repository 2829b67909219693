import VeStorage.ADrive.ShareDownload.Progress
import Mathlib.Data.List.Perm.Basic

namespace VeStorage.ADrive.ShareDownload
open Lib
open Share (Journal Entry CliError)

-- What the five records say of one file.
structure FileView where
  state : Option Nat
  isDone : Bool
  isSkipped : Bool
  isFailed : Bool
  isPublished : Bool
  rows : List RowStatus
deriving DecidableEq

namespace FileView

def untouched (isDone : Bool) : FileView := ⟨some 0, isDone, false, false, false, []⟩

def running (state : Nat) : FileView := ⟨some state, false, false, false, false, []⟩

def resumed : FileView := ⟨some 0, true, false, false, false, [.skipped]⟩

def skipped : FileView := ⟨some 7, false, true, false, false, [.skipped]⟩

def failed : FileView := ⟨some 5, false, false, true, false, [.failed]⟩

def published : FileView := ⟨some 6, true, false, false, true, [.succeeded]⟩

inductive Settled : FileView → Prop
  | resumed : Settled resumed
  | skipped : Settled skipped
  | failed : Settled failed
  | published : Settled published

def credited (view : FileView) : Bool := view.isDone && !view.isPublished || view.isSkipped

end FileView

namespace Progress

def fileRows (progress : Progress) (index : Nat) : List RowStatus :=
  (progress.rows.getD []).filterMap fun row =>
    if row.source = .file index then some row.status else none

def view (progress : Progress) (index : Nat) : FileView where
  state := progress.states[index]?
  isDone := (progress.reported index).isSome
  isSkipped := progress.skippedFiles.contains index
  isFailed := (progress.failures index).isSome
  isPublished := progress.published.contains index
  rows := progress.fileRows index

-- A row that was not written, or a completion that was not saved.
def Lossy (progress : Progress) : Prop :=
  (∃ row ∈ progress.rows.getD [], row.isWritten = false) ∨ ∃ save ∈ progress.saves, save.2 = false

structure Shape (total : Nat) (progress : Progress) : Prop where
  journal : ∃ journal, progress.journal = some journal ∧
    journal.manifest.files.length = total ∧ journal.completed.length = total
  states : progress.states.length = total
  verified : ∀ index < total, progress.verified[index]? = some true
  rows : progress.rows.isSome = true
  active : progress.active = none

end Progress

section Records

variable {progress : Progress} {total index other : Nat} {row : Row} {failure : FileFailure}
  {status : RowStatus} {error : Option String} {answer : Except CliError Unit} {digest : Text}

theorem Progress.Shape.entry (hp : progress.Shape total) (hi : index < total) :
    ∃ file, entry progress index = .ok file := by
  obtain ⟨journal, hj, hfiles, -⟩ := hp.journal
  have hget := List.getElem?_eq_getElem (l := journal.manifest.files) (hfiles.symm ▸ hi)
  refine ⟨journal.manifest.files[index], ?_⟩
  rw [ShareDownload.entry, hj, Option.bind_some, hget]

theorem Progress.Shape.reported (hp : progress.Shape total) (hi : index < total) :
    progress.reported index = progress.digest index := by
  rw [Progress.reported, hp.verified index hi]
  cases progress.digest index <;> simp

theorem record_open (hp : progress.Shape total) (hi : index < total) :
    record answer progress index status error =
      (progress.addRow ⟨.file index, status, error, isOk answer⟩, answer) := by
  obtain ⟨file, hf⟩ := hp.entry hi
  obtain ⟨rows, hr⟩ := Option.isSome_iff_exists.mp hp.rows
  rw [record, hf, hr]

theorem view_addRow : (progress.addRow row).view other = { progress.view other with
    rows := (progress.addRow row).fileRows other } := rfl

theorem fileRows_addRow_self (hp : progress.rows.isSome = true) (hr : row.source = .file index) :
    (progress.addRow row).fileRows index = progress.fileRows index ++ [row.status] := by
  obtain ⟨rows, hrows⟩ := Option.isSome_iff_exists.mp hp
  simp [Progress.fileRows, Progress.addRow, hrows, hr]

theorem fileRows_addRow_other (hr : row.source ≠ .file other) :
    (progress.addRow row).fileRows other = progress.fileRows other := by
  cases hrows : progress.rows with
  | none => simp [Progress.fileRows, Progress.addRow, hrows]
  | some rows => simp [Progress.fileRows, Progress.addRow, hrows, hr]

theorem lossy_addRow (hp : progress.rows.isSome = true) :
    (progress.addRow row).Lossy ↔ progress.Lossy ∨ row.isWritten = false := by
  obtain ⟨rows, hrows⟩ := Option.isSome_iff_exists.mp hp
  simp only [Progress.Lossy, Progress.addRow, hrows, Option.map_some, Option.getD_some,
    List.mem_append, List.mem_singleton, or_and_right, exists_or, exists_eq_left]
  exact or_right_comm

theorem Progress.Shape.addRow (hp : progress.Shape total) : (progress.addRow row).Shape total where
  journal := hp.journal
  states := hp.states
  verified := hp.verified
  rows := by
    rw [Progress.addRow, Option.isSome_map]
    exact hp.rows
  active := hp.active

end Records

def failureOf {α : Type} : Except JobError α → Option JobError
  | .ok _ => none
  | .error failure => some failure

-- One call on one file: nothing else changes, and what is lost is raised.
structure Settles (total index : Nat) (p q : Progress) (view : FileView)
    (failure : Option JobError) : Prop where
  shape : q.Shape total
  seen : q.view index = view
  others : ∀ other ≠ index, q.view other = p.view other
  lossy : q.Lossy → p.Lossy ∨ ∃ e, failure = some (.tracking e)
  failed : view.isFailed = true → failure.isSome = true
  credit : q.skipped + (p.view index).credited.toNat = p.skipped + view.credited.toNat

section Settle

variable {cfg : Config} {progress : Progress} {total index : Nat} {state : Nat} {error : CliError}
  {answer : Except CliError Unit} {answers : Answers} {digest : Text} {isDone : Bool}

theorem isOk_eq_false {α : Type} {answer : Except CliError α} (h : isOk answer = false) :
    ∃ e, answer = .error e := by
  cases answer with
  | ok a => cases h
  | error e => exact ⟨e, rfl⟩

-- A local change of one file, and then its row.
theorem record_settles {changed : Progress} {view : FileView} {status : RowStatus}
    {text : Option String} {failure : Option JobError}
    (hi : index < total) (hs : changed.Shape total)
    (hseen : { changed.view index with rows := (changed.view index).rows ++ [status] } = view)
    (hothers : ∀ other ≠ index, changed.view other = progress.view other)
    (hlossy : changed.Lossy → progress.Lossy ∨ ∃ e, failure = some (.tracking e))
    (hanswer : ∀ e, answer = .error e → ∃ e, failure = some (.tracking e))
    (hfailed : view.isFailed = true → failure.isSome = true)
    (hcredit : changed.skipped + (progress.view index).credited.toNat =
      progress.skipped + view.credited.toNat) :
    Settles total index progress (record answer changed index status text).1 view failure := by
  rw [record_open hs hi]
  refine ⟨hs.addRow, ?_, ?_, ?_, hfailed, hcredit⟩
  · rw [view_addRow, fileRows_addRow_self hs.rows rfl]
    exact hseen
  · intro other hother
    rw [view_addRow, fileRows_addRow_other fun h => hother (RowSource.file.inj h).symm]
    exact hothers other hother
  · intro h
    rcases (lossy_addRow hs.rows).mp h with h | h
    · exact hlossy h
    · obtain ⟨e, he⟩ := isOk_eq_false h
      exact .inr (hanswer e he)

theorem view_setState_self {value : Nat} (hp : progress.Shape total) (hi : index < total) :
    (progress.setState index value).view index =
      { progress.view index with state := some value } := by
  have hget : (progress.setState index value).states[index]? = some value :=
    List.getElem?_set_self (hp.states.symm ▸ hi)
  rw [Progress.view, hget]
  rfl

theorem view_setState_other {value other : Nat} (h : other ≠ index) :
    (progress.setState index value).view other = progress.view other := by
  have hget : (progress.setState index value).states[other]? = progress.states[other]? :=
    List.getElem?_set_ne h.symm
  rw [Progress.view, hget]
  rfl

theorem Progress.Shape.setState {value : Nat} (hp : progress.Shape total) :
    (progress.setState index value).Shape total where
  journal := hp.journal
  states := by
    rw [Progress.setState, List.length_set]
    exact hp.states
  verified := hp.verified
  rows := hp.rows
  active := hp.active

theorem Progress.Shape.addFailure {failure : FileFailure} (hp : progress.Shape total) :
    (progress.addFailure index failure).Shape total :=
  ⟨hp.journal, hp.states, hp.verified, hp.rows, hp.active⟩

theorem Progress.Shape.addSkipped (hp : progress.Shape total) :
    (progress.addSkipped index).Shape total :=
  ⟨hp.journal, hp.states, hp.verified, hp.rows, hp.active⟩

theorem view_addFailure_self {failure : FileFailure} :
    (progress.addFailure index failure).view index =
      { progress.view index with isFailed := true } := by
  have hget : (progress.addFailure index failure).failures index = some failure :=
    Function.update_self ..
  rw [Progress.view, hget]
  rfl

theorem view_addFailure_other {failure : FileFailure} {other : Nat} (h : other ≠ index) :
    (progress.addFailure index failure).view other = progress.view other := by
  have hget : (progress.addFailure index failure).failures other = progress.failures other :=
    Function.update_of_ne h ..
  rw [Progress.view, hget]
  rfl

theorem view_addSkipped_self :
    (progress.addSkipped index).view index = { progress.view index with isSkipped := true } := by
  have hmem : (progress.addSkipped index).skippedFiles.contains index = true := by
    simp [Progress.addSkipped]
  rw [Progress.view, hmem]
  rfl

theorem view_addSkipped_other {other : Nat} (h : other ≠ index) :
    (progress.addSkipped index).view other = progress.view other := by
  have hmem : (progress.addSkipped index).skippedFiles.contains other =
      progress.skippedFiles.contains other := by
    rw [Bool.eq_iff_iff]
    simp [Progress.addSkipped, List.mem_insert_iff, h]
  rw [Progress.view, hmem]
  rfl

theorem failFile_eq (hp : progress.Shape total) (hi : index < total) :
    failFile cfg answer progress index error =
      ((record answer ((progress.addFailure index ⟨cfg.message error⟩).setState index 5) index
        .failed (some (cfg.message error))).1,
        match answer with
        | .ok () => .file error
        | .error e => .tracking e) := by
  rw [failFile, record_open hp.addFailure.setState hi]
  cases answer <;> rfl

variable (cfg answer error) in
theorem failFile_settles (hp : progress.Shape total) (hi : index < total)
    (hv : progress.view index = .running state) :
    Settles total index progress (failFile cfg answer progress index error).1 .failed
      (some (failFile cfg answer progress index error).2) := by
  rw [failFile_eq hp hi]
  refine record_settles hi hp.addFailure.setState ?_ ?_ .inl ?_ (fun _ => rfl) ?_
  · rw [view_setState_self hp.addFailure hi, view_addFailure_self, hv]
    rfl
  · intro other hother
    rw [view_setState_other hother, view_addFailure_other hother]
  · rintro e rfl
    exact ⟨e, rfl⟩
  · rw [hv]
    rfl

variable (answer) in
theorem markSkipped_settles (hp : progress.Shape total) (hi : index < total)
    (hv : progress.view index = .running state) :
    Settles total index progress (markSkipped answer progress index).1 .skipped
      (failureOf (tracked (markSkipped answer progress index).2)) := by
  refine record_settles hi hp.addSkipped.setState ?_ ?_ .inl ?_ nofun ?_
  · rw [view_setState_self hp.addSkipped hi, view_addSkipped_self, hv]
    rfl
  · intro other hother
    rw [view_setState_other hother, view_addSkipped_other hother]
  · rintro e rfl
    rw [markSkipped, record_open hp.addSkipped.setState hi]
    exact ⟨e, rfl⟩
  · rw [hv]
    rfl

theorem Progress.Shape.complete (hp : progress.Shape total) :
    (progress.complete index digest).Shape total where
  journal := by
    obtain ⟨journal, hj, hfiles, hcompleted⟩ := hp.journal
    refine ⟨{ journal with completed := journal.completed.set index (some digest) }, ?_, hfiles, ?_⟩
    · rw [Progress.complete, hj]
      rfl
    · rw [List.length_set]
      exact hcompleted
  states := by
    rw [Progress.complete, List.length_set]
    exact hp.states
  verified := by
    intro other hother
    have hget := hp.verified other hother
    obtain ⟨hlt, -⟩ := List.getElem?_eq_some_iff.mp hget
    by_cases h : index = other
    · rw [Progress.complete, h, List.getElem?_set_self hlt]
    · rw [Progress.complete, List.getElem?_set_ne h]
      exact hget
  rows := hp.rows
  active := hp.active

theorem digest_complete_self (hp : progress.Shape total) (hi : index < total) :
    (progress.complete index digest).digest index = some digest := by
  obtain ⟨journal, hj, -, hcompleted⟩ := hp.journal
  rw [Progress.digest, Progress.complete, hj, Option.map_some, Option.bind_some,
    List.getElem?_set_self (hcompleted.symm ▸ hi)]
  rfl

theorem digest_complete_other {other : Nat} (h : other ≠ index) :
    (progress.complete index digest).digest other = progress.digest other := by
  cases hj : progress.journal with
  | none => rw [Progress.digest, Progress.digest, Progress.complete, hj]; rfl
  | some journal =>
    rw [Progress.digest, Progress.digest, Progress.complete, hj, Option.map_some, Option.bind_some,
      Option.bind_some, List.getElem?_set_ne h.symm]

theorem view_complete_self (hp : progress.Shape total) (hi : index < total) :
    (progress.complete index digest).view index =
      { progress.view index with state := some 6, isDone := true, isPublished := true } := by
  have hstate : (progress.complete index digest).states[index]? = some 6 :=
    List.getElem?_set_self (hp.states.symm ▸ hi)
  have hpublished : (progress.complete index digest).published.contains index = true := by
    simp [Progress.complete]
  rw [Progress.view, hstate, hpublished, hp.complete.reported hi, digest_complete_self hp hi]
  rfl

theorem reported_complete_other {other : Nat} (h : other ≠ index) :
    (progress.complete index digest).reported other = progress.reported other := by
  have hverified : (progress.complete index digest).verified[other]? = progress.verified[other]? :=
    List.getElem?_set_ne h.symm
  rw [Progress.reported, Progress.reported, hverified, digest_complete_other h]
  rfl

theorem view_complete_other {other : Nat} (h : other ≠ index) :
    (progress.complete index digest).view other = progress.view other := by
  have hstate : (progress.complete index digest).states[other]? = progress.states[other]? :=
    List.getElem?_set_ne h.symm
  have hpublished : (progress.complete index digest).published.contains other =
      progress.published.contains other := by
    rw [Bool.eq_iff_iff]
    simp [Progress.complete, h]
  rw [Progress.view, hstate, hpublished, reported_complete_other h]
  rfl

-- `save_completion_progress` changes none of the records of a file.
theorem save_view {other : Nat} :
    (saveCompletionProgress cfg answer progress index).1.view other = progress.view other := by
  rw [saveCompletionProgress]
  split <;> rfl

theorem save_shape (hp : progress.Shape total) :
    (saveCompletionProgress cfg answer progress index).1.Shape total := by
  rw [saveCompletionProgress]
  split
  · exact ⟨hp.journal, hp.states, hp.verified, hp.rows, hp.active⟩
  · exact hp

variable (cfg answer progress index) in
theorem save_frame : (saveCompletionProgress cfg answer progress index).1 =
    { progress with saves := (saveCompletionProgress cfg answer progress index).1.saves } := by
  rw [saveCompletionProgress]
  split <;> rfl

theorem save_lossy (h : (saveCompletionProgress cfg answer progress index).1.Lossy) :
    progress.Lossy ∨ ∃ e, (saveCompletionProgress cfg answer progress index).2 = .error e := by
  rw [saveCompletionProgress] at h ⊢
  split at h
  next hc =>
    rw [if_pos hc]
    rcases h with h | ⟨save, hsave, hlost⟩
    · exact .inl (.inl h)
    · rcases List.mem_append.mp hsave with hsave | hsave
      · exact .inl (.inr ⟨save, hsave, hlost⟩)
      · rw [List.mem_singleton.mp hsave] at hlost
        exact .inr (isOk_eq_false hlost)
  next hc => exact .inl h

variable (cfg answers digest) in
theorem publish_settles (hp : progress.Shape total) (hi : index < total)
    (hv : progress.view index = .running state) :
    Settles total index progress
      (record answers.row (saveCompletionProgress cfg answers.save
        (progress.complete index digest) index).1 index .succeeded none).1 .published
      (failureOf (tracked ((saveCompletionProgress cfg answers.save
        (progress.complete index digest) index).2.bind fun _ => answers.row))) := by
  have hframe := save_frame cfg (progress.complete index digest) index answers.save
  refine record_settles hi (save_shape hp.complete) ?_ ?_ ?_ ?_ nofun ?_
  · rw [save_view, view_complete_self hp hi, hv]
    rfl
  · intro other hother
    rw [save_view, view_complete_other hother]
  · intro h
    rcases save_lossy h with h | ⟨e, he⟩
    · exact .inl h
    · rw [he]
      exact .inr ⟨e, rfl⟩
  · rintro e he
    rw [he]
    cases (saveCompletionProgress cfg answers.save (progress.complete index digest) index).2 with
    | ok u => exact ⟨e, rfl⟩
    | error e' => exact ⟨e', rfl⟩
  · rw [hv, hframe]
    rfl

theorem finishFile_settles (hp : progress.Shape total) (hi : index < total)
    (hv : progress.view index = .running state) :
    ∃ view, FileView.Settled view ∧
      Settles total index progress (finishFile cfg answers progress index digest).1 view
        (failureOf (finishFile cfg answers progress index digest).2) := by
  obtain ⟨file, hf⟩ := hp.entry hi
  rw [finishFile, hf]
  dsimp only
  cases answers.shouldSkip with
  | error e => exact ⟨_, .failed, failFile_settles cfg _ _ hp hi hv⟩
  | ok shouldSkip =>
    cases shouldSkip with
    | true => exact ⟨_, .skipped, markSkipped_settles _ hp hi hv⟩
    | false =>
      cases answers.publish with
      | error e => exact ⟨_, .failed, failFile_settles cfg _ _ hp hi hv⟩
      | ok u =>
        refine ⟨_, .published, ?_⟩
        have hs := publish_settles cfg answers digest hp hi hv
        dsimp only
        rw [record_open (save_shape hp.complete) hi] at hs ⊢
        exact hs

variable (cfg answers) in
theorem accept_settles {outcome : Outcome} (hp : progress.Shape total)
    (hi : outcome.index < total) (hv : progress.view outcome.index = .running state) :
    ∃ view, FileView.Settled view ∧
      Settles total outcome.index progress (accept cfg answers progress outcome).1 view
        (failureOf (accept cfg answers progress outcome).2) := by
  rw [accept]
  cases outcome.result with
  | ok digest => exact finishFile_settles hp hi hv
  | error e => exact ⟨_, .failed, failFile_settles cfg _ _ hp hi hv⟩

theorem accept_error {outcome : Outcome} (h : outcome.result = .error error) :
    (failureOf (accept cfg answers progress outcome).2).isSome = true := by
  rw [accept, h]
  rfl

variable (answer) in
theorem resume_settles (hp : progress.Shape total) (hi : index < total)
    (hv : progress.view index = .untouched true) :
    Settles total index progress (record answer progress index .skipped none).1 .resumed
      (failureOf (tracked (record answer progress index .skipped none).2)) := by
  refine record_settles hi hp ?_ (fun _ _ => rfl) .inl ?_ nofun ?_
  · rw [hv]
    rfl
  · rintro e rfl
    rw [record_open hp hi]
    exact ⟨e, rfl⟩
  · rw [hv]
    rfl

variable (cfg answers) in
theorem prepareSkip_spec (hp : progress.Shape total) (hi : index < total)
    (hv : progress.view index = .untouched isDone) :
    (isDone = false ∧ prepareSkip cfg answers progress index = (progress, .ok false)) ∨
      (prepareSkip cfg answers progress index).2 ≠ .ok false ∧
      ∃ view, FileView.Settled view ∧
        Settles total index progress (prepareSkip cfg answers progress index).1 view
          (failureOf (prepareSkip cfg answers progress index).2) := by
  obtain ⟨file, hf⟩ := hp.entry hi
  have hdone : (progress.digest index).isSome = isDone := by
    rw [← hp.reported hi]
    exact congrArg FileView.isDone hv
  rw [prepareSkip, hdone]
  cases isDone with
  | true =>
    right
    have hs := resume_settles answers.row hp hi hv
    rw [record_open hp hi] at hs
    rw [if_pos rfl, record_open hp hi]
    cases hrow : answers.row with
    | ok u =>
      rw [hrow] at hs
      exact ⟨nofun, _, .resumed, hs⟩
    | error e =>
      rw [hrow] at hs
      exact ⟨nofun, _, .resumed, hs⟩
  | false =>
    rw [if_neg Bool.false_ne_true, hf]
    cases answers.shouldSkip with
    | error e => exact .inr ⟨nofun, _, .failed, failFile_settles cfg _ _ hp hi hv⟩
    | ok shouldSkip =>
      cases shouldSkip with
      | false => exact .inl ⟨rfl, rfl⟩
      | true =>
        right
        have hs := markSkipped_settles answers.row hp hi hv
        rw [markSkipped, record_open hp.addSkipped.setState hi] at hs
        dsimp only
        rw [markSkipped, record_open hp.addSkipped.setState hi]
        cases hrow : answers.row with
        | ok u =>
          rw [hrow] at hs
          exact ⟨nofun, _, .skipped, hs⟩
        | error e =>
          rw [hrow] at hs
          exact ⟨nofun, _, .skipped, hs⟩

end Settle

end VeStorage.ADrive.ShareDownload
