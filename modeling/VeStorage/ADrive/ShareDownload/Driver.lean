import VeStorage.ADrive.ShareDownload.Progress
import VeStorage.Lib.Pool
import VeStorage.ADrive.ShareDownload.Settle

namespace VeStorage.ADrive.ShareDownload
open Lib
open Share (CliError)

-- The errors of the service client; the `CliError` is the one of `map_ids_error`.
inductive IssuanceError where
  | server (statusCode : Option Nat) (mapped : CliError)
  | client (mapped : CliError)
  | cli (mapped : CliError)
  | unifiedCredential (mapped : CliError)
  | other

inductive Phase where
  | queued
  | issuing
  | content (url : Text)
deriving DecidableEq

def Phase.state : Phase → Nat
  | queued => 1
  | issuing => 2
  | content _ => 3

inductive JobEvent where
  | session (result : Except CliError Unit)
  | issued (result : Except IssuanceError Text)
  | request
  | fetched (result : Except CliError Text)

def unknownIssuance : CliError :=
  .transferFailed ("[share_download_url_result_unknown] download URL issuance failed; " ++
    "outcome may be unknown; not replayed")

def unusableAddress : CliError :=
  .transferFailed ("[share_download_url_result_unknown] unusable download address; " ++
    "issuance was not replayed")

def mapIssuance : IssuanceError → Nat → Nat × CliError
  | .server statusCode mapped, state =>
      if statusCode.any fun status => status < 500 && status != 408 then (4, mapped)
      else (state, unknownIssuance)
  | .client mapped, _ | .cli mapped, _ | .unifiedCredential mapped, _ => (4, mapped)
  | .other, state => (state, unknownIssuance)

-- One await of `run_job`: the state it stores, and the next await or the outcome.
def runJob (cfg : Config) (index state : Nat) : Phase → JobEvent → Option (Nat × (Phase ⊕ Outcome))
  | .queued, .session (.error e) => some (state, .inr ⟨index, .error e, state == 2⟩)
  | .queued, .session (.ok ()) => some (2, .inl .issuing)
  | .issuing, .issued (.error error) =>
      let (state, e) := mapIssuance error state
      some (state, .inr ⟨index, .error e, state == 2⟩)
  | .issuing, .issued (.ok url) =>
      if cfg.isValidUrl url then some (3, .inl (.content url))
      else some (state, .inr ⟨index, .error unusableAddress, true⟩)
  | .content url, .request => some (state, .inl (.content url))
  | .content _, .fetched result => some (4, .inr ⟨index, result, false⟩)
  | _, _ => none

structure Trace where
  reached : List Nat
  started : List Nat
  issued : List Nat
  urls : List (Nat × Text)
  requests : List (Nat × Text)
  outcomes : List Outcome

def Trace.empty : Trace := ⟨[], [], [], [], [], []⟩

def Trace.note (trace : Trace) (index : Nat) : Phase → JobEvent → Trace
  | .queued, .session (.ok ()) => { trace with issued := trace.issued ++ [index] }
  | .issuing, .issued (.ok url) => { trace with urls := trace.urls ++ [(index, url)] }
  | .content url, .request => { trace with requests := trace.requests ++ [(index, url)] }
  | _, _ => trace

-- `aborted` is the error of the `?` after a file was selected.
structure Driver where
  progress : Progress
  count : Nat
  next : Nat
  pending : List (Nat × Phase)
  error : Option CliError
  isStopped : Bool
  aborted : Option CliError
  trace : Trace

inductive LoopEvent where
  | schedule (answers : Answers)
  | poll (position : Nat) (event : JobEvent) (answers : Answers)

def Driver.start (progress : Progress) (count : Nat) : Driver where
  progress := { progress with states := List.replicate count 0 }
  count := count
  next := 0
  pending := []
  error := none
  isStopped := false
  aborted := none
  trace := .empty

def Driver.trackError (driver : Driver) : JobError → Driver
  | .file e => { driver with error := driver.error.or (some e) }
  | .tracking e => { driver with
      progress := { driver.progress with isTrackingFailure := true }
      isStopped := true
      error := some e }

variable (cfg : Config)

def Driver.canSchedule (driver : Driver) : Bool :=
  driver.aborted.isNone && decide (driver.next < driver.count) &&
    decide (driver.pending.length < cfg.batchConcurrency) && !driver.isStopped

def Driver.push (driver : Driver) (index : Nat) : Driver :=
  match entry driver.progress index with
  | .error e => { driver with aborted := some e }
  | .ok _ => { driver with
      progress := driver.progress.setState index 1
      pending := driver.pending ++ [(index, .queued)]
      trace := { driver.trace with started := driver.trace.started ++ [index] } }

def Driver.schedule (answers : Answers) (driver : Driver) : Driver :=
  let index := driver.next
  let (progress, prepared) := prepareSkip cfg answers driver.progress index
  let driver := { driver with
    progress := progress
    next := index + 1
    trace := { driver.trace with reached := driver.trace.reached ++ [index] } }
  match prepared with
  | .ok true => driver
  | .error failure => driver.trackError failure
  | .ok false => driver.push index

def Driver.stopOnUnknown (driver : Driver) (outcome : Outcome) : Driver :=
  if outcome.isUnknown then
    { driver with progress := { driver.progress with isIssuing := true }, isStopped := true }
  else driver

def Driver.accept (answers : Answers) (driver : Driver) (outcome : Outcome) : Driver :=
  let driver := driver.stopOnUnknown outcome
  let (progress, accepted) := ShareDownload.accept cfg answers driver.progress outcome
  let driver := { driver with
    progress := progress
    trace := { driver.trace with outcomes := driver.trace.outcomes ++ [outcome] } }
  match accepted with
  | .ok () => driver
  | .error failure => driver.trackError failure

def Driver.poll (driver : Driver) (position : Nat) (event : JobEvent) (answers : Answers) :
    Option Driver := do
  let (index, phase) ← driver.pending[position]?
  let state ← driver.progress.states[index]?
  let (state, next) ← runJob cfg index state phase event
  let driver := { driver with
    progress := driver.progress.setState index state
    trace := driver.trace.note index phase event }
  match next with
  | .inl phase => return { driver with pending := driver.pending.set position (index, phase) }
  | .inr outcome =>
      return { driver with pending := driver.pending.eraseIdx position }.accept cfg answers outcome

def Driver.step (driver : Driver) : LoopEvent → Option Driver
  | .schedule answers => if driver.canSchedule cfg then some (driver.schedule cfg answers) else none
  | .poll position event answers =>
      if driver.aborted.isNone && !driver.canSchedule cfg then driver.poll cfg position event answers
      else none

def Driver.returns (driver : Driver) : Option (Except CliError Unit) :=
  match driver.aborted with
  | some e => some (.error e)
  | none =>
      if !driver.canSchedule cfg && driver.pending.isEmpty then
        some (match driver.error with
          | none => .ok ()
          | some e => .error e)
      else none

end VeStorage.ADrive.ShareDownload

namespace VeStorage.ADrive.ShareDownload
open Lib
open Share (CliError)

namespace Progress

def isSettled (progress : Progress) (index : Nat) : Prop :=
  FileView.Settled (progress.view index)

def credits (progress : Progress) (total : Nat) : Nat :=
  (List.range total).countP fun index => (progress.view index).credited

end Progress

-- Every file waits, runs or is settled, and `skipped` counts the credited ones.
structure Files (progress : Progress) (total : Nat) (waiting : List Nat)
    (pending : List (Nat × Phase)) : Prop where
  shape : progress.Shape total
  pool : PoolInv (List.range total) progress.isSettled waiting pending
  untouched : ∀ index ∈ waiting, ∃ isDone, progress.view index = .untouched isDone
  running : ∀ job ∈ pending, progress.view job.1 = .running job.2.state
  credit : progress.skipped = progress.credits total

namespace Files

variable {progress q : Progress} {total index state : Nat} {waiting : List Nat}
  {pending before after : List (Nat × Phase)} {phase phase' : Phase} {view : FileView}
  {failure : Option JobError}

theorem waiting_lt (h : Files progress total waiting pending) (hi : index ∈ waiting) :
    index < total :=
  List.mem_range.mp (h.pool.planned index (List.mem_append_left _ hi))

theorem running_lt (h : Files progress total waiting (before ++ (index, phase) :: after)) :
    index < total :=
  List.mem_range.mp h.pool.running_mem

theorem head_ne (h : Files progress total (index :: waiting) pending) :
    (∀ other ∈ waiting, other ≠ index) ∧ ∀ job ∈ pending, job.1 ≠ index := by
  obtain ⟨hn, -⟩ := List.nodup_cons.mp h.pool.nodup
  rw [List.append_eq, List.mem_append, not_or] at hn
  exact ⟨fun other ho he => hn.1 (he ▸ ho), fun job hj he => hn.2 (he ▸ List.mem_map_of_mem hj)⟩

theorem running_ne (h : Files progress total waiting (before ++ (index, phase) :: after)) :
    (∀ other ∈ waiting, other ≠ index) ∧ ∀ job ∈ before ++ after, job.1 ≠ index := by
  have hnodup := (finish_perm waiting before after index phase).nodup_iff.mp h.pool.nodup
  obtain ⟨hn, -⟩ := List.nodup_cons.mp hnodup
  rw [List.mem_append, not_or] at hn
  exact ⟨fun other ho he => hn.1 (he ▸ ho), fun job hj he => hn.2 (he ▸ List.mem_map_of_mem hj)⟩

theorem credits_update (hi : index < total)
    (ho : ∀ other ≠ index, q.view other = progress.view other) :
    q.credits total + (progress.view index).credited.toNat =
      progress.credits total + (q.view index).credited.toNat :=
  countP_update (p := fun other => (progress.view other).credited)
    (q := fun other => (q.view other).credited) List.nodup_range (List.mem_range.mpr hi)
    fun other _ hne => by rw [ho other hne]

theorem settled_other (ho : ∀ other ≠ index, q.view other = progress.view other) {other : Nat}
    (hne : other ≠ index) (h : progress.isSettled other) : q.isSettled other := by
  rw [Progress.isSettled, ho other hne]
  exact h

theorem settles_settled {p : Progress} (hs : Settles total index p q view failure)
    (hv : FileView.Settled view) : q.isSettled index := by
  rw [Progress.isSettled, hs.seen]
  exact hv

theorem settles_credit (h : Files progress total waiting pending) (hi : index < total)
    (hs : Settles total index progress q view failure) : q.skipped = q.credits total := by
  have hcredits := credits_update hi hs.others
  have hskipped := hs.credit
  rw [hs.seen] at hcredits
  rw [h.credit] at hskipped
  omega

theorem settle_next (h : Files progress total (index :: waiting) pending)
    (hs : Settles total index progress q view failure) (hv : FileView.Settled view) :
    Files q total waiting pending where
  shape := hs.shape
  pool := by
    refine (h.pool.mono fun other _ hn hother => ?_).skip (settles_settled hs hv)
    exact settled_other hs.others (fun he => hn (by simp [he])) hother
  untouched := fun other ho => by
    rw [hs.others other (h.head_ne.1 other ho)]
    exact h.untouched other (List.mem_cons_of_mem _ ho)
  running := fun job hj => by
    rw [hs.others job.1 (h.head_ne.2 job hj)]
    exact h.running job hj
  credit := h.settles_credit (h.waiting_lt List.mem_cons_self) hs

theorem setState_credit (h : Files progress total waiting pending) (hi : index < total) :
    (progress.setState index state).skipped = (progress.setState index state).credits total := by
  have hcredits := credits_update (q := progress.setState index state) hi
    fun other ho => view_setState_other ho
  rw [view_setState_self h.shape hi] at hcredits
  exact h.credit.trans (Nat.add_right_cancel hcredits).symm

theorem launch (h : Files progress total (index :: waiting) pending)
    (hv : progress.view index = .untouched false) :
    Files (progress.setState index 1) total waiting (pending ++ [(index, .queued)]) where
  shape := h.shape.setState
  pool := by
    refine (h.pool.mono fun other _ hn hother => ?_).launch .queued
    exact settled_other (fun _ ho => view_setState_other ho) (fun he => hn (by simp [he])) hother
  untouched := fun other ho => by
    rw [view_setState_other (h.head_ne.1 other ho)]
    exact h.untouched other (List.mem_cons_of_mem _ ho)
  running := fun job hj => by
    rcases List.mem_append.mp hj with hj | hj
    · rw [view_setState_other (h.head_ne.2 job hj)]
      exact h.running job hj
    · rw [List.mem_singleton.mp hj, view_setState_self h.shape (h.waiting_lt List.mem_cons_self), hv]
      rfl
  credit := h.setState_credit (h.waiting_lt List.mem_cons_self)

theorem proceed (h : Files progress total waiting (before ++ (index, phase) :: after))
    (hs : state = phase'.state) :
    Files (progress.setState index state) total waiting (before ++ (index, phase') :: after) where
  shape := h.shape.setState
  pool := h.pool.progress fun other _ hne hother =>
    settled_other (fun _ ho => view_setState_other ho) hne hother
  untouched := fun other ho => by
    rw [view_setState_other (h.running_ne.1 other ho)]
    exact h.untouched other ho
  running := fun job hj => by
    rcases List.mem_append.mp hj with hj | hj
    · rw [view_setState_other (h.running_ne.2 job (List.mem_append_left _ hj))]
      exact h.running job (List.mem_append_left _ hj)
    · rcases List.mem_cons.mp hj with rfl | hj
      · rw [view_setState_self h.shape h.running_lt, h.running (index, phase) (by simp), hs]
        rfl
      · rw [view_setState_other (h.running_ne.2 job (List.mem_append_right _ hj))]
        exact h.running job (by simp [hj])
  credit := h.setState_credit h.running_lt

-- The outcome of a job is settled in the step that ends the job.
theorem finish (h : Files progress total waiting (before ++ (index, phase) :: after))
    (hs : Settles total index (progress.setState index state) q view failure)
    (hv : FileView.Settled view) : Files q total waiting (before ++ after) := by
  have hothers : ∀ other ≠ index, q.view other = progress.view other := fun other ho =>
    (hs.others other ho).trans (view_setState_other ho)
  refine ⟨hs.shape, ?_, fun other ho => ?_, fun job hj => ?_, ?_⟩
  · refine (h.pool.mono fun other _ hn hother => ?_).finish (settles_settled hs hv)
    exact settled_other hothers (fun he => hn (by simp [he])) hother
  · rw [hothers other (h.running_ne.1 other ho)]
    exact h.untouched other ho
  · rw [hothers job.1 (h.running_ne.2 job hj)]
    rcases List.mem_append.mp hj with hj | hj
    · exact h.running job (List.mem_append_left _ hj)
    · exact h.running job (by simp [hj])
  · have hcredits := credits_update h.running_lt hothers
    have hskipped := hs.credit
    rw [view_setState_self h.shape h.running_lt] at hskipped
    rw [hs.seen] at hcredits
    have hprogress : (progress.setState index state).skipped = progress.skipped := rfl
    have hview : FileView.credited { progress.view index with state := some state } =
      (progress.view index).credited := rfl
    rw [hprogress, hview, h.credit] at hskipped
    omega

end Files

end VeStorage.ADrive.ShareDownload
