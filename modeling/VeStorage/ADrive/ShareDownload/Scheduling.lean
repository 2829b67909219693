import VeStorage.ADrive.ShareDownload.Driver

namespace VeStorage.ADrive.ShareDownload
open Lib
open Share (CliError)

-- One URL for each issuance, one issuance for each started job.
structure Trace.Sound (trace : Trace) : Prop where
  started : trace.started.Nodup
  issued : trace.issued.Nodup
  issued_started : ∀ index ∈ trace.issued, index ∈ trace.started
  urls : (trace.urls.map Prod.fst).Nodup
  urls_issued : ∀ url ∈ trace.urls, url.1 ∈ trace.issued
  requests : ∀ request ∈ trace.requests, request ∈ trace.urls

def Trace.job (trace : Trace) (index : Nat) : Phase → Prop
  | .queued => index ∉ trace.issued ∧ index ∉ trace.urls.map Prod.fst
  | .issuing => index ∈ trace.issued ∧ index ∉ trace.urls.map Prod.fst
  | .content url => (index, url) ∈ trace.urls

section Trace

variable {cfg : Config} {trace : Trace} {index other state state' : Nat} {phase phase' : Phase}
  {event : JobEvent} {outcome : Outcome}

theorem note_started : (trace.note index phase event).started = trace.started := by
  rw [Trace.note.eq_def]
  split <;> rfl

theorem note_reached : (trace.note index phase event).reached = trace.reached := by
  rw [Trace.note.eq_def]
  split <;> rfl

theorem note_outcomes : (trace.note index phase event).outcomes = trace.outcomes := by
  rw [Trace.note.eq_def]
  split <;> rfl

theorem nodup_concat {α : Type} {l : List α} {a : α} (h : l.Nodup) (ha : a ∉ l) :
    (l ++ [a]).Nodup :=
  (List.perm_append_singleton a l).nodup_iff.mpr (List.nodup_cons.mpr ⟨ha, h⟩)

variable (event) in
theorem Trace.Sound.note (h : trace.Sound) (hj : trace.job index phase)
    (hs : index ∈ trace.started) : (trace.note index phase event).Sound := by
  rw [Trace.note.eq_def]
  split
  next =>
    refine ⟨h.started, nodup_concat h.issued hj.1, fun i hi => ?_, h.urls, fun url hu => ?_,
      h.requests⟩
    · rcases List.mem_append.mp hi with hi | hi
      · exact h.issued_started i hi
      · exact List.mem_singleton.mp hi ▸ hs
    · exact List.mem_append_left _ (h.urls_issued url hu)
  next url =>
    refine ⟨h.started, h.issued, h.issued_started, ?_, fun u hu => ?_, fun r hr => ?_⟩
    · rw [List.map_append]
      exact nodup_concat h.urls hj.2
    · rcases List.mem_append.mp hu with hu | hu
      · exact h.urls_issued u hu
      · rw [List.mem_singleton.mp hu]
        exact hj.1
    · exact List.mem_append_left _ (h.requests r hr)
  next url =>
    refine ⟨h.started, h.issued, h.issued_started, h.urls, h.urls_issued, fun r hr => ?_⟩
    rcases List.mem_append.mp hr with hr | hr
    · exact h.requests r hr
    · rw [List.mem_singleton.mp hr]
      exact hj
  next => exact h

theorem note_job_other (hne : other ≠ index) :
    (trace.note index phase event).job other phase' ↔ trace.job other phase' := by
  rw [Trace.note.eq_def]
  split <;> cases phase' <;> simp [Trace.job, hne]

variable (trace) in
theorem runJob_next (h : runJob cfg index phase.state phase event = some (state, .inl phase')) :
    state = phase'.state ∧
      (trace.job index phase → (trace.note index phase event).job index phase') := by
  cases phase with
  | queued =>
    match event, h with
    | .session (.ok ()), h =>
      obtain ⟨rfl, rfl⟩ : 2 = state ∧ Phase.issuing = phase' := by simpa [runJob] using h
      exact ⟨rfl, fun hj => ⟨by simp [Trace.note], hj.2⟩⟩
  | issuing =>
    match event, h with
    | .issued (.ok url), h =>
      rw [runJob] at h
      split at h
      · obtain ⟨rfl, rfl⟩ : 3 = state ∧ Phase.content url = phase' := by simpa using h
        exact ⟨rfl, fun _ => by simp [Trace.job, Trace.note]⟩
      · cases h
  | content url =>
    match event, h with
    | .request, h =>
      obtain ⟨rfl, rfl⟩ : Phase.state (.content url) = state ∧ Phase.content url = phase' := by
        simpa [runJob] using h
      exact ⟨rfl, fun hj => hj⟩

theorem runJob_outcome (h : runJob cfg index state phase event = some (state', .inr outcome)) :
    outcome.index = index ∧ (outcome.isUnknown = true → ∃ e, outcome.result = .error e) := by
  cases phase with
  | queued =>
    match event, h with
    | .session (.error e), h =>
      obtain ⟨-, rfl⟩ : state = state' ∧ (⟨index, .error e, state == 2⟩ : Outcome) = outcome := by
        simpa [runJob] using h
      exact ⟨rfl, fun _ => ⟨e, rfl⟩⟩
  | issuing =>
    match event, h with
    | .issued (.error error), h =>
      simp only [runJob, Option.some.injEq, Prod.mk.injEq, Sum.inr.injEq] at h
      exact ⟨h.2 ▸ rfl, fun _ => h.2 ▸ ⟨_, rfl⟩⟩
    | .issued (.ok url), h =>
      rw [runJob] at h
      split at h
      · cases h
      · obtain ⟨-, rfl⟩ : state = state' ∧ (⟨index, .error unusableAddress, true⟩ : Outcome) =
          outcome := by simpa using h
        exact ⟨rfl, fun _ => ⟨_, rfl⟩⟩
  | content url =>
    match event, h with
    | .fetched result, h =>
      obtain ⟨-, rfl⟩ : 4 = state' ∧ (⟨index, result, false⟩ : Outcome) = outcome := by
        simpa [runJob] using h
      exact ⟨rfl, nofun⟩

end Trace

-- `failure` is the error of the last call, not yet tracked.
structure Driver.Inv (driver : Driver) (failure : Option JobError) : Prop where
  files : Files driver.progress driver.count
    (List.range' driver.next (driver.count - driver.next)) driver.pending
  aborted : driver.aborted = none
  next_le : driver.next ≤ driver.count
  failed : ∀ index < driver.count, (driver.progress.view index).isFailed = true →
    driver.error.isSome = true ∨ failure.isSome = true
  stopped : driver.isStopped = true → driver.error.isSome = true ∨ failure.isSome = true
  lossy : driver.progress.Lossy → driver.isStopped = true ∨ ∃ e, failure = some (.tracking e)
  unknown : ∀ outcome ∈ driver.trace.outcomes, outcome.isUnknown = true → driver.isStopped = true
  sound : driver.trace.Sound
  accounted : driver.trace.started.Perm
    (driver.trace.outcomes.map Outcome.index ++ driver.pending.map Prod.fst)
  started_lt : ∀ index ∈ driver.trace.started, index < driver.next
  reached : driver.trace.reached = List.range driver.next
  jobs : ∀ job ∈ driver.pending, driver.trace.job job.1 job.2

def Driver.track (driver : Driver) : Option JobError → Driver
  | none => driver
  | some failure => driver.trackError failure

section Driver

variable {cfg : Config} {driver driver' : Driver} {failure : Option JobError} {answers : Answers}
  {event : LoopEvent}

theorem Driver.Inv.track (h : driver.Inv failure) : (driver.track failure).Inv none := by
  cases failure with
  | none => exact h
  | some failure =>
    have hsome : (driver.trackError failure).error.isSome = true := by
      cases failure with
      | file e => cases he : driver.error <;> simp [Driver.trackError, he]
      | tracking e => rfl
    cases failure with
    | file e =>
      refine ⟨h.files, h.aborted, h.next_le, fun _ _ _ => .inl hsome, fun _ => .inl hsome, fun hl => ?_,
        h.unknown, h.sound, h.accounted, h.started_lt, h.reached, h.jobs⟩
      rcases h.lossy hl with hstop | ⟨e', he⟩
      · exact .inl hstop
      · cases he
    | tracking e =>
      refine ⟨?_, h.aborted, h.next_le, fun _ _ _ => .inl hsome, fun _ => .inl hsome, fun _ => .inl rfl,
        fun _ _ _ => rfl, h.sound, h.accounted, h.started_lt, h.reached, h.jobs⟩
      exact ⟨⟨h.files.shape.journal, h.files.shape.states, h.files.shape.verified,
        h.files.shape.rows, h.files.shape.active⟩, h.files.pool, h.files.untouched,
        h.files.running, h.files.credit⟩

theorem Driver.canSchedule_iff : driver.canSchedule cfg = true ↔ driver.aborted = none ∧
    driver.next < driver.count ∧ driver.pending.length < cfg.batchConcurrency ∧
    driver.isStopped = false := by
  simp [Driver.canSchedule, and_assoc]

theorem Driver.schedule_cases (hne : (prepareSkip cfg answers driver.progress driver.next).2 ≠ .ok false) :
    driver.schedule cfg answers = { driver with
      progress := (prepareSkip cfg answers driver.progress driver.next).1
      next := driver.next + 1
      trace := { driver.trace with reached := driver.trace.reached ++ [driver.next] } }.track
        (failureOf (prepareSkip cfg answers driver.progress driver.next).2) := by
  rw [Driver.schedule]
  generalize prepareSkip cfg answers driver.progress driver.next = prepared at hne
  obtain ⟨progress, result⟩ := prepared
  match result, hne with
  | .ok true, _ => rfl
  | .error failure, _ => rfl
  | .ok false, hne => exact absurd rfl hne

theorem range_next {next count : Nat} (h : next < count) :
    List.range' next (count - next) = next :: List.range' (next + 1) (count - (next + 1)) := by
  rw [show count - next = count - (next + 1) + 1 by omega]
  exact List.range'_succ

theorem Driver.Inv.next_mem (h : driver.Inv failure) {index : Nat}
    (hi : index ∈ driver.trace.issued) : index ≠ driver.next :=
  Nat.ne_of_lt (h.started_lt index (h.sound.issued_started index hi))

theorem Driver.Inv.reached_next (h : driver.Inv failure) :
    driver.trace.reached ++ [driver.next] = List.range (driver.next + 1) := by
  rw [h.reached, List.range_succ]

theorem Driver.Inv.push (h : driver.Inv none) (hlt : driver.next < driver.count)
    (hv : driver.progress.view driver.next = .untouched false) :
    ({ driver with
      next := driver.next + 1
      trace := { driver.trace with reached := driver.trace.reached ++ [driver.next] } }.push
        driver.next).Inv none := by
  obtain ⟨file, hf⟩ := h.files.shape.entry hlt
  have hfiles := h.files
  rw [range_next hlt] at hfiles
  have hnew : driver.next ∉ driver.trace.started := fun hi => Nat.lt_irrefl _ (h.started_lt _ hi)
  rw [Driver.push, hf]
  refine ⟨hfiles.launch hv, h.aborted, hlt, h.failed, h.stopped, h.lossy, h.unknown, ?_, ?_, ?_, h.reached_next, ?_⟩
  · exact ⟨nodup_concat h.sound.started hnew, h.sound.issued,
      fun i hi => List.mem_append_left _ (h.sound.issued_started i hi), h.sound.urls,
      h.sound.urls_issued, h.sound.requests⟩
  · simp only [List.map_append, List.map_cons, List.map_nil, ← List.append_assoc]
    exact h.accounted.append_right [driver.next]
  · intro i hi
    rcases List.mem_append.mp hi with hi | hi
    · exact Nat.lt_succ_of_lt (h.started_lt i hi)
    · exact List.mem_singleton.mp hi ▸ Nat.lt_succ_self _
  · intro job hj
    rcases List.mem_append.mp hj with hj | hj
    · have hjob := h.jobs job hj
      revert hjob
      cases job.2 <;> exact id
    · rw [List.mem_singleton.mp hj]
      refine ⟨fun hi => h.next_mem hi rfl, fun hi => ?_⟩
      obtain ⟨url, hu, he⟩ := List.mem_map.mp hi
      exact h.next_mem (h.sound.urls_issued url hu) he

theorem Driver.Inv.schedule (h : driver.Inv none) (hs : driver.canSchedule cfg = true) :
    (driver.schedule cfg answers).Inv none := by
  obtain ⟨-, hlt, -, -⟩ := Driver.canSchedule_iff.mp hs
  have hfiles := h.files
  rw [range_next hlt] at hfiles
  obtain ⟨isDone, hv⟩ := hfiles.untouched driver.next List.mem_cons_self
  rcases prepareSkip_spec cfg answers hfiles.shape hlt hv with
    ⟨rfl, heq⟩ | ⟨hne, view, hsettled, hs⟩
  · rw [Driver.schedule, heq]
    exact h.push hlt hv
  · rw [Driver.schedule_cases hne]
    have hsound := h.sound
    refine Driver.Inv.track ⟨hfiles.settle_next hs hsettled, h.aborted, hlt, fun i hi hf => ?_,
      fun hstop => .inl ((h.stopped hstop).resolve_right nofun), fun hl => ?_, h.unknown,
      ⟨hsound.started, hsound.issued, hsound.issued_started, hsound.urls, hsound.urls_issued,
        hsound.requests⟩,
      h.accounted, fun i hi => Nat.lt_succ_of_lt (h.started_lt i hi), h.reached_next, fun job hj => ?_⟩
    · by_cases he : i = driver.next
      · rw [he, hs.seen] at hf
        exact .inr (hs.failed hf)
      · rw [hs.others i he] at hf
        exact .inl ((h.failed i hi hf).resolve_right nofun)
    · rcases hs.lossy hl with hl | hl
      · exact .inl ((h.lossy hl).resolve_right fun ⟨_, he⟩ => nomatch he)
      · exact .inr hl
    · have hjob := h.jobs job hj
      revert hjob
      cases job.2 <;> exact id

theorem Driver.stopOnUnknown_eq {outcome : Outcome} : driver.stopOnUnknown outcome = { driver with
    progress := { driver.progress with
      isIssuing := driver.progress.isIssuing || outcome.isUnknown }
    isStopped := driver.isStopped || outcome.isUnknown } := by
  rw [Driver.stopOnUnknown]
  cases outcome.isUnknown <;> simp

theorem Driver.accept_eq {outcome : Outcome} : driver.accept cfg answers outcome =
    { driver.stopOnUnknown outcome with
      progress := (ShareDownload.accept cfg answers (driver.stopOnUnknown outcome).progress outcome).1
      trace := { (driver.stopOnUnknown outcome).trace with
        outcomes := (driver.stopOnUnknown outcome).trace.outcomes ++ [outcome] } }.track
      (failureOf (ShareDownload.accept cfg answers (driver.stopOnUnknown outcome).progress
        outcome).2) := by
  rw [Driver.accept]
  generalize ShareDownload.accept cfg answers (driver.stopOnUnknown outcome).progress outcome = accepted
  obtain ⟨progress, result⟩ := accepted
  cases result <;> rfl

theorem Driver.poll_cases {position : Nat} {event : JobEvent}
    (h : driver.poll cfg position event answers = some driver') :
    ∃ before index phase after state state', driver.pending = before ++ (index, phase) :: after ∧
      driver.progress.states[index]? = some state ∧
      ((∃ phase', runJob cfg index state phase event = some (state', .inl phase') ∧
          driver' = { driver with
            progress := driver.progress.setState index state'
            trace := driver.trace.note index phase event
            pending := before ++ (index, phase') :: after }) ∨
        ∃ outcome, runJob cfg index state phase event = some (state', .inr outcome) ∧
          driver' = ({ driver with
            progress := driver.progress.setState index state'
            trace := driver.trace.note index phase event
            pending := before ++ after } : Driver).accept cfg answers outcome) := by
  rw [Driver.poll] at h
  obtain ⟨⟨index, phase⟩, hjob, h⟩ := Option.bind_eq_some_iff.mp h
  obtain ⟨state, hstate, h⟩ := Option.bind_eq_some_iff.mp h
  obtain ⟨⟨state', next⟩, hrun, h⟩ := Option.bind_eq_some_iff.mp h
  obtain ⟨before, after, hpending, hset, herase⟩ := split_at hjob
  refine ⟨before, index, phase, after, state, state', hpending, hstate, ?_⟩
  cases next with
  | inl phase' =>
    refine .inl ⟨phase', hrun, ?_⟩
    rw [← hset]
    exact (Option.some.inj h).symm
  | inr outcome =>
    refine .inr ⟨outcome, hrun, ?_⟩
    rw [← herase]
    exact (Option.some.inj h).symm

theorem Driver.Inv.running_state {before after : List (Nat × Phase)} {index state : Nat}
    {phase : Phase} (h : driver.Inv none) (hp : driver.pending = before ++ (index, phase) :: after)
    (hs : driver.progress.states[index]? = some state) : state = phase.state := by
  have hview := h.files.running (index, phase) (hp ▸ by simp)
  have hstate := congrArg FileView.state hview
  exact Option.some.inj (hs.symm.trans hstate)

section Poll

variable {before after : List (Nat × Phase)} {index state state' : Nat} {phase phase' : Phase}
  {job : JobEvent} {outcome : Outcome} {position : Nat}

theorem Driver.Inv.pending_started (h : driver.Inv none)
    (hp : driver.pending = before ++ (index, phase) :: after) : index ∈ driver.trace.started := by
  refine h.accounted.mem_iff.mpr (List.mem_append_right _ ?_)
  rw [hp]
  simp

theorem Driver.Inv.note_jobs (h : driver.Inv none)
    (hp : driver.pending = before ++ (index, phase) :: after) :
    ∀ other ∈ before ++ after, (driver.trace.note index phase job).job other.1 other.2 := by
  intro other ho
  have hfiles := h.files
  rw [hp] at hfiles
  refine (note_job_other (hfiles.running_ne.2 other ho)).mpr (h.jobs other ?_)
  rw [hp]
  rcases List.mem_append.mp ho with ho | ho
  · exact List.mem_append_left _ ho
  · exact List.mem_append_right _ (List.mem_cons_of_mem _ ho)

theorem Driver.Inv.proceed (h : driver.Inv none)
    (hp : driver.pending = before ++ (index, phase) :: after)
    (hr : runJob cfg index phase.state phase job = some (state', .inl phase')) :
    ({ driver with
      progress := driver.progress.setState index state'
      trace := driver.trace.note index phase job
      pending := before ++ (index, phase') :: after } : Driver).Inv none := by
  have hfiles := h.files
  rw [hp] at hfiles
  have hjob : driver.trace.job index phase := h.jobs (index, phase) (hp ▸ by simp)
  obtain ⟨hstate, hnext⟩ := runJob_next driver.trace hr
  refine ⟨hfiles.proceed hstate, h.aborted, h.next_le, h.failed, h.stopped, h.lossy, ?_,
    h.sound.note job hjob (h.pending_started hp), ?_, ?_, note_reached.trans h.reached, ?_⟩
  · intro outcome ho
    rw [note_outcomes] at ho
    exact h.unknown outcome ho
  · have haccounted := h.accounted
    rw [hp, map_fst_progress before after index phase' phase] at haccounted
    rw [note_started, note_outcomes]
    exact haccounted
  · rw [note_started]
    exact h.started_lt
  · intro other ho
    rcases List.mem_append.mp ho with ho | ho
    · exact h.note_jobs hp other (List.mem_append_left _ ho)
    · rcases List.mem_cons.mp ho with rfl | ho
      · exact hnext hjob
      · exact h.note_jobs hp other (List.mem_append_right _ ho)

theorem Driver.Inv.accept (h : driver.Inv none)
    (hp : driver.pending = before ++ (index, phase) :: after)
    (hr : runJob cfg index phase.state phase job = some (state', .inr outcome)) :
    (({ driver with
      progress := driver.progress.setState index state'
      trace := driver.trace.note index phase job
      pending := before ++ after } : Driver).accept cfg answers outcome).Inv none := by
  have hfiles := h.files
  rw [hp] at hfiles
  obtain ⟨rfl, hunknown⟩ := runJob_outcome hr
  rw [Driver.accept_eq, Driver.stopOnUnknown_eq]
  have hlt := hfiles.running_lt
  have hview : (driver.progress.setState outcome.index state').view outcome.index =
      .running state' := by
    rw [view_setState_self hfiles.shape hlt, hfiles.running (outcome.index, phase) (by simp)]
    rfl
  have hshape : ({ driver.progress.setState outcome.index state' with
      isIssuing := driver.progress.isIssuing || outcome.isUnknown } : Progress).Shape driver.count :=
    ⟨hfiles.shape.journal, hfiles.shape.setState.states, hfiles.shape.verified, hfiles.shape.rows,
      hfiles.shape.active⟩
  obtain ⟨view, hsettled, hs⟩ := accept_settles cfg answers hshape hlt hview
  refine Driver.Inv.track ⟨hfiles.finish ⟨hs.shape, hs.seen, hs.others, hs.lossy, hs.failed,
    hs.credit⟩ hsettled, h.aborted, h.next_le, fun i hi hf => ?_, fun hstop => ?_, fun hl => ?_, ?_, ?_, ?_,
    ?_, note_reached.trans h.reached, h.note_jobs hp⟩
  · by_cases he : i = outcome.index
    · subst he
      exact .inr (hs.failed ((congrArg FileView.isFailed hs.seen).symm.trans hf))
    · have hother := (congrArg FileView.isFailed (hs.others i he)).symm.trans hf
      exact .inl ((h.failed i hi hother).resolve_right nofun)
  · rcases Bool.or_eq_true_iff.mp hstop with hstop | hstop
    · exact .inl ((h.stopped hstop).resolve_right nofun)
    · obtain ⟨e, he⟩ := hunknown hstop
      exact .inr (accept_error he)
  · rcases hs.lossy hl with hl | hl
    · have hstop := (h.lossy hl).resolve_right fun ⟨_, he⟩ => nomatch he
      exact .inl (Bool.or_eq_true_iff.mpr (.inl hstop))
    · exact .inr hl
  · intro o ho hu
    rw [note_outcomes] at ho
    rcases List.mem_append.mp ho with ho | ho
    · exact Bool.or_eq_true_iff.mpr (.inl (h.unknown o ho hu))
    · rw [List.mem_singleton.mp ho] at hu
      exact Bool.or_eq_true_iff.mpr (.inr hu)
  · have hnote := h.sound.note job (h.jobs (outcome.index, phase) (hp ▸ by simp))
      (h.pending_started hp)
    exact ⟨hnote.started, hnote.issued, hnote.issued_started, hnote.urls, hnote.urls_issued,
      hnote.requests⟩
  · have haccounted := h.accounted
    rw [hp] at haccounted
    rw [note_started, note_outcomes, List.map_append, List.map_cons, List.map_nil]
    refine haccounted.trans ?_
    rw [List.append_assoc, List.singleton_append]
    exact (finish_perm [] before after outcome.index phase).append_left _
  · rw [note_started]
    exact h.started_lt

theorem Driver.Inv.poll (h : driver.Inv none)
    (hp : driver.poll cfg position job answers = some driver') : driver'.Inv none := by
  obtain ⟨before, index, phase, after, state, state', hpending, hstate, hnext⟩ :=
    Driver.poll_cases hp
  obtain rfl := h.running_state hpending hstate
  rcases hnext with ⟨phase', hrun, rfl⟩ | ⟨outcome, hrun, rfl⟩
  · exact h.proceed hpending hrun
  · exact h.accept hpending hrun

end Poll

theorem Driver.Inv.step (h : driver.Inv none) (hs : driver.step cfg event = some driver') :
    driver'.Inv none := by
  cases event with
  | schedule answers =>
    rw [Driver.step] at hs
    split at hs
    next hcan =>
      obtain rfl := Option.some.inj hs
      exact h.schedule hcan
    next => cases hs
  | poll position job answers =>
    rw [Driver.step] at hs
    split at hs
    · exact h.poll hs
    · cases hs

end Driver

end VeStorage.ADrive.ShareDownload
