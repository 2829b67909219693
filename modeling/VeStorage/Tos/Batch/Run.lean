import VeStorage.Lib.Pool
import VeStorage.Tos.Batch.Ledger

namespace VeStorage.Tos.Batch
open Lib

-- The manifest holds exactly the copies and the deletes that the command goes through.
structure Command.Accounts (c : Command) : Prop where
  count : c.manifest.objectCount = c.manifest.items.length
  ids : (c.manifest.items.map TransferManifestItem.actionId).Nodup
  actions : (c.copies ++ c.groups.flatten).Perm c.manifest.actions
  skipped : c.skippedDeletes.Perm c.groups.flatten
  copies : ∀ a ∈ c.copies, a.operation.isDelete = false
  deletes : ∀ a ∈ c.groups.flatten, a.operation.isDelete = true

def remaining (c : Command) : Stage → List Action
  | .copying pending => pending ++ c.groups.flatten
  | .deleting gs pending => pending ++ gs.flatten
  | .skipping pending => pending
  | .returned _ => []

-- A delete is sent while no row is lost, and never beside a failed copy.
structure Gated (log : List Event) : Prop where
  rows_kept : ∀ before a after, log = before ++ .send a :: after → a.operation.isDelete = true →
    ∀ r ∈ rows before, r.lost = false
  copies_done : ∀ a ∈ sends log, a.operation.isDelete = true →
    ∀ r ∈ rows log, r.status = .failed → r.action.operation.isDelete = true

section Gated

variable {log : List Event} {a : Action} {r : Recorded}

theorem append_singleton_split {α : Type} {l before after : List α} {x e : α}
    (h : l ++ [x] = before ++ e :: after) :
    (l = before ∧ x = e) ∨ ∃ after', l = before ++ e :: after' := by
  rcases List.eq_nil_or_concat after with rfl | ⟨after', y, rfl⟩
  · obtain ⟨hl, he⟩ := List.append_inj' h rfl
    exact .inl ⟨hl, (List.cons.inj he).1⟩
  · rw [List.concat_eq_append, ← List.cons_append, ← List.append_assoc] at h
    exact .inr ⟨after', List.append_inj_left' h rfl⟩

theorem Gated.nil : Gated [] := ⟨fun before a after h => by simp at h, by simp [sends]⟩

theorem Gated.row (h : Gated log)
    (hr : (∃ a ∈ sends log, a.operation.isDelete = true) → r.status = .failed →
      r.action.operation.isDelete = true) : Gated (log ++ [.row r]) where
  rows_kept := fun before a after hl ha => by
    rcases append_singleton_split hl with ⟨-, he⟩ | ⟨after', hlog⟩
    · cases he
    · exact h.rows_kept before a after' hlog ha
  copies_done := fun a ha hd r' hr' hf => by
    rw [sends_row] at ha
    rw [rows_row, List.mem_append, List.mem_singleton] at hr'
    rcases hr' with hr' | rfl
    · exact h.copies_done a ha hd r' hr' hf
    · exact hr ⟨a, ha, hd⟩ hf

theorem Gated.send (h : Gated log) (ha : a.operation.isDelete = true →
      (∀ r ∈ rows log, r.lost = false) ∧
        ∀ r ∈ rows log, r.status = .failed → r.action.operation.isDelete = true) :
    Gated (log ++ [.send a]) where
  rows_kept := fun before a' after hl hd => by
    rcases append_singleton_split hl with ⟨rfl, he⟩ | ⟨after', hlog⟩
    · obtain rfl := Event.send.inj he
      exact (ha hd).1
    · exact h.rows_kept before a' after' hlog hd
  copies_done := fun a' ha' hd r hr hf => by
    rw [rows_send] at hr
    rw [sends_send, List.mem_append, List.mem_singleton] at ha'
    rcases ha' with ha' | rfl
    · exact h.copies_done a' ha' hd r hr hf
    · exact (ha hd).2 r hr hf

end Gated

def started (inFlight : List (Action × Bool)) : List Action :=
  (inFlight.filter Prod.snd).map Prod.fst

section Run

variable {D : Type} [DecidableEq D] (sha256 : List UInt8 → D) (c : Command) (failuresOnly : Bool)

def StageInv (b : BatchState D) : Prop :=
  match b.stage with
  | .copying pending => (∀ a ∈ pending, a.operation.isDelete = false) ∧
      (∀ x ∈ b.inFlight, x.1.operation.isDelete = false) ∧
      ∀ a ∈ sends b.log, a.operation.isDelete = false
  | .deleting gs pending => (∀ a ∈ pending ++ gs.flatten, a.operation.isDelete = true) ∧
      (∀ x ∈ b.inFlight, x.1.operation.isDelete = true) ∧
      (∀ r ∈ rows b.log, r.status = .failed → r.action.operation.isDelete = true) ∧
      ((∃ x ∈ b.inFlight, x.2 = false) → b.report.reportingFailed = false)
  | .skipping _ => b.inFlight = [] ∧ ∀ a ∈ sends b.log, a.operation.isDelete = false
  | .returned _ => b.inFlight = []

def ReturnInv (b : BatchState D) (waiting : List Action) : Prop :=
  match b.stage with
  | .returned (.ok _) => waiting = [] ∧ writeTosBatchReport b.report = .ok ()
  | .returned (.error _) => True
  | stage => waiting = b.inFlight.map Prod.fst ++ remaining c stage

structure Inv (b : BatchState D) : Prop where
  report : ∃ waiting, ReportInv sha256 c.manifest failuresOnly b.report (rows b.log) waiting ∧
    ReturnInv c b waiting
  answered : (answers b.log ++ started b.inFlight).Perm (sends b.log)
  gated : Gated b.log
  stage : StageInv b

-- No started copy is dropped, and no row of a delete is lost while another delete waits to start.
def Careful (l : Label) (b : BatchState D) : Prop :=
  match l, b.stage with
  | .checkFailed, _ => ∀ x ∈ b.inFlight, x.2 = false
  | .writeFailed, .deleting _ _ => ∀ x ∈ b.inFlight, x.2 = true
  | _, _ => True

variable {sha256 c failuresOnly} {report : BatchReport D} {inFlight before after : List (Action × Bool)}
  {log : List Event} {a : Action} {status : Status} {failure : Option Text} {b b' : BatchState D}
  {l : Label} {stage : Stage}

theorem started_append (l l' : List (Action × Bool)) : started (l ++ l') = started l ++ started l' := by
  simp [started]

theorem started_start (before after : List (Action × Bool)) (a : Action) :
    (started (before ++ (a, true) :: after)).Perm (a :: started (before ++ after)) := by
  simp only [started_append]
  exact List.perm_middle

theorem started_queued (before after : List (Action × Bool)) (a : Action) :
    started (before ++ (a, false) :: after) = started (before ++ after) := by
  simp [started]

theorem Inv.lost (h : Inv sha256 c failuresOnly b) (hr : b.report.reportingFailed = false) :
    ∀ r ∈ rows b.log, r.lost = false := by
  obtain ⟨waiting, hreport, -⟩ := h.report
  intro r hr'
  cases hl : r.lost with
  | false => rfl
  | true => exact absurd (hr.symm.trans (hreport.error.mpr ⟨r, hr', hl⟩)) nofun

theorem Inv.failed (h : Inv sha256 c failuresOnly b) (hf : b.report.failed = 0) :
    ∀ r ∈ rows b.log, r.status ≠ .failed := by
  obtain ⟨waiting, hreport, -⟩ := h.report
  intro r hr he
  have hcount := hreport.failed.symm.trans hf
  rw [statusCount, List.countP_eq_zero] at hcount
  exact hcount r hr (decide_eq_true he)

theorem returned_not {waiting : List Action} {stage : Stage}
    (hs : ∀ result, stage ≠ .returned result) :
    ReturnInv c (⟨report, inFlight, log, stage⟩ : BatchState D) waiting ↔
      waiting = inFlight.map Prod.fst ++ remaining c stage := by
  cases stage with
  | returned result => exact absurd rfl (hs result)
  | copying pending => exact Iff.rfl
  | deleting gs pending => exact Iff.rfl
  | skipping pending => exact Iff.rfl

theorem init_inv (hc : c.Accounts) : Inv sha256 c failuresOnly (BatchState.init sha256 c failuresOnly) where
  report := ⟨_, (ReportInv.init sha256 c.manifest failuresOnly).perm hc.actions.symm, rfl⟩
  answered := .nil
  gated := Gated.nil
  stage := ⟨hc.copies, by simp [BatchState.init], by simp [BatchState.init, sends]⟩

theorem Inv.launch {stage stage' : Stage} (h : Inv sha256 c failuresOnly ⟨report, inFlight, log, stage⟩)
    (hs : ∀ result, stage ≠ .returned result) (hs' : ∀ result, stage' ≠ .returned result)
    (hr : remaining c stage = a :: remaining c stage')
    (hstage : StageInv (⟨report, inFlight ++ [(a, false)], log, stage'⟩ : BatchState D)) :
    Inv sha256 c failuresOnly ⟨report, inFlight ++ [(a, false)], log, stage'⟩ where
  report := by
    obtain ⟨waiting, hreport, hw⟩ := h.report
    refine ⟨waiting, hreport, (returned_not hs').mpr ?_⟩
    have hwaiting := (returned_not hs).mp hw
    rw [hwaiting, hr]
    simp
  answered := by
    have hanswered := h.answered
    simpa [started] using hanswered
  gated := h.gated
  stage := hstage

-- A row for an action that was not sent.
theorem Inv.skip {stage stage' : Stage} (h : Inv sha256 c failuresOnly ⟨report, inFlight, log, stage⟩)
    (hs : ∀ result, stage ≠ .returned result) (hs' : ∀ result, stage' ≠ .returned result)
    (hr : remaining c stage = a :: remaining c stage')
    (hw : failure.isSome = true → report.streamingSink.writes .skipped = true)
    (hstage : StageInv (⟨report.record sha256 a .skipped failure, inFlight,
      recordRow sha256 report log a .skipped false failure, stage'⟩ : BatchState D)) :
    Inv sha256 c failuresOnly ⟨report.record sha256 a .skipped failure, inFlight,
      recordRow sha256 report log a .skipped false failure, stage'⟩ where
  report := by
    obtain ⟨waiting, hreport, hwait⟩ := h.report
    have hwaiting := (returned_not hs).mp hwait
    rw [hwaiting, hr] at hreport
    exact ⟨_, (hreport.perm List.perm_middle).record false hw, (returned_not hs').mpr rfl⟩
  answered := by
    have hanswered := h.answered
    rw [recordRow, answers_row, sends_row]
    simpa using hanswered
  gated := h.gated.row fun _ hf => absurd hf nofun
  stage := hstage

omit [DecidableEq D] in
theorem Filled.running (h : Filled c b) : ∀ result, b.stage ≠ .returned result := by
  intro result he
  rw [Filled, he] at h
  exact h

omit [DecidableEq D] in
theorem StageInv.deleting_of (h : StageInv b) (hf : Filled c b) {x : Action × Bool}
    (hx : x ∈ b.inFlight) (hd : x.1.operation.isDelete = true) :
    (∀ r ∈ rows b.log, r.status = .failed → r.action.operation.isDelete = true) ∧
      ((∃ x ∈ b.inFlight, x.2 = false) → b.report.reportingFailed = false) := by
  obtain ⟨report, inFlight, log, stage⟩ := b
  cases stage with
  | copying pending => exact absurd ((h.2.1 x hx).symm.trans hd) nofun
  | deleting gs pending => exact ⟨h.2.2.1, h.2.2.2⟩
  | skipping pending => exact hf.elim
  | returned result => exact hf.elim

theorem Inv.start (h : Inv sha256 c failuresOnly ⟨report, before ++ (a, false) :: after, log, stage⟩)
    (hf : Filled c (⟨report, before ++ (a, false) :: after, log, stage⟩ : BatchState D)) :
    Inv sha256 c failuresOnly
      ⟨report, before ++ (a, true) :: after, log ++ [.send a], stage⟩ where
  report := by
    obtain ⟨waiting, hreport, hw⟩ := h.report
    have hwaiting := (returned_not hf.running).mp hw
    rw [rows_send]
    refine ⟨waiting, hreport, (returned_not hf.running).mpr ?_⟩
    rw [hwaiting, map_fst_progress before after a true false]
  answered := by
    have hanswered := h.answered
    rw [started_queued] at hanswered
    rw [answers_send, sends_send]
    refine ((started_start before after a).append_left _).trans ?_
    refine List.perm_middle.trans ?_
    exact (hanswered.cons a).trans (List.perm_append_singleton a _).symm
  gated := by
    refine h.gated.send fun hd => ?_
    obtain ⟨hcopies, hfailed⟩ := h.stage.deleting_of hf (by simp : (a, false) ∈ _) hd
    exact ⟨h.lost (hfailed ⟨(a, false), by simp, rfl⟩), hcopies⟩
  stage := by
    have hstage := h.stage
    cases stage with
    | skipping pending => exact hf.elim
    | returned result => exact hf.elim
    | copying pending =>
      obtain ⟨hp, hfl, hs⟩ := hstage
      have ha : a.operation.isDelete = false := hfl (a, false) (by simp)
      refine ⟨hp, fun x hx => ?_, fun a' ha' => ?_⟩
      · rcases List.mem_append.mp hx with hx | hx
        · exact hfl x (List.mem_append_left _ hx)
        · rcases List.mem_cons.mp hx with rfl | hx
          · exact ha
          · exact hfl x (List.mem_append_right _ (List.mem_cons_of_mem _ hx))
      · rw [sends_send, List.mem_append, List.mem_singleton] at ha'
        rcases ha' with ha' | rfl
        · exact hs a' ha'
        · exact ha
    | deleting gs pending =>
      obtain ⟨hp, hfl, hfailed, hq⟩ := hstage
      have ha : a.operation.isDelete = true := hfl (a, false) (by simp)
      refine ⟨hp, fun x hx => ?_, fun r hr => ?_, fun _ => hq ⟨(a, false), by simp, rfl⟩⟩
      · rcases List.mem_append.mp hx with hx | hx
        · exact hfl x (List.mem_append_left _ hx)
        · rcases List.mem_cons.mp hx with rfl | hx
          · exact ha
          · exact hfl x (List.mem_append_right _ (List.mem_cons_of_mem _ hx))
      · rw [rows_send] at hr
        exact hfailed r hr

theorem mem_finish {x : Action × Bool} (hx : x ∈ before ++ after) (y : Action × Bool) :
    x ∈ before ++ y :: after := by
  rcases List.mem_append.mp hx with hx | hx
  · exact List.mem_append_left _ hx
  · exact List.mem_append_right _ (List.mem_cons_of_mem _ hx)

theorem Inv.waiting_finish
    (h : Inv sha256 c failuresOnly ⟨report, before ++ (a, true) :: after, log, stage⟩)
    (hs : ∀ result, stage ≠ .returned result) :
    ReportInv sha256 c.manifest failuresOnly report (rows log)
      (a :: ((before ++ after).map Prod.fst ++ remaining c stage)) := by
  obtain ⟨waiting, hreport, hwait⟩ := h.report
  have hwaiting := (returned_not hs).mp hwait
  rw [hwaiting] at hreport
  exact hreport.perm ((finish_perm [] before after a true).append_right (remaining c stage))

theorem Inv.finish (h : Inv sha256 c failuresOnly ⟨report, before ++ (a, true) :: after, log, stage⟩)
    (hf : Filled c (⟨report, before ++ (a, true) :: after, log, stage⟩ : BatchState D))
    (hw : failure.isSome = true → report.streamingSink.writes status = true)
    (hcare : Careful (failureLabel failure)
      (⟨report, before ++ (a, true) :: after, log, stage⟩ : BatchState D)) :
    Inv sha256 c failuresOnly ⟨report.record sha256 a status failure, before ++ after,
      recordRow sha256 report log a status true failure, stage⟩ where
  report := ⟨_, (h.waiting_finish hf.running).record true hw, (returned_not hf.running).mpr rfl⟩
  answered := by
    have hanswered := h.answered
    rw [recordRow, answers_row, sends_row]
    refine List.Perm.trans ?_ hanswered
    rw [if_pos rfl, List.append_assoc]
    exact ((started_start before after a).symm).append_left _
  gated := by
    refine h.gated.row fun hd hfailed => ?_
    have hstage := h.stage
    obtain ⟨a', ha', hd'⟩ := hd
    cases stage with
    | skipping pending => exact hf.elim
    | returned result => exact hf.elim
    | copying pending => exact absurd ((hstage.2.2 a' ha').symm.trans hd') (by simp)
    | deleting gs pending => exact hstage.2.1 (a, true) (by simp)
  stage := by
    have hstage := h.stage
    cases stage with
    | skipping pending => exact hf.elim
    | returned result => exact hf.elim
    | copying pending =>
      obtain ⟨hp, hfl, hs⟩ := hstage
      refine ⟨hp, fun x hx => hfl x (mem_finish hx _), fun a' ha' => ?_⟩
      rw [recordRow, sends_row] at ha'
      exact hs a' ha'
    | deleting gs pending =>
      obtain ⟨hp, hfl, hfailed, hq⟩ := hstage
      refine ⟨hp, fun x hx => hfl x (mem_finish hx _), fun r hr hs => ?_, fun hx => ?_⟩
      · rw [recordRow, rows_row, List.mem_append, List.mem_singleton] at hr
        rcases hr with hr | rfl
        · exact hfailed r hr hs
        · exact hfl (a, true) (by simp)
      · obtain ⟨x, hx, hqueued⟩ := hx
        cases failure with
        | some m => exact absurd ((hcare x (mem_finish hx _)).symm.trans hqueued) (by simp)
        | none =>
          rw [← Bool.not_eq_true, (h.waiting_finish hf.running).record_error hw]
          simp [hq ⟨x, mem_finish hx _, hqueued⟩]

theorem Inv.begin_deletes (h : Inv sha256 c failuresOnly ⟨report, [], log, .copying []⟩)
    (hfail : report.hasFailures = false) (hd : ∀ a ∈ c.groups.flatten, a.operation.isDelete = true) :
    Inv sha256 c failuresOnly ⟨report, [], log, .deleting c.groups []⟩ where
  report := h.report
  answered := h.answered
  gated := h.gated
  stage := by
    simp only [BatchReport.hasFailures, Bool.or_eq_false_iff, decide_eq_false_iff_not] at hfail
    have hnone := h.failed (Nat.eq_zero_of_not_pos hfail.1)
    exact ⟨hd, nofun, fun r hr hs => absurd hs (hnone r hr), fun _ => hfail.2⟩

theorem Inv.returns {output : Except CliError Unit} {stage : Stage}
    (h : Inv sha256 c failuresOnly ⟨report, [], log, stage⟩)
    (hs : ∀ result, stage ≠ .returned result) (hr : remaining c stage = []) :
    Inv sha256 c failuresOnly ⟨report, [], log, .returned (finishResult report output)⟩ where
  report := by
    obtain ⟨waiting, hreport, hwait⟩ := h.report
    have hwaiting := (returned_not hs).mp hwait
    refine ⟨waiting, hreport, ?_⟩
    rw [finishResult]
    cases hwrite : writeTosBatchReport report with
    | error e => trivial
    | ok u =>
      cases output with
      | error e => trivial
      | ok u' => exact ⟨hwaiting.trans hr, hwrite⟩
  answered := h.answered
  gated := h.gated
  stage := rfl

theorem step_inv (hc : c.Accounts) (hs : Step sha256 c l b b') (hcare : Careful l b)
    (h : Inv sha256 c failuresOnly b) : Inv sha256 c failuresOnly b' := by
  cases hs with
  | launchCopy report inFlight log a pending hlen =>
    obtain ⟨hp, hfl, hsent⟩ := h.stage
    refine h.launch (by simp) (by simp) rfl ⟨fun x hx => hp x (List.mem_cons_of_mem _ hx), fun x hx => ?_, hsent⟩
    rcases List.mem_append.mp hx with hx | hx
    · exact hfl x hx
    · obtain rfl := List.mem_singleton.mp hx
      exact hp a (List.mem_cons_self ..)
  | skipCopy report inFlight log a pending failure _ _ hw =>
    obtain ⟨hp, hfl, hsent⟩ := h.stage
    refine h.skip (by simp) (by simp) rfl hw ⟨fun x hx => hp x (List.mem_cons_of_mem _ hx), hfl, fun x hx => ?_⟩
    rw [recordRow, sends_row] at hx
    exact hsent x hx
  | checkFails report inFlight log a pending e _ _ =>
    obtain ⟨waiting, hreport, -⟩ := h.report
    have hanswered := h.answered
    have hnone : started inFlight = [] := by
      rw [started, List.map_eq_nil_iff, List.filter_eq_nil_iff]
      exact fun x hx he => absurd ((hcare x hx).symm.trans he) (by simp)
    rw [hnone] at hanswered
    exact ⟨⟨waiting, hreport, trivial⟩, hanswered, h.gated, rfl⟩
  | start report before a after log stage hf => exact h.start hf
  | finish report before a after log stage status failure hf _ hw => exact h.finish hf hw hcare
  | skipDeletes report log hfail =>
    obtain ⟨waiting, hreport, hwait⟩ := h.report
    have hwaiting : waiting = c.groups.flatten := hwait
    refine ⟨⟨_, hreport.perm (hwaiting ▸ hc.skipped.symm), rfl⟩, h.answered, h.gated, rfl, ?_⟩
    exact h.stage.2.2
  | beginDeletes report log hfail => exact h.begin_deletes hfail hc.deletes
  | skipDelete report log a pending failure hw =>
    obtain ⟨-, hsent⟩ := h.stage
    refine h.skip (by simp) (by simp) rfl hw ⟨rfl, fun x hx => ?_⟩
    rw [recordRow, sends_row] at hx
    exact hsent x hx
  | endSkips report log output => exact h.returns (by simp) rfl
  | launchDelete report inFlight log gs a pending hr hlen =>
    obtain ⟨hp, hfl, hfailed, hq⟩ := h.stage
    refine h.launch (by simp) (by simp) rfl ⟨fun x hx => hp x (List.mem_cons_of_mem _ hx), fun x hx => ?_,
      hfailed, fun _ => hr⟩
    rcases List.mem_append.mp hx with hx | hx
    · exact hfl x hx
    · obtain rfl := List.mem_singleton.mp hx
      exact hp a (List.mem_cons_self ..)
  | skipRest report log gs a pending failure hr hw =>
    obtain ⟨hp, -, hfailed, -⟩ := h.stage
    refine h.skip (by simp) (by simp) rfl hw ⟨fun x hx => hp x (List.mem_cons_of_mem _ hx), (by simp),
      fun r hr hs => ?_, (by simp)⟩
    rw [recordRow, rows_row, List.mem_append, List.mem_singleton] at hr
    rcases hr with hr | rfl
    · exact hfailed r hr hs
    · cases hs
  | nextGroup report log g gs =>
    obtain ⟨waiting, hreport, hwait⟩ := h.report
    obtain ⟨hp, hfl, hfailed, hq⟩ := h.stage
    exact ⟨⟨waiting, hreport, hwait⟩, h.answered, h.gated, hp, hfl, hfailed, hq⟩
  | pruneFails report log e _ _ =>
    obtain ⟨waiting, hreport, -⟩ := h.report
    exact ⟨⟨waiting, hreport, trivial⟩, h.answered, h.gated, rfl⟩
  | endDeletes report log output => exact h.returns (by simp) rfl

theorem run_inv (hc : c.Accounts)
    (h : Runs sha256 c Careful (BatchState.init sha256 c failuresOnly) b) :
    Inv sha256 c failuresOnly b := by
  induction h with
  | refl => exact init_inv hc
  | tail _ hs ih =>
    obtain ⟨l, hcare, hs⟩ := hs
    exact step_inv hc hs hcare ih

end Run

end VeStorage.Tos.Batch
