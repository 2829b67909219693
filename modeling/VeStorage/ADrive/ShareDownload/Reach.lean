import VeStorage.ADrive.ShareDownload.Scheduling
import VeStorage.ADrive.ShareDownload.Run

namespace VeStorage.ADrive.ShareDownload
open Lib
open Share (Journal CliError)

variable (cfg : Config)

-- A loaded plan before the transfer, `verified` entries of a resumed one checked.
structure Planned (progress : Progress) (verified : Nat) : Prop where
  journal : ∃ journal, progress.journal = some journal ∧
    journal.completed.length = journal.manifest.files.length ∧
    (cfg.isResume = false → ∀ digest ∈ journal.completed, digest = none)
  isResuming : progress.isResuming = cfg.isResume
  states : progress.states = []
  length : progress.verified.length = fileCount progress
  verified : ∀ index < fileCount progress,
    progress.verified[index]? = some (!cfg.isResume || decide (index < verified))
  failures : ∀ index, progress.failures index = none
  skippedFiles : progress.skippedFiles = []
  published : progress.published = []
  saves : progress.saves = []
  rows : ∀ row ∈ progress.rows.getD [], ∃ path, row.source = .directory path

def Progress.Balanced (progress : Progress) : Prop :=
  progress.skipped = progress.credits (fileCount progress)

-- The artifacts are opened after the plan is saved.
structure Waiting (progress : Progress) (verified : Nat) : Prop where
  planned : Planned cfg progress verified
  balanced : progress.Balanced
  unopened : progress.rows = none

inductive Ended : Progress → Trace → Except CliError Unit → Bool → Prop
  | unplanned (e : CliError) (isInterrupted : Bool) :
      Ended (.default cfg.isResume) .empty (.error e) isInterrupted
  | planned {progress : Progress} {verified : Nat} (e : CliError) (isInterrupted : Bool) :
      Planned cfg progress verified → progress.Balanced →
      (∀ index, progress.active = some index → progress.rows = none ∧ cfg.isResume = true) →
      Ended progress .empty (.error e) isInterrupted
  | returned {driver : Driver} {returned result : Except CliError Unit} :
      driver.Inv none → driver.returns cfg = some returned →
      (result = .ok () → returned = .ok () ∧ driver.progress.directoryFailures = []) →
      Ended driver.progress driver.trace result false
  | interrupted {driver : Driver} (e : CliError) : driver.Inv none →
      Ended driver.progress driver.trace (.error e) true

def Run.Inv : Run → Prop
  | .scan progress => progress = .default cfg.isResume
  | .preflight progress _ => Waiting cfg progress 0 ∧ progress.active = none
  | .resuming progress index => Waiting cfg progress index ∧ index < fileCount progress ∧
      cfg.isResume = true
  | .saving progress => Waiting cfg progress (fileCount progress) ∧ progress.active = none
  | .transfer driver => driver.Inv none
  | .ended progress trace result isInterrupted => Ended cfg progress trace result isInterrupted

variable {cfg} {progress : Progress} {journal : Journal} {verified index total : Nat}

theorem fileRows_directories (h : ∀ row ∈ progress.rows.getD [], ∃ path, row.source = .directory path) :
    progress.fileRows index = [] := by
  refine List.filterMap_eq_nil_iff.mpr fun row hrow => ?_
  obtain ⟨path, hpath⟩ := h row hrow
  rw [hpath, if_neg nofun]

theorem Planned.view (h : Planned cfg progress verified) : progress.view index =
    ⟨none, (progress.reported index).isSome, false, false, false, []⟩ := by
  rw [Progress.view, h.states, h.skippedFiles, h.published, h.failures, fileRows_directories h.rows]
  rfl

theorem isOk_iff {α : Type} {answer : Except CliError α} :
    isOk answer = true ↔ ∃ a, answer = .ok a := by
  cases answer with
  | ok a => exact ⟨fun _ => ⟨a, rfl⟩, fun _ => rfl⟩
  | error e => exact ⟨nofun, fun ⟨_, he⟩ => nomatch he⟩

theorem digest_eq (h : progress.journal = some journal) :
    progress.digest index = (journal.completed[index]?).join := by
  rw [Progress.digest, h, Option.bind_some]

theorem fileCount_eq (h : progress.journal = some journal) :
    fileCount progress = journal.manifest.files.length := by
  rw [fileCount, h]
  rfl

theorem completed_eq_map (completed : List (Option Text)) :
    completed = (List.range completed.length).map fun index => (completed[index]?).join := by
  refine List.ext_getElem? fun index => ?_
  rw [List.getElem?_map]
  by_cases hi : index < completed.length
  · rw [List.getElem?_range hi, Option.map_some, List.getElem?_eq_getElem hi]
    rfl
  · rw [List.getElem?_eq_none (by simpa using hi), List.getElem?_eq_none (by simpa using hi)]
    rfl

theorem Planned.digest_fresh (h : Planned cfg progress verified) (hr : cfg.isResume = false) :
    progress.digest index = none := by
  obtain ⟨journal, hj, -, hfresh⟩ := h.journal
  rw [digest_eq hj]
  cases hget : journal.completed[index]? with
  | none => rfl
  | some digest => exact hfresh hr digest (List.mem_of_getElem? hget)

theorem Planned.reported (h : Planned cfg progress verified) (hi : index < fileCount progress) :
    (progress.reported index).isSome =
      ((progress.digest index).isSome && decide (index < verified)) := by
  rw [Progress.reported, h.isResuming, h.verified index hi]
  cases hr : cfg.isResume with
  | true => cases progress.digest index <;> simp
  | false =>
    rw [h.digest_fresh hr]
    rfl

theorem load_planned (hl : isLoadable cfg journal = true) :
    Planned cfg (load cfg journal (.default cfg.isResume)) 0 := by
  rw [isLoadable, Bool.and_eq_true, isOk_iff] at hl
  obtain ⟨⟨u, hvalid⟩, hfresh⟩ := hl
  have haccepted := (Journal.validate_eq_ok cfg.env).mp hvalid
  have hcompleted : cfg.isResume = false → ∀ digest ∈ journal.completed, digest = none := by
    intro hr
    rw [hr, Bool.false_or, List.all_eq_true] at hfresh
    exact fun digest hd => Option.isNone_iff_eq_none.mp (hfresh digest hd)
  refine ⟨⟨journal, rfl, haccepted.counted, hcompleted⟩, rfl, rfl, List.length_replicate, ?_,
    fun _ => rfl, rfl, rfl, rfl, nofun⟩
  intro index hi
  have hlt : index < journal.manifest.files.length := hi
  rw [load, List.getElem?_replicate, if_pos hlt]
  simp

theorem Planned.credited (h : Planned cfg progress verified) (hi : index < fileCount progress) :
    (progress.view index).credited =
      ((progress.digest index).isSome && decide (index < verified)) := by
  rw [h.view, FileView.credited, h.reported hi]
  simp

theorem load_balanced (hl : isLoadable cfg journal = true) :
    (load cfg journal (.default cfg.isResume)).Balanced := by
  refine (List.countP_eq_zero.mpr fun index hi => ?_).symm
  rw [(load_planned hl).credited (List.mem_range.mp hi)]
  simp

theorem verifyResumed_planned (h : Planned cfg progress index) (hi : index < fileCount progress)
    (hr : cfg.isResume = true) : Planned cfg (verifyResumed progress index) (index + 1) where
  journal := h.journal
  isResuming := h.isResuming
  states := h.states
  length := by
    rw [verifyResumed, List.length_set]
    exact h.length
  verified := by
    intro other hother
    have hget := h.verified other hother
    rcases Nat.lt_trichotomy other index with hlt | rfl | hlt
    · rw [verifyResumed, List.getElem?_set_ne (Nat.ne_of_gt hlt), hget]
      simp [hlt, Nat.lt_succ_of_lt hlt]
    · rw [verifyResumed, List.getElem?_set_self (h.length.symm ▸ hi)]
      simp
    · rw [verifyResumed, List.getElem?_set_ne (Nat.ne_of_lt hlt), hget]
      simp [hr]
      omega
  failures := h.failures
  skippedFiles := h.skippedFiles
  published := h.published
  saves := h.saves
  rows := h.rows

theorem verifyResumed_balanced (h : Planned cfg progress index) (hb : progress.Balanced)
    (hi : index < fileCount progress) (hr : cfg.isResume = true) :
    (verifyResumed progress index).Balanced := by
  have hplanned := verifyResumed_planned h hi hr
  have hothers : ∀ other ∈ List.range (fileCount progress), other ≠ index →
      ((verifyResumed progress index).view other).credited = (progress.view other).credited := by
    intro other ho hne
    have hlt := List.mem_range.mp ho
    have hdecide : decide (other < index + 1) = decide (other < index) :=
      decide_eq_decide.mpr (by omega)
    rw [hplanned.credited hlt, h.credited hlt, hdecide]
    rfl
  have hcredits := countP_update List.nodup_range (List.mem_range.mpr hi) hothers
  rw [hplanned.credited hi, h.credited hi] at hcredits
  rw [Progress.Balanced] at hb ⊢
  simp only [Nat.lt_irrefl, Nat.lt_succ_self, decide_false, decide_true, Bool.and_false,
    Bool.and_true] at hcredits
  have hskipped : (verifyResumed progress index).skipped =
    progress.skipped + (progress.digest index).isSome.toNat := rfl
  rw [hskipped, hb]
  exact hcredits.symm

theorem countP_completed (completed : List (Option Text)) : completed.countP Option.isSome =
    (List.range completed.length).countP fun index => (completed[index]?).join.isSome := by
  rw [congrArg (List.countP Option.isSome) (completed_eq_map completed), List.countP_map]
  rfl

theorem beginTransferDisplay_eq (h : Planned cfg progress (fileCount progress))
    (hb : progress.Balanced) : beginTransferDisplay progress = progress := by
  obtain ⟨journal, hj, hlength, -⟩ := h.journal
  have hskipped : journal.completed.countP Option.isSome = progress.skipped := by
    rw [hb, countP_completed, hlength, Progress.credits, fileCount_eq hj]
    refine List.countP_congr fun index hi => ?_
    have hlt : index < fileCount progress := fileCount_eq hj ▸ List.mem_range.mp hi
    rw [h.credited hlt, decide_eq_true hlt, Bool.and_true, digest_eq hj]
  rw [beginTransferDisplay, hj]
  dsimp only
  rw [hskipped, ← hj]

variable (progress) in
theorem recordDirectories_spec (directoryRow : Text → Except CliError Unit)
    (failures : List DirectoryFailure) {rows : List Row} (hp : progress.rows = some rows)
    (hr : ∀ row ∈ rows, ∃ path, row.source = .directory path)
    (hw : ∀ row ∈ rows, row.isWritten = true) :
    ∃ rows', (recordDirectories directoryRow progress failures).1 = { progress with rows := some rows' } ∧
      (∀ row ∈ rows', ∃ path, row.source = .directory path) ∧
      ((recordDirectories directoryRow progress failures).2 = .ok () →
        ∀ row ∈ rows', row.isWritten = true) := by
  induction failures generalizing progress rows with
  | nil => exact ⟨rows, by rw [recordDirectories, ← hp], hr, fun _ => hw⟩
  | cons failure failures ih =>
    have hsource : ∀ row ∈ rows ++ [⟨.directory failure.path, .failed, some failure.message,
        isOk (directoryRow failure.path)⟩], ∃ path, row.source = .directory path := by
      intro row hrow
      rcases List.mem_append.mp hrow with hrow | hrow
      · exact hr row hrow
      · exact ⟨failure.path, List.mem_singleton.mp hrow ▸ rfl⟩
    rw [recordDirectories, Progress.addRow, hp, Option.map_some]
    cases hanswer : directoryRow failure.path with
    | error e =>
      rw [hanswer] at hsource
      exact ⟨_, rfl, hsource, (by simp)⟩
    | ok u =>
      rw [hanswer] at hsource
      refine ih _ rfl hsource fun row hrow => ?_
      rcases List.mem_append.mp hrow with hrow | hrow
      · exact hw row hrow
      · exact List.mem_singleton.mp hrow ▸ rfl

theorem start_inv {rows : List Row} (h : Planned cfg progress (fileCount progress))
    (hb : progress.Balanced) (ha : progress.active = none)
    (hr : ∀ row ∈ rows, ∃ path, row.source = .directory path)
    (hw : ∀ row ∈ rows, row.isWritten = true) :
    (Driver.start { progress with rows := some rows } (fileCount progress)).Inv none := by
  obtain ⟨journal, hj, hlength, -⟩ := h.journal
  have hview : ∀ index < fileCount progress,
      (Driver.start { progress with rows := some rows } (fileCount progress)).progress.view index =
        .untouched (progress.reported index).isSome := by
    intro index hi
    have hstate : (Driver.start { progress with rows := some rows }
        (fileCount progress)).progress.states[index]? = some 0 := by
      rw [Driver.start, List.getElem?_replicate, if_pos hi]
    have hrows : (Driver.start { progress with rows := some rows }
        (fileCount progress)).progress.fileRows index = [] := fileRows_directories hr
    rw [Progress.view, hstate, hrows, Driver.start]
    dsimp only
    rw [h.skippedFiles, h.published, h.failures]
    rfl
  have hrange : List.range (fileCount progress) = List.range' 0 (fileCount progress - 0) :=
    List.range_eq_range'
  have hnotLossy : ¬ (Driver.start { progress with rows := some rows }
      (fileCount progress)).progress.Lossy := by
    rintro (⟨row, hrow, hlost⟩ | ⟨save, hsave, -⟩)
    · exact absurd ((hw row hrow).symm.trans hlost) (by simp)
    · have hnil : save ∈ progress.saves := hsave
      rw [h.saves] at hnil
      cases hnil
  refine ⟨⟨⟨⟨journal, hj, (fileCount_eq hj).symm, hlength.trans (fileCount_eq hj).symm⟩,
      List.length_replicate, fun index hi => ?_, rfl, ha⟩, ?_, fun index hi => ?_, by rintro _ ⟨⟩, hb⟩, rfl,
      Nat.zero_le _, fun index hi hf => ?_, by rintro ⟨⟩, fun hl => absurd hl hnotLossy, by rintro _ ⟨⟩,
      ⟨.nil, .nil, by rintro _ ⟨⟩, .nil, by rintro _ ⟨⟩, by rintro _ ⟨⟩⟩, .nil, by rintro _ ⟨⟩, rfl,
      by rintro _ ⟨⟩⟩
  · have hlt : index < fileCount progress := hi
    have hverified := h.verified index hlt
    rw [decide_eq_true hlt, Bool.or_true] at hverified
    exact hverified
  · refine hrange ▸ ?_
    exact PoolInv.all_pending List.nodup_range
  · have hlt : index < fileCount progress := by
      have hmem := List.mem_range'_1.mp hi
      have hcount : (Driver.start { progress with rows := some rows }
        (fileCount progress)).next = 0 := rfl
      have hnext : (Driver.start { progress with rows := some rows }
        (fileCount progress)).count = fileCount progress := rfl
      omega
    exact ⟨_, hview index hlt⟩
  · rw [hview index hi] at hf
    cases hf

theorem begin_inv {opening : Opening} (hw : Waiting cfg progress (fileCount progress))
    (ha : progress.active = none) : (begin cfg opening progress).Inv cfg := by
  obtain ⟨h, hb, -⟩ := hw
  have hactive : ∀ index, progress.active = some index →
      progress.rows = none ∧ cfg.isResume = true := fun index hi => absurd (ha.symm.trans hi) nofun
  have hopen : Planned cfg { progress with rows := some [] } (fileCount progress) :=
    ⟨h.journal, h.isResuming, h.states, h.length, h.verified, h.failures, h.skippedFiles,
      h.published, h.saves, nofun⟩
  obtain ⟨rows, hrows, hsource, hwritten⟩ := recordDirectories_spec
    { progress with rows := some [] } opening.directoryRow progress.directoryFailures rfl nofun nofun
  have hrecorded : Planned cfg { progress with rows := some rows } (fileCount progress) :=
    ⟨h.journal, h.isResuming, h.states, h.length, h.verified, h.failures, h.skippedFiles,
      h.published, h.saves, hsource⟩
  rw [begin]
  split
  · exact .planned _ false h hb hactive
  · rw [beginTransferDisplay_eq h hb]
    dsimp only
    split
    · exact .planned _ false h hb hactive
    · exact .planned _ false hopen hb fun index hi => absurd (ha.symm.trans hi) nofun
    · generalize hresult : recordDirectories opening.directoryRow { progress with rows := some [] }
        progress.directoryFailures = recorded at hrows hwritten
      obtain ⟨q, result⟩ := recorded
      dsimp only at hrows hwritten
      subst hrows
      cases result with
      | error e => exact .planned e false hrecorded hb fun index hi => absurd (ha.symm.trans hi) nofun
      | ok u => exact start_inv h hb ha hsource (hwritten rfl)

theorem Planned.weaken (h : Planned cfg progress 0) (hr : cfg.isResume = false) :
    Planned cfg progress (fileCount progress) :=
  ⟨h.journal, h.isResuming, h.states, h.length, fun index hi => by
    rw [h.verified index hi, hr, Bool.not_false, Bool.true_or, Bool.true_or], h.failures,
    h.skippedFiles, h.published, h.saves, h.rows⟩

theorem Planned.activate {active : Option Nat} (h : Planned cfg progress verified) :
    Planned cfg { progress with active := active } verified :=
  ⟨h.journal, h.isResuming, h.states, h.length, h.verified, h.failures, h.skippedFiles,
    h.published, h.saves, h.rows⟩

theorem enterResume_inv (h : Waiting cfg progress index) (ha : progress.active = none)
    (hr : cfg.isResume = true) (hi : index ≤ fileCount progress) :
    (enterResume progress index).Inv cfg := by
  rw [enterResume]
  split
  next hlt => exact ⟨⟨h.planned.activate, h.balanced, h.unopened⟩, hlt, hr⟩
  next hge =>
    obtain rfl : index = fileCount progress := Nat.le_antisymm hi (Nat.not_lt.mp hge)
    exact ⟨h, ha⟩

theorem Planned.directories {failures : List DirectoryFailure} (h : Planned cfg progress verified) :
    Planned cfg { progress with directoryFailures := failures } verified :=
  ⟨h.journal, h.isResuming, h.states, h.length, h.verified, h.failures, h.skippedFiles,
    h.published, h.saves, h.rows⟩

theorem Waiting.active (h : Waiting cfg progress verified)
    (ha : progress.active = none ∨ cfg.isResume = true) (index : Nat)
    (hi : progress.active = some index) : progress.rows = none ∧ cfg.isResume = true :=
  ⟨h.unopened, ha.resolve_left fun hn => absurd (hn.symm.trans hi) nofun⟩

theorem interrupt_waiting {signal : Except CliError Unit} (h : Waiting cfg progress verified)
    (ha : progress.active = none ∨ cfg.isResume = true) :
    (interrupt progress .empty signal).Inv cfg := by
  cases signal with
  | ok u => exact .planned _ true h.planned h.balanced (h.active ha)
  | error e => exact .planned e true h.planned h.balanced (h.active ha)

theorem finishTransfer_inv {driver : Driver} {result : Except CliError Unit} (h : driver.Inv none)
    (hr : driver.returns cfg = some result) : (finishTransfer driver result).Inv cfg := by
  rw [finishTransfer.eq_def]
  split
  next e => exact .returned h hr nofun
  next =>
    split
    next => exact .returned h hr nofun
    next hd => exact .returned h hr fun _ => ⟨rfl, hd⟩

theorem Run.Inv.step {r r' : Run} {event : Event} (h : r.Inv cfg)
    (hs : r.step cfg event = some r') : r'.Inv cfg := by
  rw [Run.step.eq_def] at hs
  split at hs
  next progress e =>
    obtain rfl := Option.some.inj hs
    obtain rfl : progress = .default cfg.isResume := h
    exact .unplanned e false
  next progress journal reserved =>
    obtain rfl : progress = .default cfg.isResume := h
    split at hs
    next hl =>
      cases reserved with
      | error e =>
        obtain rfl := Option.some.inj hs
        exact .planned e false (load_planned hl) (load_balanced hl) nofun
      | ok u =>
        obtain rfl := Option.some.inj hs
        exact ⟨⟨load_planned hl, load_balanced hl, rfl⟩, rfl⟩
    next => cases hs
  next =>
    obtain rfl := Option.some.inj hs
    exact h
  next =>
    obtain rfl := Option.some.inj hs
    exact ⟨⟨h.1.planned.directories, h.1.balanced, h.1.unopened⟩, h.2⟩
  next progress =>
    obtain rfl := Option.some.inj hs
    split
    next hr => exact enterResume_inv h.1 h.2 hr (Nat.zero_le _)
    next hr =>
      obtain ⟨⟨hplanned, hbalanced, hopen⟩, ha⟩ := h
      exact ⟨⟨hplanned.weaken (Bool.eq_false_iff.mpr hr), hbalanced, hopen⟩, ha⟩
  next =>
    obtain rfl := Option.some.inj hs
    exact .planned _ false h.1.planned h.1.balanced (h.1.active (.inr h.2.2))
  next progress index =>
    obtain rfl := Option.some.inj hs
    obtain ⟨⟨hplanned, hbalanced, hopen⟩, hi, hr⟩ := h
    exact enterResume_inv ⟨verifyResumed_planned hplanned hi hr,
      verifyResumed_balanced hplanned hbalanced hi hr, hopen⟩ rfl hr hi
  next =>
    obtain rfl := Option.some.inj hs
    exact begin_inv h.1 h.2
  next driver event =>
    obtain ⟨driver', hstep, rfl⟩ := Option.map_eq_some_iff.mp hs
    exact Driver.Inv.step h hstep
  next driver =>
    obtain ⟨result, hresult, rfl⟩ := Option.map_eq_some_iff.mp hs
    exact finishTransfer_inv h hresult
  next progress signal =>
    obtain rfl := Option.some.inj hs
    obtain rfl : progress = .default cfg.isResume := h
    cases signal with
    | ok u => exact .unplanned _ true
    | error e => exact .unplanned e true
  next =>
    obtain rfl := Option.some.inj hs
    exact interrupt_waiting h.1 (.inl h.2)
  next =>
    obtain rfl := Option.some.inj hs
    exact interrupt_waiting h.1 (.inr h.2.2)
  next driver signal =>
    split at hs
    next =>
      obtain rfl := Option.some.inj hs
      cases signal with
      | ok u => exact .interrupted _ h
      | error e => exact .interrupted e h
    next => cases hs
  next => cases hs

theorem Run.Inv.reaches {r r' : Run} (h : r.Inv cfg) (hs : Reaches cfg r r') : r'.Inv cfg := by
  induction hs with
  | refl => exact h
  | tail _ hstep ih =>
    obtain ⟨event, hevent⟩ := hstep
    exact ih.step hevent

theorem start_reaches {r : Run} (hs : Reaches cfg (.start cfg) r) : r.Inv cfg :=
  Run.Inv.reaches (r := .start cfg) rfl hs

end VeStorage.ADrive.ShareDownload
