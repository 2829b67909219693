import VeStorage.Tos.Batch.Run

namespace VeStorage.Tos.Batch
open Lib
open Move (MvArgs moveDeleteGroups)

section Commands

theorem numbered_count (items : List TransferManifestItem) :
    (TransferManifest.fromItems items).objectCount = (TransferManifest.fromItems items).items.length :=
  (numberedFrom_length 0 items).symm

theorem numbered_ids (items : List TransferManifestItem) :
    ((TransferManifest.fromItems items).items.map TransferManifestItem.actionId).Nodup :=
  (numberedFrom_ids 0 items).1.imp ne_of_lt

theorem numbered_actions (items : List TransferManifestItem) :
    (TransferManifest.fromItems items).actions = items.map TransferManifestItem.toAction :=
  numberedFrom_actions 0 items

theorem move_actions (planned : List TransferPlanItem) :
    (buildMoveTransferManifest planned).actions.Perm
      (planned.map (copyAction .copy) ++ planned.map deleteSourceAction) := by
  rw [buildMoveTransferManifest, numbered_actions]
  exact moveItems_actions 0 planned

def rootActions (args : MvArgs) (planned : List TransferPlanItem) (useHnsBottomUp : Bool) : List Action :=
  ((unplannedSourceRoot args planned useHnsBottomUp).map fun root => rootAction root.2).toList

theorem move_root_actions (args : MvArgs) (planned : List TransferPlanItem) (useHnsBottomUp : Bool) :
    (appendMoveSourceRootAction (buildMoveTransferManifest planned) args planned
      useHnsBottomUp).actions.Perm (planned.map (copyAction .copy) ++
        (planned.map deleteSourceAction ++ rootActions args planned useHnsBottomUp)) := by
  rw [appendMoveSourceRootAction, rootActions]
  cases unplannedSourceRoot args planned useHnsBottomUp with
  | none => simpa using move_actions planned
  | some root =>
    rw [numbered_actions, List.map_append, ← List.append_assoc]
    exact (move_actions planned).append_right _

theorem sync_actions (planned : List TransferPlanItem) (deletePlan : List SyncExtra) :
    (syncManifest planned deletePlan).actions = planned.map (copyAction .syncCopy) ++
      deletePlan.map fun extra => deleteExtraAction extra.toDeleteExtra := by
  rw [syncManifest, numbered_actions, List.map_append, List.map_map, List.map_map]
  rfl

theorem mvTos_accounts (args : MvArgs) (planned : List TransferPlanItem) (useHnsBottomUp : Bool)
    (batchConcurrency : Nat) :
    (executeMvRecursiveTos args planned useHnsBottomUp batchConcurrency).Accounts := by
  have hactions := move_root_actions args planned useHnsBottomUp
  have hgroups : (executeMvRecursiveTos args planned useHnsBottomUp batchConcurrency).groups.flatten.Perm
      (planned.map deleteSourceAction ++ rootActions args planned useHnsBottomUp) := by
    simp only [executeMvRecursiveTos, List.flatten_append]
    refine List.Perm.append ?_ ?_
    · rw [← List.map_flatten]
      exact (moveDeleteGroups_perm planned useHnsBottomUp).map deleteSourceAction
    · rw [rootActions]
      cases unplannedSourceRoot args planned useHnsBottomUp <;> simp
  have hdeletes : ∀ a ∈ planned.map deleteSourceAction ++ rootActions args planned useHnsBottomUp,
      a.operation = .deleteSource := by
    intro a ha
    rcases List.mem_append.mp ha with ha | ha
    · obtain ⟨item, -, rfl⟩ := List.mem_map.mp ha
      rfl
    · obtain ⟨root, -, rfl⟩ := Option.map_eq_some_iff.mp (Option.mem_toList.mp ha)
      rfl
  have hcopies : ∀ a ∈ planned.map (copyAction .copy), a.operation = .copy := by
    intro a ha
    obtain ⟨item, -, rfl⟩ := List.mem_map.mp ha
    rfl
  exact {
    count := by
      simp only [executeMvRecursiveTos, appendMoveSourceRootAction]
      cases unplannedSourceRoot args planned useHnsBottomUp <;> exact numbered_count _
    ids := by
      simp only [executeMvRecursiveTos, appendMoveSourceRootAction]
      cases unplannedSourceRoot args planned useHnsBottomUp <;> exact numbered_ids _
    actions := (hgroups.append_left _).trans hactions.symm
    skipped := by
      refine List.Perm.trans ?_ hgroups.symm
      refine (hactions.filter _).trans ?_
      rw [List.filter_append, List.filter_eq_nil_iff.mpr, List.nil_append, List.filter_eq_self.mpr]
      · exact fun a ha => decide_eq_true (hdeletes a ha)
      · intro a ha
        simp [hcopies a ha]
    copies := fun a ha => by rw [hcopies a ha]; rfl
    deletes := fun a ha => by rw [hdeletes a (hgroups.mem_iff.mp ha)]; rfl }

theorem mvLocal_accounts (planned : List TransferPlanItem) :
    (executeMvRecursiveLocal planned).Accounts where
  count := numbered_count _
  ids := numbered_ids _
  actions := by
    simpa [executeMvRecursiveLocal] using (move_actions planned).symm
  skipped := by simp [executeMvRecursiveLocal]
  copies := by simp [executeMvRecursiveLocal, copyAction, Operation.isDelete]
  deletes := by simp [executeMvRecursiveLocal, deleteSourceAction, Operation.isDelete]

theorem syncRecursive_accounts (planned : List TransferPlanItem) (deletePlan : List SyncExtra)
    (batchConcurrency : Nat) : (executeSyncRecursive planned deletePlan batchConcurrency).Accounts := by
  have hgroups := (syncDeleteGroups_perm deletePlan).map fun extra =>
    deleteExtraAction extra.toDeleteExtra
  rw [List.map_flatten] at hgroups
  exact {
    count := numbered_count _
    ids := numbered_ids _
    actions := (hgroups.append_left _).trans (.of_eq (sync_actions planned deletePlan).symm)
    skipped := hgroups.symm
    copies := by simp [executeSyncRecursive, copyAction, Operation.isDelete]
    deletes := fun a ha => by
      obtain ⟨extra, -, rfl⟩ := List.mem_map.mp (hgroups.mem_iff.mp ha)
      rfl }

theorem syncLocalToTos_accounts (planned : List TransferPlanItem) (extras : List SyncExtra)
    (isHns : Bool) (batchConcurrency : Nat) :
    (executeSyncLocalToTos planned extras isHns batchConcurrency).Accounts where
  count := numbered_count _
  ids := numbered_ids _
  actions := by
    simp only [executeSyncLocalToTos, List.flatten_cons, List.flatten_nil, List.append_nil]
    exact .of_eq (sync_actions planned _).symm
  skipped := by simp [executeSyncLocalToTos]
  copies := by simp [executeSyncLocalToTos, copyAction, Operation.isDelete]
  deletes := by simp [executeSyncLocalToTos, deleteExtraAction, Operation.isDelete]

theorem syncLocalToLocal_accounts (planned : List TransferPlanItem) (deletePlan : List SyncExtra) :
    (executeSyncLocalToLocal planned deletePlan).Accounts where
  count := numbered_count _
  ids := numbered_ids _
  actions := by
    simp only [executeSyncLocalToLocal, List.flatten_cons, List.flatten_nil, List.append_nil]
    exact .of_eq (sync_actions planned deletePlan).symm
  skipped := by simp [executeSyncLocalToLocal]
  copies := by simp [executeSyncLocalToLocal, copyAction, Operation.isDelete]
  deletes := by simp [executeSyncLocalToLocal, deleteExtraAction, Operation.isDelete]

end Commands

inductive BatchCommand where
  | mvRecursiveTos (args : MvArgs) (planned : List TransferPlanItem) (useHnsBottomUp : Bool)
      (batchConcurrency : Nat)
  | mvRecursiveLocal (planned : List TransferPlanItem)
  | syncRecursive (planned : List TransferPlanItem) (deletePlan : List SyncExtra) (batchConcurrency : Nat)
  | syncLocalToTos (planned : List TransferPlanItem) (extras : List SyncExtra) (isHns : Bool)
      (batchConcurrency : Nat)
  | syncLocalToLocal (planned : List TransferPlanItem) (deletePlan : List SyncExtra)

def BatchCommand.command : BatchCommand → Command
  | .mvRecursiveTos args planned useHnsBottomUp n => executeMvRecursiveTos args planned useHnsBottomUp n
  | .mvRecursiveLocal planned => executeMvRecursiveLocal planned
  | .syncRecursive planned deletePlan n => executeSyncRecursive planned deletePlan n
  | .syncLocalToTos planned extras isHns n => executeSyncLocalToTos planned extras isHns n
  | .syncLocalToLocal planned deletePlan => executeSyncLocalToLocal planned deletePlan

theorem BatchCommand.accounts (b : BatchCommand) : b.command.Accounts := by
  cases b with
  | mvRecursiveTos args planned useHnsBottomUp n => exact mvTos_accounts args planned useHnsBottomUp n
  | mvRecursiveLocal planned => exact mvLocal_accounts planned
  | syncRecursive planned deletePlan n => exact syncRecursive_accounts planned deletePlan n
  | syncLocalToTos planned extras isHns n => exact syncLocalToTos_accounts planned extras isHns n
  | syncLocalToLocal planned deletePlan => exact syncLocalToLocal_accounts planned deletePlan

-- The hash tells the actions of the manifest apart, and their strings have the lengths of strings.
structure ActionHash (D : Type) (manifest : TransferManifest) where
  sha256 : List UInt8 → D
  collision_free : ∀ a ∈ manifest.actions, ∀ a' ∈ manifest.actions,
    transferActionFingerprint sha256 a = transferActionFingerprint sha256 a' →
      fieldsBytes (fingerprintFields a) = fieldsBytes (fingerprintFields a')
  sized : ∀ a ∈ manifest.actions, Sized (fingerprintFields a)

theorem Operation.name_injective {o o' : Operation} (h : o.name = o'.name) : o = o' := by
  cases o <;> cases o' <;> first | rfl | exact absurd h (by decide)

theorem ActionHash.fingerprint_inj {D : Type} {manifest : TransferManifest}
    (hash : ActionHash D manifest) {a a' : Action} (ha : a ∈ manifest.actions)
    (ha' : a' ∈ manifest.actions)
    (h : transferActionFingerprint hash.sha256 a = transferActionFingerprint hash.sha256 a') :
    a = a' := by
  have hfields : fingerprintFields a = fingerprintFields a' :=
    fieldsBytes_inj rfl (hash.sized a ha) (hash.sized a' ha') (hash.collision_free a ha a' ha' h)
  obtain ⟨operation, source, destination⟩ := a
  obtain ⟨operation', source', destination'⟩ := a'
  simp only [fingerprintFields, List.cons.injEq, Option.some.injEq, and_true] at hfields
  obtain ⟨hname, rfl, rfl⟩ := hfields
  rw [Operation.name_injective hname]

structure Complete {D : Type} (c : Command) (failuresOnly : Bool) (b : BatchState D) : Prop where
  total : b.report.planned = b.report.succeeded + b.report.failed + b.report.skipped
  actions : ((rows b.log).map Recorded.action).Perm c.manifest.actions
  ids_distinct : ((rows b.log).map Recorded.actionId).Nodup
  ids_match : ∀ r ∈ rows b.log, ∃ item ∈ c.manifest.items,
    r.actionId = some item.actionId ∧ r.action = item.toAction
  written : b.report.streamingSink.rows = (rows b.log).filterMap (csvRow failuresOnly)
  kept : ∀ r ∈ rows b.log, r.lost = false
  no_error : b.report.streamingSink.error = none

structure Accounted {D : Type} (c : Command) (failuresOnly : Bool) (b : BatchState D) : Prop where
  answered : ∀ result, b.stage = .returned result → (answers b.log).Perm (sends b.log)
  gated : Gated b.log
  complete : ∀ code, b.stage = .returned (.ok code) → Complete c failuresOnly b

section Accounted

variable {D : Type} [DecidableEq D] {sha256 : List UInt8 → D} {c : Command} {failuresOnly : Bool}
  {b : BatchState D} {recorded : List Recorded} {report : BatchReport D}

theorem statusCount_total (recorded : List Recorded) :
    statusCount .succeeded recorded + statusCount .failed recorded + statusCount .skipped recorded =
      recorded.length := by
  induction recorded with
  | nil => rfl
  | cons r recorded ih =>
    simp only [statusCount, List.countP_cons, List.length_cons] at ih ⊢
    cases hs : r.status <;> simp <;> omega

omit [DecidableEq D] in
theorem resolvedPairs_ids (hr : ∀ r ∈ recorded, ∃ id, r.actionId = some id) :
    recorded.map Recorded.actionId = (resolvedPairs sha256 recorded).map fun p => some p.2 := by
  induction recorded with
  | nil => rfl
  | cons r recorded ih =>
    obtain ⟨id, hid⟩ := hr r (List.mem_cons_self ..)
    have hrest := ih fun r' hr' => hr r' (List.mem_cons_of_mem _ hr')
    simp only [resolvedPairs] at hrest ⊢
    simp [hid, hrest]

omit [DecidableEq D] in
theorem ReportInv.complete_ids (hash : ActionHash D c.manifest)
    (h : ReportInv hash.sha256 c.manifest failuresOnly report recorded []) :
    (resolvedPairs hash.sha256 recorded).Perm (manifestPairs hash.sha256 c.manifest) := by
  have hempty := h.unresolved_waiting
  rw [List.map_nil, List.perm_nil, List.map_eq_nil_iff] at hempty
  have hids := h.ids
  rwa [hempty, List.append_nil] at hids

omit [DecidableEq D] in
theorem ReportInv.row_item (hash : ActionHash D c.manifest)
    (h : ReportInv hash.sha256 c.manifest failuresOnly report recorded []) {r : Recorded}
    (hr : r ∈ recorded) :
    ∃ item ∈ c.manifest.items, r.actionId = some item.actionId ∧ r.action = item.toAction := by
  obtain ⟨id, hid⟩ := h.resolved r hr
  have hpair : (transferActionFingerprint hash.sha256 r.action, id) ∈ resolvedPairs hash.sha256 recorded :=
    List.mem_filterMap.mpr ⟨r, hr, by rw [hid]; rfl⟩
  obtain ⟨item, hitem, heq⟩ := List.mem_map.mp ((h.complete_ids hash).mem_iff.mp hpair)
  obtain ⟨hfp, rfl⟩ := Prod.mk.inj heq
  have hactions := h.actions
  rw [List.append_nil] at hactions
  refine ⟨item, hitem, hid, hash.fingerprint_inj (hactions.mem_iff.mp (List.mem_map_of_mem hr)) ?_ hfp.symm⟩
  exact List.mem_map_of_mem hitem

theorem ReportInv.complete (hc : c.Accounts) (hash : ActionHash D c.manifest)
    (h : ReportInv hash.sha256 c.manifest failuresOnly b.report (rows b.log) [])
    (hw : writeTosBatchReport b.report = .ok ()) : Complete c failuresOnly b := by
  have hactions := h.actions
  rw [List.append_nil] at hactions
  have herror : b.report.streamingSink.error = none := by
    rw [writeTosBatchReport] at hw
    cases he : b.report.streamingSink.error with
    | none => rfl
    | some e =>
      rw [he] at hw
      cases hw
  exact {
    total := by
      have hlength := hactions.length_eq
      rw [List.length_map, TransferManifest.actions, List.length_map, ← hc.count] at hlength
      rw [h.planned, h.succeeded, h.failed, h.skipped, statusCount_total, hlength]
    actions := hactions
    ids_distinct := by
      rw [resolvedPairs_ids h.resolved]
      refine (((h.complete_ids hash).map _).nodup_iff).mpr ?_
      have hids := hc.ids.map (Option.some_injective Nat)
      simpa [manifestPairs, Function.comp_def] using hids
    ids_match := fun r hr => h.row_item hash hr
    written := h.csv
    kept := fun r hr => by
      cases hl : r.lost with
      | false => rfl
      | true =>
        have hfailed : b.report.streamingSink.hasError = true := h.error.mpr ⟨r, hr, hl⟩
        rw [StreamingReportSink.error, if_pos hfailed] at herror
        cases herror
    no_error := herror }

end Accounted

theorem careful_runs_accounted {D : Type} [DecidableEq D] (command : BatchCommand)
    (hash : ActionHash D command.command.manifest) (failuresOnly : Bool) {b : BatchState D}
    (h : Runs hash.sha256 command.command Careful
      (BatchState.init hash.sha256 command.command failuresOnly) b) :
    Accounted command.command failuresOnly b := by
  have hinv := run_inv command.accounts h
  obtain ⟨waiting, hreport, hreturn⟩ := hinv.report
  refine ⟨fun result hr => ?_, hinv.gated, fun code hr => ?_⟩
  · have hanswered := hinv.answered
    have hstage := hinv.stage
    rw [StageInv, hr] at hstage
    rwa [hstage, started, List.filter_nil, List.map_nil, List.append_nil] at hanswered
  · rw [ReturnInv, hr] at hreturn
    obtain ⟨rfl, hw⟩ := hreturn
    exact hreport.complete command.accounts hash hw

def plannedItem (name : Char) : TransferPlanItem where
  relativeKey := [name]
  source := [name]
  destination := "tos://b/".toList ++ [name]
  size := 1
  etag := none
  lastModified := none

theorem sized_of {fields : List (Option Text)}
    (h : ∀ f ∈ fields, (textBytes (f.getD [])).length < 256) : Sized fields := by
  intro value hv
  exact (h (some value) hv).trans (by decide)

-- A hash without collisions on every manifest: the bytes themselves.
def plainHash (manifest : TransferManifest)
    (h : ∀ a ∈ manifest.actions, ∀ f ∈ fingerprintFields a, (textBytes (f.getD [])).length < 256) :
    ActionHash (List UInt8) manifest where
  sha256 := id
  collision_free := fun _ _ _ _ he => he
  sized := fun a ha => sized_of (h a ha)

def oneMove : BatchCommand := .mvRecursiveLocal [plannedItem 'a']

theorem oneMove_accounted : ∃ b : BatchState (List UInt8),
    b.stage = .returned (.ok 0) ∧ Accounted oneMove.command false b := by
  let a := plannedItem 'a'
  have h0 : Runs id oneMove.command Careful (BatchState.init id oneMove.command false)
      (BatchState.init id oneMove.command false) := .refl
  have h1 := h0.tail ⟨.plain, trivial, .launchCopy _ [] [] (copyAction .copy a) [] (by decide)⟩
  have h2 := h1.tail ⟨.plain, trivial, .start _ [] (copyAction .copy a) [] _ _ (.inl rfl)⟩
  have h3 := h2.tail ⟨.plain, trivial, .finish _ [] (copyAction .copy a) [] _ _ .succeeded none
    (.inl rfl) nofun nofun⟩
  have h4 := h3.tail ⟨.plain, trivial, .beginDeletes _ _ (by decide)⟩
  have h5 := h4.tail ⟨.plain, trivial, .nextGroup _ _ [deleteSourceAction a] []⟩
  have h6 := h5.tail ⟨.plain, trivial, .launchDelete _ [] _ [] (deleteSourceAction a) []
    (by decide) (by decide)⟩
  have h7 := h6.tail ⟨.plain, trivial, .start _ [] (deleteSourceAction a) [] _ _ (.inl rfl)⟩
  have h8 := h7.tail ⟨.plain, trivial, .finish _ [] (deleteSourceAction a) [] _ _ .succeeded none
    (.inl rfl) nofun nofun⟩
  have h9 := h8.tail ⟨.plain, trivial, .endDeletes _ _ (.ok ())⟩
  exact ⟨_, congrArg Stage.returned (by decide +kernel),
    careful_runs_accounted oneMove (plainHash _ (by decide)) false h9⟩

abbrev AnyStep (_ : Label) (_ : BatchState (List UInt8)) : Prop := True

def remoteItem (name : Char) : TransferPlanItem where
  relativeKey := [name]
  source := "tos://b/".toList ++ [name]
  destination := "d/".toList ++ [name]
  size := 1
  etag := none
  lastModified := none

def threeCopies : BatchCommand :=
  .syncRecursive [remoteItem 'a', remoteItem 'b', remoteItem 'c'] [] 2

def twoMoves : BatchCommand :=
  .mvRecursiveTos ⟨['d'], "tos://b".toList, false, none, none, .ok ()⟩
    [plannedItem 'a', plannedItem 'b'] false 2

-- The metadata of the third destination cannot be read while the copy of the second item runs.
theorem failed_check_drops_copy : ∃ b : BatchState (List UInt8),
    Runs id threeCopies.command AnyStep (BatchState.init id threeCopies.command false) b ∧
      b.stage = .returned (.error .io) ∧ ¬ (answers b.log).Perm (sends b.log) := by
  let copy := fun name => copyAction .syncCopy (remoteItem name)
  have h0 : Runs id threeCopies.command AnyStep (BatchState.init id threeCopies.command false)
      (BatchState.init id threeCopies.command false) := .refl
  have h1 := h0.tail ⟨.plain, trivial, .launchCopy _ [] [] (copy 'a') [copy 'b', copy 'c'] (by decide)⟩
  have h2 := h1.tail ⟨.plain, trivial, .launchCopy _ _ [] (copy 'b') [copy 'c'] (by decide)⟩
  have h3 := h2.tail ⟨.plain, trivial, .start _ [] (copy 'a') [(copy 'b', false)] _ _ (.inr (by decide))⟩
  have h4 := h3.tail ⟨.plain, trivial, .start _ [(copy 'a', true)] (copy 'b') [] _ _ (.inr (by decide))⟩
  have h5 := h4.tail ⟨.plain, trivial, .finish _ [] (copy 'a') [(copy 'b', true)] _ _ .succeeded none
    (.inr (by decide)) nofun nofun⟩
  have h6 := h5.tail ⟨.checkFailed, trivial, .checkFails _ _ _ (copy 'c') [] .io rfl (by decide)⟩
  exact ⟨_, h6, rfl, fun hp => absurd hp.length_eq (by decide)⟩

-- The row of the first delete is lost before the second one has started.
theorem lost_row_starts_delete : ∃ b : BatchState (List UInt8),
    Runs id twoMoves.command AnyStep (BatchState.init id twoMoves.command false) b ∧
      ¬ Gated b.log := by
  let copy := fun name => copyAction .copy (plannedItem name)
  let delete := fun name => deleteSourceAction (plannedItem name)
  have h0 : Runs id twoMoves.command AnyStep (BatchState.init id twoMoves.command false)
      (BatchState.init id twoMoves.command false) := .refl
  have h1 := h0.tail ⟨.plain, trivial, .launchCopy _ [] [] (copy 'a') [copy 'b'] (by decide)⟩
  have h2 := h1.tail ⟨.plain, trivial, .launchCopy _ _ [] (copy 'b') [] (by decide)⟩
  have h3 := h2.tail ⟨.plain, trivial, .start _ [] (copy 'a') [(copy 'b', false)] _ _ (.inl rfl)⟩
  have h4 := h3.tail ⟨.plain, trivial, .start _ [(copy 'a', true)] (copy 'b') [] _ _ (.inl rfl)⟩
  have h5 := h4.tail ⟨.plain, trivial, .finish _ [] (copy 'a') [(copy 'b', true)] _ _ .succeeded none
    (.inl rfl) (by simp) (by simp)⟩
  have h6 := h5.tail ⟨.plain, trivial, .finish _ [] (copy 'b') [] _ _ .succeeded none
    (.inl rfl) (by simp) (by simp)⟩
  have h7 := h6.tail ⟨.plain, trivial, .beginDeletes _ _ (by decide)⟩
  have h8 := h7.tail ⟨.plain, trivial, .nextGroup _ _ [delete 'a', delete 'b'] []⟩
  have h9 := h8.tail ⟨.plain, trivial, .launchDelete _ [] _ [] (delete 'a') [delete 'b']
    (by decide) (by decide)⟩
  have h10 := h9.tail ⟨.plain, trivial, .launchDelete _ _ _ [] (delete 'b') []
    (by decide) (by decide)⟩
  have h11 := h10.tail ⟨.plain, trivial, .start _ [] (delete 'a') [(delete 'b', false)] _ _ (.inl rfl)⟩
  have h12 := h11.tail ⟨.writeFailed, trivial, .finish _ [] (delete 'a') [(delete 'b', false)] _ _
    .succeeded (some []) (.inl rfl) (by simp) (fun _ => by decide)⟩
  have h13 := h12.tail ⟨.plain, trivial, .start _ [] (delete 'b') [] _ _ (.inl rfl)⟩
  refine ⟨_, h13, fun hg => ?_⟩
  have hkept := hg.rows_kept _ (delete 'b') [] rfl rfl
  rw [recordRow, rows_row] at hkept
  exact absurd (hkept _ (List.mem_append_right _ (List.mem_singleton_self _))) (by simp)

theorem batch_not_accounted :
    (¬ ∀ (command : BatchCommand) (hash : ActionHash (List UInt8) command.command.manifest)
        (b : BatchState (List UInt8)),
      Runs hash.sha256 command.command AnyStep (BatchState.init hash.sha256 command.command false) b →
        ∀ result, b.stage = .returned result → (answers b.log).Perm (sends b.log)) ∧
    ¬ ∀ (command : BatchCommand) (hash : ActionHash (List UInt8) command.command.manifest)
        (b : BatchState (List UInt8)),
      Runs hash.sha256 command.command AnyStep (BatchState.init hash.sha256 command.command false) b →
        Gated b.log := by
  constructor
  · intro h
    obtain ⟨b, hrun, hb, hn⟩ := failed_check_drops_copy
    exact hn (h threeCopies (plainHash _ (by decide)) b hrun _ hb)
  · intro h
    obtain ⟨b, hrun, hn⟩ := lost_row_starts_delete
    exact hn (h twoMoves (plainHash _ (by decide)) b hrun)

end VeStorage.Tos.Batch
