import VeStorage.Tos.Rm.Plan
import VeStorage.Lib.Pipelined

namespace VeStorage.Tos.Rm
open Lib Grouped

inductive DeleteRequest {I : Type} [DecidableEq I] (i : I) : Finset I → Finset I → Bool → Prop
  | failed (s) : DeleteRequest i s s false
  | removed (s ok) : DeleteRequest i s (s.erase i) ok

structure FlatListing (I : Type) where
  returned : List I
  complete : Bool

inductive FlatPage {I : Type} (key : I → Text) (pre : Text) (world : Finset I) :
    FlatListing I → List I → FlatListing I → Prop
  | page (returned chunk last) (h : Walk.Page key world pre returned chunk last) :
      FlatPage key pre world ⟨returned, false⟩ chunk ⟨returned ++ chunk, last⟩

def ListedKeys (args : RmArgs) (plan : RmPlan) (objects : Finset Text) (listed : List Text) : Prop :=
  ∃ out x, Walk.Gather
      (Walk.Step id (listDelimiter plan.hierarchical) args.listConcurrency objects)
      (Walk.State.init plan.pre) out x ∧
    x.Done ∧ listed = objectKeysOf plan.hierarchical out

def ListedVersions (args : RmArgs) (plan : RmPlan) (versions : Finset ObjectVersionRef)
    (listed : List ObjectVersionRef) : Prop :=
  ∃ out x, Walk.Gather
      (Walk.Step ObjectVersionRef.key (listDelimiter plan.hierarchical) args.listConcurrency versions)
      (Walk.State.init plan.pre) out x ∧
    x.Done ∧ listed = objectVersionsOf plan.hierarchical out

def ListedUploads (plan : RmPlan) (uploads : Finset MultipartUploadRef)
    (listed : List MultipartUploadRef) : Prop :=
  ∃ out x, Walk.Gather (FlatPage MultipartUploadRef.key plan.pre uploads) ⟨[], false⟩ out x ∧
    x.complete = true ∧ listed = namedUploads out

inductive StreamHierarchical (args : RmArgs) (world : Finset Text) :
    Walk.State Text → List Text → Walk.State Text → Prop
  | scan (x entries x')
      (h : Walk.Step id (listDelimiter true) args.listConcurrency world x entries x') :
      StreamHierarchical args world x (queueTosStreamDelete args entries) x'

inductive StreamFlat (args : RmArgs) (plan : RmPlan) (world : Finset Text) :
    FlatListing Text → List Text → FlatListing Text → Prop
  | page (x entries x') (h : FlatPage id plan.pre world x entries x') :
      StreamFlat args plan world x (queueTosStreamDelete args entries) x'

structure RmLog where
  keys : List Text
  versions : List ObjectVersionRef
  uploads : List MultipartUploadRef

-- The delete requests sent by a run that reached its end.
inductive Deletes (args : RmArgs) (plan : RmPlan) (b : Bucket) :
    List Text → List ObjectVersionRef → Prop
  | allVersions (listed x) (ha : args.allVersions = true)
      (hl : ListedVersions args plan b.versions listed)
      (hr : Run DeleteRequest args.batchConcurrency
        (Exec.init b.versions (deleteTosVersions args plan listed)) x) (hd : x.Done) :
      Deletes args plan b [] (starts x.log)
  | manifest (listed x) (ha : args.allVersions = false) (hm : args.noManifest = false)
      (hl : ListedKeys args plan b.objects listed)
      (hr : Run DeleteRequest args.batchConcurrency
        (Exec.init b.objects
          (deleteTosKeysForRm args plan.bottomUp (manifestKeys plan listed))) x) (hd : x.Done) :
      Deletes args plan b (starts x.log) []
  | streamBottomUp (listed x) (ha : args.allVersions = false) (hm : args.noManifest = true)
      (hb : plan.bottomUp = true) (hl : ListedKeys args plan b.objects listed)
      (hr : Run DeleteRequest args.batchConcurrency
        (Exec.init b.objects
          (deleteTosKeysForRm args true (streamBottomUpKeys plan listed))) x) (hd : x.Done) :
      Deletes args plan b (starts x.log) []
  | streamHierarchical (x) (ha : args.allVersions = false) (hm : args.noManifest = true)
      (hb : plan.bottomUp = false) (hh : plan.hierarchical = true)
      (hr : Pipelined.Run (StreamHierarchical args) DeleteRequest args.batchConcurrency
        (Pipelined.Exec.init b.objects (Walk.State.init plan.pre)) x)
      (hd : x.Done Walk.State.Done) : Deletes args plan b (starts x.log) []
  | streamFlat (x) (ha : args.allVersions = false) (hm : args.noManifest = true)
      (hb : plan.bottomUp = false) (hh : plan.hierarchical = false)
      (hr : Pipelined.Run (StreamFlat args plan) DeleteRequest args.batchConcurrency
        (Pipelined.Exec.init b.objects ⟨[], false⟩) x)
      (hd : x.Done fun s => s.complete = true) : Deletes args plan b (starts x.log) []

inductive Aborts (args : RmArgs) (plan : RmPlan) (b : Bucket) : List MultipartUploadRef → Prop
  | none (h : args.includeUploads = false) : Aborts args plan b []
  | planned (listed x) (h : args.includeUploads = true) (hl : ListedUploads plan b.uploads listed)
      (hr : Run DeleteRequest 1 (Exec.init b.uploads [listed]) x) (hd : x.Done) :
      Aborts args plan b (starts x.log)

structure ExecuteRm (args : RmArgs) (env : RmEnv) (b : Bucket) (plan : RmPlan) (log : RmLog) :
    Prop where
  route : rmRoute args env = .ok (.planned plan)
  deletes : Deletes args plan b log.keys log.versions
  aborts : Aborts args plan b log.uploads

def Selected (args : RmArgs) (plan : RmPlan) (key : Text) : Prop :=
  plan.pre <+: key ∧ args.allows key = true

structure RmTouches (abortable : Text → Prop) (args : RmArgs) (plan : RmPlan) (b : Bucket)
    (log : RmLog) : Prop where
  keys_once : log.keys.Nodup
  versions_once : log.versions.Nodup
  uploads_once : log.uploads.Nodup
  mem_keys : ∀ key, key ≠ [] → (key ∈ log.keys ↔ args.allVersions = false ∧
    (key ∈ b.objects ∧ Selected args plan key ∨
      plan.bottomUp = true ∧ key = plan.pre ∧ args.allows key = true))
  mem_versions : ∀ v, v ∈ log.versions ↔
    args.allVersions = true ∧ v ∈ b.versions ∧ Selected args plan v.key
  mem_uploads : ∀ u, u ∈ log.uploads ↔
    args.includeUploads = true ∧ u ∈ b.uploads ∧ plan.pre <+: u.key ∧ abortable u.key

section Listing

variable {args : RmArgs} {plan : RmPlan}

theorem ListedKeys.spec {objects : Finset Text} {listed : List Text}
    (h : ListedKeys args plan objects listed) :
    listed.Nodup ∧ ∀ key, key ∈ listed ↔ key ∈ objects ∧ plan.pre <+: key := by
  obtain ⟨out, x, hg, hd, rfl⟩ := h
  have hinv := Walk.gather_inv hg
  exact ⟨objectKeysOf_nodup hinv.out_nodup, fun key => mem_objectKeysOf.trans (hinv.done hd)⟩

theorem ListedVersions.spec {versions : Finset ObjectVersionRef} {listed : List ObjectVersionRef}
    (h : ListedVersions args plan versions listed) :
    listed.Nodup ∧ ∀ v, v ∈ listed ↔ v ∈ versions ∧ plan.pre <+: v.key := by
  obtain ⟨out, x, hg, hd, rfl⟩ := h
  have hinv := Walk.gather_inv hg
  exact ⟨objectVersionsOf_nodup hinv.out_nodup, fun v => mem_objectVersionsOf.trans (hinv.done hd)⟩

structure FlatInv {I : Type} (key : I → Text) (pre : Text) (items world : Finset I)
    (x : FlatListing I) : Prop where
  nodup : x.returned.Nodup
  mem : ∀ i ∈ x.returned, i ∈ items ∧ pre <+: key i
  all : x.complete = true → ∀ i ∈ items, pre <+: key i → i ∈ x.returned
  world_items : world ⊆ items
  items_world : ∀ i ∈ items, i ∉ x.returned → i ∈ world

variable {I : Type} {key : I → Text} {pre : Text} {items world : Finset I}
  {x x' : FlatListing I} {chunk : List I}

theorem FlatInv.init (items : Finset I) : FlatInv key pre items items ⟨[], false⟩ where
  nodup := List.nodup_nil
  mem := by simp
  all := by simp
  world_items := Finset.Subset.refl _
  items_world := fun i hi _ => hi

theorem FlatInv.page (h : FlatInv key pre items world x) (hp : FlatPage key pre world x chunk x') :
    FlatInv key pre items world x' ∧ x'.returned = x.returned ++ chunk := by
  cases hp with
  | page returned chunk last hp =>
    refine ⟨⟨?_, ?_, ?_, h.world_items, ?_⟩, rfl⟩
    · refine List.nodup_append.mpr ⟨h.nodup, hp.nodup, ?_⟩
      rintro a ha b hb rfl
      exact (hp.mem a hb).2.2 ha
    · intro i hi
      rcases List.mem_append.mp hi with hi | hi
      · exact h.mem i hi
      · exact ⟨h.world_items (hp.mem i hi).1, (hp.mem i hi).2.1⟩
    · intro hlast i hi hk
      by_cases hret : i ∈ returned
      · exact List.mem_append_left _ hret
      · exact List.mem_append.mpr (hp.complete hlast i (h.items_world i hi hret) hk)
    · exact fun i hi ho => h.items_world i hi fun hm => ho (List.mem_append_left _ hm)

theorem ListedUploads.spec {b : Bucket} {listed : List MultipartUploadRef}
    (h : ListedUploads plan b.uploads listed) :
    listed.Nodup ∧ ∀ u, u ∈ listed ↔ u ∈ b.uploads ∧ plan.pre <+: u.key := by
  obtain ⟨out, x, hg, hd, rfl⟩ := h
  have hinv : FlatInv MultipartUploadRef.key plan.pre b.uploads b.uploads x ∧ x.returned = out := by
    refine hg.inv (P := fun x out => FlatInv MultipartUploadRef.key plan.pre b.uploads b.uploads x ∧
      x.returned = out) ⟨FlatInv.init _, rfl⟩ ?_
    rintro out x batch x' ⟨hi, rfl⟩ hs
    exact hi.page hs
  obtain ⟨hinv, rfl⟩ := hinv
  refine ⟨hinv.nodup.filter _, fun u => ?_⟩
  rw [namedUploads, List.mem_filter]
  constructor
  · exact fun hu => hinv.mem u hu.1
  · rintro ⟨hu, hk⟩
    exact ⟨hinv.all hd u hu hk, by simpa using b.uploads_named u hu⟩

end Listing

section Streams

variable {args : RmArgs} {plan : RmPlan} {objects : Finset Text}

theorem DeleteRequest.effect {I : Type} [DecidableEq I] {i : I} {w w' : Finset I} {ok : Bool}
    (h : DeleteRequest i w w' ok) : w' ⊆ w ∧ ∀ j ∈ w, j ≠ i → j ∈ w' := by
  cases h with
  | failed => exact ⟨Finset.Subset.refl _, fun j hj _ => hj⟩
  | removed => exact ⟨Finset.erase_subset i w, fun j hj hne => Finset.mem_erase.mpr ⟨hne, hj⟩⟩

theorem mem_queueTosStreamDelete {entries : List Text} {key : Text} :
    key ∈ queueTosStreamDelete args entries ↔ key ∈ entries ∧ args.allows key = true :=
  List.mem_filter

theorem queueTosStreamDelete_append (a b : List Text) : queueTosStreamDelete args (a ++ b) =
    queueTosStreamDelete args a ++ queueTosStreamDelete args b := List.filter_append ..

def QueuedExactly (args : RmArgs) (plan : RmPlan) (objects : Finset Text) (sent : List Text) : Prop :=
  sent.Nodup ∧ ∀ key, key ∈ sent ↔ key ∈ objects ∧ Selected args plan key

theorem queued_exactly {out : List Text} (hn : out.Nodup)
    (hm : ∀ key, key ∈ out ↔ key ∈ objects ∧ plan.pre <+: key) :
    QueuedExactly args plan objects (queueTosStreamDelete args out) := by
  refine ⟨hn.filter _, fun key => ?_⟩
  rw [mem_queueTosStreamDelete, hm, Selected, and_assoc]

theorem streamHierarchical_sent {limit : Nat}
    {x : Pipelined.Exec (Finset Text) (Walk.State Text) Text}
    (hr : Pipelined.Run (StreamHierarchical args) DeleteRequest limit
      (Pipelined.Exec.init objects (Walk.State.init plan.pre)) x)
    (hd : x.Done Walk.State.Done) : QueuedExactly args plan objects (starts x.log) := by
  have hinv : ∃ out, Walk.Inv id (listDelimiter true) objects x.world plan.pre x.source out ∧
      x.queued = queueTosStreamDelete args out := by
    refine Pipelined.run_inv (P := fun w s q => ∃ out,
      Walk.Inv id (listDelimiter true) objects w plan.pre s out ∧
        q = queueTosStreamDelete args out) ?_ ?_ hr ⟨[], Walk.Inv.init _ _, rfl⟩
    · rintro w s q batch s' ⟨out, hi, rfl⟩ he
      cases he with
      | scan _ entries hs => exact ⟨_, hi.step hs, (queueTosStreamDelete_append _ _).symm⟩
    · rintro w s q key w' ok ⟨out, hi, rfl⟩ hk hact
      refine ⟨out, hi.shrink hact.effect.1 fun k hk' ho => hact.effect.2 k hk' ?_, rfl⟩
      rintro rfl
      exact ho (mem_queueTosStreamDelete.mp hk).1
  obtain ⟨out, hi, hq⟩ := hinv
  rw [hd.queued] at hq
  rw [hq]
  exact queued_exactly hi.out_nodup fun key => hi.done hd.1

theorem streamFlat_sent {limit : Nat}
    {x : Pipelined.Exec (Finset Text) (FlatListing Text) Text}
    (hr : Pipelined.Run (StreamFlat args plan) DeleteRequest limit
      (Pipelined.Exec.init objects ⟨[], false⟩) x)
    (hd : x.Done fun s => s.complete = true) : QueuedExactly args plan objects (starts x.log) := by
  have hinv : FlatInv id plan.pre objects x.world x.source ∧
      x.queued = queueTosStreamDelete args x.source.returned := by
    refine Pipelined.run_inv (P := fun w s q => FlatInv id plan.pre objects w s ∧
      q = queueTosStreamDelete args s.returned) ?_ ?_ hr ⟨FlatInv.init _, rfl⟩
    · rintro w s q batch s' ⟨hi, rfl⟩ he
      cases he with
      | page _ entries hp =>
        obtain ⟨hi', hret⟩ := hi.page hp
        exact ⟨hi', by rw [hret, queueTosStreamDelete_append]⟩
    · rintro w s q key w' ok ⟨hi, rfl⟩ hk hact
      refine ⟨{ hi with
        world_items := hact.effect.1.trans hi.world_items
        items_world := fun k hk' ho => hact.effect.2 k (hi.items_world k hk' ho) ?_ }, rfl⟩
      rintro rfl
      exact ho (mem_queueTosStreamDelete.mp hk).1
  obtain ⟨hi, hq⟩ := hinv
  rw [hd.queued] at hq
  rw [hq]
  exact queued_exactly hi.nodup fun key => ⟨hi.mem key, fun h => hi.all hd.1 key h.1 h.2⟩

end Streams

section Touches

variable {args : RmArgs} {plan : RmPlan} {b : Bucket} {env : RmEnv} {log : RmLog}

theorem grouped_sent {I : Type} [DecidableEq I] {limit : Nat} {w : Finset I}
    {groups : List (List I)} {x : Exec (Finset I) I}
    (hr : Run DeleteRequest limit (Exec.init w groups) x) (hd : x.Done) :
    starts x.log = groups.flatten := (run_starts_done hr hd).1

theorem listed_root {listed : List Text} (hl : ListedKeys args plan b.objects listed) {key : Text}
    (root : Prop) : (key ∈ listed ∨ root ∧ key = plan.pre) ∧ args.allows key = true ↔
      key ∈ b.objects ∧ Selected args plan key ∨
        root ∧ key = plan.pre ∧ args.allows key = true := by
  rw [hl.spec.2 key, Selected]
  tauto

structure DeletesExactly (args : RmArgs) (plan : RmPlan) (b : Bucket) (keys : List Text)
    (versions : List ObjectVersionRef) : Prop where
  keys_once : keys.Nodup
  versions_once : versions.Nodup
  mem_keys : ∀ key, key ≠ [] → (key ∈ keys ↔ args.allVersions = false ∧
    (key ∈ b.objects ∧ Selected args plan key ∨
      plan.bottomUp = true ∧ key = plan.pre ∧ args.allows key = true))
  mem_versions : ∀ v, v ∈ versions ↔
    args.allVersions = true ∧ v ∈ b.versions ∧ Selected args plan v.key

theorem keys_exactly (ha : args.allVersions = false) {keys : List Text} (hn : keys.Nodup)
    (hm : ∀ key, key ≠ [] → (key ∈ keys ↔ key ∈ b.objects ∧ Selected args plan key ∨
      plan.bottomUp = true ∧ key = plan.pre ∧ args.allows key = true)) :
    DeletesExactly args plan b keys [] where
  keys_once := hn
  versions_once := List.nodup_nil
  mem_keys := fun key hkey => by simpa [ha] using hm key hkey
  mem_versions := by simp [ha]

theorem queued_keys_exactly (ha : args.allVersions = false) (hb : plan.bottomUp = false)
    {keys : List Text} (h : QueuedExactly args plan b.objects keys) :
    DeletesExactly args plan b keys [] :=
  keys_exactly ha h.1 fun key _ => by simpa [hb] using h.2 key

theorem Deletes.exactly {keys : List Text} {versions : List ObjectVersionRef}
    (h : Deletes args plan b keys versions) : DeletesExactly args plan b keys versions := by
  cases h with
  | allVersions listed x ha hl hr hd =>
    rw [grouped_sent hr hd]
    refine ⟨List.nodup_nil, deleteTosVersions_nodup args plan hl.spec.1, by simp [ha], ?_⟩
    intro v
    rw [mem_deleteTosVersions, hl.spec.2 v, Selected]
    simp only [ha, true_and, and_assoc]
  | manifest listed x ha hm hl hr hd =>
    rw [grouped_sent hr hd]
    have hnodup := manifestKeys_nodup plan hl.spec.1
    refine keys_exactly ha (deleteTosKeysForRm_nodup args _ hnodup) fun key hkey => ?_
    rw [mem_deleteTosKeysForRm, mem_manifestKeys hkey]
    exact listed_root hl _
  | streamBottomUp listed x ha hm hb hl hr hd =>
    rw [grouped_sent hr hd]
    have hnodup := streamBottomUpKeys_nodup plan hl.spec.1
    refine keys_exactly ha (deleteTosKeysForRm_nodup args _ hnodup) fun key hkey => ?_
    rw [mem_deleteTosKeysForRm, mem_streamBottomUpKeys hkey]
    have hroot : (key ∈ listed ∨ plan.bottomUp = true ∧ key = plan.pre) ∧ args.allows key = true ↔ _ :=
      listed_root hl (plan.bottomUp = true)
    simpa [hb] using hroot
  | streamHierarchical x ha hm hb hh hr hd =>
    exact queued_keys_exactly ha hb (streamHierarchical_sent hr hd)
  | streamFlat x ha hm hb hh hr hd => exact queued_keys_exactly ha hb (streamFlat_sent hr hd)

theorem Aborts.exactly {uploads : List MultipartUploadRef} (h : Aborts args plan b uploads) :
    uploads.Nodup ∧ ∀ u, u ∈ uploads ↔
      args.includeUploads = true ∧ u ∈ b.uploads ∧ plan.pre <+: u.key := by
  cases h with
  | none h => simp [h]
  | planned listed x h hl hr hd =>
    rw [grouped_sent hr hd]
    simpa [h] using hl.spec

theorem rm_touches_selected (h : ExecuteRm args env b plan log) :
    RmTouches (fun _ => True) args plan b log := by
  have hdel := h.deletes.exactly
  have hab := h.aborts.exactly
  exact {
    keys_once := hdel.keys_once
    versions_once := hdel.versions_once
    uploads_once := hab.1
    mem_keys := hdel.mem_keys
    mem_versions := hdel.mem_versions
    mem_uploads := by simpa using hab.2 }

end Touches

theorem grouped_runs {I : Type} [DecidableEq I] (limit : Nat) (w : Finset I)
    (groups : List (List I)) :
    ∃ x, Run DeleteRequest limit (Exec.init w groups) x ∧ x.Done ∧ starts x.log = groups.flatten := by
  have heffect : ∀ (i : I) (w : Finset I), DeleteRequest i w (w.erase i) true := fun i w => .removed w _
  obtain ⟨log, hrun⟩ := @run_exists _ _ _ limit _ heffect w groups []
  exact ⟨_, hrun, ⟨rfl, rfl, rfl⟩, grouped_sent hrun ⟨rfl, rfl, rfl⟩⟩

theorem listedKeys_one_page {args : RmArgs} {plan : RmPlan} (hflat : plan.hierarchical = false)
    {objects : Finset Text} {chunk : List Text}
    (hp : Walk.Page id objects plan.pre [] chunk true) :
    ListedKeys args plan objects (objectKeysOf false chunk) := by
  have hvisit : Walk.Step id none args.listConcurrency objects (Walk.State.init plan.pre) []
      ⟨[], [plan.pre], [⟨plan.pre, [], false⟩]⟩ :=
    .visit plan.pre [] [] [] (by simp) (Nat.lt_of_lt_of_le Nat.one_pos (Nat.le_max_right _ 1))
  have hpage : Walk.Step id none args.listConcurrency objects
      ⟨[], [plan.pre], [⟨plan.pre, [], false⟩]⟩ [] ⟨[], [plan.pre], [⟨plan.pre, chunk, true⟩]⟩ :=
    .page [] [plan.pre] [] plan.pre [] chunk true [] hp
  have htake : Walk.Step id none args.listConcurrency objects
      ⟨[], [plan.pre], [⟨plan.pre, chunk, true⟩]⟩ chunk ⟨[], [plan.pre], []⟩ :=
    .take [] [plan.pre] [] ⟨plan.pre, chunk, true⟩ [] chunk [] rfl
      (by simp [Walk.Scan.entries, Walk.isDirect]) (by simp [Walk.Scan.children, Walk.isDirect])
  refine ⟨chunk, ⟨[], [plan.pre], []⟩, ?_, ⟨rfl, rfl⟩, by rw [hflat]⟩
  rw [hflat]
  exact .more _ _ _ _ (.more _ _ _ _ (.more _ _ _ _ .start hvisit) hpage) htake

def keepArgs : RmArgs where
  path := "tos://b/logs".toList
  allVersions := false
  includeUploads := true
  noManifest := false
  recursiveListMode := none
  recursiveDeleteMode := none
  includePattern := none
  excludePattern := some "keep".toList
  batchConcurrency := 4
  listConcurrency := 4

def plainEnv : RmEnv := ⟨false, false, false, false⟩

def keepPlan : RmPlan := ⟨⟨"b".toList, some "logs/".toList⟩, false, false⟩

def keepUpload : MultipartUploadRef := ⟨"logs/keep.bin".toList, "1".toList⟩

-- An object below the prefix, an excluded one and one outside; an excluded upload and one outside.
def keepBucket : Bucket where
  objects := {"logs/a".toList, "logs/keep.bin".toList, "other/b".toList}
  versions := ∅
  uploads := {keepUpload, ⟨"other/c".toList, "2".toList⟩}
  uploads_named := by decide

theorem keep_executes : ∃ log, ExecuteRm keepArgs plainEnv keepBucket keepPlan log ∧
    log.keys = ["logs/a".toList] ∧ log.uploads = [keepUpload] := by
  have hkeys : Walk.Page id keepBucket.objects keepPlan.pre [] ["logs/a".toList, "logs/keep.bin".toList] true :=
    ⟨by decide, by decide, fun _ => by decide⟩
  have hsorted : objectKeysOf false ["logs/a".toList, "logs/keep.bin".toList] =
      ["logs/a".toList, "logs/keep.bin".toList] := List.mergeSort_of_pairwise (by decide)
  have huploads : Walk.Page MultipartUploadRef.key keepBucket.uploads keepPlan.pre []
      [keepUpload] true := ⟨by decide, by decide, fun _ => by decide⟩
  have hlisted : ListedUploads keepPlan keepBucket.uploads [keepUpload] :=
    ⟨[keepUpload], ⟨[keepUpload], true⟩, .more [] _ _ _ .start (.page [] _ _ huploads), rfl, by decide⟩
  obtain ⟨x, hr, hd, hx⟩ := grouped_runs 4 keepBucket.objects (deleteTosKeysForRm keepArgs false
    (manifestKeys keepPlan (objectKeysOf false ["logs/a".toList, "logs/keep.bin".toList])))
  obtain ⟨y, hry, hdy, hy⟩ := grouped_runs 1 keepBucket.uploads [[keepUpload]]
  refine ⟨⟨starts x.log, [], starts y.log⟩, ⟨by decide, ?_, ?_⟩, hx.trans ?_, hy⟩
  · exact .manifest _ x rfl rfl (listedKeys_one_page rfl hkeys) hr hd
  · exact .planned _ y rfl hlisted hry hdy
  · rw [hsorted]
    decide

theorem rm_aborts_excluded : ∃ log, ExecuteRm keepArgs plainEnv keepBucket keepPlan log ∧
    ¬ RmTouches (fun key => keepArgs.allows key = true) keepArgs keepPlan keepBucket log := by
  obtain ⟨log, hex, -, hup⟩ := keep_executes
  refine ⟨log, hex, fun ht => ?_⟩
  have hsent : keepUpload ∈ log.uploads := by simp [hup]
  have hallowed := ((ht.mem_uploads keepUpload).mp hsent).2.2.2
  exact absurd hallowed (by decide)

theorem rm_touches_keep : ∃ log, ExecuteRm keepArgs plainEnv keepBucket keepPlan log ∧
    log.keys = ["logs/a".toList] ∧ log.uploads = [keepUpload] ∧
    RmTouches (fun _ => True) keepArgs keepPlan keepBucket log := by
  obtain ⟨log, hex, hkeys, huploads⟩ := keep_executes
  exact ⟨log, hex, hkeys, huploads, rm_touches_selected hex⟩

end VeStorage.Tos.Rm
