import VeStorage.ADrive.Move.Machine
import VeStorage.ADrive.Sync.Exact

namespace VeStorage.ADrive.Move
open Lib CopyDelete
open Tos (CliError)
open Sync (UriParts parsed_parts parse_itemSource itemSource)

variable {C : Type}

section Plan

variable (j : Job) (s0 : Store C)

structure Planned (path dest : Text) : Prop where
  listed : j.listed path
  present : s0 (j.source.place path) ≠ none
  target : j.target path = some dest

def transfer (path dest : Text) : Transfer Place := ⟨j.source.place path, some (j.destination.place dest)⟩

def Selected : Set (Transfer Place) := {i | ∃ path dest, Planned j s0 path dest ∧ transfer j path dest = i}

-- What the planned destinations and the name of the source folder must not do.
structure KeepsApart : Prop where
  agree : ∀ path path' dest, Planned j s0 path dest → Planned j s0 path' dest →
    s0 (j.source.place path) = s0 (j.source.place path')
  free : ∀ path dest, Planned j s0 path dest → ¬ j.source.lists j.destination.inst j.destination.space dest
  regular : ∀ path, s0 (j.source.place path) ≠ none → path ≠ [] ∧ ¬ ['/'] <:+ path
  folder : j.filtered = false → trimFolderPrefix j.cleanupFolder = j.root

structure MoveSafe (noManifest : Bool) (s : Store C) (code : Option (Option Nat)) : Prop where
  kept : Kept (Selected j s0) s0 s
  framed : Framed (Selected j s0) s0 s
  staged : noManifest = false → (∀ i ∈ Selected j s0, s i.src = s0 i.src) ∨ Delivered (Selected j s0) s0 s
  moved : code = some (some 0) → ∀ i ∈ Selected j s0, Arrived s0 s i ∧ s i.src = none

-- What the arguments of an accepted move have in common.
structure Accepted : Prop where
  parts : UriParts j.source.toParsedADriveUri
  spaces : j.filtered = false → j.source.space ≠ j.destination.space

end Plan

section Facts

variable {j : Job} {s0 s s' : Store C} {copied : Set (Transfer Place)} {path dest path' dest' : Text} {ok : Bool}

theorem place_inj (target : SpaceTarget) (h : target.place path = target.place path') : path = path' := by
  cases h
  rfl

theorem Planned.selected (h : Planned j s0 path dest) : transfer j path dest ∈ Selected j s0 := ⟨path, dest, h, rfl⟩

theorem Planned.dest_eq (h : Planned j s0 path dest) (h' : Planned j s0 path dest') : dest = dest' :=
  Option.some.inj (h.target.symm.trans h'.target)

theorem KeepsApart.fresh (hk : KeepsApart j s0) (h : j.listed path) :
    ∀ i ∈ Selected j s0, i.dst ≠ some (j.source.place path) := by
  rintro i ⟨path', dest', hp', rfl⟩ he
  obtain ⟨hinst, hspace, hpath⟩ := Place.remote.inj (Option.some.inj he)
  refine hk.free path' dest' hp' ?_
  rw [hinst, hspace, hpath]
  exact h

theorem KeepsApart.separated (hk : KeepsApart j s0) : Separated (Selected j s0) s0 where
  src_inj := by
    rintro i ⟨path, dest, hp, rfl⟩ i' ⟨path', dest', hp', rfl⟩ he
    obtain rfl := place_inj j.source he
    rw [hp.dest_eq hp']
  dst_agree := by
    rintro i ⟨path, dest, hp, rfl⟩ i' ⟨path', dest', hp', rfl⟩ d hd hd'
    obtain rfl : dest = dest' := place_inj j.destination (Option.some.inj (hd.trans hd'.symm))
    exact hk.agree path path' dest hp hp'
  dst_ne_src := by
    rintro i hi i' ⟨path', dest', hp', rfl⟩
    exact hk.fresh hp'.listed i hi

theorem copyFile_inv (hk : KeepsApart j s0) (hinv : CopyDelete.Inv (Selected j s0) s0 s copied)
    (hp : Planned j s0 path dest) (h : CopyFile j path dest s s' ok) :
    ∃ copied', copied ⊆ copied' ∧ CopyDelete.Inv (Selected j s0) s0 s' copied' ∧
      (ok = true → transfer j path dest ∈ copied') ∧ (∀ i ∈ Selected j s0, s' i.src = s i.src) ∧
      ∀ p, s p ≠ none → s' p ≠ none := by
  cases h with
  | refused => exact ⟨copied, subset_rfl, hinv, Bool.noConfusion, fun _ _ => rfl, fun _ => id⟩
  | copied c _ hc =>
    refine ⟨_, Set.subset_insert _ _, hinv.copy hk.separated hp.selected rfl hc,
      fun _ => Set.mem_insert _ _, fun i hi => ?_, fun p hne => ?_⟩
    · exact Function.update_of_ne (fun he => hk.separated.dst_ne_src _ hp.selected i hi (congrArg some he.symm)) _ _
    · by_cases he : p = j.destination.place dest
      · rw [he, Function.update_self]
        exact Option.some_ne_none c
      · rwa [Function.update_of_ne he]

theorem deleteFile_inv (hk : KeepsApart j s0) (hinv : CopyDelete.Inv (Selected j s0) s0 s copied)
    (hc : transfer j path dest ∈ copied) (h : DeleteFile (j.source.place path) s s' ok) :
    ∃ copied', copied ⊆ copied' ∧ CopyDelete.Inv (Selected j s0) s0 s' copied' ∧
      (ok = true → s' (j.source.place path) = none) ∧ (∀ p, s p = none → s' p = none) ∧
      ∀ p, p ≠ j.source.place path → s' p = s p := by
  cases h with
  | refused => exact ⟨copied, subset_rfl, hinv, Bool.noConfusion, fun _ => id, fun _ _ => rfl⟩
  | removed =>
    refine ⟨_, Set.subset_union_left, hinv.delete hk.separated hc, fun _ => Function.update_self _ _ _,
      fun p hp => ?_, fun p hne => Function.update_of_ne hne _ _⟩
    by_cases he : p = j.source.place path
    · rw [he, Function.update_self]
    · rw [Function.update_of_ne he, hp]

theorem matchesFilters_unfiltered {relative : Text} (h : j.filtered = false) :
    j.task.matchesFilters relative = true := by
  obtain ⟨hinclude, hexclude⟩ := Bool.or_eq_false_iff.mp h
  rw [Option.isSome_eq_false_iff, Option.isNone_iff_eq_none] at hinclude hexclude
  rw [Task.matchesFilters, hinclude, hexclude]
  rfl

theorem target_unfiltered (h : j.filtered = false) (path : Text) : ∃ dest, j.target path = some dest := by
  refine Option.isSome_iff_exists.mp ?_
  rw [Job.target, Mapping.queueAdriveRemoteMoveFile, Mapping.streamPair, if_pos (matchesFilters_unfiltered h)]
  rfl

theorem planned_of_folder (hk : KeepsApart j s0) (hf : j.filtered = false) {p : Place}
    (hp : InFolder j j.cleanupFolder p) (h0 : s0 p ≠ none) : ∃ i ∈ Selected j s0, i.src = p := by
  obtain ⟨path, rfl, hpre⟩ := hp
  rw [hk.folder hf] at hpre
  obtain ⟨dest, hdest⟩ := target_unfiltered hf path
  exact ⟨_, (Planned.mk ⟨rfl, rfl, hpre, hk.regular path h0⟩ h0 hdest).selected, rfl⟩

theorem selected_in_folder (hk : KeepsApart j s0) (hf : j.filtered = false) {i : Transfer Place}
    (hi : i ∈ Selected j s0) : InFolder j j.cleanupFolder i.src := by
  obtain ⟨path, dest, hp, rfl⟩ := hi
  refine ⟨path, rfl, ?_⟩
  rw [hk.folder hf]
  exact hp.listed.2.2.1

theorem deleteFolder_inv (hk : KeepsApart j s0) (ha : Accepted j) (hf : j.filtered = false)
    (hinv : CopyDelete.Inv (Selected j s0) s0 s copied) (hall : Selected j s0 ⊆ copied)
    (h : DeleteFolder j j.cleanupFolder s s' ok) :
    CopyDelete.Inv (Selected j s0) s0 s' copied ∧ (ok = true → ∀ i ∈ Selected j s0, s' i.src = none) := by
  refine ⟨hinv.clear hall h.kept ?_ fun p hp => planned_of_folder hk hf hp,
    fun hok i hi => h.removed hok _ (selected_in_folder hk hf hi)⟩
  rintro i ⟨path, dest, hp, rfl⟩ p ⟨path', rfl, -⟩ hd
  obtain ⟨-, hspace, -⟩ := Place.remote.inj (Option.some.inj hd)
  exact ha.spaces hf hspace.symm

theorem deleteSourceTarget_eq (ha : Accepted j) (h : j.listed path) :
    j.deleteSourceTarget path = .ok ⟨j.source.inst, j.source.space, path⟩ := by
  obtain ⟨-, -, -, hne, hend⟩ := h
  have huri : j.source.at path = itemSource j.source.toParsedADriveUri path := by
    rw [SpaceTarget.at, @formatTarget_path ⟨j.source.inst, j.source.space, path⟩ j.source.space_ne hne, itemSource]
    simp only [List.append_assoc, List.cons_append]
  rw [Job.deleteSourceTarget, huri, parse_itemSource ha.parts]
  exact if_neg (not_or.mpr ⟨hne, hend⟩)

theorem deleteSource_iff (ha : Accepted j) (h : j.listed path) :
    DeleteSource j path s s' ok ↔ DeleteFile (j.source.place path) s s' ok := by
  rw [DeleteSource, deleteSourceTarget_eq ha h]
  rfl

theorem remoteMoveJob_eq {args : MvArgs} {source destination : SpaceTarget}
    (h : (remoteMoveJob args source destination).map MvPlan.copyDelete = .ok (.copyDelete j)) :
    j.source = source ∧ j.destination = destination ∧ source.inst = destination.inst ∧
      j.filtered = args.hasRecursiveFilters := by
  unfold remoteMoveJob at h
  split at h
  · cases h
  next hinst =>
    cases hparent : recursiveAdriveSourceParentPrefix args.source args.includeParent with
    | error e =>
      rw [hparent] at h
      cases h
    | ok parent =>
      rw [hparent] at h
      cases h
      exact ⟨rfl, rfl, not_not.mp hinst, rfl⟩

theorem parseSpaceTarget_parts {uri : Text} {target : SpaceTarget} (h : parseSpaceTarget uri = .ok target) :
    UriParts target.toParsedADriveUri := by
  unfold parseSpaceTarget at h
  split at h
  next hparse =>
    cases h
    exact parsed_parts hparse
  · cases h

theorem executeRecursiveMv_accepted {args : MvArgs} (h : executeRecursiveMv args = .ok (.copyDelete j)) :
    Accepted j := by
  unfold executeRecursiveMv at h
  cases hs : parseSpaceTarget args.source with
  | error e =>
    rw [hs] at h
    cases h
  | ok source =>
    cases hd : parseSpaceTarget args.destination with
    | error e =>
      rw [hs, hd] at h
      cases h
    | ok destination =>
      rw [hs, hd] at h
      simp only [bind, Except.bind] at h
      have hparts := parseSpaceTarget_parts hs
      split at h
      next hsame =>
        split at h
        next hfilters =>
          split at h
          · cases h
          · obtain ⟨rfl, -, -, hf⟩ := remoteMoveJob_eq h
            refine ⟨hparts, fun hnone => ?_⟩
            rw [hf, hfilters] at hnone
            cases hnone
        · cases h
      next hsame =>
        obtain ⟨rfl, rfl, hinst, -⟩ := remoteMoveJob_eq h
        exact ⟨hparts, fun _ hspace => hsame ⟨hinst, hspace⟩⟩

end Facts

section Manifest

variable {j : Job} {s0 : Store C} {copied : Set (Transfer Place)} {limit : Nat} {files : List Text} {b b' : Batch C}

-- What the listing before the plan returned.
def ListedFiles (j : Job) (s0 : Store C) (files : List Text) : Prop :=
  ∀ path, path ∈ files ↔ j.listed path ∧ s0 (j.source.place path) ≠ none

theorem mem_manifest (hl : ListedFiles j s0 files) {x : Text × Text} :
    x ∈ manifest j files ↔ Planned j s0 x.1 x.2 := by
  rw [manifest, Mapping.copyRemoteRecursive, Mapping.manifestPairs_eq, List.mem_filterMap]
  have htarget : ∀ path, j.target path = (Mapping.streamPair j.task
      (fun file => recursiveAdriveRelativePath file (trimFolderPrefix j.source.path) j.task.parentPrefix)
      (joinRemotePath j.destination.path) path).map Prod.snd := fun _ => rfl
  constructor
  · rintro ⟨path, hpath, hpair⟩
    obtain ⟨hlisted, hpresent⟩ := (hl path).mp hpath
    have hsame : x.1 = path := by
      rw [Mapping.streamPair] at hpair
      split at hpair
      · cases hpair
        rfl
      · cases hpair
    refine ⟨hsame ▸ hlisted, hsame ▸ hpresent, ?_⟩
    rw [hsame, htarget, hpair]
    rfl
  · rintro ⟨hlisted, hpresent, htgt⟩
    refine ⟨x.1, (hl x.1).mpr ⟨hlisted, hpresent⟩, ?_⟩
    rw [htarget] at htgt
    rw [Mapping.streamPair] at htgt ⊢
    split at htgt
    next hmatch =>
      rw [if_pos hmatch]
      exact congrArg some (Prod.ext rfl (Option.some.inj htgt))
    · cases htgt

def Unmoved (j : Job) (s0 s : Store C) : Prop := ∀ i ∈ Selected j s0, s i.src = s0 i.src

def Gone (j : Job) (s0 s : Store C) : Prop := ∀ i ∈ Selected j s0, s i.src = none

def BatchStageInv (j : Job) (s0 : Store C) (copied : Set (Transfer Place)) (b : Batch C) : Prop :=
  match b.stage with
  | .copying => Unmoved j s0 b.world ∧ (b.failed = 0 → ∀ path dest, Planned j s0 path dest →
      transfer j path dest ∈ copied ∨ (path, dest) ∈ b.pending ∨ (path, dest) ∈ b.running.map Prod.fst)
  | .deleting rest => Selected j s0 ⊆ copied ∧ (∀ path ∈ rest, ∃ dest, Planned j s0 path dest) ∧
      (b.failed = 0 → ∀ i ∈ Selected j s0, b.world i.src = none ∨ ∃ path ∈ rest, i.src = j.source.place path)
  | .removing => Selected j s0 ⊆ copied ∧ j.filtered = false
  | .finished code => (Unmoved j s0 b.world ∨ Selected j s0 ⊆ copied) ∧
      (code = some 0 → Selected j s0 ⊆ copied ∧ Gone j s0 b.world)

structure BatchInv (j : Job) (s0 : Store C) (copied : Set (Transfer Place)) (b : Batch C) : Prop where
  store : CopyDelete.Inv (Selected j s0) s0 b.world copied
  pending : ∀ x ∈ b.pending, Planned j s0 x.1 x.2
  running : ∀ x ∈ b.running, Planned j s0 x.1.1 x.1.2 ∧ (x.2 = some true → transfer j x.1.1 x.1.2 ∈ copied)
  stage : BatchStageInv j s0 copied b

theorem exitCode_zero {ok : Bool} {failed : Nat} {lost : Bool} (h : exitCode ok failed lost = some 0) :
    ok = true ∧ failed = 0 := by
  unfold exitCode at h
  split at h
  · cases h
  next hok =>
    split at h
    next hfailed =>
      cases ok with
      | false => exact absurd (Bool.or_true lost) hok
      | true => exact ⟨rfl, hfailed⟩
    · cases h

theorem failedRow_zero {ok : Bool} (h : failedRow ok = 0) : ok = true := by
  cases ok
  · cases h
  · rfl

theorem BatchInv.init (hl : ListedFiles j s0 files) : BatchInv j s0 ∅ (Batch.init j files s0) where
  store := CopyDelete.Inv.start _ _
  pending _ hx := (mem_manifest hl).mp hx
  running := List.forall_mem_nil _
  stage := ⟨fun _ _ => rfl, fun _ path dest hp => .inr (.inl ((@mem_manifest _ _ _ _ hl (path, dest)).mpr hp))⟩

theorem copying_done (h : BatchInv j s0 copied b) (hs : b.stage = .copying) (hp : b.pending = [])
    (hr : b.running = []) (hf : b.failed = 0) : Selected j s0 ⊆ copied := by
  have hstage := h.stage
  simp only [BatchStageInv, hs] at hstage
  rintro i ⟨path, dest, hplanned, rfl⟩
  rcases hstage.2 hf path dest hplanned with hc | hpending | hrunning
  · exact hc
  · rw [hp] at hpending
    cases hpending
  · rw [hr] at hrunning
    cases hrunning

theorem step_inv (hk : KeepsApart j s0) (ha : Accepted j) (hl : ListedFiles j s0 files)
    (h : BatchInv j s0 copied b) (hstep : Step j limit files b b') : ∃ copied', BatchInv j s0 copied' b' := by
  have hst := h.stage
  cases hstep with
  | launch w item pending running failed hlimit =>
    obtain ⟨hsame, hall⟩ := hst
    refine ⟨copied, h.store, fun x hx => h.pending x (List.mem_cons_of_mem _ hx), fun x hx => ?_,
      hsame, fun hf path dest hp => ?_⟩
    · rcases List.mem_append.mp hx with hx | hx
      · exact h.running x hx
      · rw [List.mem_singleton.mp hx]
        exact ⟨h.pending item List.mem_cons_self, fun he => (by cases he)⟩
    · rcases hall hf path dest hp with hc | hpending | hrunning
      · exact .inl hc
      · rcases List.mem_cons.mp hpending with he | hpending
        · exact .inr (.inr (by simp [he]))
        · exact .inr (.inl hpending)
      · exact .inr (.inr (by simpa using Or.inl (List.mem_map.mp hrunning)))
  | copy w w' path dest ok pending pre post failed hcopy =>
    obtain ⟨hsame, hall⟩ := hst
    have hp := (h.running ((path, dest), none) (by simp)).1
    obtain ⟨copied', hsub, hstore, hok, hsrc, -⟩ := copyFile_inv hk h.store hp hcopy
    refine ⟨copied', hstore, h.pending, fun x hx => ?_, fun i hi => (hsrc i hi).trans (hsame i hi),
      fun hf path' dest' hp' => ?_⟩
    · rcases List.mem_append.mp hx with hx | hx
      · exact (h.running x (List.mem_append_left _ hx)).imp id fun hc he => hsub (hc he)
      · rcases List.mem_cons.mp hx with rfl | hx
        · exact ⟨hp, fun he => hok (Option.some.inj he)⟩
        · exact (h.running x (List.mem_append_right _ (List.mem_cons_of_mem _ hx))).imp id fun hc he => hsub (hc he)
    · refine (hall hf path' dest' hp').imp (@hsub _) (.imp id fun hr => ?_)
      simpa using hr
  | record w item ok pending pre post failed hlimit =>
    obtain ⟨hsame, hall⟩ := hst
    obtain ⟨-, hok⟩ := h.running (item, some ok) (by simp)
    refine ⟨copied, h.store, h.pending, fun x hx => h.running x ?_, hsame, fun hf path dest hp => ?_⟩
    · rcases List.mem_append.mp hx with hx | hx
      · exact List.mem_append_left _ hx
      · exact List.mem_append_right _ (List.mem_cons_of_mem _ hx)
    · obtain ⟨hf, hrow⟩ := Nat.add_eq_zero_iff.mp hf
      rcases hall hf path dest hp with hc | hpending | hrunning
      · exact .inl hc
      · exact .inr (.inl hpending)
      · simp only [List.map_append, List.map_cons, List.mem_append, List.mem_cons] at hrunning ⊢
        rcases hrunning with hpre | rfl | hpost
        · exact .inr (.inr (.inl hpre))
        · exact .inl (hok (congrArg some (failedRow_zero hrow)))
        · exact .inr (.inr (.inr hpost))
  | skipDeletes w failed lost hf =>
    exact ⟨copied, h.store, List.forall_mem_nil _, List.forall_mem_nil _, .inl hst.1,
      fun hcode => absurd (exitCode_zero hcode).2 (by omega)⟩
  | beginDeletes w hf =>
    have hall := copying_done h rfl rfl rfl rfl
    refine ⟨copied, h.store, List.forall_mem_nil _, List.forall_mem_nil _, hall, fun path hpath => ?_,
      fun _ i hi => .inr ?_⟩
    · obtain ⟨x, hx, rfl⟩ := List.mem_map.mp hpath
      exact ⟨x.2, (mem_manifest hl).mp hx⟩
    · obtain ⟨path, dest, hp, rfl⟩ := hi
      exact ⟨path, List.mem_map.mpr ⟨(path, dest), (mem_manifest hl).mpr hp, rfl⟩, rfl⟩
  | delete w w' path rest ok failed hdelete =>
    obtain ⟨hall, hrest, hgone⟩ := hst
    obtain ⟨dest, hp⟩ := hrest path List.mem_cons_self
    obtain ⟨copied', hsub, hstore, hok, hnone, -⟩ :=
      deleteFile_inv hk h.store (hall hp.selected) ((deleteSource_iff ha hp.listed).mp hdelete)
    refine ⟨copied', hstore, List.forall_mem_nil _, List.forall_mem_nil _, hall.trans hsub,
      fun p hpath => hrest p (List.mem_cons_of_mem _ hpath), fun hf i hi => ?_⟩
    obtain ⟨hf, hrow⟩ := Nat.add_eq_zero_iff.mp hf
    rcases hgone hf i hi with hnone' | ⟨p, hpath, he⟩
    · exact .inl (hnone _ hnone')
    · rcases List.mem_cons.mp hpath with rfl | hpath
      · exact .inl (he ▸ hok (failedRow_zero hrow))
      · exact .inr ⟨p, hpath, he⟩
  | endDeletes w failed lost =>
    obtain ⟨hall, -, hgone⟩ := hst
    refine ⟨copied, h.store, List.forall_mem_nil _, List.forall_mem_nil _, .inr hall,
      fun hcode => ⟨hall, fun i hi => ?_⟩⟩
    rcases hgone (exitCode_zero hcode).2 i hi with hnone | ⟨p, hpath, -⟩
    · exact hnone
    · cases hpath
  | beginCleanup w hf =>
    exact ⟨copied, h.store, List.forall_mem_nil _, List.forall_mem_nil _, copying_done h rfl rfl rfl rfl, hf⟩
  | cleanup w w' ok lost hfolder =>
    obtain ⟨hall, hf⟩ := hst
    obtain ⟨hstore, hgone⟩ := deleteFolder_inv hk ha hf h.store hall hfolder
    refine ⟨copied, hstore, List.forall_mem_nil _, List.forall_mem_nil _, .inr hall,
      fun hcode => ⟨hall, fun i hi => ?_⟩⟩
    obtain ⟨path, dest, hp, rfl⟩ := hi
    have hne := List.length_pos_of_mem ((@mem_manifest _ _ _ _ hl (path, dest)).mpr hp)
    rcases Nat.mul_eq_zero.mp (exitCode_zero hcode).2 with hrow | hlen
    · exact hgone (failedRow_zero hrow) _ hp.selected
    · omega

theorem run_inv (hk : KeepsApart j s0) (ha : Accepted j) (hl : ListedFiles j s0 files)
    (h : Run j limit files (Batch.init j files s0) b) : ∃ copied, BatchInv j s0 copied b := by
  induction h with
  | refl => exact ⟨∅, BatchInv.init hl⟩
  | tail _ hstep ih =>
    obtain ⟨copied, ih⟩ := ih
    exact step_inv hk ha hl ih hstep

def BatchStage.code : BatchStage → Option (Option Nat)
  | .finished code => some code
  | _ => none

theorem BatchInv.safe (h : BatchInv j s0 copied b) : MoveSafe j s0 false b.world b.stage.code where
  kept := h.store.kept
  framed := h.store.frame
  staged _ := by
    have hst := h.stage
    unfold BatchStageInv at hst
    cases hs : b.stage <;> simp only [hs] at hst
    · exact .inl hst.1
    · exact .inr (h.store.delivered hst.1)
    · exact .inr (h.store.delivered hst.1)
    · exact hst.1.imp id h.store.delivered
  moved hcode i hi := by
    have hst := h.stage
    unfold BatchStageInv at hst
    cases hs : b.stage <;> simp only [hs, BatchStage.code] at hst hcode
    · cases hcode
    · cases hcode
    · cases hcode
    · obtain ⟨hall, hgone⟩ := hst.2 (Option.some.inj hcode)
      exact ⟨h.store.delivered hall i hi, hgone i hi⟩

end Manifest

end VeStorage.ADrive.Move
