import VeStorage.ADrive.DirectoryUpload.Created

namespace VeStorage.ADrive.DirectoryUpload
open Lib Requests
open Tos (CliError)

variable (j : Job) {w : World} {need : Text → Text → Prop} {s : DirectoryUploadState} {l : Trace}
  {names d e : List Text} {n p q : Text}

def Job.IsDir (d : List Text) : Prop := d = [] ∨ d ∈ j.tree.dirsBelow []

-- The folders a run may create: none of them is the remote path of a file.
def Job.Folder (f : Text) : Prop := ∃ e, j.IsDir e ∧ segments '/' f <+: j.rootNames ++ e

theorem isDir_plain (h : j.IsDir d) : PlainNames '/' d := by
  rcases h with rfl | h
  · exact nil_plain
  · exact dirsBelow_plain j.tree_ok nil_plain h

theorem isDir_ancestor (h : j.IsDir d) (he : e <+: d) : j.IsDir e := by
  rcases h with rfl | h
  · exact .inl (List.prefix_nil.mp he)
  · exact dirsBelow_parent h (List.nil_prefix) he

theorem chosen_isDir (h : j.Chosen d) : j.IsDir d := h.imp_right And.left

theorem folder_of_task (h : j.Wanted p) :
    segments '/' p ≠ [] ∧ ∀ f ∈ folderPathsForMkdir p true, j.Folder f := by
  obtain ⟨-, hne, d, e, hd, he, rfl⟩ := h
  have hdir := isDir_ancestor j (chosen_isDir j hd) he
  have hplain := isDir_plain j hdir
  have hsegs := segments_ne_nil_of_remotePath j hplain hne
  refine ⟨hsegs, fun f hf => ?_⟩
  obtain ⟨ms, -, hms, rfl⟩ := (mem_folderPaths hsegs).mp hf
  refine ⟨e, hdir, ?_⟩
  rwa [segments_join ((plainNames_segments '/' _).of_subset hms.subset), ← segments_remotePath j hplain]

theorem file_not_folder (h : (d, n) ∈ j.tree.collectLocalFiles []) :
    ¬ j.Folder (j.remotePath (d ++ [n])) := by
  rintro ⟨e, he, hpre⟩
  rw [segments_remotePath j (collectLocalFiles_plain j.tree_ok nil_plain h),
    List.prefix_append_right_inj] at hpre
  rcases isDir_ancestor j he hpre with hnil | hdir
  · simp at hnil
  · exact dirs_not_files j.tree_ok hdir h rfl

abbrev Job.Between (w : World) : DirectoryUploadState → Trace → Prop :=
  DirectoryUpload.Between w j.Folder j.Wanted

theorem start_between : j.Between w .default [] := by
  refine ⟨⟨?_, ?_, ?_, ?_, ?_, ?_⟩, rfl, List.nodup_nil, ?_, ?_⟩ <;>
    simp [DirectoryUploadState.default, rows]

theorem task_holds (h : j.Between w s l) (hp : j.Wanted p) :
    Holds (Admissible w) (Sent need w) (fun out l' => j.Between w out.1 l' ∧
      s.reported ⊆ out.1.reported ∧ p ∈ out.1.reported)
      (recordDirectoryUpload j.destination s p) l :=
  record_holds h hp (folder_of_task j hp).1 (folder_of_task j hp).2

theorem manifest_holds : Holds (Admissible w) (Sent (fun _ q => q ∈ j.collectUploadDirectoryTasks) w)
    (fun out l => j.Between w out.1 l ∧
      (out.2 = .ok () → ∀ p ∈ j.collectUploadDirectoryTasks, p ∈ out.1.reported))
    j.uploadDirectoryRecursive [] := by
  refine Holds.bind (Holds.each (I := fun done s l => j.Between w s l ∧ ∀ p ∈ done, p ∈ s.reported)
    (F := j.Between w) j.collectUploadDirectoryTasks ⟨start_between j, by simp⟩ ?_) ?_
  · rintro done p rest hsplit s l ⟨h, hdone⟩
    refine (task_holds j h (mem_tasks j |>.mp (by simp [hsplit]))).mono ?_
    rintro ⟨s', result⟩ l' ⟨h', hsub, hp⟩
    cases result with
    | error e => exact h'
    | ok u =>
      refine ⟨h', fun q hq => ?_⟩
      rcases List.mem_append.mp hq with hq | hq
      · exact hsub (hdone q hq)
      · exact List.mem_singleton.mp hq ▸ hp
  · rintro ⟨s, result⟩ l hout
    cases result with
    | error e => exact ⟨hout, nofun⟩
    | ok u =>
      obtain ⟨h, hall⟩ := hout
      refine (Holds.each (I := fun _ s l => j.Between w s l ∧
        ∀ p ∈ j.collectUploadDirectoryTasks, p ∈ s.reported) (F := j.Between w)
        j.manifestFiles ⟨h, hall⟩ ?_).mono ?_
      · rintro done path rest hsplit s l ⟨h, hall⟩
        have hmem : path ∈ j.manifestFiles := by simp [hsplit]
        obtain ⟨⟨d, n⟩, hfile, rfl⟩ := List.mem_map.mp hmem
        refine (upload_holds h (file_not_folder j (List.mem_filter.mp hfile).1) hall).mono ?_
        rintro ⟨s', result⟩ l' ⟨h', hs⟩
        cases result with
        | error e => exact h'
        | ok u =>
          obtain rfl : s' = s := hs
          exact ⟨h', hall⟩
      · rintro ⟨s', result⟩ l' hout
        cases result with
        | error e => exact ⟨hout, nofun⟩
        | ok u => exact ⟨hout.1, fun _ => hout.2⟩

-- The directories a visit is there for have all been reported.
def Job.Reported (s : DirectoryUploadState) (d : List Text) : Prop :=
  j.args.disableDirObject = false → ∀ e, e <+: d → j.remotePath e ≠ [] →
    j.remotePath e ∈ s.reported

theorem streamDirectory_holds {isRequired : Bool} (h : j.Between w s l)
    (hchosen : isRequired = true ∨ d = [] ∨ j.selected d = true → j.Chosen d) :
    Holds (Admissible w) (Sent need w) (fun out l' => j.Between w out.1 l' ∧
      s.reported ⊆ out.1.reported ∧ (out.2 = .ok () →
        isRequired = true ∨ d = [] ∨ j.selected d = true → j.Reported out.1 d))
      (j.streamUploadDirectory isRequired s d) l := by
  unfold Job.streamUploadDirectory
  split
  · rename_i hdisabled
    exact ⟨h, fun _ => id, fun _ _ hd => by simp [hdisabled] at hd⟩
  rename_i hdisabled
  split
  · rename_i hskip
    refine ⟨h, fun _ => id, fun _ hd => ?_⟩
    simp only [Bool.and_eq_true, Bool.not_eq_true', decide_eq_true_eq] at hskip
    rcases hd with hd | hd | hd
    · exact absurd (hd.symm.trans hskip.1.1) (by simp)
    · exact absurd hd hskip.1.2
    · exact absurd (hd.symm.trans hskip.2) (by simp)
  rename_i hskip
  have hd : j.Chosen d := by
    refine hchosen ?_
    by_contra hnone
    rw [not_or, not_or] at hnone
    exact hskip (by simp [hnone.1, hnone.2.1, hnone.2.2])
  let I := fun (done : List (List Text)) (s' : DirectoryUploadState) (l' : Trace) =>
    j.Between w s' l' ∧ s.reported ⊆ s'.reported ∧
      ∀ e ∈ done, j.remotePath e ≠ [] → j.remotePath e ∈ s'.reported
  refine (Holds.each (I := I) (F := fun s' l' => j.Between w s' l' ∧ s.reported ⊆ s'.reported)
    d.inits ⟨h, fun _ => id, by simp⟩ ?_).mono ?_
  · rintro done e rest hsplit s₁ l₁ ⟨h₁, hsub, hdone⟩
    have he : e <+: d := (List.mem_inits e d).mp (by simp [hsplit])
    have hgrow : ∀ {s₂ : DirectoryUploadState}, s₁.reported ⊆ s₂.reported →
        (j.remotePath e ≠ [] → j.remotePath e ∈ s₂.reported) →
        ∀ e' ∈ done ++ [e], j.remotePath e' ≠ [] → j.remotePath e' ∈ s₂.reported := by
      intro s₂ hsub₂ hlast e' he' hne
      rcases List.mem_append.mp he' with he' | he'
      · exact hsub₂ (hdone e' he' hne)
      · obtain rfl := List.mem_singleton.mp he'
        exact hlast hne
    split
    · rename_i hempty
      exact ⟨h₁, hsub, hgrow (fun _ => id) fun hne => absurd hempty hne⟩
    · rename_i hne
      refine (task_holds j h₁ ⟨by simpa using hdisabled, hne, d, e, hd, he, rfl⟩).mono ?_
      rintro ⟨s₂, result⟩ l₂ ⟨h₂, hsub₂, hmem⟩
      cases result with
      | error _ => exact ⟨h₂, fun _ hq => hsub₂ (hsub hq)⟩
      | ok _ => exact ⟨h₂, fun _ hq => hsub₂ (hsub hq), hgrow hsub₂ fun _ => hmem⟩
  · rintro ⟨s', result⟩ l' hout
    cases result with
    | error _ => exact ⟨hout.1, hout.2, nofun⟩
    | ok _ =>
      exact ⟨hout.1, hout.2.1, fun _ _ _ e he hne => hout.2.2 e ((List.mem_inits e d).mpr he) hne⟩

def Job.Above (p q : Text) : Prop :=
  q ∈ j.collectUploadDirectoryTasks ∧ segments '/' q <+: segments '/' p

theorem above_reported (hf : (d, n) ∈ j.tree.collectLocalFiles []) (hr : j.Reported s d)
    (h : j.Above (j.remotePath (d ++ [n])) q) : q ∈ s.reported := by
  obtain ⟨hq, hpre⟩ := h
  obtain ⟨henabled, hne, d', e, hd', he, rfl⟩ := (mem_tasks j).mp hq
  have hdir := isDir_ancestor j (chosen_isDir j hd') he
  rw [segments_remotePath j (isDir_plain j hdir),
    segments_remotePath j (collectLocalFiles_plain j.tree_ok nil_plain hf),
    List.prefix_append_right_inj] at hpre
  rcases List.prefix_concat_iff.mp hpre with rfl | hpre
  · rcases hdir with hnil | hdir
    · simp at hnil
    · exact absurd rfl (dirs_not_files j.tree_ok hdir hf)
  · exact hr henabled e hpre hne

theorem file_chosen (hf : (d, n) ∈ j.tree.collectLocalFiles [])
    (hs : j.selected (d ++ [n]) = true) : j.Chosen d :=
  (collectLocalFiles_parent hf).imp_right fun hd => ⟨hd, .inr ⟨n, hf, hs⟩⟩

theorem queueFile_holds (h : j.Between w s l) (hf : (d, n) ∈ j.tree.collectLocalFiles []) :
    Holds (Admissible w) (Sent j.Above w) (fun out l' => j.Between w out.1 l' ∧
      s.reported ⊆ out.1.reported ∧ (out.2 = .ok () → j.selected (d ++ [n]) = true →
        j.Reported out.1 d)) (j.queueUploadFile s d n) l := by
  unfold Job.queueUploadFile
  split
  · rename_i hsel
    refine (streamDirectory_holds j h fun _ => file_chosen j hf hsel).bind ?_
    rintro ⟨s₁, result⟩ l₁ ⟨h₁, hsub, hrep⟩
    cases result with
    | error e => exact ⟨h₁, hsub, nofun⟩
    | ok u =>
      have hrep := hrep rfl (.inl rfl)
      refine (upload_holds h₁ (file_not_folder j hf) fun q hq => above_reported j hf hrep hq).mono ?_
      rintro ⟨s₂, result⟩ l₂ ⟨h₂, hs⟩
      obtain rfl : s₂ = s₁ := hs
      exact ⟨h₂, hsub, fun _ _ => hrep⟩
  · rename_i hsel
    exact ⟨h, fun _ => id, fun _ hs => absurd hs hsel⟩

def Job.Handled (s : DirectoryUploadState) : Visit → Prop
  | .directory d => d = [] ∨ j.selected d = true → j.Reported s d
  | .file d n => j.selected (d ++ [n]) = true → j.Reported s d

theorem Reported_mono {s s' : DirectoryUploadState} (h : j.Reported s d)
    (hsub : s.reported ⊆ s'.reported) : j.Reported s' d := fun henabled e he hne =>
  hsub (h henabled e he hne)

theorem Handled_mono {s s' : DirectoryUploadState} {v : Visit} (h : j.Handled s v)
    (hsub : s.reported ⊆ s'.reported) : j.Handled s' v := by
  cases v with
  | directory d => exact fun hd => Reported_mono j (h hd) hsub
  | file d n => exact fun hd => Reported_mono j (h hd) hsub

theorem visit_holds {v : Visit} (h : j.Between w s l) (hv : v ∈ walk [([], j.tree)]) :
    Holds (Admissible w) (Sent j.Above w) (fun out l' => j.Between w out.1 l' ∧
      s.reported ⊆ out.1.reported ∧ (out.2 = .ok () → j.Handled out.1 v)) (j.visit s v) l := by
  cases v with
  | directory d =>
    have hdir : j.IsDir d := by simpa [Job.IsDir] using (mem_walk_directory [([], j.tree)]).mp hv
    refine (streamDirectory_holds j h ?_).mono ?_
    · rintro (hno | hroot | hsel)
      · cases hno
      · exact .inl hroot
      · exact hdir.imp_right fun hd => ⟨hd, .inl hsel⟩
    · rintro ⟨s', result⟩ l' ⟨h', hsub, hrep⟩
      exact ⟨h', hsub, fun hok hd => hrep hok (.inr hd)⟩
  | file d n =>
    have hf : (d, n) ∈ j.tree.collectLocalFiles [] := by
      simpa using (mem_walk_file [([], j.tree)]).mp hv
    exact queueFile_holds j h hf

theorem all_reported (h : ∀ v ∈ walk [([], j.tree)], j.Handled s v) (hp : j.Wanted p) :
    p ∈ s.reported := by
  obtain ⟨henabled, hne, d, e, hd, he, rfl⟩ := hp
  have hr : j.Reported s d := by
    rcases hd with rfl | ⟨hd, hsel | ⟨n, hf, hsel⟩⟩
    · exact h (.directory []) ((mem_walk_directory _).mpr ⟨_, List.mem_cons_self, .inl rfl⟩) (.inl rfl)
    · exact h (.directory d) ((mem_walk_directory _).mpr ⟨_, List.mem_cons_self, .inr hd⟩) (.inr hsel)
    · exact h (.file d n) ((mem_walk_file _).mpr ⟨_, List.mem_cons_self, hf⟩) hsel
  exact hr henabled e he hne

theorem stream_holds : Holds (Admissible w) (Sent j.Above w)
    (fun out l => j.Between w out.1 l ∧
      (out.2 = .ok () → ∀ p ∈ j.collectUploadDirectoryTasks, p ∈ out.1.reported))
    j.streamUploadNoManifest [] := by
  refine (Holds.each (I := fun done s l => j.Between w s l ∧ ∀ v ∈ done, j.Handled s v)
    (F := j.Between w) (walk [([], j.tree)]) ⟨start_between j, by simp⟩ ?_).mono ?_
  · rintro done v rest hsplit s l ⟨h, hdone⟩
    refine (visit_holds j h (by simp [hsplit])).mono ?_
    rintro ⟨s', result⟩ l' ⟨h', hsub, hv⟩
    cases result with
    | error e => exact h'
    | ok u =>
      refine ⟨h', fun v' hv' => ?_⟩
      rcases List.mem_append.mp hv' with hv' | hv'
      · exact Handled_mono j (hdone v' hv') hsub
      · obtain rfl := List.mem_singleton.mp hv'
        exact hv rfl
  · rintro ⟨s, result⟩ l hout
    cases result with
    | error e => exact ⟨hout, nofun⟩
    | ok u => exact ⟨hout.1, fun _ p hp => all_reported j hout.2 ((mem_tasks j).mp hp)⟩

def reportedPaths (l : Trace) : List Text := (rows l).map Prod.fst

theorem Between.paths (h : j.Between w s l)
    (hall : ∀ p ∈ j.collectUploadDirectoryTasks, p ∈ s.reported) :
    (reportedPaths l).Nodup ∧ ∀ p, p ∈ reportedPaths l ↔ p ∈ j.collectUploadDirectoryTasks := by
  rw [reportedPaths, h.reported]
  exact ⟨h.nodup, fun p => ⟨fun hp => (mem_tasks j).mpr (h.wanted p hp), hall p⟩⟩

theorem directories_planned_and_streamed (w : World) :
    (∀ l s, Runs j.uploadDirectoryRecursive [] (.ret (s, .ok ())) l → Valid (Admissible w) l →
      (reportedPaths l).Nodup ∧ ∀ p, p ∈ reportedPaths l ↔ p ∈ j.collectUploadDirectoryTasks) ∧
    (∀ l s, Runs j.streamUploadNoManifest [] (.ret (s, .ok ())) l → Valid (Admissible w) l →
      (reportedPaths l).Nodup ∧ ∀ p, p ∈ reportedPaths l ↔ p ∈ j.collectUploadDirectoryTasks) ∧
    (∀ l r k, Runs j.uploadDirectoryRecursive [] (.ask r k) l → Valid (Admissible w) l →
      Sent (fun _ q => q ∈ j.collectUploadDirectoryTasks) w l r) ∧
    ∀ l r k, Runs j.streamUploadNoManifest [] (.ask r k) l → Valid (Admissible w) l →
      Sent j.Above w l r := by
  refine ⟨fun l s hr hv => ?_, fun l s hr hv => ?_, fun l r k hr hv => ?_, fun l r k hr hv => ?_⟩
  · obtain ⟨-, h, hall⟩ := (manifest_holds j).runs hr hv trivial
    exact Between.paths j h (hall rfl)
  · obtain ⟨-, h, hall⟩ := (stream_holds j).runs hr hv trivial
    exact Between.paths j h (hall rfl)
  · exact ((manifest_holds j).runs hr hv trivial).2.1
  · exact ((stream_holds j).runs hr hv trivial).2.1

def sampleJob : Job where
  args := ⟨⟨"src".toList, "adrive://i/s/d".toList, false, none, none⟩, false⟩
  tree := .dir "a".toList .nil .nil
  tree_ok := ⟨by decide, by decide, trivial, trivial⟩
  destination := ⟨"i".toList, "s".toList, "d".toList⟩
  destination_eq := by rfl
  parent := none
  parent_eq := by rfl

def emptyWorld : World := ⟨fun _ => False, fun _ => False⟩

def emptyListing : Listing := ⟨[⟨[], [], false, []⟩], .http⟩

-- The request for `d` answered by an internal error goes out again for the folder below it.
theorem failed_create_sent_again :
    ∃ k, Runs sampleJob.streamUploadNoManifest [] (.ask (.create "d".toList) k)
      [⟨.record "d".toList false, .ok (), emptyWorld⟩,
        ⟨.create "d".toList, .error (.server (some 500)), emptyWorld⟩,
        ⟨.list none, emptyListing, emptyWorld⟩] ∧
      Valid (Admissible emptyWorld)
        [⟨.record "d".toList false, .ok (), emptyWorld⟩,
          ⟨.create "d".toList, .error (.server (some 500)), emptyWorld⟩,
          ⟨.list none, emptyListing, emptyWorld⟩] := by
  have hwalk : walk [([], sampleJob.tree)] = [.directory [], .directory ["a".toList]] := by
    simp [walk, sampleJob, Forest.subdirs, Forest.fileNames]
  rw [Job.streamUploadNoManifest, hwalk]
  have listed : Runs (W := World) (each sampleJob.visit [.directory [], .directory ["a".toList]] .default)
      [] (.ask (.list none) _) [] := .refl _ _
  have first : Runs _ [] (.ask (Request.create "d".toList) _) _ := listed.step emptyListing emptyWorld
  have failed : Runs _ [] (.ask (Request.record "d".toList false) _) _ :=
    first.step (.error (.server (some 500))) emptyWorld
  have again : Runs _ [] (.ask (Request.create "d".toList) _) _ := failed.step (.ok ()) emptyWorld
  refine ⟨_, again, ?_⟩
  refine ⟨⟨⟨trivial, ?_⟩, ?_⟩, ?_⟩
  · refine ⟨fun _ => id, fun _ _ => Iff.rfl, ?_, ?_⟩
    · rintro pre listing w' entries ⟨⟩ hentries
      cases hentries
      refine ⟨?_, fun f _ => ⟨?_, False.elim⟩⟩
      · rintro _ ⟨⟩
      · rintro ⟨_, ⟨⟩, _⟩
    · rintro _ ⟨⟩
  · refine ⟨fun _ => id, fun _ _ => Iff.rfl, ?_, ?_⟩
    · rintro _ _ _ _ ⟨⟩
    · rintro _ ⟨⟩
  · refine ⟨fun _ => id, fun _ _ => Iff.rfl, ?_, ?_⟩
    · rintro _ _ _ _ ⟨⟩
    · rintro _ ⟨⟩

end VeStorage.ADrive.DirectoryUpload
