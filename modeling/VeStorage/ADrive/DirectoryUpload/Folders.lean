import VeStorage.ADrive.DirectoryUpload.Program

namespace VeStorage.ADrive.DirectoryUpload
open Lib
open Tos (FileName)

section Accumulate

variable {pre names done rest : List Text} {f g : Text}

theorem accumulate_cons (hp : PlainNames '/' pre) (name : Text) (names : List Text) :
    accumulate (join '/' pre) (name :: names) =
      join '/' (pre ++ [name]) :: accumulate (join '/' (pre ++ [name])) names := by
  have hnext : (if join '/' pre = [] then name else join '/' pre ++ '/' :: name) =
      join '/' (pre ++ [name]) := by
    by_cases he : pre = []
    · subst he
      simp [join]
    · rw [if_neg (join_ne_nil he fun part hpart => (hp part hpart).2),
        join_append he (List.cons_ne_nil _ _)]
      simp [join]
  rw [accumulate]
  simp only [hnext]

theorem mem_accumulate (hp : PlainNames '/' pre) (hn : PlainNames '/' names) :
    f ∈ accumulate (join '/' pre) names ↔
      ∃ ms, ms ≠ [] ∧ ms <+: names ∧ f = join '/' (pre ++ ms) := by
  induction names generalizing pre with
  | nil =>
    refine ⟨fun h => (List.not_mem_nil h).elim, ?_⟩
    rintro ⟨ms, hne, hms, -⟩
    exact absurd (List.prefix_nil.mp hms) hne
  | cons name names ih =>
    have hpn : PlainNames '/' (pre ++ [name]) := by
      intro n hmem
      rcases List.mem_append.mp hmem with hmem | hmem
      · exact hp n hmem
      · rw [List.mem_singleton.mp hmem]
        exact hn name List.mem_cons_self
    rw [accumulate_cons hp, List.mem_cons,
      ih hpn fun n hmem => hn n (List.mem_cons_of_mem _ hmem)]
    constructor
    · rintro (rfl | ⟨ms, -, hms, rfl⟩)
      · exact ⟨[name], by simp, by simp, rfl⟩
      · exact ⟨name :: ms, by simp, by simpa using hms, by simp⟩
    · rintro ⟨ms, hne, hms, rfl⟩
      obtain ⟨n, ms, rfl⟩ := List.exists_cons_of_ne_nil hne
      obtain ⟨rfl, htail⟩ := List.cons_prefix_cons.mp hms
      by_cases hm : ms = []
      · exact .inl (by rw [hm])
      · exact .inr ⟨ms, hm, htail, by simp⟩

theorem accumulate_split (hp : PlainNames '/' pre) (hn : PlainNames '/' names)
    (h : accumulate (join '/' pre) names = done ++ f :: rest) :
    ∃ ms n tail, names = ms ++ n :: tail ∧ done = accumulate (join '/' pre) ms ∧
      f = join '/' (pre ++ ms ++ [n]) := by
  induction names generalizing pre done with
  | nil => simp [accumulate] at h
  | cons name names ih =>
    have hpn : PlainNames '/' (pre ++ [name]) := by
      intro n hmem
      rcases List.mem_append.mp hmem with hmem | hmem
      · exact hp n hmem
      · rw [List.mem_singleton.mp hmem]
        exact hn name List.mem_cons_self
    rw [accumulate_cons hp] at h
    cases done with
    | nil =>
      obtain ⟨hf, -⟩ := List.cons.inj h
      exact ⟨[], name, names, rfl, rfl, by simpa using hf.symm⟩
    | cons d done =>
      obtain ⟨rfl, hrest⟩ := List.cons.inj h
      obtain ⟨ms, n, tail, rfl, hd, hf⟩ :=
        ih hpn (fun n hmem => hn n (List.mem_cons_of_mem _ hmem)) hrest
      exact ⟨name :: ms, n, tail, rfl, by rw [accumulate_cons hp, hd], by simpa using hf⟩

theorem ancestor_split (hn : PlainNames '/' names)
    (h : g ++ ['/'] <+: join '/' names) :
    ∃ ms, ms ≠ [] ∧ ms <+: names.dropLast ∧ g = join '/' ms := by
  obtain ⟨r, hr⟩ := h
  rw [List.append_assoc, List.singleton_append] at hr
  have hsplit := join_splits hn hr.symm
  refine ⟨g.splitOn '/', List.splitOn_ne_nil _ _, ?_, (join_splitOn '/' g).symm⟩
  rw [hsplit, List.dropLast_append_of_ne_nil (List.splitOn_ne_nil _ _)]
  exact List.prefix_append _ _

end Accumulate

section Mkdir

variable {path f g : Text} {done rest : List Text}

theorem folderPaths_eq (h : segments '/' path ≠ []) :
    folderPathsForMkdir path true = accumulate (join '/' []) (segments '/' path) := by
  have hne : accumulate [] (segments '/' path) ≠ [] := by
    obtain ⟨name, names, hs⟩ := List.exists_cons_of_ne_nil h
    simp [hs, accumulate]
  rw [folderPathsForMkdir, if_neg (by simp), if_neg hne]
  rfl

theorem mem_folderPaths (h : segments '/' path ≠ []) :
    f ∈ folderPathsForMkdir path true ↔
      ∃ ms, ms ≠ [] ∧ ms <+: segments '/' path ∧ f = join '/' ms := by
  rw [folderPaths_eq h]
  simpa using mem_accumulate (f := f) (fun _ h => (List.not_mem_nil h).elim) (plainNames_segments '/' path)

theorem folderPaths_ancestors (h : segments '/' path ≠ [])
    (hd : folderPathsForMkdir path true = done ++ f :: rest)
    (hgf : g ++ ['/'] <+: f) : g ∈ done := by
  rw [folderPaths_eq h] at hd
  have hnil : PlainNames '/' ([] : List Text) := by simp [PlainNames]
  obtain ⟨ms, n, tail, hsegs, rfl, rfl⟩ := accumulate_split hnil (plainNames_segments '/' path) hd
  have hplain : PlainNames '/' (ms ++ n :: tail) := hsegs ▸ plainNames_segments '/' path
  rw [List.nil_append] at hgf
  obtain ⟨as, hne, has, rfl⟩ := ancestor_split (hplain.of_subset (by simp)) hgf
  rw [List.dropLast_concat] at has
  exact (mem_accumulate hnil (hplain.of_subset (by simp))).mpr ⟨as, hne, has, rfl⟩

end Mkdir

section Tree

variable {forest : Forest} {names d e : List Text} {n : Text}

def Forest.dirsBelow (names : List Text) : Forest → List (List Text)
  | nil => []
  | file _ rest => rest.dirsBelow names
  | dir name children rest =>
    (names ++ [name]) :: (children.dirsBelow (names ++ [name]) ++ rest.dirsBelow names)
  | other _ rest => rest.dirsBelow names

theorem dirsBelow_starts (h : d ∈ forest.dirsBelow names) :
    ∃ m ∈ forest.names, names ++ [m] <+: d := by
  induction forest generalizing names with
  | nil => cases h
  | file name rest ih =>
    obtain ⟨m, hm, hd⟩ := ih h
    exact ⟨m, List.mem_cons_of_mem _ hm, hd⟩
  | dir name children rest ihc ih =>
    rcases List.mem_cons.mp h with rfl | h
    · exact ⟨name, List.mem_cons_self, List.prefix_rfl⟩
    · rcases List.mem_append.mp h with h | h
      · obtain ⟨m, -, hd⟩ := ihc h
        exact ⟨name, List.mem_cons_self, (List.prefix_append _ _).trans hd⟩
      · obtain ⟨m, hm, hd⟩ := ih h
        exact ⟨m, List.mem_cons_of_mem _ hm, hd⟩
  | other name rest ih =>
    obtain ⟨m, hm, hd⟩ := ih h
    exact ⟨m, List.mem_cons_of_mem _ hm, hd⟩

theorem collectLocalFiles_starts (h : (d, n) ∈ forest.collectLocalFiles names) :
    ∃ m ∈ forest.names, names ++ [m] <+: d ++ [n] := by
  induction forest generalizing names with
  | nil => cases h
  | file name rest ih =>
    rcases List.mem_cons.mp h with h | h
    · obtain ⟨rfl, rfl⟩ := Prod.mk.inj h
      exact ⟨n, List.mem_cons_self, List.prefix_rfl⟩
    · obtain ⟨m, hm, hd⟩ := ih h
      exact ⟨m, List.mem_cons_of_mem _ hm, hd⟩
  | dir name children rest ihc ih =>
    rcases List.mem_append.mp h with h | h
    · obtain ⟨m, -, hd⟩ := ihc h
      exact ⟨name, List.mem_cons_self, (List.prefix_append _ _).trans hd⟩
    · obtain ⟨m, hm, hd⟩ := ih h
      exact ⟨m, List.mem_cons_of_mem _ hm, hd⟩
  | other name rest ih =>
    obtain ⟨m, hm, hd⟩ := ih h
    exact ⟨m, List.mem_cons_of_mem _ hm, hd⟩

theorem same_entry {m m' : Text} (h : names ++ [m] <+: d) (h' : names ++ [m'] <+: d) : m = m' := by
  obtain ⟨r, rfl⟩ := h
  obtain ⟨r', hr⟩ := h'
  simp only [List.append_assoc, List.append_cancel_left_eq, List.singleton_append] at hr
  exact (List.cons.inj hr).1.symm

theorem dirs_not_files (hw : forest.WellFormed) (hd : d ∈ forest.dirsBelow names)
    (hf : (e, n) ∈ forest.collectLocalFiles names) : d ≠ e ++ [n] := by
  rintro rfl
  induction forest generalizing names with
  | nil => cases hd
  | file name rest ih =>
    obtain ⟨-, hnew, hrest⟩ := hw
    rcases List.mem_cons.mp hf with hf | hf
    · obtain ⟨rfl, rfl⟩ := Prod.mk.inj hf
      obtain ⟨m, hm, hstart⟩ := dirsBelow_starts (show e ++ [n] ∈ rest.dirsBelow e from hd)
      exact hnew (same_entry hstart List.prefix_rfl ▸ hm)
    · exact ih hrest hf hd
  | dir name children rest ihc ih =>
    obtain ⟨-, hnew, hchildren, hrest⟩ := hw
    have hother : ∀ {p}, names ++ [name] <+: p → ∀ m ∈ rest.names, ¬ names ++ [m] <+: p :=
      fun hp m hm hp' => hnew (same_entry hp hp' ▸ hm)
    rcases List.mem_append.mp hf with hf | hf
    · obtain ⟨_, -, hstart⟩ := collectLocalFiles_starts hf
      have hbelow := (List.prefix_append _ _).trans hstart
      rcases List.mem_cons.mp hd with hd | hd
      · rw [hd] at hstart
        simpa using hstart.length_le
      · rcases List.mem_append.mp hd with hd | hd
        · exact ihc hchildren hf hd
        · obtain ⟨m, hm, hm'⟩ := dirsBelow_starts hd
          exact hother hbelow m hm hm'
    · obtain ⟨m, hm, hm'⟩ := collectLocalFiles_starts hf
      rcases List.mem_cons.mp hd with hd | hd
      · exact hother (hd ▸ List.prefix_rfl) m hm hm'
      · rcases List.mem_append.mp hd with hd | hd
        · obtain ⟨_, -, hstart⟩ := dirsBelow_starts hd
          exact hother ((List.prefix_append _ _).trans hstart) m hm hm'
        · exact ih hrest hf hd
  | other name rest ih => exact ih hw.2.2 hf hd

theorem mem_dirsBelow : d ∈ forest.dirsBelow names ↔ ∃ sub ∈ forest.subdirs,
    d = names ++ [sub.1] ∨ d ∈ sub.2.dirsBelow (names ++ [sub.1]) := by
  induction forest with
  | nil => simp [Forest.dirsBelow, Forest.subdirs]
  | file _ _ ih => exact ih
  | dir name children rest _ ih =>
    simp only [Forest.dirsBelow, Forest.subdirs, List.mem_cons, List.mem_append, ih,
      exists_eq_or_imp, or_assoc]
  | other _ _ ih => exact ih

theorem mem_collectLocalFiles : (d, n) ∈ forest.collectLocalFiles names ↔
    (d = names ∧ n ∈ forest.fileNames) ∨ ∃ sub ∈ forest.subdirs,
      (d, n) ∈ sub.2.collectLocalFiles (names ++ [sub.1]) := by
  induction forest with
  | nil => simp [Forest.collectLocalFiles, Forest.fileNames, Forest.subdirs]
  | file name rest ih =>
    simp only [Forest.collectLocalFiles, Forest.fileNames, Forest.subdirs, List.mem_cons,
      Prod.mk.injEq, ih]
    tauto
  | dir name children rest _ ih =>
    simp only [Forest.collectLocalFiles, Forest.fileNames, Forest.subdirs, List.mem_cons,
      List.mem_append, ih, exists_eq_or_imp]
    tauto
  | other _ _ ih => exact ih

theorem mem_walk_directory (pending : List (List Text × Forest)) : .directory d ∈ walk pending ↔
    ∃ next ∈ pending, d = next.1 ∨ d ∈ next.2.dirsBelow next.1 := by
  induction pending using walk.induct with
  | case1 => simp [walk]
  | case2 names forest pending ih =>
    rw [walk]
    simp only [List.mem_cons, List.mem_append, List.mem_map, Visit.directory.injEq, reduceCtorEq,
      and_false, exists_false, false_or, ih, exists_eq_or_imp]
    rw [mem_dirsBelow, or_assoc]
    refine or_congr_right ⟨?_, ?_⟩
    · rintro ⟨next, ⟨sub, hsub, rfl⟩ | hnext, hd⟩
      · exact .inl ⟨sub, hsub, hd⟩
      · exact .inr ⟨next, hnext, hd⟩
    · rintro (⟨sub, hsub, hd⟩ | ⟨next, hnext, hd⟩)
      · exact ⟨_, .inl ⟨sub, hsub, rfl⟩, hd⟩
      · exact ⟨next, .inr hnext, hd⟩

theorem mem_walk_file (pending : List (List Text × Forest)) : .file d n ∈ walk pending ↔
    ∃ next ∈ pending, (d, n) ∈ next.2.collectLocalFiles next.1 := by
  induction pending using walk.induct with
  | case1 => simp [walk]
  | case2 names forest pending ih =>
    rw [walk]
    simp only [List.mem_cons, List.mem_append, List.mem_map, Visit.file.injEq, reduceCtorEq,
      false_or, ih, exists_eq_or_imp]
    rw [mem_collectLocalFiles, or_assoc]
    refine or_congr ⟨?_, ?_⟩ ⟨?_, ?_⟩
    · rintro ⟨n, hn, rfl, rfl⟩
      exact ⟨rfl, hn⟩
    · rintro ⟨rfl, hn⟩
      exact ⟨n, hn, rfl, rfl⟩
    · rintro ⟨next, ⟨sub, hsub, rfl⟩ | hnext, hd⟩
      · exact .inl ⟨sub, hsub, hd⟩
      · exact .inr ⟨next, hnext, hd⟩
    · rintro (⟨sub, hsub, hd⟩ | ⟨next, hnext, hd⟩)
      · exact ⟨_, .inl ⟨sub, hsub, rfl⟩, hd⟩
      · exact ⟨next, .inr hnext, hd⟩

theorem dirsBelow_parent (h : d ∈ forest.dirsBelow names) (hne : names <+: e) (hed : e <+: d) :
    e = names ∨ e ∈ forest.dirsBelow names := by
  induction forest generalizing names with
  | nil => cases h
  | file _ _ ih => exact ih h hne
  | dir name children rest ihc ih =>
    rcases List.mem_cons.mp h with rfl | h
    · rcases List.prefix_concat_iff.mp hed with rfl | hed
      · exact .inr List.mem_cons_self
      · exact .inl (hed.eq_of_length_le hne.length_le)
    · rcases List.mem_append.mp h with h | h
      · by_cases hlen : e.length ≤ names.length
        · exact .inl (hne.eq_of_length_le hlen).symm
        · obtain ⟨m, -, hstart⟩ := dirsBelow_starts h
          have hlong : names ++ [name] <+: e := by
            refine List.prefix_of_prefix_length_le ((List.prefix_append _ _).trans hstart) hed ?_
            simp only [List.length_append, List.length_singleton]
            omega
          rcases ihc h hlong with rfl | he
          · exact .inr List.mem_cons_self
          · exact .inr (List.mem_cons_of_mem _ (List.mem_append_left _ he))
      · exact (ih h hne).imp_right fun he => List.mem_cons_of_mem _ (List.mem_append_right _ he)
  | other _ _ ih => exact ih h hne

theorem collectLocalFiles_parent (h : (d, n) ∈ forest.collectLocalFiles names) :
    d = names ∨ d ∈ forest.dirsBelow names := by
  induction forest generalizing names with
  | nil => cases h
  | file name rest ih =>
    rcases List.mem_cons.mp h with h | h
    · exact .inl (Prod.mk.inj h).1
    · exact ih h
  | dir name children rest ihc ih =>
    rcases List.mem_append.mp h with h | h
    · rcases ihc h with rfl | h
      · exact .inr List.mem_cons_self
      · exact .inr (List.mem_cons_of_mem _ (List.mem_append_left _ h))
    · exact (ih h).imp_right fun h => List.mem_cons_of_mem _ (List.mem_append_right _ h)
  | other _ _ ih => exact ih h

theorem fileName_plain (h : FileName n) : '/' ∉ n ∧ n ≠ [] := ⟨h.2.1, h.1⟩

theorem PlainNames_concat (hp : PlainNames '/' names) (h : FileName n) :
    PlainNames '/' (names ++ [n]) := by
  intro m hm
  rcases List.mem_append.mp hm with hm | hm
  · exact hp m hm
  · rw [List.mem_singleton.mp hm]
    exact fileName_plain h

theorem dirsBelow_plain (hw : forest.WellFormed) (hp : PlainNames '/' names)
    (h : d ∈ forest.dirsBelow names) : PlainNames '/' d := by
  induction forest generalizing names with
  | nil => cases h
  | file _ _ ih => exact ih hw.2.2 hp h
  | dir name children rest ihc ih =>
    obtain ⟨hname, -, hchildren, hrest⟩ := hw
    have hnext := PlainNames_concat hp hname
    rcases List.mem_cons.mp h with rfl | h
    · exact hnext
    · rcases List.mem_append.mp h with h | h
      · exact ihc hchildren hnext h
      · exact ih hrest hp h
  | other _ _ ih => exact ih hw.2.2 hp h

theorem collectLocalFiles_plain (hw : forest.WellFormed) (hp : PlainNames '/' names)
    (h : (d, n) ∈ forest.collectLocalFiles names) : PlainNames '/' (d ++ [n]) := by
  induction forest generalizing names with
  | nil => cases h
  | file name rest ih =>
    rcases List.mem_cons.mp h with h | h
    · obtain ⟨rfl, rfl⟩ := Prod.mk.inj h
      exact PlainNames_concat hp hw.1
    · exact ih hw.2.2 hp h
  | dir name children rest ihc ih =>
    obtain ⟨hname, -, hchildren, hrest⟩ := hw
    rcases List.mem_append.mp h with h | h
    · exact ihc hchildren (PlainNames_concat hp hname) h
    · exact ih hrest hp h
  | other _ _ ih => exact ih hw.2.2 hp h

end Tree

section Paths

variable (j : Job) {names d e ms : List Text} {n x p : Text}

def Job.parentNames : List Text := j.parent.toList

theorem parentNames_plain : PlainNames '/' j.parentNames := by
  intro name hname
  have hp : j.parent = some name := by simpa [Job.parentNames] using hname
  have heq := j.parent_eq
  rw [hp] at heq
  exact sourceParent_plain heq

theorem PlainNames_append {a b : List Text} (ha : PlainNames '/' a) (hb : PlainNames '/' b) :
    PlainNames '/' (a ++ b) := fun n hn =>
  (List.mem_append.mp hn).elim (ha n) (hb n)

theorem joinRemotePath_join (base : Text) (h : PlainNames '/' ms) :
    joinRemotePath base (join '/' ms) =
      if trim '/' base = [] then join '/' ms
      else if ms = [] then trim '/' base else trim '/' base ++ '/' :: join '/' ms := by
  have hnil : join '/' ms = [] ↔ ms = [] := by
    refine ⟨fun he => by_contra fun hne => join_ne_nil hne (fun n hn => (h n hn).2) he, ?_⟩
    rintro rfl
    rfl
  simp only [joinRemotePath, trimStart_join h, hnil]

theorem segments_joinRemotePath (base : Text) (h : PlainNames '/' ms) :
    segments '/' (joinRemotePath base (join '/' ms)) = segments '/' base ++ ms := by
  rw [joinRemotePath_join base h]
  have hbase := segments_trim '/' base
  split
  · rename_i he
    rw [he, segments_nil] at hbase
    rw [segments_join h, ← hbase, List.nil_append]
  split
  · rename_i hms
    rw [hms, hbase, List.append_nil]
  · rw [segments_append, hbase, segments_join h]

theorem relative_eq (h : PlainNames '/' names) :
    j.relative names = join '/' (j.parentNames ++ names) := by
  unfold Job.relative Job.parentNames
  cases hp : j.parent with
  | none => rfl
  | some parent =>
    have hplain := parentNames_plain j parent (by simp [Job.parentNames, hp])
    have hsingle : join '/' [parent] = parent := by simp [join]
    have htrim : trim '/' parent = parent := by
      rw [← hsingle]
      exact trim_join fun n hn => by simpa [List.mem_singleton.mp hn] using hplain
    rw [prependAdriveParentPrefix, joinRemotePath_join parent h, if_neg (by simpa [htrim] using hplain.2)]
    split
    · rename_i hnames
      simp [hnames, htrim, hsingle]
    · rename_i hne
      rw [Option.toList_some, join_append (List.cons_ne_nil _ _) hne, hsingle, htrim]

def Job.rootNames : List Text := segments '/' j.destination.path ++ j.parentNames

theorem segments_remotePath (h : PlainNames '/' names) :
    segments '/' (j.remotePath names) = j.rootNames ++ names := by
  rw [Job.remotePath, relative_eq j h,
    segments_joinRemotePath _ (PlainNames_append (parentNames_plain j) h), Job.rootNames,
    List.append_assoc]

theorem segments_ne_nil_of_remotePath (h : PlainNames '/' names) (hne : j.remotePath names ≠ []) :
    segments '/' (j.remotePath names) ≠ [] := by
  intro hs
  rw [Job.remotePath, relative_eq j h,
    joinRemotePath_join _ (PlainNames_append (parentNames_plain j) h)] at hne hs
  split at hs
  · rename_i hb
    rw [segments_join (PlainNames_append (parentNames_plain j) h)] at hs
    simp [hb, hs, join] at hne
  · rename_i hb
    split at hs
    · have hbase : segments '/' j.destination.path = [] := by rwa [segments_trim] at hs
      have hall : ∀ c ∈ j.destination.path, c = '/' := by
        intro c hc
        by_contra hne
        exact segments_ne_nil ⟨c, hc, hne⟩ hbase
      obtain ⟨k, hk⟩ : ∃ k, j.destination.path = List.replicate k '/' :=
        ⟨_, List.eq_replicate_of_mem hall⟩
      apply hb
      rw [hk, trim, trimStart, List.dropWhile_replicate]
      simp
    · rename_i hms
      rw [segments_append, segments_join (PlainNames_append (parentNames_plain j) h)] at hs
      exact hms (List.append_eq_nil_iff.mp hs).2

def Job.Chosen (d : List Text) : Prop :=
  d = [] ∨ d ∈ j.tree.dirsBelow [] ∧ (j.selected d = true ∨
    ∃ n, (d, n) ∈ j.tree.collectLocalFiles [] ∧ j.selected (d ++ [n]) = true)

def Job.Wanted (p : Text) : Prop :=
  j.args.disableDirObject = false ∧ p ≠ [] ∧ ∃ d e, j.Chosen d ∧ e <+: d ∧ p = j.remotePath e

theorem nil_plain : PlainNames '/' ([] : List Text) := by simp [PlainNames]

theorem mem_addRelativeFolder (h : PlainNames '/' names) :
    x ∈ addRelativeFolderWithParents (join '/' names) ↔
      ∃ ms, ms ≠ [] ∧ ms <+: names ∧ x = join '/' ms := by
  rw [addRelativeFolderWithParents, segments_trim, segments_join h]
  exact mem_accumulate nil_plain h

theorem mem_addRelativeFile (h : PlainNames '/' (names ++ [n])) :
    x ∈ addRelativeFileParentFolders (join '/' (names ++ [n])) ↔
      ∃ ms, ms ≠ [] ∧ ms <+: names ∧ x = join '/' ms := by
  have hsplit := splitOn_join h (by simp)
  have hnames : PlainNames '/' names := h.of_subset (by simp)
  rw [addRelativeFileParentFolders, trim_join h, rsplitOnce, hsplit]
  by_cases hne : names = []
  · subst hne
    have hfree : '/' ∉ join '/' ([] ++ [n]) := by simpa [join] using (h n (by simp)).1
    rw [if_neg hfree]
    refine ⟨fun hx => (List.not_mem_nil hx).elim, ?_⟩
    rintro ⟨ms, hms, hpre, -⟩
    exact absurd (List.prefix_nil.mp hpre) hms
  · have hslash : '/' ∈ join '/' (names ++ [n]) := by
      rw [join_append hne (List.cons_ne_nil _ _)]
      simp
    rw [if_pos hslash]
    simpa using mem_addRelativeFolder hnames

theorem mem_collectDesiredInner (forest : Forest) (names : List Text) :
    x ∈ j.collectDesiredInner names forest ↔
      (∃ d ∈ forest.dirsBelow names, j.selected d = true ∧
        x ∈ addRelativeFolderWithParents (j.relative d)) ∨
      ∃ d n, (d, n) ∈ forest.collectLocalFiles names ∧ j.selected (d ++ [n]) = true ∧
        x ∈ addRelativeFileParentFolders (j.relative (d ++ [n])) := by
  induction forest generalizing names with
  | nil => simp [Job.collectDesiredInner, Forest.dirsBelow, Forest.collectLocalFiles]
  | file name rest ih =>
    simp only [Job.collectDesiredInner, Forest.dirsBelow, Forest.collectLocalFiles, List.mem_append,
      List.mem_cons, Prod.mk.injEq, ih, List.mem_ite_nil_right]
    constructor
    · rintro (⟨hsel, hx⟩ | hd | ⟨d, n, hf, h⟩)
      · exact .inr ⟨_, _, .inl ⟨rfl, rfl⟩, hsel, hx⟩
      · exact .inl hd
      · exact .inr ⟨d, n, .inr hf, h⟩
    · rintro (hd | ⟨d, n, ⟨rfl, rfl⟩ | hf, h⟩)
      · exact .inr (.inl hd)
      · exact .inl h
      · exact .inr (.inr ⟨d, n, hf, h⟩)
  | dir name children rest ihc ih =>
    simp only [Job.collectDesiredInner, Forest.dirsBelow, Forest.collectLocalFiles, List.mem_append,
      List.mem_cons, ih, ihc, List.mem_ite_nil_right]
    constructor
    · rintro (hd | (⟨d, hd, h⟩ | ⟨d, n, hf, h⟩) | ⟨d, hd, h⟩ | ⟨d, n, hf, h⟩)
      · exact .inl ⟨_, .inl rfl, hd⟩
      · exact .inl ⟨d, .inr (.inl hd), h⟩
      · exact .inr ⟨d, n, .inl hf, h⟩
      · exact .inl ⟨d, .inr (.inr hd), h⟩
      · exact .inr ⟨d, n, .inr hf, h⟩
    · rintro (⟨d, rfl | hd | hd, h⟩ | ⟨d, n, hf | hf, h⟩)
      · exact .inl h
      · exact .inr (.inl (.inl ⟨d, hd, h⟩))
      · exact .inr (.inr (.inl ⟨d, hd, h⟩))
      · exact .inr (.inl (.inr ⟨d, n, hf, h⟩))
      · exact .inr (.inr (.inr ⟨d, n, hf, h⟩))
  | other name rest ih => exact ih names

theorem relative_root : j.relative [] = j.parent.getD [] := by
  rw [relative_eq j nil_plain, List.append_nil, Job.parentNames]
  cases j.parent with
  | none => rfl
  | some parent => simp [join]

theorem under_parent (h : PlainNames '/' d) :
    (∃ ms, ms ≠ [] ∧ ms <+: j.parentNames ++ d ∧ x = join '/' ms) ↔
      ∃ e, j.parentNames ++ e ≠ [] ∧ e <+: d ∧ x = j.relative e := by
  constructor
  · rintro ⟨ms, hne, hms, rfl⟩
    unfold Job.parentNames at hms
    cases hp : j.parent with
    | none =>
      rw [hp] at hms
      refine ⟨ms, by simp [hne], hms, ?_⟩
      rw [relative_eq j (h.of_subset hms.subset), Job.parentNames, hp]
      rfl
    | some parent =>
      rw [hp] at hms
      obtain ⟨m, e, rfl⟩ := List.exists_cons_of_ne_nil hne
      obtain ⟨rfl, he⟩ := List.cons_prefix_cons.mp hms
      refine ⟨e, by simp [Job.parentNames, hp], he, ?_⟩
      rw [relative_eq j (h.of_subset he.subset), Job.parentNames, hp]
      rfl
  · rintro ⟨e, hne, he, rfl⟩
    exact ⟨_, hne, by simpa using he, relative_eq j (h.of_subset he.subset)⟩

theorem mem_desired : x ∈ j.parent.getD [] :: j.collectLocalSyncDesiredFolders ↔
    ∃ d e, j.Chosen d ∧ e <+: d ∧ x = j.relative e := by
  have hroot : ∃ d e, j.Chosen d ∧ e <+: d ∧ j.parent.getD [] = j.relative e :=
    ⟨[], [], .inl rfl, List.prefix_rfl, (relative_root j).symm⟩
  rw [List.mem_cons, Job.collectLocalSyncDesiredFolders, List.mem_append, mem_collectDesiredInner]
  constructor
  · rintro (rfl | hx | ⟨d, hd, hsel, hx⟩ | ⟨d, n, hf, hsel, hx⟩)
    · exact hroot
    · cases hp : j.parent with
      | none => simp [hp] at hx
      | some parent =>
        have hplain := parentNames_plain j
        rw [hp, show parent = join '/' [parent] by simp [join]] at hx
        rw [Job.parentNames, hp] at hplain
        obtain ⟨ms, hne, hms, rfl⟩ := (mem_addRelativeFolder hplain).mp hx
        obtain ⟨m, ms, rfl⟩ := List.exists_cons_of_ne_nil hne
        obtain ⟨rfl, htail⟩ := List.cons_prefix_cons.mp hms
        refine ⟨[], [], .inl rfl, List.prefix_rfl, ?_⟩
        rw [relative_root, hp]
        simp [List.prefix_nil.mp htail, join]
    · have hplain := dirsBelow_plain j.tree_ok nil_plain hd
      rw [relative_eq j hplain, mem_addRelativeFolder (PlainNames_append (parentNames_plain j) hplain),
        under_parent j hplain] at hx
      obtain ⟨e, -, he, rfl⟩ := hx
      exact ⟨d, e, .inr ⟨hd, .inl hsel⟩, he, rfl⟩
    · have hplain := collectLocalFiles_plain j.tree_ok nil_plain hf
      have hd : PlainNames '/' d := hplain.of_subset (by simp)
      have hall := PlainNames_append (parentNames_plain j) hplain
      rw [relative_eq j hplain, ← List.append_assoc, mem_addRelativeFile (by simpa using hall),
        under_parent j hd] at hx
      obtain ⟨e, -, he, rfl⟩ := hx
      rcases collectLocalFiles_parent hf with rfl | hdir
      · exact ⟨[], e, .inl rfl, he, rfl⟩
      · exact ⟨d, e, .inr ⟨hdir, .inr ⟨n, hf, hsel⟩⟩, he, rfl⟩
  · rintro ⟨d, e, hd, he, rfl⟩
    by_cases hne : j.parentNames ++ e = []
    · obtain ⟨-, rfl⟩ := List.append_eq_nil_iff.mp hne
      exact .inl (relative_root j)
    rcases hd with rfl | ⟨hd, hsel | ⟨n, hf, hsel⟩⟩
    · rw [List.prefix_nil.mp he]
      exact .inl (relative_root j)
    · have hplain := dirsBelow_plain j.tree_ok nil_plain hd
      refine .inr (.inr (.inl ⟨d, hd, hsel, ?_⟩))
      rw [relative_eq j hplain, mem_addRelativeFolder (PlainNames_append (parentNames_plain j) hplain),
        under_parent j hplain]
      exact ⟨e, hne, he, rfl⟩
    · have hplain := collectLocalFiles_plain j.tree_ok nil_plain hf
      have hall := PlainNames_append (parentNames_plain j) hplain
      refine .inr (.inr (.inr ⟨d, n, hf, hsel, ?_⟩))
      rw [relative_eq j hplain, ← List.append_assoc, mem_addRelativeFile (by simpa using hall),
        under_parent j (hplain.of_subset (by simp))]
      exact ⟨e, hne, he, rfl⟩

theorem mem_tasks : p ∈ j.collectUploadDirectoryTasks ↔ j.Wanted p := by
  unfold Job.collectUploadDirectoryTasks Job.Wanted
  cases j.args.disableDirObject with
  | true => simp
  | false =>
    simp only [Bool.false_eq_true, if_false, mem_sortOn, List.mem_filterMap, mem_dedupBy_sortOn,
      mem_desired, true_and, Option.ite_none_left_eq_some, Option.some.injEq]
    constructor
    · rintro ⟨_, ⟨d, e, hd, he, rfl⟩, hne, rfl⟩
      exact ⟨hne, d, e, hd, he, rfl⟩
    · rintro ⟨hne, d, e, hd, he, rfl⟩
      exact ⟨_, ⟨d, e, hd, he, rfl⟩, hne, rfl⟩

end Paths

end VeStorage.ADrive.DirectoryUpload
