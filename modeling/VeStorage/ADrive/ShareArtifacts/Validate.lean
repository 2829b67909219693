import VeStorage.ADrive.ShareArtifacts.Apart
import VeStorage.ADrive.Share.CollisionFree

namespace VeStorage.ADrive.ShareArtifacts
open Lib
open Lib.Crash (ensure ensure_eq_ok bind_eq_ok seq_eq_ok pure_eq_ok)
open ADrive.Share (CliError Unicode Manifest validateRelative isUnsafeComponent asciiUnicode
  sharedFolder sharedFile)
open Tos.RollingCsv (FileName u64Max)

variable {disk : Disk} {u : Unicode} {text suffix : Text} {families : List VolumeFamily}

section Texts

structure CleanText (disk : Disk) (text : Text) : Prop where
  names : '\\' ∉ text
  currentDir : text.head? ≠ some '/' → Clean disk.currentDir

theorem mem_of_mem_splitOn {c : Char} {piece : Text} (hp : piece ∈ text.splitOn '/') (hc : c ∈ piece)
    (hne : c ≠ '/') : c ∈ text := by
  have hmem : c ∈ (text.splitOn '/').flatMap ('/' :: ·) :=
    List.mem_flatMap.mpr ⟨piece, hp, List.mem_cons_of_mem _ hc⟩
  rw [← cons_join (List.splitOn_ne_nil '/' text), join_splitOn] at hmem
  exact (List.mem_cons.mp hmem).resolve_left hne

theorem fileName?_eq {name : FileName} (h : fileName? text = some name) : name.text = text := by
  unfold fileName? at h
  split at h
  · rw [← Option.some.inj h]
  · cases h

theorem CleanText.path (h : CleanText disk text) : CleanPath disk (Path.ofText text) where
  names name hname := by
    obtain ⟨piece, hpiece, hcomponent⟩ := List.mem_filterMap.mp hname
    unfold component? at hcomponent
    split at hcomponent
    · cases hcomponent
    · obtain ⟨other, hother, he⟩ := Option.map_eq_some_iff.mp hcomponent
      obtain rfl := Component.normal.inj he
      rw [fileName?_eq hother]
      exact fun hc => h.names (mem_of_mem_splitOn hpiece hc (by simp))
  currentDir hrelative := h.currentDir (by simpa [Path.ofText] using hrelative)

theorem splitOn_append_suffix (text : Text) (hs : '/' ∉ suffix) :
    ∃ init last, text.splitOn '/' = init ++ [last] ∧
      (text ++ suffix).splitOn '/' = init ++ [last ++ suffix] := by
  rcases List.eq_nil_or_concat (text.splitOn '/') with he | ⟨init, last, he⟩
  · exact absurd he (List.splitOn_ne_nil '/' text)
  · rw [List.concat_eq_append] at he
    refine ⟨init, last, he, ?_⟩
    have hparts := not_mem_splitOn '/' text
    have htext := join_splitOn '/' text
    rw [he] at hparts htext
    have happended : text ++ suffix = join '/' (init ++ [last ++ suffix]) := by
      rw [← htext]
      by_cases hinit : init = []
      · simp [hinit, join, List.intercalate_singleton]
      · rw [join_append hinit (List.cons_ne_nil _ _), join_append hinit (List.cons_ne_nil _ _)]
        simp [join, List.intercalate_singleton]
    rw [happended]
    refine List.splitOn_intercalate '/' (fun part hp => ?_) (by simp)
    rcases List.mem_append.mp hp with hp | hp
    · exact hparts part (List.mem_append_left _ hp)
    · obtain rfl := List.mem_singleton.mp hp
      intro hmem
      exact (List.mem_append.mp hmem).elim (hparts last (by simp)) hs

theorem fileName?_long (text : Text) (hplain : '/' ∉ text) (hlong : 2 < text.length) :
    ∃ name, fileName? text = some name := by
  refine ⟨_, dif_pos ⟨?_, hplain, ?_, ?_⟩⟩ <;> rintro rfl <;> simp at hlong

theorem resolve_suffix_ne_nil (hs : '/' ∉ suffix) (hlong : 2 < suffix.length) :
    disk.resolve (Path.ofText (text ++ suffix)) ≠ [] := by
  obtain ⟨init, last, hsplit, happended⟩ := splitOn_append_suffix text hs
  have hlast : '/' ∉ last := not_mem_splitOn '/' text last (by simp [hsplit])
  obtain ⟨name, hname⟩ := fileName?_long (last ++ suffix)
    (fun hmem => (List.mem_append.mp hmem).elim hlast hs) (by rw [List.length_append]; omega)
  have hcomponent : component? (last ++ suffix) = some (.normal name) := by
    rw [component?, if_neg, hname, Option.map_some]
    intro he
    have hlength := congrArg List.length he
    rw [List.length_append] at hlength
    simp at hlength
    omega
  rw [Path.ofText, happended, List.filterMap_append, List.filterMap_cons, hcomponent,
    List.filterMap_nil, resolve_append]
  simp

end Texts

section Targets

def targets (disk : Disk) (manifest : Manifest) (destination : Text) : List Resolved :=
  (relatives manifest).map (joinRelative (disk.resolve (Path.ofText destination)))

def recoveryState (disk : Disk) (checkpoint : Option Text) : List Resolved :=
  (checkpoint.toList.flatMap protectedPaths).map fun path => disk.resolve (Path.ofText path)

theorem safe_component (h : validateRelative u text = .ok ()) {piece : Text}
    (hp : piece ∈ text.splitOn '/') :
    piece ≠ [] ∧ piece ≠ ".".toList ∧ piece ≠ "..".toList ∧ '\\' ∉ piece := by
  rw [validateRelative, seq_eq_ok, ensure_eq_ok, ensure_eq_ok] at h
  have hsafe := h.2 piece hp
  simp only [isUnsafeComponent, Bool.or_eq_false_iff, decide_eq_false_iff_not,
    List.any_eq_false] at hsafe
  obtain ⟨⟨⟨⟨⟨hne, hdot⟩, hdots⟩, -⟩, -⟩, hletters⟩ := hsafe
  refine ⟨hne, hdot, hdots, fun hmem => hletters '\\' hmem ?_⟩
  simp

theorem joinRelative_clean (h : validateRelative u text = .ok ()) {destination : Resolved}
    (hd : Clean destination) : Clean (joinRelative destination text) := by
  refine hd.append fun name hname => ?_
  obtain ⟨piece, hpiece, hfile⟩ := List.mem_filterMap.mp hname
  rw [fileName?_eq hfile]
  exact (safe_component h hpiece).2.2.2

theorem joinRelative_ne_nil (h : validateRelative u text = .ok ()) (destination : Resolved) :
    joinRelative destination text ≠ [] := by
  obtain ⟨piece, rest, hsplit⟩ := List.exists_cons_of_ne_nil (List.splitOn_ne_nil '/' text)
  have hmem : piece ∈ text.splitOn '/' := hsplit ▸ List.mem_cons_self
  obtain ⟨hne, hdot, hdots, -⟩ := safe_component h hmem
  have hname : fileName? piece = some ⟨piece, hne, not_mem_splitOn '/' text piece hmem, hdot, hdots⟩ :=
    dif_pos ⟨hne, not_mem_splitOn '/' text piece hmem, hdot, hdots⟩
  simp [joinRelative, hsplit, hname]

theorem checkTargets_ok {destination : Resolved} {names : List Text}
    (h : Paths.checkTargets u families destination names = .ok ()) :
    ∀ name ∈ names, validateRelative u name = .ok () ∧
      ∀ family ∈ families, family.overlaps u (joinRelative destination name) = false := by
  induction names with
  | nil => simp
  | cons name rest ih =>
    rw [Paths.checkTargets, seq_eq_ok, seq_eq_ok, ensure_eq_ok] at h
    exact List.forall_mem_cons.mpr ⟨⟨h.1, h.2.1⟩, ih h.2.2⟩

theorem checkProtected_ok {names : List Text}
    (h : Paths.checkProtected disk u families names = .ok ()) :
    ∀ name ∈ names, ∀ family ∈ families,
      family.overlaps u (disk.resolve (Path.ofText name)) = false := by
  induction names with
  | nil => simp
  | cons name rest ih =>
    rw [Paths.checkProtected, bind_eq_ok] at h
    obtain ⟨resolved, hresolved, h⟩ := h
    rw [seq_eq_ok, ensure_eq_ok] at h
    exact List.forall_mem_cons.mpr ⟨normalizePath_eq hresolved ▸ h.1, ih h.2⟩

theorem CleanText.appended (h : CleanText disk text) (hs : '\\' ∉ suffix) :
    CleanText disk (text ++ suffix) where
  names hmem := (List.mem_append.mp hmem).elim h.names hs
  currentDir hrelative := by
    refine h.currentDir fun hhead => hrelative ?_
    cases text with
    | nil => cases hhead
    | cons c rest => exact hhead

theorem protected_ok {checkpoint : Text} (h : CleanText disk checkpoint)
    (hroot : disk.resolve (Path.ofText checkpoint) ≠ []) :
    ∀ path ∈ protectedPaths checkpoint,
      CleanText disk path ∧ disk.resolve (Path.ofText path) ≠ [] := by
  simp only [protectedPaths, List.forall_mem_cons, List.not_mem_nil, false_imp_iff, implies_true,
    and_true]
  refine ⟨⟨h, hroot⟩, ⟨h.appended ?_, resolve_suffix_ne_nil ?_ ?_⟩,
    ⟨h.appended ?_, resolve_suffix_ne_nil ?_ ?_⟩, h.appended ?_, resolve_suffix_ne_nil ?_ ?_⟩ <;> simp

end Targets

section Accepted

namespace Paths

def artifacts (paths : Paths) : List Text := paths.reportPath :: paths.manifestPath.toList

-- No backslash in a name, and no artifact or checkpoint at the root directory.
structure Portable (paths : Paths) (disk : Disk) (destination : Text) (checkpoint : Option Text) :
    Prop where
  artifact : ∀ path ∈ paths.artifacts,
    CleanText disk path ∧ disk.resolve (Path.ofText path) ≠ []
  destination : CleanText disk destination
  checkpoint : ∀ path ∈ checkpoint, CleanText disk path ∧ disk.resolve (Path.ofText path) ≠ []

end Paths

variable {paths : Paths} {manifest : Manifest} {destination : Text} {checkpoint : Option Text}

abbrev textFamily (disk : Disk) (u : Unicode) (path : Text) : VolumeFamily :=
  familyOf disk u (Path.ofText path)

theorem validatedFamilies_ok (hu : AsciiStable u) (hp : paths.Portable disk destination checkpoint)
    (h : paths.validatedFamilies disk u = .ok families) :
    families = paths.artifacts.map (textFamily disk u) ∧
    ∀ path ∈ paths.manifestPath,
      ¬ ((textFamily disk u paths.reportPath).parent = (textFamily disk u path).parent ∧
        (textFamily disk u paths.reportPath).partPrefix = (textFamily disk u path).partPrefix) ∧
      (textFamily disk u paths.reportPath).overlaps u (disk.resolve (Path.ofText path)) = false ∧
      (textFamily disk u path).overlaps u (disk.resolve (Path.ofText paths.reportPath)) = false := by
  have hclean : ∀ path ∈ paths.artifacts, CleanPath disk (Path.ofText path) :=
    fun path hpath => (hp.artifact path hpath).1.path
  rw [Paths.validatedFamilies, bind_eq_ok] at h
  obtain ⟨report, hreport, h⟩ := h
  have hreport := new_eq hu (hclean _ List.mem_cons_self) hreport
  split at h
  next hnone =>
    refine ⟨?_, by simp [hnone]⟩
    rw [← pure_eq_ok.mp h, hreport, Paths.artifacts, hnone]
    rfl
  next path hsome =>
    rw [bind_eq_ok] at h
    obtain ⟨other, hother, h⟩ := h
    have hother := new_eq hu (hclean path (by simp [Paths.artifacts, hsome])) hother
    rw [seq_eq_ok, ensure_eq_ok, pure_eq_ok, hreport, hother, not_or, not_or] at h
    obtain ⟨⟨hshared, hover, hover'⟩, rfl⟩ := h
    refine ⟨by simp [Paths.artifacts, hsome], fun p hpath => ?_⟩
    obtain rfl : path = p := Option.some.inj (hsome ▸ hpath)
    exact ⟨hshared, Bool.not_eq_true _ ▸ hover, Bool.not_eq_true _ ▸ hover'⟩

-- The paths that no volume may be equal to, above or below.
def guarded (disk : Disk) (manifest : Manifest) (destination : Text) (checkpoint : Option Text) :
    List Resolved :=
  targets disk manifest destination ++ recoveryState disk checkpoint

theorem guarded_ok (hp : paths.Portable disk destination checkpoint)
    (h : paths.validateAgainstManifest disk u manifest destination checkpoint = .ok ())
    (hfamilies : paths.validatedFamilies disk u = .ok families) :
    ∀ target ∈ guarded disk manifest destination checkpoint,
      Clean target ∧ target ≠ [] ∧ ∀ family ∈ families, family.overlaps u target = false := by
  rw [Paths.validateAgainstManifest, bind_eq_ok] at h
  obtain ⟨found, hfound, h⟩ := h
  obtain rfl := Except.ok.inj (hfound.symm.trans hfamilies)
  rw [bind_eq_ok] at h
  obtain ⟨directory, hdirectory, h⟩ := h
  obtain rfl := normalizePath_eq hdirectory
  rw [seq_eq_ok] at h
  obtain ⟨htargets, h⟩ := h
  intro target hmem
  rcases List.mem_append.mp hmem with hmem | hmem
  · obtain ⟨name, hname, rfl⟩ := List.mem_map.mp hmem
    obtain ⟨hvalid, hover⟩ := checkTargets_ok htargets name hname
    exact ⟨joinRelative_clean hvalid hp.destination.path.resolve, joinRelative_ne_nil hvalid _, hover⟩
  · obtain ⟨path, hpath, rfl⟩ := List.mem_map.mp hmem
    obtain ⟨file, hfile, hpath⟩ := List.mem_flatMap.mp hpath
    obtain rfl := Option.mem_toList.mp hfile
    obtain ⟨hclean, hroot⟩ := hp.checkpoint file rfl
    obtain ⟨hclean, hroot⟩ := protected_ok hclean hroot path hpath
    exact ⟨hclean.path.resolve, hroot, checkProtected_ok h path hpath⟩

-- In folded form one path is the other, or lies below it; all lies below the root.
def Conflict (u : Unicode) (p q : Resolved) : Prop :=
  p = [] ∨ q = [] ∨ pathsOverlap (folded u (pathText p)) (folded u (pathText q)) = true

theorem artifacts_apart (hu : AsciiStable u)
    (h : paths.validateAgainstManifest disk u manifest destination checkpoint = .ok ())
    (hp : paths.Portable disk destination checkpoint) :
    (∀ path ∈ paths.manifestPath, ∀ i j, 1 ≤ i → i ≤ u64Max → 1 ≤ j → j ≤ u64Max →
      folded u (pathText (volume disk (Path.ofText paths.reportPath) i)) ≠
        folded u (pathText (volume disk (Path.ofText path) j))) ∧
    ∀ artifact ∈ paths.artifacts, ∀ part, 1 ≤ part → part ≤ u64Max →
      ∀ target ∈ guarded disk manifest destination checkpoint,
        ¬ Conflict u (volume disk (Path.ofText artifact) part) target := by
  obtain ⟨families, hfamilies⟩ : ∃ families, paths.validatedFamilies disk u = .ok families := by
    rw [Paths.validateAgainstManifest, bind_eq_ok] at h
    exact ⟨h.choose, h.choose_spec.1⟩
  obtain ⟨hall, hpair⟩ := validatedFamilies_ok hu hp hfamilies
  constructor
  · intro path hpath i j hi himax hj hjmax heq
    obtain ⟨hshared, hover, hover'⟩ := hpair path hpath
    obtain ⟨hclean, hroot⟩ := hp.artifact paths.reportPath List.mem_cons_self
    obtain ⟨hclean', hroot'⟩ := hp.artifact path (by simp_all [Paths.artifacts])
    refine volumes_apart hu hclean.path hclean'.path hroot hroot' hshared hover hover' hi hj himax
      hjmax ?_
    exact (folded_eq_iff (hclean.path.volume i) (hclean'.path.volume j) (volume_ne_nil hroot i)
      (volume_ne_nil hroot' j)).mp heq
  · intro artifact hartifact part hpart hmax target htarget hconflict
    obtain ⟨hclean, hroot⟩ := hp.artifact artifact hartifact
    obtain ⟨htargetClean, hne, hover⟩ := guarded_ok hp h hfamilies target htarget
    have hfree := hover (textFamily disk u artifact) (by
      rw [hall]
      exact List.mem_map_of_mem hartifact)
    rcases hconflict with hnil | hnil | hoverlap
    · exact volume_ne_nil hroot part hnil
    · exact hne hnil
    · have hcomparable := (pathsOverlap_iff (hclean.path.volume part) htargetClean
        (volume_ne_nil hroot part) hne).mp hoverlap
      rw [overlaps_of_comparable hu hclean.path htargetClean hroot hne hpart hmax hcomparable] at hfree
      cases hfree

end Accepted

section Sample

-- A file system without entries, seen from its root.
def emptyDisk : Disk where
  currentDir := []
  canonicalize _ := .ok ()
  symlinkMetadata _ := .ok none
  readDir _ := .ok []

def download (files : List String) : Manifest :=
  if h : (files.map sharedFile).length ≤ Share.maxEntries then
    { sharedFolder (files.map sharedFile) h with directories := [], remoteDirectories := [] }
  else sharedFolder [] (Nat.zero_le _)

def sampleArtifacts : Paths := ⟨"/r/report.csv".toList, some "/r/list.csv".toList⟩

theorem asciiUnicode_stable : AsciiStable asciiUnicode := ⟨fun _ _ _ => rfl, fun _ _ => rfl⟩

theorem cleanText_empty {text : Text} (h : '\\' ∉ text) : CleanText emptyDisk text :=
  ⟨h, fun _ _ hname => absurd hname List.not_mem_nil⟩

theorem sampleArtifacts_portable :
    sampleArtifacts.Portable emptyDisk "/data".toList (some "/s/journal".toList) where
  artifact := by
    have hreport : '\\' ∉ sampleArtifacts.reportPath := by decide
    have hlist : '\\' ∉ "/r/list.csv".toList := by decide
    refine List.forall_mem_cons.mpr ⟨⟨cleanText_empty hreport, by decide⟩, fun path hpath => ?_⟩
    rw [List.mem_singleton.mp hpath]
    exact ⟨cleanText_empty hlist, by decide⟩
  destination := cleanText_empty (by decide)
  checkpoint path hpath := by
    rw [← Option.mem_some_iff.mp hpath]
    exact ⟨cleanText_empty (by decide), by decide⟩

theorem artifacts_apart_sample :
    (∀ path ∈ sampleArtifacts.manifestPath, ∀ i j, 1 ≤ i → i ≤ u64Max → 1 ≤ j → j ≤ u64Max →
      folded asciiUnicode (pathText (volume emptyDisk (Path.ofText sampleArtifacts.reportPath) i)) ≠
        folded asciiUnicode (pathText (volume emptyDisk (Path.ofText path) j))) ∧
    ∀ artifact ∈ sampleArtifacts.artifacts, ∀ part, 1 ≤ part → part ≤ u64Max →
      ∀ target ∈ guarded emptyDisk (download ["a", "b/c"]) "/data".toList (some "/s/journal".toList),
        ¬ Conflict asciiUnicode (volume emptyDisk (Path.ofText artifact) part) target :=
  artifacts_apart asciiUnicode_stable (by decide) sampleArtifacts_portable

theorem artifacts_overlap :
    let slashed : Paths := ⟨"/d/a\\b.csv".toList, some "/d/a/b.txt".toList⟩
    let nameless : Paths := ⟨"/missing/..".toList, none⟩
    let plain : Paths := ⟨"/d/r.csv".toList, none⟩
    (slashed.validateAgainstManifest emptyDisk asciiUnicode (download []) "/out".toList none = .ok () ∧
      folded asciiUnicode (pathText (volume emptyDisk (Path.ofText "/d/a\\b.csv".toList) 2)) =
        folded asciiUnicode (pathText (volume emptyDisk (Path.ofText "/d/a/b.txt".toList) 2))) ∧
    (nameless.validateAgainstManifest emptyDisk asciiUnicode (download ["report.part-0002.csv"])
        "/".toList none = .ok () ∧
      ∃ target ∈ guarded emptyDisk (download ["report.part-0002.csv"]) "/".toList none,
        Conflict asciiUnicode (volume emptyDisk (Path.ofText "/missing/..".toList) 2) target) ∧
    (plain.validateAgainstManifest emptyDisk asciiUnicode (download []) "/out".toList
        (some "/".toList) = .ok () ∧
      ∃ target ∈ guarded emptyDisk (download []) "/out".toList (some "/".toList),
        Conflict asciiUnicode (volume emptyDisk (Path.ofText "/d/r.csv".toList) 1) target) := by
  intro slashed nameless plain
  refine ⟨⟨by decide, by decide⟩, ⟨by decide, ?_⟩, by decide, [], ?_, .inr (.inl rfl)⟩
  · refine ⟨_, List.mem_append_left _ List.mem_cons_self, .inr (.inr ?_)⟩
    decide
  · exact List.mem_append_right _ (List.mem_map.mpr ⟨"/".toList, by simp [protectedPaths], by decide⟩)

end Sample

end VeStorage.ADrive.ShareArtifacts
