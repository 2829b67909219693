import VeStorage.ADrive.Listing.Normalize
import VeStorage.ADrive.Share.Journal
import VeStorage.Lib.Folders

namespace VeStorage.ADrive.Listing
open Lib
open Lib.Walk (isDirect commonPrefix commonPrefix_childOf)
open Lib.Folders (Lists)
open ADrive.Share (CliError)

def ListFilesOutput.page (out : ListFilesOutput) : ListFilesPage := ⟨out.files, out.folders⟩

variable (listFiles : Text → Option Text → Except CliError ListFilesOutput)

-- The requests of one prefix; the marker of a page asks for the next one.
def readPages (dir : Text) : Nat → Option Text → Option (Except CliError (List ListFilesPage))
  | 0, _ => none
  | fuel + 1, marker =>
      match listFiles dir marker with
      | .error e => some (.error e)
      | .ok out =>
          if out.isTruncated = false ∨ out.nextMarker = [] then some (.ok [ListFilesOutput.page out])
          else (readPages dir fuel (some out.nextMarker)).map fun rest =>
            rest.map (ListFilesOutput.page out :: ·)

structure ADrivePrefixScan where
  files : List FileInfo
  folders : List FolderInfo
  childPrefixes : List Text

def prefixScan (pages : List ListFilesPage) : ADrivePrefixScan where
  files := scannedFiles pages
  folders := scannedFolders pages
  childPrefixes := (scannedFolders pages).map fun folder => trimFolderPrefix folder.folder

-- The pages of a listing that ends.
inductive Pages (dir : Text) : Option Text → List ListFilesPage → Prop
  | last {marker : Option Text} {out : ListFilesOutput} (h : listFiles dir marker = .ok out)
      (hend : out.isTruncated = false) : Pages dir marker [ListFilesOutput.page out]
  | more {marker : Option Text} {out : ListFilesOutput} {rest : List ListFilesPage}
      (h : listFiles dir marker = .ok out) (htruncated : out.isTruncated = true)
      (hmarker : out.nextMarker ≠ []) (hrest : Pages dir (some out.nextMarker) rest) :
      Pages dir marker (ListFilesOutput.page out :: rest)

-- Files and folders of a space, a folder with its last slash.
structure Tree where
  files : List FileInfo
  folders : List Text
  distinct : (files.map FileInfo.filePath).Nodup
  plain : ∀ file ∈ files, adriveFileInfoIsFolderMarker file = false
  relative : ∀ path ∈ files.map FileInfo.filePath ++ folders, ¬ ['/'] <+: path

def Tree.paths (tree : Tree) : List Text := tree.files.map FileInfo.filePath ++ tree.folders

def Tree.direct (tree : Tree) (dir : Text) : List FileInfo :=
  tree.files.filter fun file => dir <+: file.filePath ∧ isDirect (some '/') dir file.filePath

def Tree.below (tree : Tree) (root : Text) : List FileInfo :=
  tree.files.filter fun file => root <+: file.filePath

-- The folders of the pages, in either array.
def mentions (pages : List ListFilesPage) : List Text :=
  ((pages.flatMap ListFilesPage.files).filter adriveFileInfoIsFolderMarker).map
      (fun file => trimFolderPrefix file.filePath) ++
    (pages.flatMap ListFilesPage.folders).map fun folder => trimFolderPrefix folder.folder

structure Answers (tree : Tree) (dir : Text) (pages : List ListFilesPage) : Prop where
  files : (scannedFiles pages).Perm (tree.direct dir)
  mentioned : ∀ sub ∈ mentions pages, sub = dir ∨ ∃ path ∈ tree.paths, dir <+: path ∧
    isDirect (some '/') dir path = false ∧ commonPrefix (some '/') dir path = sub
  children : ∀ path ∈ tree.paths, dir <+: path → isDirect (some '/') dir path = false →
    commonPrefix (some '/') dir path ∈ mentions pages

def FolderPrefix (dir : Text) : Prop := dir = [] ∨ ['/'] <:+ dir

def Serves (tree : Tree) (fuel : Nat) : Prop :=
  ∀ dir, FolderPrefix dir → ∃ pages, Pages listFiles dir none pages ∧ pages.length ≤ fuel ∧ Answers tree dir pages

variable {listFiles} {tree : Tree} {fuel : Nat} {dir root : Text} {pages : List ListFilesPage}

theorem readPages_of_pages {marker : Option Text} (h : Pages listFiles dir marker pages)
    (hfuel : pages.length ≤ fuel) : readPages listFiles dir fuel marker = some (.ok pages) := by
  induction h generalizing fuel with
  | last h hend =>
    obtain ⟨fuel, rfl⟩ : ∃ n, fuel = n + 1 := ⟨fuel - 1, by simp only [List.length_singleton] at hfuel; omega⟩
    rw [readPages, h]
    exact if_pos (.inl hend)
  | @more marker out rest h htruncated hmarker hrest ih =>
    obtain ⟨fuel, rfl⟩ : ∃ n, fuel = n + 1 := ⟨fuel - 1, by simp only [List.length_cons] at hfuel; omega⟩
    have hnext := ih (by simpa using hfuel)
    have hgo : ¬ (out.isTruncated = false ∨ out.nextMarker = []) := by
      rw [htruncated]
      exact not_or.mpr ⟨Bool.noConfusion, hmarker⟩
    rw [readPages, h]
    dsimp only
    rw [if_neg hgo, hnext]
    rfl

theorem mem_scannedFolders {folder : FolderInfo} :
    folder ∈ scannedFolders pages ↔ ∃ page ∈ pages, folder ∈ page.folders ∨
      ∃ file ∈ page.files, adriveFileInfoIsFolderMarker file = true ∧
        normalizeAdriveFolderPath file.filePath ≠ [] ∧ file.filePath = folder.folder := by
  rw [scannedFolders, List.mem_flatMap]
  refine exists_congr fun page => and_congr_right fun _ => ?_
  rw [List.mem_append, or_comm]
  refine or_congr_right ?_
  simp only [List.mem_filterMap, List.mem_filter, adriveFolderInfoFromFileMarker]
  constructor
  · rintro ⟨file, ⟨hfile, hmarker⟩, hinfo⟩
    split at hinfo
    · cases hinfo
    · next hname =>
      cases hinfo
      exact ⟨file, hfile, hmarker, hname, rfl⟩
  · rintro ⟨file, hfile, hmarker, hname, hpath⟩
    exact ⟨file, ⟨hfile, hmarker⟩, by rw [if_neg hname, hpath]⟩

theorem mem_mentions {sub : Text} :
    sub ∈ mentions pages ↔ ∃ page ∈ pages, (∃ folder ∈ page.folders, trimFolderPrefix folder.folder = sub) ∨
      ∃ file ∈ page.files, adriveFileInfoIsFolderMarker file = true ∧ trimFolderPrefix file.filePath = sub := by
  simp only [mentions, List.mem_append, List.mem_map, List.mem_filter, List.mem_flatMap]
  constructor
  · rintro (⟨file, ⟨⟨page, hpage, hfile⟩, hmarker⟩, hsub⟩ | ⟨folder, ⟨page, hpage, hfolder⟩, hsub⟩)
    · exact ⟨page, hpage, .inr ⟨file, hfile, hmarker, hsub⟩⟩
    · exact ⟨page, hpage, .inl ⟨folder, hfolder, hsub⟩⟩
  · rintro ⟨page, hpage, ⟨folder, hfolder, hsub⟩ | ⟨file, hfile, hmarker, hsub⟩⟩
    · exact .inr ⟨folder, ⟨page, hpage, hfolder⟩, hsub⟩
    · exact .inl ⟨file, ⟨⟨page, hpage, hfile⟩, hmarker⟩, hsub⟩

-- A marker that stands for no folder is not walked into; no path of the tree needs it.
theorem mem_childPrefixes {sub : Text} (hname : normalizeAdriveFolderPath sub ≠ []) :
    sub ∈ (prefixScan pages).childPrefixes ↔ sub ∈ mentions pages := by
  rw [mem_mentions, prefixScan, List.mem_map]
  constructor
  · rintro ⟨folder, hfolder, rfl⟩
    obtain ⟨page, hpage, hfolder | ⟨file, hfile, hmarker, -, hpath⟩⟩ := mem_scannedFolders.mp hfolder
    · exact ⟨page, hpage, .inl ⟨folder, hfolder, rfl⟩⟩
    · exact ⟨page, hpage, .inr ⟨file, hfile, hmarker, by rw [hpath]⟩⟩
  · rintro ⟨page, hpage, ⟨folder, hfolder, hsub⟩ | ⟨file, hfile, hmarker, hsub⟩⟩
    · exact ⟨folder, mem_scannedFolders.mpr ⟨page, hpage, .inl hfolder⟩, hsub⟩
    · refine ⟨⟨file.filePath⟩, mem_scannedFolders.mpr ⟨page, hpage, .inr ⟨file, hfile, hmarker, ?_, rfl⟩⟩, hsub⟩
      rw [← normalize_trimFolderPrefix, hsub]
      exact hname

theorem childPrefixes_subset : (prefixScan pages).childPrefixes ⊆ mentions pages := by
  intro sub hsub
  obtain ⟨folder, hfolder, rfl⟩ := List.mem_map.mp hsub
  rw [mem_mentions]
  obtain ⟨page, hpage, hfolder | ⟨file, hfile, hmarker, -, hpath⟩⟩ := mem_scannedFolders.mp hfolder
  · exact ⟨page, hpage, .inl ⟨folder, hfolder, rfl⟩⟩
  · exact ⟨page, hpage, .inr ⟨file, hfile, hmarker, by rw [hpath]⟩⟩

theorem Tree.child_named {path : Text} (hp : path ∈ tree.paths) (hd : dir <+: path)
    (h : isDirect (some '/') dir path = false) :
    normalizeAdriveFolderPath (commonPrefix (some '/') dir path) ≠ [] := by
  obtain ⟨⟨c, seg, hc, -, hq⟩, hpre⟩ := commonPrefix_childOf hd h
  intro hempty
  obtain ⟨n, hn⟩ := exists_trimEnd '/' (commonPrefix (some '/') dir path)
  rw [show trimEnd '/' _ = [] from hempty, List.nil_append] at hn
  have hslash : ['/'] <+: commonPrefix (some '/') dir path := by
    cases n with
    | zero =>
      rw [hq] at hn
      simp at hn
    | succ n =>
      rw [hn, List.replicate_succ]
      exact ⟨_, rfl⟩
  exact tree.relative path hp (hslash.trans hpre)

theorem Answers.lists_child (h : Answers tree dir pages) :
    (∀ sub ∈ (prefixScan pages).childPrefixes, sub = dir ∨ ∃ path ∈ tree.paths, dir <+: path ∧
      isDirect (some '/') dir path = false ∧ commonPrefix (some '/') dir path = sub) ∧
    ∀ path ∈ tree.paths, dir <+: path → isDirect (some '/') dir path = false →
      commonPrefix (some '/') dir path ∈ (prefixScan pages).childPrefixes :=
  ⟨fun sub hsub => h.mentioned sub (childPrefixes_subset hsub), fun path hp hd hdirect =>
    (mem_childPrefixes (Tree.child_named hp hd hdirect)).mpr (h.children path hp hd hdirect)⟩

theorem folderPrefix_trim (path : Text) : FolderPrefix (trimFolderPrefix path) := by
  unfold trimFolderPrefix
  split
  · next h => exact h
  · exact .inr (List.suffix_append path ['/'])

theorem trim_folderPrefix (h : FolderPrefix dir) : trimFolderPrefix dir = dir := if_pos h

section Paged

-- A service in two pages: the folders and the listed one itself, then the files.
def Tree.children (tree : Tree) (dir : Text) : List Text :=
  (tree.paths.filter fun path => dir <+: path ∧ isDirect (some '/') dir path = false).map
    (commonPrefix (some '/') dir)

def selfMarker (dir : Text) : FileInfo := ⟨dir, "folder".toList⟩

theorem selfMarker_isFolder (dir : Text) : adriveFileInfoIsFolderMarker (selfMarker dir) = true := by
  have htype : (selfMarker dir).fileType.map Char.toLower = "folder".toList :=
    show "folder".toList.map Char.toLower = "folder".toList by decide
  rw [adriveFileInfoIsFolderMarker, decide_eq_true htype, Bool.or_true]

def Tree.served (tree : Tree) (dir : Text) (marker : Option Text) : Except CliError ListFilesOutput :=
  if marker = none then
    .ok ⟨[selfMarker dir], (tree.children dir).map FolderInfo.mk, "files".toList, true⟩
  else .ok ⟨tree.direct dir, [], [], false⟩

theorem Tree.mem_children {sub : Text} : sub ∈ tree.children dir ↔ ∃ path ∈ tree.paths, dir <+: path ∧
    isDirect (some '/') dir path = false ∧ commonPrefix (some '/') dir path = sub := by
  simp only [Tree.children, List.mem_map, List.mem_filter, decide_eq_true_eq, and_assoc]

theorem Tree.serves (tree : Tree) : Serves tree.served tree 2 := by
  intro dir hdir
  have hfirst : tree.served dir none =
      .ok ⟨[selfMarker dir], (tree.children dir).map FolderInfo.mk, "files".toList, true⟩ := rfl
  have hlast : tree.served dir (some "files".toList) = .ok ⟨tree.direct dir, [], [], false⟩ := rfl
  refine ⟨[⟨[selfMarker dir], (tree.children dir).map FolderInfo.mk⟩, ⟨tree.direct dir, []⟩], ?_, ?_, ?_⟩
  · exact .more hfirst rfl (List.cons_ne_nil _ _) (.last hlast rfl)
  · exact Nat.le_refl 2
  have hmarker := selfMarker_isFolder dir
  have hself : (selfMarker dir).filePath = dir := rfl
  have hplain : (tree.direct dir).filter (fun file => !adriveFileInfoIsFolderMarker file) = tree.direct dir := by
    refine List.filter_eq_self.mpr fun file hfile => ?_
    rw [tree.plain file (List.mem_filter.mp hfile).1]
    rfl
  have hnone : (tree.direct dir).filter adriveFileInfoIsFolderMarker = [] := by
    refine List.filter_eq_nil_iff.mpr fun file hfile => ?_
    rw [tree.plain file (List.mem_filter.mp hfile).1]
    exact Bool.false_ne_true
  have hslash : ∀ path, dir <+: path → isDirect (some '/') dir path = false →
      trimFolderPrefix (commonPrefix (some '/') dir path) = commonPrefix (some '/') dir path := by
    intro path hpre hdirect
    obtain ⟨⟨c, seg, hc, -, hq⟩, -⟩ := commonPrefix_childOf hpre hdirect
    refine trim_folderPrefix (.inr ?_)
    rw [hq, ← List.append_assoc, ← Option.some.inj hc]
    exact List.suffix_append _ _
  have hmentions : mentions [⟨[selfMarker dir], (tree.children dir).map FolderInfo.mk⟩,
      ⟨tree.direct dir, []⟩] = dir :: (tree.children dir).map trimFolderPrefix := by
    simp [mentions, hmarker, hself, hnone, trim_folderPrefix hdir, Function.comp_def]
  refine ⟨?_, fun sub hsub => ?_, fun path hp hpre hdirect => ?_⟩
  · rw [scannedFiles]
    simp [hmarker, hplain]
  · rw [hmentions] at hsub
    rcases List.mem_cons.mp hsub with rfl | hsub
    · exact .inl rfl
    · obtain ⟨child, hchild, rfl⟩ := List.mem_map.mp hsub
      obtain ⟨path, hp, hpre, hdirect, rfl⟩ := Tree.mem_children.mp hchild
      exact .inr ⟨path, hp, hpre, hdirect, (hslash path hpre hdirect).symm⟩
  · rw [hmentions]
    refine List.mem_cons_of_mem _ (List.mem_map.mpr ⟨_, Tree.mem_children.mpr ⟨path, hp, hpre, hdirect, rfl⟩, ?_⟩)
    exact hslash path hpre hdirect

-- The files a/b and c, the folders a/ and d/.
def Tree.sample : Tree where
  files := [⟨"a/b".toList, []⟩, ⟨"c".toList, []⟩]
  folders := ["a/".toList, "d/".toList]
  distinct := by decide
  plain := by decide
  relative := by decide

end Paged

end VeStorage.ADrive.Listing

namespace VeStorage.ADrive.Listing
open Lib
open Lib.Walk (Place isDirect commonPrefix)
open Lib.Folders (Lists Folder)
open Lib.Worklist (Reach Run Step State visit visit_complete visit_of_fuel)
open ADrive.Share (CliError)

variable (listFiles : Text → Option Text → Except CliError ListFilesOutput) (fuel : Nat)

def pagesOf (dir : Text) : List ListFilesPage := ((readPages listFiles dir fuel none).bind Except.toOption).getD []

def childPrefixes (dir : Text) : List Text := (prefixScan (pagesOf listFiles fuel dir)).childPrefixes

-- The places of the streaming loops: scans one after the other, the files handed on page by page.
def streamPrefixes (steps : Nat) (path : Text) : Option (Except CliError (List Text)) :=
  visit (fun dir => (readPages listFiles dir fuel none).map fun pages =>
    pages.map fun pages => (prefixScan pages).childPrefixes) steps [trimFolderPrefix path] []

def streamAdriveDownloadNoManifest (steps : Nat) (path : Text) : Option (Except CliError (List FileInfo)) :=
  (streamPrefixes listFiles fuel steps path).map fun dirs => dirs.map fun dirs =>
    dirs.flatMap fun dir => scannedFiles (pagesOf listFiles fuel dir)

variable {listFiles fuel} {tree : Tree} {path dir root : Text} {pages : List ListFilesPage}

theorem folderPrefix_of_place (hroot : FolderPrefix root) (h : Place (some '/') root dir) : FolderPrefix dir := by
  rcases h with rfl | ⟨-, c, hc, hd⟩
  · exact hroot
  · exact .inr (Option.some.inj hc ▸ hd)

theorem pagesOf_eq (h : Pages listFiles dir none pages) (hfuel : pages.length ≤ fuel) :
    pagesOf listFiles fuel dir = pages := by
  rw [pagesOf, readPages_of_pages h hfuel]
  rfl

theorem Serves.answers (hs : Serves listFiles tree fuel) (hd : FolderPrefix dir) :
    Answers tree dir (pagesOf listFiles fuel dir) := by
  obtain ⟨pages, hpages, hfuel, hanswers⟩ := hs dir hd
  rw [pagesOf_eq hpages hfuel]
  exact hanswers

theorem Serves.lists (hs : Serves listFiles tree fuel) (hroot : FolderPrefix root) :
    Lists '/' tree.paths root (childPrefixes listFiles fuel) where
  sound _ hd := (hs.answers (folderPrefix_of_place hroot hd)).lists_child.1
  complete _ hd := (hs.answers (folderPrefix_of_place hroot hd)).lists_child.2

-- What the scans of every folder at or below `root` bring.
structure Visited (children : Text → List Text) (root : Text) (dirs : List Text) : Prop where
  nodup : dirs.Nodup
  all : ∀ dir, dir ∈ dirs ↔ Reach children root dir

variable {dirs : List Text} {w w' : State Text} {n limit : Nat}

theorem Visited.iff (hs : Serves listFiles tree fuel) (hroot : FolderPrefix root)
    (hv : Visited (childPrefixes listFiles fuel) root dirs) :
    dir ∈ dirs ↔ dir = root ∨ Folder '/' tree.paths root dir :=
  (hv.all dir).trans (hs.lists hroot).reach_iff

theorem Visited.files (hs : Serves listFiles tree fuel) (hroot : FolderPrefix root)
    (hv : Visited (childPrefixes listFiles fuel) root dirs) :
    (dirs.flatMap fun dir => scannedFiles (pagesOf listFiles fuel dir)).Perm (tree.below root) := by
  have hlists := hs.lists hroot
  have hplain : tree.files.Nodup := List.Nodup.of_map _ tree.distinct
  have hpaths : ∀ file ∈ tree.files, file.filePath ∈ tree.paths := fun file hfile =>
    List.mem_append_left _ (List.mem_map_of_mem hfile)
  refine List.Perm.trans ?_ (hlists.partition FileInfo.filePath hplain hpaths hv.nodup hv.all)
  refine List.Perm.flatMap_left dirs fun dir hdir => ?_
  exact (hs.answers (folderPrefix_of_place hroot (hlists.place ((hv.all dir).mp hdir)))).files

theorem scannedFiles_flatMap (pages : Text → List ListFilesPage) :
    scannedFiles (dirs.flatMap pages) = dirs.flatMap fun dir => scannedFiles (pages dir) := by
  simp only [scannedFiles, List.flatMap_assoc, List.filter_flatMap]

theorem scannedFolders_flatMap (pages : Text → List ListFilesPage) :
    scannedFolders (dirs.flatMap pages) = dirs.flatMap fun dir => scannedFolders (pages dir) := by
  simp only [scannedFolders, List.flatMap_assoc]

theorem Visited.listed_files (hs : Serves listFiles tree fuel) (hroot : FolderPrefix root)
    (hv : Visited (childPrefixes listFiles fuel) root dirs) :
    (listAllFilesAndFoldersHierarchical (dirs.flatMap (pagesOf listFiles fuel))).files.Perm (tree.below root) := by
  have hfiles := hv.files hs hroot
  rw [← scannedFiles_flatMap] at hfiles
  have hsorted := (sortOn_perm FileInfo.filePath _).trans hfiles
  have hnodup : ((sortOn FileInfo.filePath (scannedFiles (dirs.flatMap (pagesOf listFiles fuel)))).map
      FileInfo.filePath).Nodup := by
    refine (hsorted.map FileInfo.filePath).nodup_iff.mpr ?_
    exact tree.distinct.sublist (List.Sublist.map _ List.filter_sublist)
  rw [listAllFilesAndFoldersHierarchical, dedupBy_of_nodup _ _ hnodup]
  exact hsorted

theorem mem_listed_folders {scanned : List ListFilesPage} :
    (∃ folder ∈ (listAllFilesAndFoldersHierarchical scanned).folders, trimFolderPrefix folder.folder = dir) ↔
      ∃ folder ∈ scannedFolders scanned, trimFolderPrefix folder.folder = dir := by
  constructor
  · rintro ⟨folder, hfolder, hdir⟩
    exact ⟨folder, mem_sortOn.mp ((dedupBy_sublist _ _).subset hfolder), hdir⟩
  · rintro ⟨folder, hfolder, hdir⟩
    have hsorted : folder ∈ sortOn FolderInfo.folder (scannedFolders scanned) := mem_sortOn.mpr hfolder
    obtain ⟨kept, hkept, hsame⟩ := dedupBy_covers FolderInfo.folder _ hsorted
    exact ⟨kept, hkept, by rw [hsame, hdir]⟩

theorem Visited.listed_folders (hs : Serves listFiles tree fuel) (hroot : FolderPrefix root)
    (hv : Visited (childPrefixes listFiles fuel) root dirs) (hne : dir ≠ root) :
    (∃ folder ∈ (listAllFilesAndFoldersHierarchical (dirs.flatMap (pagesOf listFiles fuel))).folders,
      trimFolderPrefix folder.folder = dir) ↔ Folder '/' tree.paths root dir := by
  have hchild : (∃ folder ∈ scannedFolders (dirs.flatMap (pagesOf listFiles fuel)),
      trimFolderPrefix folder.folder = dir) ↔ ∃ place ∈ dirs, dir ∈ childPrefixes listFiles fuel place := by
    rw [scannedFolders_flatMap]
    simp only [List.mem_flatMap, childPrefixes, prefixScan, List.mem_map]
    constructor
    · rintro ⟨folder, ⟨place, hplace, hfolder⟩, hdir⟩
      exact ⟨place, hplace, folder, hfolder, hdir⟩
    · rintro ⟨place, hplace, folder, hfolder, hdir⟩
      exact ⟨folder, ⟨place, hplace, hfolder⟩, hdir⟩
  have hreach := (hs.lists hroot).reach_iff (d := dir)
  rw [mem_listed_folders, hchild]
  constructor
  · rintro ⟨place, hplace, hdir⟩
    exact (hreach.mp (((hv.all place).mp hplace).tail hdir)).resolve_left hne
  · intro hfolder
    rcases Relation.ReflTransGen.cases_tail (hreach.mpr (.inr hfolder)) with rfl | ⟨place, hplace, hdir⟩
    · exact absurd rfl hne
    · exact ⟨place, (hv.all place).mpr hplace, hdir⟩

structure ListedExactly (tree : Tree) (root : Text) (dirs : List Text) (listed : ADriveListedEntries) : Prop where
  once : dirs.Nodup
  scanned : ∀ dir, dir ∈ dirs ↔ dir = root ∨ Folder '/' tree.paths root dir
  files : listed.files.Perm (tree.below root)
  folders : ∀ dir, dir ≠ root → ((∃ folder ∈ listed.folders, trimFolderPrefix folder.folder = dir) ↔
    Folder '/' tree.paths root dir)

theorem Visited.exact (hs : Serves listFiles tree fuel) (hroot : FolderPrefix root)
    (hv : Visited (childPrefixes listFiles fuel) root dirs) :
    ListedExactly tree root dirs
      (listAllFilesAndFoldersHierarchical (dirs.flatMap (pagesOf listFiles fuel))) where
  once := hv.nodup
  scanned _ := hv.iff hs hroot
  files := hv.listed_files hs hroot
  folders _ hne := hv.listed_folders hs hroot hne

theorem hierarchical_listing_exact (hs : Serves listFiles tree fuel) (path : Text) (listConcurrency : Nat) :
    ∃ bound, ∀ n w dirs,
      Run (childPrefixes listFiles fuel) (max listConcurrency 1) (trimFolderPrefix path) n w dirs →
      n ≤ bound ∧
        (¬ w.Done → ∃ out w', Step (childPrefixes listFiles fuel) (max listConcurrency 1) w out w') ∧
        (w.Done → ListedExactly tree (trimFolderPrefix path) dirs
          (listAllFilesAndFoldersHierarchical (dirs.flatMap (pagesOf listFiles fuel)))) := by
  have hroot := folderPrefix_trim path
  obtain ⟨places, width, hin⟩ := (hs.lists hroot).exists_within
  refine ⟨places.length * (width + 2) + 1, fun n w dirs hrun => ⟨?_, fun hopen => ?_, fun hdone => ?_⟩⟩
  · exact (Nat.le_add_right n _).trans (hrun.length_le hin)
  · exact Worklist.progress (Nat.lt_of_lt_of_le Nat.one_pos (Nat.le_max_right listConcurrency 1)) hopen
  · obtain ⟨hnodup, hall⟩ := hrun.inv.done hdone
    exact Visited.exact hs hroot ⟨hnodup, hall⟩

theorem hierarchical_listing_exact_sample : ∃ bound, ∀ n w dirs,
    Run (childPrefixes Tree.sample.served 2) (max 4 1) (trimFolderPrefix []) n w dirs →
    n ≤ bound ∧ (¬ w.Done → ∃ out w', Step (childPrefixes Tree.sample.served 2) (max 4 1) w out w') ∧
      (w.Done → ∃ listed, listed =
          listAllFilesAndFoldersHierarchical (dirs.flatMap (pagesOf Tree.sample.served 2)) ∧
        ListedExactly Tree.sample (trimFolderPrefix []) dirs listed ∧ listed.files.Perm Tree.sample.files ∧
        ∀ dir ∈ ["a/".toList, "d/".toList], ∃ folder ∈ listed.folders, trimFolderPrefix folder.folder = dir) := by
  obtain ⟨bound, hbound⟩ := hierarchical_listing_exact Tree.sample.serves [] 4
  refine ⟨bound, fun n w dirs hrun => ?_⟩
  obtain ⟨hlength, hprogress, hexact⟩ := hbound n w dirs hrun
  refine ⟨hlength, hprogress, fun hdone => ⟨_, rfl, hexact hdone, (hexact hdone).files, fun dir hdir => ?_⟩⟩
  have hfolders : ∀ dir ∈ ["a/".toList, "d/".toList], dir ≠ trimFolderPrefix [] ∧
      Folder '/' Tree.sample.paths (trimFolderPrefix []) dir := by
    unfold Folder
    decide
  obtain ⟨hne, hfolder⟩ := hfolders dir hdir
  exact ((hexact hdone).folders dir hne).mpr hfolder

theorem found_eq : Worklist.found (fun dir => (readPages listFiles dir fuel none).map fun pages =>
    pages.map fun pages => (prefixScan pages).childPrefixes) = childPrefixes listFiles fuel := by
  funext dir
  rw [Worklist.found, childPrefixes, pagesOf]
  cases readPages listFiles dir fuel none with
  | none => rfl
  | some result =>
    cases result with
    | error e => rfl
    | ok pages => rfl

theorem Serves.scan (hs : Serves listFiles tree fuel) (hd : FolderPrefix dir) :
    ((readPages listFiles dir fuel none).map fun pages => pages.map fun pages =>
      (prefixScan pages).childPrefixes) = some (.ok (childPrefixes listFiles fuel dir)) := by
  obtain ⟨pages, hpages, hfuel, -⟩ := hs dir hd
  rw [childPrefixes, pagesOf_eq hpages hfuel, readPages_of_pages hpages hfuel]
  rfl

theorem streamed_files_exact (hs : Serves listFiles tree fuel) (path : Text) :
    ∃ bound, ∀ steps, bound < steps → ∃ dirs files, streamPrefixes listFiles fuel steps path = some (.ok dirs) ∧
      streamAdriveDownloadNoManifest listFiles fuel steps path = some (.ok files) ∧
      dirs.Nodup ∧ (∀ dir, dir ∈ dirs ↔ dir = trimFolderPrefix path ∨
        Folder '/' tree.paths (trimFolderPrefix path) dir) ∧
      files.Perm (tree.below (trimFolderPrefix path)) := by
  have hroot := folderPrefix_trim path
  have hlists := hs.lists hroot
  obtain ⟨places, width, hin⟩ := hlists.exists_within
  refine ⟨Worklist.cost places.length width (.init (trimFolderPrefix path)) [], fun steps hsteps => ?_⟩
  obtain ⟨dirs, hdirs⟩ : ∃ dirs, streamPrefixes listFiles fuel steps path = some (.ok dirs) := by
    rw [← found_eq] at hin
    refine visit_of_fuel hin .init (fun dir hdir => ?_) hsteps
    rw [found_eq] at hdir ⊢
    exact hs.scan (folderPrefix_of_place hroot (hlists.place hdir))
  obtain ⟨hnodup, hall, -⟩ := visit_complete hdirs
  rw [found_eq] at hall
  have hv : Visited (childPrefixes listFiles fuel) (trimFolderPrefix path) dirs := ⟨hnodup, hall⟩
  refine ⟨dirs, _, hdirs, ?_, hnodup, fun _ => hv.iff hs hroot, hv.files hs hroot⟩
  rw [streamAdriveDownloadNoManifest, hdirs]
  rfl

theorem streamed_files_exact_sample : ∃ bound, ∀ steps, bound < steps → ∃ dirs files,
    streamPrefixes Tree.sample.served 2 steps [] = some (.ok dirs) ∧
      streamAdriveDownloadNoManifest Tree.sample.served 2 steps [] = some (.ok files) ∧
      dirs.Nodup ∧ (∀ dir, dir ∈ dirs ↔ dir = trimFolderPrefix [] ∨
        Folder '/' Tree.sample.paths (trimFolderPrefix []) dir) ∧
      files.Perm (Tree.sample.below (trimFolderPrefix [])) :=
  streamed_files_exact Tree.sample.serves []

end VeStorage.ADrive.Listing
