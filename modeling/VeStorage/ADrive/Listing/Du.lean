import VeStorage.ADrive.Listing.Enumerate

namespace VeStorage.ADrive.Listing
open Lib
open Lib.Walk (Place isDirect commonPrefix commonPrefix_childOf)
open Lib.Folders (Lists Folder)
open Lib.Worklist (Reach Run Step)
open ADrive.Share (CliError)

structure DuFolders where
  folderKeys : List Text
  folderPrefixes : List Text

def pushAdriveDuFolderPrefix (currentFolder : Option Text) (held : DuFolders) (path : Text) : DuFolders :=
  let folderKey := normalizeAdriveFolderPath path
  if folderKey = [] ∨ currentFolder = some folderKey then held
  else if folderKey ∈ held.folderKeys then held
  else ⟨folderKey :: held.folderKeys, held.folderPrefixes ++ [trimFolderPrefix folderKey]⟩

def duCurrentFolder (currentPrefix : Text) : Option Text :=
  let currentFolder := normalizeAdriveFolderPath currentPrefix
  if currentFolder = [] then none else some currentFolder

def dedupeAdriveDuPageEntries (page : ListFilesPage) (currentPrefix : Text) : List FileInfo × List Text :=
  let currentFolder := duCurrentFolder currentPrefix
  let held := (page.folders.map FolderInfo.folder).foldl (pushAdriveDuFolderPrefix currentFolder) ⟨[], []⟩
  let held := ((page.files.filter adriveFileInfoIsFolderMarker).map FileInfo.filePath).foldl
    (pushAdriveDuFolderPrefix currentFolder) held
  (page.files.filter fun file => !adriveFileInfoIsFolderMarker file, held.folderPrefixes)

structure DuAccumulator where
  fileCount : UInt64
  folderCount : UInt64
  folderPrefixes : List Text
  totalBytes : UInt64
  manifestItems : List FileInfo

namespace DuAccumulator

def new : DuAccumulator := ⟨0, 0, [], 0, []⟩

variable (size : FileInfo → Int64)

def fileBytes (file : FileInfo) : UInt64 := (max (size file) 0).toUInt64

def recordAdriveFile (acc : DuAccumulator) (file : FileInfo) : DuAccumulator :=
  { acc with
    fileCount := acc.fileCount + 1
    totalBytes := acc.totalBytes + fileBytes size file
    manifestItems := acc.manifestItems ++ [file] }

def recordFolderPrefix (acc : DuAccumulator) (dir : Text) : DuAccumulator :=
  let folderPrefix := normalizeAdriveFolderPath dir
  if folderPrefix = [] then acc
  else if folderPrefix ∈ acc.folderPrefixes then acc
  else { acc with folderPrefixes := folderPrefix :: acc.folderPrefixes, folderCount := acc.folderCount + 1 }

def merge (acc other : DuAccumulator) : DuAccumulator :=
  let merged := other.folderPrefixes.foldl recordFolderPrefix
    { acc with fileCount := acc.fileCount + other.fileCount }
  { merged with
    totalBytes := merged.totalBytes + other.totalBytes
    manifestItems := merged.manifestItems ++ other.manifestItems }

end DuAccumulator

open DuAccumulator

variable (listFiles : Text → Option Text → Except CliError ListFilesOutput) (fuel : Nat)
  (size : FileInfo → Int64)

def duChildPrefixes (dir : Text) : List Text :=
  (pagesOf listFiles fuel dir).flatMap fun page => (dedupeAdriveDuPageEntries page dir).2

def scanAdriveDuPrefix (dir : Text) : DuAccumulator :=
  (pagesOf listFiles fuel dir).foldl (fun acc page =>
    let entries := dedupeAdriveDuPageEntries page dir
    entries.2.foldl recordFolderPrefix (entries.1.foldl (recordAdriveFile size) acc)) new

-- The prefixes in the order in which their scans ended.
def collectAdriveDuProfile (dirs : List Text) : DuAccumulator :=
  dirs.foldl (fun acc dir => acc.merge (scanAdriveDuPrefix listFiles fuel size dir)) new

structure FileCounts (size : FileInfo → Int64) (files : List FileInfo) (acc : DuAccumulator) : Prop where
  items : acc.manifestItems = files
  fileCount : acc.fileCount = UInt64.ofNat files.length
  totalBytes : acc.totalBytes = UInt64.ofNat (files.map fun file => (fileBytes size file).toNat).sum

structure FolderCounts (dirs : List Text) (acc : DuAccumulator) : Prop where
  nodup : acc.folderPrefixes.Nodup
  folderCount : acc.folderCount = UInt64.ofNat acc.folderPrefixes.length
  keys : ∀ key, key ∈ acc.folderPrefixes ↔ key ≠ [] ∧ ∃ dir ∈ dirs, normalizeAdriveFolderPath dir = key

variable {listFiles fuel size} {files more : List FileInfo} {dirs others : List Text} {acc acc' other : DuAccumulator}
  {dir root : Text} {page : ListFilesPage} {tree : Tree}

theorem FileCounts.record (h : FileCounts size files acc) (file : FileInfo) :
    FileCounts size (files ++ [file]) (acc.recordAdriveFile size file) where
  items := by rw [recordAdriveFile, h.items]
  fileCount := by
    rw [recordAdriveFile, h.fileCount, List.length_append, UInt64.ofNat_add]
    rfl
  totalBytes := by
    rw [recordAdriveFile, h.totalBytes, List.map_append, List.sum_append, List.map_singleton, List.sum_singleton,
      UInt64.ofNat_add, UInt64.ofNat_toNat]

theorem FileCounts.of_eq (h : FileCounts size files acc) (hitems : acc'.manifestItems = acc.manifestItems)
    (hcount : acc'.fileCount = acc.fileCount) (hbytes : acc'.totalBytes = acc.totalBytes) :
    FileCounts size files acc' :=
  ⟨hitems.trans h.items, hcount.trans h.fileCount, hbytes.trans h.totalBytes⟩

theorem FolderCounts.of_eq (h : FolderCounts dirs acc) (hprefixes : acc'.folderPrefixes = acc.folderPrefixes)
    (hcount : acc'.folderCount = acc.folderCount) : FolderCounts dirs acc' where
  nodup := hprefixes ▸ h.nodup
  folderCount := by rw [hcount, hprefixes, h.folderCount]
  keys key := by rw [hprefixes, h.keys]

theorem FolderCounts.congr (h : FolderCounts dirs acc)
    (hkeys : ∀ key, key ≠ [] → ((∃ dir ∈ others, normalizeAdriveFolderPath dir = key) ↔
      ∃ dir ∈ dirs, normalizeAdriveFolderPath dir = key)) : FolderCounts others acc :=
  ⟨h.nodup, h.folderCount, fun key => (h.keys key).trans (and_congr_right fun hkey => (hkeys key hkey).symm)⟩

theorem recordFolderPrefix_files (acc : DuAccumulator) (dir : Text) :
    (acc.recordFolderPrefix dir).manifestItems = acc.manifestItems ∧
      (acc.recordFolderPrefix dir).fileCount = acc.fileCount ∧
      (acc.recordFolderPrefix dir).totalBytes = acc.totalBytes := by
  unfold recordFolderPrefix
  dsimp only
  split
  · exact ⟨rfl, rfl, rfl⟩
  · split
    · exact ⟨rfl, rfl, rfl⟩
    · exact ⟨rfl, rfl, rfl⟩

theorem foldFolders_files (acc : DuAccumulator) (dirs : List Text) :
    (dirs.foldl recordFolderPrefix acc).manifestItems = acc.manifestItems ∧
      (dirs.foldl recordFolderPrefix acc).fileCount = acc.fileCount ∧
      (dirs.foldl recordFolderPrefix acc).totalBytes = acc.totalBytes := by
  induction dirs generalizing acc with
  | nil => exact ⟨rfl, rfl, rfl⟩
  | cons dir dirs ih =>
    obtain ⟨hitems, hcount, hbytes⟩ := recordFolderPrefix_files acc dir
    obtain ⟨hitems', hcount', hbytes'⟩ := ih (acc.recordFolderPrefix dir)
    exact ⟨hitems'.trans hitems, hcount'.trans hcount, hbytes'.trans hbytes⟩

theorem foldFiles_folders (size : FileInfo → Int64) (acc : DuAccumulator) (files : List FileInfo) :
    (files.foldl (recordAdriveFile size) acc).folderPrefixes = acc.folderPrefixes ∧
      (files.foldl (recordAdriveFile size) acc).folderCount = acc.folderCount := by
  induction files generalizing acc with
  | nil => exact ⟨rfl, rfl⟩
  | cons file files ih => exact ih (acc.recordAdriveFile size file)

theorem FolderCounts.record (h : FolderCounts dirs acc) (dir : Text) :
    FolderCounts (dirs ++ [dir]) (acc.recordFolderPrefix dir) := by
  have hmem : ∀ key, (∃ d ∈ dirs ++ [dir], normalizeAdriveFolderPath d = key) ↔
      (∃ d ∈ dirs, normalizeAdriveFolderPath d = key) ∨ normalizeAdriveFolderPath dir = key := by
    intro key
    simp only [List.mem_append, List.mem_singleton, or_and_right, exists_or, exists_eq_left]
  unfold recordFolderPrefix
  dsimp only
  split
  · next hempty =>
    refine h.congr fun key hkey => ?_
    rw [hmem]
    refine ⟨fun hor => hor.resolve_right fun he => hkey ?_, .inl⟩
    rw [← he, hempty]
  · next hname =>
    split
    · next hheld =>
      refine h.congr fun key hkey => ?_
      rw [hmem]
      refine ⟨fun hor => hor.elim id fun he => ?_, .inl⟩
      exact he ▸ ((h.keys _).mp hheld).2
    · next hnew =>
      refine ⟨List.nodup_cons.mpr ⟨hnew, h.nodup⟩, ?_, fun key => ?_⟩
      · rw [List.length_cons, h.folderCount, UInt64.ofNat_add]
        rfl
      · rw [List.mem_cons, h.keys, hmem]
        constructor
        · rintro (rfl | ⟨hkey, hdir⟩)
          · exact ⟨hname, .inr rfl⟩
          · exact ⟨hkey, .inl hdir⟩
        · rintro ⟨hkey, hdir | rfl⟩
          · exact .inr ⟨hkey, hdir⟩
          · exact .inl rfl

theorem FileCounts.fold (h : FileCounts size files acc) (more : List FileInfo) :
    FileCounts size (files ++ more) (more.foldl (recordAdriveFile size) acc) := by
  induction more generalizing files acc with
  | nil => rwa [List.append_nil]
  | cons file more ih =>
    have hnext := ih (h.record file)
    rwa [List.append_assoc] at hnext

theorem FolderCounts.fold (h : FolderCounts dirs acc) (others : List Text) :
    FolderCounts (dirs ++ others) (others.foldl recordFolderPrefix acc) := by
  induction others generalizing dirs acc with
  | nil => rwa [List.append_nil]
  | cons dir others ih =>
    have hnext := ih (h.record dir)
    rwa [List.append_assoc] at hnext

theorem FileCounts.merge (h : FileCounts size files acc) (h' : FileCounts size more other) :
    FileCounts size (files ++ more) (acc.merge other) := by
  obtain ⟨hitems, hcount, hbytes⟩ :=
    foldFolders_files { acc with fileCount := acc.fileCount + other.fileCount } other.folderPrefixes
  refine ⟨?_, ?_, ?_⟩
  · rw [DuAccumulator.merge, hitems, h.items, h'.items]
  · rw [DuAccumulator.merge, hcount, h.fileCount, h'.fileCount, List.length_append, UInt64.ofNat_add]
  · rw [DuAccumulator.merge, hbytes, h.totalBytes, h'.totalBytes, List.map_append, List.sum_append,
      UInt64.ofNat_add]

theorem FolderCounts.merge (h : FolderCounts dirs acc) (h' : FolderCounts others other) :
    FolderCounts (dirs ++ others) (acc.merge other) := by
  have hbase : FolderCounts dirs { acc with fileCount := acc.fileCount + other.fileCount } := h.of_eq rfl rfl
  have hmerged : FolderCounts (dirs ++ other.folderPrefixes) (acc.merge other) :=
    (hbase.fold other.folderPrefixes).of_eq rfl rfl
  refine hmerged.congr fun key hkey => ?_
  have hother : (∃ dir ∈ other.folderPrefixes, normalizeAdriveFolderPath dir = key) ↔
      ∃ dir ∈ others, normalizeAdriveFolderPath dir = key := by
    constructor
    · rintro ⟨held, hheld, rfl⟩
      obtain ⟨-, dir, hdir, rfl⟩ := (h'.keys held).mp hheld
      exact ⟨dir, hdir, (trimEnd_idem '/' dir).symm⟩
    · rintro ⟨dir, hdir, rfl⟩
      exact ⟨_, (h'.keys _).mpr ⟨hkey, dir, hdir, rfl⟩, trimEnd_idem '/' dir⟩
  simp only [List.mem_append, or_and_right, exists_or]
  rw [hother]

-- The keys kept so far, and the prefix of each.
structure DuFolders.Inv (currentFolder : Option Text) (paths : List Text) (held : DuFolders) : Prop where
  keys : ∀ key, key ∈ held.folderKeys ↔
    key ≠ [] ∧ currentFolder ≠ some key ∧ ∃ path ∈ paths, normalizeAdriveFolderPath path = key
  prefixes : ∀ sub, sub ∈ held.folderPrefixes ↔ ∃ key ∈ held.folderKeys, trimFolderPrefix key = sub

variable {currentFolder : Option Text} {held : DuFolders} {paths : List Text} {sub : Text}

theorem DuFolders.Inv.push (h : held.Inv currentFolder paths) (path : Text) :
    (pushAdriveDuFolderPrefix currentFolder held path).Inv currentFolder (paths ++ [path]) := by
  have hmem : ∀ key, (∃ q ∈ paths ++ [path], normalizeAdriveFolderPath q = key) ↔
      (∃ q ∈ paths, normalizeAdriveFolderPath q = key) ∨ normalizeAdriveFolderPath path = key := by
    intro key
    simp only [List.mem_append, List.mem_singleton, or_and_right, exists_or, exists_eq_left]
  unfold pushAdriveDuFolderPrefix
  dsimp only
  split
  · next hskip =>
    refine ⟨fun key => ?_, h.prefixes⟩
    rw [h.keys, hmem]
    refine and_congr_right fun hkey => and_congr_right fun hother => ⟨.inl, fun hor => hor.elim id fun he => ?_⟩
    rcases hskip with hempty | hcurrent
    · exact absurd (he.symm.trans hempty) hkey
    · exact absurd (he ▸ hcurrent) hother
  · next hkeep =>
    obtain ⟨hname, hother⟩ := not_or.mp hkeep
    split
    · next hheld =>
      refine ⟨fun key => ?_, h.prefixes⟩
      rw [h.keys, hmem]
      refine and_congr_right fun _ => and_congr_right fun _ => ⟨.inl, fun hor => hor.elim id fun he => ?_⟩
      exact he ▸ ((h.keys _).mp hheld).2.2
    · next hnew =>
      refine ⟨fun key => ?_, fun sub => ?_⟩
      · rw [List.mem_cons, h.keys, hmem]
        constructor
        · rintro (rfl | ⟨hkey, hcurrent, hpath⟩)
          · exact ⟨hname, hother, .inr rfl⟩
          · exact ⟨hkey, hcurrent, .inl hpath⟩
        · rintro ⟨hkey, hcurrent, hpath | rfl⟩
          · exact .inr ⟨hkey, hcurrent, hpath⟩
          · exact .inl rfl
      · rw [List.mem_append, List.mem_singleton, h.prefixes, or_comm]
        simp only [List.mem_cons, exists_eq_or_imp]
        exact or_congr_left eq_comm

theorem DuFolders.Inv.fold (h : held.Inv currentFolder paths) (more : List Text) :
    (more.foldl (pushAdriveDuFolderPrefix currentFolder) held).Inv currentFolder (paths ++ more) := by
  induction more generalizing paths held with
  | nil => rwa [List.append_nil]
  | cons path more ih =>
    have hnext := ih (h.push path)
    rwa [List.append_assoc] at hnext

def folderPaths (page : ListFilesPage) : List Text :=
  page.folders.map FolderInfo.folder ++ (page.files.filter adriveFileInfoIsFolderMarker).map FileInfo.filePath

theorem mem_dedupe : sub ∈ (dedupeAdriveDuPageEntries page dir).2 ↔ ∃ path ∈ folderPaths page,
    normalizeAdriveFolderPath path ≠ [] ∧ duCurrentFolder dir ≠ some (normalizeAdriveFolderPath path) ∧
      trimFolderPrefix (normalizeAdriveFolderPath path) = sub := by
  have hinit : DuFolders.Inv (duCurrentFolder dir) [] ⟨[], []⟩ := ⟨by simp, by simp⟩
  have hall := (hinit.fold (page.folders.map FolderInfo.folder)).fold
    ((page.files.filter adriveFileInfoIsFolderMarker).map FileInfo.filePath)
  rw [List.nil_append] at hall
  refine (hall.prefixes sub).trans ⟨?_, ?_⟩
  · rintro ⟨key, hkey, hsub⟩
    obtain ⟨hname, hother, path, hpath, rfl⟩ := (hall.keys key).mp hkey
    exact ⟨path, hpath, hname, hother, hsub⟩
  · rintro ⟨path, hpath, hname, hother, hsub⟩
    exact ⟨_, (hall.keys _).mpr ⟨hname, hother, path, hpath, rfl⟩, hsub⟩

theorem mem_folderPaths {pages : List ListFilesPage} :
    (∃ page ∈ pages, ∃ path ∈ folderPaths page, trimFolderPrefix path = sub) ↔ sub ∈ mentions pages := by
  rw [mem_mentions]
  refine exists_congr fun page => and_congr_right fun _ => ?_
  simp only [folderPaths, List.mem_append, List.mem_map, List.mem_filter]
  constructor
  · rintro ⟨path, ⟨folder, hfolder, rfl⟩ | ⟨file, ⟨hfile, hmarker⟩, rfl⟩, hsub⟩
    · exact .inl ⟨folder, hfolder, hsub⟩
    · exact .inr ⟨file, hfile, hmarker, hsub⟩
  · rintro (⟨folder, hfolder, hsub⟩ | ⟨file, hfile, hmarker, hsub⟩)
    · exact ⟨folder.folder, .inl ⟨folder, hfolder, rfl⟩, hsub⟩
    · exact ⟨file.filePath, .inr ⟨file, ⟨hfile, hmarker⟩, rfl⟩, hsub⟩

-- No folder below has an empty name: `du` reads a path without its last slashes.
def Tree.Named (tree : Tree) : Prop := ∀ path ∈ tree.paths, ¬ ['/', '/'] <:+: path

theorem named_folder {q path : Text} (hnamed : ¬ ['/', '/'] <:+: path) (hrelative : ¬ ['/'] <+: path)
    (hpre : q <+: path) (hslash : ['/'] <:+ q) :
    ∃ name, name ≠ [] ∧ q = name ++ ['/'] ∧ normalizeAdriveFolderPath q = name ∧ trimFolderPrefix name = q := by
  obtain ⟨name, rfl⟩ := hslash
  have hname : name ≠ [] := fun he => hrelative (by rwa [he] at hpre)
  have hclean : ∀ rest, name ≠ rest ++ ['/'] := by
    rintro rest rfl
    refine hnamed (List.IsInfix.trans ⟨rest, [], ?_⟩ hpre.isInfix)
    simp
  have hnormal : normalizeAdriveFolderPath (name ++ ['/']) = name :=
    (trimEnd_append_self '/' name).trans (trimEnd_of_getLast_ne hclean)
  refine ⟨name, hname, rfl, hnormal, ?_⟩
  rw [trimFolderPrefix, if_neg]
  rintro (he | ⟨rest, he⟩)
  · exact hname he
  · exact hclean rest he.symm

theorem current_ne {seg : Text} (hd : FolderPrefix dir) (hname : dir ++ seg ≠ []) :
    duCurrentFolder dir ≠ some (dir ++ seg) := by
  unfold duCurrentFolder
  dsimp only
  split
  · exact fun he => by cases he
  · next hne =>
    intro he
    have hsame : normalizeAdriveFolderPath dir = dir ++ seg := Option.some.inj he
    obtain ⟨n, hn⟩ := exists_trimEnd '/' dir
    have hlength := congrArg List.length hn
    have htrim : (trimEnd '/' dir).length = dir.length + seg.length := by
      rw [← List.length_append, ← hsame]
      rfl
    rw [List.length_append, htrim] at hlength
    obtain rfl : seg = [] := List.length_eq_zero_iff.mp (by omega)
    rw [List.append_nil] at hsame hname
    obtain ⟨rest, hrest⟩ := hd.resolve_left hname
    exact trimEnd_ne_append '/' dir rest (hsame.trans hrest.symm)

variable (hs : Serves listFiles tree fuel) (hnamed : tree.Named) (hroot : FolderPrefix root)

section
include hs hnamed

theorem mem_duChildPrefixes (hd : FolderPrefix dir) : sub ∈ duChildPrefixes listFiles fuel dir ↔
    ∃ path ∈ tree.paths, dir <+: path ∧ isDirect (some '/') dir path = false ∧
      commonPrefix (some '/') dir path = sub := by
  have hanswers := hs.answers hd
  have hfolder : ∀ path ∈ tree.paths, dir <+: path → isDirect (some '/') dir path = false →
      ∃ seg, dir ++ seg ≠ [] ∧ commonPrefix (some '/') dir path = dir ++ seg ++ ['/'] ∧
        normalizeAdriveFolderPath (commonPrefix (some '/') dir path) = dir ++ seg ∧
        trimFolderPrefix (dir ++ seg) = commonPrefix (some '/') dir path := by
    intro path hp hdp hdirect
    obtain ⟨⟨c, seg, hc, -, hq⟩, hpre⟩ := commonPrefix_childOf hdp hdirect
    obtain rfl : '/' = c := Option.some.inj hc
    rw [← List.append_assoc] at hq
    obtain ⟨name, hname, hsplit, hnormal, htrim⟩ := named_folder (hnamed path hp) (tree.relative path hp) hpre
      ⟨dir ++ seg, hq.symm⟩
    obtain rfl : name = dir ++ seg := List.append_cancel_right (hsplit.symm.trans hq)
    exact ⟨seg, hname, hq, hnormal, htrim⟩
  rw [duChildPrefixes, List.mem_flatMap]
  constructor
  · rintro ⟨page, hpage, hsub⟩
    obtain ⟨raw, hraw, hname, hother, rfl⟩ := mem_dedupe.mp hsub
    have hmention := mem_folderPaths.mp ⟨page, hpage, raw, hraw, rfl⟩
    rcases hanswers.mentioned _ hmention with hself | ⟨path, hp, hdp, hdirect, hq⟩
    · refine absurd ?_ hother
      have hkey : normalizeAdriveFolderPath raw = normalizeAdriveFolderPath dir := by
        rw [← hself, normalize_trimFolderPrefix]
      rw [duCurrentFolder, hkey, if_neg (hkey ▸ hname)]
    · obtain ⟨seg, -, -, hnormal, htrim⟩ := hfolder path hp hdp hdirect
      refine ⟨path, hp, hdp, hdirect, ?_⟩
      rw [hq, normalize_trimFolderPrefix] at hnormal
      rw [hnormal, htrim]
  · rintro ⟨path, hp, hdp, hdirect, rfl⟩
    obtain ⟨seg, hname, -, hnormal, htrim⟩ := hfolder path hp hdp hdirect
    obtain ⟨page, hpage, raw, hraw, hsub⟩ := mem_folderPaths.mpr (hanswers.children path hp hdp hdirect)
    have hkey : normalizeAdriveFolderPath raw = dir ++ seg := by
      rw [← normalize_trimFolderPrefix, hsub, hnormal]
    exact ⟨page, hpage, mem_dedupe.mpr ⟨raw, hraw, hkey ▸ hname, hkey ▸ current_ne hd hname, by rw [hkey, htrim]⟩⟩

include hroot

theorem du_lists : Lists '/' tree.paths root (duChildPrefixes listFiles fuel) where
  sound _ hd _ hsub := .inr ((mem_duChildPrefixes hs hnamed (folderPrefix_of_place hroot hd)).mp hsub)
  complete _ hd path hp hdp hdirect :=
    (mem_duChildPrefixes hs hnamed (folderPrefix_of_place hroot hd)).mpr ⟨path, hp, hdp, hdirect, rfl⟩

end

theorem scan_counts (dir : Text) :
    FileCounts size (scannedFiles (pagesOf listFiles fuel dir)) (scanAdriveDuPrefix listFiles fuel size dir) ∧
      FolderCounts (duChildPrefixes listFiles fuel dir) (scanAdriveDuPrefix listFiles fuel size dir) := by
  have hpages : ∀ (pages : List ListFilesPage) {files : List FileInfo} {dirs : List Text} {acc : DuAccumulator},
      FileCounts size files acc → FolderCounts dirs acc →
      FileCounts size (files ++ scannedFiles pages) (pages.foldl (fun acc page =>
        let entries := dedupeAdriveDuPageEntries page dir
        entries.2.foldl recordFolderPrefix (entries.1.foldl (recordAdriveFile size) acc)) acc) ∧
      FolderCounts (dirs ++ pages.flatMap fun page => (dedupeAdriveDuPageEntries page dir).2)
        (pages.foldl (fun acc page =>
          let entries := dedupeAdriveDuPageEntries page dir
          entries.2.foldl recordFolderPrefix (entries.1.foldl (recordAdriveFile size) acc)) acc) := by
    intro pages
    induction pages with
    | nil =>
      intro files dirs acc hfiles hfolders
      exact ⟨by rwa [scannedFiles, List.flatMap_nil, List.filter_nil, List.append_nil],
        by rwa [List.flatMap_nil, List.append_nil]⟩
    | cons page pages ih =>
      intro files dirs acc hfiles hfolders
      obtain ⟨hitems, hcount, hbytes⟩ := foldFolders_files
        ((dedupeAdriveDuPageEntries page dir).1.foldl (recordAdriveFile size) acc)
        (dedupeAdriveDuPageEntries page dir).2
      obtain ⟨hprefixes, hnumber⟩ := foldFiles_folders size acc (dedupeAdriveDuPageEntries page dir).1
      obtain ⟨hnext, hnext'⟩ := ih ((hfiles.fold (dedupeAdriveDuPageEntries page dir).1).of_eq hitems hcount hbytes)
        ((hfolders.of_eq hprefixes hnumber).fold (dedupeAdriveDuPageEntries page dir).2)
      rw [List.append_assoc] at hnext hnext'
      refine ⟨?_, hnext'⟩
      rw [scannedFiles, List.flatMap_cons, List.filter_append]
      exact hnext
  have hempty : FileCounts size [] new := ⟨rfl, rfl, rfl⟩
  have hempty' : FolderCounts [] new := ⟨List.nodup_nil, rfl, by simp [new]⟩
  have hall := hpages (pagesOf listFiles fuel dir) hempty hempty'
  rw [List.nil_append, List.nil_append] at hall
  exact hall

theorem collect_counts (dirs : List Text) :
    FileCounts size (dirs.flatMap fun dir => scannedFiles (pagesOf listFiles fuel dir))
        (collectAdriveDuProfile listFiles fuel size dirs) ∧
      FolderCounts (dirs.flatMap (duChildPrefixes listFiles fuel))
        (collectAdriveDuProfile listFiles fuel size dirs) := by
  induction dirs using List.reverseRecOn with
  | nil => exact ⟨⟨rfl, rfl, rfl⟩, ⟨List.nodup_nil, rfl, by simp [collectAdriveDuProfile, new]⟩⟩
  | append_singleton dirs dir ih =>
    obtain ⟨hfiles, hfolders⟩ := @scan_counts listFiles fuel size dir
    rw [List.flatMap_append, List.flatMap_append, List.flatMap_singleton, List.flatMap_singleton,
      collectAdriveDuProfile, List.foldl_append]
    exact ⟨ih.1.merge hfiles, ih.2.merge hfolders⟩

-- The counters of a u64 wrap around.
structure ProfiledExactly (tree : Tree) (root : Text) (size : FileInfo → Int64) (acc : DuAccumulator) : Prop where
  items : acc.manifestItems.Perm (tree.below root)
  fileCount : acc.fileCount.toNat = (tree.below root).length % 2 ^ 64
  totalBytes : acc.totalBytes.toNat =
    ((tree.below root).map fun file => (fileBytes size file).toNat).sum % 2 ^ 64
  folderCount : acc.folderCount.toNat = acc.folderPrefixes.length % 2 ^ 64
  nodup : acc.folderPrefixes.Nodup
  folders : ∀ key, key ∈ acc.folderPrefixes ↔
    key ++ ['/'] ≠ root ∧ Folder '/' tree.paths root (key ++ ['/'])

include hs hnamed hroot

theorem mem_profiled_folders (hall : ∀ dir, dir ∈ dirs ↔ Reach (duChildPrefixes listFiles fuel) root dir)
    (key : Text) :
    (key ≠ [] ∧ ∃ sub ∈ dirs.flatMap (duChildPrefixes listFiles fuel), normalizeAdriveFolderPath sub = key) ↔
      key ++ ['/'] ≠ root ∧ Folder '/' tree.paths root (key ++ ['/']) := by
  have hlists := du_lists hs hnamed hroot
  have hname : ∀ sub, Folder '/' tree.paths root sub → normalizeAdriveFolderPath sub ≠ [] ∧
      sub = normalizeAdriveFolderPath sub ++ ['/'] := by
    rintro sub ⟨hslash, -, path, hp, hpre⟩
    obtain ⟨name, hne, hq, hnormal, -⟩ := named_folder (hnamed path hp) (tree.relative path hp) hpre hslash
    rw [hnormal]
    exact ⟨hne, hq⟩
  constructor
  · rintro ⟨-, sub, hsub, rfl⟩
    obtain ⟨place, hplace, hsub⟩ := List.mem_flatMap.mp hsub
    have hreach := (hall place).mp hplace
    have hat := hlists.place hreach
    obtain ⟨path, hp, hdp, hdirect, rfl⟩ :=
      (mem_duChildPrefixes hs hnamed (folderPrefix_of_place hroot hat)).mp hsub
    have hlonger := (commonPrefix_childOf hdp hdirect).1.length_lt
    have hwithin := hat.under_root.length_le
    have hne : commonPrefix (some '/') place path ≠ root := fun he => by
      rw [he] at hlonger
      omega
    have hfolder := (hlists.reach_iff.mp (hreach.tail hsub)).resolve_left hne
    rw [← (hname _ hfolder).2]
    exact ⟨hne, hfolder⟩
  · rintro ⟨hne, hfolder⟩
    obtain ⟨hkey, hsplit⟩ := hname _ hfolder
    have hsame : normalizeAdriveFolderPath (key ++ ['/']) = key := (List.append_cancel_right hsplit).symm
    rcases Relation.ReflTransGen.cases_tail (hlists.reach_iff.mpr (.inr hfolder)) with he | ⟨place, hplace, hsub⟩
    · exact absurd he hne
    · exact ⟨hsame ▸ hkey, _, List.mem_flatMap.mpr ⟨place, (hall place).mpr hplace, hsub⟩, hsame⟩

omit hs hnamed hroot in
theorem Tree.sample_named : Tree.sample.Named :=
  show ∀ path ∈ Tree.sample.paths, ¬ ['/', '/'] <:+: path by decide

end VeStorage.ADrive.Listing
