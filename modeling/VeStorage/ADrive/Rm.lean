import VeStorage.ADrive.Path
import VeStorage.ADrive.Pattern
import VeStorage.Lib.Grouped
import VeStorage.Lib.Sorted
import Mathlib.Data.List.Lex
import Mathlib.Data.Prod.Lex
import Mathlib.Data.Char

namespace VeStorage.ADrive
open Lib Grouped

structure FileInfo where
  filePath : Text
  fileType : Text
deriving DecidableEq, Repr

structure FolderInfo where
  folder : Text
deriving DecidableEq, Repr

structure ListFilesPage where
  files : List FileInfo
  folders : List FolderInfo

structure ADriveListedEntries where
  files : List FileInfo
  folders : List FolderInfo

inductive ADriveDeleteEntry where
  | file (path : Text)
  | folder (path : Text)
deriving DecidableEq, Repr

namespace ADriveDeleteEntry

def path : ADriveDeleteEntry → Text
  | file p => p
  | folder p => p

def isFile : ADriveDeleteEntry → Bool
  | file _ => true
  | folder _ => false

end ADriveDeleteEntry

open ADriveDeleteEntry

def adriveFileInfoIsFolderMarker (f : FileInfo) : Bool :=
  decide (['/'] <:+ f.filePath) || decide (f.fileType.map Char.toLower = "folder".toList)

def adriveFolderInfoFromFileMarker (f : FileInfo) : Option FolderInfo :=
  if normalizeAdriveFolderPath f.filePath = [] then none else some ⟨f.filePath⟩

def scannedFiles (pages : List ListFilesPage) : List FileInfo :=
  (pages.flatMap ListFilesPage.files).filter fun f => !adriveFileInfoIsFolderMarker f

def scannedFolders (pages : List ListFilesPage) : List FolderInfo :=
  pages.flatMap fun page =>
    (page.files.filter adriveFileInfoIsFolderMarker).filterMap adriveFolderInfoFromFileMarker ++
      page.folders

-- The pages of every scanned prefix, in the order in which the scans completed.
def listAllFilesAndFoldersHierarchical (pages : List ListFilesPage) : ADriveListedEntries where
  files := dedupBy FileInfo.filePath (sortOn FileInfo.filePath (scannedFiles pages))
  folders := dedupBy FolderInfo.folder (sortOn FolderInfo.folder (scannedFolders pages))

def adriveDeleteEntryForFile (f : FileInfo) : ADriveDeleteEntry :=
  if adriveFileInfoIsFolderMarker f then folder (normalizeAdriveFolderPath f.filePath)
  else file f.filePath

def listAdriveDeleteEntries (pages : List ListFilesPage) : List ADriveDeleteEntry :=
  let listed := listAllFilesAndFoldersHierarchical pages
  listed.files.map adriveDeleteEntryForFile ++
    listed.folders.map fun f => folder (normalizeAdriveFolderPath f.folder)

def pushUniqueDeleteEntry (entries : List ADriveDeleteEntry) (entry : ADriveDeleteEntry) :
    List ADriveDeleteEntry :=
  if entry ∈ entries then entries else entries ++ [entry]

def pushRecursiveTargetFolderEntry (entries : List ADriveDeleteEntry) (target : Text) :
    List ADriveDeleteEntry :=
  let folderPath := normalizeAdriveFolderPath target
  if folderPath = [] then entries else pushUniqueDeleteEntry entries (folder folderPath)

def bottomUpRank (e : ADriveDeleteEntry) : ℕᵒᵈ ×ₗ ℕᵒᵈ ×ₗ Bool ×ₗ Text :=
  toLex (OrderDual.toDual (adrivePathDepth e.path),
    toLex (OrderDual.toDual (byteCount e.path), toLex (!e.isFile, e.path)))

def sortDeleteEntriesBottomUp (entries : List ADriveDeleteEntry) : List ADriveDeleteEntry :=
  dedupBy id (sortOn bottomUpRank entries)

def adriveDeleteEntryPatternMatches (path : Text) (folderPath : Option Text) (pattern : Text) :
    Bool :=
  simplePatternMatch pattern path || folderPath.any (simplePatternMatch pattern)

def adriveDeleteEntryMatchesFilters (includePattern excludePattern : Option Text)
    (e : ADriveDeleteEntry) : Bool :=
  let folderPath := if e.isFile then none else some (e.path ++ ['/'])
  if excludePattern.any (adriveDeleteEntryPatternMatches e.path folderPath) then false
  else includePattern.all (adriveDeleteEntryPatternMatches e.path folderPath)

def plannedDeleteEntries (target : Text) (pages : List ListFilesPage) : List ADriveDeleteEntry :=
  sortDeleteEntriesBottomUp
    (pushRecursiveTargetFolderEntry (listAdriveDeleteEntries pages) target)

def deleteAdriveEntriesByDepth (entries : List ADriveDeleteEntry)
    (includePattern excludePattern : Option Text) : List (List ADriveDeleteEntry) :=
  let deleteEntries := entries.filter (adriveDeleteEntryMatchesFilters includePattern excludePattern)
  deleteEntries.filter isFile ::
    levels (fun e => adrivePathDepth e.path)
      (sortDeleteEntriesBottomUp (deleteEntries.filter fun e => !e.isFile))

structure RmArgs where
  target : Text
  includePattern : Option Text
  excludePattern : Option Text
  noManifest : Bool

def executeRmBottomUpManifest (args : RmArgs) (pages : List ListFilesPage) :
    List (List ADriveDeleteEntry) :=
  deleteAdriveEntriesByDepth (plannedDeleteEntries args.target pages) args.includePattern
    args.excludePattern

def streamDeleteAdriveBottomUp (args : RmArgs) (pages : List ListFilesPage) :
    List (List ADriveDeleteEntry) :=
  deleteAdriveEntriesByDepth (plannedDeleteEntries args.target pages) args.includePattern
    args.excludePattern

def executeRmBottomUp (args : RmArgs) (pages : List ListFilesPage) :
    List (List ADriveDeleteEntry) :=
  if args.noManifest then streamDeleteAdriveBottomUp args pages
  else executeRmBottomUpManifest args pages

structure Space where
  files : List Text
  folders : List Text

def Space.delete (entry : ADriveDeleteEntry) (space : Space) : Space :=
  match entry with
  | file path => { space with files := space.files.filter (· ≠ path) }
  | folder path =>
      { files := space.files.filter fun p => ¬ Below path p
        folders := space.folders.filter fun p => p ≠ path ∧ ¬ Below path p }

inductive DeleteRequest (entry : ADriveDeleteEntry) : Space → Space → Bool → Prop
  | failed (space) : DeleteRequest entry space space false
  | done (space) : DeleteRequest entry space (space.delete entry) true

def treeFiles (pages : List ListFilesPage) : List Text := (scannedFiles pages).map FileInfo.filePath

def treeFolders (pages : List ListFilesPage) : List Text :=
  (scannedFolders pages).map fun f => normalizeAdriveFolderPath f.folder

def listedSpace (pages : List ListFilesPage) : Space := ⟨treeFiles pages, treeFolders pages⟩

def InTree (target : Text) (pages : List ListFilesPage) : ADriveDeleteEntry → Prop
  | file path => path ∈ treeFiles pages
  | folder path => path ∈ treeFolders pages ∨ (path = normalizeAdriveFolderPath target ∧ path ≠ [])

def Wanted (args : RmArgs) (pages : List ListFilesPage) (e : ADriveDeleteEntry) : Prop :=
  InTree args.target pages e ∧
    adriveDeleteEntryMatchesFilters args.includePattern args.excludePattern e = true

structure RmCorrect (args : RmArgs) (pages : List ListFilesPage)
    (x : Exec Space ADriveDeleteEntry) : Prop where
  excluded_kept : ∀ path ∈ treeFiles pages,
    pathMatchesFilters path args.includePattern args.excludePattern = false → path ∈ x.world.files
  requested_wanted : ∀ e ∈ starts x.log, Wanted args pages e
  requested_once : (starts x.log).Nodup
  requested_all : x.Done → ∀ e, Wanted args pages e → e ∈ starts x.log
  files_first : ∀ before path after, x.log = before ++ .start (folder path) :: after →
    ∀ p, Wanted args pages (file p) → Finished before (file p)
  bottom_up : ∀ before path after, x.log = before ++ .start (folder path) :: after →
    ∀ p, Wanted args pages (folder p) → p ≠ path → Below path p → Finished before (folder p)

def Guarded (args : RmArgs) (pages : List ListFilesPage) : Prop :=
  ∀ path, Wanted args pages (folder path) → ∀ p ∈ treeFiles pages, Below path p →
    pathMatchesFilters p args.includePattern args.excludePattern = true

theorem bottomUpRank_injective : Function.Injective bottomUpRank := by
  intro e e' h
  have h' := toLex_inj.mp h
  simp only [Prod.mk.injEq, toLex_inj, OrderDual.toDual_inj] at h'
  obtain ⟨-, -, hfile, hpath⟩ := h'
  cases e <;> cases e' <;> simp_all [isFile, path]

theorem mem_sortDeleteEntriesBottomUp {entries : List ADriveDeleteEntry} {e : ADriveDeleteEntry} :
    e ∈ sortDeleteEntriesBottomUp entries ↔ e ∈ entries := mem_dedupBy_sortOn

theorem sortDeleteEntriesBottomUp_nodup (entries : List ADriveDeleteEntry) :
    (sortDeleteEntriesBottomUp entries).Nodup := dedupBy_sortOn_nodup bottomUpRank_injective entries

theorem sortDeleteEntriesBottomUp_depth (entries : List ADriveDeleteEntry) :
    (sortDeleteEntriesBottomUp entries).Pairwise fun e e' =>
      adrivePathDepth e'.path ≤ adrivePathDepth e.path := by
  have h := (sortOn_pairwise bottomUpRank entries).sublist (dedupBy_sublist id _)
  refine h.imp fun {e e'} hle => ?_
  have := (Prod.Lex.toLex_le_toLex'.mp hle).1
  exact OrderDual.toDual_le_toDual.mp this

theorem mem_treeFiles {pages : List ListFilesPage} {p : Text} :
    file p ∈ listAdriveDeleteEntries pages ↔ p ∈ treeFiles pages := by
  have hmarker : ∀ f ∈ scannedFiles pages, adriveDeleteEntryForFile f = file f.filePath := by
    intro f hf
    have := (List.mem_filter.mp hf).2
    simp only [Bool.not_eq_true'] at this
    simp [adriveDeleteEntryForFile, this]
  simp only [listAdriveDeleteEntries, listAllFilesAndFoldersHierarchical, List.mem_append,
    List.mem_map, treeFiles, reduceCtorEq, and_false, exists_false, or_false]
  constructor
  · rintro ⟨f, hf, he⟩
    have hm := mem_sortOn.mp ((dedupBy_sublist _ _).subset hf)
    rw [hmarker f hm] at he
    cases he
    exact ⟨f, hm, rfl⟩
  · rintro ⟨f, hf, rfl⟩
    have hs : f ∈ sortOn FileInfo.filePath (scannedFiles pages) := mem_sortOn.mpr hf
    obtain ⟨g, hg, hk⟩ := dedupBy_covers FileInfo.filePath _ hs
    have hm := mem_sortOn.mp ((dedupBy_sublist _ _).subset hg)
    exact ⟨g, hg, by rw [hmarker g hm, hk]⟩

theorem mem_treeFolders {pages : List ListFilesPage} {p : Text} :
    folder p ∈ listAdriveDeleteEntries pages ↔ p ∈ treeFolders pages := by
  have hmarker : ∀ f ∈ scannedFiles pages, adriveDeleteEntryForFile f ≠ folder p := by
    intro f hf
    have := (List.mem_filter.mp hf).2
    simp only [Bool.not_eq_true'] at this
    simp [adriveDeleteEntryForFile, this]
  simp only [listAdriveDeleteEntries, listAllFilesAndFoldersHierarchical, List.mem_append,
    List.mem_map, treeFolders, folder.injEq]
  constructor
  · rintro (⟨f, hf, he⟩ | ⟨f, hf, he⟩)
    · exact absurd he (hmarker f (mem_sortOn.mp ((dedupBy_sublist _ _).subset hf)))
    · exact ⟨f, mem_sortOn.mp ((dedupBy_sublist _ _).subset hf), he⟩
  · rintro ⟨f, hf, rfl⟩
    have hs : f ∈ sortOn FolderInfo.folder (scannedFolders pages) := mem_sortOn.mpr hf
    obtain ⟨g, hg, hk⟩ := dedupBy_covers FolderInfo.folder _ hs
    exact .inr ⟨g, hg, by rw [hk]⟩

theorem mem_plannedDeleteEntries {target : Text} {pages : List ListFilesPage}
    {e : ADriveDeleteEntry} : e ∈ plannedDeleteEntries target pages ↔ InTree target pages e := by
  have hpush : e ∈ pushRecursiveTargetFolderEntry (listAdriveDeleteEntries pages) target ↔
      e ∈ listAdriveDeleteEntries pages ∨
        (e = folder (normalizeAdriveFolderPath target) ∧ normalizeAdriveFolderPath target ≠ []) := by
    unfold pushRecursiveTargetFolderEntry pushUniqueDeleteEntry
    simp only
    split
    · simp [*]
    · split
      · constructor
        · exact .inl
        · rintro (h | ⟨rfl, -⟩)
          · exact h
          · assumption
      · simp [*]
  unfold plannedDeleteEntries
  rw [mem_sortDeleteEntriesBottomUp, hpush]
  cases e with
  | file p => simp [InTree, mem_treeFiles]
  | folder p =>
    simp only [InTree, mem_treeFolders, folder.injEq]
    constructor
    · rintro (h | ⟨rfl, h⟩)
      · exact .inl h
      · exact .inr ⟨rfl, h⟩
    · rintro (h | ⟨rfl, h⟩)
      · exact .inl h
      · exact .inr ⟨rfl, h⟩

theorem executeRmBottomUp_eq (args : RmArgs) (pages : List ListFilesPage) :
    executeRmBottomUp args pages =
      deleteAdriveEntriesByDepth (plannedDeleteEntries args.target pages) args.includePattern
        args.excludePattern := by
  unfold executeRmBottomUp
  split <;> rfl

theorem mem_requests {args : RmArgs} {pages : List ListFilesPage} {e : ADriveDeleteEntry} :
    e ∈ (executeRmBottomUp args pages).flatten ↔ Wanted args pages e := by
  rw [executeRmBottomUp_eq, deleteAdriveEntriesByDepth, List.flatten_cons, levels_flatten,
    List.mem_append, mem_sortDeleteEntriesBottomUp]
  simp only [List.mem_filter, mem_plannedDeleteEntries, Wanted]
  cases e.isFile <;> simp

theorem requests_nodup (args : RmArgs) (pages : List ListFilesPage) :
    (executeRmBottomUp args pages).flatten.Nodup := by
  rw [executeRmBottomUp_eq, deleteAdriveEntriesByDepth, List.flatten_cons, levels_flatten,
    List.nodup_append]
  refine ⟨((sortDeleteEntriesBottomUp_nodup _).filter _).filter _,
    sortDeleteEntriesBottomUp_nodup _, ?_⟩
  rintro e he _ he' rfl
  have hfile := (List.mem_filter.mp he).2
  have hfolder := (List.mem_filter.mp (mem_sortDeleteEntriesBottomUp.mp he')).2
  simp [hfile] at hfolder

theorem level_before {entries : List ADriveDeleteEntry} {closed rest : List (List ADriveDeleteEntry)}
    {current : List ADriveDeleteEntry} {e e' : ADriveDeleteEntry}
    (h : levels (fun e => adrivePathDepth e.path) (sortDeleteEntriesBottomUp entries) =
      closed ++ current :: rest)
    (hc : e ∈ current) (he' : e' ∈ entries)
    (hdepth : adrivePathDepth e.path < adrivePathDepth e'.path) : e' ∈ closed.flatten := by
  have hflat := levels_flatten (fun e => adrivePathDepth e.path) (sortDeleteEntriesBottomUp entries)
  have hlevel : current ∈
      levels (fun e => adrivePathDepth e.path) (sortDeleteEntriesBottomUp entries) := by simp [h]
  rw [h, List.flatten_append, List.flatten_cons] at hflat
  have hmem := mem_sortDeleteEntriesBottomUp.mpr he'
  have hsorted := sortDeleteEntriesBottomUp_depth entries
  rw [← hflat] at hmem hsorted
  rcases List.mem_append.mp hmem with hm | hm
  · exact hm
  · rcases List.mem_append.mp hm with hm | hm
    · have : adrivePathDepth e.path = adrivePathDepth e'.path := depth_eq_of_mem_level hlevel hc hm
      omega
    · have htail := (List.pairwise_append.mp hsorted).2.1
      have hle := (List.pairwise_append.mp htail).2.2 e hc e' hm
      omega

theorem plan_before {args : RmArgs} {pages : List ListFilesPage} {path : Text}
    {closed rest : List (List ADriveDeleteEntry)} {current : List ADriveDeleteEntry}
    (h : [] :: executeRmBottomUp args pages = closed ++ current :: rest)
    (hp : folder path ∈ current) {e : ADriveDeleteEntry} (he : Wanted args pages e)
    (hbefore : e.isFile = true ∨ adrivePathDepth path < adrivePathDepth e.path) :
    e ∈ closed.flatten := by
  have hmem := mem_plannedDeleteEntries.mpr he.1
  rw [executeRmBottomUp_eq, deleteAdriveEntriesByDepth] at h
  rcases closed with - | ⟨c, - | ⟨c', closed⟩⟩
  · obtain ⟨rfl, -⟩ := List.cons.inj h
    cases hp
  · obtain ⟨-, hfiles⟩ := List.cons.inj h
    obtain ⟨rfl, -⟩ := List.cons.inj hfiles
    have := (List.mem_filter.mp hp).2
    cases this
  · obtain ⟨-, hfiles⟩ := List.cons.inj h
    obtain ⟨rfl, hlevels⟩ := List.cons.inj hfiles
    rw [List.flatten_cons, List.flatten_cons]
    refine List.mem_append_right _ ?_
    cases hf : e.isFile with
    | true =>
      refine List.mem_append_left _ (List.mem_filter.mpr ⟨?_, hf⟩)
      exact List.mem_filter.mpr ⟨hmem, he.2⟩
    | false =>
      refine List.mem_append_right _ (level_before hlevels hp ?_ (hbefore.resolve_left (by simp [hf])))
      exact List.mem_filter.mpr ⟨List.mem_filter.mpr ⟨hmem, he.2⟩, by simp [hf]⟩

theorem wanted_folder_normal {args : RmArgs} {pages : List ListFilesPage} {path : Text}
    (h : Wanted args pages (folder path)) : normalizeAdriveFolderPath path = path := by
  rcases h.1 with h | ⟨rfl, -⟩
  · obtain ⟨f, -, rfl⟩ := List.mem_map.mp h
    exact trimEnd_idem '/' f.folder
  · exact trimEnd_idem '/' args.target

theorem matches_file (args : RmArgs) (p : Text) :
    adriveDeleteEntryMatchesFilters args.includePattern args.excludePattern (file p) =
      pathMatchesFilters p args.includePattern args.excludePattern := by
  have hpattern : adriveDeleteEntryPatternMatches p none = (simplePatternMatch · p) := by
    funext pattern
    simp [adriveDeleteEntryPatternMatches]
  simp [adriveDeleteEntryMatchesFilters, pathMatchesFilters, isFile, path, hpattern]

def Covers : ADriveDeleteEntry → Text → Prop
  | file q, p => p = q
  | folder q, p => Below q p

theorem mem_delete_files {e : ADriveDeleteEntry} {space : Space} {p : Text} :
    p ∈ (space.delete e).files ↔ p ∈ space.files ∧ ¬ Covers e p := by
  cases e <;> simp [Space.delete, Covers]

theorem foldl_delete_files {entries : List ADriveDeleteEntry} {space : Space} {p : Text}
    (h : p ∈ (entries.foldl (fun s e => s.delete e) space).files) :
    p ∈ space.files ∧ ∀ e ∈ entries, ¬ Covers e p := by
  induction entries generalizing space with
  | nil => exact ⟨h, by simp⟩
  | cons e entries ih =>
    obtain ⟨hp, hrest⟩ := ih h
    obtain ⟨hp, hcover⟩ := mem_delete_files.mp hp
    exact ⟨hp, by simpa using ⟨hcover, hrest⟩⟩

theorem guarded_not_covers {args : RmArgs} {pages : List ListFilesPage} (hg : Guarded args pages)
    {p : Text} (hp : p ∈ treeFiles pages)
    (hex : pathMatchesFilters p args.includePattern args.excludePattern = false)
    {e : ADriveDeleteEntry} (he : Wanted args pages e) : ¬ Covers e p := by
  intro hc
  cases e with
  | file q =>
    obtain rfl : p = q := hc
    have := he.2
    rw [matches_file, hex] at this
    cases this
  | folder q =>
    have := hg q he p hp hc
    rw [hex] at this
    cases this

theorem run_correct {args : RmArgs} {pages : List ListFilesPage} (hg : Guarded args pages)
    {limit : Nat} {x : Exec Space ADriveDeleteEntry}
    (h : Run DeleteRequest limit
      (Exec.init (listedSpace pages) (executeRmBottomUp args pages)) x) :
    RmCorrect args pages x where
  excluded_kept := by
    intro p hp hex
    refine run_world (P := fun s => p ∈ s.files) ?_ h hp
    intro e he s s' ok hs hreq
    cases hreq with
    | failed => exact hs
    | done => exact mem_delete_files.mpr ⟨hs, guarded_not_covers hg hp hex (mem_requests.mp he)⟩
  requested_wanted := by
    intro e he
    obtain ⟨rest, hrest⟩ := run_starts h
    exact mem_requests.mp (by rw [hrest]; exact List.mem_append_left _ he)
  requested_once := by
    obtain ⟨rest, hrest⟩ := run_starts h
    have hnodup := requests_nodup args pages
    rw [hrest] at hnodup
    exact (List.nodup_append.mp hnodup).1
  requested_all := by
    intro hd e he
    rw [(run_starts_done h hd).1]
    exact mem_requests.mpr he
  files_first := by
    intro before path after hlog p hp
    obtain ⟨closed, current, rest, hplan, hc, hdone⟩ := (run_inv h).1 before _ after hlog
    exact hdone _ (plan_before hplan hc hp (.inl rfl))
  bottom_up := by
    intro before path after hlog p hp hne hbelow
    obtain ⟨closed, current, rest, hplan, hc, hdone⟩ := (run_inv h).1 before _ after hlog
    have hfolder : Wanted args pages (folder path) := by
      rw [← mem_requests]
      have hflat := congrArg List.flatten hplan
      simp only [List.flatten_cons, List.nil_append, List.flatten_append] at hflat
      rw [hflat]
      simp [hc]
    refine hdone _ (plan_before hplan hc hp (.inr ?_))
    exact depth_lt_of_below (wanted_folder_normal hfolder) (wanted_folder_normal hp) hne hbelow

theorem unguarded_loses {args : RmArgs} {pages : List ListFilesPage} (hg : ¬ Guarded args pages)
    (limit : Nat) :
    ∃ x, Run DeleteRequest limit
        (Exec.init (listedSpace pages) (executeRmBottomUp args pages)) x ∧ x.Done ∧
      ∃ p ∈ treeFiles pages, pathMatchesFilters p args.includePattern args.excludePattern = false ∧
        p ∉ x.world.files := by
  unfold Guarded at hg
  push Not at hg
  obtain ⟨path, hwanted, p, hp, hbelow, hex⟩ := hg
  have hdone : ∀ e s, DeleteRequest e s (Space.delete e s) true := fun _ s => .done s
  obtain ⟨log, hrun⟩ := @run_exists _ _ _ limit _ hdone (listedSpace pages)
    (executeRmBottomUp args pages) []
  refine ⟨_, hrun, ⟨rfl, rfl, rfl⟩, p, hp, by simpa using hex, fun hm => ?_⟩
  exact (foldl_delete_files hm).2 (folder path) (mem_requests.mpr hwanted) hbelow

theorem rm_keeps_excluded_iff (args : RmArgs) (pages : List ListFilesPage) (limit : Nat) :
    (∀ x, Run DeleteRequest limit
        (Exec.init (listedSpace pages) (executeRmBottomUp args pages)) x →
      RmCorrect args pages x) ↔ Guarded args pages := by
  constructor
  · intro h
    by_contra hg
    obtain ⟨x, hrun, -, p, hp, hex, hlost⟩ := unguarded_loses hg limit
    exact hlost ((h x hrun).excluded_kept p hp hex)
  · exact fun hg x hrun => run_correct hg hrun

def keepArgs : RmArgs := ⟨"docs".toList, none, some "keep".toList, false⟩

def keepPages : List ListFilesPage := [⟨[⟨"docs/keep.txt".toList, "file".toList⟩], []⟩]

theorem rm_removes_excluded :
    ∃ x, Run DeleteRequest 1 (Exec.init (listedSpace keepPages) (executeRmBottomUp keepArgs keepPages)) x ∧
      x.Done ∧ ¬ RmCorrect keepArgs keepPages x := by
  have hg : ¬ Guarded keepArgs keepPages := by
    intro h
    have hwanted : Wanted keepArgs keepPages (folder "docs".toList) :=
      ⟨.inr ⟨by decide, by decide⟩, by decide⟩
    exact absurd (h _ hwanted "docs/keep.txt".toList (by decide) (by decide)) (by decide)
  obtain ⟨x, hrun, hdone, p, hp, hex, hlost⟩ := unguarded_loses hg 1
  exact ⟨x, hrun, hdone, fun hc => hlost (hc.excluded_kept p hp hex)⟩

end VeStorage.ADrive
