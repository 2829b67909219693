import VeStorage.ADrive.Sync.Plan
import VeStorage.Tos.BottomUp

namespace VeStorage.ADrive.Sync
open Lib Grouped
open Tos (CliError)
open DirectoryUpload (Job)
open Listing (FolderPrefix ListedExactly)
open Lib.Folders (Folder)
open Tos.BottomUp (layerRank layerRank_lt layered_leaves)

-- Everything in the space has a name on every level.
structure Clean (tree : Listing.Tree) : Prop where
  files : ∀ file ∈ tree.files, ∃ names, names ≠ [] ∧ PlainNames '/' names ∧ file.filePath = join '/' names
  folders : ∀ folder ∈ tree.folders, ∃ names, names ≠ [] ∧ PlainNames '/' names ∧ folder = join '/' names ++ ['/']

def treeSpace (tree : Listing.Tree) : Space :=
  ⟨tree.files.map FileInfo.filePath, tree.folders.map normalizeAdriveFolderPath⟩

inductive Collected : SyncDesiredRelativePaths → Prop
  | fromLocal (j : Job) : Collected (collectLocalSyncDesired j)
  | fromRemote (sourcePrefix : Text) (parentPrefix includePattern excludePattern : Option Text)
      (entries : ADriveListedEntries) :
      Collected (collectRemoteSyncDesired sourcePrefix parentPrefix includePattern excludePattern entries)

theorem Collected.closed {desired : SyncDesiredRelativePaths} (h : Collected desired) : Closed desired := by
  cases h with
  | fromLocal j => exact collectLocalSyncDesired_closed j
  | fromRemote sourcePrefix parentPrefix includePattern excludePattern entries =>
    exact collectRemoteSyncDesired_closed sourcePrefix parentPrefix includePattern excludePattern entries

section Target

variable {uri path : Text} {destination : ParsedADriveUri}

structure UriParts (destination : ParsedADriveUri) : Prop where
  inst : destination.inst ≠ [] ∧ '/' ∉ destination.inst
  space : destination.space ≠ [] ∧ '/' ∉ destination.space

theorem parsed_parts (h : parseAdriveUri uri false = .ok destination) : UriParts destination := by
  unfold parseAdriveUri at h
  simp only [Bool.false_eq_true, if_false] at h
  split at h
  · split at h
    · cases h
    · next hinst =>
      split at h
      · cases h
      · next hspace =>
        cases h
        exact ⟨⟨hinst, splitOnce_fst_not_mem '/' _⟩, ⟨hspace, splitOnce_fst_not_mem '/' _⟩⟩
  · cases h

theorem parse_itemSource (h : UriParts destination) (path : Text) :
    parseAdriveUri (itemSource destination path) false = .ok ⟨destination.inst, destination.space, path⟩ := by
  obtain ⟨⟨hinst, hslash⟩, hspace, hslash'⟩ := h
  have hscheme : ¬ adriveScheme <+: destination.inst ++ '/' :: (destination.space ++ '/' :: path) := by
    rintro ⟨r, hr⟩
    have hsplit := congrArg (splitOnce '/') hr
    rw [splitOnce_append hslash] at hsplit
    have hfirst : splitOnce '/' (adriveScheme ++ r) = ("adrive:".toList, some ('/' :: r)) :=
      splitOnce_append (a := "adrive:".toList) (by decide) ('/' :: r)
    rw [hfirst] at hsplit
    have htail := Option.some.inj (Prod.mk.inj hsplit).2
    cases hs : destination.space with
    | nil => exact hspace hs
    | cons c cs =>
      rw [hs, List.cons_append] at htail
      obtain rfl := (List.cons.inj htail).1
      exact hslash' (hs ▸ List.mem_cons_self)
  have hstarts : isADriveUri (itemSource destination path) = true := decide_eq_true (List.prefix_append _ _)
  have hscheme' : adriveScheme ≠ [] := by decide
  unfold parseAdriveUri
  rw [hstarts, itemSource, trimStartMatches_append hscheme' hscheme, splitOnce_append hslash]
  dsimp only [Option.getD]
  rw [splitOnce_append hslash']
  simp [hinst, hspace]

theorem folder_target (h : UriParts destination) (path : Text) :
    deleteTarget ⟨.extraFolder, itemSource destination (normalizeAdriveFolderPath path)⟩ =
      .ok (.folder (normalizeAdriveFolderPath path)) := by
  rw [deleteTarget, parse_itemSource h]
  exact congrArg (fun p => Except.ok (ADriveDeleteEntry.folder p)) (trimEnd_idem '/' path)

theorem file_target (h : UriParts destination) {names : List Text} (hn : PlainNames '/' names) (hne : names ≠ []) :
    deleteTarget ⟨.extraFile, itemSource destination (join '/' names)⟩ = .ok (.file (join '/' names)) := by
  have hfile : ¬ (join '/' names = [] ∨ ['/'] <:+ join '/' names) := by
    rintro (he | ⟨r, hr⟩)
    · exact join_ne hn hne he
    · obtain ⟨a, b, rfl, ha, hb, -, hnil, -, hbne⟩ := join_split (r := []) hn hr.symm
      exact join_ne hb hbne hnil.symm
  rw [deleteTarget, parse_itemSource h]
  dsimp only
  rw [parseFileTarget, if_neg hfile]
  rfl

end Target

variable {args : SyncArgs} {destination : ParsedADriveUri} {desired : SyncDesiredRelativePaths} {tree : Listing.Tree}
  {entries : ADriveListedEntries} {dirs : List Text} {path : Text} {item : SyncDeleteItem}

def destinationPrefix (destination : ParsedADriveUri) : Text := trimFolderPrefix destination.path

def deleteGroups (args : SyncArgs) (destination : ParsedADriveUri) (desired : SyncDesiredRelativePaths)
    (entries : ADriveListedEntries) : List (List SyncDeleteItem) :=
  executeAdriveSyncDeletePlan (buildAdriveDeletePlan args destination desired entries)

theorem mem_deleteGroups : item ∈ (deleteGroups args destination desired entries).flatten ↔
    (∃ file ∈ entries.files, extraFile args destination desired file.filePath ∧
      item = ⟨.extraFile, itemSource destination file.filePath⟩) ∨
    ∃ folder ∈ entries.folders, extraFolder args destination desired folder.folder ∧
      item = ⟨.extraFolder, itemSource destination (normalizeAdriveFolderPath folder.folder)⟩ := by
  have hplan : item ∈ (deleteGroups args destination desired entries).flatten ↔
      item ∈ buildAdriveDeletePlan args destination desired entries := by
    simp only [deleteGroups, executeAdriveSyncDeletePlan, List.flatten_cons, levels_flatten, List.mem_append,
      List.mem_filter, sortAdriveSyncDeletePlanBottomUp, mem_sortOn, decide_eq_true_eq]
    tauto
  rw [hplan, buildAdriveDeletePlan, sortAdriveSyncDeletePlanBottomUp, mem_sortOn, appendAdriveExtraFolderDeleteItems,
    List.mem_append]
  simp only [List.mem_map, List.mem_filter, decide_eq_true_eq, and_assoc, @eq_comm SyncDeleteItem]

-- What DeleteFile and DeleteFolder are asked for, in the terms of the space alone.
def Chosen (args : SyncArgs) (destination : ParsedADriveUri) (desired : SyncDesiredRelativePaths)
    (tree : Listing.Tree) : ADriveDeleteEntry → Prop
  | .file path => path ∈ tree.files.map FileInfo.filePath ∧ destinationPrefix destination <+: path ∧
      extraFile args destination desired path
  | .folder path => path ≠ [] ∧ Folder '/' tree.paths (destinationPrefix destination) (path ++ ['/']) ∧
      extraFolder args destination desired (path ++ ['/'])

def Removed (path : Text) : ADriveDeleteEntry → Prop
  | .file _ => False
  | .folder q => path = q ∨ Below q path

theorem mem_delete_folders {entry : ADriveDeleteEntry} {space : Space} :
    path ∈ (space.delete entry).folders ↔ path ∈ space.folders ∧ ¬ Removed path entry := by
  cases entry <;> simp [Space.delete, Removed]

section Names

variable {dir : Text}

theorem folder_plain (hclean : Clean tree) {root : Text} (h : Folder '/' tree.paths root dir) :
    ∃ names, names ≠ [] ∧ PlainNames '/' names ∧ dir = join '/' names ++ ['/'] := by
  obtain ⟨⟨g, rfl⟩, -, k, hk, hpre⟩ := h
  have hwithin : ∀ {names : List Text}, PlainNames '/' names → g ++ ['/'] <+: join '/' names →
      ∃ a, a ≠ [] ∧ PlainNames '/' a ∧ g ++ ['/'] = join '/' a ++ ['/'] := by
    intro names hn hp
    obtain ⟨r, hr⟩ := hp
    have he : join '/' names = g ++ '/' :: r := by rw [← hr, List.append_assoc]; rfl
    obtain ⟨a, b, -, ha, -, rfl, -, hane, -⟩ := join_split hn he
    exact ⟨a, hane, ha, rfl⟩
  rcases List.mem_append.mp hk with hk | hk
  · obtain ⟨file, hfile, rfl⟩ := List.mem_map.mp hk
    obtain ⟨names, -, hn, he⟩ := hclean.files file hfile
    exact hwithin hn (he ▸ hpre)
  · obtain ⟨names, hne, hn, rfl⟩ := hclean.folders k hk
    rcases List.prefix_concat_iff.mp hpre with he | hp
    · exact ⟨names, hne, hn, he⟩
    · exact hwithin hn hp

theorem normalize_join {names : List Text} (hn : PlainNames '/' names) :
    normalizeAdriveFolderPath (join '/' names ++ ['/']) = join '/' names := by
  have hend := trim_join hn
  rw [trim, trimStart_join hn] at hend
  exact (trimEnd_append_self '/' _).trans hend

theorem normalize_of_trim {names : List Text} (hn : PlainNames '/' names) {f : Text}
    (hf : trimFolderPrefix f = join '/' names ++ ['/']) : normalizeAdriveFolderPath f = join '/' names := by
  unfold trimFolderPrefix at hf
  split at hf
  · rw [hf, normalize_join hn]
  · rw [List.append_cancel_right hf]
    have hend := trim_join hn
    rwa [trim, trimStart_join hn] at hend

theorem extraFolder_congr {f g : Text} (h : trim '/' f = trim '/' g) :
    extraFolder args destination desired f ↔ extraFolder args destination desired g := by
  unfold extraFolder remoteFolderRelativePath
  rw [h]

theorem trim_trimFolderPrefix (path : Text) : trim '/' (trimFolderPrefix path) = trim '/' path := by
  unfold trimFolderPrefix
  split
  · rfl
  · exact trim_append_self path

theorem root_not_extra (h : trimFolderPrefix path = destinationPrefix destination) :
    ¬ extraFolder args destination desired path := by
  rintro ⟨hne, -⟩
  have htrim : trim '/' path = trim '/' (destinationPrefix destination) := by
    rw [← h, trim_trimFolderPrefix]
  refine hne ?_
  unfold remoteFolderRelativePath
  dsimp only
  rw [htrim]
  unfold destinationPrefix
  split
  · assumption
  · exact if_pos rfl

end Names

section Requests

variable (hdest : UriParts destination) (hclean : Clean tree)
  (hlisted : ListedExactly tree (destinationPrefix destination) dirs entries)
include hdest hclean hlisted

theorem target_chosen (h : item ∈ (deleteGroups args destination desired entries).flatten) :
    ∃ entry, deleteTarget item = .ok entry ∧ Chosen args destination desired tree entry ∧
      adriveSyncDeleteSortPath item = entry.path ∧ (item.operation = .extraFolder ↔ entry.isFile = false) := by
  rcases mem_deleteGroups.mp h with ⟨file, hfile, hextra, rfl⟩ | ⟨folder, hfolder, hextra, rfl⟩
  · obtain ⟨hfile, hbelow⟩ := List.mem_filter.mp (hlisted.files.mem_iff.mp hfile)
    obtain ⟨names, hne, hn, he⟩ := hclean.files file hfile
    refine ⟨.file file.filePath, ?_, ⟨List.mem_map_of_mem hfile, of_decide_eq_true hbelow, hextra⟩, ?_, ?_⟩
    · rw [he, file_target hdest hn hne]
    · rw [adriveSyncDeleteSortPath, parse_itemSource hdest]
      rfl
    · simp [ADriveDeleteEntry.isFile]
  · have hroot : trimFolderPrefix folder.folder ≠ destinationPrefix destination := fun he =>
      root_not_extra he hextra
    have hin := (hlisted.folders _ hroot).mp ⟨folder, hfolder, rfl⟩
    obtain ⟨names, hne, hn, he⟩ := folder_plain hclean hin
    refine ⟨.folder (normalizeAdriveFolderPath folder.folder), folder_target hdest folder.folder, ?_, ?_, ?_⟩
    · rw [normalize_of_trim hn he]
      refine ⟨join_ne hn hne, he ▸ hin, (extraFolder_congr ?_).mp hextra⟩
      rw [← he, trim_trimFolderPrefix]
    · rw [adriveSyncDeleteSortPath, parse_itemSource hdest]
      rfl
    · simp [ADriveDeleteEntry.isFile]

theorem chosen_target {entry : ADriveDeleteEntry} (h : Chosen args destination desired tree entry) :
    ∃ item ∈ (deleteGroups args destination desired entries).flatten, deleteTarget item = .ok entry := by
  cases entry with
  | file path =>
    obtain ⟨hpath, hbelow, hextra⟩ := h
    obtain ⟨file, hfile, rfl⟩ := List.mem_map.mp hpath
    obtain ⟨names, hne, hn, he⟩ := hclean.files file hfile
    have hin : file ∈ entries.files :=
      hlisted.files.mem_iff.mpr (List.mem_filter.mpr ⟨hfile, decide_eq_true hbelow⟩)
    refine ⟨_, mem_deleteGroups.mpr (.inl ⟨file, hin, hextra, rfl⟩), ?_⟩
    rw [he, file_target hdest hn hne]
  | folder path =>
    obtain ⟨hne, hfolder, hextra⟩ := h
    have hroot : path ++ ['/'] ≠ destinationPrefix destination := fun he => by
      refine root_not_extra ?_ hextra
      rw [trimFolderPrefix, if_pos (.inr (List.suffix_append path ['/'])), he]
    obtain ⟨folder, hin, he⟩ := (hlisted.folders _ hroot).mpr hfolder
    obtain ⟨names, -, hn, hnames⟩ := folder_plain hclean hfolder
    have hsame : extraFolder args destination desired folder.folder := by
      refine (extraFolder_congr ?_).mp hextra
      rw [← he, trim_trimFolderPrefix]
    refine ⟨_, mem_deleteGroups.mpr (.inr ⟨folder, hin, hsame, rfl⟩), ?_⟩
    rw [folder_target hdest, normalize_of_trim hn (he.trans hnames), List.append_cancel_right hnames]

end Requests

theorem Chosen.normal (hclean : Clean tree) {entry : ADriveDeleteEntry}
    (h : Chosen args destination desired tree entry) (hfolder : entry.isFile = false) :
    normalizeAdriveFolderPath entry.path = entry.path := by
  cases entry with
  | file path => cases hfolder
  | folder path =>
    obtain ⟨names, -, hn, he⟩ := folder_plain hclean h.2.1
    obtain rfl := List.append_cancel_right he
    have hend := trim_join hn
    rwa [trim, trimStart_join hn] at hend

section Desired

theorem chosen_rest (hclean : Clean tree) (h : Chosen args destination desired tree (.folder path)) :
    ∃ ms rest, rest ≠ [] ∧ PlainNames '/' ms ∧ path = join '/' ms ∧
      ms = segments '/' (destinationPrefix destination) ++ rest ∧ join '/' rest ∉ desired.folders := by
  obtain ⟨-, hfolder, hextra⟩ := h
  obtain ⟨ms, hne, hn, he⟩ := folder_plain hclean hfolder
  have htrim : trimFolderPrefix (path ++ ['/']) = join '/' ms ++ ['/'] := by
    rw [trimFolderPrefix, if_pos (.inr (List.suffix_append path ['/'])), he]
  have hroot : join '/' ms ++ ['/'] ≠ destinationPrefix destination := fun hself =>
    root_not_extra (htrim.trans hself) hextra
  obtain ⟨rest, hrest, hms, hrel⟩ := folder_names hn hne htrim (Listing.folderPrefix_trim _)
    (he ▸ hfolder.2.1) hroot
  refine ⟨ms, rest, hrest, hn, List.append_cancel_right he, hms, ?_⟩
  obtain ⟨-, -, hnot⟩ := hextra
  exact hrel ▸ hnot

theorem desired_not_covered (hclean : Clean tree) (hclosed : Closed desired) {file : FileInfo}
    (hfile : file ∈ tree.files) (hbelow : destinationPrefix destination <+: file.filePath)
    (hdesired : remoteRelativePath file.filePath (destinationPrefix destination) ∈ desired.files)
    {entry : ADriveDeleteEntry} (h : Chosen args destination desired tree entry) : ¬ Covers entry file.filePath := by
  intro hcover
  cases entry with
  | file path =>
    obtain ⟨-, -, hextra⟩ := h
    obtain rfl : file.filePath = path := hcover
    exact hextra.2 hdesired
  | folder path =>
    obtain ⟨names, hne, hn, he⟩ := hclean.files file hfile
    obtain ⟨ms, rest, hrest, hms, rfl, hsplit, hnot⟩ := chosen_rest hclean h
    obtain ⟨left, hleft, hrel⟩ := below_names hn (Listing.folderPrefix_trim destination.path) (he ▸ hbelow)
    have hnil : join '/' ms ≠ [] := h.1
    rcases hcover with hcover | hcover
    · exact hnil hcover
    · obtain ⟨hpre, hdiff⟩ := above_names hms hn (he ▸ hcover)
      rw [hsplit, hleft] at hpre hdiff
      have hunder : rest <+: left := (List.prefix_append_right_inj _).mp hpre
      have hleftPlain : PlainNames '/' left := hn.of_subset (hleft ▸ List.subset_append_right _ _)
      have hmem : join '/' left ∈ desired.files := by
        rw [he] at hdesired
        exact hrel ▸ hdesired
      exact hnot (hclosed.above hleftPlain hmem hrest hunder fun hself => hdiff (hself ▸ rfl))

theorem desired_folder_not_removed (hclean : Clean tree) (hclosed : Closed desired) {folder : Text}
    (hfolder : folder ∈ tree.folders) (hbelow : destinationPrefix destination <+: folder)
    (hroot : folder ≠ destinationPrefix destination)
    (hdesired : remoteFolderRelativePath folder (destinationPrefix destination) ∈ desired.folders)
    {entry : ADriveDeleteEntry} (h : Chosen args destination desired tree entry) :
    ¬ Removed (normalizeAdriveFolderPath folder) entry := by
  intro hcover
  cases entry with
  | file path => exact hcover
  | folder path =>
    obtain ⟨names, hne, hn, rfl⟩ := hclean.folders folder hfolder
    obtain ⟨ms, rest, hrest, hms, rfl, hsplit, hnot⟩ := chosen_rest hclean h
    have htrim : trimFolderPrefix (join '/' names ++ ['/']) = join '/' names ++ ['/'] := by
      rw [trimFolderPrefix, if_pos (.inr (List.suffix_append _ ['/']))]
    have hD := Listing.folderPrefix_trim destination.path
    obtain ⟨left, -, hleft, hrel⟩ := folder_names hn hne htrim hD hbelow hroot
    have hnil : join '/' ms ≠ [] := h.1
    have hpre : ms <+: names := by
      rw [normalize_join hn] at hcover
      rcases hcover with he | he | he
      · exact (join_inj_plain hms hn he.symm).symm ▸ List.prefix_rfl
      · exact absurd he hnil
      · exact (above_names hms hn he).1
    rw [hsplit, hleft] at hpre
    have hleftPlain : PlainNames '/' left := hn.of_subset (hleft ▸ List.subset_append_right _ _)
    have hunder : rest <+: left := (List.prefix_append_right_inj _).mp hpre
    exact hnot (hclosed.folders left hleftPlain (hrel ▸ hdesired) rest hrest hunder)

theorem outside_not_covered (houtside : ¬ destinationPrefix destination <+: path)
    {entry : ADriveDeleteEntry} (h : Chosen args destination desired tree entry) : ¬ Covers entry path := by
  intro hcover
  cases entry with
  | file q =>
    obtain rfl : path = q := hcover
    exact houtside h.2.1
  | folder q =>
    obtain ⟨hne, hfolder, -⟩ := h
    exact houtside (hfolder.2.1.trans (hcover.resolve_left hne))

theorem removed_under (hclean : Clean tree) {folder q : Text} (hfolder : folder ∈ tree.folders) (hq : q ≠ [])
    (h : Removed (normalizeAdriveFolderPath folder) (.folder q)) : q ++ ['/'] <+: folder := by
  obtain ⟨names, -, hn, rfl⟩ := hclean.folders folder hfolder
  rw [normalize_join hn] at h
  rcases h with he | he | he
  · rw [he]
  · exact absurd he hq
  · exact he.trans (List.prefix_append _ _)

theorem outside_not_removed (hclean : Clean tree) {folder : Text} (hfolder : folder ∈ tree.folders)
    (houtside : ¬ destinationPrefix destination <+: folder ∨ folder = destinationPrefix destination)
    {entry : ADriveDeleteEntry} (h : Chosen args destination desired tree entry) :
    ¬ Removed (normalizeAdriveFolderPath folder) entry := by
  intro hremoved
  cases entry with
  | file q => exact hremoved
  | folder q =>
    obtain ⟨hne, hin, hextra⟩ := h
    have hunder := removed_under hclean hfolder hne hremoved
    rcases houtside with houtside | rfl
    · exact houtside (hin.2.1.trans hunder)
    · refine root_not_extra ?_ hextra
      rw [trimFolderPrefix, if_pos (.inr (List.suffix_append q ['/']))]
      exact hunder.eq_of_length_le hin.2.1.length_le

end Desired

def isFolderItem (item : SyncDeleteItem) : Bool := decide (item.operation = .extraFolder)

theorem deleteGroups_layered : Layered (layerRank isFolderItem adriveSyncDeleteSortPath)
    (deleteGroups args destination desired entries) := by
  refine layered_leaves ?_ ?_ (sortOn_pairwise syncDeleteRank _)
  · intro item hitem
    exact decide_eq_false (of_decide_eq_true (List.mem_filter.mp hitem).2)
  · intro item hitem
    exact decide_eq_true (of_decide_eq_true (List.mem_filter.mp (mem_sortOn.mp hitem)).2)

theorem layer_lt {folder : SyncDeleteItem} {entry entry' : ADriveDeleteEntry}
    (hfolder : folder.operation = .extraFolder) (hpath : adriveSyncDeleteSortPath folder = entry.path)
    (hitem : item.operation = .extraFolder ↔ entry'.isFile = false)
    (hpath' : adriveSyncDeleteSortPath item = entry'.path)
    (hnormal : normalizeAdriveFolderPath entry.path = entry.path)
    (hnormal' : entry'.isFile = false → normalizeAdriveFolderPath entry'.path = entry'.path)
    (hne : entry'.path ≠ entry.path) (hbelow : Below entry.path entry'.path) :
    layerRank isFolderItem adriveSyncDeleteSortPath item <
      layerRank isFolderItem adriveSyncDeleteSortPath folder := by
  refine layerRank_lt ?_ (decide_eq_true hfolder)
  cases hf : entry'.isFile with
  | true => exact .inl (decide_eq_false fun h => by simp [hitem.mp h] at hf)
  | false =>
    refine .inr ?_
    rw [hpath, hpath']
    exact depth_lt_of_below hnormal (hnormal' hf) hne hbelow

structure SyncDeleteCorrect (args : SyncArgs) (destination : ParsedADriveUri) (desired : SyncDesiredRelativePaths)
    (tree : Listing.Tree) (x : Exec Space SyncDeleteItem) : Prop where
  desired_kept : ∀ file ∈ tree.files, destinationPrefix destination <+: file.filePath →
    remoteRelativePath file.filePath (destinationPrefix destination) ∈ desired.files → file.filePath ∈ x.world.files
  folders_kept : ∀ folder ∈ tree.folders, destinationPrefix destination <+: folder →
    folder ≠ destinationPrefix destination →
    remoteFolderRelativePath folder (destinationPrefix destination) ∈ desired.folders →
    normalizeAdriveFolderPath folder ∈ x.world.folders
  outside_kept : ∀ file ∈ tree.files, ¬ destinationPrefix destination <+: file.filePath →
    file.filePath ∈ x.world.files
  outside_folders_kept : ∀ folder ∈ tree.folders,
    ¬ destinationPrefix destination <+: folder ∨ folder = destinationPrefix destination →
    normalizeAdriveFolderPath folder ∈ x.world.folders
  only_chosen : ∀ file ∈ tree.files, file.filePath ∉ x.world.files →
    ∃ entry, Chosen args destination desired tree entry ∧ Covers entry file.filePath
  only_folders_chosen : ∀ folder ∈ tree.folders, normalizeAdriveFolderPath folder ∉ x.world.folders →
    ∃ entry, Chosen args destination desired tree entry ∧ Removed (normalizeAdriveFolderPath folder) entry
  all_chosen : x.Done → (∀ item, Event.finish item false ∉ x.log) →
    ∀ entry, Chosen args destination desired tree entry →
      (∀ path ∈ x.world.files, ¬ Covers entry path) ∧ ∀ path ∈ x.world.folders, ¬ Removed path entry
  bottom_up : ∀ before folder after path, x.log = before ++ .start folder :: after →
    deleteTarget folder = .ok (.folder path) → ∀ entry, Chosen args destination desired tree entry →
      entry.path ≠ path → Below path entry.path → ∃ item, deleteTarget item = .ok entry ∧ Finished before item

section Runs

variable (hdest : UriParts destination) (hclean : Clean tree)
  (hlisted : ListedExactly tree (destinationPrefix destination) dirs entries) {limit : Nat}
  {x : Exec Space SyncDeleteItem}
include hdest hclean hlisted

-- Nothing happens to the space but deletes of chosen entries.
theorem run_kept {P : Space → Prop}
    (hdelete : ∀ entry, Chosen args destination desired tree entry → ∀ space, P space → P (space.delete entry))
    (hx : Run SyncDeleteRequest limit (Exec.init (treeSpace tree) (deleteGroups args destination desired entries)) x)
    (hstart : P (treeSpace tree)) : P x.world := by
  refine run_world (fun item hitem space space' ok hin hact => ?_) hx hstart
  cases hact with
  | refused => exact hin
  | sent entry _ _ _ htarget hrequest =>
    obtain ⟨entry', htarget', hchosen, -, -⟩ := target_chosen hdest hclean hlisted hitem
    obtain rfl := Except.ok.inj (htarget.symm.trans htarget')
    cases hrequest with
    | failed => exact hin
    | done => exact hdelete entry hchosen space hin

theorem run_kept_files {path : Text}
    (hsafe : ∀ entry, Chosen args destination desired tree entry → ¬ Covers entry path)
    (hx : Run SyncDeleteRequest limit (Exec.init (treeSpace tree) (deleteGroups args destination desired entries)) x)
    (hpath : path ∈ (treeSpace tree).files) : path ∈ x.world.files :=
  run_kept (P := fun space => path ∈ space.files) hdest hclean hlisted
    (fun entry hchosen _ hin => mem_delete_files.mpr ⟨hin, hsafe entry hchosen⟩) hx hpath

theorem run_kept_folders {path : Text}
    (hsafe : ∀ entry, Chosen args destination desired tree entry → ¬ Removed path entry)
    (hx : Run SyncDeleteRequest limit (Exec.init (treeSpace tree) (deleteGroups args destination desired entries)) x)
    (hpath : path ∈ (treeSpace tree).folders) : path ∈ x.world.folders :=
  run_kept (P := fun space => path ∈ space.folders) hdest hclean hlisted
    (fun entry hchosen _ hin => mem_delete_folders.mpr ⟨hin, hsafe entry hchosen⟩) hx hpath

end Runs

def Gone (item : SyncDeleteItem) (space : Space) : Prop := ∀ entry, deleteTarget item = .ok entry →
  (∀ path ∈ space.files, ¬ Covers entry path) ∧ ∀ path ∈ space.folders, ¬ Removed path entry

theorem gone_of_done {space space' : Space} (h : SyncDeleteRequest item space space' true) : Gone item space' := by
  intro entry he
  cases h with
  | sent entry' _ _ _ htarget hrequest =>
    obtain rfl := Except.ok.inj (htarget.symm.trans he)
    cases hrequest with
    | done => exact ⟨fun path hp => (mem_delete_files.mp hp).2, fun path hp => (mem_delete_folders.mp hp).2⟩

theorem Gone.kept {job : SyncDeleteItem} {space space' : Space} {ok : Bool}
    (hact : SyncDeleteRequest job space space' ok) (h : Gone item space) : Gone item space' := by
  cases hact with
  | refused => exact h
  | sent entry _ _ _ _ hrequest =>
    cases hrequest with
    | failed => exact h
    | done =>
      intro entry' he
      obtain ⟨hfiles, hfolders⟩ := h entry' he
      exact ⟨fun path hp => hfiles path (mem_delete_files.mp hp).1,
        fun path hp => hfolders path (mem_delete_folders.mp hp).1⟩

section Ends

variable (hdest : UriParts destination) (hclean : Clean tree)
  (hlisted : ListedExactly tree (destinationPrefix destination) dirs entries) {limit : Nat}
  {x : Exec Space SyncDeleteItem}
  (hx : Run SyncDeleteRequest limit (Exec.init (treeSpace tree) (deleteGroups args destination desired entries)) x)
include hdest hclean hlisted hx

theorem run_gone (hdone : x.Done) (hok : ∀ item, Event.finish item false ∉ x.log) {entry : ADriveDeleteEntry}
    (hchosen : Chosen args destination desired tree entry) :
    (∀ path ∈ x.world.files, ¬ Covers entry path) ∧ ∀ path ∈ x.world.folders, ¬ Removed path entry := by
  obtain ⟨item, hitem, htarget⟩ := chosen_target hdest hclean hlisted hchosen
  obtain ⟨ok, hfinish⟩ := (run_starts_done hx hdone).2 item hitem
  have htrue : Event.finish item true ∈ x.log := by
    cases ok with
    | true => exact hfinish
    | false => exact absurd hfinish (hok item)
  have hkeep : ∀ job job' space space' ok, SyncDeleteRequest job' space space' ok →
      Gone job space → Gone job space' := fun _ _ _ _ _ hact hgone => hgone.kept hact
  exact (run_effects (fun _ _ _ hact => gone_of_done hact) hkeep hx).2 item htrue entry htarget

theorem run_bottom_up {before after : List (Event SyncDeleteItem)} {folder : SyncDeleteItem} {path : Text}
    (hlog : x.log = before ++ .start folder :: after) (hpath : deleteTarget folder = .ok (.folder path))
    {entry : ADriveDeleteEntry} (hchosen : Chosen args destination desired tree entry) (hne : entry.path ≠ path)
    (hbelow : Below path entry.path) : ∃ item, deleteTarget item = .ok entry ∧ Finished before item := by
  obtain ⟨item, hitem, htarget⟩ := chosen_target hdest hclean hlisted hchosen
  refine ⟨item, htarget, deleteGroups_layered.finished_before hx hlog hitem ?_⟩
  have hfolder : folder ∈ (deleteGroups args destination desired entries).flatten := by
    obtain ⟨rest, hrest⟩ := run_starts hx
    rw [hrest, hlog]
    exact List.mem_append_left _ (mem_starts.mpr (List.mem_append_right _ List.mem_cons_self))
  obtain ⟨dir, hdir, hdirChosen, hdirPath, hdirOp⟩ := target_chosen hdest hclean hlisted hfolder
  obtain rfl := Except.ok.inj (hpath.symm.trans hdir)
  obtain ⟨entry', htarget', -, hitemPath, hitemOp⟩ := target_chosen hdest hclean hlisted hitem
  obtain rfl := Except.ok.inj (htarget.symm.trans htarget')
  exact layer_lt (hdirOp.mpr rfl) hdirPath hitemOp hitemPath (hdirChosen.normal hclean rfl) (hchosen.normal hclean)
    hne hbelow

end Ends

theorem sync_delete_exact {uri : Text} (hparsed : parseAdriveUri uri false = .ok destination)
    (hdesired : Collected desired) (hclean : Clean tree)
    (hlisted : ListedExactly tree (destinationPrefix destination) dirs entries) {limit : Nat}
    {x : Exec Space SyncDeleteItem}
    (hx : Run SyncDeleteRequest limit
      (Exec.init (treeSpace tree) (deleteGroups args destination desired entries)) x) :
    SyncDeleteCorrect args destination desired tree x := by
  have hdest := parsed_parts hparsed
  have hclosed := hdesired.closed
  have hkept : ∀ file ∈ tree.files,
      (∀ entry, Chosen args destination desired tree entry → ¬ Covers entry file.filePath) →
      file.filePath ∈ x.world.files := fun file hfile hsafe =>
    run_kept_files hdest hclean hlisted hsafe hx (List.mem_map_of_mem hfile)
  have hkeptFolder : ∀ folder ∈ tree.folders,
      (∀ entry, Chosen args destination desired tree entry →
        ¬ Removed (normalizeAdriveFolderPath folder) entry) →
      normalizeAdriveFolderPath folder ∈ x.world.folders := fun folder hfolder hsafe =>
    run_kept_folders hdest hclean hlisted hsafe hx (List.mem_map_of_mem hfolder)
  refine ⟨?_, ?_, ?_, ?_, ?_, ?_, ?_, ?_⟩
  · intro file hfile hbelow hmem
    exact hkept file hfile fun entry hchosen => desired_not_covered hclean hclosed hfile hbelow hmem hchosen
  · intro folder hfolder hbelow hroot hmem
    exact hkeptFolder folder hfolder fun entry hchosen =>
      desired_folder_not_removed hclean hclosed hfolder hbelow hroot hmem hchosen
  · intro file hfile houtside
    exact hkept file hfile fun entry hchosen => outside_not_covered houtside hchosen
  · intro folder hfolder houtside
    exact hkeptFolder folder hfolder fun entry hchosen =>
      outside_not_removed hclean hfolder houtside hchosen
  · intro file hfile hlost
    by_contra hnone
    exact hlost (hkept file hfile fun entry hchosen hcover => hnone ⟨entry, hchosen, hcover⟩)
  · intro folder hfolder hlost
    by_contra hnone
    exact hlost (hkeptFolder folder hfolder fun entry hchosen hcover => hnone ⟨entry, hchosen, hcover⟩)
  · exact fun hdone hok entry hchosen => run_gone hdest hclean hlisted hx hdone hok hchosen
  · exact fun before folder after path hlog hpath entry hchosen hne hbelow =>
      run_bottom_up hdest hclean hlisted hx hlog hpath hchosen hne hbelow

def sampleArgs : SyncArgs := ⟨"adrive://drive/space/kept".toList, none, none⟩

def sampleDestination : ParsedADriveUri := ⟨"drive".toList, "space".toList, "kept".toList⟩

def sampleTree : Listing.Tree where
  files := [⟨"kept/old/x".toList, []⟩, ⟨"kept/y".toList, []⟩, ⟨"other/z".toList, []⟩]
  folders := ["kept/".toList, "kept/old/".toList, "other/".toList]
  distinct := by decide
  plain := by decide
  relative := by decide

def sampleEntries : ADriveListedEntries :=
  ⟨[⟨"kept/old/x".toList, []⟩, ⟨"kept/y".toList, []⟩], [⟨"kept/old/".toList⟩]⟩

-- The source holds y alone.
def sampleDesired : SyncDesiredRelativePaths :=
  collectRemoteSyncDesired [] none none none ⟨[⟨"y".toList, []⟩], []⟩

theorem sample_clean : Clean sampleTree where
  files file hfile := by
    refine ⟨segments '/' file.filePath, ?_, plainNames_segments '/' _, ?_⟩
    · revert file
      decide
    · revert file
      decide
  folders folder hfolder := by
    refine ⟨segments '/' folder, ?_, plainNames_segments '/' _, ?_⟩
    · revert folder
      decide
    · revert folder
      decide

theorem sample_folder {dir : Text} : Folder '/' sampleTree.paths (destinationPrefix sampleDestination) dir ↔
    dir = "kept/".toList ∨ dir = "kept/old/".toList := by
  constructor
  · rintro ⟨hslash, hroot, k, hk, hpre⟩
    have hall : ∀ k ∈ sampleTree.paths, ∀ dir ∈ k.inits, ['/'] <:+ dir → "kept/".toList <+: dir →
      dir = "kept/".toList ∨ dir = "kept/old/".toList := by decide
    exact hall k hk dir ((List.mem_inits dir k).mpr hpre) hslash hroot
  · rintro (rfl | rfl)
    · exact ⟨by decide, by decide, "kept/".toList, by decide, by decide⟩
    · exact ⟨by decide, by decide, "kept/old/".toList, by decide, by decide⟩

theorem sample_listed : ListedExactly sampleTree (destinationPrefix sampleDestination)
    ["kept/".toList, "kept/old/".toList] sampleEntries where
  once := by decide
  scanned dir := by
    rw [sample_folder, show destinationPrefix sampleDestination = "kept/".toList from rfl]
    simp
  files := by
    have hbelow : sampleTree.below (destinationPrefix sampleDestination) = sampleEntries.files := by decide
    rw [hbelow]
  folders dir hroot := by
    rw [sample_folder]
    constructor
    · rintro ⟨folder, hfolder, rfl⟩
      exact .inr (by rw [List.mem_singleton.mp hfolder]; rfl)
    · rintro (rfl | rfl)
      · exact absurd rfl hroot
      · exact ⟨⟨"kept/old/".toList⟩, by decide, by decide⟩

theorem sync_delete_exact_sample : ∃ x, Run SyncDeleteRequest 2 (Exec.init (treeSpace sampleTree)
      (deleteGroups sampleArgs sampleDestination sampleDesired sampleEntries)) x ∧ x.Done ∧
    (∀ item, Event.finish item false ∉ x.log) ∧
    SyncDeleteCorrect sampleArgs sampleDestination sampleDesired sampleTree x := by
  have hparsed : parseAdriveUri sampleArgs.destination false = .ok sampleDestination := by decide
  have hact : ∀ item ∈ (deleteGroups sampleArgs sampleDestination sampleDesired sampleEntries).flatten, ∀ space,
      ∃ space', SyncDeleteRequest item space space' true := by
    intro item hitem space
    obtain ⟨entry, htarget, -⟩ := target_chosen (parsed_parts hparsed) sample_clean sample_listed hitem
    exact ⟨_, .sent entry space _ true htarget (.done space)⟩
  obtain ⟨x, hx, hdone, hok⟩ := @run_done _ _ _ 2 _ hact (treeSpace sampleTree) []
  refine ⟨x, hx, hdone, fun item h => (by cases hok item h), ?_⟩
  exact sync_delete_exact hparsed (.fromRemote [] none none none _) sample_clean sample_listed hx

end VeStorage.ADrive.Sync
