import VeStorage.ADrive.DirectoryUpload.Folders
import VeStorage.ADrive.Listing.Enumerate

namespace VeStorage.ADrive.Sync
open Lib
open Tos (CliError)
open DirectoryUpload (Job addRelativeFolderWithParents addRelativeFileParentFolders mem_addRelativeFile
  mem_accumulate mem_collectDesiredInner nil_plain rsplitOnce)
open Listing (FolderPrefix)

structure SyncDesiredRelativePaths where
  files : List Text
  folders : List Text

def remoteFolderRelativePath (folderPath rootPrefix : Text) : Text :=
  let folder := trim '/' folderPath
  let root := trim '/' rootPrefix
  if root = [] then folder
  else if folder = root then []
  else (stripPrefix (root ++ ['/']) folder).getD folder

-- The walk of the local source, whose folders the upload plans in the same way.
def collectLocalSyncDesired (j : Job) : SyncDesiredRelativePaths where
  files := ((j.tree.collectLocalFiles []).filter fun file => j.selected (file.1 ++ [file.2])).map
    fun file => j.relative (file.1 ++ [file.2])
  folders := j.collectLocalSyncDesiredFolders

section Remote

variable (sourcePrefix : Text) (parentPrefix includePattern excludePattern : Option Text)

def collectRemoteSyncDesired (entries : ADriveListedEntries) : SyncDesiredRelativePaths :=
  let files := (entries.files.map fun file =>
    recursiveAdriveRelativePath file.filePath sourcePrefix parentPrefix).filter fun relative =>
      pathMatchesFilters relative includePattern excludePattern
  let folders := (entries.folders.map fun folder =>
    prependAdriveParentPrefix (remoteFolderRelativePath folder.folder sourcePrefix) parentPrefix).filter
      fun relative => relative ≠ [] ∧ pathMatchesFilters relative includePattern excludePattern = true
  ⟨files, files.flatMap addRelativeFileParentFolders ++ folders.flatMap addRelativeFolderWithParents⟩

end Remote

inductive DeleteOperation where
  | extraFile
  | extraFolder
deriving DecidableEq, Repr

structure SyncDeleteItem where
  operation : DeleteOperation
  source : Text
deriving DecidableEq

structure SyncArgs where
  destination : Text
  includePattern : Option Text
  excludePattern : Option Text

section Plan

variable (args : SyncArgs) (destination : ParsedADriveUri) (desired : SyncDesiredRelativePaths)

def SyncArgs.matchesFilters (relative : Text) : Bool :=
  pathMatchesFilters relative args.includePattern args.excludePattern

def itemSource (path : Text) : Text :=
  adriveScheme ++ (destination.inst ++ '/' :: (destination.space ++ '/' :: path))

def extraFile (path : Text) : Prop :=
  let relative := remoteRelativePath path (trimFolderPrefix destination.path)
  args.matchesFilters relative = true ∧ relative ∉ desired.files

instance (path : Text) : Decidable (extraFile args destination desired path) :=
  inferInstanceAs (Decidable (_ ∧ _))

def extraFolder (path : Text) : Prop :=
  let relative := remoteFolderRelativePath path (trimFolderPrefix destination.path)
  relative ≠ [] ∧ args.matchesFilters relative = true ∧ relative ∉ desired.folders

instance (path : Text) : Decidable (extraFolder args destination desired path) :=
  inferInstanceAs (Decidable (_ ∧ _))

def appendAdriveExtraFolderDeleteItems (plan : List SyncDeleteItem) (folders : List FolderInfo) :
    List SyncDeleteItem :=
  plan ++ (folders.filter fun folder => extraFolder args destination desired folder.folder).map fun folder =>
    ⟨.extraFolder, itemSource destination (normalizeAdriveFolderPath folder.folder)⟩

def adriveSyncDeleteSortPath (item : SyncDeleteItem) : Text :=
  match parseAdriveUri item.source false with
  | .ok target => target.path
  | .error _ => item.source

def syncDeleteRank (item : SyncDeleteItem) : ℕᵒᵈ ×ₗ ℕᵒᵈ ×ₗ Text :=
  let path := adriveSyncDeleteSortPath item
  toLex (OrderDual.toDual (adrivePathDepth path), toLex (OrderDual.toDual (byteCount path), path))

def sortAdriveSyncDeletePlanBottomUp (items : List SyncDeleteItem) : List SyncDeleteItem :=
  sortOn syncDeleteRank items

-- The plan against an ADrive destination; both kinds of source end in the same one.
def buildAdriveDeletePlan (entries : ADriveListedEntries) : List SyncDeleteItem :=
  sortAdriveSyncDeletePlanBottomUp (appendAdriveExtraFolderDeleteItems args destination desired
    ((entries.files.filter fun file => extraFile args destination desired file.filePath).map fun file =>
      ⟨.extraFile, itemSource destination file.filePath⟩) entries.folders)

def adriveSyncDeleteItemDepth (item : SyncDeleteItem) : Nat := adrivePathDepth (adriveSyncDeleteSortPath item)

def executeAdriveSyncDeletePlan (plan : List SyncDeleteItem) : List (List SyncDeleteItem) :=
  let plan := sortAdriveSyncDeletePlanBottomUp plan
  plan.filter (fun item => item.operation ≠ .extraFolder) ::
    levels adriveSyncDeleteItemDepth
      (sortAdriveSyncDeletePlanBottomUp (plan.filter fun item => item.operation = .extraFolder))

def parseFileTarget (target : ParsedADriveUri) : Except CliError ParsedADriveUri :=
  if target.path = [] ∨ ['/'] <:+ target.path then
    .error (.validationError ("target must be an ADrive file path: ".toList ++ formatTarget target))
  else .ok target

def deleteTarget (item : SyncDeleteItem) : Except CliError ADriveDeleteEntry :=
  match parseAdriveUri item.source false with
  | .error e => .error e
  | .ok target =>
      match item.operation with
      | .extraFolder => .ok (.folder (normalizeAdriveFolderPath target.path))
      | .extraFile => (parseFileTarget target).map fun target => .file target.path

inductive SyncDeleteRequest (item : SyncDeleteItem) : Space → Space → Bool → Prop
  | refused (space) : SyncDeleteRequest item space space false
  | sent (entry space space' ok) (htarget : deleteTarget item = .ok entry)
      (hrequest : DeleteRequest entry space space' ok) : SyncDeleteRequest item space space' ok

end Plan

section Names

variable {names rest ms : List Text} {e f p D : Text}

theorem join_split {g r : Text} (h : PlainNames '/' names) (he : join '/' names = g ++ '/' :: r) :
    ∃ a b, names = a ++ b ∧ PlainNames '/' a ∧ PlainNames '/' b ∧ g = join '/' a ∧ r = join '/' b ∧
      a ≠ [] ∧ b ≠ [] := by
  have hsplit := join_splits h he
  refine ⟨g.splitOn '/', r.splitOn '/', hsplit, ?_, ?_, (List.intercalate_splitOn '/').symm,
    (List.intercalate_splitOn '/').symm, ?_, ?_⟩
  · exact h.of_subset (by rw [hsplit]; exact List.subset_append_left _ _)
  · exact h.of_subset (by rw [hsplit]; exact List.subset_append_right _ _)
  · exact List.length_pos_iff.mp (splitOn_length_pos '/' g)
  · exact List.length_pos_iff.mp (splitOn_length_pos '/' r)

theorem join_inj_plain (h : PlainNames '/' names) (h' : PlainNames '/' rest) (he : join '/' names = join '/' rest) :
    names = rest := by
  rw [← segments_join h, he, segments_join h']

theorem join_ne (h : PlainNames '/' names) (hne : names ≠ []) : join '/' names ≠ [] :=
  join_ne_nil hne fun name hn => (h name hn).2

theorem trim_append_self (t : Text) : trim '/' (t ++ ['/']) = trim '/' t := by
  induction t with
  | nil => rfl
  | cons c cs ih =>
    rcases eq_or_ne c '/' with rfl | hc
    · unfold trim at ih ⊢
      rw [List.cons_append, trimStart_cons_self, trimStart_cons_self]
      exact ih
    · unfold trim
      rw [List.cons_append, trimStart_of_head_ne hc, trimStart_of_head_ne hc, ← List.cons_append, trimEnd_append_self]

theorem trim_slash (h : PlainNames '/' names) : trim '/' (join '/' names ++ ['/']) = join '/' names := by
  rw [trim_append_self, trim_join h]

theorem segments_behind {E : Text} (h : PlainNames '/' names) (he : E = join '/' names) :
    segments '/' (E ++ ['/']) = names := by
  have hsplit := segments_append '/' E []
  rw [he, segments_join h] at hsplit
  rw [he, hsplit]
  exact List.append_nil names

theorem below_names (h : PlainNames '/' names) (hD : FolderPrefix D) (hp : D <+: join '/' names) :
    ∃ rest, names = segments '/' D ++ rest ∧ remoteRelativePath (join '/' names) D = join '/' rest := by
  rcases hD with rfl | ⟨E, rfl⟩
  · exact ⟨names, rfl, (remoteRelativePath_append [] _).trans (trimStart_join h)⟩
  · obtain ⟨r, hr⟩ := hp
    have he : join '/' names = E ++ '/' :: r := by rw [← hr, List.append_assoc]; rfl
    obtain ⟨a, b, rfl, ha, hb, hE, rfl, -, -⟩ := join_split h he
    refine ⟨b, by rw [segments_behind ha hE], ?_⟩
    rw [← hr, remoteRelativePath_append, trimStart_join hb]

theorem trim_folder (h : PlainNames '/' names) (hf : trimFolderPrefix f = join '/' names ++ ['/']) :
    trim '/' f = join '/' names := by
  unfold trimFolderPrefix at hf
  split at hf
  · rw [hf, trim_slash h]
  · rw [List.append_cancel_right hf, trim_join h]

theorem folder_names (h : PlainNames '/' names) (hne : names ≠ []) (hf : trimFolderPrefix f = join '/' names ++ ['/'])
    (hD : FolderPrefix D) (hp : D <+: join '/' names ++ ['/']) (hroot : join '/' names ++ ['/'] ≠ D) :
    ∃ rest, rest ≠ [] ∧ names = segments '/' D ++ rest ∧ remoteFolderRelativePath f D = join '/' rest := by
  unfold remoteFolderRelativePath
  rw [trim_folder h hf]
  rcases hD with rfl | ⟨E, rfl⟩
  · exact ⟨names, hne, rfl, rfl⟩
  · have hE : E ++ ['/'] <+: join '/' names := (List.prefix_concat_iff.mp hp).resolve_left fun he => hroot he.symm
    obtain ⟨u, hu⟩ := hE
    have he : join '/' names = E ++ '/' :: u := by rw [← hu, List.append_assoc]; rfl
    obtain ⟨a, b, rfl, ha, hb, hEa, rfl, hane, hbne⟩ := join_split h he
    have htrim : trim '/' (E ++ ['/']) = E := by rw [hEa, trim_slash ha]
    have hEne : E ≠ [] := hEa ▸ join_ne ha hane
    have hlonger : join '/' (a ++ b) ≠ E := fun hself => by
      have hlength := congrArg List.length (he.symm.trans hself)
      simp at hlength
    refine ⟨b, hbne, by rw [segments_behind ha hEa], ?_⟩
    dsimp only
    rw [htrim, if_neg hEne, if_neg hlonger, ← hu, stripPrefix_append]
    rfl

theorem above_names (h : PlainNames '/' names) (h' : PlainNames '/' rest)
    (hb : join '/' names ++ ['/'] <+: join '/' rest) : names <+: rest ∧ names ≠ rest := by
  obtain ⟨r, hr⟩ := hb
  have he : join '/' rest = join '/' names ++ '/' :: r := by rw [← hr, List.append_assoc]; rfl
  obtain ⟨a, b, rfl, ha, -, hj, -, -, hbne⟩ := join_split h' he
  obtain rfl := join_inj_plain h ha hj
  refine ⟨List.prefix_append names b, fun hself => hbne ?_⟩
  exact List.append_cancel_left (hself.symm.trans (List.append_nil names).symm)

end Names

section Closed

def PrefixClosed (l : List Text) : Prop := ∀ rest, PlainNames '/' rest → join '/' rest ∈ l →
  ∀ ms, ms ≠ [] → ms <+: rest → join '/' ms ∈ l

variable {l l' : List Text}

theorem PrefixClosed.nil : PrefixClosed [] := fun _ _ h => by cases h

theorem PrefixClosed.append (h : PrefixClosed l) (h' : PrefixClosed l') : PrefixClosed (l ++ l') := by
  intro rest hrest hmem ms hms hpre
  rcases List.mem_append.mp hmem with hmem | hmem
  · exact List.mem_append_left _ (h rest hrest hmem ms hms hpre)
  · exact List.mem_append_right _ (h' rest hrest hmem ms hms hpre)

theorem PrefixClosed.flatMap {I : Type} {items : List I} {f : I → List Text} (h : ∀ i ∈ items, PrefixClosed (f i)) :
    PrefixClosed (items.flatMap f) := by
  intro rest hrest hmem ms hms hpre
  obtain ⟨i, hi, hmem⟩ := List.mem_flatMap.mp hmem
  exact List.mem_flatMap.mpr ⟨i, hi, h i hi rest hrest hmem ms hms hpre⟩

theorem folderWithParents_closed (path : Text) : PrefixClosed (addRelativeFolderWithParents path) := by
  intro rest hrest hmem ms hms hpre
  have hplain := plainNames_segments '/' (trim '/' path)
  obtain ⟨done, -, hdone, hsame⟩ := (mem_accumulate nil_plain hplain).mp hmem
  have hdonePlain : PlainNames '/' done := hplain.of_subset hdone.subset
  obtain rfl := join_inj_plain hrest hdonePlain hsame
  exact (mem_accumulate nil_plain hplain).mpr ⟨ms, hms, hpre.trans hdone, rfl⟩

theorem fileParents_closed (path : Text) : PrefixClosed (addRelativeFileParentFolders path) := by
  unfold addRelativeFileParentFolders
  cases rsplitOnce (trim '/' path) with
  | none => exact .nil
  | some split => exact folderWithParents_closed split.1

-- What is kept at the destination is kept together with the folders above it.
structure Closed (desired : SyncDesiredRelativePaths) : Prop where
  files : ∀ path ∈ desired.files, addRelativeFileParentFolders path ⊆ desired.folders
  folders : PrefixClosed desired.folders

theorem Closed.above {desired : SyncDesiredRelativePaths} (h : Closed desired) {rest ms : List Text}
    (hrest : PlainNames '/' rest) (hmem : join '/' rest ∈ desired.files) (hms : ms ≠ []) (hpre : ms <+: rest)
    (hne : ms ≠ rest) : join '/' ms ∈ desired.folders := by
  rcases List.eq_nil_or_concat rest with rfl | ⟨before, n, rfl⟩
  · exact absurd (List.prefix_nil.mp hpre) hms
  · rw [List.concat_eq_append] at hrest hmem hpre hne
    have hbefore : ms <+: before := (List.prefix_concat_iff.mp hpre).resolve_left hne
    exact h.files _ hmem ((mem_addRelativeFile hrest).mpr ⟨ms, hms, hbefore, rfl⟩)

theorem collectRemoteSyncDesired_closed (sourcePrefix : Text)
    (parentPrefix includePattern excludePattern : Option Text) (entries : ADriveListedEntries) :
    Closed (collectRemoteSyncDesired sourcePrefix parentPrefix includePattern excludePattern entries) where
  files path hpath := fun _ hx => List.mem_append_left _ (List.mem_flatMap.mpr ⟨path, hpath, hx⟩)
  folders := (PrefixClosed.flatMap fun path _ => fileParents_closed path).append
    (PrefixClosed.flatMap fun path _ => folderWithParents_closed path)

theorem collectDesiredInner_closed (j : Job) (forest : DirectoryUpload.Forest) (names : List Text) :
    PrefixClosed (j.collectDesiredInner names forest) := by
  induction forest generalizing names with
  | nil => exact .nil
  | file name rest ih =>
    refine PrefixClosed.append ?_ (ih names)
    split
    · exact fileParents_closed _
    · exact .nil
  | dir name children rest ihc ih =>
    refine PrefixClosed.append ?_ ((ihc (names ++ [name])).append (ih names))
    split
    · exact folderWithParents_closed _
    · exact .nil
  | other name rest ih => exact ih names

theorem collectLocalSyncDesired_closed (j : Job) : Closed (collectLocalSyncDesired j) where
  files path hpath x hx := by
    obtain ⟨file, hfile, rfl⟩ := List.mem_map.mp hpath
    obtain ⟨hfile, hselected⟩ := List.mem_filter.mp hfile
    refine List.mem_append_right _ ((mem_collectDesiredInner j j.tree []).mpr (.inr ?_))
    exact ⟨file.1, file.2, hfile, hselected, hx⟩
  folders := by
    refine PrefixClosed.append ?_ (collectDesiredInner_closed j j.tree [])
    cases j.parent with
    | none => exact .nil
    | some parent => exact folderWithParents_closed parent

end Closed

end VeStorage.ADrive.Sync
