import VeStorage.ADrive.Plan
import VeStorage.Tos.Mapping

namespace VeStorage.ADrive.Mapping
open Lib
open Tos (CliError FileName RelPath pathComponents pathJoin)
open Tos.Mapping (plainSegments pathComponents_join)

section Planners

variable (t : Task) (relative place : Text → Text)

-- With a manifest the files are listed and filtered before they are placed.
def manifestPairs (files : List Text) : List (Text × Text) :=
  (files.filterMap fun file =>
    if t.matchesFilters (relative file) then some (file, relative file) else none).map
      fun pair => (pair.1, place pair.2)

def streamPair (file : Text) : Option (Text × Text) :=
  if t.matchesFilters (relative file) then some (file, place (relative file)) else none

def desiredPaths (files : List Text) : List Text :=
  (files.map relative).filter fun path => t.matchesFilters path

theorem manifestPairs_eq (files : List Text) :
    manifestPairs t relative place files = files.filterMap (streamPair t relative place) := by
  rw [manifestPairs, List.map_filterMap]
  refine List.filterMap_congr fun file _ => ?_
  rw [streamPair]
  split <;> rfl

end Planners

section Source

variable (t : Task) (source destination : SpaceTarget) (destinationRoot : Text)

-- A local file is the text of its path below the source directory.
def uploadDirectoryRecursive : List Text → List (Text × Text) :=
  manifestPairs t (fun file => prependAdriveParentPrefix file t.parentPrefix)
    (joinRemotePath destination.path)

def queueAdriveUploadFile : Text → Option (Text × Text) :=
  streamPair t (fun file => prependAdriveParentPrefix file t.parentPrefix)
    (joinRemotePath destination.path)

def queueAdriveUploadMoveFile : Text → Option (Text × Text) :=
  streamPair t (fun file => prependAdriveParentPrefix file t.parentPrefix)
    (joinRemotePath destination.path)

def collectLocalSyncDesiredRelativePaths : List Text → List Text :=
  desiredPaths t fun file => prependAdriveParentPrefix file t.parentPrefix

def downloadDirectoryRecursive : List Text → List (Text × Text) :=
  manifestPairs t
    (fun file => recursiveAdriveRelativePath file (trimFolderPrefix source.path) t.parentPrefix)
    (pathJoin destinationRoot)

def queueAdriveDownloadFile : Text → Option (Text × Text) :=
  streamPair t
    (fun file => prependAdriveParentPrefix
      (remoteRelativePath file (trimFolderPrefix source.path)) t.parentPrefix)
    (pathJoin destinationRoot)

def queueAdriveDownloadMoveFile : Text → Option (Text × Text) :=
  streamPair t
    (fun file => prependAdriveParentPrefix
      (remoteRelativePath file (trimFolderPrefix source.path)) t.parentPrefix)
    (pathJoin destinationRoot)

-- `build_local_delete_plan_for_adrive_source` collects the same set.
def collectRemoteSyncDesiredRelativePaths : List Text → List Text :=
  desiredPaths t fun file =>
    recursiveAdriveRelativePath file (trimFolderPrefix source.path) t.parentPrefix

def copyRemoteRecursive : List Text → List (Text × Text) :=
  manifestPairs t
    (fun file => recursiveAdriveRelativePath file (trimFolderPrefix source.path) t.parentPrefix)
    (joinRemotePath destination.path)

def queueAdriveRemoteCopyFile : Text → Option (Text × Text) :=
  streamPair t
    (fun file => prependAdriveParentPrefix
      (remoteRelativePath file (trimFolderPrefix source.path)) t.parentPrefix)
    (joinRemotePath destination.path)

def queueAdriveRemoteMoveFile : Text → Option (Text × Text) :=
  streamPair t
    (fun file => prependAdriveParentPrefix
      (remoteRelativePath file (trimFolderPrefix source.path)) t.parentPrefix)
    (joinRemotePath destination.path)

-- The path by which a later sync knows a local file again, as the walk of its directory names it.
def localRelative (path : Text) : Option Text :=
  if (pathComponents path).1 = (pathComponents destinationRoot).1 then
    ((stripPrefix (pathComponents destinationRoot).2 (pathComponents path).2).filter
      fun names => decide (names ≠ [] ∧ ∀ name ∈ names, FileName name)).map ['/'].intercalate
  else none

def destinationRelative (path : Text) : Option Text :=
  some (remoteRelativePath path (trimFolderPrefix destination.path))

end Source

section Endpoints

variable (t : Task)

def relativeOf (file : Text) : Text :=
  match t.endpoints with
  | .upload _ _ => prependAdriveParentPrefix file t.parentPrefix
  | .download source _ => recursiveAdriveRelativePath file (trimFolderPrefix source.path) t.parentPrefix
  | .remoteCopy source _ => recursiveAdriveRelativePath file (trimFolderPrefix source.path) t.parentPrefix

def manifestOf : List Text → List (Text × Text) :=
  match t.endpoints with
  | .upload _ destination => uploadDirectoryRecursive t destination
  | .download source destinationRoot => downloadDirectoryRecursive t source destinationRoot
  | .remoteCopy source destination => copyRemoteRecursive t source destination

def streamOf : Text → Option (Text × Text) :=
  match t.endpoints with
  | .upload _ destination => queueAdriveUploadFile t destination
  | .download source destinationRoot => queueAdriveDownloadFile t source destinationRoot
  | .remoteCopy source destination => queueAdriveRemoteCopyFile t source destination

def moveOf : Text → Option (Text × Text) :=
  match t.endpoints with
  | .upload _ destination => queueAdriveUploadMoveFile t destination
  | .download source destinationRoot => queueAdriveDownloadMoveFile t source destinationRoot
  | .remoteCopy source destination => queueAdriveRemoteMoveFile t source destination

def desiredOf : List Text → List Text :=
  match t.endpoints with
  | .upload _ _ => collectLocalSyncDesiredRelativePaths t
  | .download source _ => collectRemoteSyncDesiredRelativePaths t source
  | .remoteCopy source _ => collectRemoteSyncDesiredRelativePaths t source

def foundOf : Text → Option Text :=
  match t.endpoints with
  | .upload _ destination => destinationRelative destination
  | .download _ destinationRoot => localRelative destinationRoot
  | .remoteCopy _ destination => destinationRelative destination

def SameDestination (a b : Text) : Prop :=
  match t.endpoints with
  | .download _ _ => pathComponents a = pathComponents b
  | _ => a = b

def Inside (path : Text) : Prop :=
  match t.endpoints with
  | .download _ destinationRoot => ∃ names, names ≠ [] ∧ "..".toList ∉ names ∧
      pathComponents path = ((pathComponents destinationRoot).1, (pathComponents destinationRoot).2 ++ names)
  | _ => True

structure WellMapped (files : List Text) : Prop where
  stream : manifestOf t files = files.filterMap (streamOf t)
  move : manifestOf t files = files.filterMap (moveOf t)
  known : ∀ pair ∈ manifestOf t files,
    foundOf t pair.2 = some (relativeOf t pair.1) ∧ relativeOf t pair.1 ∈ desiredOf t files
  injective : ∀ a ∈ manifestOf t files, ∀ b ∈ manifestOf t files, a.1 ≠ b.1 → ¬ SameDestination t a.2 b.2
  inside : ∀ pair ∈ manifestOf t files, Inside t pair.2

-- What the walk or the listing hands on.
def SourceFile (file : Text) : Prop :=
  match t.endpoints with
  | .upload _ _ => ∃ rel : RelPath, rel.names ≠ [] ∧ file = rel.text
  | .download source _ => source.lists source.inst source.space file
  | .remoteCopy source _ => source.lists source.inst source.space file

end Endpoints

section Condition

variable (t : Task) (files : List Text)

def Selected (file : Text) : Prop := file ∈ files ∧ t.matchesFilters (relativeOf t file) = true

-- What stands behind the source prefix and the slashes after it.
def tailOf (file : Text) : Text :=
  match t.endpoints with
  | .upload _ _ => file
  | .download source _ => trimStart '/' (file.drop (trimFolderPrefix source.path).length)
  | .remoteCopy source _ => trimStart '/' (file.drop (trimFolderPrefix source.path).length)

-- No two files differ only by the slashes directly behind the prefix.
def Apart : Prop := ∀ a b, Selected t files a → Selected t files b → a ≠ b → tailOf t a ≠ tailOf t b

def Plain : Prop := ∀ file, Selected t files file →
  (∀ name ∈ (tailOf t file).splitOn '/', FileName name) ∧ ∀ parent ∈ t.parentPrefix, FileName parent

-- Slashes only, or no slash in front and at most one behind.
def FolderPath (path : Text) : Prop := trim '/' path = [] ∨ trimFolderPrefix path = trim '/' path ++ ['/']

def Mappable : Prop :=
  match t.endpoints with
  | .upload _ destination => (∃ file, Selected t files file) → FolderPath destination.path
  | .download _ _ => Plain t files ∧ Apart t files
  | .remoteCopy _ destination =>
      ((∃ file, Selected t files file) → FolderPath destination.path) ∧ Apart t files

end Condition

section Remote

theorem length_trim_lt {path : Text} (h : ['/'] <:+ path) : (trim '/' path).length < path.length := by
  obtain ⟨rest, rfl⟩ := h
  obtain ⟨m, n, he, -, hlast⟩ := Tos.Mapping.trim_ends (rest ++ ['/'])
  have hlength := congrArg List.length he
  simp only [List.length_append, List.length_replicate, List.length_singleton] at hlength
  rw [List.length_append, List.length_singleton]
  by_contra hle
  have hn : n = 0 := by omega
  have hm : m = 0 := by omega
  rw [hn, hm, List.replicate_zero, List.nil_append, List.append_nil] at he
  exact hlast ⟨rest, he⟩

theorem length_trim_le (path : Text) : (trim '/' path).length ≤ path.length := by
  obtain ⟨m, n, he, -⟩ := Tos.Mapping.trim_ends path
  have hlength := congrArg List.length he
  rw [List.length_append, List.length_append] at hlength
  omega

theorem length_trimFolderPrefix (path : Text) (h : trim '/' path ≠ []) :
    (trim '/' path).length + 1 ≤ (trimFolderPrefix path).length := by
  unfold trimFolderPrefix
  split
  next hp =>
    rcases hp with rfl | hp
    · exact absurd rfl h
    · exact length_trim_lt hp
  next hp =>
    have hle := length_trim_le path
    rw [List.length_append, List.length_singleton]
    omega

theorem mem_trimFolderPrefix {path : Text} (h : trim '/' path = []) : ∀ c ∈ trimFolderPrefix path, c = '/' := by
  obtain ⟨m, n, he, -⟩ := Tos.Mapping.trim_ends path
  rw [h, List.nil_append] at he
  have hpath : ∀ c ∈ path, c = '/' := by
    intro c hc
    rw [he, List.mem_append] at hc
    exact hc.elim List.eq_of_mem_replicate List.eq_of_mem_replicate
  intro c hc
  unfold trimFolderPrefix at hc
  split at hc
  · exact hpath c hc
  · rcases List.mem_append.mp hc with hc | hc
    · exact hpath c hc
    · exact List.mem_singleton.mp hc

-- A file is found again below the destination by the relative path that placed it there.
theorem destinationRelative_iff {path rel : Text} (hrel : trimStart '/' rel = rel) (hne : rel ≠ []) :
    remoteRelativePath (joinRemotePath path rel) (trimFolderPrefix path) = rel ↔ FolderPath path := by
  have hjoin : joinRemotePath path rel = joinBase path ++ rel := by
    rw [joinRemotePath_eq path (by rwa [hrel]), hrel]
  rw [hjoin, FolderPath]
  by_cases hp : trim '/' path = []
  · have hbase : joinBase path = [] := if_pos hp
    rw [hbase, List.nil_append]
    refine iff_of_true ?_ (.inl hp)
    rw [remoteRelativePath]
    cases hs : stripPrefix (trimFolderPrefix path) rel with
    | none => exact hrel
    | some rest =>
      have hwhole := stripPrefix_eq_some.mp hs
      cases hpre : trimFolderPrefix path with
      | nil =>
        rw [hpre, List.nil_append] at hwhole
        rw [Option.getD_some, ← hwhole, hrel]
      | cons c cs =>
        have hc : c = '/' := mem_trimFolderPrefix hp c (by rw [hpre]; exact List.mem_cons_self)
        rw [hpre, hc] at hwhole
        exact absurd rfl (head_trimStart '/' '/' rel (cs ++ rest) (hrel.trans hwhole))
  · have hbase : joinBase path = trim '/' path ++ ['/'] := if_neg hp
    have hlength := length_trimFolderPrefix path hp
    rw [or_iff_right hp, hbase]
    constructor
    · intro h
      rw [remoteRelativePath] at h
      cases hs : stripPrefix (trimFolderPrefix path) (trim '/' path ++ ['/'] ++ rel) with
      | none =>
        rw [hs, Option.getD_none, ← hbase, trimStart_joinBase path rel hrel, hbase] at h
        have hlen := congrArg List.length h
        rw [List.length_append, List.length_append, List.length_singleton] at hlen
        omega
      | some rest =>
        rw [hs, Option.getD_some] at h
        have hwhole := stripPrefix_eq_some.mp hs
        have hrest : rel.length ≤ rest.length := by
          rw [← h]
          exact (List.dropWhile_suffix _).length_le
        have hlen := congrArg List.length hwhole
        rw [List.length_append, List.length_append, List.length_append, List.length_singleton] at hlen
        exact (List.append_inj_left' hwhole (by omega)).symm
    · intro h
      rw [h, remoteRelativePath_append, hrel]

end Remote

section Local

variable {root rel : Text}

theorem clean_names (h : ∀ name ∈ rel.splitOn '/', FileName name) :
    pathComponents (pathJoin root rel) =
      ((pathComponents root).1, (pathComponents root).2 ++ rel.splitOn '/') := by
  have htext : (RelPath.mk (rel.splitOn '/') h).text = rel := List.intercalate_splitOn '/'
  have hr := (RelPath.mk (rel.splitOn '/') h).text_relative
  rw [htext] at hr
  by_cases hb : root = []
  · have hcomponents := (RelPath.mk (rel.splitOn '/') h).components
    rw [htext] at hcomponents
    rw [hb, pathJoin, if_neg hr, if_pos (.inl rfl), List.nil_append, hcomponents]
    rfl
  · have hsegments := (RelPath.mk (rel.splitOn '/') h).segments_text
    rw [htext] at hsegments
    have hplain : plainSegments rel = rel.splitOn '/' := by
      rw [plainSegments, hsegments, List.filter_eq_self]
      exact fun name hname => decide_eq_true (h name hname).2.2.1
    rw [pathComponents_join hb hr, hplain]

theorem localRelative_iff :
    localRelative root (pathJoin root rel) = some rel ↔ ∀ name ∈ rel.splitOn '/', FileName name := by
  rw [localRelative]
  constructor
  · intro h
    split at h
    · obtain ⟨names, hnames, htext⟩ := Option.map_eq_some_iff.mp h
      obtain ⟨-, hok⟩ := Option.filter_eq_some_iff.mp hnames
      obtain ⟨hne, hall⟩ := of_decide_eq_true hok
      have hsplit := List.splitOn_intercalate '/' (fun n hm => (hall n hm).2.1) hne
      rw [htext] at hsplit
      rwa [hsplit]
    · cases h
  · intro h
    rw [clean_names h, if_pos rfl, stripPrefix_append, Option.filter_some, if_pos, Option.map_some,
      List.intercalate_splitOn]
    exact decide_eq_true ⟨List.splitOn_ne_nil _ _, h⟩

end Local

section Files

variable {t : Task} {files : List Text} {file a b : Text} {pair : Text × Text}

def placeOf (t : Task) (relative : Text) : Text :=
  match t.endpoints with
  | .upload _ destination => joinRemotePath destination.path relative
  | .download _ destinationRoot => pathJoin destinationRoot relative
  | .remoteCopy _ destination => joinRemotePath destination.path relative

theorem manifestOf_eq (t : Task) : manifestOf t = manifestPairs t (relativeOf t) (placeOf t) := by
  unfold manifestOf relativeOf placeOf
  cases t.endpoints <;> rfl

theorem streamOf_eq (t : Task) : streamOf t = streamPair t (relativeOf t) (placeOf t) := by
  unfold streamOf relativeOf placeOf
  cases t.endpoints <;> rfl

theorem moveOf_eq (t : Task) : moveOf t = streamPair t (relativeOf t) (placeOf t) := by
  unfold moveOf relativeOf placeOf
  cases t.endpoints <;> rfl

theorem desiredOf_eq (t : Task) : desiredOf t = desiredPaths t (relativeOf t) := by
  unfold desiredOf relativeOf
  cases t.endpoints <;> rfl

theorem mem_manifestOf : pair ∈ manifestOf t files ↔
    Selected t files pair.1 ∧ pair.2 = placeOf t (relativeOf t pair.1) := by
  rw [manifestOf_eq, manifestPairs_eq, List.mem_filterMap]
  constructor
  · rintro ⟨file, hfile, hpair⟩
    rw [streamPair] at hpair
    split at hpair
    next hmatch =>
      cases hpair
      exact ⟨⟨hfile, hmatch⟩, rfl⟩
    · cases hpair
  · rintro ⟨⟨hfile, hmatch⟩, hplace⟩
    refine ⟨pair.1, hfile, ?_⟩
    rw [streamPair, if_pos hmatch, ← hplace]

theorem mem_desiredOf (h : Selected t files file) : relativeOf t file ∈ desiredOf t files := by
  rw [desiredOf_eq, desiredPaths, List.mem_filter]
  exact ⟨List.mem_map_of_mem h.1, h.2⟩

def ParentOk (t : Task) : Prop := ∀ p ∈ t.parentPrefix, p ≠ [] ∧ '/' ∉ p

theorem listed_relative {source : SpaceTarget} (h : source.lists source.inst source.space file) :
    recursiveAdriveRelativePath file (trimFolderPrefix source.path) t.parentPrefix =
        parentBase t.parentPrefix ++ trimStart '/' (file.drop (trimFolderPrefix source.path).length) ∧
      trimStart '/' (file.drop (trimFolderPrefix source.path).length) ≠ [] := by
  obtain ⟨r, rfl, hr⟩ := lists_tail h
  rw [List.drop_left]
  refine ⟨?_, hr⟩
  rw [recursiveAdriveRelativePath, remoteRelativePath_append,
    prependAdriveParentPrefix_eq _ (trimStart_idem _ _) hr]

theorem sourceFile_relative (h : SourceFile t file) :
    relativeOf t file = parentBase t.parentPrefix ++ tailOf t file ∧ tailOf t file ≠ [] ∧
      trimStart '/' (tailOf t file) = tailOf t file := by
  unfold SourceFile at h
  unfold relativeOf tailOf
  cases he : t.endpoints with
  | upload root destination =>
    rw [he] at h
    obtain ⟨rel, hne, rfl⟩ := h
    have htrim := RelPath_text_trim rel
    exact ⟨prependAdriveParentPrefix_eq _ htrim (RelPath_text_ne hne), RelPath_text_ne hne, htrim⟩
  | download source root =>
    rw [he] at h
    obtain ⟨heq, hne⟩ := @listed_relative t _ _ h
    exact ⟨heq, hne, trimStart_idem _ _⟩
  | remoteCopy source destination =>
    rw [he] at h
    obtain ⟨heq, hne⟩ := @listed_relative t _ _ h
    exact ⟨heq, hne, trimStart_idem _ _⟩

theorem relativeOf_facts (h : SourceFile t file) :
    relativeOf t file ≠ [] ∧ trimStart '/' (relativeOf t file) = relativeOf t file := by
  obtain ⟨heq, hne, htrim⟩ := sourceFile_relative h
  rw [heq]
  constructor
  · simp [hne]
  · rw [← prependAdriveParentPrefix_eq t.parentPrefix htrim hne, trimStart_prepend _ htrim hne,
      prependAdriveParentPrefix_eq t.parentPrefix htrim hne]

theorem relativeOf_inj (ha : SourceFile t a) (hb : SourceFile t b) :
    relativeOf t a = relativeOf t b ↔ tailOf t a = tailOf t b := by
  rw [(sourceFile_relative ha).1, (sourceFile_relative hb).1, List.append_cancel_left_eq]

theorem clean_iff (hp : ParentOk t) (h : SourceFile t file) :
    (∀ name ∈ (relativeOf t file).splitOn '/', FileName name) ↔
      (∀ name ∈ (tailOf t file).splitOn '/', FileName name) ∧
        ∀ parent ∈ t.parentPrefix, FileName parent := by
  rw [(sourceFile_relative h).1]
  cases hparent : t.parentPrefix with
  | none => simp [parentBase]
  | some p =>
    obtain ⟨hne, hfree⟩ := hp p hparent
    have htrim := Tos.Mapping.trim_of_free hfree
    have hbase : parentBase (some p) = p ++ ['/'] := by
      rw [parentBase, Option.map_some, Option.getD_some, joinBase, if_neg (by rwa [htrim]), htrim]
    have hsplit : (p ++ ['/'] ++ tailOf t file).splitOn '/' = p :: (tailOf t file).splitOn '/' := by
      rw [List.append_assoc, List.singleton_append, List.splitOn_append_cons_self_of_not_mem hfree]
    rw [hbase, hsplit]
    simp [and_comm]

theorem wellMapped_of (known : ∀ file, Selected t files file →
      foundOf t (placeOf t (relativeOf t file)) = some (relativeOf t file))
    (injective : ∀ a b, Selected t files a → Selected t files b → a ≠ b →
      ¬ SameDestination t (placeOf t (relativeOf t a)) (placeOf t (relativeOf t b)))
    (inside : ∀ file, Selected t files file → Inside t (placeOf t (relativeOf t file))) :
    WellMapped t files where
  stream := by rw [manifestOf_eq, streamOf_eq, manifestPairs_eq]
  move := by rw [manifestOf_eq, moveOf_eq, manifestPairs_eq]
  known pair hpair := by
    obtain ⟨hs, heq⟩ := mem_manifestOf.mp hpair
    rw [heq]
    exact ⟨known pair.1 hs, mem_desiredOf hs⟩
  injective a ha b hb hne := by
    obtain ⟨hsa, hpa⟩ := mem_manifestOf.mp ha
    obtain ⟨hsb, hpb⟩ := mem_manifestOf.mp hb
    rw [hpa, hpb]
    exact injective a.1 b.1 hsa hsb hne
  inside pair hpair := by
    obtain ⟨hs, heq⟩ := mem_manifestOf.mp hpair
    rw [heq]
    exact inside pair.1 hs

theorem WellMapped.found (h : WellMapped t files) (hs : Selected t files file) :
    foundOf t (placeOf t (relativeOf t file)) = some (relativeOf t file) :=
  (h.known (file, placeOf t (relativeOf t file)) (mem_manifestOf.mpr ⟨hs, rfl⟩)).1

theorem WellMapped.apart (h : WellMapped t files) (ha : Selected t files a) (hb : Selected t files b)
    (hne : a ≠ b) : ¬ SameDestination t (placeOf t (relativeOf t a)) (placeOf t (relativeOf t b)) :=
  h.injective (a, placeOf t (relativeOf t a)) (mem_manifestOf.mpr ⟨ha, rfl⟩)
    (b, placeOf t (relativeOf t b)) (mem_manifestOf.mpr ⟨hb, rfl⟩) hne

section Remote

variable {destination : SpaceTarget}

theorem remote_found_iff (h : SourceFile t file) :
    destinationRelative destination (joinRemotePath destination.path (relativeOf t file)) =
      some (relativeOf t file) ↔ FolderPath destination.path := by
  obtain ⟨hne, htrim⟩ := relativeOf_facts h
  rw [destinationRelative, Option.some.injEq, destinationRelative_iff htrim hne]

theorem remote_same_iff (ha : SourceFile t a) (hb : SourceFile t b) :
    joinRemotePath destination.path (relativeOf t a) = joinRemotePath destination.path (relativeOf t b) ↔
      tailOf t a = tailOf t b := by
  obtain ⟨hne, htrim⟩ := relativeOf_facts ha
  obtain ⟨hne', htrim'⟩ := relativeOf_facts hb
  rw [joinRemotePath_eq _ (by rwa [htrim]), joinRemotePath_eq _ (by rwa [htrim']), htrim, htrim',
    List.append_cancel_left_eq, relativeOf_inj ha hb]

end Remote

theorem wellMapped_iff (hp : ParentOk t) (hf : ∀ file ∈ files, SourceFile t file) :
    WellMapped t files ↔ Mappable t files := by
  cases he : t.endpoints with
  | upload root destination =>
    have hfound : ∀ file, Selected t files file →
        (foundOf t (placeOf t (relativeOf t file)) = some (relativeOf t file) ↔
          FolderPath destination.path) := by
      intro file hs
      have hiff := @remote_found_iff t file destination (hf file hs.1)
      simpa only [foundOf, placeOf, he] using hiff
    have hsame : ∀ a b, Selected t files a → Selected t files b → a ≠ b →
        ¬ SameDestination t (placeOf t (relativeOf t a)) (placeOf t (relativeOf t b)) := by
      intro a b ha hb hne
      have hiff := @remote_same_iff t a b destination (hf a ha.1) (hf b hb.1)
      simp only [SameDestination, placeOf, he, hiff]
      simpa only [tailOf, he] using hne
    simp only [Mappable, he]
    constructor
    · rintro h ⟨file, hs⟩
      exact (hfound file hs).mp (h.found hs)
    · intro h
      refine wellMapped_of (fun file hs => (hfound file hs).mpr (h ⟨file, hs⟩)) hsame fun file hs => ?_
      simp only [Inside, he]
  | download source root =>
    have hfound : ∀ file, Selected t files file →
        (foundOf t (placeOf t (relativeOf t file)) = some (relativeOf t file) ↔
          (∀ name ∈ (tailOf t file).splitOn '/', FileName name) ∧
            ∀ parent ∈ t.parentPrefix, FileName parent) := by
      intro file hs
      rw [← clean_iff hp (hf file hs.1), ← @localRelative_iff root]
      simp only [foundOf, placeOf, he]
    have hsame : Plain t files → ∀ a b, Selected t files a → Selected t files b →
        (SameDestination t (placeOf t (relativeOf t a)) (placeOf t (relativeOf t b)) ↔
          tailOf t a = tailOf t b) := by
      intro hplain a b ha hb
      have hca := (clean_iff hp (hf a ha.1)).mpr (hplain a ha)
      have hcb := (clean_iff hp (hf b hb.1)).mpr (hplain b hb)
      rw [← relativeOf_inj (hf a ha.1) (hf b hb.1)]
      simp only [SameDestination, placeOf, he]
      rw [clean_names hca, clean_names hcb, Prod.mk.injEq, List.append_cancel_left_eq]
      refine ⟨fun h => ?_, fun h => ⟨rfl, by rw [h]⟩⟩
      have ha' : ['/'].intercalate ((relativeOf t a).splitOn '/') = relativeOf t a := List.intercalate_splitOn '/'
      rw [← ha', h.2, List.intercalate_splitOn]
    simp only [Mappable, he]
    constructor
    · intro h
      have hplain : Plain t files := fun file hs => (hfound file hs).mp (h.found hs)
      exact ⟨hplain, fun a b ha hb hne heq => h.apart ha hb hne ((hsame hplain a b ha hb).mpr heq)⟩
    · rintro ⟨hplain, hapart⟩
      refine wellMapped_of (fun file hs => (hfound file hs).mpr (hplain file hs))
        (fun a b ha hb hne heq => hapart a b ha hb hne ((hsame hplain a b ha hb).mp heq)) fun file hs => ?_
      have hclean := (clean_iff hp (hf file hs.1)).mpr (hplain file hs)
      simp only [Inside, placeOf, he]
      exact ⟨_, List.splitOn_ne_nil _ _, fun hup => (hclean _ hup).2.2.2 rfl, clean_names hclean⟩
  | remoteCopy source destination =>
    have hfound : ∀ file, Selected t files file →
        (foundOf t (placeOf t (relativeOf t file)) = some (relativeOf t file) ↔
          FolderPath destination.path) := by
      intro file hs
      have hiff := @remote_found_iff t file destination (hf file hs.1)
      simpa only [foundOf, placeOf, he] using hiff
    have hsame : ∀ a b, Selected t files a → Selected t files b →
        (SameDestination t (placeOf t (relativeOf t a)) (placeOf t (relativeOf t b)) ↔
          tailOf t a = tailOf t b) := by
      intro a b ha hb
      have hiff := @remote_same_iff t a b destination (hf a ha.1) (hf b hb.1)
      simpa only [SameDestination, placeOf, he] using hiff
    simp only [Mappable, he]
    constructor
    · intro h
      refine ⟨?_, fun a b ha hb hne heq => h.apart ha hb hne ((hsame a b ha hb).mpr heq)⟩
      rintro ⟨file, hs⟩
      exact (hfound file hs).mp (h.found hs)
    · rintro ⟨hfolder, hapart⟩
      refine wellMapped_of (fun file hs => (hfound file hs).mpr (hfolder ⟨file, hs⟩))
        (fun a b ha hb hne heq => hapart a b ha hb hne ((hsame a b ha hb).mp heq)) fun file hs => ?_
      simp only [Inside, he]

end Files

section Claim

variable {args : CpArgs} {cwd : List Text} {t : Task}

theorem parentOk_of_task (h : args.task cwd = .ok t) : ParentOk t := by
  intro p hp
  rw [CpArgs.task] at h
  cases hends : recursiveCpEndpoints args.source args.destination with
  | error e =>
    rw [hends] at h
    cases h
  | ok endpoints =>
    rw [hends] at h
    cases hparent : recursiveAdriveSourceParentPrefix args.source args.includeParent with
    | error e =>
      rw [hparent] at h
      cases h
    | ok parent =>
      rw [hparent] at h
      cases h
      have heq : parent = some p := hp
      rw [heq] at hparent
      exact (sourceParent_plain hparent).symm

theorem mapping_safe_iff (h : args.task cwd = .ok t) (files : List Text)
    (hf : ∀ file ∈ files, SourceFile t file) : WellMapped t files ↔ Mappable t files :=
  wellMapped_iff (parentOk_of_task h) hf

def spaceFolder : SpaceTarget := ⟨⟨"i".toList, "s".toList, "p".toList⟩, by decide⟩

def downloadArgs : CpArgs := ⟨"adrive://i/s/p".toList, "out".toList, false, none, none⟩

def downloadTask : Task := ⟨[], .download spaceFolder "out".toList, none, none, none⟩

theorem downloadArgs_task : downloadArgs.task [] = .ok downloadTask := rfl

theorem mapping_safe_plain : WellMapped downloadTask ["p/x".toList, "p/y".toList] := by
  have hf : ∀ file ∈ ["p/x".toList, "p/y".toList], SourceFile downloadTask file := by
    intro file hfile
    rcases List.mem_pair.mp hfile with rfl | rfl
    · exact (by decide : spaceFolder.lists "i".toList "s".toList "p/x".toList)
    · exact (by decide : spaceFolder.lists "i".toList "s".toList "p/y".toList)
  have hx : tailOf downloadTask "p/x".toList = "x".toList := by decide
  have hy : tailOf downloadTask "p/y".toList = "y".toList := by decide
  refine (mapping_safe_iff downloadArgs_task _ hf).mpr ⟨fun file hs => ⟨?_, ?_⟩, fun a b ha hb hne heq => ?_⟩
  · rcases List.mem_pair.mp hs.1 with rfl | rfl
    · rw [hx]
      decide
    · rw [hy]
      decide
  · rintro parent ⟨⟩
  · rcases List.mem_pair.mp ha.1 with rfl | rfl <;> rcases List.mem_pair.mp hb.1 with rfl | rfl
    · exact hne rfl
    · exact absurd (hx.symm.trans (heq.trans hy)) (by decide)
    · exact absurd (hy.symm.trans (heq.trans hx)) (by decide)
    · exact hne rfl

theorem parent_segment_escapes : ¬ ∀ (args : CpArgs) (cwd : List Text) (t : Task) (files : List Text),
    args.task cwd = .ok t → (∀ file ∈ files, SourceFile t file) → WellMapped t files := by
  intro h
  have hf : ∀ file ∈ ["p/../x".toList], SourceFile downloadTask file := by
    intro file hfile
    rw [List.mem_singleton.mp hfile]
    exact (by decide : spaceFolder.lists "i".toList "s".toList "p/../x".toList)
  have hmapped := h downloadArgs [] downloadTask _ downloadArgs_task hf
  have hs : Selected downloadTask ["p/../x".toList] "p/../x".toList := ⟨List.mem_singleton_self _, by decide⟩
  have hplace : placeOf downloadTask (relativeOf downloadTask "p/../x".toList) = "out/../x".toList := by decide
  have hpair : ("p/../x".toList, "out/../x".toList) ∈ manifestOf downloadTask ["p/../x".toList] :=
    mem_manifestOf.mpr ⟨hs, hplace.symm⟩
  obtain ⟨names, -, hup, hcomponents⟩ := hmapped.inside _ hpair
  have hnames : ["out".toList, "..".toList, "x".toList] = ["out".toList] ++ names := by
    exact congrArg Prod.snd hcomponents
  rw [List.singleton_append, List.cons_inj_right] at hnames
  exact hup (hnames ▸ List.mem_cons_self)

end Claim

end VeStorage.ADrive.Mapping
