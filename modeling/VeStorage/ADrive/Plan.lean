import VeStorage.ADrive.Uri

namespace VeStorage.ADrive
open Lib
open Tos (CliError FileName RelPath resolvePath pathJoin)

abbrev Bytes := List UInt8

inductive Place where
  | disk (names : List Text)
  | remote (inst space path : Text)
deriving DecidableEq

abbrev Tree := Place → Option Bytes

structure CpArgs where
  source : Text
  destination : Text
  includeParent : Bool
  includePattern : Option Text
  excludePattern : Option Text

structure SpaceTarget extends ParsedADriveUri where
  space_ne : space ≠ []

inductive Endpoints where
  | upload (sourceRoot : Text) (destination : SpaceTarget)
  | download (source : SpaceTarget) (destinationRoot : Text)
  | remoteCopy (source destination : SpaceTarget)

structure Task where
  cwd : List Text
  endpoints : Endpoints
  parentPrefix : Option Text
  includePattern : Option Text
  excludePattern : Option Text

inductive Operation where
  | upload
  | download
  | remoteCopy
deriving DecidableEq

def Operation.text : Operation → Text
  | .upload => "upload".toList
  | .download => "download".toList
  | .remoteCopy => "remote-copy".toList

structure Item where
  operation : Operation
  source : Text
  destination : Text
  src : Place
  dst : Place
deriving DecidableEq

def parseSpaceTarget (uri : Text) : Except CliError SpaceTarget :=
  match h : parseAdriveUri uri false with
  | .ok target => .ok ⟨target, parseAdriveUri_space h⟩
  | .error e => .error e

def recursiveCpEndpoints (source destination : Text) : Except CliError Endpoints :=
  match isADriveUri source, isADriveUri destination with
  | false, true => do .ok (.upload source (← parseSpaceTarget destination))
  | true, false => do .ok (.download (← parseSpaceTarget source) destination)
  | true, true => do
    let source ← parseSpaceTarget source
    let destination ← parseSpaceTarget destination
    if source.inst ≠ destination.inst then .error (.validationError
      "ve-adrive recursive remote copy requires source and destination in the same instance".toList)
    else .ok (.remoteCopy source destination)
  | false, false => .error (.validationError
      "ve-adrive cp --recursive requires one side to be adrive://instance/space/path".toList)

def CpArgs.task (args : CpArgs) (cwd : List Text) : Except CliError Task := do
  let endpoints ← recursiveCpEndpoints args.source args.destination
  let parentPrefix ← recursiveAdriveSourceParentPrefix args.source args.includeParent
  .ok ⟨cwd, endpoints, parentPrefix, args.includePattern, args.excludePattern⟩

def relPathOf (root names : List Text) : Option RelPath :=
  (stripPrefix root names).bind fun rest =>
    if h : rest ≠ [] ∧ ∀ name ∈ rest, FileName name then some ⟨rest, h.2⟩ else none

def SpaceTarget.at (target : SpaceTarget) (path : Text) : Text :=
  formatTarget ⟨target.inst, target.space, path⟩

def SpaceTarget.place (target : SpaceTarget) (path : Text) : Place :=
  .remote target.inst target.space path

-- A listing below the folder hands a path on unless it is a folder marker.
def SpaceTarget.lists (source : SpaceTarget) (inst space path : Text) : Prop :=
  inst = source.inst ∧ space = source.space ∧ trimFolderPrefix source.path <+: path ∧ path ≠ [] ∧
    ¬ ['/'] <:+ path

instance (source : SpaceTarget) (inst space path : Text) : Decidable (source.lists inst space path) :=
  inferInstanceAs (Decidable (_ ∧ _))

namespace Task

variable (t : Task)

def matchesFilters (relative : Text) : Bool :=
  pathMatchesFilters relative t.includePattern t.excludePattern

def uploadItem (sourceRoot : Text) (destination : SpaceTarget) (rel : RelPath) : Item :=
  let remotePath := joinRemotePath destination.path (prependAdriveParentPrefix rel.text t.parentPrefix)
  { operation := .upload
    source := pathJoin sourceRoot rel.text
    destination := destination.at remotePath
    src := .disk (resolvePath t.cwd sourceRoot ++ rel.names)
    dst := destination.place remotePath }

def remoteRelative (source : SpaceTarget) (path : Text) : Text :=
  recursiveAdriveRelativePath path (trimFolderPrefix source.path) t.parentPrefix

def downloadItem (source : SpaceTarget) (destinationRoot path : Text) : Item :=
  let destinationPath := pathJoin destinationRoot (t.remoteRelative source path)
  { operation := .download
    source := source.at path
    destination := destinationPath
    src := source.place path
    dst := .disk (resolvePath t.cwd destinationPath) }

def remoteCopyItem (source destination : SpaceTarget) (path : Text) : Item :=
  let destinationPath := joinRemotePath destination.path (t.remoteRelative source path)
  { operation := .remoteCopy
    source := source.at path
    destination := destination.at destinationPath
    src := source.place path
    dst := destination.place destinationPath }

-- The item of a file that the walk or the listing may find, present or not.
def item (p : Place) : Option Item :=
  match t.endpoints, p with
  | .upload root destination, .disk names =>
      (relPathOf (resolvePath t.cwd root) names).bind fun rel =>
        if t.matchesFilters (prependAdriveParentPrefix rel.text t.parentPrefix) then
          some (t.uploadItem root destination rel)
        else none
  | .download source root, .remote inst space path =>
      if source.lists inst space path ∧ t.matchesFilters (t.remoteRelative source path) = true then
        some (t.downloadItem source root path)
      else none
  | .remoteCopy source destination, .remote inst space path =>
      if source.lists inst space path ∧ t.matchesFilters (t.remoteRelative source path) = true then
        some (t.remoteCopyItem source destination path)
      else none
  | _, _ => none

end Task

def checkpointItemKey (operation source : Text) (destination : Option Text) : Text :=
  operation ++ '|' :: source ++ '|' :: destination.getD []

def Item.key (i : Item) : Text := checkpointItemKey i.operation.text i.source (some i.destination)

-- What `formatTarget` puts in front of a path.
def SpaceTarget.root (target : SpaceTarget) : Text :=
  adriveScheme ++ target.inst ++ '/' :: target.space ++ ['/']

-- What `pathJoin` puts in front of a relative path.
def rootBase (root : Text) : Text := if root = [] ∨ ['/'] <:+ root then root else root ++ ['/']

section Tails

theorem trimStart_length_append (c : Char) (r u : Text) :
    (trimStart c r).length ≤ (trimStart c (r ++ u)).length := by
  unfold trimStart
  rw [List.dropWhile_append]
  split
  · rename_i h
    simp [List.isEmpty_iff.mp h]
  · simp

theorem tails_extend {c : Char} {b r u : Text}
    (h : r ++ (b ++ trimStart c r) = (r ++ u) ++ (b ++ trimStart c (r ++ u))) : u = [] := by
  have hlen := congrArg List.length h
  have hle := trimStart_length_append c r u
  simp only [List.length_append] at hlen
  exact List.length_eq_zero_iff.mp (by omega)

theorem tails_inj {c : Char} {b r r' : Text}
    (h : r ++ (b ++ trimStart c r) = r' ++ (b ++ trimStart c r')) : r = r' := by
  rcases List.append_eq_append_iff.mp h with ⟨u, rfl, -⟩ | ⟨u, rfl, -⟩
  · rw [tails_extend h, List.append_nil]
  · rw [tails_extend h.symm, List.append_nil]

end Tails

section Items

variable {t : Task} {p q : Place} {i j : Item}

theorem relPathOf_eq_some {root names : List Text} {rel : RelPath}
    (h : relPathOf root names = some rel) : names = root ++ rel.names ∧ rel.names ≠ [] := by
  unfold relPathOf at h
  rw [Option.bind_eq_some_iff] at h
  obtain ⟨rest, hrest, h⟩ := h
  split at h
  · rename_i hok
    cases h
    exact ⟨stripPrefix_eq_some.mp hrest, hok.1⟩
  · cases h

inductive ItemOf (t : Task) (i : Item) : Prop
  | upload (root destination rel) (ht : t.endpoints = .upload root destination)
      (hne : rel.names ≠ []) (hi : i = t.uploadItem root destination rel)
  | download (source root path) (ht : t.endpoints = .download source root)
      (hl : source.lists source.inst source.space path) (hi : i = t.downloadItem source root path)
  | remoteCopy (source destination path) (ht : t.endpoints = .remoteCopy source destination)
      (hl : source.lists source.inst source.space path)
      (hi : i = t.remoteCopyItem source destination path)

theorem item_eq_some (h : t.item p = some i) : i.src = p ∧ ItemOf t i := by
  unfold Task.item at h
  split at h
  · rename_i root destination names ht
    rw [Option.bind_eq_some_iff] at h
    obtain ⟨rel, hrel, h⟩ := h
    obtain ⟨rfl, hne⟩ := relPathOf_eq_some hrel
    split at h
    · obtain rfl := Option.some.inj h
      exact ⟨rfl, .upload root destination rel ht hne rfl⟩
    · cases h
  · rename_i source root inst space path ht
    split at h
    · rename_i hl
      obtain ⟨hl, -⟩ := hl
      obtain rfl := Option.some.inj h
      obtain ⟨rfl, rfl, -⟩ := id hl
      exact ⟨rfl, .download source root path ht hl rfl⟩
    · cases h
  · rename_i source destination inst space path ht
    split at h
    · rename_i hl
      obtain ⟨hl, -⟩ := hl
      obtain rfl := Option.some.inj h
      obtain ⟨rfl, rfl, -⟩ := id hl
      exact ⟨rfl, .remoteCopy source destination path ht hl rfl⟩
    · cases h
  · cases h

theorem item_src (h : t.item p = some i) : i.src = p := (item_eq_some h).1

theorem RelPath_text_ne {rel : RelPath} (h : rel.names ≠ []) : rel.text ≠ [] := by
  intro he
  have := rel.segments_text
  rw [he, segments_nil] at this
  exact h this.symm

theorem RelPath_text_trim (rel : RelPath) : trimStart '/' rel.text = rel.text := by
  apply trimStart_eq_self
  intro rest he
  exact rel.text_relative ⟨rest, by simpa using he.symm⟩

theorem lists_tail {source : SpaceTarget} {inst space path : Text}
    (h : source.lists inst space path) :
    ∃ r, path = trimFolderPrefix source.path ++ r ∧ trimStart '/' r ≠ [] := by
  obtain ⟨-, -, ⟨r, rfl⟩, hne, hfile⟩ := h
  refine ⟨r, rfl, fun hnil => hfile ?_⟩
  rcases List.eq_nil_or_concat r with rfl | ⟨r', c, rfl⟩
  · rw [List.append_nil] at hne ⊢
    unfold trimFolderPrefix at hne ⊢
    split
    · rename_i hp
      rw [if_pos hp] at hne
      exact hp.resolve_left hne
    · exact List.suffix_append _ _
  · have hall := List.dropWhile_eq_nil_iff.mp hnil c (by simp)
    rw [List.concat_eq_append, of_decide_eq_true hall, ← List.append_assoc]
    exact List.suffix_append _ _

theorem remoteRelative_tail (source : SpaceTarget) {r : Text} (h : trimStart '/' r ≠ []) :
    t.remoteRelative source (trimFolderPrefix source.path ++ r) =
      parentBase t.parentPrefix ++ trimStart '/' r := by
  unfold Task.remoteRelative recursiveAdriveRelativePath
  rw [remoteRelativePath_append, prependAdriveParentPrefix_eq _ (trimStart_idem _ _) h]

theorem SpaceTarget.at_eq (target : SpaceTarget) {path : Text} (h : path ≠ []) :
    target.at path = target.root ++ path := by
  have hformat : target.at path = _ := formatTarget_path target.space_ne h
  rw [hformat]
  simp [SpaceTarget.root]

theorem pathJoin_eq {base rel : Text} (h : ¬ ['/'] <+: rel) :
    pathJoin base rel = rootBase base ++ rel := by
  unfold pathJoin rootBase
  rw [if_neg h]
  split <;> simp

theorem parentBase_append_relative (parentPrefix : Option Text) {rel : Text}
    (h : trimStart '/' rel = rel) : ¬ ['/'] <+: parentBase parentPrefix ++ rel := by
  rintro ⟨rest, hrest⟩
  have htrim : trimStart '/' (parentBase parentPrefix ++ rel) = parentBase parentPrefix ++ rel := by
    cases parentPrefix with
    | none => exact h
    | some parent => exact trimStart_joinBase parent rel h
  rw [← hrest] at htrim
  exact head_trimStart '/' '/' _ _ htrim rfl

theorem uploadItem_key (root : Text) (destination : SpaceTarget) {rel : RelPath}
    (hne : rel.names ≠ []) : (t.uploadItem root destination rel).key =
      (Operation.upload.text ++ '|' :: rootBase root) ++ (rel.text ++
        (('|' :: (destination.root ++ joinBase destination.path ++ parentBase t.parentPrefix)) ++
          trimStart '/' rel.text)) := by
  have htext := RelPath_text_ne hne
  have hjoin := joinRemotePath_prepend destination.path t.parentPrefix (RelPath_text_trim rel) htext
  simp only [Item.key, checkpointItemKey, Task.uploadItem, Option.getD_some, hjoin]
  rw [destination.at_eq (by simp [htext]), pathJoin_eq rel.text_relative, RelPath_text_trim]
  simp [List.append_assoc]

theorem downloadItem_key (source : SpaceTarget) (root : Text) {r : Text}
    (hpath : trimFolderPrefix source.path ++ r ≠ []) (hr : trimStart '/' r ≠ []) :
    (t.downloadItem source root (trimFolderPrefix source.path ++ r)).key =
      (Operation.download.text ++ '|' :: source.root ++ trimFolderPrefix source.path) ++ (r ++
        (('|' :: (rootBase root ++ parentBase t.parentPrefix)) ++ trimStart '/' r)) := by
  have hrel := parentBase_append_relative t.parentPrefix (trimStart_idem '/' r)
  unfold Item.key checkpointItemKey Task.downloadItem
  rw [remoteRelative_tail source hr]
  simp only [Option.getD_some]
  rw [source.at_eq hpath, pathJoin_eq hrel]
  simp [List.append_assoc]

theorem remoteCopyItem_key (source destination : SpaceTarget) {r : Text}
    (hpath : trimFolderPrefix source.path ++ r ≠ []) (hr : trimStart '/' r ≠ []) :
    (t.remoteCopyItem source destination (trimFolderPrefix source.path ++ r)).key =
      (Operation.remoteCopy.text ++ '|' :: source.root ++ trimFolderPrefix source.path) ++ (r ++
        (('|' :: (destination.root ++ joinBase destination.path ++ parentBase t.parentPrefix)) ++
          trimStart '/' r)) := by
  have hjoin := joinRemotePath_prepend destination.path t.parentPrefix (trimStart_idem '/' r) hr
  unfold Item.key checkpointItemKey Task.remoteCopyItem Task.remoteRelative recursiveAdriveRelativePath
  rw [remoteRelativePath_append, hjoin]
  simp only [Option.getD_some]
  rw [source.at_eq hpath, destination.at_eq (by simp [hr])]
  simp [List.append_assoc]

-- One text fixes both ends of an item: the path below the source, written twice.
theorem item_key (t : Task) : ∃ (a b : Text) (place : Text → Place), ∀ i, ItemOf t i →
    ∃ r, i.src = place r ∧ i.key = a ++ (r ++ (b ++ trimStart '/' r)) := by
  cases ht : t.endpoints with
  | upload root destination =>
    refine ⟨Operation.upload.text ++ '|' :: rootBase root,
      '|' :: (destination.root ++ joinBase destination.path ++ parentBase t.parentPrefix),
      fun r => .disk (resolvePath t.cwd root ++ segments '/' r), fun i h => ?_⟩
    cases h with
    | upload root' destination' rel ht' hne hi =>
      obtain ⟨rfl, rfl⟩ := Endpoints.upload.inj (ht.symm.trans ht')
      subst hi
      refine ⟨rel.text, ?_, uploadItem_key root destination hne⟩
      exact congrArg Place.disk (congrArg _ rel.segments_text.symm)
    | download source root path ht' => cases ht.symm.trans ht'
    | remoteCopy source destination path ht' => cases ht.symm.trans ht'
  | download source root =>
    refine ⟨Operation.download.text ++ '|' :: source.root ++ trimFolderPrefix source.path,
      '|' :: (rootBase root ++ parentBase t.parentPrefix),
      fun r => source.place (trimFolderPrefix source.path ++ r), fun i h => ?_⟩
    cases h with
    | upload root destination rel ht' => cases ht.symm.trans ht'
    | download source' root' path ht' hl hi =>
      obtain ⟨rfl, rfl⟩ := Endpoints.download.inj (ht.symm.trans ht')
      subst hi
      obtain ⟨r, rfl, hr⟩ := lists_tail hl
      exact ⟨r, rfl, downloadItem_key source root hl.2.2.2.1 hr⟩
    | remoteCopy source destination path ht' => cases ht.symm.trans ht'
  | remoteCopy source destination =>
    refine ⟨Operation.remoteCopy.text ++ '|' :: source.root ++ trimFolderPrefix source.path,
      '|' :: (destination.root ++ joinBase destination.path ++ parentBase t.parentPrefix),
      fun r => source.place (trimFolderPrefix source.path ++ r), fun i h => ?_⟩
    cases h with
    | upload root destination rel ht' => cases ht.symm.trans ht'
    | download source root path ht' => cases ht.symm.trans ht'
    | remoteCopy source' destination' path ht' hl hi =>
      obtain ⟨rfl, rfl⟩ := Endpoints.remoteCopy.inj (ht.symm.trans ht')
      subst hi
      obtain ⟨r, rfl, hr⟩ := lists_tail hl
      exact ⟨r, rfl, remoteCopyItem_key source destination hl.2.2.2.1 hr⟩

theorem item_key_inj (h : t.item p = some i) (h' : t.item q = some j) (hk : i.key = j.key) :
    i = j := by
  obtain ⟨a, b, place, hkey⟩ := item_key t
  obtain ⟨hp, hi⟩ := item_eq_some h
  obtain ⟨hq, hj⟩ := item_eq_some h'
  obtain ⟨r, hr, hir⟩ := hkey i hi
  obtain ⟨r', hr', hjr⟩ := hkey j hj
  rw [hir, hjr] at hk
  have hpq : p = q := by rw [← hp, ← hq, hr, hr', tails_inj (List.append_cancel_left hk)]
  rw [hpq, h'] at h
  exact (Option.some.inj h).symm

end Items

end VeStorage.ADrive
