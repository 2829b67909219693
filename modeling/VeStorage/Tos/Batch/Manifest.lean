import VeStorage.Lib.Sorted
import VeStorage.Tos.Move.Args
import VeStorage.Tos.Sync.Plan

namespace VeStorage.Tos.Batch
open Lib
open Move (MvArgs moveDeleteGroups tosRecursiveMoveSourceRoot deletesBefore)
open Sync (DeleteExtra)

inductive Operation where
  | copy
  | deleteSource
  | syncCopy
  | deleteExtra
deriving DecidableEq

def Operation.name : Operation → Text
  | .copy => "copy".toList
  | .deleteSource => "delete-source".toList
  | .syncCopy => "sync-copy".toList
  | .deleteExtra => "delete-extra".toList

def Operation.isDelete : Operation → Bool
  | .deleteSource => true
  | .deleteExtra => true
  | _ => false

structure Action where
  operation : Operation
  source : Text
  destination : Option Text
deriving DecidableEq

structure TransferManifestItem extends Action where
  relativeKey : Text
  size : Nat
  etag : Option Text
  lastModified : Option Text
  actionId : Nat
  dependsOnActionId : Option Nat

structure TransferManifest where
  objectCount : Nat
  totalSize : Nat
  items : List TransferManifestItem

def TransferManifest.actions (m : TransferManifest) : List Action :=
  m.items.map TransferManifestItem.toAction

def numberedFrom : Nat → List TransferManifestItem → List TransferManifestItem
  | _, [] => []
  | index, item :: items => { item with actionId := index + 1 } :: numberedFrom (index + 1) items

def TransferManifest.fromItems (items : List TransferManifestItem) : TransferManifest :=
  ⟨items.length, (items.map TransferManifestItem.size).sum, numberedFrom 0 items⟩

def copyAction (operation : Operation) (item : TransferPlanItem) : Action :=
  ⟨operation, item.source, some item.destination⟩

def deleteSourceAction (item : TransferPlanItem) : Action := ⟨.deleteSource, item.source, none⟩

def manifestItem (operation : Operation) (item : TransferPlanItem) : TransferManifestItem :=
  { copyAction operation item with
    relativeKey := item.relativeKey
    size := item.size
    etag := item.etag
    lastModified := item.lastModified
    actionId := 0
    dependsOnActionId := none }

def deleteSourceItem (item : TransferPlanItem) (copyActionId : Nat) : TransferManifestItem :=
  { deleteSourceAction item with
    relativeKey := item.relativeKey
    size := item.size
    etag := item.etag
    lastModified := item.lastModified
    actionId := 0
    dependsOnActionId := some copyActionId }

def moveItems : Nat → List TransferPlanItem → List TransferManifestItem
  | _, [] => []
  | length, item :: items =>
      manifestItem .copy item :: deleteSourceItem item (length + 1) :: moveItems (length + 2) items

def buildMoveTransferManifest (items : List TransferPlanItem) : TransferManifest :=
  .fromItems (moveItems 0 items)

-- The source root, when it is deleted apart from the planned items.
def unplannedSourceRoot (args : MvArgs) (planned : List TransferPlanItem) (useHnsBottomUp : Bool) :
    Option (Text × Text) :=
  if useHnsBottomUp then
    match tosRecursiveMoveSourceRoot args with
    | none => none
    | some (_, key, sourceUri) =>
        if planned.any fun item => item.source = sourceUri then none else some (key, sourceUri)
  else none

def rootAction (sourceUri : Text) : Action := ⟨.deleteSource, sourceUri, none⟩

def appendMoveSourceRootAction (manifest : TransferManifest) (args : MvArgs)
    (planned : List TransferPlanItem) (useHnsBottomUp : Bool) : TransferManifest :=
  match unplannedSourceRoot args planned useHnsBottomUp with
  | none => manifest
  | some (key, sourceUri) => .fromItems (manifest.items ++
      [{ rootAction sourceUri with
        relativeKey := key
        size := 0
        etag := none
        lastModified := none
        actionId := 0
        dependsOnActionId := none }])

def deleteExtraAction (extra : DeleteExtra) : Action := ⟨.deleteExtra, extra.source, none⟩

structure SyncExtra extends DeleteExtra where
  size : Nat
  lastModified : Option Text

def deleteExtraItem (extra : SyncExtra) : TransferManifestItem :=
  { deleteExtraAction extra.toDeleteExtra with
    relativeKey := extra.relativeKey
    size := extra.size
    etag := extra.etag
    lastModified := extra.lastModified
    actionId := 0
    dependsOnActionId := none }

def syncManifest (planned : List TransferPlanItem) (deletePlan : List SyncExtra) : TransferManifest :=
  .fromItems (planned.map (manifestItem .syncCopy) ++ deletePlan.map deleteExtraItem)

def tosSyncDeleteSortKey (extra : SyncExtra) : Text :=
  if isTosUri extra.source then
    match parseTosUri extra.source false with
    | .ok target => target.key.getD extra.relativeKey
    | .error _ => extra.relativeKey
  else extra.relativeKey

def sortTosSyncDeleteManifestItemsBottomUp (items : List SyncExtra) : List SyncExtra :=
  items.mergeSort fun l r => deletesBefore (tosSyncDeleteSortKey l) (tosSyncDeleteSortKey r)

def isSyncLeaf (extra : SyncExtra) : Bool :=
  !isTosUri extra.source || !tosDeleteKeyIsDirectory (tosSyncDeleteSortKey extra)

def syncDeleteGroups (deletePlan : List SyncExtra) : List (List SyncExtra) :=
  let sorted := sortTosSyncDeleteManifestItemsBottomUp deletePlan
  sorted.filter isSyncLeaf ::
    levels (fun extra => keyDepth (tosSyncDeleteSortKey extra))
      (sortTosSyncDeleteManifestItemsBottomUp (sorted.filter fun extra => !isSyncLeaf extra))

-- `sort_tos_sync_delete_entries_bottom_up` of a bucket whose directories are objects.
def sortTosSyncDeleteEntriesBottomUp (isHns : Bool) (extras : List SyncExtra) : List SyncExtra :=
  if isHns then extras.mergeSort fun l r => deletesBefore (tosSyncDeleteSortKey l) (tosSyncDeleteSortKey r)
  else extras

section Counts

theorem numberedFrom_length (index : Nat) (items : List TransferManifestItem) :
    (numberedFrom index items).length = items.length := by
  induction items generalizing index with
  | nil => rfl
  | cons item items ih => simp [numberedFrom, ih]

theorem numberedFrom_actions (index : Nat) (items : List TransferManifestItem) :
    (numberedFrom index items).map TransferManifestItem.toAction =
      items.map TransferManifestItem.toAction := by
  induction items generalizing index with
  | nil => rfl
  | cons item items ih => simp [numberedFrom, ih]

theorem numberedFrom_ids (index : Nat) (items : List TransferManifestItem) :
    ((numberedFrom index items).map TransferManifestItem.actionId).Pairwise (· < ·) ∧
      ∀ id ∈ (numberedFrom index items).map TransferManifestItem.actionId, index < id := by
  induction items generalizing index with
  | nil => simp [numberedFrom]
  | cons item items ih =>
    obtain ⟨hsorted, habove⟩ := ih (index + 1)
    rw [numberedFrom, List.map_cons, List.pairwise_cons]
    refine ⟨⟨fun id hid => habove id hid, hsorted⟩, fun id hid => ?_⟩
    rcases List.mem_cons.mp hid with rfl | hid
    · exact Nat.lt_succ_self index
    · have hlt := habove id hid
      omega

theorem moveItems_actions (length : Nat) (items : List TransferPlanItem) :
    ((moveItems length items).map TransferManifestItem.toAction).Perm
      (items.map (copyAction .copy) ++ items.map deleteSourceAction) := by
  induction items generalizing length with
  | nil => exact .nil
  | cons item items ih =>
    have hrest := (ih (length + 2)).cons (deleteSourceAction item)
    exact (hrest.trans List.perm_middle.symm).cons (copyAction .copy item)

end Counts

section Groups

theorem moveDeleteGroups_perm (planned : List TransferPlanItem) (isHns : Bool) :
    (moveDeleteGroups planned isHns).flatten.Perm planned := by
  cases isHns with
  | false => simp [moveDeleteGroups, Move.orderedRecursiveMoveDeleteItems]
  | true =>
    simp only [moveDeleteGroups, Move.orderedRecursiveMoveDeleteItems, if_true, List.flatten_cons,
      List.flatten_splitBy]
    refine (List.Perm.append_left _ (List.mergeSort_perm _ _)).trans ?_
    refine List.perm_append_comm.trans ?_
    exact (List.filter_append_perm Move.isMoveDirectory _).trans (List.mergeSort_perm _ _)

theorem syncDeleteGroups_perm (deletePlan : List SyncExtra) :
    (syncDeleteGroups deletePlan).flatten.Perm deletePlan := by
  simp only [syncDeleteGroups, List.flatten_cons, levels_flatten]
  refine (List.Perm.append_left _ (List.mergeSort_perm _ _)).trans ?_
  exact (List.filter_append_perm isSyncLeaf _).trans (List.mergeSort_perm _ _)

end Groups

end VeStorage.Tos.Batch
