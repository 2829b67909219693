import VeStorage.ADrive.Listing.Normalize
import VeStorage.ADrive.Share.Journal
import VeStorage.Lib.Capped

namespace VeStorage.ADrive.Listing
open Lib
open Lib.Capped (Source Request Output Represents HeldPair Lists pushUpTo pushUpTo_represents)
open ADrive.Share (CliError)

variable {Info : Type}

def boundedListPageLimit (returned maxKeys : Nat) : Nat := min (maxKeys - returned) 1000

structure ListInstancesOutput (Info : Type) where
  instances : List Info
  nextMarker : Text
  isTruncated : Bool

inductive SpaceListingKind
  | all
  | user
  | group
deriving DecidableEq

-- The answers of the three services; each kind reads its own fields.
structure ListSpacesOutput (Info : Type) where
  spaces : List Info
  rootSpace : Option Info
  nextMarker : Text
  isTruncated : Bool

structure SpacePage (Info : Type) where
  spaces : List Info
  rootSpace : Option Info
  nextMarker : Text
  hasMore : Bool

def spacePageHasMore (listingKind : SpaceListingKind) (serviceIsTruncated : Bool)
    (nextMarker : Text) : Bool :=
  if nextMarker = [] then false else listingKind ≠ .all || serviceIsTruncated

def fetchSpacePage (listingKind : SpaceListingKind) (output : ListSpacesOutput Info) :
    SpacePage Info :=
  match listingKind with
  | .all => ⟨output.spaces, none, output.nextMarker,
      spacePageHasMore .all output.isTruncated output.nextMarker⟩
  | .user => ⟨output.spaces, none, output.nextMarker, spacePageHasMore .user false output.nextMarker⟩
  | .group => ⟨output.spaces, output.rootSpace, output.nextMarker,
      spacePageHasMore .group false output.nextMarker⟩

def instances : Source (List Info) (ListInstancesOutput Info) Text CliError where
  limit := boundedListPageLimit
  count := List.length
  absorb maxKeys held out := pushUpTo maxKeys List.length (fun held a => held ++ [a]) held out.instances
  next out := .ok (if out.isTruncated = false ∨ out.nextMarker = [] then none else some out.nextMarker)

structure HeldSpaces (Info : Type) where
  spaces : List Info
  rootSpace : Option Info

def HeldSpaces.push (held : HeldSpaces Info) (space : Info) : HeldSpaces Info :=
  { held with spaces := held.spaces ++ [space] }

def spaces (listingKind : SpaceListingKind) :
    Source (HeldSpaces Info) (ListSpacesOutput Info) Text CliError where
  limit := boundedListPageLimit
  count held := held.spaces.length
  absorb maxKeys held output :=
    let page := fetchSpacePage listingKind output
    let held := if held.rootSpace.isNone then { held with rootSpace := page.rootSpace } else held
    pushUpTo maxKeys (fun held => held.spaces.length) HeldSpaces.push held page.spaces
  next output :=
    let page := fetchSpacePage listingKind output
    .ok (if page.hasMore = false then none else some page.nextMarker)

structure HeldSpaces.Holds (held : HeldSpaces Info) (acc : List Info) : Prop where
  spaces : held.spaces = acc

-- The folders of a page come before its files.
abbrev HeldFiles := HeldPair FolderInfo FileInfo

def HeldFiles.folders (held : HeldFiles) : List FolderInfo := held.first

def HeldFiles.files (held : HeldFiles) : List FileInfo := held.second

def files : Source HeldFiles ListFilesOutput Text CliError where
  limit := boundedListPageLimit
  count held := held.returned
  absorb maxKeys held out := held.absorb maxKeys out.folders out.files
  next out := .ok (if out.isTruncated = false ∨ out.nextMarker = [] then none else some out.nextMarker)

section Functions

variable (maxKeys : Nat) (initialMarker : Option Text)

def listInstancesBounded (listInstances : Nat → Except CliError (ListInstancesOutput Info)) :
    Nat → List (Request Text) × Option (Except CliError (Output (List Info) Text)) :=
  instances.list listInstances maxKeys initialMarker []

def listSpacesBounded (listingKind : SpaceListingKind)
    (listSpaces : Nat → Except CliError (ListSpacesOutput Info)) :
    Nat → List (Request Text) × Option (Except CliError (Output (HeldSpaces Info) Text)) :=
  (spaces listingKind).list listSpaces maxKeys initialMarker ⟨[], none⟩

def listFilesBounded (listFiles : Nat → Except CliError ListFilesOutput) :
    Nat → List (Request Text) × Option (Except CliError (Output HeldFiles Text)) :=
  files.list listFiles maxKeys initialMarker .empty

end Functions

def entries (out : ListFilesOutput) : List (FolderInfo ⊕ FileInfo) :=
  HeldPair.items out.folders out.files

section Represented

theorem pageLimit_good {maxKeys : Nat} (returned : Nat) (h : returned < maxKeys) :
    1 ≤ boundedListPageLimit returned maxKeys ∧ boundedListPageLimit returned maxKeys ≤ 1000 := by
  unfold boundedListPageLimit
  omega

theorem instances_represents : Represents (instances : Source (List Info) _ _ _) (·.instances)
    (fun held acc => held = acc) where
  count h := congrArg List.length h
  absorb {held acc} maxKeys page h := by
    have hpush := pushUpTo_represents id (fun held acc => held = acc) List.length (fun held a => held ++ [a])
      (fun h => congrArg List.length h) (fun a h => congrArg (· ++ [a]) h) maxKeys page.instances h
    rwa [List.map_id] at hpush

theorem fetchSpacePage_spaces (listingKind : SpaceListingKind) (output : ListSpacesOutput Info) :
    (fetchSpacePage listingKind output).spaces = output.spaces := by
  cases listingKind <;> rfl

theorem HeldSpaces.Holds.push {held : HeldSpaces Info} {acc : List Info} (h : held.Holds acc)
    (space : Info) : (held.push space).Holds (acc ++ [space]) where
  spaces := congrArg (· ++ [space]) h.spaces

theorem spaces_represents (listingKind : SpaceListingKind) :
    Represents (spaces listingKind : Source (HeldSpaces Info) _ _ _) (·.spaces)
      HeldSpaces.Holds where
  count h := congrArg List.length h.spaces
  absorb {held acc} maxKeys output h := by
    have hroot : HeldSpaces.Holds (if held.rootSpace.isNone then
        { held with rootSpace := (fetchSpacePage listingKind output).rootSpace } else held) acc := by
      split
      · exact ⟨h.spaces⟩
      · exact h
    have hpush := pushUpTo_represents id HeldSpaces.Holds (fun held => held.spaces.length) HeldSpaces.push
      (fun h => congrArg List.length h.spaces) (fun space h => h.push space) maxKeys
      (fetchSpacePage listingKind output).spaces hroot
    rw [List.map_id] at hpush
    rw [← fetchSpacePage_spaces listingKind output]
    exact hpush

theorem files_represents : Represents files entries HeldPair.Holds where
  count h := h.returned
  absorb maxKeys out h := h.absorb maxKeys out.folders out.files

end Represented

def GoodLimit (limit : Nat) : Prop := 1 ≤ limit ∧ limit ≤ 1000

-- Two files on the only page of a listing that asks for one.
def overfullPage : ListFilesOutput := ⟨[⟨['a'], []⟩, ⟨['b'], []⟩], [], [], false⟩

end VeStorage.ADrive.Listing
