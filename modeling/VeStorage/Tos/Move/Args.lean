import VeStorage.Tos.Plan
import Mathlib.Data.List.Sort
import Mathlib.Data.List.SplitBy
import Mathlib.Data.List.Lex
import Mathlib.Data.Char

namespace VeStorage.Tos.Move
open Lib

structure MvArgs where
  source : Text
  destination : Text
  includeParent : Bool
  includePattern : Option Text
  excludePattern : Option Text
  -- what `enforce_path_traversal_confirmation_for_command` answers for this command line
  traversalAnswer : Except CliError Unit

structure MvContext where
  sourceTarget : ParsedTosUri
  target : Option ParsedTosUri
  parentPrefix : Option Text
  isHns : Bool
deriving DecidableEq, Repr

def MvContext.sourcePrefix (ctx : MvContext) : Text := ctx.sourceTarget.key.getD []

def isDotSegment (segment : Text) : Bool := segment = ".".toList || segment = "..".toList

def dotSegmentError : CliError :=
  .validationError "recursive mv TOS paths must not contain '.' or '..' key segments".toList

def samePrefixError : CliError :=
  .validationError "source and destination resolve to the same TOS prefix".toList

def insidePrefixError : CliError :=
  .validationError "recursive mv destination must not be inside the source prefix".toList

def rejectDotSegments (path : Text) : Except CliError Unit :=
  if isTosUri path then do
    let target ← parseTosUri path true
    if ((target.key.getD []).splitOn '/').any isDotSegment then .error dotSegmentError else .ok ()
  else .ok ()

def moveDestinationPrefix (destination : ParsedTosUri) (parent : Option Text) : Text :=
  normalizeRecursiveTosPrefix
    (some (joinTosKey (normalizeRecursiveTosPrefix destination.key) (parent.getD [])))

def validateRecursiveTosMoveDestination (args : MvArgs) : Except CliError Unit := do
  let source ← parseTosUri args.source true
  let destination ← parseTosUri args.destination true
  if source.bucket ≠ destination.bucket then .ok ()
  else
    let sourcePrefix := normalizeRecursiveTosPrefix source.key
    let parent ← recursiveSourceParentPrefix args.source args.includeParent
    let destinationPrefix := moveDestinationPrefix destination parent
    if destinationPrefix = sourcePrefix then .error samePrefixError
    else if sourcePrefix <+: destinationPrefix then .error insidePrefixError
    else .ok ()

def validateRecursiveRemoteMove (args : MvArgs) : Except CliError Unit := do
  rejectDotSegments args.source
  rejectDotSegments args.destination
  if isTosUri args.source && isTosUri args.destination then
    validateRecursiveTosMoveDestination args
  else .ok ()

def tosMoveContext (args : MvArgs) (isHns : Bool) : Except CliError MvContext := do
  let source ← parseTosUri args.source true
  let parent ← recursiveSourceParentPrefix args.source args.includeParent
  let target ← parseDestination args.destination
  .ok ⟨normalizeRecursiveTosTarget source, target, parent, isHns⟩

def tosMoveDeleteSortKey (item : TransferPlanItem) : Text :=
  if isTosUri item.source then
    match parseTosUri item.source false with
    | .ok target => target.key.getD item.source
    | .error _ => item.source
  else item.source

def hasMoveFilters (args : MvArgs) : Bool := args.includePattern.isSome || args.excludePattern.isSome

def isFilteredHnsMoveDirectory (args : MvArgs) (isHns : Bool) (item : TransferPlanItem) : Bool :=
  isHns && hasMoveFilters args && tosDeleteKeyIsDirectory (tosMoveDeleteSortKey item)

def pathContainsParentDir (path : Text) : Bool :=
  (path.splitOnP fun c => c = '/' || c = '\\').any fun segment => segment = "..".toList

def hasLocalParentDir (item : TransferPlanItem) : Bool :=
  (!isTosUri item.source && pathContainsParentDir item.source) ||
    (!isTosUri item.destination && pathContainsParentDir item.destination)

def enforceTransferPlanPathTraversal (args : MvArgs) (items : List TransferPlanItem) :
    Except CliError Unit :=
  if items.any hasLocalParentDir then args.traversalAnswer else .ok ()

def tosMoveItem (args : MvArgs) (ctx : MvContext) (entry : ObjectEntry) : TransferPlanItem :=
  tosSourceItem ctx.sourceTarget ctx.sourcePrefix args.destination ctx.target ctx.parentPrefix entry

def itemAllowed (args : MvArgs) (item : TransferPlanItem) : Bool :=
  patternAllows item.relativeKey args.includePattern args.excludePattern

def planTosMove (args : MvArgs) (ctx : MvContext) (entries : List ObjectEntry) :
    Except CliError (List TransferPlanItem) := do
  let planned := (entries.map (tosMoveItem args ctx)).filter (itemAllowed args)
  enforceTransferPlanPathTraversal args planned
  .ok (planned.filter fun item => !isFilteredHnsMoveDirectory args ctx.isHns item)

def queueTosStreamMoveEntry (args : MvArgs) (ctx : MvContext) (entry : ObjectEntry) :
    Except CliError (Option TransferPlanItem) :=
  let item := tosMoveItem args ctx entry
  if isFilteredHnsMoveDirectory args ctx.isHns item then .ok none
  else if itemAllowed args item then do
    enforceTransferPlanPathTraversal args [item]
    .ok (some item)
  else .ok none

def deletesBefore (left right : Text) : Bool :=
  keyDepth right < keyDepth left ||
    (keyDepth right = keyDepth left && (byteCount right < byteCount left ||
      (byteCount right = byteCount left && decide (left ≤ right))))

def orderedRecursiveMoveDeleteItems (planned : List TransferPlanItem) (isHns : Bool) :
    List TransferPlanItem :=
  if isHns then
    planned.mergeSort fun l r => deletesBefore (tosMoveDeleteSortKey l) (tosMoveDeleteSortKey r)
  else planned

def moveDeleteDepth (item : TransferPlanItem) : Nat := keyDepth (tosMoveDeleteSortKey item)

def isMoveDirectory (item : TransferPlanItem) : Bool :=
  tosDeleteKeyIsDirectory (tosMoveDeleteSortKey item)

def moveDeleteGroups (planned : List TransferPlanItem) (isHns : Bool) :
    List (List TransferPlanItem) :=
  let items := orderedRecursiveMoveDeleteItems planned isHns
  if isHns then
    items.filter (fun item => !isMoveDirectory item) ::
      (((items.filter isMoveDirectory).mergeSort fun l r =>
        deletesBefore (tosMoveDeleteSortKey l) (tosMoveDeleteSortKey r)).splitBy
          fun l r => moveDeleteDepth l == moveDeleteDepth r)
  else [items]

def sortUnmanifestedHnsDirectoryDeletesBottomUp (items : List (TransferPlanItem × Bool)) :
    List (TransferPlanItem × Bool) :=
  items.mergeSort fun l r => deletesBefore (tosMoveDeleteSortKey l.1) (tosMoveDeleteSortKey r.1)

def tosRecursiveMoveSourceRoot (args : MvArgs) : Option (Text × Text × Text) :=
  if hasMoveFilters args then none
  else
    match parseTosUri args.source true with
    | .error _ => none
    | .ok source =>
        match source.key with
        | none => none
        | some rawKey =>
            let key := normalizeRecursiveTosPrefix (some rawKey)
            if key = [] then none else some (source.bucket, key, formatTosUri source.bucket key)

theorem orderedRecursiveMoveDeleteItems_subset (planned : List TransferPlanItem) (isHns : Bool) :
    orderedRecursiveMoveDeleteItems planned isHns ⊆ planned := by
  intro item h
  unfold orderedRecursiveMoveDeleteItems at h
  split at h
  · exact List.mem_mergeSort.mp h
  · exact h

theorem moveDeleteGroups_subset (planned : List TransferPlanItem) (isHns : Bool) :
    ∀ g ∈ moveDeleteGroups planned isHns, g ⊆ planned := by
  intro g hg item hi
  apply orderedRecursiveMoveDeleteItems_subset planned isHns
  unfold moveDeleteGroups at hg
  split at hg
  · rcases List.mem_cons.mp hg with rfl | hg
    · exact (List.mem_filter.mp hi).1
    · have hm := List.mem_flatten_of_mem hg hi
      rw [List.flatten_splitBy] at hm
      exact (List.mem_filter.mp (List.mem_mergeSort.mp hm)).1
  · obtain rfl := List.mem_singleton.mp hg
    exact hi

theorem mem_planTosMove {args : MvArgs} {ctx : MvContext} {entries : List ObjectEntry}
    {planned : List TransferPlanItem} (h : planTosMove args ctx entries = .ok planned)
    {item : TransferPlanItem} :
    item ∈ planned ↔ ∃ entry ∈ entries, item = tosMoveItem args ctx entry ∧
      itemAllowed args item = true ∧ isFilteredHnsMoveDirectory args ctx.isHns item = false := by
  unfold planTosMove at h
  simp only at h
  cases hg : enforceTransferPlanPathTraversal args
      ((entries.map (tosMoveItem args ctx)).filter (itemAllowed args)) with
  | error e =>
    rw [hg] at h
    cases h
  | ok u =>
    rw [hg] at h
    cases h
    simp only [List.mem_filter, List.mem_map, Bool.not_eq_true']
    constructor
    · rintro ⟨⟨⟨e, he, rfl⟩, ha⟩, hf⟩
      exact ⟨e, he, rfl, ha, hf⟩
    · rintro ⟨e, he, rfl, ha, hf⟩
      exact ⟨⟨⟨e, he, rfl⟩, ha⟩, hf⟩

theorem queueTosStreamMoveEntry_some {args : MvArgs} {ctx : MvContext} {entry : ObjectEntry}
    {r : Option TransferPlanItem} (h : queueTosStreamMoveEntry args ctx entry = .ok r)
    {item : TransferPlanItem} :
    r = some item ↔ item = tosMoveItem args ctx entry ∧ itemAllowed args item = true ∧
      isFilteredHnsMoveDirectory args ctx.isHns item = false := by
  unfold queueTosStreamMoveEntry at h
  simp only at h
  split at h
  · cases h
    simp only [reduceCtorEq, false_iff]
    rintro ⟨rfl, -, hf⟩
    simp_all
  · split at h
    · cases hg : enforceTransferPlanPathTraversal args [tosMoveItem args ctx entry] with
      | error e =>
        rw [hg] at h
        cases h
      | ok u =>
        rw [hg] at h
        cases h
        constructor
        · rintro ⟨⟩
          exact ⟨rfl, ‹_›, by simp_all⟩
        · rintro ⟨rfl, -, -⟩
          rfl
    · cases h
      simp only [reduceCtorEq, false_iff]
      rintro ⟨rfl, ha, -⟩
      simp_all

end VeStorage.Tos.Move
