import VeStorage.Tos.Filter
import VeStorage.Lib.Sorted
import VeStorage.Lib.Walk
import Mathlib.Data.List.Lex
import Mathlib.Data.Prod.Lex
import Mathlib.Data.Char

namespace VeStorage.Tos.Rm
open Lib

inductive RecursiveListMode where
  | auto
  | flat
  | hierarchical
deriving DecidableEq

inductive RecursiveDeleteMode where
  | bottomUp
  | direct
deriving DecidableEq

def recursiveDeleteModeName : RecursiveDeleteMode → Text
  | .bottomUp => "bottom-up".toList
  | .direct => "direct".toList

structure RmArgs where
  path : Text
  allVersions : Bool
  includeUploads : Bool
  noManifest : Bool
  recursiveListMode : Option RecursiveListMode
  recursiveDeleteMode : Option RecursiveDeleteMode
  includePattern : Option Text
  excludePattern : Option Text
  batchConcurrency : Nat
  listConcurrency : Nat

structure RmEnv where
  isHnsBucket : Bool
  forceFnsDelete : Bool
  forceHierarchicalListing : Bool
  isTosBinary : Bool

def resolveTosRecursiveListMode (env : RmEnv) (mode : Option RecursiveListMode) : Bool :=
  if env.forceHierarchicalListing ∨ env.isTosBinary then true
  else match mode.getD .auto with
    | .auto => env.isHnsBucket
    | .flat => false
    | .hierarchical => true

def resolveTosRecursiveDeleteMode (env : RmEnv) (args : RmArgs) :
    Except CliError (Option RecursiveDeleteMode) :=
  if env.forceFnsDelete then
    match args.recursiveDeleteMode with
    | some mode => .error (.validationError
        ("tos-cli recursive delete uses FNS-style planned object deletes; --recursive-delete-mode ".toList
          ++ recursiveDeleteModeName mode ++ " is not supported".toList))
    | none => .ok none
  else if env.isHnsBucket = false then
    match args.recursiveDeleteMode with
    | some mode => .error (.validationError ("ve-tos rm --recursive-delete-mode ".toList ++
        recursiveDeleteModeName mode ++ " is only supported for HNS buckets".toList))
    | none => .ok none
  else .ok (some (args.recursiveDeleteMode.getD .bottomUp))

structure RmPlan where
  target : ParsedTosUri
  hierarchical : Bool
  bottomUp : Bool
deriving DecidableEq

def RmPlan.pre (plan : RmPlan) : Text := plan.target.key.getD []

inductive RmRoute where
  | direct (target : ParsedTosUri)
  | planned (plan : RmPlan)
deriving DecidableEq

def rmRoute (args : RmArgs) (env : RmEnv) : Except CliError RmRoute := do
  let target := normalizeRecursiveTosTarget (← parseTosUri args.path true)
  let deleteMode ← resolveTosRecursiveDeleteMode env args
  if deleteMode = some .direct then
    if args.allVersions then
      .error (.validationError
        "ve-tos rm --recursive-delete-mode direct cannot be combined with --all-versions".toList)
    else .ok (.direct target)
  else .ok (.planned ⟨target, resolveTosRecursiveListMode env args.recursiveListMode,
    decide (deleteMode = some .bottomUp)⟩)

structure ObjectVersionRef where
  key : Text
  versionId : Text
deriving DecidableEq

structure MultipartUploadRef where
  key : Text
  uploadId : Text
deriving DecidableEq

structure Bucket where
  objects : Finset Text
  versions : Finset ObjectVersionRef
  uploads : Finset MultipartUploadRef
  uploads_named : ∀ u ∈ uploads, u.key ≠ [] ∧ u.uploadId ≠ []

def listDelimiter (hierarchical : Bool) : Option Char := if hierarchical then some '/' else none

def versionRank (v : ObjectVersionRef) : Text ×ₗ Text := toLex (v.key, v.versionId)

-- `out` holds what the scans of the listing returned, in the order of their completion.
def objectKeysOf (hierarchical : Bool) (out : List Text) : List Text :=
  if hierarchical then dedupBy id (sortOn id out) else sortOn id out

def objectVersionsOf (hierarchical : Bool) (out : List ObjectVersionRef) : List ObjectVersionRef :=
  if hierarchical then dedupBy id (sortOn versionRank out) else out

def pushUniqueKey (keys : List Text) (key : Text) : List Text :=
  if key ∈ keys then keys else keys ++ [key]

def bottomUpRank (key : Text) : ℕᵒᵈ ×ₗ ℕᵒᵈ ×ₗ Text :=
  toLex (OrderDual.toDual (keyDepth key), toLex (OrderDual.toDual (byteCount key), key))

def sortKeysBottomUp (keys : List Text) : List Text := dedupBy id (sortOn bottomUpRank keys)

def sortVersionsBottomUp (versions : List ObjectVersionRef) : List ObjectVersionRef :=
  sortOn (fun v => bottomUpRank v.key) versions

def RmArgs.allows (args : RmArgs) (key : Text) : Bool :=
  patternAllows key args.includePattern args.excludePattern

def deleteTosKeysBottomUp (keys : List Text) : List (List Text) :=
  keys.filter (fun key => !tosDeleteKeyIsDirectory key) ::
    levels keyDepth (sortKeysBottomUp (keys.filter tosDeleteKeyIsDirectory))

def deleteTosKeysForRm (args : RmArgs) (bottomUp : Bool) (keys : List Text) : List (List Text) :=
  let deleteKeys := keys.filter args.allows
  if bottomUp then deleteTosKeysBottomUp deleteKeys else [deleteKeys]

def manifestKeys (plan : RmPlan) (listed : List Text) : List Text :=
  if plan.bottomUp then
    sortKeysBottomUp (match plan.target.key with
      | some key => pushUniqueKey listed key
      | none => listed)
  else listed

def streamBottomUpKeys (plan : RmPlan) (listed : List Text) : List Text :=
  if plan.pre = [] then listed else pushUniqueKey listed plan.pre

def deleteTosVersions (args : RmArgs) (plan : RmPlan) (listed : List ObjectVersionRef) :
    List (List ObjectVersionRef) :=
  let versions := if plan.bottomUp then sortVersionsBottomUp listed else listed
  let versionsToDelete := versions.filter fun v => args.allows v.key
  if plan.bottomUp then levels (fun v => keyDepth v.key) versionsToDelete else [versionsToDelete]

def queueTosStreamDelete (args : RmArgs) (entries : List Text) : List Text :=
  entries.filter args.allows

def namedUploads (uploads : List MultipartUploadRef) : List MultipartUploadRef :=
  uploads.filter fun u => decide (u.key ≠ [] ∧ u.uploadId ≠ [])

theorem bottomUpRank_injective : Function.Injective bottomUpRank := by
  intro key key' h
  have h' := toLex_inj.mp h
  simp only [Prod.mk.injEq, toLex_inj] at h'
  exact h'.2.2

theorem versionRank_injective : Function.Injective versionRank := by
  intro v v' h
  have h' := toLex_inj.mp h
  cases v
  cases v'
  simpa using h'

theorem mem_objectKeysOf {hierarchical : Bool} {out : List Text} {key : Text} :
    key ∈ objectKeysOf hierarchical out ↔ key ∈ out := by
  cases hierarchical with
  | true => exact mem_dedupBy_sortOn
  | false => exact mem_sortOn

theorem objectKeysOf_nodup {hierarchical : Bool} {out : List Text} (h : out.Nodup) :
    (objectKeysOf hierarchical out).Nodup := by
  cases hierarchical with
  | true => exact dedupBy_sortOn_nodup Function.injective_id out
  | false => exact sortOn_nodup h

theorem mem_objectVersionsOf {hierarchical : Bool} {out : List ObjectVersionRef}
    {v : ObjectVersionRef} : v ∈ objectVersionsOf hierarchical out ↔ v ∈ out := by
  cases hierarchical with
  | true => exact mem_dedupBy_sortOn
  | false => exact Iff.rfl

theorem objectVersionsOf_nodup {hierarchical : Bool} {out : List ObjectVersionRef}
    (h : out.Nodup) : (objectVersionsOf hierarchical out).Nodup := by
  cases hierarchical with
  | true => exact dedupBy_sortOn_nodup versionRank_injective out
  | false => exact h

theorem mem_pushUniqueKey {keys : List Text} {key k : Text} :
    k ∈ pushUniqueKey keys key ↔ k ∈ keys ∨ k = key := by
  unfold pushUniqueKey
  split
  · constructor
    · exact .inl
    · rintro (h | rfl)
      · exact h
      · assumption
  · simp

theorem pushUniqueKey_nodup {keys : List Text} (h : keys.Nodup) (key : Text) :
    (pushUniqueKey keys key).Nodup := by
  unfold pushUniqueKey
  split
  · exact h
  · rename_i hnew
    refine List.nodup_append.mpr ⟨h, List.nodup_singleton key, ?_⟩
    rintro a ha b hb rfl
    exact hnew (List.mem_singleton.mp hb ▸ ha)

theorem mem_sortKeysBottomUp {keys : List Text} {key : Text} :
    key ∈ sortKeysBottomUp keys ↔ key ∈ keys := mem_dedupBy_sortOn

theorem sortKeysBottomUp_nodup (keys : List Text) : (sortKeysBottomUp keys).Nodup :=
  dedupBy_sortOn_nodup bottomUpRank_injective keys

theorem mem_deleteTosKeysForRm {args : RmArgs} {bottomUp : Bool} {keys : List Text} {key : Text} :
    key ∈ (deleteTosKeysForRm args bottomUp keys).flatten ↔ key ∈ keys ∧ args.allows key = true := by
  cases bottomUp with
  | false => simp [deleteTosKeysForRm]
  | true =>
    simp only [deleteTosKeysForRm, if_true, deleteTosKeysBottomUp, List.flatten_cons,
      levels_flatten, List.mem_append, mem_sortKeysBottomUp, List.mem_filter]
    cases tosDeleteKeyIsDirectory key <;> simp

theorem deleteTosKeysForRm_nodup (args : RmArgs) (bottomUp : Bool) {keys : List Text}
    (h : keys.Nodup) : (deleteTosKeysForRm args bottomUp keys).flatten.Nodup := by
  cases bottomUp with
  | false => simpa [deleteTosKeysForRm] using h.filter _
  | true =>
    simp only [deleteTosKeysForRm, if_true, deleteTosKeysBottomUp, List.flatten_cons,
      levels_flatten]
    refine List.nodup_append.mpr ⟨(h.filter _).filter _, sortKeysBottomUp_nodup _, ?_⟩
    rintro key hleaf _ hdir rfl
    have hleaf := (List.mem_filter.mp hleaf).2
    have hdir := (List.mem_filter.mp (mem_sortKeysBottomUp.mp hdir)).2
    simp [hdir] at hleaf

theorem mem_manifestKeys {plan : RmPlan} {listed : List Text} {key : Text} (hkey : key ≠ []) :
    key ∈ manifestKeys plan listed ↔ key ∈ listed ∨ plan.bottomUp = true ∧ key = plan.pre := by
  unfold manifestKeys RmPlan.pre
  cases plan.bottomUp with
  | false => simp
  | true =>
    cases plan.target.key with
    | none => simp [mem_sortKeysBottomUp, hkey]
    | some k => simp [mem_sortKeysBottomUp, mem_pushUniqueKey]

theorem manifestKeys_nodup (plan : RmPlan) {listed : List Text} (h : listed.Nodup) :
    (manifestKeys plan listed).Nodup := by
  unfold manifestKeys
  split
  · exact sortKeysBottomUp_nodup _
  · exact h

theorem mem_streamBottomUpKeys {plan : RmPlan} {listed : List Text} {key : Text} (hkey : key ≠ []) :
    key ∈ streamBottomUpKeys plan listed ↔ key ∈ listed ∨ key = plan.pre := by
  unfold streamBottomUpKeys
  split
  · rename_i h
    simp [h, hkey]
  · exact mem_pushUniqueKey

theorem streamBottomUpKeys_nodup (plan : RmPlan) {listed : List Text} (h : listed.Nodup) :
    (streamBottomUpKeys plan listed).Nodup := by
  unfold streamBottomUpKeys
  split
  · exact h
  · exact pushUniqueKey_nodup h _

theorem mem_deleteTosVersions {args : RmArgs} {plan : RmPlan} {listed : List ObjectVersionRef}
    {v : ObjectVersionRef} :
    v ∈ (deleteTosVersions args plan listed).flatten ↔ v ∈ listed ∧ args.allows v.key = true := by
  unfold deleteTosVersions
  cases plan.bottomUp with
  | false => simp
  | true =>
    simp only [if_true, levels_flatten, List.mem_filter, sortVersionsBottomUp]
    rw [mem_sortOn]

theorem deleteTosVersions_nodup (args : RmArgs) (plan : RmPlan) {listed : List ObjectVersionRef}
    (h : listed.Nodup) : (deleteTosVersions args plan listed).flatten.Nodup := by
  unfold deleteTosVersions
  cases plan.bottomUp with
  | false => simpa using h.filter _
  | true =>
    simp only [if_true, levels_flatten]
    exact (sortOn_nodup h).filter _

end VeStorage.Tos.Rm
