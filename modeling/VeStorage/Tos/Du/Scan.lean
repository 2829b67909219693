import VeStorage.Tos.Du.Profile
import VeStorage.Lib.Worklist

namespace VeStorage.Tos.Du
open Lib
open Lib.Worklist (Reach)
open Payload (ObjectEntry)

structure DuPage where
  entries : List ObjectEntry
  prefixes : List Text
  requestId : Option Text

def tosDirectoryMarkerPrefix (key : Text) : Option Text :=
  if ['/'] <:+ key then normalizeTosDirectoryPrefix key else none

section Dedupe

variable (currentDirectory : Option Text)

def dedupePrefix (found : List Text) (commonPrefix : Text) : List Text :=
  match normalizeTosDirectoryPrefix commonPrefix with
  | none => found
  | some dir => if currentDirectory = some dir ∨ dir ∈ found then found else found ++ [dir]

def dedupeObject (kept : List ObjectEntry × List Text) (object : ObjectEntry) :
    List ObjectEntry × List Text :=
  match tosDirectoryMarkerPrefix object.key with
  | some dir =>
      if currentDirectory ≠ some dir ∧ dir ∉ kept.2 then (kept.1, kept.2 ++ [dir]) else kept
  | none => (kept.1 ++ [object], kept.2)

end Dedupe

-- The objects, the directories and the prefixes to scan of one page.
def dedupeTosDuPageEntries (objects : List ObjectEntry) (commonPrefixes : List Text)
    (currentPrefix : Text) : List ObjectEntry × List Text × List Text :=
  let currentDirectory := normalizeTosDirectoryPrefix currentPrefix
  let childPrefixes := commonPrefixes.foldl (dedupePrefix currentDirectory) []
  let kept := objects.foldl (dedupeObject currentDirectory) ([], childPrefixes)
  (kept.1, kept.2, childPrefixes)

structure DuPrefixScan where
  accumulator : DuAccumulator
  childPrefixes : List Text

section Collect

variable (parseRfc3339Millis : Text → Option Int) (bucket : Text) (maxDepth : Option Nat)
  (topK : Nat) (captureManifest : Bool)

def collectTosDuFlat (pre : Option Text) (pages : List DuPage) : DuAccumulator :=
  pages.foldl (fun acc page =>
    page.entries.foldl (DuAccumulator.recordTosObject parseRfc3339Millis bucket pre maxDepth)
      (acc.recordRequestId page.requestId)) (.new topK captureManifest)

variable (rootPrefix : Text)

def scanPage (currentPrefix : Text) (scan : DuPrefixScan) (page : DuPage) : DuPrefixScan :=
  let listed := dedupeTosDuPageEntries page.entries page.prefixes currentPrefix
  let acc := scan.accumulator.recordRequestId page.requestId
  let acc := listed.1.foldl
    (DuAccumulator.recordTosObject parseRfc3339Millis bucket (some rootPrefix) maxDepth) acc
  ⟨listed.2.1.foldl DuAccumulator.recordDirectoryPrefix acc, scan.childPrefixes ++ listed.2.2⟩

def scanTosDuPrefix (currentPrefix : Text) (pages : List DuPage) : DuPrefixScan :=
  pages.foldl (scanPage parseRfc3339Millis bucket maxDepth rootPrefix currentPrefix)
    ⟨.new topK captureManifest, []⟩

structure Collector where
  walk : Worklist.State Text
  accumulator : DuAccumulator

variable (listing : Text → List DuPage) (listConcurrency : Nat)

def scanOf (dir : Text) : DuPrefixScan :=
  scanTosDuPrefix parseRfc3339Millis bucket maxDepth topK captureManifest rootPrefix dir (listing dir)

def childPrefixesOf (dir : Text) : List Text :=
  (scanOf parseRfc3339Millis bucket maxDepth topK captureManifest rootPrefix listing dir).childPrefixes

-- One turn of the loop over the prefixes in flight, which complete in any order.
inductive CollectStep : Collector → List Text → Collector → Prop
  | start {walk walk' : Worklist.State Text} (acc : DuAccumulator)
      (h : Worklist.Step
        (childPrefixesOf parseRfc3339Millis bucket maxDepth topK captureManifest rootPrefix listing)
        (max listConcurrency 1) walk [] walk') :
      CollectStep ⟨walk, acc⟩ [] ⟨walk', acc⟩
  | scanned {walk walk' : Worklist.State Text} {dir : Text} {visited : List Text} (acc : DuAccumulator)
      (h : Worklist.Step
        (childPrefixesOf parseRfc3339Millis bucket maxDepth topK captureManifest rootPrefix listing)
        (max listConcurrency 1) walk [dir] walk')
      (hvisited : visited.Perm (scanOf parseRfc3339Millis bucket maxDepth topK captureManifest
        rootPrefix listing dir).accumulator.directoryPrefixes) :
      CollectStep ⟨walk, acc⟩ [dir] ⟨walk', acc.merge (scanOf parseRfc3339Millis bucket maxDepth topK
        captureManifest rootPrefix listing dir).accumulator visited⟩

inductive Collected : Collector → List Text → Prop
  | start : Collected ⟨.init rootPrefix, .new topK captureManifest⟩ []
  | step {c c' : Collector} {scanned out : List Text} (h : Collected c scanned)
      (hs : CollectStep parseRfc3339Millis bucket maxDepth topK captureManifest rootPrefix listing
        listConcurrency c out c') : Collected c' (scanned ++ out)

end Collect

section Listed

-- What a page lists, whatever came on the pages before it.
def listedPrefix (currentDirectory : Option Text) (commonPrefix : Text) : Option Record :=
  match normalizeTosDirectoryPrefix commonPrefix with
  | none => none
  | some dir => if currentDirectory = some dir then none else some (.directory dir)

def listedObject (currentDirectory : Option Text) (object : ObjectEntry) : Option Record :=
  match tosDirectoryMarkerPrefix object.key with
  | none => some (.object object)
  | some dir => if currentDirectory = some dir then none else some (.directory dir)

def listedRecords (currentPrefix : Text) (page : DuPage) : List Record :=
  let currentDirectory := normalizeTosDirectoryPrefix currentPrefix
  page.prefixes.filterMap (listedPrefix currentDirectory) ++
    page.entries.filterMap (listedObject currentDirectory)

def dedupedRecords (currentPrefix : Text) (page : DuPage) : List Record :=
  let listed := dedupeTosDuPageEntries page.entries page.prefixes currentPrefix
  listed.1.map .object ++ listed.2.1.map .directory

def childDirectories (listing : Text → List DuPage) (dir : Text) : List Text :=
  (listing dir).flatMap fun page =>
    folders (page.prefixes.filterMap (listedPrefix (normalizeTosDirectoryPrefix dir)))

variable {currentDirectory : Option Text} {found : List Text} {d : Text}

theorem mem_dedupePrefix {commonPrefix : Text} : d ∈ dedupePrefix currentDirectory found commonPrefix ↔
    d ∈ found ∨ (listedPrefix currentDirectory commonPrefix).bind Record.folder = some d := by
  rw [dedupePrefix, listedPrefix]
  cases hn : normalizeTosDirectoryPrefix commonPrefix with
  | none => simp
  | some dir =>
    dsimp only
    by_cases hcurrent : currentDirectory = some dir
    · rw [if_pos (.inl hcurrent), if_pos hcurrent]
      simp
    · rw [if_neg hcurrent, Option.bind_some, Record.folder, normalize_of_normalize hn, Option.some.injEq]
      split
      next hin =>
        have hin := hin.resolve_left hcurrent
        exact ⟨.inl, fun h => h.elim id fun heq => heq ▸ hin⟩
      next hout => rw [List.mem_append, List.mem_singleton, @eq_comm _ d]

theorem mem_dedupePrefixes (commonPrefixes : List Text) :
    d ∈ commonPrefixes.foldl (dedupePrefix currentDirectory) found ↔
      d ∈ found ∨ ∃ p ∈ commonPrefixes, (listedPrefix currentDirectory p).bind Record.folder = some d := by
  induction commonPrefixes generalizing found with
  | nil => simp
  | cons p commonPrefixes ih =>
    rw [List.foldl_cons, ih, mem_dedupePrefix, List.exists_mem_cons_iff, or_assoc]

theorem normalize_of_marker {key : Text} (h : tosDirectoryMarkerPrefix key = some d) :
    normalizeTosDirectoryPrefix key = some d := by
  rw [tosDirectoryMarkerPrefix] at h
  split at h
  · exact h
  · cases h

variable {object : ObjectEntry} {kept : List ObjectEntry × List Text}

theorem dedupeObject_objects : (dedupeObject currentDirectory kept object).1 =
    kept.1 ++ ((listedObject currentDirectory object).bind Record.entry).toList := by
  rw [dedupeObject, listedObject]
  cases hm : tosDirectoryMarkerPrefix object.key with
  | none => rfl
  | some dir =>
    dsimp only
    by_cases hcurrent : currentDirectory = some dir
    · rw [if_neg fun h => h.1 hcurrent, if_pos hcurrent]
      exact (List.append_nil _).symm
    · rw [if_neg hcurrent]
      split
      · exact (List.append_nil _).symm
      · exact (List.append_nil _).symm

theorem mem_dedupeObject : d ∈ (dedupeObject currentDirectory kept object).2 ↔
    d ∈ kept.2 ∨ (listedObject currentDirectory object).bind Record.folder = some d := by
  rw [dedupeObject, listedObject]
  cases hm : tosDirectoryMarkerPrefix object.key with
  | none => simp [Record.folder]
  | some dir =>
    have hn := normalize_of_normalize (normalize_of_marker hm)
    dsimp only
    by_cases hcurrent : currentDirectory = some dir
    · rw [if_neg fun h => h.1 hcurrent, if_pos hcurrent]
      simp
    · rw [if_neg hcurrent, Option.bind_some, Record.folder, hn, Option.some.injEq]
      split
      next hnew => rw [List.mem_append, List.mem_singleton, @eq_comm _ d]
      next hold =>
        have hin : dir ∈ kept.2 := by
          by_contra hout
          exact hold ⟨hcurrent, hout⟩
        exact ⟨.inl, fun h => h.elim id fun heq => heq ▸ hin⟩

theorem dedupeObjects_objects (listed : List ObjectEntry) :
    (listed.foldl (dedupeObject currentDirectory) kept).1 =
      kept.1 ++ objects (listed.filterMap (listedObject currentDirectory)) := by
  rw [objects, List.filterMap_filterMap]
  induction listed generalizing kept with
  | nil => exact (List.append_nil _).symm
  | cons object listed ih =>
    rw [List.foldl_cons, ih, dedupeObject_objects, List.append_assoc]
    rw [List.filterMap_cons]
    cases (listedObject currentDirectory object).bind Record.entry <;> rfl

theorem mem_dedupeObjects (listed : List ObjectEntry) :
    d ∈ (listed.foldl (dedupeObject currentDirectory) kept).2 ↔
      d ∈ kept.2 ∨ ∃ o ∈ listed, (listedObject currentDirectory o).bind Record.folder = some d := by
  induction listed generalizing kept with
  | nil => simp
  | cons object listed ih =>
    rw [List.foldl_cons, ih, mem_dedupeObject, List.exists_mem_cons_iff, or_assoc]

theorem mem_folders_filterMap {α : Type} {f : α → Option Record} {l : List α} :
    d ∈ folders (l.filterMap f) ↔ ∃ a ∈ l, (f a).bind Record.folder = some d := by
  rw [folders, List.filterMap_filterMap, List.mem_filterMap]

theorem objects_map_object (l : List ObjectEntry) : objects (l.map .object) = l := by
  rw [objects, List.filterMap_map]
  exact List.filterMap_some

theorem objects_map_directory (dirs : List Text) : objects (dirs.map .directory) = [] := by
  rw [objects, List.filterMap_map]
  exact List.filterMap_none dirs

theorem folders_map_object (l : List ObjectEntry) : folders (l.map .object) = [] := by
  rw [folders, List.filterMap_map]
  exact List.filterMap_none l

theorem objects_listedPrefixes (commonPrefixes : List Text) :
    objects (commonPrefixes.filterMap (listedPrefix currentDirectory)) = [] := by
  rw [objects, List.filterMap_filterMap]
  refine List.filterMap_eq_nil_iff.mpr fun p _ => ?_
  rw [listedPrefix]
  split
  · rfl
  · split <;> rfl

theorem mem_folders_map_directory {dirs : List Text} :
    d ∈ folders (dirs.map .directory) ↔ ∃ dir ∈ dirs, normalizeTosDirectoryPrefix dir = some d := by
  rw [folders, List.filterMap_map, List.mem_filterMap]
  rfl

theorem same_deduped (currentPrefix : Text) (page : DuPage) :
    Same (dedupedRecords currentPrefix page) (listedRecords currentPrefix page) := by
  constructor
  · rw [dedupedRecords, listedRecords, objects_append, objects_append, objects_map_object,
      objects_map_directory, objects_listedPrefixes, List.append_nil, List.nil_append,
      dedupeTosDuPageEntries, dedupeObjects_objects, List.nil_append]
  · intro d
    have hdirectory : ∀ d, d ∈ (dedupeTosDuPageEntries page.entries page.prefixes currentPrefix).2.1 ↔
        d ∈ folders (listedRecords currentPrefix page) := by
      intro d
      rw [listedRecords, folders_append, List.mem_append, mem_folders_filterMap, mem_folders_filterMap,
        dedupeTosDuPageEntries, mem_dedupeObjects, mem_dedupePrefixes]
      simp
    rw [dedupedRecords, folders_append, folders_map_object, List.nil_append, mem_folders_map_directory,
      ← hdirectory d]
    constructor
    · rintro ⟨dir, hdir, hn⟩
      rw [normalize_folder ((hdirectory dir).mp hdir)] at hn
      rwa [← Option.some.inj hn]
    · intro hd
      exact ⟨d, hd, normalize_folder ((hdirectory d).mp hd)⟩

end Listed

end VeStorage.Tos.Du
