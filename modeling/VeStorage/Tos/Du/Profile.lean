import VeStorage.Tos.Du.Accumulator

namespace VeStorage.Tos.Du
open Lib
open Lib.Tables (Holds Limited added added_append bump bumpLimited holds_nil holds_self limited_nil mem_keys_append
  mergeInto mergeLimited total total_bumpLimited)
open Lib.TopK (TopOf keepTop topOf_keepTop topOf_nil)
open Payload (ObjectEntry)

inductive Record
  | object (entry : ObjectEntry)
  | directory (dir : Text)

def Record.entry : Record → Option ObjectEntry
  | .object entry => some entry
  | .directory _ => none

def Record.folder : Record → Option Text
  | .object _ => none
  | .directory dir => normalizeTosDirectoryPrefix dir

def objects (es : List Record) : List ObjectEntry := es.filterMap Record.entry

def folders (es : List Record) : List Text := es.filterMap Record.folder

section Fields

variable {acc : DuAccumulator} {sample : DuObjectSample} {γ : Type} [LinearOrder γ]
  {rank : DuObjectSample → γ} {k : Nat} {kept all more : List DuObjectSample}

def keepSample (rank : DuObjectSample → γ) (k : Nat) (kept : List DuObjectSample)
    (sample : DuObjectSample) : List DuObjectSample :=
  if k = 0 then kept else keepTop rank k sample kept

theorem topOf_keepSample (h : TopOf rank k kept all) :
    TopOf rank k (keepSample rank k kept sample) (all ++ [sample]) := by
  rw [keepSample]
  split
  next hk =>
    subst hk
    obtain ⟨rest, h⟩ := h
    have hnil : kept = [] := List.eq_nil_of_length_eq_zero (Nat.le_zero.mp h.length_le)
    exact ⟨all ++ [sample], by rw [hnil, List.nil_append], h.sorted, by simp [hnil], h.length_le,
      fun _ => by rw [hnil, List.length_nil]⟩
  next hk => exact h.append (topOf_keepTop kept)

theorem topOf_keepSamples (h : TopOf rank k kept all) (more : List DuObjectSample) :
    TopOf rank k (more.foldl (keepSample rank k) kept) (all ++ more) := by
  induction more generalizing kept all with
  | nil => rwa [List.append_nil]
  | cons sample more ih =>
    have hkept : TopOf rank k (keepSample rank k kept sample) (all ++ [sample]) := topOf_keepSample h
    rw [List.append_cons]
    exact ih hkept

theorem recordLargestSample_eq : acc.recordLargestSample sample =
    { acc with largestObjects := keepSample largestRank acc.topK acc.largestObjects sample } := by
  unfold DuAccumulator.recordLargestSample keepSample
  split <;> rfl

theorem recordOldestSample_eq : acc.recordOldestSample sample =
    { acc with oldestObjects := keepSample oldestRank acc.topK acc.oldestObjects sample } := by
  unfold DuAccumulator.recordOldestSample keepSample
  split <;> rfl

theorem foldl_recordLargestSample (more : List DuObjectSample) (acc : DuAccumulator) :
    more.foldl DuAccumulator.recordLargestSample acc =
      { acc with largestObjects := more.foldl (keepSample largestRank acc.topK) acc.largestObjects } := by
  induction more generalizing acc with
  | nil => rfl
  | cons sample more ih =>
    rw [List.foldl_cons, recordLargestSample_eq, ih]
    rfl

theorem foldl_recordOldestSample (more : List DuObjectSample) (acc : DuAccumulator) :
    more.foldl DuAccumulator.recordOldestSample acc =
      { acc with oldestObjects := more.foldl (keepSample oldestRank acc.topK) acc.oldestObjects } := by
  induction more generalizing acc with
  | nil => rfl
  | cons sample more ih =>
    rw [List.foldl_cons, recordOldestSample_eq, ih]
    rfl

theorem recordSample_eq : acc.recordSample sample = { acc with
    largestObjects := keepSample largestRank acc.topK acc.largestObjects sample
    oldestObjects :=
      if sample.timestampMillis.isSome then keepSample oldestRank acc.topK acc.oldestObjects sample
      else acc.oldestObjects } := by
  unfold DuAccumulator.recordSample
  rw [recordLargestSample_eq]
  dsimp only
  split
  · rw [recordOldestSample_eq]
  · rfl

theorem mergeRequestIds_eq (requestIds : List Text) (omitted : Nat) (acc : DuAccumulator) :
    ∃ ids n, acc.mergeRequestIds requestIds omitted =
      { acc with requestIds := ids, requestIdsOmitted := n } := by
  unfold DuAccumulator.mergeRequestIds
  have hfold : ∀ (ids : List Text) (n : Nat), ∃ ids' n', requestIds.foldl (fun acc requestId =>
      if acc.requestIds.length < duRequestIdLimit then
        { acc with requestIds := acc.requestIds ++ [requestId] }
      else { acc with requestIdsOmitted := acc.requestIdsOmitted + 1 })
      { acc with requestIds := ids, requestIdsOmitted := n } =
        { acc with requestIds := ids', requestIdsOmitted := n' } := by
    induction requestIds with
    | nil => exact fun ids n => ⟨ids, n, rfl⟩
    | cons requestId requestIds ih =>
      intro ids n
      rw [List.foldl_cons]
      dsimp only
      split
      · exact ih (ids ++ [requestId]) n
      · exact ih ids (n + 1)
  exact hfold acc.requestIds _

theorem recordRequestId_eq (requestId : Option Text) (acc : DuAccumulator) :
    ∃ ids n, acc.recordRequestId requestId = { acc with requestIds := ids, requestIdsOmitted := n } := by
  unfold DuAccumulator.recordRequestId
  split
  · exact ⟨_, _, rfl⟩
  · split
    · exact ⟨_, _, rfl⟩
    · exact ⟨_, _, rfl⟩

end Fields

section Folders

variable {acc : DuAccumulator} {dir d : Text} {found : List Text}

def addFolder (found : List Text) (dir : Text) : List Text :=
  match normalizeTosDirectoryPrefix dir with
  | none => found
  | some dir => if dir ∈ found then found else found ++ [dir]

theorem mem_addFolder : d ∈ addFolder found dir ↔
    d ∈ found ∨ normalizeTosDirectoryPrefix dir = some d := by
  rw [addFolder]
  cases normalizeTosDirectoryPrefix dir with
  | none => simp
  | some dir =>
    dsimp only
    split
    next hin =>
      rw [Option.some.injEq]
      exact ⟨.inl, fun h => h.elim id fun heq => heq ▸ hin⟩
    next hout => rw [List.mem_append, List.mem_singleton, Option.some.injEq, eq_comm (a := d)]

theorem nodup_addFolder (h : found.Nodup) : (addFolder found dir).Nodup := by
  rw [addFolder]
  cases normalizeTosDirectoryPrefix dir with
  | none => exact h
  | some dir =>
    dsimp only
    split
    next hin => exact h
    next hout =>
      refine h.append (List.nodup_singleton dir) ?_
      rwa [List.disjoint_singleton]

theorem mem_addFolders (dirs : List Text) : d ∈ dirs.foldl addFolder found ↔
    d ∈ found ∨ ∃ dir ∈ dirs, normalizeTosDirectoryPrefix dir = some d := by
  induction dirs generalizing found with
  | nil => simp
  | cons dir dirs ih =>
    rw [List.foldl_cons, ih, mem_addFolder, List.exists_mem_cons_iff, or_assoc]

theorem nodup_addFolders (h : found.Nodup) (dirs : List Text) : (dirs.foldl addFolder found).Nodup := by
  induction dirs generalizing found with
  | nil => exact h
  | cons dir dirs ih => exact ih (nodup_addFolder h)

theorem recordDirectoryPrefix_eq (h : acc.directoryCount = acc.directoryPrefixes.length) :
    acc.recordDirectoryPrefix dir = { acc with
      directoryPrefixes := addFolder acc.directoryPrefixes dir
      directoryCount := (addFolder acc.directoryPrefixes dir).length } := by
  unfold DuAccumulator.recordDirectoryPrefix addFolder
  cases normalizeTosDirectoryPrefix dir with
  | none => rw [← h]
  | some dir =>
    dsimp only
    split
    · rw [← h]
    · rw [List.length_append, ← h]
      rfl

theorem foldl_recordDirectoryPrefix (h : acc.directoryCount = acc.directoryPrefixes.length)
    (dirs : List Text) : dirs.foldl DuAccumulator.recordDirectoryPrefix acc = { acc with
      directoryPrefixes := dirs.foldl addFolder acc.directoryPrefixes
      directoryCount := (dirs.foldl addFolder acc.directoryPrefixes).length } := by
  induction dirs generalizing acc with
  | nil => rw [List.foldl_nil, List.foldl_nil, ← h]
  | cons dir dirs ih =>
    rw [List.foldl_cons, recordDirectoryPrefix_eq h, ih rfl]
    rfl

theorem normalize_of_normalize (h : normalizeTosDirectoryPrefix dir = some d) :
    normalizeTosDirectoryPrefix d = some d := by
  unfold normalizeTosDirectoryPrefix at h ⊢
  dsimp only at h ⊢
  split at h
  · cases h
  next hne =>
    obtain rfl := Option.some.inj h
    rw [trimEnd_append_self, trimEnd_idem, if_neg hne]

end Folders

section Summary

variable (parseRfc3339Millis : Text → Option Int) (bucket : Text) (rootPrefix : Option Text)
  (maxDepth : Option Nat)

def DuAccumulator.record (acc : DuAccumulator) : Record → DuAccumulator
  | .object entry => acc.recordTosObject parseRfc3339Millis bucket rootPrefix maxDepth entry
  | .directory dir => acc.recordDirectoryPrefix dir

def weight (entry : ObjectEntry) : DuDistributionBucket := ⟨1, entry.size.toNat⟩

def sizeEntries (es : List Record) : Buckets :=
  (objects es).map fun entry => (sizeHistogramBucket entry.size, weight entry)

def classEntries (es : List Record) : Buckets :=
  (objects es).map fun entry => (storageClassBucket entry.storageClass, weight entry)

def totalBytes (es : List Record) : Nat := ((objects es).map fun entry => entry.size.toNat).sum

def samples (es : List Record) : List DuObjectSample := (objects es).map (duObjectSample parseRfc3339Millis)

def datedSamples (es : List Record) : List DuObjectSample :=
  (samples parseRfc3339Millis es).filter fun sample => sample.timestampMillis.isSome

-- What an accumulator holds of the records it has been given.
structure Summary (topK : Nat) (es : List Record) (acc : DuAccumulator) : Prop where
  limit : acc.topK = topK
  objectCount : acc.objectCount = (objects es).length
  totalBytes : acc.totalBytes = totalBytes es
  directoryCount : acc.directoryCount = acc.directoryPrefixes.length
  distinct : acc.directoryPrefixes.Nodup
  directoryPrefixes : ∀ d, d ∈ acc.directoryPrefixes ↔ d ∈ folders es
  fileTypes : Limited duCategoryBucketLimit duOverflowBucket acc.fileTypes
  fileTypesTotal : total acc.fileTypes = ⟨acc.objectCount, acc.totalBytes⟩
  directories : Limited duCategoryBucketLimit duOverflowBucket acc.directories
  directoriesTotal : total acc.directories = ⟨acc.objectCount, acc.totalBytes⟩
  sizeHistogram : Holds acc.sizeHistogram (emptyHistogram ++ sizeEntries es)
  storageClasses : Holds acc.storageClasses (classEntries es)
  largest : TopOf largestRank topK acc.largestObjects (samples parseRfc3339Millis es)
  oldest : TopOf oldestRank topK acc.oldestObjects (datedSamples parseRfc3339Millis es)

variable {parseRfc3339Millis bucket rootPrefix maxDepth} {topK : Nat} {es es' : List Record}
  {acc acc' : DuAccumulator}

theorem objects_append : objects (es ++ es') = objects es ++ objects es' := List.filterMap_append

theorem folders_append : folders (es ++ es') = folders es ++ folders es' := List.filterMap_append

theorem totalBytes_append : totalBytes (es ++ es') = totalBytes es + totalBytes es' := by
  simp [totalBytes, objects_append]

theorem sizeEntries_append : sizeEntries (es ++ es') = sizeEntries es ++ sizeEntries es' := by
  simp [sizeEntries, objects_append]

theorem classEntries_append : classEntries (es ++ es') = classEntries es ++ classEntries es' := by
  simp [classEntries, objects_append]

theorem samples_append : samples parseRfc3339Millis (es ++ es') =
    samples parseRfc3339Millis es ++ samples parseRfc3339Millis es' := by
  simp [samples, objects_append]

theorem datedSamples_append : datedSamples parseRfc3339Millis (es ++ es') =
    datedSamples parseRfc3339Millis es ++ datedSamples parseRfc3339Millis es' := by
  simp [datedSamples, samples_append]

theorem normalize_folder {d : Text} (h : d ∈ folders es) : normalizeTosDirectoryPrefix d = some d := by
  obtain ⟨r, -, hfolder⟩ := List.mem_filterMap.mp h
  cases r with
  | object entry => cases hfolder
  | directory dir => exact normalize_of_normalize hfolder

theorem added_emptyHistogram (name : Text) : added name emptyHistogram = 0 := by
  refine List.sum_eq_zero fun bucket hbucket => ?_
  obtain ⟨entry, hentry, rfl⟩ := List.mem_map.mp hbucket
  obtain ⟨name, -, rfl⟩ := List.mem_map.mp (List.mem_of_mem_filter hentry)
  rfl

theorem ordered_emptyHistogram : Ordered Prod.fst emptyHistogram := by
  simp [Ordered, emptyHistogram]
  decide

theorem summary_new (topK : Nat) (captureManifest : Bool) :
    Summary parseRfc3339Millis topK [] (.new topK captureManifest) where
  limit := rfl
  objectCount := rfl
  totalBytes := rfl
  directoryCount := rfl
  distinct := List.nodup_nil
  directoryPrefixes _ := Iff.rfl
  fileTypes := limited_nil
  fileTypesTotal := rfl
  directories := limited_nil
  directoriesTotal := rfl
  sizeHistogram := holds_self ordered_emptyHistogram
  storageClasses := holds_nil
  largest := topOf_nil
  oldest := topOf_nil

variable (bucket rootPrefix maxDepth) in
theorem Summary.recordTosObject (h : Summary parseRfc3339Millis topK es acc) (entry : ObjectEntry) :
    Summary parseRfc3339Millis topK (es ++ [.object entry])
      (acc.recordTosObject parseRfc3339Millis bucket rootPrefix maxDepth entry) := by
  unfold DuAccumulator.recordTosObject
  rw [recordSample_eq]
  dsimp only
  have hsum : total acc.fileTypes + weight entry =
      ⟨acc.objectCount + 1, acc.totalBytes + entry.size.toNat⟩ := by
    rw [h.fileTypesTotal]
    rfl
  have hdirectories : total acc.directories + weight entry =
      ⟨acc.objectCount + 1, acc.totalBytes + entry.size.toNat⟩ := by
    rw [h.directoriesTotal]
    rfl
  refine ⟨h.limit, ?_, ?_, h.directoryCount, h.distinct, fun d => ?_, h.fileTypes.bumpLimited, ?_,
    h.directories.bumpLimited, ?_, ?_, ?_, ?_, ?_⟩
  · rw [objects_append, List.length_append, ← h.objectCount]
    rfl
  · rw [totalBytes_append, ← h.totalBytes]
    rfl
  · rw [folders_append, List.mem_append, ← h.directoryPrefixes d]
    exact (or_iff_left (List.not_mem_nil)).symm
  · exact (total_bumpLimited h.fileTypes).trans hsum
  · exact (total_bumpLimited h.directories).trans hdirectories
  · rw [sizeEntries_append, ← List.append_assoc]
    exact h.sizeHistogram.bump
  · rw [classEntries_append]
    exact h.storageClasses.bump
  · rw [samples_append, h.limit]
    exact topOf_keepSample h.largest
  · rw [datedSamples_append]
    have hone : datedSamples parseRfc3339Millis [.object entry] =
        if (duObjectSample parseRfc3339Millis entry).timestampMillis.isSome then
          [duObjectSample parseRfc3339Millis entry] else [] :=
      List.filter_singleton.trans (Bool.cond_eq_ite ..)
    rw [hone, h.limit]
    dsimp only
    split
    · exact topOf_keepSample h.oldest
    · rw [List.append_nil]
      exact h.oldest

theorem Summary.recordDirectoryPrefix (h : Summary parseRfc3339Millis topK es acc) (dir : Text) :
    Summary parseRfc3339Millis topK (es ++ [.directory dir]) (acc.recordDirectoryPrefix dir) := by
  rw [recordDirectoryPrefix_eq h.directoryCount]
  have hobjects : objects (es ++ [.directory dir]) = objects es := by
    rw [objects_append]
    exact List.append_nil _
  refine ⟨h.limit, ?_, ?_, rfl, nodup_addFolder h.distinct, fun d => ?_, h.fileTypes, h.fileTypesTotal,
    h.directories, h.directoriesTotal, ?_, ?_, ?_, ?_⟩
  · rw [hobjects]
    exact h.objectCount
  · rw [Du.totalBytes, hobjects]
    exact h.totalBytes
  · rw [mem_addFolder, h.directoryPrefixes, folders_append, List.mem_append]
    refine or_congr_right ?_
    simp [folders, Record.folder]
  · rw [sizeEntries, hobjects]
    exact h.sizeHistogram
  · rw [classEntries, hobjects]
    exact h.storageClasses
  · rw [samples, hobjects]
    exact h.largest
  · rw [datedSamples, samples, hobjects]
    exact h.oldest

variable (bucket rootPrefix maxDepth) in
theorem Summary.record (h : Summary parseRfc3339Millis topK es acc) (r : Record) :
    Summary parseRfc3339Millis topK (es ++ [r]) (acc.record parseRfc3339Millis bucket rootPrefix maxDepth r) := by
  cases r with
  | object entry => exact h.recordTosObject bucket rootPrefix maxDepth entry
  | directory dir => exact h.recordDirectoryPrefix dir

theorem Summary.recordRequestId (h : Summary parseRfc3339Millis topK es acc) (requestId : Option Text) :
    Summary parseRfc3339Millis topK es (acc.recordRequestId requestId) := by
  obtain ⟨ids, n, heq⟩ := recordRequestId_eq requestId acc
  rw [heq]
  exact ⟨h.limit, h.objectCount, h.totalBytes, h.directoryCount, h.distinct, h.directoryPrefixes, h.fileTypes,
    h.fileTypesTotal, h.directories, h.directoriesTotal, h.sizeHistogram, h.storageClasses, h.largest, h.oldest⟩

theorem Summary.merge (h : Summary parseRfc3339Millis topK es acc)
    (h' : Summary parseRfc3339Millis topK es' acc') {visited : List Text}
    (hvisited : visited.Perm acc'.directoryPrefixes) :
    Summary parseRfc3339Millis topK (es ++ es') (acc.merge acc' visited) := by
  have hcount : { acc with
      objectCount := acc.objectCount + acc'.objectCount
      totalBytes := acc.totalBytes + acc'.totalBytes }.directoryCount = acc.directoryPrefixes.length :=
    h.directoryCount
  unfold DuAccumulator.merge
  dsimp only
  rw [foldl_recordDirectoryPrefix hcount visited]
  obtain ⟨ids, n, hids⟩ := mergeRequestIds_eq acc'.requestIds acc'.requestIdsOmitted
    { acc with
      objectCount := acc.objectCount + acc'.objectCount
      totalBytes := acc.totalBytes + acc'.totalBytes
      directoryPrefixes := visited.foldl addFolder acc.directoryPrefixes
      directoryCount := (visited.foldl addFolder acc.directoryPrefixes).length }
  rw [hids, foldl_recordLargestSample, foldl_recordOldestSample]
  dsimp only
  have hsum : (⟨acc.objectCount, acc.totalBytes⟩ : DuDistributionBucket) +
      ⟨acc'.objectCount, acc'.totalBytes⟩ =
        ⟨acc.objectCount + acc'.objectCount, acc.totalBytes + acc'.totalBytes⟩ := rfl
  obtain ⟨hfileTypes, hfileTypesTotal⟩ := h.fileTypes.mergeLimited acc'.fileTypes
  obtain ⟨hdirectories, hdirectoriesTotal⟩ := h.directories.mergeLimited acc'.directories
  refine ⟨h.limit, ?_, ?_, rfl, nodup_addFolders h.distinct visited, fun d => ?_, hfileTypes, ?_,
    hdirectories, ?_, ?_, ?_, ?_, ?_⟩
  · rw [objects_append, List.length_append, h.objectCount, h'.objectCount]
  · rw [totalBytes_append, h.totalBytes, h'.totalBytes]
  · rw [mem_addFolders, folders_append, List.mem_append, h.directoryPrefixes, ← h'.directoryPrefixes]
    refine or_congr_right ⟨?_, fun hd => ?_⟩
    · rintro ⟨dir, hdir, hnormal⟩
      have hdir := (h'.directoryPrefixes dir).mp (hvisited.subset hdir)
      rw [normalize_folder hdir] at hnormal
      rwa [← Option.some.inj hnormal, h'.directoryPrefixes]
    · exact ⟨d, hvisited.symm.subset hd, normalize_folder ((h'.directoryPrefixes d).mp hd)⟩
  · rw [hfileTypesTotal, h.fileTypesTotal, h'.fileTypesTotal, hsum]
  · rw [hdirectoriesTotal, h.directoriesTotal, h'.directoriesTotal, hsum]
  · rw [sizeEntries_append]
    refine (h.sizeHistogram.mergeInto h'.sizeHistogram).of_same (fun name => ?_) fun name => ?_
    · simp only [mem_keys_append]
      tauto
    · simp only [added_append, added_emptyHistogram, zero_add]
  · rw [classEntries_append]
    exact h.storageClasses.mergeInto h'.storageClasses
  · rw [samples_append, h.limit]
    exact h'.largest.replace (topOf_keepSamples h.largest acc'.largestObjects)
  · rw [datedSamples_append, h.limit]
    exact h'.oldest.replace (topOf_keepSamples h.oldest acc'.oldestObjects)

end Summary

section Same

-- The same objects, in any order, and the same directories.
structure Same (es es' : List Record) : Prop where
  objects : (objects es).Perm (objects es')
  folders : ∀ d, d ∈ folders es ↔ d ∈ folders es'

variable {parseRfc3339Millis : Text → Option Int} {topK : Nat} {es es' more more' : List Record}
  {acc acc' : DuAccumulator}

theorem Same.refl (es : List Record) : Same es es := ⟨List.Perm.refl _, fun _ => Iff.rfl⟩

theorem Same.of_perm (h : es.Perm es') : Same es es' :=
  ⟨h.filterMap _, fun _ => (h.filterMap _).mem_iff⟩

theorem Same.append (h : Same es es') (h' : Same more more') : Same (es ++ more) (es' ++ more') := by
  constructor
  · rw [objects_append, objects_append]
    exact h.objects.append h'.objects
  · intro d
    rw [folders_append, folders_append, List.mem_append, List.mem_append, h.folders, h'.folders]

theorem Summary.of_same (h : Summary parseRfc3339Millis topK es acc) (hs : Same es es') :
    Summary parseRfc3339Millis topK es' acc where
  limit := h.limit
  objectCount := h.objectCount.trans hs.objects.length_eq
  totalBytes := h.totalBytes.trans (hs.objects.map _).sum_eq
  directoryCount := h.directoryCount
  distinct := h.distinct
  directoryPrefixes d := (h.directoryPrefixes d).trans (hs.folders d)
  fileTypes := h.fileTypes
  fileTypesTotal := h.fileTypesTotal
  directories := h.directories
  directoriesTotal := h.directoriesTotal
  sizeHistogram := h.sizeHistogram.of_perm ((hs.objects.map _).append_left _)
  storageClasses := h.storageClasses.of_perm (hs.objects.map _)
  largest := h.largest.of_perm (hs.objects.map _)
  oldest := h.oldest.of_perm ((hs.objects.map _).filter _)

end Same

section Reports

-- Entries of one size and one name, or one date and one name, are told apart by nothing else.
def Untied {γ : Type} (rank : DuObjectSample → γ) (l : List DuObjectSample) : Prop :=
  ∀ a ∈ l, ∀ b ∈ l, rank a = rank b → a = b

variable (parseRfc3339Millis : Text → Option Int) (es : List Record)

-- The accumulator reports what `one` does, and its limited tables are complete and bounded.
structure Reports (acc one : DuAccumulator) : Prop where
  objectCount : acc.objectCount = one.objectCount
  totalBytes : acc.totalBytes = one.totalBytes
  directoryCount : acc.directoryCount = one.directoryCount
  sizeHistogram : acc.sizeHistogram = one.sizeHistogram
  storageClasses : acc.storageClasses = one.storageClasses
  largestRanks : acc.largestObjects.map largestRank = one.largestObjects.map largestRank
  oldestRanks : acc.oldestObjects.map oldestRank = one.oldestObjects.map oldestRank
  largest : Untied largestRank (samples parseRfc3339Millis es) → acc.largestObjects = one.largestObjects
  oldest : Untied oldestRank (datedSamples parseRfc3339Millis es) → acc.oldestObjects = one.oldestObjects
  fileTypesTotal : total acc.fileTypes = ⟨acc.objectCount, acc.totalBytes⟩
  directoriesTotal : total acc.directories = ⟨acc.objectCount, acc.totalBytes⟩
  fileTypesBound : acc.fileTypes.length ≤ duCategoryBucketLimit + 1
  directoriesBound : acc.directories.length ≤ duCategoryBucketLimit + 1

variable {parseRfc3339Millis es} {topK : Nat} {acc one : DuAccumulator}

theorem Summary.reports (h : Summary parseRfc3339Millis topK es acc)
    (h' : Summary parseRfc3339Millis topK es one) : Reports parseRfc3339Millis es acc one where
  objectCount := h.objectCount.trans h'.objectCount.symm
  totalBytes := h.totalBytes.trans h'.totalBytes.symm
  directoryCount := by
    have hperm := (List.perm_ext_iff_of_nodup h.distinct h'.distinct).mpr fun d =>
      (h.directoryPrefixes d).trans (h'.directoryPrefixes d).symm
    rw [h.directoryCount, h'.directoryCount, hperm.length_eq]
  sizeHistogram := h.sizeHistogram.unique h'.sizeHistogram
  storageClasses := h.storageClasses.unique h'.storageClasses
  largestRanks := h.largest.rank_eq h'.largest (List.Perm.refl _)
  oldestRanks := h.oldest.rank_eq h'.oldest (List.Perm.refl _)
  largest := h.largest.eq h'.largest (List.Perm.refl _)
  oldest := h.oldest.eq h'.oldest (List.Perm.refl _)
  fileTypesTotal := h.fileTypesTotal
  directoriesTotal := h.directoriesTotal
  fileTypesBound := h.fileTypes.length_le
  directoriesBound := h.directories.length_le

end Reports

end VeStorage.Tos.Du
