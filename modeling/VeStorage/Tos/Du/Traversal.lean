import VeStorage.Tos.Du.Scan

namespace VeStorage.Tos.Du
open Lib
open Lib.TopK (keepTop_nil keepTop_of_le)
open Lib.Worklist (Reach)
open Payload (ObjectEntry)

variable (parseRfc3339Millis : Text → Option Int) (bucket : Text) (rootPrefix : Option Text)
  (maxDepth : Option Nat) (topK : Nat)

-- Accumulators fed and merged in any way, with what they have been given.
inductive Traversed : List Record → DuAccumulator → Prop
  | new (captureManifest : Bool) : Traversed [] (.new topK captureManifest)
  | record {es : List Record} {acc : DuAccumulator} (h : Traversed es acc) (r : Record) :
      Traversed (es ++ [r]) (acc.record parseRfc3339Millis bucket rootPrefix maxDepth r)
  | requestId {es : List Record} {acc : DuAccumulator} (h : Traversed es acc) (requestId : Option Text) :
      Traversed es (acc.recordRequestId requestId)
  | merge {es es' : List Record} {acc acc' : DuAccumulator} {visited : List Text}
      (h : Traversed es acc) (h' : Traversed es' acc') (hvisited : visited.Perm acc'.directoryPrefixes) :
      Traversed (es ++ es') (acc.merge acc' visited)

def feed (captureManifest : Bool) (es : List Record) : DuAccumulator :=
  es.foldl (DuAccumulator.record parseRfc3339Millis bucket rootPrefix maxDepth) (.new topK captureManifest)

section Summaries

variable {parseRfc3339Millis bucket rootPrefix maxDepth topK} {es more : List Record} {acc : DuAccumulator}

theorem Traversed.summary (h : Traversed parseRfc3339Millis bucket rootPrefix maxDepth topK es acc) :
    Summary parseRfc3339Millis topK es acc := by
  induction h with
  | new captureManifest => exact summary_new topK captureManifest
  | record h r ih => exact ih.record bucket rootPrefix maxDepth r
  | requestId h requestId ih => exact ih.recordRequestId requestId
  | merge h h' hvisited ih ih' => exact ih.merge ih' hvisited

variable (bucket rootPrefix maxDepth) in
theorem Summary.records (h : Summary parseRfc3339Millis topK es acc) (more : List Record) :
    Summary parseRfc3339Millis topK (es ++ more)
      (more.foldl (DuAccumulator.record parseRfc3339Millis bucket rootPrefix maxDepth) acc) := by
  induction more generalizing es acc with
  | nil => rwa [List.append_nil]
  | cons r more ih =>
    have hnext := ih (h.record bucket rootPrefix maxDepth r)
    rwa [List.append_assoc] at hnext

theorem feed_summary (captureManifest : Bool) (es : List Record) : Summary parseRfc3339Millis topK es
    (feed parseRfc3339Millis bucket rootPrefix maxDepth topK captureManifest es) :=
  (summary_new topK captureManifest).records bucket rootPrefix maxDepth es

theorem Summary.recordObjects (h : Summary parseRfc3339Millis topK es acc) (l : List ObjectEntry) :
    Summary parseRfc3339Millis topK (es ++ l.map .object)
      (l.foldl (DuAccumulator.recordTosObject parseRfc3339Millis bucket rootPrefix maxDepth) acc) := by
  have hrecords := h.records bucket rootPrefix maxDepth (l.map .object)
  rwa [List.foldl_map] at hrecords

theorem Summary.recordDirectories (h : Summary parseRfc3339Millis topK es acc) (dirs : List Text) :
    Summary parseRfc3339Millis topK (es ++ dirs.map .directory)
      (dirs.foldl DuAccumulator.recordDirectoryPrefix acc) := by
  have hrecords := h.records [] none none (dirs.map .directory)
  rwa [List.foldl_map] at hrecords

variable (parseRfc3339Millis bucket maxDepth topK) (captureManifest : Bool)

theorem flat_summary (pre : Option Text) (pages : List DuPage) : Summary parseRfc3339Millis topK
    (pages.flatMap fun page => page.entries.map .object)
    (collectTosDuFlat parseRfc3339Millis bucket maxDepth topK captureManifest pre pages) := by
  have hpages : ∀ {es : List Record} {acc : DuAccumulator}, Summary parseRfc3339Millis topK es acc →
      Summary parseRfc3339Millis topK (es ++ pages.flatMap fun page => page.entries.map .object)
        (pages.foldl (fun acc page => page.entries.foldl
          (DuAccumulator.recordTosObject parseRfc3339Millis bucket pre maxDepth)
          (acc.recordRequestId page.requestId)) acc) := by
    induction pages with
    | nil => exact fun h => by rwa [List.flatMap_nil, List.append_nil]
    | cons page pages ih =>
      intro es acc h
      rw [List.flatMap_cons, ← List.append_assoc]
      exact ih ((h.recordRequestId page.requestId).recordObjects page.entries)
  exact hpages (summary_new topK captureManifest)

variable (rootPrefix : Text)

theorem scan_summary (dir : Text) (pages : List DuPage) : Summary parseRfc3339Millis topK
    (pages.flatMap (listedRecords dir))
    (scanTosDuPrefix parseRfc3339Millis bucket maxDepth topK captureManifest rootPrefix dir
      pages).accumulator := by
  have hpages : ∀ (es : List Record) (scan : DuPrefixScan),
      Summary parseRfc3339Millis topK es scan.accumulator →
        Summary parseRfc3339Millis topK (es ++ pages.flatMap (listedRecords dir))
          (pages.foldl (scanPage parseRfc3339Millis bucket maxDepth rootPrefix dir) scan).accumulator := by
    induction pages with
    | nil => exact fun es scan h => by rwa [List.flatMap_nil, List.append_nil]
    | cons page pages ih =>
      intro es scan h
      rw [List.flatMap_cons, ← List.append_assoc, List.foldl_cons]
      refine ih _ _ (Summary.of_same ?_ ((Same.refl es).append (same_deduped dir page)))
      rw [dedupedRecords, ← List.append_assoc]
      exact ((h.recordRequestId page.requestId).recordObjects _).recordDirectories _
  exact hpages [] ⟨.new topK captureManifest, []⟩ (summary_new topK captureManifest)

theorem mem_childPrefixes {listing : Text → List DuPage} (dir : Text) {child : Text} :
    child ∈ childPrefixesOf parseRfc3339Millis bucket maxDepth topK captureManifest rootPrefix listing dir ↔
      child ∈ childDirectories listing dir := by
  have hpages : ∀ (pages : List DuPage) (scan : DuPrefixScan),
      child ∈ (pages.foldl (scanPage parseRfc3339Millis bucket maxDepth rootPrefix dir) scan).childPrefixes ↔
        child ∈ scan.childPrefixes ∨ child ∈ pages.flatMap fun page =>
          folders (page.prefixes.filterMap (listedPrefix (normalizeTosDirectoryPrefix dir))) := by
    intro pages
    induction pages with
    | nil => simp
    | cons page pages ih =>
      intro scan
      rw [List.foldl_cons, ih, List.flatMap_cons, List.mem_append, ← or_assoc]
      refine or_congr_left ?_
      rw [scanPage, List.mem_append, dedupeTosDuPageEntries, mem_dedupePrefixes, mem_folders_filterMap]
      simp
  exact (hpages (listing dir) ⟨.new topK captureManifest, []⟩).trans (by simp [childDirectories])

end Summaries

section Collected

variable (listing : Text → List DuPage) (root : Text)

-- Every prefix that can be reached from the root, once.
def Covers (es : List Record) : Prop :=
  ∃ places : List Text, places.Nodup ∧ (∀ dir, dir ∈ places ↔ Reach (childDirectories listing) root dir) ∧
    es.Perm (places.flatMap fun dir => (listing dir).flatMap (listedRecords dir))

variable {parseRfc3339Millis bucket maxDepth topK listing root} {captureManifest : Bool}
  {listConcurrency : Nat} {c : Collector} {scanned : List Text} {es : List Record}

theorem collected_inv (h : Collected parseRfc3339Millis bucket maxDepth topK captureManifest root listing
    listConcurrency c scanned) :
    Worklist.Inv (childPrefixesOf parseRfc3339Millis bucket maxDepth topK captureManifest root listing) root
        c.walk scanned ∧
      Summary parseRfc3339Millis topK
        (scanned.flatMap fun dir => (listing dir).flatMap (listedRecords dir)) c.accumulator := by
  induction h with
  | start => exact ⟨.init, summary_new topK captureManifest⟩
  | step h hs ih =>
    obtain ⟨hinv, hsummary⟩ := ih
    cases hs with
    | start acc hstep =>
      refine ⟨hinv.step hstep, ?_⟩
      rwa [List.append_nil]
    | scanned acc hstep hvisited =>
      refine ⟨hinv.step hstep, ?_⟩
      rw [List.flatMap_append, List.flatMap_singleton]
      exact hsummary.merge (scan_summary ..) hvisited

theorem collected_summary (h : Collected parseRfc3339Millis bucket maxDepth topK captureManifest root listing
    listConcurrency c scanned) (hdone : c.walk.Done) (hcovers : Covers listing root es) :
    Summary parseRfc3339Millis topK es c.accumulator := by
  obtain ⟨hinv, hsummary⟩ := collected_inv h
  obtain ⟨hnodup, hreach⟩ := hinv.done hdone
  obtain ⟨places, hplaces, hall, hperm⟩ := hcovers
  have hscanned : scanned.Perm places := (List.perm_ext_iff_of_nodup hnodup hplaces).mpr fun dir => by
    rw [hreach, hall]
    exact Worklist.reach_congr fun dir child => mem_childPrefixes ..
  exact hsummary.of_same (Same.of_perm ((hscanned.flatMap_right _).trans hperm.symm))

end Collected

theorem profile_of_split (captureManifest : Bool) (es : List Record) :
    (∀ given acc, Traversed parseRfc3339Millis bucket rootPrefix maxDepth topK given acc → given.Perm es →
      Reports parseRfc3339Millis es acc
        (feed parseRfc3339Millis bucket rootPrefix maxDepth topK captureManifest es)) ∧
    (∀ capture pre pages, es.Perm (pages.flatMap fun page => page.entries.map .object) →
      Reports parseRfc3339Millis es
        (collectTosDuFlat parseRfc3339Millis bucket maxDepth topK capture pre pages)
        (feed parseRfc3339Millis bucket rootPrefix maxDepth topK captureManifest es)) ∧
    ∀ capture listing root listConcurrency c scanned,
      Collected parseRfc3339Millis bucket maxDepth topK capture root listing listConcurrency c scanned →
      c.walk.Done → Covers listing root es →
      Reports parseRfc3339Millis es c.accumulator
        (feed parseRfc3339Millis bucket rootPrefix maxDepth topK captureManifest es) := by
  refine ⟨fun given acc h hperm => ?_, fun capture pre pages hperm => ?_,
    fun capture listing root listConcurrency c scanned h hdone hcovers => ?_⟩
  · exact (h.summary.of_same (Same.of_perm hperm)).reports (feed_summary captureManifest es)
  · have hpages := flat_summary parseRfc3339Millis bucket maxDepth topK capture pre pages
    exact (hpages.of_same (Same.of_perm hperm.symm)).reports (feed_summary captureManifest es)
  · exact (collected_summary h hdone hcovers).reports (feed_summary captureManifest es)

def plainObject : ObjectEntry := ⟨"a".toList, 1, none, none, none⟩

def archivedObject : ObjectEntry := { plainObject with storageClass := some "IA".toList }

def onePage : Text → List DuPage := fun _ => [⟨[plainObject], [], none⟩]

theorem covers_onePage : Covers onePage [] [.object plainObject] := by
  refine ⟨[[]], List.nodup_singleton _, fun dir => ?_, List.Perm.refl _⟩
  rw [List.mem_singleton]
  constructor
  · rintro rfl
    exact .refl
  · intro hreach
    cases hreach with
    | refl => rfl
    | tail _ hchild => cases hchild

theorem traversed_merged : Traversed (fun _ => none) [] none none 1 [.object plainObject, .object archivedObject]
    (((DuAccumulator.new 1 false).record (fun _ => none) [] none none (.object plainObject)).merge
      ((DuAccumulator.new 1 false).record (fun _ => none) [] none none (.object archivedObject)) []) :=
  ((Traversed.new false).record (.object plainObject)).merge
    ((Traversed.new false).record (.object archivedObject)) (List.Perm.refl _)

theorem profile_of_split_pair :
    Reports (fun _ => none) [.object archivedObject, .object plainObject]
      (((DuAccumulator.new 1 false).record (fun _ => none) [] none none (.object plainObject)).merge
        ((DuAccumulator.new 1 false).record (fun _ => none) [] none none (.object archivedObject)) [])
      (feed (fun _ => none) [] none none 1 false [.object archivedObject, .object plainObject]) ∧
    ∃ c : Collector, Reports (fun _ => none) [.object plainObject] c.accumulator
      (feed (fun _ => none) [] none none 1 false [.object plainObject]) := by
  constructor
  · exact (profile_of_split (fun _ => none) [] none none 1 false
      [.object archivedObject, .object plainObject]).1 _ _ traversed_merged (List.Perm.swap _ _ _)
  · have hlaunched := Collected.step (@Collected.start (fun _ => none) [] none 1 false [] onePage 1)
      (.start _ (.launch [] [] [] [] (by decide) (by simp)))
    have hscanned := hlaunched.step (.scanned _ (.finish [] [[]] [] [] [] (.inl rfl)) (List.Perm.refl _))
    exact ⟨_, (profile_of_split (fun _ => none) [] none none 1 false [.object plainObject]).2.2
      false onePage [] 1 _ _ hscanned ⟨rfl, rfl⟩ covers_onePage⟩

theorem feed_tied (x y : ObjectEntry)
    (h : largestRank (duObjectSample (fun _ => none) x) ≤ largestRank (duObjectSample (fun _ => none) y)) :
    (feed (fun _ => none) [] none none 1 false [.object x, .object y]).largestObjects =
      [duObjectSample (fun _ => none) x] := by
  simp only [feed, List.foldl_cons, List.foldl_nil, DuAccumulator.record, DuAccumulator.recordTosObject,
    recordSample_eq, DuAccumulator.new, keepSample, Nat.one_ne_zero, if_false]
  rw [keepTop_nil, keepTop_of_le h]

theorem tied_objects_keep_order : ¬ ∀ (es es' : List Record) (acc : DuAccumulator),
    Traversed (fun _ => none) [] none none 1 es acc → es.Perm es' →
      acc.largestObjects = (feed (fun _ => none) [] none none 1 false es').largestObjects := by
  intro h
  have hfed : Traversed (fun _ => none) [] none none 1 [.object plainObject, .object archivedObject]
      (feed (fun _ => none) [] none none 1 false [.object plainObject, .object archivedObject]) :=
    ((Traversed.new false).record (.object plainObject)).record (.object archivedObject)
  have heq := h _ [.object archivedObject, .object plainObject] _ hfed (List.Perm.swap _ _ _)
  rw [feed_tied plainObject archivedObject le_rfl, feed_tied archivedObject plainObject le_rfl] at heq
  have hclass := congrArg (List.map DuObjectSample.storageClass) heq
  revert hclass
  decide

end VeStorage.Tos.Du
