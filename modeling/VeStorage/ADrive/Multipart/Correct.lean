import VeStorage.ADrive.Multipart.Resume

namespace VeStorage.ADrive.Multipart
open Lib
open Checkpoint (shouldUseMultipart)
open Tos.Transfer (PartRange mebibyte)

section Reach

variable {j : Job} {w0 w w' : World} {c : UploadCheckpoint} {id : Nat}

theorem parts_reach (c : UploadCheckpoint) (id : Nat) (pending : List PartRange)
    (h : PartsInv j w0 w c id pending []) (hlive : w.uploads id ≠ none) :
    ∃ w' c', Run j ⟨w, .parts c id pending []⟩ ⟨w', .parts c' id [] []⟩ ∧
      PartsInv j w0 w' c' id [] [] ∧ w'.uploads id ≠ none := by
  induction pending generalizing w c with
  | nil => exact ⟨w, c, .refl, h, hlive⟩
  | cons r pending ih =>
    obtain ⟨stored, hl⟩ := Option.ne_none_iff_exists'.mp hlive
    let w1 := w.putUpload id (some (storePart stored r (r.slice j.content)))
    let c1 := c.pushPart ⟨partNumber r, j.etagOf r⟩
    have hlaunch : Step j ⟨w, .parts c id (r :: pending) []⟩
        ⟨w, .parts c id pending ([] ++ (r, none) :: [])⟩ := .launch w c id r pending [] j.concurrency_pos
    have hstore : Step j ⟨w, .parts c id pending ([] ++ (r, none) :: [])⟩
        ⟨w1, .parts c id pending ([] ++ (r, some (j.etagOf r)) :: [])⟩ :=
      .store w c id pending [] r [] stored hl
    have hrecord : Step j ⟨w1, .parts c id pending ([] ++ (r, some (j.etagOf r)) :: [])⟩
        ⟨w1.save j c1, .parts c1 id pending []⟩ := .record w1 c id pending [] r (j.etagOf r) []
    have hlaunched : PartsInv j w0 w c id pending ([] ++ (r, none) :: []) := h.launch
    have hinv : PartsInv j w0 (w1.save j c1) c1 id pending [] := (hlaunched.store hl).record
    have hlive1 : (w1.save j c1).uploads id ≠ none := by
      rw [save_uploads, putUpload_self]
      exact Option.some_ne_none _
    obtain ⟨w', c', hrun, hdone⟩ := ih c1 hinv hlive1
    exact ⟨w', c', .head hlaunch (.head hstore (.head hrecord hrun)), hdone⟩

theorem complete_reach (h : PartsInv j w0 w c id [] []) (hf : Fits j)
    (ha : j.fileSize ≠ 0 ∨ j.service.acceptsEmpty = true) (hlive : w.uploads id ≠ none) :
    ∃ w' parts, Run j ⟨w, .parts c id [] []⟩ ⟨w', .done (.ok parts)⟩ := by
  obtain ⟨stored, hl⟩ := Option.ne_none_iff_exists'.mp hlive
  have hsorted := h.sorted_numbers hf
  have hlength : (sortedParts c).length = j.ranges.length := by
    simpa using congrArg List.length hsorted
  have hnumbers : (sortedParts c).map UploadPartCheckpoint.partNumber =
      numbersFromOne (sortedParts c).length := by
    rw [hsorted, hlength]
    exact map_partNumber hf
  have hempty : sortedParts c ≠ [] ∨ j.service.acceptsEmpty = true := by
    refine ha.imp_left fun h0 hnil => (ranges_ne_nil_iff j.fileSize).mpr h0 ?_
    rw [hnil] at hlength
    exact List.length_eq_zero_iff.mp hlength.symm
  have hlisted : ∀ p ∈ sortedParts c, Listed j.service stored p := fun p hp =>
    (h.fits hf).session.listed stored hl p (mem_sortOn.mp hp)
  have hcomplete : CompleteUpload j.service id (sortedParts c) w _ :=
    .accepted stored hl hnumbers hempty hlisted
  have hfinish : Run j ⟨w, .parts c id [] []⟩ ⟨w, .complete (sortedParts c) id⟩ :=
    .single (.finish w c id)
  have hdone := ((hfinish.tail (.complete w _ id _ hcomplete 0 (.inl rfl) (.inl rfl))).tail
    (.removeCheckpoint _ _)).tail (.exit _ _)
  exact ⟨_, _, hdone⟩

theorem usable_reach (hw : WorldInv j.toUpload w) (hu : Usable j w) (hf : Fits j)
    (ha : j.fileSize ≠ 0 ∨ j.service.acceptsEmpty = true) :
    ∃ w' parts, Run j ⟨w, .start⟩ ⟨w', .done (.ok parts)⟩ := by
  have hfrom : ∀ w1 c id pending, Run j ⟨w, .start⟩ ⟨w1, .parts c id pending []⟩ →
      w1.uploads id ≠ none → ∃ w' parts, Run j ⟨w, .start⟩ ⟨w', .done (.ok parts)⟩ := by
    intro w1 c id pending hrun hlive
    obtain ⟨w2, c2, hparts, hinv, hlive2⟩ := parts_reach c id pending (run_inv hw hrun).stage hlive
    obtain ⟨w3, parts, hdone⟩ := complete_reach hinv hf ha hlive2
    exact ⟨w3, parts, (hrun.trans hparts).trans hdone⟩
  have hfresh : (j.checkpointEnabled = true → w.checkpoint = none) →
      ∃ w' parts, Run j ⟨w, .start⟩ ⟨w', .done (.ok parts)⟩ := by
    intro hnone
    have hload : Run j ⟨w, .start⟩ ⟨w, .loaded j.freshCheckpoint⟩ := .single (.loadNone w hnone)
    have hsaved := (hload.tail (.initiate w _ rfl)).tail (.saveInitiated _ _ _)
    refine hfrom _ _ _ _ hsaved ?_
    rw [save_uploads, initiate_self]
    exact Option.some_ne_none _
  cases he : j.checkpointEnabled with
  | false => exact hfresh fun h => by simp [he] at h
  | true =>
    cases hc : w.checkpoint with
    | none => exact hfresh fun _ => hc
    | some file =>
      obtain ⟨c, rfl, hv, hlive⟩ := hu he file hc
      obtain ⟨id, hinv⟩ := hw.file c hc
      have hload : Run j ⟨w, .start⟩ ⟨w, .loaded c⟩ := .single (.load w c he hc hv)
      exact hfrom _ _ _ _ (hload.tail (.resume w c id hinv.upload_id)) (hlive id hinv.upload_id)

theorem recorded_length (hw : WorldInv j.toUpload w) (hu : Usable j w) (hf : Fits j)
    {r : PartRange} (hr : r ∈ j.ranges) {b : Bytes} (hb : w.recorded j (partNumber r) = some b) :
    b.length = r.size := by
  cases hc : w.checkpoint with
  | none => simp [World.recorded, hc] at hb
  | some file =>
    cases he : j.checkpointEnabled with
    | false => cases file <;> simp [World.recorded, hc, he] at hb
    | true =>
      obtain ⟨c, rfl, hv, -⟩ := hu he file hc
      obtain ⟨id, hinv⟩ := hw.file c hc
      have hsize := validated_size hv
      rw [recorded_file he hc hinv.upload_id] at hb
      split at hb
      · rename_i hn
        obtain ⟨stored, hs, hstored⟩ := Option.bind_eq_some_iff.mp hb
        have hfits : FitsSize c.fileSize := by rw [hsize]; exact hf
        have hrange : r ∈ Checkpoint.ranges c.fileSize := by rw [hsize]; exact hr
        exact (hinv.session hfits).sizes stored hs r hrange hn b hstored
      · cases hb

theorem piece_length (hw : WorldInv j.toUpload w) (hu : Usable j w) (hf : Fits j)
    {r : PartRange} (hr : r ∈ j.ranges) : (piece j w r).length = (r.slice j.content).length := by
  cases hb : w.recorded j (partNumber r) with
  | none => rw [piece_unrecorded hb]
  | some b =>
    rw [piece, hb, Option.getD_some, recorded_length hw hu hf hr hb]
    exact (range_slice_length hr).symm

theorem flatMap_slices (j : Job) : j.ranges.flatMap (·.slice j.content) = j.content :=
  Checkpoint.ranges_slices rfl

end Reach

theorem flatMap_inj {α β : Type} {f g : α → List β} {l : List α}
    (hlen : ∀ a ∈ l, (f a).length = (g a).length) (h : l.flatMap f = l.flatMap g) :
    ∀ a ∈ l, f a = g a := by
  induction l with
  | nil => simp
  | cons a l ih =>
    rw [List.flatMap_cons, List.flatMap_cons] at h
    obtain ⟨hhead, htail⟩ := List.append_inj h (hlen a (List.mem_cons_self ..))
    intro b hb
    rcases List.mem_cons.mp hb with rfl | hb
    · exact hhead
    · exact ih (fun a ha => hlen a (List.mem_cons_of_mem _ ha)) htail b hb

section Correct

variable {j : Job} {w : World}

theorem correct_of_resumable (hw : WorldInv j.toUpload w) (h : Resumable j w) :
    MultipartCorrect j w where
  ok_complete := by
    intro w' parts hrun
    have hdone : Finished j w w' parts := (run_inv hw hrun).stage
    refine ⟨hdone.numbers, ?_⟩
    rw [hdone.object, List.flatMap_congr h.same_parts, flatMap_slices]
  can_finish := ⟨w, .refl, usable_reach hw h.usable h.fits h.accepted⟩

theorem later_inv {w' : World} (hw : WorldInv j.toUpload w) (h : Later j w w') :
    WorldInv j.toUpload w' := by
  induction h with
  | refl => exact hw
  | tail _ hstep ih =>
    obtain ⟨x, hrun, rfl⟩ := hstep
    exact (run_inv ih hrun).world

theorem resumable_of_correct (hw : WorldInv j.toUpload w) (h : MultipartCorrect j w) :
    Resumable j w := by
  obtain ⟨w1, hlater, w2, parts, hrun⟩ := h.can_finish
  have husable : Usable j w := by
    by_contra hb
    obtain rfl := blocked_later hb hlater
    exact (blocked_run hb hrun).2
  have hlast : Finished j w1 w2 parts := (run_inv (later_inv hw hlater) hrun).stage
  have hfits := hlast.fits
  -- the run from `w` itself completes with whatever the service still held
  have hown : ∃ w' parts, Run j ⟨w, .start⟩ ⟨w', .done (.ok parts)⟩ := usable_reach hw husable hfits
    hlast.accepted
  obtain ⟨w', parts', hrun'⟩ := hown
  have hdone : Finished j w w' parts' := (run_inv hw hrun').stage
  have hobject := hdone.object.symm.trans (h.ok_complete w' parts' hrun').2
  refine ⟨husable, hfits, hlast.accepted, ?_⟩
  refine flatMap_inj (fun r hr => piece_length hw husable hfits hr) ?_
  rw [flatMap_slices]
  exact Option.some.inj hobject

theorem correct_iff_resumable (hw : WorldInv j.toUpload w) : MultipartCorrect j w ↔ Resumable j w :=
  ⟨resumable_of_correct hw, correct_of_resumable hw⟩

-- A checkpoint written for another task, most often for another size of the file.
def Foreign (j : Job) (w : World) : Prop :=
  j.checkpointEnabled = true ∧
    ∃ c, w.checkpoint = some (some c) ∧ j.validateUploadCheckpoint c = false

theorem Foreign.not_usable (h : Foreign j w) : ¬ Usable j w := by
  obtain ⟨he, c, hc, hv⟩ := h
  intro hu
  obtain ⟨c', hc', hv', -⟩ := hu he _ hc
  obtain rfl := Option.some.inj hc'
  simp [hv] at hv'

theorem multipart_resumes (h : Reachable j.toUpload w) :
    (Foreign j w → ∀ x, Run j ⟨w, .start⟩ x →
      x.world = w ∧ ∀ parts, x.stage ≠ .done (.ok parts)) ∧
    (Resumable j w → MultipartCorrect j w) := by
  refine ⟨fun hforeign x hrun => ?_, (correct_iff_resumable h.inv).mpr⟩
  obtain ⟨hw, hst⟩ := blocked_run hforeign.not_usable hrun
  refine ⟨hw, fun parts hstage => ?_⟩
  rw [hstage] at hst
  exact hst

end Correct

theorem four_pos_workers : 0 < 4 := by decide

def oneByteUpload : Upload where
  service := ⟨fun _ => "e".toList, fun _ => 0, true⟩
  target := ⟨"i".toList, "s".toList, "f".toList, "f".toList⟩
  checkpointEnabled := true
  checkpointThreshold := 1
  multipartConcurrency := 4
  concurrency_pos := four_pos_workers

def oneByteJob : Job := { oneByteUpload with content := [1], selected := by decide }

def twoByteJob : Job := { oneByteUpload with content := [1, 2], selected := by decide }

theorem multipart_grown_source_refused :
    ∃ w, Reachable twoByteJob.toUpload w ∧ ¬ MultipartCorrect twoByteJob w := by
  let c : UploadCheckpoint := { oneByteJob.freshCheckpoint with uploadId := some 0 }
  let w0 := World.initial 0 none
  let w := w0.initiate.save oneByteJob c
  have hload : Step oneByteJob ⟨w0, .start⟩ ⟨w0, .loaded oneByteJob.freshCheckpoint⟩ :=
    .loadNone w0 fun _ => rfl
  have hinitiate : Step oneByteJob ⟨w0, .loaded oneByteJob.freshCheckpoint⟩
      ⟨w0.initiate, .created c 0⟩ := .initiate w0 _ rfl
  have hsave : Step oneByteJob ⟨w0.initiate, .created c 0⟩
      ⟨w, .parts c 0 (pendingParts oneByteJob c) []⟩ := .saveInitiated w0.initiate c 0
  have hkill : Step oneByteJob ⟨w, .parts c 0 (pendingParts oneByteJob c) []⟩ ⟨w, .killed⟩ :=
    .kill w _ rfl
  have hreach : Reachable twoByteJob.toUpload w :=
    .run w0 _ oneByteJob rfl (.initial 0 none)
      (.head hload (.head hinitiate (.head hsave (.single hkill))))
  have hfile : w.checkpoint = some (some c) := rfl
  have hforeign : Foreign twoByteJob w := ⟨rfl, c, hfile, by decide⟩
  refine ⟨w, hreach, fun hc => hforeign.not_usable ?_⟩
  exact ((correct_iff_resumable hreach.inv).mp hc).usable

-- Two parts, the first of them recorded by a run that was killed.
def twoPartSize : Nat := 16 * mebibyte + 1

theorem twoPart_selected :
    shouldUseMultipart (List.replicate twoPartSize (1 : UInt8)).length true 1 = true := by
  rw [List.length_replicate]
  decide

def twoPartJob : Job :=
  { oneByteUpload with
    content := List.replicate twoPartSize 1
    selected := twoPart_selected }

def firstRange : PartRange := ⟨1, 0, 16 * mebibyte⟩

def lastRange : PartRange := ⟨2, 16 * mebibyte, 1⟩

theorem twoPartJob_ranges : twoPartJob.ranges = [firstRange, lastRange] := by
  have hsize : twoPartJob.fileSize = twoPartSize := List.length_replicate
  rw [Job.ranges, hsize]
  decide

def createdCheckpoint : UploadCheckpoint := { twoPartJob.freshCheckpoint with uploadId := some 0 }

theorem created_numbers : createdCheckpoint.numbers = [] := rfl

def recordedCheckpoint : UploadCheckpoint :=
  createdCheckpoint.pushPart ⟨partNumber firstRange, twoPartJob.etagOf firstRange⟩

theorem recorded_numbers : recordedCheckpoint.numbers = [partNumber firstRange] := by
  rw [recordedCheckpoint, pushPart_numbers, created_numbers, List.nil_append]

def storedPart : Int → Option Bytes :=
  storePart (fun _ => none) firstRange (firstRange.slice twoPartJob.content)

def cutWorld : World :=
  ((((World.initial 0 none).initiate.save twoPartJob createdCheckpoint).putUpload 0 (some storedPart)).save
    twoPartJob recordedCheckpoint)

theorem twoPartJob_pending : pendingParts twoPartJob createdCheckpoint = [firstRange, lastRange] := by
  rw [pendingParts, twoPartJob_ranges, created_numbers]
  rfl

theorem runs_cut : Run twoPartJob ⟨World.initial 0 none, .start⟩ ⟨cutWorld, .killed⟩ := by
  have hloaded : Run twoPartJob ⟨World.initial 0 none, .start⟩ _ := .single (.loadNone _ fun _ => rfl)
  have hcreated := (hloaded.tail (.initiate _ _ rfl)).tail (.saveInitiated _ createdCheckpoint 0)
  rw [twoPartJob_pending] at hcreated
  have hlaunched := hcreated.tail (.launch _ _ 0 firstRange [lastRange] [] four_pos_workers)
  have hstored := hlaunched.tail (.store _ _ 0 [lastRange] [] firstRange [] (fun _ => none) rfl)
  have hrecorded := hstored.tail (.record _ _ 0 [lastRange] [] firstRange _ [])
  exact hrecorded.tail (.kill _ _ rfl)

theorem cutWorld_uploads : cutWorld.uploads 0 = some storedPart := by
  rw [cutWorld, save_uploads, putUpload_self]

theorem recorded_cutWorld (n : Int) :
    cutWorld.recorded twoPartJob n = if n ∈ recordedCheckpoint.numbers then storedPart n else none := by
  have hfile : cutWorld.checkpoint = some (some recordedCheckpoint) := rfl
  rw [recorded_file rfl hfile rfl, cutWorld_uploads, Option.bind_some]

theorem cutWorld_piece (r : PartRange) (hr : r ∈ twoPartJob.ranges) :
    piece twoPartJob cutWorld r = r.slice twoPartJob.content := by
  rw [twoPartJob_ranges] at hr
  rcases List.mem_pair.mp hr with rfl | rfl
  · have hrecorded : cutWorld.recorded twoPartJob (partNumber firstRange) =
        some (firstRange.slice twoPartJob.content) := by
      rw [recorded_cutWorld, if_pos (by rw [recorded_numbers]; exact List.mem_singleton_self _)]
      exact storePart_self _ _ _
    rw [piece, hrecorded, Option.getD_some]
  · have hnew : partNumber lastRange ∉ recordedCheckpoint.numbers := by
      rw [recorded_numbers]
      decide
    exact piece_unrecorded (by rw [recorded_cutWorld, if_neg hnew])

theorem twoPartJob_resumable : Resumable twoPartJob cutWorld where
  usable := by
    rintro - file hfile
    obtain rfl := Option.some.inj hfile
    refine ⟨recordedCheckpoint, rfl, decide_eq_true ⟨rfl, rfl, rfl⟩, fun id hid => ?_⟩
    obtain rfl := Option.some.inj hid
    rw [cutWorld_uploads]
    exact Option.some_ne_none _
  fits := by
    rw [Fits, twoPartJob_ranges]
    decide
  accepted := .inr rfl
  same_parts := cutWorld_piece

theorem multipart_resumes_recorded : cutWorld.checkpoint = some (some recordedCheckpoint) ∧
    recordedCheckpoint.uploadId = some 0 ∧ recordedCheckpoint.numbers = [partNumber firstRange] ∧
    cutWorld.uploads 0 = some storedPart ∧ MultipartCorrect twoPartJob cutWorld := by
  have hreach : Reachable twoPartJob.toUpload cutWorld := .run _ _ twoPartJob rfl (.initial 0 none) runs_cut
  exact ⟨rfl, rfl, recorded_numbers, cutWorld_uploads, (multipart_resumes hreach).2 twoPartJob_resumable⟩

end VeStorage.ADrive.Multipart
