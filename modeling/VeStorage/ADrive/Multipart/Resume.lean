import VeStorage.ADrive.Multipart.Session

namespace VeStorage.ADrive.Multipart
open Lib
open Tos.Transfer (PartRange)

structure Fitting (j : Job) (w0 w : World) (c : UploadCheckpoint) (id : Nat)
    (pending : List PartRange) (inFlight : List (PartRange × Option Text)) : Prop where
  session : Session j.service w c id
  nodup : (pending ++ inFlight.map Prod.fst).Nodup
  planned : ∀ r ∈ pending ++ inFlight.map Prod.fst,
    r ∈ j.ranges ∧ partNumber r ∉ c.numbers ∧ w0.recorded j (partNumber r) = none
  answered : ∀ r etag, (r, some etag) ∈ inFlight → etag = j.etagOf r ∧
    ∀ stored, w.uploads id = some stored → stored (partNumber r) = some (r.slice j.content)
  pieces : ∀ stored, w.uploads id = some stored → ∀ r ∈ j.ranges, partNumber r ∈ c.numbers →
    stored (partNumber r) = some (piece j w0 r)

structure PartsInv (j : Job) (w0 w : World) (c : UploadCheckpoint) (id : Nat)
    (pending : List PartRange) (inFlight : List (PartRange × Option Text)) : Prop where
  file_size : c.fileSize = j.fileSize
  upload_id : c.uploadId = some id
  known : id < w.nextId
  synced : j.checkpointEnabled = true → w.checkpoint = some (some c)
  usable : w.uploads id ≠ none → Usable j w0
  covered : ∀ r ∈ j.ranges, partNumber r ∈ c.numbers ∨ r ∈ pending ++ inFlight.map Prod.fst
  fits : Fits j → Fitting j w0 w c id pending inFlight

structure Finished (j : Job) (w0 w : World) (parts : List UploadPartCheckpoint) : Prop where
  usable : Usable j w0
  fits : Fits j
  accepted : j.fileSize ≠ 0 ∨ j.service.acceptsEmpty = true
  numbers : parts.map UploadPartCheckpoint.partNumber = numbersFromOne j.ranges.length
  object : w.object = some (j.ranges.flatMap (piece j w0))

def Loaded (j : Job) (w0 : World) (c : UploadCheckpoint) : Prop :=
  (c = j.freshCheckpoint ∧ (j.checkpointEnabled = true → w0.checkpoint = none)) ∨
    (j.checkpointEnabled = true ∧ w0.checkpoint = some (some c) ∧ j.validateUploadCheckpoint c = true)

structure Created (j : Job) (w0 w : World) (c : UploadCheckpoint) (id : Nat) : Prop where
  checkpoint : c = { j.freshCheckpoint with uploadId := some id }
  no_file : j.checkpointEnabled = true → w0.checkpoint = none
  empty : w.uploads id = some fun _ => none
  known : id < w.nextId

def StageInv (j : Job) (w0 : World) (x : State) : Prop :=
  match x.stage with
  | .start => x.world = w0
  | .loaded c => x.world = w0 ∧ Loaded j w0 c
  | .created c id => Created j w0 x.world c id
  | .parts c id pending inFlight => PartsInv j w0 x.world c id pending inFlight
  | .complete parts id => ∃ c, parts = sortedParts c ∧ PartsInv j w0 x.world c id [] []
  | .completed parts => Finished j w0 x.world parts
  | .removed parts => Finished j w0 x.world parts
  | .done (.ok parts) => Finished j w0 x.world parts
  | .done .failed => True
  | .killed => True

structure Inv (j : Job) (w0 : World) (x : State) : Prop where
  world : WorldInv j.toUpload x.world
  stage : StageInv j w0 x

section Parts

variable {j : Job} {w0 w w' : World} {c : UploadCheckpoint} {id : Nat} {r : PartRange}
  {pending : List PartRange} {before after inFlight : List (PartRange × Option Text)}

theorem validated_size (h : j.validateUploadCheckpoint c = true) : c.fileSize = j.fileSize :=
  (of_decide_eq_true h).2.1

theorem mem_pendingParts : r ∈ pendingParts j c ↔ r ∈ j.ranges ∧ partNumber r ∉ c.numbers := by
  simp [pendingParts]

theorem pendingParts_nodup (j : Job) (c : UploadCheckpoint) : (pendingParts j c).Nodup :=
  (ranges_nodup j.fileSize).filter _

theorem pendingParts_covered (hr : r ∈ j.ranges) :
    partNumber r ∈ c.numbers ∨ r ∈ pendingParts j c := by
  by_cases hn : partNumber r ∈ c.numbers
  · exact .inl hn
  · exact .inr (mem_pendingParts.mpr ⟨hr, hn⟩)

theorem piece_unrecorded (h : w0.recorded j (partNumber r) = none) :
    piece j w0 r = r.slice j.content := by rw [piece, h, Option.getD_none]

theorem recorded_none (h : j.checkpointEnabled = true → w0.checkpoint = none) (n : Int) :
    w0.recorded j n = none := by
  cases hc : w0.checkpoint with
  | none => simp [World.recorded, hc]
  | some file =>
    cases file with
    | none => simp [World.recorded, hc]
    | some c =>
      have hne : j.checkpointEnabled ≠ true := fun he => by simp [h he] at hc
      simp [World.recorded, hc, hne]

theorem recorded_file (he : j.checkpointEnabled = true) (hc : w0.checkpoint = some (some c))
    (hid : c.uploadId = some id) {n : Int} :
    w0.recorded j n = if n ∈ c.numbers then (w0.uploads id).bind fun stored => stored n else none := by
  simp [World.recorded, hc, he, hid]

theorem PartsInv.enter (hs : c.fileSize = j.fileSize) (hid : c.uploadId = some id)
    (hknown : id < w.nextId) (hsync : j.checkpointEnabled = true → w.checkpoint = some (some c))
    (husable : w.uploads id ≠ none → Usable j w0) (hsession : Fits j → Session j.service w c id)
    (hnone : ∀ r ∈ j.ranges, partNumber r ∉ c.numbers → w0.recorded j (partNumber r) = none)
    (hpieces : Fits j → ∀ stored, w.uploads id = some stored → ∀ r ∈ j.ranges,
      partNumber r ∈ c.numbers → stored (partNumber r) = some (piece j w0 r)) :
    PartsInv j w0 w c id (pendingParts j c) [] where
  file_size := hs
  upload_id := hid
  known := hknown
  synced := hsync
  usable := husable
  covered := by
    intro r hr
    simpa using pendingParts_covered hr
  fits hf := {
    session := hsession hf
    nodup := by simpa using pendingParts_nodup j c
    planned := by
      intro r hr
      obtain ⟨hr, hn⟩ := mem_pendingParts.mp (by simpa using hr)
      exact ⟨hr, hn, hnone r hr hn⟩
    answered := by simp
    pieces := hpieces hf }

theorem Created.parts (h : Created j w0 w c id) :
    PartsInv j w0 (w.save j c) c id (pendingParts j c) [] := by
  have hnumbers : c.numbers = [] := by rw [h.checkpoint]; rfl
  refine PartsInv.enter (by rw [h.checkpoint]; rfl) (by rw [h.checkpoint]) (by simpa using h.known)
    (save_enabled w j c) (fun _ he file hfile => ?_) (fun _ => ?_) (fun r _ _ => recorded_none h.no_file _)
    (fun _ _ _ r _ hn => ?_)
  · rw [h.no_file he] at hfile
    cases hfile
  · exact fresh_session j.service _ (by rw [h.checkpoint]; rfl) id
  · rw [hnumbers] at hn
    cases hn

theorem resume_parts (hw : WorldInv j.toUpload w0) (h : Loaded j w0 c) (hid : c.uploadId = some id) :
    PartsInv j w0 w0 c id (pendingParts j c) [] := by
  rcases h with ⟨rfl, -⟩ | ⟨he, hc, hv⟩
  · cases hid
  obtain ⟨id', hinv⟩ := hw.file c hc
  obtain rfl : id = id' := Option.some.inj (hid.symm.trans hinv.upload_id)
  have hsize := validated_size hv
  have hfits : Fits j → FitsSize c.fileSize := fun hf => by rw [hsize]; exact hf
  refine PartsInv.enter hsize hid hinv.known (fun _ => hc) (fun hlive _ file hfile => ?_)
    (fun hf => hinv.session (hfits hf)) (fun r _ hn => ?_) (fun hf stored hs r _ hn => ?_)
  · obtain rfl := Option.some.inj (hc.symm.trans hfile)
    refine ⟨c, rfl, hv, fun id' hid' => ?_⟩
    obtain rfl := Option.some.inj (hid.symm.trans hid')
    exact hlive
  · rw [recorded_file he hc hid, if_neg hn]
  · obtain ⟨p, hp, hnumber⟩ := List.mem_map.mp hn
    obtain ⟨b, hb, -⟩ := (hinv.session (hfits hf)).listed stored hs p hp
    rw [hnumber] at hb
    rw [piece, recorded_file he hc hid, if_pos hn, hs, Option.bind_some, hb, Option.getD_some]

theorem map_fst_answered (r : PartRange) (etag : Text) :
    (before ++ (r, some etag) :: after).map Prod.fst = (before ++ (r, none) :: after).map Prod.fst := by
  simp

theorem launch_perm : (pending ++ (inFlight ++ [(r, none)]).map Prod.fst).Perm
    (r :: pending ++ inFlight.map Prod.fst) := by
  simp only [List.map_append, List.map_cons, List.map_nil, List.cons_append]
  rw [← List.append_assoc]
  exact List.perm_append_singleton r _

theorem record_perm (etag : Option Text) :
    (pending ++ (before ++ (r, etag) :: after).map Prod.fst).Perm
      (r :: (pending ++ (before ++ after).map Prod.fst)) := by
  simp only [List.map_append, List.map_cons, ← List.append_assoc]
  exact List.perm_middle

theorem PartsInv.launch (h : PartsInv j w0 w c id (r :: pending) inFlight) :
    PartsInv j w0 w c id pending (inFlight ++ [(r, none)]) :=
  { h with
    covered := fun r' hr' => (h.covered r' hr').imp_right launch_perm.mem_iff.mpr
    fits := fun hf =>
      { h.fits hf with
        nodup := launch_perm.nodup_iff.mpr (h.fits hf).nodup
        planned := fun r' hr' => (h.fits hf).planned r' (launch_perm.mem_iff.mp hr')
        answered := by
          intro r' etag hm
          rcases List.mem_append.mp hm with hm | hm
          · exact (h.fits hf).answered r' etag hm
          · simp at hm } }

theorem Fitting.store (h : Fitting j w0 w c id pending (before ++ (r, none) :: after))
    (hf : Fits j) {stored : Int → Option Bytes} (hl : w.uploads id = some stored) :
    Fitting j w0 (w.putUpload id (some (storePart stored r (r.slice j.content)))) c id pending
      (before ++ (r, some (j.etagOf r)) :: after) := by
  have hr := h.planned r (by simp)
  have hold : ∀ r' etag, (r', some etag) ∈ before ++ (r, none) :: after → etag = j.etagOf r' ∧
      ∀ stored', some (storePart stored r (r.slice j.content)) = some stored' →
        stored' (partNumber r') = some (r'.slice j.content) := by
    intro r' etag hm
    refine ⟨(h.answered r' etag hm).1, ?_⟩
    rintro stored' ⟨rfl⟩
    by_cases he : partNumber r' = partNumber r
    · have hmem := List.mem_append_right pending (List.mem_map_of_mem (f := Prod.fst) hm)
      obtain rfl := partNumber_inj hf (h.planned r' hmem).1 hr.1 he
      exact storePart_self ..
    · rw [storePart_ne _ _ he]
      exact (h.answered r' etag hm).2 stored hl
  exact {
    session := h.session.store hl hr.2.1 _
    nodup := by
      rw [map_fst_answered]
      exact h.nodup
    planned := by
      rw [map_fst_answered]
      exact h.planned
    answered := by
      rw [putUpload_self]
      intro r' etag hm
      simp only [List.mem_append, List.mem_cons, Prod.mk.injEq, Option.some.injEq] at hm
      rcases hm with hm | ⟨rfl, rfl⟩ | hm
      · exact hold r' etag (by simp [hm])
      · refine ⟨rfl, ?_⟩
        rintro stored' ⟨rfl⟩
        exact storePart_self ..
      · exact hold r' etag (by simp [hm])
    pieces := by
      rw [putUpload_self]
      rintro stored' ⟨rfl⟩ r' hr' hn
      have hne : partNumber r' ≠ partNumber r := fun he => hr.2.1 (he ▸ hn)
      rw [storePart_ne _ _ hne]
      exact h.pieces stored hl r' hr' hn }

theorem PartsInv.store (h : PartsInv j w0 w c id pending (before ++ (r, none) :: after))
    {stored : Int → Option Bytes} (hl : w.uploads id = some stored) :
    PartsInv j w0 (w.putUpload id (some (storePart stored r (r.slice j.content)))) c id pending
      (before ++ (r, some (j.etagOf r)) :: after) where
  file_size := h.file_size
  upload_id := h.upload_id
  known := h.known
  synced := h.synced
  usable := fun _ => h.usable (by simp [hl])
  covered := by
    rw [map_fst_answered]
    exact h.covered
  fits := fun hf => (h.fits hf).store hf hl

theorem Fitting.record {etag : Text} (hsize : c.fileSize = j.fileSize) (hf : Fits j)
    (h : Fitting j w0 w c id pending (before ++ (r, some etag) :: after)) :
    Fitting j w0 (w.save j (c.pushPart ⟨partNumber r, etag⟩)) (c.pushPart ⟨partNumber r, etag⟩) id
      pending (before ++ after) := by
  obtain ⟨rfl, hstored⟩ := h.answered r etag (by simp)
  have hr := h.planned r (by simp)
  have hrange : r ∈ Checkpoint.ranges c.fileSize := hsize ▸ hr.1
  have hnodup := List.nodup_cons.mp ((record_perm _).nodup_iff.mp h.nodup)
  exact {
    session := (h.session.pushPart (hsize ▸ hf) hrange hr.2.1 hstored
      (range_slice_length hr.1)).congr (by rw [save_uploads])
    nodup := hnodup.2
    planned := by
      intro r' hr'
      obtain ⟨h1, h2, h3⟩ := h.planned r' ((record_perm _).mem_iff.mpr (List.mem_cons_of_mem _ hr'))
      refine ⟨h1, fun hm => ?_, h3⟩
      rw [pushPart_numbers, List.mem_append, List.mem_singleton] at hm
      rcases hm with hm | hm
      · exact h2 hm
      · exact hnodup.1 (partNumber_inj hf h1 hr.1 hm ▸ hr')
    answered := by
      rw [save_uploads]
      intro r' e hm
      have hsub := (List.sublist_cons_self (r, some (j.etagOf r)) after).append_left before
      exact h.answered r' e (hsub.subset hm)
    pieces := by
      rw [save_uploads]
      intro stored hs r' hr' hn
      rw [pushPart_numbers, List.mem_append, List.mem_singleton] at hn
      rcases hn with hn | hn
      · exact h.pieces stored hs r' hr' hn
      · obtain rfl := partNumber_inj hf hr' hr.1 hn
        rw [piece_unrecorded hr.2.2]
        exact hstored stored hs }

theorem PartsInv.record {etag : Text}
    (h : PartsInv j w0 w c id pending (before ++ (r, some etag) :: after)) :
    PartsInv j w0 (w.save j (c.pushPart ⟨partNumber r, etag⟩)) (c.pushPart ⟨partNumber r, etag⟩) id
      pending (before ++ after) where
  file_size := h.file_size
  upload_id := h.upload_id
  known := by
    rw [save_nextId]
    exact h.known
  synced := save_enabled w j _
  usable := by
    rw [save_uploads]
    exact h.usable
  covered := by
    intro r' hr'
    rw [pushPart_numbers, List.mem_append, List.mem_singleton]
    rcases h.covered r' hr' with hn | hm
    · exact .inl (.inl hn)
    · rcases List.mem_cons.mp ((record_perm _).mem_iff.mp hm) with rfl | hm
      · exact .inl (.inr rfl)
      · exact .inr hm
  fits := fun hf => (h.fits hf).record h.file_size hf

theorem PartsInv.all_numbers (h : PartsInv j w0 w c id [] []) {r : PartRange} (hr : r ∈ j.ranges) :
    partNumber r ∈ c.numbers := (h.covered r hr).resolve_right (by simp)

theorem PartsInv.checkpointInv (h : PartsInv j w0 w c id pending inFlight) :
    CheckpointInv j.service w c id :=
  ⟨h.upload_id, h.known, fun hf => (h.fits (by rw [h.file_size] at hf; exact hf)).session⟩

theorem sortedParts_perm (c : UploadCheckpoint) :
    ((sortedParts c).map UploadPartCheckpoint.partNumber).Perm c.numbers :=
  (List.mergeSort_perm _ _).map _

theorem PartsInv.sorted_numbers (h : PartsInv j w0 w c id [] []) (hf : Fits j) :
    (sortedParts c).map UploadPartCheckpoint.partNumber = j.ranges.map partNumber := by
  have hsorted : (j.ranges.map partNumber).Pairwise (· < ·) := partNumbers_sorted hf
  have hle : ((sortedParts c).map UploadPartCheckpoint.partNumber).Pairwise (· ≤ ·) :=
    List.pairwise_map.mpr (sortOn_pairwise UploadPartCheckpoint.partNumber _)
  have hmem : ∀ n, n ∈ c.numbers ↔ n ∈ j.ranges.map partNumber := by
    intro n
    constructor
    · intro hn
      obtain ⟨r, hr, rfl⟩ := (h.fits hf).session.planned n hn
      rw [h.file_size] at hr
      exact List.mem_map_of_mem hr
    · intro hn
      obtain ⟨r, hr, rfl⟩ := List.mem_map.mp hn
      exact h.all_numbers hr
  have hall := (sortedParts_perm c).trans ((List.perm_ext_iff_of_nodup (h.fits hf).session.nodup
    (hsorted.imp fun h => Int.ne_of_lt h)).mpr hmem)
  exact hall.eq_of_pairwise (fun a b _ _ => Int.le_antisymm) hle (hsorted.imp Int.le_of_lt)

theorem PartsInv.assembled (h : PartsInv j w0 w c id [] []) (hf : Fits j)
    {stored : Int → Option Bytes} (hs : w.uploads id = some stored) :
    assembled stored (sortedParts c) = j.ranges.flatMap (piece j w0) := by
  calc Multipart.assembled stored (sortedParts c)
      = ((sortedParts c).map UploadPartCheckpoint.partNumber).flatMap
          fun n => (stored n).getD [] := by rw [List.flatMap_map]; rfl
    _ = j.ranges.flatMap fun r => (stored (partNumber r)).getD [] := by
        rw [h.sorted_numbers hf, List.flatMap_map]
    _ = j.ranges.flatMap (piece j w0) := by
        refine List.flatMap_congr fun r hr => ?_
        rw [(h.fits hf).pieces stored hs r hr (h.all_numbers hr), Option.getD_some]

theorem PartsInv.finished {w' : World} (h : PartsInv j w0 w c id [] [])
    (hc : CompleteUpload j.service id (sortedParts c) w w') : Finished j w0 w' (sortedParts c) := by
  cases hc with
  | accepted stored hl hnumbers hempty hlisted =>
    have hf : Fits j := by
      refine fitsSize_of_listed (n := (sortedParts c).length) fun r hr => ?_
      rw [← hnumbers, (sortedParts_perm c).mem_iff]
      exact h.all_numbers hr
    have hsorted := h.sorted_numbers hf
    refine ⟨h.usable (by simp [hl]), hf, ?_, ?_, ?_⟩
    · rcases hempty with hne | he
      · refine .inl ((ranges_ne_nil_iff j.fileSize).mp fun hnil => hne ?_)
        have hranges : j.ranges = [] := hnil
        rw [hranges, List.map_nil, List.map_eq_nil_iff] at hsorted
        exact hsorted
      · exact .inr he
    · rw [hsorted]
      exact map_partNumber hf
    · exact congrArg some (h.assembled hf hl)

end Parts

section Steps

variable {j : Job} {w0 w w' : World} {x x' : State} {parts : List UploadPartCheckpoint} {id : Nat}

theorem torn_inv (w : World) (he : j.checkpointEnabled = true) :
    WorldInv j.toUpload { w with checkpoint := some none } :=
  .noFile (fun hd => by simp [he] at hd) (by simp)

theorem WorldInv.removed (h : WorldInv j.toUpload w) :
    WorldInv j.toUpload (w.removeCheckpointFile j) := by
  unfold World.removeCheckpointFile
  split
  · exact .noFile (fun _ => rfl) (by simp)
  · exact h

theorem WorldInv.retire (h : WorldInv j.toUpload w) (id : Nat) :
    WorldInv j.toUpload (w.putUpload id none) where
  disabled := h.disabled
  file := by
    intro c hf
    obtain ⟨id', hinv⟩ := h.file c hf
    refine ⟨id', hinv.upload_id, hinv.known, fun hfits => ?_⟩
    by_cases he : id' = id
    · subst he
      exact (hinv.session hfits).retired (putUpload_self ..)
    · exact (hinv.session hfits).congr (by simp [World.putUpload, he])

theorem WorldInv.complete (h : WorldInv j.toUpload w)
    (hc : CompleteUpload j.service id parts w w') : WorldInv j.toUpload w' := by
  cases hc with
  | accepted => exact (h.retire id).congr rfl (Nat.le_refl _) fun _ _ => rfl

theorem save_inv {c : UploadCheckpoint} (h : WorldInv j.toUpload w)
    (hc : CheckpointInv j.service (w.save j c) c id) : WorldInv j.toUpload (w.save j c) := by
  refine .owned (fun hd => ?_) (save_enabled w j c) hc
  have hj : j.checkpointEnabled = false := hd
  rw [save_disabled w j c hj]
  exact h.disabled hd

theorem step_inv (hs : Step j x x') (h : Inv j w0 x) : Inv j w0 x' := by
  obtain ⟨hw, hst⟩ := h
  cases hs with
  | fail w stage _ => exact ⟨hw, trivial⟩
  | kill w stage _ => exact ⟨hw, trivial⟩
  | loadNone w hc =>
    obtain rfl : w = w0 := hst
    exact ⟨hw, rfl, .inl ⟨rfl, hc⟩⟩
  | load w c he hc hv =>
    obtain rfl : w = w0 := hst
    exact ⟨hw, rfl, .inr ⟨he, hc, hv⟩⟩
  | initiate w c hid =>
    obtain ⟨hw0, hload⟩ := hst
    obtain rfl : w = w0 := hw0
    refine ⟨hw.congr rfl (Nat.le_succ _) fun _ hlt => initiate_uploads w hlt, ?_⟩
    rcases hload with ⟨rfl, hnone⟩ | ⟨-, hc, -⟩
    · exact ⟨rfl, hnone, initiate_self w, Nat.lt_succ_self _⟩
    · obtain ⟨id, hinv⟩ := hw.file c hc
      exact absurd (hid.symm.trans hinv.upload_id) nofun
  | saveInitiated w c id =>
    have hparts := hst.parts
    exact ⟨save_inv hw hparts.checkpointInv, hparts⟩
  | tearInitiated w c id he => exact ⟨torn_inv w he, trivial⟩
  | resume w c id hid =>
    obtain ⟨hw0, hload⟩ := hst
    obtain rfl : w = w0 := hw0
    exact ⟨hw, resume_parts hw hload hid⟩
  | launch w c id r pending inFlight _ => exact ⟨hw, hst.launch⟩
  | store w c id pending before r after stored hl =>
    have hparts := hst.store hl
    exact ⟨.owned hw.disabled hparts.synced hparts.checkpointInv, hparts⟩
  | record w c id pending before r etag after =>
    have hparts := hst.record
    exact ⟨save_inv hw hparts.checkpointInv, hparts⟩
  | tearRecorded w c id pending before r etag after he => exact ⟨torn_inv w he, trivial⟩
  | abort w c id pending inFlight _ => exact ⟨hw.retire id, trivial⟩
  | finish w c id => exact ⟨hw, c, rfl, hst⟩
  | abortComplete w parts id _ => exact ⟨hw.retire id, trivial⟩
  | complete w parts id w' hc hash _ _ =>
    obtain ⟨c, rfl, hparts⟩ := hst
    exact ⟨hw.complete hc, hparts.finished hc⟩
  | completeLost w parts id w' hc => exact ⟨hw.complete hc, trivial⟩
  | removeCheckpoint w parts =>
    exact ⟨hw.removed, hst.usable, hst.fits, hst.accepted, hst.numbers, by simpa using hst.object⟩
  | exit w parts => exact ⟨hw, hst⟩

theorem run_inv (hw : WorldInv j.toUpload w) (h : Run j ⟨w, .start⟩ x) : Inv j w x := by
  induction h with
  | refl => exact ⟨hw, rfl⟩
  | tail _ hs ih => exact step_inv hs ih

theorem Reachable.inv {u : Upload} {w : World} (h : Reachable u w) : WorldInv u w := by
  induction h with
  | initial nextId object => exact initial_inv u nextId object
  | run w x j hj _ hr ih =>
    subst hj
    exact (run_inv ih hr).world
  | put w b _ ih => exact ih.congr rfl (Nat.le_refl _) fun _ _ => rfl

end Steps

section Blocked

variable {j : Job} {w w' : World} {x x' : State}

-- A run over an unusable checkpoint fails and leaves everything as it was.
def BlockedAt (w : World) (x : State) : Prop :=
  x.world = w ∧
    match x.stage with
    | .loaded c => ∃ id, c.uploadId = some id ∧ w.uploads id = none
    | .parts _ id _ inFlight => w.uploads id = none ∧ ∀ e ∈ inFlight, e.2 = none
    | .complete _ id => w.uploads id = none
    | .created _ _ => False
    | .completed _ => False
    | .removed _ => False
    | .done (.ok _) => False
    | _ => True

theorem blocked_load (hb : ¬ Usable j w) :
    j.checkpointEnabled = true ∧ w.checkpoint ≠ none ∧
      ∀ c, w.checkpoint = some (some c) → j.validateUploadCheckpoint c = true →
        ∃ id, c.uploadId = some id ∧ w.uploads id = none := by
  unfold Usable at hb
  push Not at hb
  obtain ⟨he, file, hfile, hbad⟩ := hb
  refine ⟨he, by simp [hfile], fun c hc hv => ?_⟩
  obtain rfl := Option.some.inj (hfile.symm.trans hc)
  exact hbad c rfl hv

theorem blocked_step (hb : ¬ Usable j w) (hs : Step j x x') (h : BlockedAt w x) : BlockedAt w x' := by
  obtain ⟨hw, hst⟩ := h
  obtain ⟨he, hsome, hload⟩ := blocked_load hb
  cases hs with
  | fail _ stage _ => exact ⟨hw, trivial⟩
  | kill _ stage _ => exact ⟨hw, trivial⟩
  | loadNone _ hc =>
    subst hw
    exact absurd (hc he) hsome
  | load _ c _ hc hv =>
    subst hw
    exact ⟨rfl, hload c hc hv⟩
  | initiate _ c hid =>
    obtain ⟨id, hsome, -⟩ := hst
    simp [hid] at hsome
  | saveInitiated => exact hst.elim
  | tearInitiated => exact hst.elim
  | resume _ c id hid =>
    obtain ⟨id', hid', hnone⟩ := hst
    obtain rfl := Option.some.inj (hid.symm.trans hid')
    exact ⟨hw, hnone, by simp⟩
  | launch _ c id r pending inFlight _ =>
    refine ⟨hw, hst.1, fun e hm => ?_⟩
    rcases List.mem_append.mp hm with hm | hm
    · exact hst.2 e hm
    · rw [List.mem_singleton.mp hm]
  | store _ c id pending before r after stored hl =>
    subst hw
    exact absurd (hst.1.symm.trans hl) nofun
  | record _ c id pending before r etag after => simpa using hst.2 (r, some etag) (by simp)
  | tearRecorded _ c id pending before r etag after _ => simpa using hst.2 (r, some etag) (by simp)
  | abort _ c id pending inFlight hd => simp [he] at hd
  | finish _ c id => exact ⟨hw, hst.1⟩
  | abortComplete _ parts id hd => simp [he] at hd
  | complete _ parts id w' hc _ _ _ =>
    cases hc with
    | accepted stored hl =>
      subst hw
      exact absurd (hst.symm.trans hl) nofun
  | completeLost _ parts id w' hc =>
    cases hc with
    | accepted stored hl =>
      subst hw
      exact absurd (hst.symm.trans hl) nofun
  | removeCheckpoint => exact hst.elim
  | exit => exact hst.elim

theorem blocked_run (hb : ¬ Usable j w) (h : Run j ⟨w, .start⟩ x) : BlockedAt w x := by
  induction h with
  | refl => exact ⟨rfl, trivial⟩
  | tail _ hs ih => exact blocked_step hb hs ih

theorem blocked_later (hb : ¬ Usable j w) (h : Later j w w') : w' = w := by
  induction h with
  | refl => rfl
  | tail _ hstep ih =>
    obtain ⟨x, hrun, hx⟩ := hstep
    rw [ih] at hrun
    rw [← hx, (blocked_run hb hrun).1]

end Blocked

end VeStorage.ADrive.Multipart
