import VeStorage.ADrive.Multipart.Machine

namespace VeStorage.ADrive.Multipart
open Lib
open Tos.Transfer (PartRange partRangesFrom_numbers partRangesFrom_numbers_nodup mem_partRangesFrom
  slice_length)

def FitsSize (fileSize : Nat) : Prop := (Checkpoint.ranges fileSize).length < 2 ^ 31

theorem i32_small {n : Nat} (h : n < 2 ^ 31) : i32 n = n := by
  unfold i32
  rw [Int.bmod_def]
  omega

theorem i32_first_lost : i32 (2 ^ 31) = -(2 ^ 31) := by decide

section Numbers

variable {fileSize : Nat} {r r' : PartRange}

theorem ranges_numbers (fileSize : Nat) : (Checkpoint.ranges fileSize).map PartRange.number =
    List.range' 1 (Checkpoint.ranges fileSize).length := partRangesFrom_numbers _ _ _

theorem ranges_nodup (fileSize : Nat) : (Checkpoint.ranges fileSize).Nodup :=
  List.Nodup.of_map _ (partRangesFrom_numbers_nodup _ _ _)

theorem partNumber_eq (hf : FitsSize fileSize) (hr : r ∈ Checkpoint.ranges fileSize) :
    partNumber r = r.number := by
  have hm := List.mem_map_of_mem (f := PartRange.number) hr
  rw [ranges_numbers, List.mem_range'_1] at hm
  have hlen : (Checkpoint.ranges fileSize).length < 2 ^ 31 := hf
  exact i32_small (by omega)

theorem partNumber_inj (hf : FitsSize fileSize) (hr : r ∈ Checkpoint.ranges fileSize)
    (hr' : r' ∈ Checkpoint.ranges fileSize) (h : partNumber r = partNumber r') : r = r' := by
  rw [partNumber_eq hf hr, partNumber_eq hf hr'] at h
  exact Checkpoint.ranges_number_inj hr hr' (Int.ofNat_inj.mp h)

theorem map_partNumber (hf : FitsSize fileSize) : (Checkpoint.ranges fileSize).map partNumber =
    numbersFromOne (Checkpoint.ranges fileSize).length := by
  rw [numbersFromOne, ← ranges_numbers, List.map_map]
  exact List.map_congr_left fun r hr => partNumber_eq hf hr

theorem partNumbers_sorted (hf : FitsSize fileSize) :
    ((Checkpoint.ranges fileSize).map partNumber).Pairwise (· < ·) := by
  rw [map_partNumber hf, numbersFromOne, List.pairwise_map]
  exact List.Pairwise.imp Int.ofNat_lt.mpr List.pairwise_lt_range'

-- Part 2 ^ 31 takes a negative number, which no completed upload lists.
theorem fitsSize_of_listed {n : Nat}
    (h : ∀ r ∈ Checkpoint.ranges fileSize, partNumber r ∈ numbersFromOne n) : FitsSize fileSize := by
  refine Nat.lt_of_not_le fun hle => ?_
  have hm : 2 ^ 31 ∈ (Checkpoint.ranges fileSize).map PartRange.number := by
    rw [ranges_numbers, List.mem_range'_1]
    omega
  obtain ⟨r, hr, hnumber⟩ := List.mem_map.mp hm
  have hlisted := h r hr
  rw [partNumber, hnumber, i32_first_lost] at hlisted
  obtain ⟨k, -, hk⟩ := List.mem_map.mp hlisted
  simp only [Int.ofNat_eq_natCast] at hk
  omega

theorem ranges_ne_nil_iff (fileSize : Nat) : Checkpoint.ranges fileSize ≠ [] ↔ fileSize ≠ 0 := by
  have hslices := Checkpoint.ranges_slices (List.length_replicate (n := fileSize) (a := (0 : UInt8)))
  constructor
  · rintro hne rfl
    exact hne rfl
  · rintro h0 hnil
    rw [hnil] at hslices
    exact h0 (by simpa using congrArg List.length hslices.symm)

theorem range_slice_length {content : Bytes} (hr : r ∈ Checkpoint.ranges content.length) :
    (r.slice content).length = r.size := slice_length rfl hr

end Numbers

-- What an upload keeps of the parts that the checkpoint lists, as far as it is still live.
structure Session (S : Service) (w : World) (c : UploadCheckpoint) (id : Nat) : Prop where
  nodup : c.numbers.Nodup
  planned : ∀ n ∈ c.numbers, ∃ r ∈ Checkpoint.ranges c.fileSize, partNumber r = n
  listed : ∀ stored, w.uploads id = some stored → ∀ p ∈ c.completedParts, Listed S stored p
  sizes : ∀ stored, w.uploads id = some stored → ∀ r ∈ Checkpoint.ranges c.fileSize,
    partNumber r ∈ c.numbers → ∀ b, stored (partNumber r) = some b → b.length = r.size

structure CheckpointInv (S : Service) (w : World) (c : UploadCheckpoint) (id : Nat) : Prop where
  upload_id : c.uploadId = some id
  known : id < w.nextId
  session : FitsSize c.fileSize → Session S w c id

structure WorldInv (u : Upload) (w : World) : Prop where
  disabled : u.checkpointEnabled = false → w.checkpoint = none
  file : ∀ c, w.checkpoint = some (some c) → ∃ id, CheckpointInv u.service w c id

section Frames

variable (w : World) (id : Nat) (u : Option (Int → Option Bytes)) (j : Job) (c : UploadCheckpoint)

@[simp] theorem putUpload_checkpoint : (w.putUpload id u).checkpoint = w.checkpoint := rfl
@[simp] theorem putUpload_nextId : (w.putUpload id u).nextId = w.nextId := rfl
@[simp] theorem putUpload_object : (w.putUpload id u).object = w.object := rfl
@[simp] theorem initiate_checkpoint : w.initiate.checkpoint = w.checkpoint := rfl
@[simp] theorem initiate_nextId : w.initiate.nextId = w.nextId + 1 := rfl

@[simp] theorem putUpload_self : (w.putUpload id u).uploads id = u := by simp [World.putUpload]

@[simp] theorem initiate_self : w.initiate.uploads w.nextId = some fun _ => none := by
  simp [World.initiate]

theorem initiate_uploads {id' : Nat} (h : id' < w.nextId) :
    w.initiate.uploads id' = w.uploads id' := by
  simp [World.initiate, World.putUpload, Nat.ne_of_lt h]

@[simp] theorem save_uploads : (w.save j c).uploads = w.uploads := by
  unfold World.save
  split <;> rfl

@[simp] theorem save_nextId : (w.save j c).nextId = w.nextId := by
  unfold World.save
  split <;> rfl

theorem save_enabled (he : j.checkpointEnabled = true) : (w.save j c).checkpoint = some (some c) := by
  simp [World.save, he]

theorem save_disabled (he : j.checkpointEnabled = false) : w.save j c = w := by
  simp [World.save, he]

@[simp] theorem removeCheckpointFile_object : (w.removeCheckpointFile j).object = w.object := by
  unfold World.removeCheckpointFile
  split <;> rfl

end Frames

theorem storePart_self (stored : Int → Option Bytes) (r : PartRange) (b : Bytes) :
    storePart stored r b (partNumber r) = some b := by simp [storePart]

theorem storePart_ne (stored : Int → Option Bytes) {r : PartRange} (b : Bytes) {n : Int}
    (h : n ≠ partNumber r) : storePart stored r b n = stored n := by simp [storePart, h]

@[simp] theorem pushPart_numbers (c : UploadCheckpoint) (n : Int) (etag : Text) :
    (c.pushPart ⟨n, etag⟩).numbers = c.numbers ++ [n] := by
  simp [UploadCheckpoint.numbers, UploadCheckpoint.pushPart]

theorem listed_mk {S : Service} {stored : Int → Option Bytes} {n : Int} {b : Bytes}
    (h : stored n = some b) : Listed S stored ⟨n, S.etag b⟩ := ⟨b, h, rfl⟩

theorem partNumber_mem {c : UploadCheckpoint} {p : UploadPartCheckpoint} (hp : p ∈ c.completedParts) :
    p.partNumber ∈ c.numbers := List.mem_map_of_mem hp

section World

variable {S : Service} {w w' : World} {c : UploadCheckpoint} {id : Nat} {r : PartRange}
  {stored : Int → Option Bytes}

theorem Session.congr (h : Session S w c id) (hu : w'.uploads id = w.uploads id) :
    Session S w' c id where
  nodup := h.nodup
  planned := h.planned
  listed := by
    rw [hu]
    exact h.listed
  sizes := by
    rw [hu]
    exact h.sizes

theorem CheckpointInv.congr (h : CheckpointInv S w c id) (hid : w.nextId ≤ w'.nextId)
    (hu : w'.uploads id = w.uploads id) : CheckpointInv S w' c id :=
  ⟨h.upload_id, Nat.lt_of_lt_of_le h.known hid, fun hf => (h.session hf).congr hu⟩

theorem Session.retired (h : Session S w c id) (hu : w'.uploads id = none) : Session S w' c id where
  nodup := h.nodup
  planned := h.planned
  listed := by simp [hu]
  sizes := by simp [hu]

theorem Session.store (h : Session S w c id) (hl : w.uploads id = some stored)
    (hr : partNumber r ∉ c.numbers) (b : Bytes) :
    Session S (w.putUpload id (some (storePart stored r b))) c id where
  nodup := h.nodup
  planned := h.planned
  listed := by
    rw [putUpload_self]
    rintro stored' ⟨rfl⟩ p hp
    have hne : p.partNumber ≠ partNumber r := fun he => hr (he ▸ partNumber_mem hp)
    obtain ⟨b', hb', he⟩ := h.listed stored hl p hp
    exact ⟨b', by rw [storePart_ne _ _ hne]; exact hb', he⟩
  sizes := by
    rw [putUpload_self]
    rintro stored' ⟨rfl⟩ r' hr' hn b' hb'
    have hne : partNumber r' ≠ partNumber r := fun he => hr (he ▸ hn)
    rw [storePart_ne _ _ hne] at hb'
    exact h.sizes stored hl r' hr' hn b' hb'

theorem Session.pushPart (h : Session S w c id) (hf : FitsSize c.fileSize)
    (hr : r ∈ Checkpoint.ranges c.fileSize) (hnew : partNumber r ∉ c.numbers) {b : Bytes}
    (hb : ∀ stored, w.uploads id = some stored → stored (partNumber r) = some b)
    (hlen : b.length = r.size) : Session S w (c.pushPart ⟨partNumber r, S.etag b⟩) id where
  nodup := by
    rw [pushPart_numbers, List.nodup_append]
    refine ⟨h.nodup, by simp, fun n hn m hm he => hnew ?_⟩
    rw [← List.mem_singleton.mp hm, ← he]
    exact hn
  planned := by
    rw [pushPart_numbers]
    intro n hn
    rcases List.mem_append.mp hn with hn | hn
    · exact h.planned n hn
    · exact ⟨r, hr, (List.mem_singleton.mp hn).symm⟩
  listed := by
    intro stored hs p hp
    rcases List.mem_append.mp hp with hp | hp
    · exact h.listed stored hs p hp
    · rw [List.mem_singleton.mp hp]
      exact listed_mk (hb stored hs)
  sizes := by
    intro stored hs r' hr' hn b' hb'
    have hr'' : r' ∈ Checkpoint.ranges c.fileSize := hr'
    rw [pushPart_numbers, List.mem_append, List.mem_singleton] at hn
    rcases hn with hn | hn
    · exact h.sizes stored hs r' hr'' hn b' hb'
    · obtain rfl := partNumber_inj hf hr'' hr hn
      obtain rfl := Option.some.inj ((hb stored hs).symm.trans hb')
      exact hlen

theorem fresh_session (S : Service) (w : World) {c : UploadCheckpoint} (h : c.completedParts = [])
    (id : Nat) : Session S w c id where
  nodup := by simp [UploadCheckpoint.numbers, h]
  planned := by simp [UploadCheckpoint.numbers, h]
  listed := by simp [h]
  sizes := by simp [UploadCheckpoint.numbers, h]

end World

section Kept

variable {u : Upload} {w w' : World} {c : UploadCheckpoint} {id : Nat}

theorem initial_inv (u : Upload) (nextId : Nat) (object : Option Bytes) :
    WorldInv u (World.initial nextId object) := ⟨fun _ => rfl, nofun⟩

theorem WorldInv.noFile (hd : u.checkpointEnabled = false → w.checkpoint = none)
    (h : ∀ c, w.checkpoint ≠ some (some c)) : WorldInv u w := ⟨hd, fun c hc => absurd hc (h c)⟩

theorem WorldInv.congr (h : WorldInv u w) (hc : w'.checkpoint = w.checkpoint)
    (hid : w.nextId ≤ w'.nextId) (hu : ∀ id < w.nextId, w'.uploads id = w.uploads id) :
    WorldInv u w' where
  disabled := by
    rw [hc]
    exact h.disabled
  file := by
    intro c hf
    obtain ⟨id, hinv⟩ := h.file c (hc ▸ hf)
    exact ⟨id, hinv.congr hid (hu id hinv.known)⟩

theorem WorldInv.owned (hd : u.checkpointEnabled = false → w.checkpoint = none)
    (hs : u.checkpointEnabled = true → w.checkpoint = some (some c))
    (hc : CheckpointInv u.service w c id) : WorldInv u w where
  disabled := hd
  file := by
    intro c' hf
    cases he : u.checkpointEnabled with
    | false => simp [hd he] at hf
    | true =>
      obtain rfl : c = c' := by simpa [hs he] using hf
      exact ⟨id, hc⟩

end Kept

end VeStorage.ADrive.Multipart
