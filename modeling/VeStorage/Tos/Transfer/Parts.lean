import Mathlib.Data.List.Basic
import Mathlib.Data.List.Nodup
import Mathlib.Data.List.Range

namespace VeStorage.Tos.Transfer

inductive UploadStrategy where
  | simple
  | multipart (partSize : Nat)
deriving DecidableEq

def mebibyte : Nat := 1024 * 1024

def optimalPartSize (fileSize : Nat) : Nat :=
  if fileSize < 1024 * mebibyte then 20 * mebibyte
  else if fileSize < 10 * 1024 * mebibyte then 50 * mebibyte
  else 100 * mebibyte

def autoSelect (fileSize : Nat) : UploadStrategy :=
  if fileSize ≤ 5 * 1024 * mebibyte then .simple else .multipart (optimalPartSize fileSize)

def multipartPartSize (fileSize : Nat) : Nat :=
  match autoSelect fileSize with
  | .multipart partSize => partSize
  | .simple => 20 * mebibyte

structure PartRange where
  number : Nat
  offset : Nat
  size : Nat
deriving DecidableEq, Repr

def partRangesFrom (partSize fileSize : Nat) : Nat → Nat → Nat → List PartRange
  | 0, _, _ => []
  | fuel + 1, number, offset =>
      if offset < fileSize then
        let size := min (fileSize - offset) partSize
        ⟨number, offset, size⟩ :: partRangesFrom partSize fileSize fuel (number + 1) (offset + size)
      else []

def partRanges (fileSize : Nat) : List PartRange :=
  partRangesFrom (multipartPartSize fileSize) fileSize fileSize 1 0

def PartRange.slice {α : Type} (r : PartRange) (content : List α) : List α :=
  (content.drop r.offset).take r.size

theorem multipartPartSize_pos (fileSize : Nat) : 0 < multipartPartSize fileSize := by
  unfold multipartPartSize autoSelect optimalPartSize mebibyte
  split
  · rename_i h
    split at h
    · cases h
    · cases h
      split
      · omega
      · split <;> omega
  · omega

section Loop

variable {partSize fileSize : Nat}

theorem partRangesFrom_numbers (fuel number offset : Nat) :
    (partRangesFrom partSize fileSize fuel number offset).map PartRange.number =
      List.range' number (partRangesFrom partSize fileSize fuel number offset).length := by
  induction fuel generalizing number offset with
  | zero => rfl
  | succ fuel ih =>
    unfold partRangesFrom
    split
    · simp only [List.map_cons, List.length_cons, List.range'_succ]
      rw [ih]
    · rfl

-- Every part but the last is a full one, so the number fixes the offset.
theorem mem_partRangesFrom {fuel number offset : Nat} {r : PartRange}
    (h : r ∈ partRangesFrom partSize fileSize fuel number offset) :
    number ≤ r.number ∧ r.offset = offset + (r.number - number) * partSize ∧ r.offset < fileSize ∧
      r.size = min (fileSize - r.offset) partSize := by
  induction fuel generalizing number offset with
  | zero => cases h
  | succ fuel ih =>
    unfold partRangesFrom at h
    split at h
    · rename_i hlt
      rcases List.mem_cons.mp h with rfl | h
      · simp [hlt]
      · obtain ⟨hn, ho, hl, hs⟩ := ih h
        have hfull : min (fileSize - offset) partSize = partSize := by
          rcases le_total partSize (fileSize - offset) with hle | hle
          · exact Nat.min_eq_right hle
          · rw [Nat.min_eq_left hle] at ho
            omega
        rw [hfull] at ho
        refine ⟨by omega, ?_, hl, hs⟩
        have : r.number - number = (r.number - (number + 1)) + 1 := by omega
        rw [ho, this, Nat.succ_mul]
        omega
    · cases h

theorem partRangesFrom_slices {α : Type} (hp : 0 < partSize) {content : List α}
    (hc : content.length = fileSize) {fuel number offset : Nat} (hf : fileSize - offset ≤ fuel) :
    (partRangesFrom partSize fileSize fuel number offset).flatMap (·.slice content) =
      content.drop offset := by
  induction fuel generalizing number offset with
  | zero =>
    have : content.length ≤ offset := by omega
    simp [partRangesFrom, List.drop_of_length_le this]
  | succ fuel ih =>
    unfold partRangesFrom
    split
    · rename_i hlt
      have hsize : 0 < min (fileSize - offset) partSize := lt_min (by omega) hp
      have hrest := @ih (number + 1) (offset + min (fileSize - offset) partSize) (by omega)
      rw [List.flatMap_cons, hrest, ← List.drop_drop]
      exact List.take_append_drop _ _
    · have : content.length ≤ offset := by omega
      simp [List.drop_of_length_le this]

theorem partRangesFrom_numbers_nodup (fuel number offset : Nat) :
    ((partRangesFrom partSize fileSize fuel number offset).map PartRange.number).Nodup := by
  rw [partRangesFrom_numbers]
  exact List.nodup_range'

theorem partRangesFrom_number_inj {fuel number offset : Nat} {r r' : PartRange}
    (hr : r ∈ partRangesFrom partSize fileSize fuel number offset)
    (hr' : r' ∈ partRangesFrom partSize fileSize fuel number offset) (h : r.number = r'.number) :
    r = r' := List.inj_on_of_nodup_map (partRangesFrom_numbers_nodup fuel number offset) hr hr' h

theorem slice_length {α : Type} {content : List α} (hc : content.length = fileSize)
    {fuel number offset : Nat} {r : PartRange}
    (hr : r ∈ partRangesFrom partSize fileSize fuel number offset) :
    (r.slice content).length = r.size := by
  obtain ⟨-, -, hl, hs⟩ := mem_partRangesFrom hr
  simp only [PartRange.slice, List.length_take, List.length_drop]
  omega

end Loop

section Ranges

variable {fileSize : Nat}

theorem partRanges_numbers (fileSize : Nat) :
    (partRanges fileSize).map PartRange.number = List.range' 1 (partRanges fileSize).length :=
  partRangesFrom_numbers _ _ _

theorem partRanges_numbers_nodup (fileSize : Nat) :
    ((partRanges fileSize).map PartRange.number).Nodup := partRangesFrom_numbers_nodup _ _ _

theorem partRanges_nodup (fileSize : Nat) : (partRanges fileSize).Nodup :=
  List.Nodup.of_map _ (partRanges_numbers_nodup fileSize)

theorem partRanges_number_inj {r r' : PartRange} (hr : r ∈ partRanges fileSize)
    (hr' : r' ∈ partRanges fileSize) (h : r.number = r'.number) : r = r' :=
  partRangesFrom_number_inj hr hr' h

theorem partRanges_slices {α : Type} {content : List α} (hc : content.length = fileSize) :
    (partRanges fileSize).flatMap (·.slice content) = content := by
  rw [partRanges, partRangesFrom_slices (multipartPartSize_pos fileSize) hc (by omega)]
  exact List.drop_zero

theorem partRange_slice_length {α : Type} {content : List α} (hc : content.length = fileSize)
    {r : PartRange} (hr : r ∈ partRanges fileSize) : (r.slice content).length = r.size :=
  slice_length hc hr

end Ranges

end VeStorage.Tos.Transfer
