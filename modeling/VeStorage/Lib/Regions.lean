import Mathlib.Data.List.Basic
import Mathlib.Data.List.TakeDrop

namespace VeStorage.Lib.Regions

variable {α : Type}

def patch (l new : List α) (pos : Nat) : List α := l.take pos ++ new ++ l.drop (pos + new.length)

-- The list holds `part` from a position on.
def Region (l : List α) (pos : Nat) (part : List α) : Prop := part <+: l.drop pos

variable {l new part : List α} {pos i : Nat}

theorem length_patch (h : pos + new.length ≤ l.length) : (patch l new pos).length = l.length := by
  rw [patch, List.length_append, List.length_append, List.length_take, List.length_drop]
  omega

theorem region_nil (l : List α) (pos : Nat) : Region l pos [] := List.nil_prefix

theorem region_iff : Region l pos part ↔ ∀ i (hi : i < part.length), l[pos + i]? = some part[i] := by
  rw [Region, List.prefix_iff_getElem?]
  simp only [List.getElem?_drop]

theorem getElem?_patch_out (h : pos + new.length ≤ l.length) (hi : i < pos ∨ pos + new.length ≤ i) :
    (patch l new pos)[i]? = l[i]? := by
  have htake : (l.take pos).length = pos := List.length_take_of_le (by omega)
  rcases hi with hi | hi
  · rw [patch, List.append_assoc, List.getElem?_append_left (by omega), List.getElem?_take_of_lt hi]
  · have hlen : (l.take pos ++ new).length = pos + new.length := by rw [List.length_append, htake]
    rw [patch, List.getElem?_append_right (by omega), hlen, List.getElem?_drop]
    congr 1
    omega

-- A write at the end of what a region holds extends it.
theorem Region.extend (h : Region l pos part) (hpart : pos + part.length ≤ l.length) (new : List α) :
    Region (patch l new (pos + part.length)) pos (part ++ new) := by
  obtain ⟨rest, hrest⟩ := h
  have htake : (l.take (pos + part.length)).drop pos = part := by
    rw [List.drop_take, ← hrest, Nat.add_sub_cancel_left, List.take_left]
  have hlen : pos ≤ (l.take (pos + part.length)).length := by
    rw [List.length_take_of_le hpart]
    omega
  refine ⟨l.drop (pos + part.length + new.length), ?_⟩
  rw [List.append_assoc, patch, List.append_assoc, List.drop_append_of_le_length hlen, htake]

-- A write elsewhere leaves it alone.
theorem Region.other {pos' : Nat} (h : Region l pos part) (hnew : pos' + new.length ≤ l.length)
    (hapart : pos + part.length ≤ pos' ∨ pos' + new.length ≤ pos) : Region (patch l new pos') pos part := by
  rw [region_iff] at h ⊢
  intro i hi
  rw [getElem?_patch_out hnew (by omega)]
  exact h i hi

theorem Region.take (h : Region l pos part) : (l.drop pos).take part.length = part :=
  (List.prefix_iff_eq_take.mp h).symm

end VeStorage.Lib.Regions
