import Mathlib.Data.List.Basic
import Mathlib.Data.List.TakeDrop
import Mathlib.Algebra.Group.Nat.Defs

namespace VeStorage.Lib.RecordLog

-- `to_le_bytes` of a number of `k` bytes, and `from_le_bytes`.
def leBytes : Nat → Nat → List UInt8
  | 0, _ => []
  | k + 1, n => UInt8.ofNat n :: leBytes k (n / 256)

def ofLeBytes : List UInt8 → Nat
  | [] => 0
  | b :: bs => b.toNat + 256 * ofLeBytes bs

@[simp] theorem leBytes_length (k n : Nat) : (leBytes k n).length = k := by
  induction k generalizing n with
  | zero => rfl
  | succ k ih => simp [leBytes, ih]

theorem ofLeBytes_leBytes {k n : Nat} (h : n < 256 ^ k) : ofLeBytes (leBytes k n) = n := by
  induction k generalizing n with
  | zero =>
    rw [Nat.pow_zero] at h
    exact (Nat.lt_one_iff.mp h).symm
  | succ k ih =>
    rw [Nat.pow_succ] at h
    have hrest := ih (n := n / 256) (Nat.div_lt_of_lt_mul (by omega))
    have hbyte : (UInt8.ofNat n).toNat = n % 256 := by simp
    rw [leBytes, ofLeBytes, hrest, hbyte]
    omega

section Records

variable {α β : Type} {width : Nat} {encode : β → List α}

-- The next record of a log; an incomplete one is no record.
def nextRecord (width : Nat) (log : List α) : Option (List α × List α) :=
  if width ≤ log.length then some (log.take width, log.drop width) else none

theorem nextRecord_append {record rest : List α} (h : record.length = width) :
    nextRecord width (record ++ rest) = some (record, rest) := by
  subst h
  simp [nextRecord]

theorem nextRecord_tail {tail : List α} (h : tail.length < width) :
    nextRecord width tail = none := if_neg (by omega)

theorem flatMap_length (hw : ∀ b, (encode b).length = width) (records : List β) :
    (records.flatMap encode).length = records.length * width := by
  induction records with
  | nil => simp
  | cons b records ih =>
    rw [List.flatMap_cons, List.length_append, ih, hw, List.length_cons, Nat.succ_mul]
    omega

variable (encode) in
-- A torn append leaves the log with a tail, or with the whole record.
theorem torn_append (hw : ∀ b, (encode b).length = width) (hpos : 0 < width)
    (records : List β) (b : β) (k : Nat) :
    ∃ records' tail, records.flatMap encode ++ (encode b).take k =
        records'.flatMap encode ++ tail ∧ tail.length < width ∧
      (records' = records ∨ records' = records ++ [b]) := by
  rcases Nat.lt_or_ge k width with hk | hk
  · refine ⟨records, (encode b).take k, rfl, ?_, .inl rfl⟩
    rw [List.length_take, hw]
    omega
  · refine ⟨records ++ [b], [], ?_, hpos, .inr rfl⟩
    rw [List.take_of_length_le (by rw [hw]; exact hk)]
    simp

end Records

end VeStorage.Lib.RecordLog
