import Mathlib.Data.List.Basic
import Mathlib.Algebra.GroupWithZero.Nat
import Mathlib.Algebra.Group.Nat.Defs
import Mathlib.Algebra.Group.Int.Defs
import Mathlib.Order.Lattice

namespace VeStorage.Lib.Crc

variable {w : Nat} (poly : BitVec w)

-- A reflected register: the lowest bit leaves, and brings in the polynomial if it is set.
def shiftBit (crc : BitVec w) : BitVec w :=
  if crc.getLsbD 0 = true then crc >>> 1 ^^^ poly else crc >>> 1

def shifts : Nat → BitVec w → BitVec w
  | 0, crc => crc
  | n + 1, crc => shifts n (shiftBit poly crc)

def feedBit (crc : BitVec w) (bit : Bool) : BitVec w :=
  shiftBit poly (crc ^^^ (BitVec.ofBool bit).setWidth w)

def feed (crc : BitVec w) (bits : List Bool) : BitVec w := bits.foldl (feedBit poly) crc

-- The first bit is the lowest.
def word (w : Nat) (bits : List Bool) : BitVec w := (BitVec.ofBoolListLE bits).setWidth w

def byteBits (b : BitVec 8) : List Bool := (List.range 8).map b.getLsbD

section Linear

variable {poly} (a b : BitVec w)

theorem xor_xor_xor (p : BitVec w) : a ^^^ p ^^^ (b ^^^ p) = a ^^^ b := by
  rw [BitVec.xor_assoc, BitVec.xor_comm b p, ← BitVec.xor_assoc p p b, BitVec.xor_self, BitVec.zero_xor]

theorem shiftBit_xor : shiftBit poly (a ^^^ b) = shiftBit poly a ^^^ shiftBit poly b := by
  simp only [shiftBit, BitVec.getLsbD_xor, BitVec.ushiftRight_xor_distrib]
  cases a.getLsbD 0 <;> cases b.getLsbD 0
  · simp
  · simp only [Bool.false_xor, if_true, Bool.false_eq_true, if_false, BitVec.xor_assoc]
  · simp only [Bool.true_xor, Bool.not_false, if_true, Bool.false_eq_true, if_false]
    rw [BitVec.xor_assoc, BitVec.xor_comm (b >>> 1) poly, ← BitVec.xor_assoc]
  · simp only [Bool.true_xor, Bool.not_true, if_true, Bool.false_eq_true, if_false]
    exact (xor_xor_xor _ _ poly).symm

end Linear

section Injective

variable {poly} (hpoly : poly.getLsbD (w - 1) = true) {a b : BitVec w}

include hpoly

theorem width_pos : 0 < w := by
  rcases Nat.eq_zero_or_pos w with rfl | hw
  · rw [BitVec.getLsbD_of_ge poly _ (Nat.zero_le _)] at hpoly
    cases hpoly
  · exact hw

-- The bit that left can be read off the highest bit.
theorem top_shiftBit (crc : BitVec w) : (shiftBit poly crc).getLsbD (w - 1) = crc.getLsbD 0 := by
  have hw := width_pos hpoly
  have htop : (crc >>> 1).getLsbD (w - 1) = false := by
    rw [BitVec.getLsbD_ushiftRight]
    exact BitVec.getLsbD_of_ge _ _ (by omega)
  rw [shiftBit]
  split
  next h => rw [BitVec.getLsbD_xor, htop, hpoly, h]; rfl
  next h => rw [htop]; exact (Bool.eq_false_iff.mpr h).symm

theorem shiftBit_inj (h : shiftBit poly a = shiftBit poly b) : a = b := by
  have hlow : a.getLsbD 0 = b.getLsbD 0 := by
    rw [← top_shiftBit hpoly a, ← top_shiftBit hpoly b, h]
  have hrest : a >>> 1 = b >>> 1 := by
    unfold shiftBit at h
    rw [hlow] at h
    split at h
    · exact (BitVec.xor_left_inj poly).mp h
    · exact h
  refine BitVec.eq_of_getLsbD_eq fun i _ => ?_
  cases i with
  | zero => exact hlow
  | succ i =>
    have hbit := congrArg (fun x : BitVec w => x.getLsbD i) hrest
    simp only [BitVec.getLsbD_ushiftRight] at hbit
    rwa [Nat.add_comm 1 i] at hbit

theorem shifts_inj (n : Nat) (h : shifts poly n a = shifts poly n b) : a = b := by
  induction n generalizing a b with
  | zero => exact h
  | succ n ih => exact shiftBit_inj hpoly (ih h)

theorem feed_inj_start (bits : List Bool) (h : feed poly a bits = feed poly b bits) : a = b := by
  induction bits generalizing a b with
  | nil => exact h
  | cons bit bits ih => exact (BitVec.xor_left_inj _).mp (shiftBit_inj hpoly (ih h))

end Injective

section Words

variable {poly} {bits bits' : List Bool}

theorem getLsbD_word (bits : List Bool) (i : Nat) :
    (word w bits).getLsbD i = (decide (i < w) && bits.getD i false) := by
  rw [word, BitVec.getLsbD_setWidth, BitVec.getLsbD_ofBoolListLE]

theorem word_cons (bit : Bool) (bits : List Bool) :
    word w (bit :: bits) = (BitVec.ofBool bit).setWidth w ^^^ word w bits <<< 1 := by
  refine BitVec.eq_of_getLsbD_eq fun i hi => ?_
  rw [BitVec.getLsbD_xor, BitVec.getLsbD_shiftLeft, BitVec.getLsbD_setWidth, BitVec.getLsbD_ofBool,
    getLsbD_word, getLsbD_word]
  cases i with
  | zero => simp
  | succ i =>
    have hi' : i < w := by omega
    simp [hi, hi']

theorem word_inj (hlen : bits.length = bits'.length) (hw : bits.length ≤ w)
    (h : word w bits = word w bits') : bits = bits' := by
  refine List.ext_getElem hlen fun i hi hi' => ?_
  have hbit : (word w bits).getLsbD i = (word w bits').getLsbD i := by rw [h]
  have hwidth : i < w := by omega
  rw [getLsbD_word, getLsbD_word] at hbit
  simpa [hwidth, hi, hi'] using hbit

theorem shiftBit_shiftLeft (bits : List Bool) (hw : bits.length < w) :
    shiftBit poly (word w bits <<< 1) = word w bits := by
  have hlow : (word w bits <<< 1).getLsbD 0 = false := by
    rw [BitVec.getLsbD_shiftLeft]
    simp
  rw [shiftBit, if_neg (by rw [hlow]; exact Bool.false_ne_true)]
  refine BitVec.eq_of_getLsbD_eq fun i hi => ?_
  rw [BitVec.getLsbD_ushiftRight, BitVec.getLsbD_shiftLeft, Nat.add_comm 1 i, Nat.add_sub_cancel, getLsbD_word]
  by_cases htop : i + 1 < w
  · simp [htop]
  · have hout : bits.length ≤ i := by omega
    simp [htop, List.getElem?_eq_none hout]

-- A register takes in up to its width of bits as if they were one word.
theorem feed_eq_shifts (crc : BitVec w) (bits : List Bool) (hw : bits.length ≤ w) :
    feed poly crc bits = shifts poly bits.length (crc ^^^ word w bits) := by
  induction bits generalizing crc with
  | nil =>
    have hzero : word w [] = 0#w := BitVec.eq_of_getLsbD_eq fun i hi => by simp [getLsbD_word]
    rw [hzero, BitVec.xor_zero]
    rfl
  | cons bit bits ih =>
    rw [List.length_cons] at hw
    have hnext := ih (feedBit poly crc bit) (by omega)
    rw [List.length_cons, shifts, word_cons, ← BitVec.xor_assoc, shiftBit_xor, shiftBit_shiftLeft bits (by omega)]
    exact hnext

theorem word_byteBits (b : BitVec 8) : word w (byteBits b) = b.setWidth w := by
  refine BitVec.eq_of_getLsbD_eq fun i hi => ?_
  rw [getLsbD_word, BitVec.getLsbD_setWidth, byteBits]
  rcases Nat.lt_or_ge i 8 with h | h
  · simp [List.getElem?_range h]
  · simp [List.getElem?_eq_none (show (List.range 8).length ≤ i by simpa using h), BitVec.getLsbD_of_ge b i h]

theorem feed_byteBits (crc : BitVec w) (b : BitVec 8) (hw : 8 ≤ w) :
    feed poly crc (byteBits b) = shifts poly 8 (crc ^^^ b.setWidth w) := by
  have hlen : (byteBits b).length = 8 := by simp [byteBits]
  have hfeed := @feed_eq_shifts w poly crc (byteBits b) (hlen ▸ hw)
  rwa [hlen, word_byteBits] at hfeed

end Words

section Bursts

variable {poly} {crc : BitVec w} {before u v after : List Bool}

-- Texts that differ only inside a window of the register's width leave different registers.
theorem burst_detected (hpoly : poly.getLsbD (w - 1) = true) (hlen : u.length = v.length) (hw : u.length ≤ w)
    (h : feed poly crc (before ++ u ++ after) = feed poly crc (before ++ v ++ after)) : u = v := by
  simp only [feed, List.foldl_append] at h
  have hmiddle := feed_inj_start hpoly after h
  have hu := @feed_eq_shifts w poly (feed poly crc before) u hw
  have hv := @feed_eq_shifts w poly (feed poly crc before) v (hlen ▸ hw)
  have hshifted := hu.symm.trans (Eq.trans hmiddle hv)
  rw [hlen] at hshifted
  exact word_inj hlen hw ((BitVec.xor_right_inj _).mp (shifts_inj hpoly _ hshifted))

end Bursts

end VeStorage.Lib.Crc
