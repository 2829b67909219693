import Mathlib.Data.List.Basic
import Mathlib.Data.List.Perm.Basic
import Mathlib.Algebra.BigOperators.Group.List.Basic
import Mathlib.Algebra.GroupWithZero.Nat
import Mathlib.Tactic.Ring
import Mathlib.Tactic.Linarith

namespace VeStorage.Lib

section Window

variable {α : Type} (start stop : Nat) (time value : α → Nat)

-- What happened from `start` to `stop`, summed up.
def windowSum (l : List α) : Nat :=
  ((l.filter fun a => start ≤ time a ∧ time a ≤ stop).map value).sum

variable {start stop time value} {l l' : List α} {a : α} {f g : α → Nat}

@[simp] theorem windowSum_nil : windowSum start stop time value [] = 0 := rfl

theorem windowSum_append :
    windowSum start stop time value (l ++ l') =
      windowSum start stop time value l + windowSum start stop time value l' := by
  simp [windowSum]

theorem windowSum_singleton : windowSum start stop time value [a] =
    if start ≤ time a ∧ time a ≤ stop then value a else 0 := by
  by_cases h : start ≤ time a ∧ time a ≤ stop <;> simp [windowSum, h]

theorem windowSum_inside (h : start ≤ time a) (h' : time a ≤ stop) :
    windowSum start stop time value (l ++ [a]) = windowSum start stop time value l + value a := by
  rw [windowSum_append, windowSum_singleton, if_pos ⟨h, h'⟩]

theorem windowSum_outside (h : ¬ (start ≤ time a ∧ time a ≤ stop)) :
    windowSum start stop time value (l ++ [a]) = windowSum start stop time value l := by
  rw [windowSum_append, windowSum_singleton, if_neg h, Nat.add_zero]

theorem windowSum_before (h : ∀ a ∈ l, time a < start) : windowSum start stop time value l = 0 := by
  have hnone : l.filter (fun a => start ≤ time a ∧ time a ≤ stop) = [] := by
    refine List.filter_eq_nil_iff.mpr fun a ha => ?_
    have := h a ha
    simp
    omega
  rw [windowSum, hnone]
  rfl

theorem windowSum_add : windowSum start stop time (fun a => f a + g a) l =
    windowSum start stop time f l + windowSum start stop time g l := by
  induction l with
  | nil => rfl
  | cons a l ih =>
    rw [← List.singleton_append, windowSum_append, windowSum_append, windowSum_append, ih,
      windowSum_singleton, windowSum_singleton, windowSum_singleton]
    split <;> omega

theorem windowSum_congr (h : ∀ a ∈ l, f a = g a) :
    windowSum start stop time f l = windowSum start stop time g l := by
  rw [windowSum, windowSum, List.map_congr_left fun a ha => h a ((List.mem_filter.mp ha).1)]

theorem windowSum_zero (h : ∀ a ∈ l, f a = 0) : windowSum start stop time f l = 0 := by
  induction l with
  | nil => rfl
  | cons a l ih =>
    rw [List.forall_mem_cons] at h
    rw [← List.singleton_append, windowSum_append, windowSum_singleton, ih h.2, h.1]
    simp

theorem windowSum_perm (h : l.Perm l') :
    windowSum start stop time value l = windowSum start stop time value l' :=
  ((h.filter _).map value).sum_eq

theorem windowSum_map {β : Type} (g : β → α) (l : List β) : windowSum start stop time value (l.map g) =
    windowSum start stop (fun b => time (g b)) (fun b => value (g b)) l := by
  simp [windowSum, List.filter_map, Function.comp_def]

theorem windowSum_le {start' stop' : Nat} {time' : α → Nat}
    (h : ∀ a ∈ l, start ≤ time a → time a ≤ stop → start' ≤ time' a ∧ time' a ≤ stop') :
    windowSum start stop time value l ≤ windowSum start' stop' time' value l := by
  induction l with
  | nil => exact Nat.le_refl 0
  | cons a l ih =>
    rw [List.forall_mem_cons] at h
    have htail := ih h.2
    rw [← List.singleton_append, windowSum_append, windowSum_append, windowSum_singleton,
      windowSum_singleton]
    split
    next hin =>
      rw [if_pos (h.1 hin.1 hin.2)]
      exact Nat.add_le_add_left htail _
    next => omega

end Window

namespace TokenBucket

structure Take where
  time : Nat
  cost : Nat

-- A bucket gains `rate` tokens in `per` ticks, and up to `extra` more with every take.
structure Rule where
  capacity : Nat
  rate : Nat
  per : Nat
  extra : Nat

variable {rule : Rule} {takes : List Take} {tokens time start stop : Nat}

-- The takes of a bucket, the tokens left in it and the time of the last take.
inductive Takes (rule : Rule) : List Take → Nat → Nat → Prop
  | start (tokens time : Nat) (h : tokens ≤ rule.capacity) : Takes rule [] tokens time
  | take (takes : List Take) (tokens time now gain cost : Nat) (h : Takes rule takes tokens time)
      (hnow : time ≤ now)
      (hgain : rule.per * gain ≤ rule.rate * (now - time) + rule.per * rule.extra)
      (hcost : cost ≤ min (tokens + gain) rule.capacity) :
      Takes rule (takes ++ [⟨now, cost⟩]) (min (tokens + gain) rule.capacity - cost) now

abbrev costIn (start stop : Nat) (takes : List Take) : Nat :=
  windowSum start stop Take.time Take.cost takes

abbrev countIn (start stop : Nat) (takes : List Take) : Nat :=
  windowSum start stop Take.time (fun _ => 1) takes

structure Inv (rule : Rule) (start stop : Nat) (takes : List Take) (tokens time : Nat) : Prop where
  filled : tokens ≤ rule.capacity
  past : ∀ take ∈ takes, take.time ≤ time
  held : start ≤ time → time ≤ stop → rule.per * (costIn start stop takes + tokens) ≤
    rule.per * (rule.capacity + rule.extra * countIn start stop takes) + rule.rate * (time - start)
  spent : rule.per * costIn start stop takes ≤
    rule.per * (rule.capacity + rule.extra * countIn start stop takes) + rule.rate * (stop - start)

theorem Inv.fresh (h : tokens ≤ rule.capacity) (start stop time : Nat) :
    Inv rule start stop [] tokens time where
  filled := h
  past := by simp
  held _ _ := by
    have := Nat.mul_le_mul_left rule.per h
    simp only [windowSum_nil, Nat.zero_add, Nat.mul_zero, Nat.add_zero]
    omega
  spent := by simp

theorem Inv.take (hi : Inv rule start stop takes tokens time) {now gain cost : Nat} (hnow : time ≤ now)
    (hgain : rule.per * gain ≤ rule.rate * (now - time) + rule.per * rule.extra)
    (hcost : cost ≤ min (tokens + gain) rule.capacity) :
    Inv rule start stop (takes ++ [⟨now, cost⟩]) (min (tokens + gain) rule.capacity - cost) now := by
  have hpast : ∀ take ∈ takes ++ [⟨now, cost⟩], take.time ≤ now := by
    intro take ht
    rcases List.mem_append.mp ht with ht | ht
    · exact (hi.past take ht).trans hnow
    · rw [List.mem_singleton.mp ht]
  have hfilled : min (tokens + gain) rule.capacity - cost ≤ rule.capacity :=
    (Nat.sub_le _ _).trans (min_le_right _ _)
  by_cases hin : start ≤ now ∧ now ≤ stop
  · obtain ⟨hstart, hstop⟩ := hin
    have hheld : rule.per * (costIn start stop takes + cost +
        (min (tokens + gain) rule.capacity - cost)) ≤
        rule.per * (rule.capacity + rule.extra * (countIn start stop takes + 1)) +
          rule.rate * (now - start) := by
      have hsum : costIn start stop takes + cost + (min (tokens + gain) rule.capacity - cost) =
          costIn start stop takes + min (tokens + gain) rule.capacity := by omega
      rw [hsum]
      by_cases htime : start ≤ time
      · -- the bucket gained no more than the time since the last take allows
        have hold := hi.held htime (hnow.trans hstop)
        have hle : rule.per * (costIn start stop takes + min (tokens + gain) rule.capacity) ≤
            rule.per * (costIn start stop takes + tokens) + rule.per * gain := by
          rw [← Nat.mul_add]
          exact Nat.mul_le_mul_left _ (by omega)
        have hspan : rule.rate * (time - start) + rule.rate * (now - time) =
            rule.rate * (now - start) := by
          rw [← Nat.mul_add]
          congr 1
          omega
        have hcount : rule.per * (rule.capacity + rule.extra * (countIn start stop takes + 1)) =
            rule.per * (rule.capacity + rule.extra * countIn start stop takes) +
              rule.per * rule.extra := by ring
        omega
      · -- the first take of the window finds at most a full bucket
        have hbefore : costIn start stop takes = 0 :=
          windowSum_before fun take ht => (hi.past take ht).trans_lt (not_le.mp htime)
        rw [hbefore, Nat.zero_add]
        have hfull := Nat.mul_le_mul_left rule.per (min_le_right (tokens + gain) rule.capacity)
        have hmore : rule.per * rule.capacity ≤
            rule.per * (rule.capacity + rule.extra * (countIn start stop takes + 1)) :=
          Nat.mul_le_mul_left _ (Nat.le_add_right _ _)
        omega
    have hspan : rule.rate * (now - start) ≤ rule.rate * (stop - start) :=
      Nat.mul_le_mul_left _ (by omega)
    refine ⟨hfilled, hpast, fun _ _ => ?_, ?_⟩
    · rw [costIn, countIn, windowSum_inside hstart hstop, windowSum_inside hstart hstop]
      exact hheld
    · rw [costIn, countIn, windowSum_inside hstart hstop, windowSum_inside hstart hstop]
      have hless : rule.per * (costIn start stop takes + cost) ≤ rule.per * (costIn start stop takes +
          cost + (min (tokens + gain) rule.capacity - cost)) :=
        Nat.mul_le_mul_left _ (Nat.le_add_right _ _)
      exact hless.trans (hheld.trans (Nat.add_le_add_left hspan _))
  · refine ⟨hfilled, hpast, fun hstart hstop => absurd ⟨hstart, hstop⟩ hin, ?_⟩
    rw [costIn, countIn, windowSum_outside hin, windowSum_outside hin]
    exact hi.spent

theorem Takes.inv (h : Takes rule takes tokens time) (start stop : Nat) :
    Inv rule start stop takes tokens time := by
  induction h with
  | start tokens time h => exact Inv.fresh h start stop time
  | take takes tokens time now gain cost h hnow hgain hcost ih => exact ih.take hnow hgain hcost

-- In every window the takes cost at most a full bucket, the refill and the extra tokens.
theorem Takes.cost_le (h : Takes rule takes tokens time) (start stop : Nat) :
    rule.per * costIn start stop takes ≤
      rule.per * (rule.capacity + rule.extra * countIn start stop takes) + rule.rate * (stop - start) :=
  (h.inv start stop).spent

end TokenBucket

end VeStorage.Lib
