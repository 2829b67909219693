import VeStorage.Lib.TokenBucket

namespace VeStorage.Lib.Pacing

variable {α : Type} {rate per : Nat} {time weight : α → Nat} {l : List α} {a b : α}

-- Each slot comes at least its own weight after the slots before it, at `rate` a period `per`.
def Paced (rate per : Nat) (time weight : α → Nat) (l : List α) : Prop :=
  l.Pairwise fun a b => rate * time a + per * weight b ≤ rate * time b

theorem paced_nil : Paced rate per time weight [] := List.Pairwise.nil

theorem Paced.concat (h : Paced rate per time weight l) {free : Nat} (hpast : ∀ a ∈ l, time a ≤ free)
    (hnext : rate * free + per * weight b ≤ rate * time b) : Paced rate per time weight (l ++ [b]) := by
  refine List.pairwise_append.mpr ⟨h, List.pairwise_singleton _ _, fun a ha c hc => ?_⟩
  obtain rfl := List.mem_singleton.mp hc
  have hle := Nat.mul_le_mul_left rate (hpast a ha)
  omega

theorem Paced.filter (h : Paced rate per time weight l) (p : α → Bool) :
    Paced rate per time weight (l.filter p) := List.Pairwise.filter p h

theorem Paced.ordered (h : Paced rate per time weight l) (hrate : 0 < rate) :
    l.Pairwise fun a b => time a ≤ time b :=
  h.imp fun hab => Nat.le_of_mul_le_mul_left (Nat.le_trans (Nat.le_add_right _ _) hab) hrate

-- The induction is on the slots between the two, each of them the next start.
theorem Paced.span {between after : List α}
    (h : Paced rate per time weight (a :: (between ++ b :: after))) :
    rate * time a + per * ((between.map weight).sum + weight b) ≤ rate * time b := by
  induction between generalizing a with
  | nil =>
    have hab := (List.pairwise_cons.mp h).1 b (by simp)
    simpa using hab
  | cons c between ih =>
    obtain ⟨hhead, htail⟩ := List.pairwise_cons.mp h
    have hac := hhead c (by simp)
    have hcb := ih htail
    rw [List.map_cons, List.sum_cons, Nat.add_assoc, Nat.mul_add]
    omega

theorem Paced.between {before between after : List α}
    (h : Paced rate per time weight (before ++ a :: (between ++ b :: after))) :
    rate * time a + per * ((between.map weight).sum + weight b) ≤ rate * time b :=
  Paced.span (List.pairwise_append.mp h).2.1

theorem Paced.sum_le (h : Paced rate per time weight (a :: l)) {start stop : Nat} (hstart : start ≤ time a)
    (hstop : ∀ c ∈ a :: l, time c ≤ stop) :
    per * ((a :: l).map weight).sum ≤ rate * (stop - start) + per * weight a := by
  rcases List.eq_nil_or_concat l with rfl | ⟨between, b, rfl⟩
  · simp
  · rw [List.concat_eq_append] at h hstop ⊢
    have hspan := h.span
    have hb := hstop b (by simp)
    have hwindow : rate * time b ≤ rate * (stop - start) + rate * time a := by
      rw [← Nat.mul_add]
      exact Nat.mul_le_mul_left _ (by omega)
    simp only [List.map_cons, List.sum_cons, List.map_append, List.sum_append, List.map_nil,
      List.sum_nil, Nat.add_zero]
    rw [Nat.mul_add]
    omega

-- A window holds what the rate allows in its length, and the slot that opens it.
theorem Paced.window (h : Paced rate per time weight l) (start stop : Nat) :
    windowSum start stop time weight l = 0 ∨ ∃ a ∈ l, start ≤ time a ∧ time a ≤ stop ∧
      per * windowSum start stop time weight l ≤ rate * (stop - start) + per * weight a := by
  have hpaced := h.filter fun a => start ≤ time a ∧ time a ≤ stop
  have hmem : ∀ a ∈ l.filter (fun a => start ≤ time a ∧ time a ≤ stop),
      a ∈ l ∧ start ≤ time a ∧ time a ≤ stop := by
    intro a ha
    simpa using ha
  rw [windowSum]
  cases hinside : l.filter fun a => start ≤ time a ∧ time a ≤ stop with
  | nil => exact .inl rfl
  | cons a inside =>
    rw [hinside] at hpaced hmem
    obtain ⟨hal, hstart, hstop⟩ := hmem a List.mem_cons_self
    exact .inr ⟨a, hal, hstart, hstop, hpaced.sum_le hstart fun c hc => (hmem c hc).2.2⟩

end VeStorage.Lib.Pacing
