import VeStorage.Lib.Sorted

namespace VeStorage.Lib.TopK

variable {α γ : Type} [LinearOrder γ] (rank : α → γ) (k : Nat)

def keepTop (a : α) (l : List α) : List α := (sortOn rank (l ++ [a])).take k

-- The first `k` of a multiset, in the order of their ranks.
structure Split (kept all : List α) (rest : List α) : Prop where
  perm : (kept ++ rest).Perm all
  sorted : kept.Pairwise fun a b => rank a ≤ rank b
  below : ∀ a ∈ kept, ∀ b ∈ rest, rank a ≤ rank b
  length_le : kept.length ≤ k
  full : rest ≠ [] → kept.length = k

def TopOf (kept all : List α) : Prop := ∃ rest, Split rank k kept all rest

variable {rank k} {kept kept' all all' more : List α} {a : α}

theorem topOf_nil : TopOf rank k ([] : List α) [] :=
  ⟨[], List.Perm.refl _, List.Pairwise.nil, fun _ ha => absurd ha List.not_mem_nil, Nat.zero_le k,
    fun h => absurd rfl h⟩

theorem topOf_take (l : List α) : TopOf rank k ((sortOn rank l).take k) l := by
  have hsorted := sortOn_pairwise rank l
  have hsplit := List.take_append_drop k (sortOn rank l)
  rw [← hsplit] at hsorted
  obtain ⟨htake, -, hbelow⟩ := List.pairwise_append.mp hsorted
  refine ⟨(sortOn rank l).drop k, ?_, htake, hbelow, List.length_take_le _ _, fun hrest => ?_⟩
  · rw [hsplit]
    exact sortOn_perm rank l
  · have hlt : k < (sortOn rank l).length := by
      by_contra hle
      exact hrest (List.drop_eq_nil_of_le (not_lt.mp hle))
    rw [List.length_take, min_eq_left hlt.le]

theorem topOf_keepTop (l : List α) : TopOf rank k (keepTop rank k a l) (l ++ [a]) := topOf_take _

theorem keepTop_nil : keepTop rank 1 a [] = [a] := by
  rw [keepTop, List.nil_append, sortOn, List.mergeSort_singleton]
  rfl

-- Of two entries of one rank the first one stays.
theorem keepTop_of_le {b : α} (h : rank a ≤ rank b) : keepTop rank 1 b [a] = [a] := by
  have hsorted : [a, b].Pairwise fun x y => decide (rank x ≤ rank y) = true := by simpa using h
  have heq : sortOn rank ([a] ++ [b]) = [a, b] := List.mergeSort_of_pairwise hsorted
  rw [keepTop, heq]
  rfl

theorem TopOf.of_perm (h : TopOf rank k kept all) (hperm : all.Perm all') : TopOf rank k kept all' := by
  obtain ⟨rest, h⟩ := h
  exact ⟨rest, h.perm.trans hperm, h.sorted, h.below, h.length_le, h.full⟩

theorem TopOf.subset (h : TopOf rank k kept all) : kept ⊆ all := by
  obtain ⟨rest, h⟩ := h
  intro a ha
  exact h.perm.subset (List.mem_append_left _ ha)

-- What the first selection leaves out is not among the first of more.
theorem TopOf.append (h : TopOf rank k kept all) (h' : TopOf rank k kept' (kept ++ more)) :
    TopOf rank k kept' (all ++ more) := by
  obtain ⟨rest, h⟩ := h
  obtain ⟨rest', h'⟩ := h'
  refine ⟨rest' ++ rest, ?_, h'.sorted, fun a ha b hb => ?_, h'.length_le, fun hne => ?_⟩
  · rw [← List.append_assoc]
    refine (h'.perm.append_right rest).trans ?_
    rw [List.append_assoc]
    refine (List.perm_append_comm.append_left kept).trans ?_
    rw [← List.append_assoc]
    exact h.perm.append_right more
  · rcases List.mem_append.mp hb with hb | hb
    · exact h'.below a ha b hb
    · by_contra hlt
      have hrest : rest ≠ [] := List.ne_nil_of_mem hb
      have hkept : (kept ++ more).countP (fun c => rank c < rank a) ≥ k := by
        have hall : kept.countP (fun c => rank c < rank a) = kept.length :=
          List.countP_eq_length.mpr fun c hc =>
            decide_eq_true ((h.below c hc b hb).trans_lt (not_le.mp hlt))
        rw [List.countP_append, hall, h.full hrest]
        exact Nat.le_add_right _ _
      have hnone : rest'.countP (fun c => rank c < rank a) = 0 :=
        List.countP_eq_zero.mpr fun c hc => by simpa using h'.below a ha c hc
      have hless : kept'.countP (fun c => rank c < rank a) < kept'.length := by
        refine lt_of_le_of_ne List.countP_le_length fun heq => ?_
        simpa using List.countP_eq_length.mp heq a ha
      rw [← h'.perm.countP_eq, List.countP_append, hnone] at hkept
      have hle := h'.length_le
      omega
  · by_cases hrest' : rest' = []
    · have hrest : rest ≠ [] := by simpa [hrest'] using hne
      have hlength := h'.perm.length_eq
      rw [hrest', List.append_nil, List.length_append, h.full hrest] at hlength
      have hle := h'.length_le
      omega
    · exact h'.full hrest'

theorem TopOf.replace (h : TopOf rank k kept all) (h' : TopOf rank k kept' (more ++ kept)) :
    TopOf rank k kept' (more ++ all) :=
  (h.append (h'.of_perm List.perm_append_comm)).of_perm List.perm_append_comm

theorem TopOf.map_rank (h : TopOf rank k kept all) : kept.map rank = (sortOn id (all.map rank)).take k := by
  obtain ⟨rest, h⟩ := h
  have hsorted : (kept.map rank ++ sortOn id (rest.map rank)).Pairwise (· ≤ ·) := by
    refine List.pairwise_append.mpr ⟨?_, sortOn_pairwise id _, fun x hx y hy => ?_⟩
    · exact List.pairwise_map.mpr h.sorted
    · obtain ⟨a, ha, rfl⟩ := List.mem_map.mp hx
      obtain ⟨b, hb, rfl⟩ := List.mem_map.mp (mem_sortOn.mp hy)
      exact h.below a ha b hb
  have hperm : (kept.map rank ++ sortOn id (rest.map rank)).Perm (sortOn id (all.map rank)) := by
    refine ((sortOn_perm id _).append_left _).trans ?_
    rw [← List.map_append]
    exact (h.perm.map rank).trans (sortOn_perm id _).symm
  have heq := hperm.eq_of_pairwise (fun _ _ _ _ => le_antisymm) hsorted (sortOn_pairwise id _)
  rw [← heq]
  by_cases hrest : rest = []
  · rw [hrest, List.map_nil]
    have hnil : sortOn id ([] : List γ) = [] := List.mergeSort_nil
    rw [hnil, List.append_nil, List.take_of_length_le]
    rw [List.length_map]
    exact h.length_le
  · rw [List.take_left']
    rw [List.length_map]
    exact h.full hrest

theorem TopOf.rank_eq (h : TopOf rank k kept all) (h' : TopOf rank k kept' all') (hperm : all.Perm all') :
    kept.map rank = kept'.map rank := by
  rw [(h.of_perm hperm).map_rank, h'.map_rank]

theorem eq_of_map_eq {β : Type} {f : α → β} (hinj : ∀ a ∈ all, ∀ b ∈ all, f a = f b → a = b)
    {l l' : List α} (hl : l ⊆ all) (hl' : l' ⊆ all) (h : l.map f = l'.map f) : l = l' := by
  induction l generalizing l' with
  | nil => exact (List.map_eq_nil_iff.mp h.symm).symm
  | cons a l ih =>
    cases l' with
    | nil => cases h
    | cons b l' =>
      rw [List.map_cons, List.map_cons, List.cons.injEq] at h
      obtain ⟨ha, hl⟩ := List.cons_subset.mp hl
      obtain ⟨hb, hl'⟩ := List.cons_subset.mp hl'
      rw [hinj a ha b hb h.1, ih hl hl' h.2]

theorem TopOf.eq (h : TopOf rank k kept all) (h' : TopOf rank k kept' all') (hperm : all.Perm all')
    (hinj : ∀ a ∈ all, ∀ b ∈ all, rank a = rank b → a = b) : kept = kept' := by
  refine eq_of_map_eq hinj h.subset ?_ (h.rank_eq h' hperm)
  exact fun a ha => hperm.symm.subset (h'.subset ha)

end VeStorage.Lib.TopK
