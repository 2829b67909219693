import Mathlib.Data.List.SplitBy
import Mathlib.Data.List.Sort
import Mathlib.Order.Basic

namespace VeStorage.Lib

section Dedup

variable {α β γ : Type} [DecidableEq β] (key : α → β)

def dedupFrom : α → List α → List α
  | last, [] => [last]
  | last, b :: l => if key b = key last then dedupFrom last l else last :: dedupFrom b l

def dedupBy : List α → List α
  | [] => []
  | a :: l => dedupFrom key a l

theorem dedupFrom_sublist (last : α) (l : List α) : (dedupFrom key last l).Sublist (last :: l) := by
  induction l generalizing last with
  | nil => simp [dedupFrom]
  | cons b l ih =>
    unfold dedupFrom
    split
    · exact (ih last).trans ((List.sublist_cons_self b l).cons_cons last)
    · exact (ih b).cons_cons last

theorem dedupBy_sublist (l : List α) : (dedupBy key l).Sublist l := by
  cases l with
  | nil => exact List.Sublist.refl _
  | cons a l => exact dedupFrom_sublist key a l

theorem dedupFrom_covers (last : α) (l : List α) {x : α} (hx : x ∈ last :: l) :
    ∃ y ∈ dedupFrom key last l, key y = key x := by
  induction l generalizing last x with
  | nil => exact ⟨last, by simp [dedupFrom], by simp [List.mem_singleton.mp hx]⟩
  | cons b l ih =>
    unfold dedupFrom
    split
    · rename_i hb
      rcases List.mem_cons.mp hx with rfl | hx
      · exact ih x (List.mem_cons_self ..)
      · rcases List.mem_cons.mp hx with rfl | hx
        · obtain ⟨y, hy, hk⟩ := ih last (List.mem_cons_self ..)
          exact ⟨y, hy, hk.trans hb.symm⟩
        · exact ih last (List.mem_cons_of_mem _ hx)
    · rcases List.mem_cons.mp hx with rfl | hx
      · exact ⟨x, by simp, rfl⟩
      · obtain ⟨y, hy, hk⟩ := ih b hx
        exact ⟨y, List.mem_cons_of_mem _ hy, hk⟩

theorem dedupBy_covers (l : List α) {x : α} (hx : x ∈ l) : ∃ y ∈ dedupBy key l, key y = key x := by
  cases l with
  | nil => simp at hx
  | cons a l => exact dedupFrom_covers key a l hx

theorem dedupFrom_of_nodup (last : α) (l : List α) (h : ((last :: l).map key).Nodup) :
    dedupFrom key last l = last :: l := by
  induction l generalizing last with
  | nil => rfl
  | cons b l ih =>
    obtain ⟨hlast, hrest⟩ := List.nodup_cons.mp h
    have hne : key b ≠ key last := fun he => hlast (he ▸ List.mem_cons_self)
    rw [dedupFrom, if_neg hne, ih b hrest]

theorem dedupBy_of_nodup (l : List α) (h : (l.map key).Nodup) : dedupBy key l = l := by
  cases l with
  | nil => rfl
  | cons a l => exact dedupFrom_of_nodup key a l h

variable [PartialOrder γ] {rank : α → γ}

theorem dedupFrom_nodup (hk : ∀ x y, key x = key y ↔ rank x = rank y) (last : α) (l : List α)
    (h : (last :: l).Pairwise fun a b => rank a ≤ rank b) :
    ((dedupFrom key last l).map key).Nodup := by
  induction l generalizing last with
  | nil => simp [dedupFrom]
  | cons b l ih =>
    obtain ⟨hlast, hbl⟩ := List.pairwise_cons.mp h
    obtain ⟨hb, hl⟩ := List.pairwise_cons.mp hbl
    unfold dedupFrom
    split
    · exact ih last (List.pairwise_cons.mpr ⟨fun x hx => hlast x (List.mem_cons_of_mem _ hx), hl⟩)
    · rename_i hne
      rw [List.map_cons, List.nodup_cons]
      refine ⟨fun hm => hne ?_, ih b hbl⟩
      obtain ⟨x, hx, hkx⟩ := List.mem_map.mp hm
      have hxl : rank b ≤ rank x := by
        rcases List.mem_cons.mp ((dedupFrom_sublist key b l).subset hx) with rfl | hx
        · exact le_refl _
        · exact hb x hx
      have hrank : rank x = rank last := (hk x last).mp hkx
      exact (hk b last).mpr (le_antisymm (hrank ▸ hxl) (hlast b (List.mem_cons_self ..)))

theorem dedupBy_nodup (hk : ∀ x y, key x = key y ↔ rank x = rank y) (l : List α)
    (h : l.Pairwise fun a b => rank a ≤ rank b) : ((dedupBy key l).map key).Nodup := by
  cases l with
  | nil => simp [dedupBy]
  | cons a l => exact dedupFrom_nodup key hk a l h

end Dedup

section Order

variable {α γ : Type} [LinearOrder γ]

def sortOn (rank : α → γ) (l : List α) : List α :=
  l.mergeSort fun a b => decide (rank a ≤ rank b)

theorem mem_sortOn {rank : α → γ} {l : List α} {x : α} : x ∈ sortOn rank l ↔ x ∈ l :=
  List.mem_mergeSort

theorem sortOn_pairwise (rank : α → γ) (l : List α) :
    (sortOn rank l).Pairwise fun a b => rank a ≤ rank b := by
  have htrans : ∀ a b c : α, decide (rank a ≤ rank b) = true → decide (rank b ≤ rank c) = true →
      decide (rank a ≤ rank c) = true := by
    simp only [decide_eq_true_eq]
    exact fun a b c => le_trans
  have htotal : ∀ a b : α, (decide (rank a ≤ rank b) || decide (rank b ≤ rank a)) = true := by
    simp only [Bool.or_eq_true, decide_eq_true_eq]
    exact fun a b => le_total _ _
  exact (List.pairwise_mergeSort htrans htotal l).imp (by simp)

theorem sortOn_perm (rank : α → γ) (l : List α) : (sortOn rank l).Perm l := List.mergeSort_perm l _

theorem sortOn_nodup {rank : α → γ} {l : List α} (h : l.Nodup) : (sortOn rank l).Nodup :=
  (List.mergeSort_perm l _).nodup_iff.mpr h

variable {δ : Type} [DecidableEq δ]

def levels (depth : α → δ) (l : List α) : List (List α) := l.splitBy fun a b => depth a == depth b

theorem levels_flatten (depth : α → δ) (l : List α) : (levels depth l).flatten = l :=
  List.flatten_splitBy _ l

theorem depth_eq_of_mem_level {depth : α → δ} {l g : List α} (hg : g ∈ levels depth l) {x y : α}
    (hx : x ∈ g) (hy : y ∈ g) : depth x = depth y := by
  have hchain := List.isChain_of_mem_splitBy hg
  have hpair : g.Pairwise fun a b => depth a = depth b := by
    refine List.isChain_iff_pairwise.mp (hchain.imp ?_)
    intro a b h
    simpa using h
  by_cases he : x = y
  · rw [he]
  · have : Std.Symm fun a b : α => depth a = depth b := ⟨fun _ _ h => h.symm⟩
    exact hpair.forall hx hy he

end Order

section Unique

variable {α γ : Type} [DecidableEq α] [LinearOrder γ]

theorem mem_dedupBy_sortOn {rank : α → γ} {l : List α} {x : α} :
    x ∈ dedupBy id (sortOn rank l) ↔ x ∈ l := by
  constructor
  · intro h
    exact mem_sortOn.mp ((dedupBy_sublist id _).subset h)
  · intro h
    have hs : x ∈ sortOn rank l := mem_sortOn.mpr h
    obtain ⟨y, hy, rfl⟩ := dedupBy_covers id _ hs
    exact hy

theorem dedupBy_sortOn_nodup {rank : α → γ} (hrank : Function.Injective rank) (l : List α) :
    (dedupBy id (sortOn rank l)).Nodup := by
  have h := dedupBy_nodup id (fun _ _ => hrank.eq_iff.symm) _ (sortOn_pairwise rank l)
  rwa [List.map_id] at h

end Unique

end VeStorage.Lib
