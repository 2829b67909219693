import Mathlib.Data.List.Pairwise
import Mathlib.Data.List.Perm.Basic
import Mathlib.Data.List.Nodup
import Mathlib.Order.Lattice

namespace VeStorage.Lib

section Ordered

variable {α γ : Type} [LinearOrder γ] (rank : α → γ)

-- A tree map or set, listed in the order of its keys.
def Ordered (l : List α) : Prop := l.Pairwise fun a b => rank a < rank b

def insertBy (a : α) : List α → List α
  | [] => [a]
  | b :: l =>
      if rank a < rank b then a :: b :: l
      else if rank a = rank b then a :: l
      else b :: insertBy a l

def findBy (key : γ) (l : List α) : Option α := l.find? fun a => rank a = key

-- Insertion of what may be there already, but not with another value.
def recordBy [DecidableEq α] (a : α) (l : List α) : Option (List α) :=
  if (findBy rank (rank a) l).any (· ≠ a) = true then none else some (insertBy rank a l)

variable {rank} {a b x : α} {l l' : List α} {key : γ}

@[simp] theorem ordered_nil : Ordered rank ([] : List α) := List.Pairwise.nil

theorem mem_insertBy (h : Ordered rank l) :
    x ∈ insertBy rank a l ↔ x = a ∨ (x ∈ l ∧ rank x ≠ rank a) := by
  induction l with
  | nil => simp [insertBy]
  | cons b l ih =>
    obtain ⟨hb, hl⟩ := List.pairwise_cons.mp h
    rw [insertBy]
    split
    next hlt =>
      have hne : ∀ y ∈ b :: l, rank y ≠ rank a := by
        intro y hy
        rcases List.mem_cons.mp hy with rfl | hy
        · exact hlt.ne'
        · exact (hlt.trans (hb y hy)).ne'
      rw [List.mem_cons]
      exact or_congr_right ⟨fun hx => ⟨hx, hne x hx⟩, And.left⟩
    next =>
      split
      next heq =>
        have hne : ∀ y ∈ l, rank y ≠ rank a := fun y hy => heq ▸ (hb y hy).ne'
        simp only [List.mem_cons]
        constructor
        · rintro (rfl | hx)
          · exact .inl rfl
          · exact .inr ⟨.inr hx, hne x hx⟩
        · rintro (rfl | ⟨rfl | hx, hxa⟩)
          · exact .inl rfl
          · exact absurd heq.symm hxa
          · exact .inr hx
      next hneq =>
        rw [List.mem_cons, List.mem_cons, ih hl]
        constructor
        · rintro (rfl | rfl | ⟨hx, hxa⟩)
          · exact .inr ⟨.inl rfl, fun he => hneq he.symm⟩
          · exact .inl rfl
          · exact .inr ⟨.inr hx, hxa⟩
        · rintro (rfl | ⟨rfl | hx, hxa⟩)
          · exact .inr (.inl rfl)
          · exact .inl rfl
          · exact .inr (.inr ⟨hx, hxa⟩)

theorem mem_insertBy_same (h : Ordered rank l) (hsame : ∀ b ∈ l, rank b = rank a → b = a) :
    x ∈ insertBy rank a l ↔ x = a ∨ x ∈ l := by
  rw [mem_insertBy h]
  constructor
  · rintro (rfl | ⟨hx, -⟩)
    · exact .inl rfl
    · exact .inr hx
  · rintro (rfl | hx)
    · exact .inl rfl
    · by_cases he : rank x = rank a
      · exact .inl (hsame x hx he)
      · exact .inr ⟨hx, he⟩

theorem ordered_insertBy (h : Ordered rank l) : Ordered rank (insertBy rank a l) := by
  induction l with
  | nil => exact List.pairwise_singleton _ _
  | cons b l ih =>
    obtain ⟨hb, hl⟩ := List.pairwise_cons.mp h
    rw [insertBy]
    split
    next hlt =>
      refine List.pairwise_cons.mpr ⟨fun y hy => ?_, h⟩
      rcases List.mem_cons.mp hy with rfl | hy
      · exact hlt
      · exact hlt.trans (hb y hy)
    next hle =>
      split
      next heq => exact List.pairwise_cons.mpr ⟨fun y hy => heq ▸ hb y hy, hl⟩
      next hne =>
        refine List.pairwise_cons.mpr ⟨fun y hy => ?_, ih hl⟩
        rcases (mem_insertBy hl).mp hy with rfl | ⟨hy, -⟩
        · exact lt_of_le_of_ne (not_lt.mp hle) (Ne.symm hne)
        · exact hb y hy

theorem Ordered.eq_of_rank (h : Ordered rank l) (ha : a ∈ l) (hb : b ∈ l)
    (he : rank a = rank b) : a = b := by
  by_contra hne
  have hpair : l.Pairwise fun a b => rank a ≠ rank b := h.imp fun hab => hab.ne
  have : Std.Symm fun a b : α => rank a ≠ rank b := ⟨fun _ _ => Ne.symm⟩
  exact hpair.forall ha hb hne he

theorem Ordered.nodup (h : Ordered rank l) : l.Nodup := by
  refine List.Pairwise.imp ?_ h
  rintro a b hab rfl
  exact lt_irrefl _ hab

theorem Ordered.ext (h : Ordered rank l) (h' : Ordered rank l') (hmem : ∀ x, x ∈ l ↔ x ∈ l') :
    l = l' := by
  have hperm : l.Perm l' := (List.perm_ext_iff_of_nodup h.nodup h'.nodup).mpr hmem
  exact hperm.eq_of_pairwise (fun _ _ _ _ hab hba => absurd hba hab.not_gt) h h'

theorem of_findBy (h : findBy rank key l = some x) : x ∈ l ∧ rank x = key := by
  rw [findBy] at h
  have hrank := List.find?_some h
  exact ⟨List.mem_of_find?_eq_some h, of_decide_eq_true hrank⟩

theorem Ordered.findBy_eq_some (h : Ordered rank l) :
    findBy rank key l = some x ↔ x ∈ l ∧ rank x = key := by
  refine ⟨of_findBy, ?_⟩
  rintro ⟨hx, rfl⟩
  cases hf : findBy rank (rank x) l with
  | none => exact absurd (decide_eq_true rfl) (List.find?_eq_none.mp hf x hx)
  | some y =>
    obtain ⟨hy, hrank⟩ := of_findBy hf
    rw [h.eq_of_rank hy hx hrank]

variable [DecidableEq α]

theorem Ordered.recordBy_eq_some (h : Ordered rank l) :
    recordBy rank a l = some l' ↔ (∀ b ∈ l, rank b = rank a → b = a) ∧ insertBy rank a l = l' := by
  have hany : (findBy rank (rank a) l).any (· ≠ a) = true ↔ ∃ b ∈ l, rank b = rank a ∧ b ≠ a := by
    simp only [Option.any_eq_true, h.findBy_eq_some, decide_eq_true_eq, and_assoc]
  rw [recordBy]
  split
  next hc =>
    obtain ⟨b, hb, hrank, hne⟩ := hany.mp hc
    exact ⟨nofun, fun hall => absurd (hall.1 b hb hrank) hne⟩
  next hc =>
    rw [hany] at hc
    push Not at hc
    rw [Option.some.injEq]
    exact ⟨fun he => ⟨hc, he⟩, And.right⟩

theorem Ordered.mem_recordBy (h : Ordered rank l) (hr : recordBy rank a l = some l') :
    x ∈ l' ↔ x = a ∨ x ∈ l := by
  obtain ⟨hsame, rfl⟩ := h.recordBy_eq_some.mp hr
  exact mem_insertBy_same h hsame

theorem ordered_recordBy (h : Ordered rank l) (hr : recordBy rank a l = some l') : Ordered rank l' := by
  obtain ⟨-, rfl⟩ := h.recordBy_eq_some.mp hr
  exact ordered_insertBy h

end Ordered

end VeStorage.Lib
