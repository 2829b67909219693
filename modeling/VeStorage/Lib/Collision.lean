import VeStorage.Lib.Text
import Mathlib.Data.List.Pairwise
import Mathlib.Data.List.Perm.Basic

namespace VeStorage.Lib

section Aliases

variable {K T : Type} (fold : T → K)

-- A name and whether others may share it.
abbrev Claimed (T : Type) := T × Bool

def Compatible (a b : Claimed T) : Prop :=
  fold a.1 = fold b.1 → a.1 = b.1 ∧ a.2 = true ∧ b.2 = true

variable {fold} in
theorem Compatible.symm {a b : Claimed T} (h : Compatible fold a b) : Compatible fold b a :=
  fun he =>
    have ⟨hab, ha, hb⟩ := h he.symm
    ⟨hab.symm, hb, ha⟩

instance : Std.Symm (Compatible fold) := ⟨fun _ _ => Compatible.symm⟩

variable [DecidableEq K] [DecidableEq T]

def claim (claims : List (K × Claimed T)) (item : Claimed T) : Option (List (K × Claimed T)) :=
  match claims.lookup (fold item.1) with
  | none => some ((fold item.1, item) :: claims)
  | some (previous, isShared) =>
      if previous = item.1 ∧ isShared = true ∧ item.2 = true then some claims else none

def claimAll (claims : List (K × Claimed T)) (items : List (Claimed T)) :
    Option (List (K × Claimed T)) :=
  items.foldlM (claim fold) claims

-- The claims stand for the items seen: one of them for each alias, compatible with all.
structure Covers (items : List (Claimed T)) (claims : List (K × Claimed T)) : Prop where
  sound : ∀ key item, claims.lookup key = some item → fold item.1 = key ∧ item ∈ items
  complete : ∀ item ∈ items, (claims.lookup (fold item.1)).isSome = true
  compatible : items.Pairwise (Compatible fold)

variable {fold} {items : List (Claimed T)} {claims claims' : List (K × Claimed T)}
  {item a b : Claimed T}

omit [DecidableEq T] in
theorem covers_nil : Covers fold [] ([] : List (K × Claimed T)) := ⟨nofun, nofun, .nil⟩

theorem Covers.claimed (h : Covers fold items claims) (hl : claims.lookup (fold item.1) = some a)
    (ha : Compatible fold a item) : ∀ b ∈ items, Compatible fold b item := by
  intro b hb hkey
  obtain ⟨hakey, hamem⟩ := h.sound _ _ hl
  obtain ⟨hname, hshared, hitem⟩ := ha hakey
  by_cases hab : b = a
  · subst hab
    exact ⟨hname, hshared, hitem⟩
  · have hpair := h.compatible.forall hb hamem hab
    obtain ⟨hba, hbs, -⟩ := hpair (hkey.trans hakey.symm)
    exact ⟨hba.trans hname, hbs, hitem⟩

theorem Covers.claim (h : Covers fold items claims) (hc : claim fold claims item = some claims') :
    Covers fold (items ++ [item]) claims' := by
  rw [Lib.claim] at hc
  cases hl : claims.lookup (fold item.1) with
  | none =>
    rw [hl] at hc
    obtain rfl := Option.some.inj hc
    refine ⟨fun key other ho => ?_, fun other ho => ?_, ?_⟩
    · rw [List.lookup_cons] at ho
      split at ho
      next hk =>
        obtain rfl := Option.some.inj ho
        exact ⟨(eq_of_beq hk).symm, by simp⟩
      next =>
        obtain ⟨hkey, hmem⟩ := h.sound key other ho
        exact ⟨hkey, List.mem_append_left _ hmem⟩
    · rw [List.lookup_cons]
      split
      · rfl
      next hk =>
        rcases List.mem_append.mp ho with ho | ho
        · exact h.complete other ho
        · rw [List.mem_singleton.mp ho] at hk
          simp at hk
    · refine List.pairwise_append.mpr ⟨h.compatible, List.pairwise_singleton _ _, fun b hb c hc => ?_⟩
      rw [List.mem_singleton.mp hc]
      intro hkey
      have hsome := h.complete b hb
      rw [hkey, hl] at hsome
      cases hsome
  | some claimed =>
    rw [hl] at hc
    obtain ⟨previous, isShared⟩ := claimed
    dsimp only at hc
    split at hc
    next hok =>
      obtain rfl := Option.some.inj hc
      have hcompatible := h.claimed hl fun _ => hok
      refine ⟨fun key other ho => ?_, fun other ho => ?_, ?_⟩
      · obtain ⟨hkey, hmem⟩ := h.sound key other ho
        exact ⟨hkey, List.mem_append_left _ hmem⟩
      · rcases List.mem_append.mp ho with ho | ho
        · exact h.complete other ho
        · rw [List.mem_singleton.mp ho, hl]
          rfl
      · refine List.pairwise_append.mpr ⟨h.compatible, List.pairwise_singleton _ _, fun b hb c hc => ?_⟩
        rw [List.mem_singleton.mp hc]
        exact hcompatible b hb
    next => cases hc

theorem Covers.claim_of_compatible (h : Covers fold items claims)
    (hc : ∀ b ∈ items, Compatible fold b item) : ∃ claims', Lib.claim fold claims item = some claims' := by
  rw [Lib.claim]
  cases hl : claims.lookup (fold item.1) with
  | none => exact ⟨_, rfl⟩
  | some claimed =>
    obtain ⟨hkey, hmem⟩ := h.sound _ _ hl
    obtain ⟨hname, hshared, hitem⟩ := hc claimed hmem hkey
    exact ⟨claims, if_pos ⟨hname, hshared, hitem⟩⟩

theorem Covers.claimAll (h : Covers fold items claims) {rest : List (Claimed T)}
    (hc : claimAll fold claims rest = some claims') : Covers fold (items ++ rest) claims' := by
  induction rest generalizing items claims with
  | nil =>
    obtain rfl := Option.some.inj hc
    rw [List.append_nil]
    exact h
  | cons item rest ih =>
    rw [Lib.claimAll, List.foldlM_cons] at hc
    obtain ⟨next, hnext, hrest⟩ := Option.bind_eq_some_iff.mp hc
    rw [List.append_cons]
    exact ih (h.claim hnext) hrest

theorem Covers.claimAll_of_pairwise (h : Covers fold items claims) {rest : List (Claimed T)}
    (hp : (items ++ rest).Pairwise (Compatible fold)) :
    ∃ claims', Lib.claimAll fold claims rest = some claims' := by
  induction rest generalizing items claims with
  | nil => exact ⟨claims, rfl⟩
  | cons item rest ih =>
    have hitem : ∀ b ∈ items, Compatible fold b item := fun b hb =>
      (List.pairwise_append.mp hp).2.2 b hb item List.mem_cons_self
    obtain ⟨next, hnext⟩ := h.claim_of_compatible hitem
    rw [List.append_cons] at hp
    obtain ⟨claims', hall⟩ := ih (h.claim hnext) hp
    refine ⟨claims', ?_⟩
    rw [Lib.claimAll, List.foldlM_cons]
    exact Option.bind_eq_some_iff.mpr ⟨next, hnext, hall⟩

theorem claimAll_isSome : (∃ claims', claimAll fold [] items = some claims') ↔
    items.Pairwise (Compatible fold) := by
  constructor
  · rintro ⟨claims', h⟩
    simpa using (covers_nil.claimAll h).compatible
  · intro h
    exact covers_nil.claimAll_of_pairwise (by simpa using h)

omit [DecidableEq K] [DecidableEq T] in
theorem compatible_perm {items' : List (Claimed T)} (h : items.Perm items') :
    items.Pairwise (Compatible fold) ↔ items'.Pairwise (Compatible fold) :=
  h.pairwise_iff fun hab => hab.symm

end Aliases

end VeStorage.Lib
