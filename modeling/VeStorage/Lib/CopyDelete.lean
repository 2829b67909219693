import Mathlib.Logic.Function.Basic
import Mathlib.Data.Set.Insert

namespace VeStorage.Lib

-- `dst = none` is a planned destination that names no place.
structure Transfer (P : Type) where
  src : P
  dst : Option P

namespace CopyDelete

variable {P C : Type}

def Arrived (s0 s : P → Option C) (i : Transfer P) : Prop :=
  ∃ d, i.dst = some d ∧ s d = s0 i.src

def Kept (items : Set (Transfer P)) (s0 s : P → Option C) : Prop :=
  ∀ i ∈ items, s i.src = s0 i.src ∨ Arrived s0 s i

def Delivered (items : Set (Transfer P)) (s0 s : P → Option C) : Prop :=
  ∀ i ∈ items, Arrived s0 s i

def Framed (items : Set (Transfer P)) (s0 s : P → Option C) : Prop :=
  ∀ p, (∀ i ∈ items, p ≠ i.src ∧ i.dst ≠ some p) → s p = s0 p

structure Separated (items : Set (Transfer P)) (s0 : P → Option C) : Prop where
  src_inj : ∀ i ∈ items, ∀ j ∈ items, i.src = j.src → i.dst = j.dst
  dst_agree : ∀ i ∈ items, ∀ j ∈ items, ∀ d, i.dst = some d → j.dst = some d →
    s0 i.src = s0 j.src
  dst_ne_src : ∀ i ∈ items, ∀ j ∈ items, i.dst ≠ some j.src

structure Inv (items : Set (Transfer P)) (s0 s : P → Option C) (copied : Set (Transfer P)) :
    Prop where
  copied_items : copied ⊆ items
  copied_dst : ∀ i ∈ copied, Arrived s0 s i
  source : ∀ i ∈ items, s i.src = s0 i.src ∨ (i ∈ copied ∧ s i.src = none)
  frame : Framed items s0 s

variable {items : Set (Transfer P)} {s0 s : P → Option C} {copied : Set (Transfer P)}

theorem Inv.start (items : Set (Transfer P)) (s0 : P → Option C) : Inv items s0 s0 ∅ where
  copied_items := Set.empty_subset _
  copied_dst := fun _ h => h.elim
  source := fun _ _ => .inl rfl
  frame := fun _ _ => rfl

theorem Inv.kept (h : Inv items s0 s copied) : Kept items s0 s := by
  intro i hi
  rcases h.source i hi with hs | ⟨hc, -⟩
  · exact .inl hs
  · exact .inr (h.copied_dst i hc)

theorem Inv.delivered (h : Inv items s0 s copied) (hall : items ⊆ copied) :
    Delivered items s0 s := fun i hi => h.copied_dst i (hall hi)

theorem Inv.source_content (h : Inv items s0 s copied) {i : Transfer P} (hi : i ∈ items) {c : C}
    (hc : s i.src = some c) : s0 i.src = some c := by
  rcases h.source i hi with hs | ⟨-, hn⟩
  · rw [← hs, hc]
  · rw [hn] at hc
    cases hc

theorem Inv.present_start (h : Inv items s0 s copied) {p : P} (hp : s p ≠ none)
    (hd : ∀ i ∈ items, i.dst ≠ some p) : s0 p ≠ none := by
  by_cases hs : ∃ i ∈ items, p = i.src
  · obtain ⟨i, hi, rfl⟩ := hs
    obtain ⟨c, hc⟩ := Option.ne_none_iff_exists'.mp hp
    rw [h.source_content hi hc]
    exact Option.some_ne_none c
  · rw [← h.frame p fun i hi => ⟨fun he => hs ⟨i, hi, he⟩, hd i hi⟩]
    exact hp

theorem Inv.clear {s' : P → Option C} {gone : P → Prop} (h : Inv items s0 s copied) (hall : items ⊆ copied)
    (hkept : ∀ p, s' p = s p ∨ s' p = none ∧ gone p) (hd : ∀ i ∈ items, ∀ p, gone p → i.dst ≠ some p)
    (h0 : ∀ p, gone p → s0 p ≠ none → ∃ i ∈ items, i.src = p) : Inv items s0 s' copied where
  copied_items := h.copied_items
  copied_dst := by
    intro i hi
    obtain ⟨d, hid, hs⟩ := h.copied_dst i hi
    rcases hkept d with hsame | ⟨-, hgone⟩
    · exact ⟨d, hid, by rw [hsame, hs]⟩
    · exact absurd hid (hd i (h.copied_items hi) d hgone)
  source := by
    intro i hi
    rcases hkept i.src with hsame | ⟨hnone, -⟩
    · rw [hsame]
      exact h.source i hi
    · exact .inr ⟨hall hi, hnone⟩
  frame := by
    intro p hp
    rcases hkept p with hsame | ⟨hnone, hgone⟩
    · rw [hsame]
      exact h.frame p hp
    · rw [hnone]
      refine (not_not.mp fun hne => ?_ : s0 p = none).symm
      obtain ⟨i, hi, he⟩ := h0 p hgone hne
      exact (hp i hi).1 he.symm

variable [DecidableEq P]

theorem arrived_update {d : P} {x : Option C} {i : Transfer P} (h : Arrived s0 s i)
    (hd : i.dst = some d → x = s0 i.src) : Arrived s0 (Function.update s d x) i := by
  obtain ⟨d', hd', hs⟩ := h
  refine ⟨d', hd', ?_⟩
  by_cases he : d' = d
  · subst he
    rw [Function.update_self, hd hd']
  · rw [Function.update_of_ne he, hs]

theorem Inv.copy (hsep : Separated items s0) (h : Inv items s0 s copied) {i : Transfer P} {d : P}
    (hi : i ∈ items) (hd : i.dst = some d) {c : C} (hc : s i.src = some c) :
    Inv items s0 (Function.update s d (some c)) (insert i copied) where
  copied_items := Set.insert_subset hi h.copied_items
  copied_dst := by
    have hci := h.source_content hi hc
    intro j hj
    rcases hj with rfl | hj
    · exact ⟨d, hd, by rw [Function.update_self, hci]⟩
    · refine arrived_update (h.copied_dst j hj) fun hjd => ?_
      rw [← hci]
      exact hsep.dst_agree i hi j (h.copied_items hj) d hd hjd
  source := by
    intro j hj
    have hne : j.src ≠ d := fun he => hsep.dst_ne_src i hi j hj (he ▸ hd)
    rw [Function.update_of_ne hne]
    rcases h.source j hj with hs | ⟨hjc, hn⟩
    · exact .inl hs
    · exact .inr ⟨Set.mem_insert_of_mem _ hjc, hn⟩
  frame := by
    intro p hp
    have hne : p ≠ d := fun he => (hp i hi).2 (he ▸ hd)
    rw [Function.update_of_ne hne]
    exact h.frame p hp

theorem Inv.delete (hsep : Separated items s0) (h : Inv items s0 s copied) {i : Transfer P}
    (hc : i ∈ copied) :
    Inv items s0 (Function.update s i.src none) (copied ∪ {j | j ∈ items ∧ j.src = i.src}) := by
  have hi := h.copied_items hc
  have harr : ∀ j, Arrived s0 s j → j ∈ items → Arrived s0 (Function.update s i.src none) j :=
    fun j hj hji => arrived_update hj fun hd => absurd hd (hsep.dst_ne_src j hji i hi)
  refine ⟨?_, ?_, ?_, ?_⟩
  · exact Set.union_subset h.copied_items fun j hj => hj.1
  · rintro j (hj | ⟨hji, hjs⟩)
    · exact harr j (h.copied_dst j hj) (h.copied_items hj)
    · obtain ⟨d, hd, hs⟩ := h.copied_dst i hc
      exact harr j ⟨d, by rw [hsep.src_inj j hji i hi hjs, hd], by rw [hjs, hs]⟩ hji
  · intro j hj
    by_cases hs : j.src = i.src
    · exact .inr ⟨.inr ⟨hj, hs⟩, by rw [hs, Function.update_self]⟩
    · rw [Function.update_of_ne hs]
      rcases h.source j hj with hsrc | ⟨hjc, hn⟩
      · exact .inl hsrc
      · exact .inr ⟨.inl hjc, hn⟩
  · intro p hp
    rw [Function.update_of_ne (hp i hi).1]
    exact h.frame p hp

theorem Inv.delete_settled (hsep : Separated items s0) (h : Inv items s0 s copied)
    (hall : items ⊆ copied) {p : P} (hd : ∀ i ∈ items, i.dst ≠ some p)
    (h0 : s0 p ≠ none → ∃ i ∈ items, i.src = p) :
    ∃ copied', copied ⊆ copied' ∧ Inv items s0 (Function.update s p none) copied' := by
  by_cases hs : ∃ i ∈ items, i.src = p
  · obtain ⟨i, hi, rfl⟩ := hs
    exact ⟨_, Set.subset_union_left, h.delete hsep (hall hi)⟩
  · have habsent : s0 p = none := not_not.mp fun hne => hs (h0 hne)
    have hframe : s p = s0 p := h.frame p fun i hi => ⟨fun he => hs ⟨i, hi, he.symm⟩, hd i hi⟩
    have hsame : Function.update s p none = s := by
      rw [Function.update_eq_self_iff, hframe, habsent]
    exact ⟨copied, subset_rfl, by rwa [hsame]⟩

end CopyDelete

end VeStorage.Lib
