import VeStorage.Tos.Move.Machine

namespace VeStorage.Tos.Move
open Lib CopyDelete

variable {W L P C : Type} [DecidableEq P]

structure Refines (ops : Ops W L) (view : W → P → Option C) (place : TransferPlanItem → Transfer P)
    (items : Set (Transfer P)) (s0 : P → Option C) (good : W → Prop) : Prop where
  start : ops.outcome ops.start ≠ some true
  work : ∀ {item w l w' l'}, place item ∈ items → good w → ops.work item w l w' l' →
    good w' ∧ ((view w' = view w ∧ (ops.outcome l' = some true → ops.outcome l = some true)) ∨
      ∃ d c, (place item).dst = some d ∧ view w (place item).src = some c ∧
        view w' = Function.update (view w) d (some c))
  remove : ∀ {item w w' ok}, place item ∈ items → good w → ops.remove item w w' ok →
    good w' ∧ (view w' = view w ∨ view w' = Function.update (view w) (place item).src none)
  close : ∀ {act w w' r copied}, ops.close = some act → good w →
    CopyDelete.Inv items s0 (view w) copied → items ⊆ copied → act w w' r →
    good w' ∧ ∃ copied', copied ⊆ copied' ∧ CopyDelete.Inv items s0 (view w') copied'

section Steps

variable {ops : Ops W L} {view : W → P → Option C} {place : TransferPlanItem → Transfer P}
  {items : Set (Transfer P)} {s0 : P → Option C} {good : W → Prop}

theorem Refines.work_inv (hr : Refines ops view place items s0 good) (hsep : Separated items s0)
    {item : TransferPlanItem} {w w' : W} {l l' : L} {copied : Set (Transfer P)}
    (hi : place item ∈ items) (hg : good w) (hinv : CopyDelete.Inv items s0 (view w) copied)
    (hl : ops.outcome l = some true → place item ∈ copied) (h : ops.work item w l w' l') :
    ∃ copied', copied ⊆ copied' ∧ (∀ t ∈ copied', t ∈ copied ∨ t.src = (place item).src) ∧
      good w' ∧ CopyDelete.Inv items s0 (view w') copied' ∧
      (∀ p, view w p ≠ none → view w' p ≠ none) ∧
      (ops.outcome l' = some true → place item ∈ copied') := by
  obtain ⟨hg', ⟨hv, ho⟩ | ⟨d, c, hd, hc, hv⟩⟩ := hr.work hi hg h
  · exact ⟨copied, subset_rfl, fun t ht => .inl ht, hg', hv ▸ hinv, fun p hp => hv ▸ hp,
      fun h => hl (ho h)⟩
  · refine ⟨insert (place item) copied, Set.subset_insert _ _, ?_, hg', ?_, ?_, fun _ => .inl rfl⟩
    · rintro t (rfl | ht)
      · exact .inr rfl
      · exact .inl ht
    · rw [hv]
      exact hinv.copy hsep hi hd hc
    · intro p hp
      rw [hv]
      by_cases he : p = d
      · rw [he, Function.update_self]
        exact Option.some_ne_none c
      · rwa [Function.update_of_ne he]

theorem Refines.remove_inv (hr : Refines ops view place items s0 good)
    (hsep : Separated items s0) {item : TransferPlanItem} {w w' : W} {ok : Bool}
    {copied : Set (Transfer P)} (hg : good w)
    (hinv : CopyDelete.Inv items s0 (view w) copied) (hc : place item ∈ copied)
    (h : ops.remove item w w' ok) :
    ∃ copied', copied ⊆ copied' ∧ (∀ t ∈ copied', t ∈ copied ∨ t.src = (place item).src) ∧
      good w' ∧ CopyDelete.Inv items s0 (view w') copied' ∧
      (∀ p, p ≠ (place item).src → view w p ≠ none → view w' p ≠ none) := by
  obtain ⟨hg', hv | hv⟩ := hr.remove (hinv.copied_items hc) hg h
  · exact ⟨copied, subset_rfl, fun t ht => .inl ht, hg', hv ▸ hinv, fun p _ hp => hv ▸ hp⟩
  · refine ⟨_, Set.subset_union_left, ?_, hg', hv ▸ hinv.delete hsep hc, ?_⟩
    · rintro t (ht | ht)
      · exact .inl ht
      · exact .inr ht.2
    · intro p hp hs
      rw [hv]
      rwa [Function.update_of_ne hp]

end Steps

section Manifest

variable (ops : Ops W L) (view : W → P → Option C) (place : TransferPlanItem → Transfer P)
  (items : Set (Transfer P)) (s0 : P → Option C) (good : W → Prop)
  (planned : List TransferPlanItem)

def StageInv (copied : Set (Transfer P)) (b : Batch W L) : Prop :=
  match b.stage with
  | .copying => b.failed = 0 → ∀ item ∈ planned,
      place item ∈ copied ∨ item ∈ b.pending ∨ item ∈ b.running.map Prod.fst
  | .deleting gs pending running =>
      (∀ item ∈ planned, place item ∈ copied) ∧ (∀ g ∈ gs, g ⊆ planned) ∧ pending ⊆ planned ∧
        running.map Prod.fst ⊆ planned
  | .closing => ∀ item ∈ planned, place item ∈ copied
  | .finished code => code = some 0 → ∀ item ∈ planned, place item ∈ copied

structure BatchInv (copied : Set (Transfer P)) (b : Batch W L) : Prop where
  store : CopyDelete.Inv items s0 (view b.world) copied
  good : good b.world
  pending : b.pending ⊆ planned
  running : ∀ x ∈ b.running, x.1 ∈ planned ∧ (ops.outcome x.2 = some true → place x.1 ∈ copied)
  stage : StageInv place planned copied b

variable {ops view place items s0 good planned}

omit [DecidableEq P] in
theorem Batch.init_inv {w0 : W} (hw : view w0 = s0) (hg : good w0) :
    BatchInv ops view place items s0 good planned ∅ (Batch.init w0 planned) where
  store := by
    simp only [Batch.init, hw]
    exact CopyDelete.Inv.start items s0
  good := hg
  pending := fun _ h => h
  running := by simp [Batch.init]
  stage := fun _ item hi => .inr (.inl hi)

omit [DecidableEq P] in
theorem items_copied {copied : Set (Transfer P)}
    (hcover : ∀ t ∈ items, ∃ item ∈ planned, place item = t)
    (hall : ∀ item ∈ planned, place item ∈ copied) : items ⊆ copied := by
  intro t ht
  obtain ⟨item, hi, rfl⟩ := hcover t ht
  exact hall item hi

theorem step_inv (hr : Refines ops view place items s0 good) (hsep : Separated items s0)
    (hp : ∀ item ∈ planned, place item ∈ items)
    (hcover : ∀ t ∈ items, ∃ item ∈ planned, place item = t) {limit : Nat}
    {groups : List (List TransferPlanItem)} (hgr : ∀ g ∈ groups, g ⊆ planned)
    {b b' : Batch W L} (h : Step ops limit groups b b') {copied : Set (Transfer P)}
    (hinv : BatchInv ops view place items s0 good planned copied b) :
    ∃ copied', BatchInv ops view place items s0 good planned copied' b' := by
  obtain ⟨hst, hgood, hpend, hrun, hstage⟩ := hinv
  cases h with
  | launch w item pending running failed rf _ =>
    obtain ⟨hitem, hrest⟩ := List.cons_subset.mp hpend
    refine ⟨copied, hst, hgood, hrest, ?_, ?_⟩
    · intro x hx
      rcases List.mem_append.mp hx with hx | hx
      · exact hrun x hx
      · obtain rfl := List.mem_singleton.mp hx
        exact ⟨hitem, fun h => absurd h hr.start⟩
    · intro hf i hi
      have := hstage hf i hi
      simp only [List.mem_cons, List.map_append, List.mem_append, List.map_cons] at this ⊢
      tauto
  | work w w' item l l' pending pre post failed rf h =>
    have hx := hrun (item, l) (by simp)
    obtain ⟨copied', hsub, -, hg', hst', -, ho⟩ := hr.work_inv hsep (hp _ hx.1) hgood hst hx.2 h
    refine ⟨copied', hst', hg', hpend, ?_, ?_⟩
    · intro x hm
      simp only [List.mem_append, List.mem_cons] at hm
      rcases hm with hm | rfl | hm
      · have := hrun x (by simp [hm])
        exact ⟨this.1, fun h => hsub (this.2 h)⟩
      · exact ⟨hx.1, ho⟩
      · have := hrun x (by simp [hm])
        exact ⟨this.1, fun h => hsub (this.2 h)⟩
    · intro hf i hi
      have := hstage hf i hi
      simp only [List.map_append, List.map_cons] at this ⊢
      exact this.imp (fun h => hsub h) id
  | record w item l ok pending pre post failed rf lost h =>
    have hx := hrun (item, l) (by simp)
    refine ⟨copied, hst, hgood, hpend, fun x hm => hrun x ?_, ?_⟩
    · simp only [List.mem_append, List.mem_cons] at hm ⊢
      tauto
    · intro hf i hi
      have hok : ok = true := by
        cases ok
        · simp [failedRow] at hf
        · rfl
      subst hok
      have := hstage (by simp only [failedRow] at hf; simpa using hf) i hi
      simp only [List.map_append, List.map_cons, List.mem_append, List.mem_cons] at this ⊢
      have hc : i = item → place i ∈ copied := fun he => he ▸ hx.2 h
      tauto
  | skipDeletes w failed rf lost h =>
    refine ⟨copied, hst, hgood, hpend, hrun, ?_⟩
    intro hc
    split at hc <;> simp at hc
  | beginDeletes w =>
    refine ⟨copied, hst, hgood, hpend, hrun, ?_, hgr, by simp, by simp⟩
    intro i hi
    simpa using hstage rfl i hi
  | launchDelete w item gs pending running failed _ =>
    obtain ⟨hall, hgs, hps, hrs⟩ := hstage
    obtain ⟨hitem, hrest⟩ := List.cons_subset.mp hps
    refine ⟨copied, hst, hgood, hpend, hrun, hall, hgs, hrest, ?_⟩
    rw [List.map_append]
    exact List.append_subset.mpr ⟨hrs, by simpa using hitem⟩
  | remove w w' item ok gs pending pre post failed rf h =>
    obtain ⟨hall, hgs, hps, hrs⟩ := hstage
    have hi : item ∈ planned := hrs (by simp)
    obtain ⟨copied', hsub, -, hg', hst', -⟩ := hr.remove_inv hsep hgood hst (hall _ hi) h
    refine ⟨copied', hst', hg', hpend, fun x hx => ?_, fun i hi => hsub (hall i hi), hgs, hps, ?_⟩
    · cases hx
    · simpa using hrs
  | recordDelete w item ok gs pending pre post failed rf lost =>
    obtain ⟨hall, hgs, hps, hrs⟩ := hstage
    refine ⟨copied, hst, hgood, hpend, hrun, hall, hgs, hps, fun i hi => hrs ?_⟩
    simp only [List.map_append, List.map_cons, List.mem_append, List.mem_cons] at hi ⊢
    tauto
  | skipGroup w gs item pending failed =>
    obtain ⟨hall, hgs, -, -⟩ := hstage
    exact ⟨copied, hst, hgood, hpend, hrun, hall, hgs, by simp, by simp⟩
  | nextGroup w g gs failed rf =>
    obtain ⟨hall, hgs, -, -⟩ := hstage
    exact ⟨copied, hst, hgood, hpend, hrun, hall, fun g' h => hgs g' (by simp [h]),
      hgs g (by simp), by simp⟩
  | endDeletes w failed rf => exact ⟨copied, hst, hgood, hpend, hrun, hstage.1⟩
  | closeSkipped w failed rf lost _ => exact ⟨copied, hst, hgood, hpend, hrun, fun _ => hstage⟩
  | close w w' ok failed lost act h ha =>
    obtain ⟨hg', copied', hsub, hst'⟩ := hr.close h hgood hst (items_copied hcover hstage) ha
    exact ⟨copied', hst', hg', hpend, by simp, fun _ i hi => hsub (hstage i hi)⟩
  | closeError w w' failed act h ha =>
    obtain ⟨hg', copied', hsub, hst'⟩ := hr.close h hgood hst (items_copied hcover hstage) ha
    exact ⟨copied', hst', hg', hpend, by simp, fun _ i hi => hsub (hstage i hi)⟩

theorem run_inv (hr : Refines ops view place items s0 good) (hsep : Separated items s0)
    (hp : ∀ item ∈ planned, place item ∈ items)
    (hcover : ∀ t ∈ items, ∃ item ∈ planned, place item = t) {limit : Nat}
    {groups : List (List TransferPlanItem)} (hgr : ∀ g ∈ groups, g ⊆ planned) {w0 : W}
    (hw : view w0 = s0) (hg : good w0) {b : Batch W L}
    (h : Run ops limit groups (Batch.init w0 planned) b) :
    ∃ copied, BatchInv ops view place items s0 good planned copied b := by
  induction h with
  | refl => exact ⟨∅, Batch.init_inv hw hg⟩
  | tail _ hs ih =>
    obtain ⟨copied, hinv⟩ := ih
    exact step_inv hr hsep hp hcover hgr hs hinv

theorem run_safe (hr : Refines ops view place items s0 good) (hsep : Separated items s0)
    (hp : ∀ item ∈ planned, place item ∈ items)
    (hcover : ∀ t ∈ items, ∃ item ∈ planned, place item = t) {limit : Nat}
    {groups : List (List TransferPlanItem)} (hgr : ∀ g ∈ groups, g ⊆ planned) {w0 : W}
    (hw : view w0 = s0) (hg : good w0) {b : Batch W L}
    (h : Run ops limit groups (Batch.init w0 planned) b) :
    Kept items s0 (view b.world) ∧ Framed items s0 (view b.world) ∧ good b.world ∧
      (b.stage = .finished (some 0) → Delivered items s0 (view b.world)) := by
  obtain ⟨copied, hinv⟩ := run_inv hr hsep hp hcover hgr hw hg h
  refine ⟨hinv.store.kept, hinv.store.frame, hinv.good, fun hstage => ?_⟩
  have hall := hinv.stage
  simp only [StageInv, hstage] at hall
  exact hinv.store.delivered (items_copied hcover (hall trivial))

end Manifest

end VeStorage.Tos.Move
