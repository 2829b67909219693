import Mathlib.Data.List.Nodup
import Mathlib.Data.List.Perm.Basic

namespace VeStorage.Lib

-- Jobs that wait and jobs that run; a job in neither list is done.
structure PoolInv {ρ σ : Type} (all : List ρ) (done : ρ → Prop) (pending : List ρ)
    (inFlight : List (ρ × σ)) : Prop where
  nodup : (pending ++ inFlight.map Prod.fst).Nodup
  planned : ∀ r ∈ pending ++ inFlight.map Prod.fst, r ∈ all
  finished : ∀ r ∈ all, r ∉ pending ++ inFlight.map Prod.fst → done r

section Pool

variable {ρ σ : Type} {all pending : List ρ} {done done' : ρ → Prop} {r : ρ} {s s' : σ}
  {inFlight before after : List (ρ × σ)}

theorem launch_perm (pending : List ρ) (inFlight : List (ρ × σ)) (r : ρ) (s : σ) :
    (pending ++ (inFlight ++ [(r, s)]).map Prod.fst).Perm (r :: pending ++ inFlight.map Prod.fst) := by
  simp only [List.map_append, List.map_cons, List.map_nil, List.cons_append]
  rw [← List.append_assoc]
  exact List.perm_append_singleton r _

theorem finish_perm (pending : List ρ) (before after : List (ρ × σ)) (r : ρ) (s : σ) :
    (pending ++ (before ++ (r, s) :: after).map Prod.fst).Perm
      (r :: (pending ++ (before ++ after).map Prod.fst)) := by
  simp only [List.map_append, List.map_cons, ← List.append_assoc]
  exact List.perm_middle

theorem map_fst_progress (before after : List (ρ × σ)) (r : ρ) (s s' : σ) :
    (before ++ (r, s') :: after).map Prod.fst = (before ++ (r, s) :: after).map Prod.fst := by
  simp only [List.map_append, List.map_cons]

theorem split_at {α : Type} {l : List α} {n : Nat} {a : α} (h : l[n]? = some a) :
    ∃ before after, l = before ++ a :: after ∧ (∀ b, l.set n b = before ++ b :: after) ∧
      l.eraseIdx n = before ++ after := by
  obtain ⟨hlt, rfl⟩ := List.getElem?_eq_some_iff.mp h
  refine ⟨l.take n, l.drop (n + 1), ?_, fun b => ?_, List.eraseIdx_eq_take_drop_succ l n⟩
  · rw [← List.drop_eq_getElem_cons hlt, List.take_append_drop]
  · rw [List.set_eq_take_append_cons_drop, if_pos hlt]

-- A tally over the jobs follows the change of one of them.
theorem countP_update {α : Type} {l : List α} {a : α} {p q : α → Bool} (hl : l.Nodup) (ha : a ∈ l)
    (hpq : ∀ b ∈ l, b ≠ a → q b = p b) : l.countP q + (p a).toNat = l.countP p + (q a).toNat := by
  induction l with
  | nil => cases ha
  | cons b l ih =>
    obtain ⟨hb, hl⟩ := List.nodup_cons.mp hl
    rw [List.countP_cons, List.countP_cons]
    rcases List.mem_cons.mp ha with rfl | ha
    · have hrest : l.countP q = l.countP p :=
        List.countP_congr fun c hc => by rw [hpq c (List.mem_cons_of_mem _ hc) fun h => hb (h ▸ hc)]
      cases p a <;> cases q a <;> simp [hrest]
    · have hq := hpq b List.mem_cons_self fun h => hb (h ▸ ha)
      have hrest := ih hl ha fun c hc => hpq c (List.mem_cons_of_mem _ hc)
      rw [hq]
      omega

namespace PoolInv

theorem mono (h : PoolInv all done pending inFlight)
    (hd : ∀ r ∈ all, r ∉ pending ++ inFlight.map Prod.fst → done r → done' r) :
    PoolInv all done' pending inFlight where
  nodup := h.nodup
  planned := h.planned
  finished := fun r hr hn => hd r hr hn (h.finished r hr hn)

theorem all_pending (h : all.Nodup) : PoolInv all done all ([] : List (ρ × σ)) where
  nodup := by simpa using h
  planned := by simp
  finished := fun r hr hn => absurd (List.mem_append_left _ hr) hn

theorem skip (h : PoolInv all done (r :: pending) inFlight) (hr : done r) :
    PoolInv all done pending inFlight where
  nodup := (List.nodup_cons.mp h.nodup).2
  planned := fun r' hr' => h.planned r' (List.mem_cons_of_mem _ hr')
  finished := by
    intro r' hr' hn
    by_cases he : r' = r
    · exact he ▸ hr
    · exact h.finished r' hr' fun hm => hn ((List.mem_cons.mp hm).resolve_left he)

theorem launch (h : PoolInv all done (r :: pending) inFlight) (s : σ) :
    PoolInv all done pending (inFlight ++ [(r, s)]) where
  nodup := (launch_perm pending inFlight r s).nodup_iff.mpr h.nodup
  planned := fun r' hr' => h.planned r' ((launch_perm pending inFlight r s).mem_iff.mp hr')
  finished := fun r' hr' hn =>
    h.finished r' hr' fun hm => hn ((launch_perm pending inFlight r s).mem_iff.mpr hm)

-- Work on one job may undo only that job.
theorem progress (h : PoolInv all done pending (before ++ (r, s) :: after))
    (hd : ∀ r' ∈ all, r' ≠ r → done r' → done' r') :
    PoolInv all done' pending (before ++ (r, s') :: after) where
  nodup := by
    rw [map_fst_progress before after r s s']
    exact h.nodup
  planned := by
    rw [map_fst_progress before after r s s']
    exact h.planned
  finished := by
    rw [map_fst_progress before after r s s']
    intro r' hr' hn
    refine hd r' hr' ?_ (h.finished r' hr' hn)
    rintro rfl
    exact hn (by simp)

theorem finish (h : PoolInv all done pending (before ++ (r, s) :: after)) (hr : done r) :
    PoolInv all done pending (before ++ after) where
  nodup := (List.nodup_cons.mp ((finish_perm pending before after r s).nodup_iff.mp h.nodup)).2
  planned := fun r' hr' =>
    h.planned r' ((finish_perm pending before after r s).mem_iff.mpr (List.mem_cons_of_mem r hr'))
  finished := by
    intro r' hr' hn
    by_cases he : r' = r
    · exact he ▸ hr
    · refine h.finished r' hr' fun hm => hn ?_
      exact (List.mem_cons.mp ((finish_perm pending before after r s).mem_iff.mp hm)).resolve_left he

theorem running_mem (h : PoolInv all done pending (before ++ (r, s) :: after)) : r ∈ all :=
  h.planned r (by simp)

theorem all_done (h : PoolInv all done [] ([] : List (ρ × σ))) : ∀ r ∈ all, done r :=
  fun r hr => h.finished r hr (by simp)

end PoolInv

end Pool

end VeStorage.Lib
