import VeStorage.Lib.Grouped

namespace VeStorage.Lib.Pipelined
open Grouped

-- Jobs start while a source still discovers more of them; it hands over one batch at a time.
structure Exec (W S J : Type) where
  world : W
  source : S
  pending : List J
  running : List (J × Option Bool)
  log : List (Event J)

variable {W S J : Type}

def Exec.init (w : W) (s : S) : Exec W S J := ⟨w, s, [], [], []⟩

def Exec.Done (stop : S → Prop) (x : Exec W S J) : Prop :=
  stop x.source ∧ x.pending = [] ∧ x.running = []

section Steps

variable (emit : W → S → List J → S → Prop) (act : J → W → W → Bool → Prop) (limit : Nat)

inductive Step : Exec W S J → Exec W S J → Prop
  | discover (w s batch s' pending running log) (h : emit w s batch s')
      (hwait : batch = [] ∨ pending = []) :
      Step ⟨w, s, pending, running, log⟩ ⟨w, s', pending ++ batch, running, log⟩
  | launch (w s job pending running log) (h : running.length < max limit 1) :
      Step ⟨w, s, job :: pending, running, log⟩
        ⟨w, s, pending, running ++ [(job, none)], log ++ [.start job]⟩
  | effect (w w' s pending pre job ok post log) (h : act job w w' ok) :
      Step ⟨w, s, pending, pre ++ (job, none) :: post, log⟩
        ⟨w', s, pending, pre ++ (job, some ok) :: post, log⟩
  | finish (w s pending pre job ok post log) :
      Step ⟨w, s, pending, pre ++ (job, some ok) :: post, log⟩
        ⟨w, s, pending, pre ++ post, log ++ [.finish job ok]⟩

abbrev Run : Exec W S J → Exec W S J → Prop := Relation.ReflTransGen (Step emit act limit)

end Steps

def Exec.queued (x : Exec W S J) : List J := starts x.log ++ x.pending

section Runs

variable {emit : W → S → List J → S → Prop} {act : J → W → W → Bool → Prop} {limit : Nat}
  {P : W → S → List J → Prop}

theorem step_inv
    (hdiscover : ∀ w s q batch s', P w s q → emit w s batch s' → P w s' (q ++ batch))
    (hact : ∀ w s q job w' ok, P w s q → job ∈ q → act job w w' ok → P w' s q)
    {x x' : Exec W S J} (h : Step emit act limit x x') (hp : P x.world x.source x.queued)
    (hr : ∀ r ∈ x.running, r.1 ∈ starts x.log) :
    P x'.world x'.source x'.queued ∧ ∀ r ∈ x'.running, r.1 ∈ starts x'.log := by
  cases h with
  | discover w s batch s' pending running log he _ =>
    refine ⟨?_, hr⟩
    have := hdiscover _ _ _ _ _ hp he
    simpa [Exec.queued] using this
  | launch w s job pending running log _ =>
    refine ⟨by simpa [Exec.queued] using hp, fun r hm => ?_⟩
    rw [starts_append, starts_start]
    rcases List.mem_append.mp hm with hm | hm
    · exact List.mem_append_left _ (hr r hm)
    · rw [List.mem_singleton.mp hm]
      simp
  | effect w w' s pending pre job ok post log ha =>
    refine ⟨?_, fun r hm => ?_⟩
    · exact hact _ _ _ job _ ok hp (List.mem_append_left _ (hr (job, none) (by simp))) ha
    · rcases List.mem_append.mp hm with hm | hm
      · exact hr r (List.mem_append_left _ hm)
      · rcases List.mem_cons.mp hm with rfl | hm
        · exact hr (job, none) (by simp)
        · exact hr r (by simp [hm])
  | finish w s pending pre job ok post log =>
    refine ⟨by simpa [Exec.queued] using hp, fun r hm => ?_⟩
    rw [starts_append, starts_finish, List.append_nil]
    refine hr r ?_
    simp only [List.mem_append, List.mem_cons] at hm ⊢
    tauto

theorem run_inv
    (hdiscover : ∀ w s q batch s', P w s q → emit w s batch s' → P w s' (q ++ batch))
    (hact : ∀ w s q job w' ok, P w s q → job ∈ q → act job w w' ok → P w' s q)
    {w : W} {s : S} {x : Exec W S J} (h : Run emit act limit (Exec.init w s) x) (h0 : P w s []) :
    P x.world x.source x.queued := by
  have hrun : P x.world x.source x.queued ∧ ∀ r ∈ x.running, r.1 ∈ starts x.log := by
    induction h with
    | refl => exact ⟨by simpa [Exec.queued, Exec.init, starts] using h0, by simp [Exec.init]⟩
    | tail _ hs ih => exact step_inv hdiscover hact hs ih.1 ih.2
  exact hrun.1

theorem Exec.Done.queued {stop : S → Prop} {x : Exec W S J} (h : x.Done stop) :
    x.queued = starts x.log := by
  simp [Exec.queued, h.2.1]

end Runs

end VeStorage.Lib.Pipelined
