import Mathlib.Logic.Relation
import Mathlib.Data.List.Nodup

namespace VeStorage.Lib.Recorded

-- Jobs of several steps run side by side; a record of the finished ones outlives the run.
structure Exec (W S J T K : Type) where
  world : W
  source : S
  pending : List J
  running : List (J × T)
  log : List J
  record : List K
  failures : Nat

variable {W S J T K : Type}

def Exec.init (w : W) (s : S) (record : List K) : Exec W S J T K := ⟨w, s, [], [], [], record, 0⟩

def Exec.handed (x : Exec W S J T K) : List J := x.log ++ x.pending

def Exec.Done (stop : S → Prop) (x : Exec W S J T K) : Prop :=
  stop x.source ∧ x.pending = [] ∧ x.running = []

section Steps

variable (emit : W → S → List J → S → Prop) (work : J → W × T → W × T → Prop) (start : T)
  (ended : T → Option Bool) (key : J → K) (limit : Nat)

inductive Step : Exec W S J T K → Exec W S J T K → Prop
  | discover (w s batch s' pending running log record failures) (h : emit w s batch s')
      (hwait : batch = [] ∨ pending = []) :
      Step ⟨w, s, pending, running, log, record, failures⟩
        ⟨w, s', pending ++ batch, running, log, record, failures⟩
  | skip (w s job pending running log record failures) (h : key job ∈ record) :
      Step ⟨w, s, job :: pending, running, log, record, failures⟩
        ⟨w, s, pending, running, log ++ [job], record, failures⟩
  | launch (w s job pending running log record failures) (h : key job ∉ record)
      (hroom : running.length < max limit 1) :
      Step ⟨w, s, job :: pending, running, log, record, failures⟩
        ⟨w, s, pending, running ++ [(job, start)], log ++ [job], record, failures⟩
  | work (w w' s pending pre job t t' post log record failures) (h : work job (w, t) (w', t')) :
      Step ⟨w, s, pending, pre ++ (job, t) :: post, log, record, failures⟩
        ⟨w', s, pending, pre ++ (job, t') :: post, log, record, failures⟩
  | succeed (w s pending pre job t post log record failures) (h : ended t = some true) :
      Step ⟨w, s, pending, pre ++ (job, t) :: post, log, record, failures⟩
        ⟨w, s, pending, pre ++ post, log, record ++ [key job], failures⟩
  | fail (w s pending pre job t post log record failures) (h : ended t = some false) :
      Step ⟨w, s, pending, pre ++ (job, t) :: post, log, record, failures⟩
        ⟨w, s, pending, pre ++ post, log, record, failures + 1⟩

abbrev Run : Exec W S J T K → Exec W S J T K → Prop :=
  Relation.ReflTransGen (Step emit work start ended key limit)

end Steps

-- What a world, a source and the stage of a job have to satisfy for a record to stay true.
structure Rules (emit : W → S → List J → S → Prop) (work : J → W × T → W × T → Prop) (start : T)
    (ended : T → Option Bool) (key : J → K) (world : W → Prop) (source : S → List J → Prop)
    (planned : J → Prop) (good : W → K → Prop) (fine : W → J → T → Prop) : Prop where
  distinct : ∀ s handed, source s handed → (handed.map key).Nodup
  handed : ∀ s handed, source s handed → ∀ job ∈ handed, planned job
  discovered : ∀ w s batch s' handed, world w → source s handed → emit w s batch s' →
    source s' (handed ++ batch)
  started : ∀ w job, fine w job start
  finished : ∀ w job t, world w → planned job → fine w job t → ended t = some true → good w (key job)
  world_step : ∀ w w' job t t', world w → planned job → fine w job t → work job (w, t) (w', t') →
    world w'
  fine_step : ∀ w w' job t t', world w → planned job → fine w job t → work job (w, t) (w', t') →
    fine w' job t'
  good_other : ∀ w w' job t t' k, world w → planned job → fine w job t → work job (w, t) (w', t') →
    k ≠ key job → good w k → good w' k
  fine_other : ∀ w w' job t t' other u, world w → planned job → fine w job t →
    work job (w, t) (w', t') → planned other → key other ≠ key job → fine w other u →
    fine w' other u

structure Inv (key : J → K) (world : W → Prop) (source : S → List J → Prop) (good : W → K → Prop)
    (fine : W → J → T → Prop) (x : Exec W S J T K) : Prop where
  world : world x.world
  source : source x.source x.handed
  live : ∀ r ∈ x.running, r.1 ∈ x.log ∧ fine x.world r.1 r.2
  alone : (x.running.map fun r => key r.1).Nodup
  apart : ∀ r ∈ x.running, key r.1 ∉ x.record
  recorded : ∀ k ∈ x.record, good x.world k
  accounted : x.failures = 0 → ∀ job ∈ x.log,
    job ∈ x.running.map Prod.fst ∨ key job ∈ x.record

section Runs

variable {emit : W → S → List J → S → Prop} {work : J → W × T → W × T → Prop} {start : T}
  {ended : T → Option Bool} {key : J → K} {limit : Nat} {world : W → Prop}
  {source : S → List J → Prop} {planned : J → Prop} {good : W → K → Prop}
  {fine : W → J → T → Prop}

theorem Inv.init {w : W} {s : S} {record : List K} (hw : world w) (hs : source s [])
    (hr : ∀ k ∈ record, good w k) :
    Inv key world source good fine (Exec.init w s record : Exec W S J T K) where
  world := hw
  source := hs
  live := by simp [Exec.init]
  alone := by simp [Exec.init]
  apart := by simp [Exec.init]
  recorded := hr
  accounted := by simp [Exec.init]

theorem mem_middle {pre post : List (J × T)} {x r : J × T} (h : r ∈ pre ++ post) :
    r ∈ pre ++ x :: post := by
  simp only [List.mem_append, List.mem_cons] at h ⊢
  tauto

theorem alone_middle {pre post : List (J × T)} {job : J} {t : T}
    (h : ((pre ++ (job, t) :: post).map fun r => key r.1).Nodup) :
    (∀ r ∈ pre ++ post, key r.1 ≠ key job) ∧ ((pre ++ post).map fun r => key r.1).Nodup := by
  rw [List.map_append, List.map_cons, List.nodup_middle, List.nodup_cons, ← List.map_append] at h
  refine ⟨fun r hr he => h.1 ?_, h.2⟩
  exact List.mem_map.mpr ⟨r, hr, he⟩

theorem step_inv (R : Rules emit work start ended key world source planned good fine)
    {x x' : Exec W S J T K} (h : Step emit work start ended key limit x x')
    (hinv : Inv key world source good fine x) : Inv key world source good fine x' := by
  have hplanned : ∀ r ∈ x.running, planned r.1 := fun r hr =>
    R.handed _ _ hinv.source _ (List.mem_append_left _ (hinv.live r hr).1)
  obtain ⟨hworld, hsource, hlive, halone, hapart, hrecorded, haccounted⟩ := hinv
  cases h with
  | discover w s batch s' pending running log record failures he _ =>
    refine ⟨hworld, ?_, hlive, halone, hapart, hrecorded, haccounted⟩
    have := R.discovered _ _ _ _ _ hworld hsource he
    simpa [Exec.handed] using this
  | skip w s job pending running log record failures hk =>
    refine ⟨hworld, ?_, fun r hr => ?_, halone, hapart, hrecorded, fun h0 j hj => ?_⟩
    · simpa [Exec.handed] using hsource
    · exact ⟨List.mem_append_left _ (hlive r hr).1, (hlive r hr).2⟩
    · rcases List.mem_append.mp hj with hj | hj
      · exact haccounted h0 j hj
      · rw [List.mem_singleton.mp hj]
        exact .inr hk
  | launch w s job pending running log record failures hk _ =>
    have hfresh : ∀ r ∈ running, key r.1 ≠ key job := by
      intro r hr he
      have hnodup := R.distinct _ _ hsource
      simp only [Exec.handed, List.map_append, List.map_cons, List.nodup_append] at hnodup
      exact hnodup.2.2 _ (List.mem_map_of_mem (hlive r hr).1) _ (List.mem_cons_self ..) he
    refine ⟨hworld, ?_, fun r hr => ?_, ?_, fun r hr => ?_, hrecorded, fun h0 j hj => ?_⟩
    · simpa [Exec.handed] using hsource
    · rcases List.mem_append.mp hr with hr | hr
      · exact ⟨List.mem_append_left _ (hlive r hr).1, (hlive r hr).2⟩
      · rw [List.mem_singleton.mp hr]
        exact ⟨by simp, R.started w job⟩
    · rw [List.map_append, List.nodup_append]
      refine ⟨halone, by simp, ?_⟩
      intro a ha b hb
      obtain ⟨r, hr, rfl⟩ := List.mem_map.mp ha
      simp only [List.map_cons, List.map_nil, List.mem_singleton] at hb
      rw [hb]
      exact hfresh r hr
    · rcases List.mem_append.mp hr with hr | hr
      · exact hapart r hr
      · rw [List.mem_singleton.mp hr]
        exact hk
    · rcases List.mem_append.mp hj with hj | hj
      · exact (haccounted h0 j hj).imp_left fun hm => by simp [hm]
      · simp [List.mem_singleton.mp hj]
  | work w w' s pending pre job t t' post log record failures hw =>
    have hmem : (job, t) ∈ pre ++ (job, t) :: post := by simp
    have hjob : planned job := hplanned (job, t) hmem
    have hfine : fine w job t := (hlive (job, t) hmem).2
    have hother := (alone_middle halone).1
    have hsplit : ∀ {u : T} {r : J × T}, r ∈ pre ++ (job, u) :: post → r = (job, u) ∨ r ∈ pre ++ post := by
      intro u r hr
      simpa [or_left_comm] using hr
    refine ⟨R.world_step _ _ _ _ _ hworld hjob hfine hw, hsource, fun r hr => ?_, ?_, fun r hr => ?_,
      fun k hk => ?_, fun h0 j hj => ?_⟩
    · rcases hsplit hr with rfl | hr
      · exact ⟨(hlive (job, t) hmem).1, R.fine_step _ _ _ _ _ hworld hjob hfine hw⟩
      · have hold : r ∈ pre ++ (job, t) :: post := mem_middle hr
        exact ⟨(hlive r hold).1, R.fine_other _ _ _ _ _ _ _ hworld hjob hfine hw (hplanned r hold)
          (hother r hr) (hlive r hold).2⟩
    · simpa using halone
    · rcases hsplit hr with rfl | hr
      · exact hapart (job, t) hmem
      · exact hapart r (mem_middle hr)
    · refine R.good_other _ _ _ _ _ _ hworld hjob hfine hw ?_ (hrecorded k hk)
      rintro rfl
      exact hapart (job, t) hmem hk
    · simpa using haccounted h0 j hj
  | succeed w s pending pre job t post log record failures hok =>
    have hmem : (job, t) ∈ pre ++ (job, t) :: post := by simp
    obtain ⟨hother, hnodup⟩ := alone_middle halone
    refine ⟨hworld, hsource, fun r hr => hlive r (mem_middle hr), hnodup, fun r hr => ?_,
      fun k hk => ?_, fun h0 j hj => ?_⟩
    · rw [List.mem_append, List.mem_singleton]
      rintro (hk | hk)
      · exact hapart r (mem_middle hr) hk
      · exact hother r hr hk
    · rcases List.mem_append.mp hk with hk | hk
      · exact hrecorded k hk
      · rw [List.mem_singleton.mp hk]
        exact R.finished _ _ _ hworld (hplanned (job, t) hmem) (hlive (job, t) hmem).2 hok
    · rcases haccounted h0 j hj with hm | hm
      · simp only [List.map_append, List.map_cons, List.mem_append, List.mem_cons] at hm ⊢
        rcases hm with hm | rfl | hm
        · exact .inl (.inl hm)
        · simp
        · exact .inl (.inr hm)
      · exact .inr (List.mem_append_left _ hm)
  | fail w s pending pre job t post log record failures _ =>
    obtain ⟨-, hnodup⟩ := alone_middle halone
    exact ⟨hworld, hsource, fun r hr => hlive r (mem_middle hr), hnodup,
      fun r hr => hapart r (mem_middle hr), hrecorded, fun h0 => absurd h0 (Nat.succ_ne_zero _)⟩

theorem run_inv (R : Rules emit work start ended key world source planned good fine)
    {x x' : Exec W S J T K} (h : Run emit work start ended key limit x x')
    (hinv : Inv key world source good fine x) : Inv key world source good fine x' := by
  induction h with
  | refl => exact hinv
  | tail _ hs ih => exact step_inv R hs ih

-- A run that ends with no failure has made every job good that it was handed.
theorem Inv.all_good {stop : S → Prop} {x : Exec W S J T K} (h : Inv key world source good fine x)
    (hdone : x.Done stop) (h0 : x.failures = 0) : ∀ job ∈ x.handed, good x.world (key job) := by
  intro job hj
  obtain ⟨-, hpending, hrunning⟩ := hdone
  rw [Exec.handed, hpending, List.append_nil] at hj
  rcases h.accounted h0 job hj with hm | hm
  · simp [hrunning] at hm
  · exact h.recorded _ hm

end Runs

end VeStorage.Lib.Recorded
