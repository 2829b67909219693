import Mathlib.Logic.Relation
import Mathlib.Data.List.Basic

namespace VeStorage.Lib.Grouped

inductive Event (J : Type) where
  | start (job : J)
  | finish (job : J) (ok : Bool)

-- Jobs run group after group, at most `limit` of one group at a time.
structure Exec (W J : Type) where
  world : W
  groups : List (List J)
  pending : List J
  running : List (J × Option Bool)
  log : List (Event J)

variable {W J : Type}

def Exec.init (w : W) (groups : List (List J)) : Exec W J := ⟨w, groups, [], [], []⟩

def Exec.Done (x : Exec W J) : Prop := x.groups = [] ∧ x.pending = [] ∧ x.running = []

def Event.started : Event J → Option J
  | .start job => some job
  | .finish _ _ => none

def starts (log : List (Event J)) : List J := log.filterMap Event.started

def Finished (log : List (Event J)) (job : J) : Prop := ∃ ok, Event.finish job ok ∈ log

section Steps

variable (act : J → W → W → Bool → Prop) (limit : Nat)

inductive Step : Exec W J → Exec W J → Prop
  | launch (w groups job pending running log) (h : running.length < max limit 1) :
      Step ⟨w, groups, job :: pending, running, log⟩
        ⟨w, groups, pending, running ++ [(job, none)], log ++ [.start job]⟩
  | effect (w w' groups pending pre job ok post log) (h : act job w w' ok) :
      Step ⟨w, groups, pending, pre ++ (job, none) :: post, log⟩
        ⟨w', groups, pending, pre ++ (job, some ok) :: post, log⟩
  | finish (w groups pending pre job ok post log) :
      Step ⟨w, groups, pending, pre ++ (job, some ok) :: post, log⟩
        ⟨w, groups, pending, pre ++ post, log ++ [.finish job ok]⟩
  | next (w group groups log) :
      Step ⟨w, group :: groups, [], [], log⟩ ⟨w, groups, group, [], log⟩

abbrev Run : Exec W J → Exec W J → Prop := Relation.ReflTransGen (Step act limit)

end Steps

-- `[] :: groups` stands for the plan: the empty group in front is the one open at the start.
structure Inv (groups closed : List (List J)) (started : List J) (x : Exec W J) : Prop where
  split : [] :: groups = closed ++ (started ++ x.pending) :: x.groups
  starts_log : starts x.log = closed.flatten ++ started
  closed_done : ∀ job ∈ closed.flatten, Finished x.log job
  started_live : ∀ job ∈ started, job ∈ x.running.map Prod.fst ∨ Finished x.log job
  running_started : ∀ r ∈ x.running, r.1 ∈ started

def OrderedStart (groups : List (List J)) (before : List (Event J)) (job : J) : Prop :=
  ∃ closed current rest, [] :: groups = closed ++ current :: rest ∧ job ∈ current ∧
    ∀ earlier ∈ closed.flatten, Finished before earlier

def OrderedLog (groups : List (List J)) (log : List (Event J)) : Prop :=
  ∀ before job after, log = before ++ Event.start job :: after → OrderedStart groups before job

@[simp] theorem starts_append (l l' : List (Event J)) : starts (l ++ l') = starts l ++ starts l' :=
  List.filterMap_append

@[simp] theorem starts_start (job : J) : starts [Event.start job] = [job] := rfl

@[simp] theorem starts_finish (job : J) (ok : Bool) : starts [Event.finish job ok] = [] := rfl

theorem mem_starts {log : List (Event J)} {job : J} :
    job ∈ starts log ↔ Event.start job ∈ log := by
  simp only [starts, List.mem_filterMap]
  constructor
  · rintro ⟨e, he, hs⟩
    cases e with
    | start j =>
      cases hs
      exact he
    | finish j ok => cases hs
  · exact fun h => ⟨_, h, rfl⟩

theorem Finished.append {log : List (Event J)} {job : J} (h : Finished log job)
    (more : List (Event J)) : Finished (log ++ more) job := by
  obtain ⟨ok, hm⟩ := h
  exact ⟨ok, List.mem_append_left _ hm⟩

theorem OrderedLog.nil (groups : List (List J)) : OrderedLog groups [] := by
  intro before job after h
  simp at h

theorem OrderedLog.append_finish {groups : List (List J)} {log : List (Event J)}
    (h : OrderedLog groups log) (job : J) (ok : Bool) :
    OrderedLog groups (log ++ [.finish job ok]) := by
  intro before j after hl
  rcases List.eq_nil_or_concat after with rfl | ⟨after', e, rfl⟩
  · have := List.append_inj_right' hl rfl
    cases this
  · have hlog : log = before ++ Event.start j :: after' := by
      rw [List.concat_eq_append, ← List.cons_append, ← List.append_assoc] at hl
      exact List.append_inj_left' hl rfl
    exact h before j after' hlog

theorem OrderedLog.append_start {groups : List (List J)} {log : List (Event J)} {job : J}
    (h : OrderedLog groups log) (hjob : OrderedStart groups log job) :
    OrderedLog groups (log ++ [.start job]) := by
  intro before j after hl
  rcases List.eq_nil_or_concat after with rfl | ⟨after', e, rfl⟩
  · obtain ⟨rfl, he⟩ := List.append_inj' hl rfl
    cases he
    exact hjob
  · have hlog : log = before ++ Event.start j :: after' := by
      rw [List.concat_eq_append, ← List.cons_append, ← List.append_assoc] at hl
      exact List.append_inj_left' hl rfl
    exact h before j after' hlog

section Runs

variable {act : J → W → W → Bool → Prop} {limit : Nat} {groups : List (List J)}

theorem Inv.init (w : W) (groups : List (List J)) :
    Inv groups [] [] (Exec.init w groups) where
  split := rfl
  starts_log := rfl
  closed_done := by simp
  started_live := by simp
  running_started := by simp [Exec.init]

theorem step_inv {x x' : Exec W J} (h : Step act limit x x') {closed : List (List J)}
    {started : List J} (hinv : Inv groups closed started x) (hlog : OrderedLog groups x.log) :
    OrderedLog groups x'.log ∧ ∃ closed' started', Inv groups closed' started' x' := by
  obtain ⟨hsplit, hstarts, hclosed, hstarted, hrunning⟩ := hinv
  cases h with
  | launch w gs job pending running log _ =>
    have hsplit' : [] :: groups = closed ++ ((started ++ [job]) ++ pending) :: gs := by
      rw [List.append_assoc, List.singleton_append]
      exact hsplit
    refine ⟨hlog.append_start ⟨closed, _, gs, hsplit', by simp, hclosed⟩,
      closed, started ++ [job], hsplit', ?_, fun j hj => (hclosed j hj).append _, ?_, ?_⟩
    · rw [starts_append, hstarts, starts_start, List.append_assoc]
    · intro j hj
      rcases List.mem_append.mp hj with hj | hj
      · rcases hstarted j hj with h | h
        · left
          rw [List.map_append]
          exact List.mem_append_left _ h
        · exact .inr (h.append _)
      · obtain rfl := List.mem_singleton.mp hj
        left
        simp
    · intro r hr
      rcases List.mem_append.mp hr with hr | hr
      · exact List.mem_append_left _ (hrunning r hr)
      · obtain rfl := List.mem_singleton.mp hr
        simp
  | effect w w' gs pending pre job ok post log _ =>
    refine ⟨hlog, closed, started, hsplit, hstarts, hclosed, ?_, ?_⟩
    · simpa using hstarted
    · intro r hr
      simp only [List.mem_append, List.mem_cons] at hr
      rcases hr with hr | rfl | hr
      · exact hrunning r (by simp [hr])
      · exact hrunning (job, none) (by simp)
      · exact hrunning r (by simp [hr])
  | finish w gs pending pre job ok post log =>
    refine ⟨hlog.append_finish job ok, closed, started, hsplit, ?_,
      fun j hj => (hclosed j hj).append _, ?_, ?_⟩
    · rw [starts_append, hstarts, starts_finish, List.append_nil]
    · intro j hj
      rcases hstarted j hj with h | h
      · simp only [List.map_append, List.map_cons, List.mem_append, List.mem_cons] at h ⊢
        have hfin : j = job → Finished (log ++ [.finish job ok]) j := by
          rintro rfl
          exact ⟨ok, by simp⟩
        tauto
      · exact .inr (h.append _)
    · intro r hr
      refine hrunning r ?_
      simp only [List.mem_append, List.mem_cons] at hr ⊢
      tauto
  | next w group gs log =>
    refine ⟨hlog, closed ++ [started], [], ?_, ?_, ?_, by simp, by simp⟩
    · simpa using hsplit
    · simpa using hstarts
    · intro j hj
      simp only [List.flatten_append, List.mem_append] at hj
      rcases hj with hj | hj
      · exact hclosed j hj
      · simpa using hstarted j (by simpa using hj)

theorem run_inv {w : W} {x : Exec W J} (h : Run act limit (Exec.init w groups) x) :
    OrderedLog groups x.log ∧ ∃ closed started, Inv groups closed started x := by
  induction h with
  | refl => exact ⟨OrderedLog.nil groups, [], [], Inv.init w groups⟩
  | tail _ hs ih =>
    obtain ⟨hlog, closed, started, hinv⟩ := ih
    exact step_inv hs hinv hlog

theorem run_starts {w : W} {x : Exec W J} (h : Run act limit (Exec.init w groups) x) :
    ∃ rest, groups.flatten = starts x.log ++ rest := by
  obtain ⟨-, closed, started, hinv⟩ := run_inv h
  refine ⟨x.pending ++ x.groups.flatten, ?_⟩
  have := congrArg List.flatten hinv.split
  rw [hinv.starts_log]
  simpa using this

theorem run_starts_done {w : W} {x : Exec W J} (h : Run act limit (Exec.init w groups) x)
    (hd : x.Done) : starts x.log = groups.flatten ∧ ∀ job ∈ groups.flatten, Finished x.log job := by
  obtain ⟨-, closed, started, hinv⟩ := run_inv h
  obtain ⟨hg, hp, hr⟩ := hd
  have hsplit := congrArg List.flatten hinv.split
  rw [hg, hp] at hsplit
  have hflat : groups.flatten = closed.flatten ++ started := by simpa using hsplit
  refine ⟨by rw [hinv.starts_log, hflat], fun job hj => ?_⟩
  rw [hflat] at hj
  rcases List.mem_append.mp hj with hj | hj
  · exact hinv.closed_done job hj
  · simpa [hr] using hinv.started_live job hj

theorem run_world {P : W → Prop}
    (hact : ∀ job ∈ groups.flatten, ∀ w w' ok, P w → act job w w' ok → P w') {w : W}
    {x : Exec W J} (h : Run act limit (Exec.init w groups) x) (hw : P w) : P x.world := by
  induction h with
  | refl => exact hw
  | @tail y z hr hs ih =>
    cases hs with
    | launch => exact ih
    | finish => exact ih
    | next => exact ih
    | effect w w' gs pending pre job ok post log ha =>
      obtain ⟨-, closed, started, hinv⟩ := run_inv hr
      have hstarted : job ∈ started := hinv.running_started (job, none) (by simp)
      have hflat := congrArg List.flatten hinv.split
      refine hact job ?_ w w' ok ih ha
      simp only [List.flatten_cons, List.nil_append, List.flatten_append] at hflat
      rw [hflat]
      simp [hstarted]

-- What a job's success brings about stays true when every other job keeps it.
theorem run_effects {Q : J → W → Prop} (hdone : ∀ job w w', act job w w' true → Q job w')
    (hkept : ∀ job job' w w' ok, act job' w w' ok → Q job w → Q job w') {w : W} {x : Exec W J}
    (h : Run act limit (Exec.init w groups) x) :
    (∀ job, (job, some true) ∈ x.running → Q job x.world) ∧
      ∀ job, Event.finish job true ∈ x.log → Q job x.world := by
  induction h with
  | refl => exact ⟨fun job hr => (by cases hr), fun job hl => (by cases hl)⟩
  | tail _ hs ih =>
    obtain ⟨hrunning, hlog⟩ := ih
    cases hs with
    | launch w gs job pending running log _ =>
      refine ⟨fun j hj => hrunning j ?_, fun j hj => hlog j ?_⟩
      · simpa using hj
      · simpa using hj
    | effect w w' gs pending pre job ok post log ha =>
      refine ⟨fun j hj => ?_, fun j hj => hkept j job w w' ok ha (hlog j hj)⟩
      rcases List.mem_append.mp hj with hpre | hpost
      · exact hkept j job w w' ok ha (hrunning j (List.mem_append_left _ hpre))
      · rcases List.mem_cons.mp hpost with he | hpost
        · obtain ⟨rfl, hok⟩ := Prod.mk.inj he
          obtain rfl := Option.some.inj hok
          exact hdone j w w' ha
        · exact hkept j job w w' ok ha (hrunning j (List.mem_append_right _ (List.mem_cons_of_mem _ hpost)))
    | finish w gs pending pre job ok post log =>
      refine ⟨fun j hj => hrunning j ?_, fun j hj => ?_⟩
      · simp only [List.mem_append, List.mem_cons] at hj ⊢
        tauto
      · rcases List.mem_append.mp hj with hj | hj
        · exact hlog j hj
        · cases List.mem_singleton.mp hj
          exact hrunning job (List.mem_append_right _ List.mem_cons_self)
    | next => exact ⟨fun j hj => (by cases hj), hlog⟩

theorem run_beside {f : J → W → W} (hf : ∀ job w, act job w (f job w) true)
    {side : List (J × Option Bool)} (hside : side.length < max limit 1) (w : W)
    (gs : List (List J)) (pending rest : List J) (log : List (Event J)) :
    ∃ log', Run act limit ⟨w, gs, pending ++ rest, side, log⟩
      ⟨pending.foldl (fun w job => f job w) w, gs, rest, side, log'⟩ := by
  induction pending generalizing w log with
  | nil => exact ⟨log, .refl⟩
  | cons job pending ih =>
    obtain ⟨log', hrun⟩ := ih (f job w) (log ++ [.start job] ++ [.finish job true])
    refine ⟨log', ?_⟩
    have hlaunch : Step act limit ⟨w, gs, job :: (pending ++ rest), side, log⟩
        ⟨w, gs, pending ++ rest, side ++ [(job, none)], log ++ [.start job]⟩ :=
      .launch w gs job (pending ++ rest) side log hside
    have heffect : Step act limit
        ⟨w, gs, pending ++ rest, side ++ [(job, none)], log ++ [.start job]⟩
        ⟨f job w, gs, pending ++ rest, side ++ [(job, some true)], log ++ [.start job]⟩ :=
      .effect w (f job w) gs _ side job true [] _ (hf job w)
    have hfinish : Step act limit
        ⟨f job w, gs, pending ++ rest, side ++ [(job, some true)], log ++ [.start job]⟩
        ⟨f job w, gs, pending ++ rest, side ++ [], log ++ [.start job] ++ [.finish job true]⟩ :=
      .finish (f job w) gs _ side job true [] _
    rw [List.append_nil] at hfinish
    exact .head hlaunch (.head heffect (.head hfinish hrun))

theorem run_group {f : J → W → W} (hf : ∀ job w, act job w (f job w) true) (w : W)
    (gs : List (List J)) (pending rest : List J) (log : List (Event J)) :
    ∃ log', Run act limit ⟨w, gs, pending ++ rest, [], log⟩
      ⟨pending.foldl (fun w job => f job w) w, gs, rest, [], log'⟩ :=
  run_beside hf (Nat.lt_of_lt_of_le Nat.one_pos (Nat.le_max_right limit 1)) w gs pending rest log

theorem run_groups {f : J → W → W} (hf : ∀ job w, act job w (f job w) true) (w : W)
    (gs later : List (List J)) (log : List (Event J)) :
    ∃ log', Run act limit ⟨w, gs ++ later, [], [], log⟩
      ⟨gs.flatten.foldl (fun w job => f job w) w, later, [], [], log'⟩ := by
  induction gs generalizing w log with
  | nil => exact ⟨log, .refl⟩
  | cons g gs ih =>
    obtain ⟨log1, h1⟩ := @run_group _ _ _ limit _ hf w (gs ++ later) g [] log
    obtain ⟨log2, h2⟩ := ih (g.foldl (fun w job => f job w) w) log1
    rw [List.append_nil] at h1
    refine ⟨log2, ?_⟩
    rw [List.flatten_cons, List.foldl_append]
    exact .head (.next w g (gs ++ later) log) (h1.trans h2)

theorem run_exists {f : J → W → W} (hf : ∀ job w, act job w (f job w) true) (w : W)
    (gs : List (List J)) (log : List (Event J)) :
    ∃ log', Run act limit ⟨w, gs, [], [], log⟩
      ⟨gs.flatten.foldl (fun w job => f job w) w, [], [], [], log'⟩ := by
  simpa using run_groups hf w gs [] log

theorem run_pending {pending : List J} (hact : ∀ job ∈ pending, ∀ w, ∃ w', act job w w' true) (w : W)
    (gs : List (List J)) (log : List (Event J)) :
    ∃ w' log', Run act limit ⟨w, gs, pending, [], log⟩ ⟨w', gs, [], [], log'⟩ ∧
      ∀ job, Event.finish job false ∈ log' → Event.finish job false ∈ log := by
  induction pending generalizing w log with
  | nil => exact ⟨w, log, .refl, fun _ h => h⟩
  | cons job pending ih =>
    obtain ⟨hjob, hrest⟩ := List.forall_mem_cons.mp hact
    obtain ⟨w1, hw1⟩ := hjob w
    obtain ⟨w2, log2, hrun, hok⟩ := ih hrest w1 (log ++ [.start job] ++ [.finish job true])
    have hlaunch : Step act limit ⟨w, gs, job :: pending, [], log⟩
        ⟨w, gs, pending, [(job, none)], log ++ [.start job]⟩ :=
      .launch w gs job pending [] log (Nat.lt_of_lt_of_le Nat.one_pos (Nat.le_max_right limit 1))
    have heffect : Step act limit ⟨w, gs, pending, [(job, none)], log ++ [.start job]⟩
        ⟨w1, gs, pending, [(job, some true)], log ++ [.start job]⟩ :=
      .effect w w1 gs pending [] job true [] _ hw1
    have hfinish : Step act limit ⟨w1, gs, pending, [(job, some true)], log ++ [.start job]⟩
        ⟨w1, gs, pending, [], log ++ [.start job] ++ [.finish job true]⟩ :=
      .finish w1 gs pending [] job true [] _
    refine ⟨w2, log2, .head hlaunch (.head heffect (.head hfinish hrun)), fun j hj => ?_⟩
    simpa using hok j hj

theorem run_done {groups : List (List J)} (hact : ∀ job ∈ groups.flatten, ∀ w, ∃ w', act job w w' true) (w : W)
    (log : List (Event J)) :
    ∃ x, Run act limit ⟨w, groups, [], [], log⟩ x ∧ x.Done ∧
      ∀ job, Event.finish job false ∈ x.log → Event.finish job false ∈ log := by
  induction groups generalizing w log with
  | nil => exact ⟨_, .refl, ⟨rfl, rfl, rfl⟩, fun _ h => h⟩
  | cons g gs ih =>
    rw [List.flatten_cons] at hact
    obtain ⟨hg, hgs⟩ := List.forall_mem_append.mp hact
    obtain ⟨w1, log1, h1, hok1⟩ := @run_pending _ _ _ limit _ hg w gs log
    obtain ⟨x, h2, hdone, hok2⟩ := ih hgs w1 log1
    exact ⟨x, .head (.next w g gs log) (h1.trans h2), hdone, fun job h => hok1 job (hok2 job h)⟩

end Runs

end VeStorage.Lib.Grouped
