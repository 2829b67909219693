import Mathlib.Logic.Relation
import Mathlib.Data.List.Perm.Basic
import Mathlib.Data.List.Nodup
import Mathlib.Data.List.Perm.Subperm

namespace VeStorage.Lib.Worklist

variable {P : Type} [DecidableEq P]

structure State (P : Type) where
  pending : List P
  seen : List P
  inFlight : List P

def State.init (root : P) : State P := ⟨[root], [], []⟩

def State.Done (w : State P) : Prop := w.pending = [] ∧ w.inFlight = []

variable (children : P → List P) (limit : Nat)

-- Places are taken off a stack once each, and finish in any order.
inductive Step : State P → List P → State P → Prop
  | launch (p pending seen inFlight) (hroom : inFlight.length < limit) (hnew : p ∉ seen) :
      Step ⟨p :: pending, seen, inFlight⟩ [] ⟨pending, p :: seen, inFlight ++ [p]⟩
  | skip (p pending seen inFlight) (hroom : inFlight.length < limit) (hseen : p ∈ seen) :
      Step ⟨p :: pending, seen, inFlight⟩ [] ⟨pending, seen, inFlight⟩
  | finish (pending seen before p after)
      (hwait : pending = [] ∨ limit ≤ (before ++ p :: after).length) :
      Step ⟨pending, seen, before ++ p :: after⟩ [p]
        ⟨((children p).filter (· ∉ seen)).reverse ++ pending, seen, before ++ after⟩

def Reach (root p : P) : Prop := Relation.ReflTransGen (fun a b => b ∈ children a) root p

def State.Known (w : State P) (p : P) : Prop := p ∈ w.seen ∨ p ∈ w.pending

structure Inv (root : P) (w : State P) (scanned : List P) : Prop where
  nodup : (scanned ++ w.inFlight).Nodup
  seen : ∀ p, p ∈ w.seen ↔ p ∈ scanned ∨ p ∈ w.inFlight
  start : w.Known root
  child : ∀ p ∈ scanned, ∀ c ∈ children p, w.Known c
  reach : ∀ p, w.Known p → Reach children root p

variable {children limit} {root p : P} {w w' : State P} {scanned out : List P}

omit [DecidableEq P] in
theorem Inv.init : Inv children root (.init root) [] where
  nodup := List.nodup_nil
  seen := by simp [State.init]
  start := .inr List.mem_cons_self
  child := nofun
  reach p hp := by
    rcases hp with hp | hp
    · cases hp
    · rw [List.mem_singleton.mp hp]
      exact .refl

theorem Inv.step (hi : Inv children root w scanned) (h : Step children limit w out w') :
    Inv children root w' (scanned ++ out) := by
  cases h with
  | launch p pending seen inFlight hroom hnew =>
    have hknown : ∀ q, State.Known ⟨pending, p :: seen, inFlight ++ [p]⟩ q ↔
        State.Known ⟨p :: pending, seen, inFlight⟩ q := by
      intro q
      simp only [State.Known, List.mem_cons]
      tauto
    rw [List.append_nil]
    refine ⟨?_, fun q => ?_, (hknown root).mpr hi.start, fun q hq c hc => (hknown c).mpr (hi.child q hq c hc),
      fun q hq => hi.reach q ((hknown q).mp hq)⟩
    · dsimp only
      rw [← List.append_assoc]
      refine List.Nodup.append hi.nodup (List.nodup_singleton p) ?_
      rw [List.disjoint_singleton]
      exact fun hp => hnew ((hi.seen p).mpr (List.mem_append.mp hp))
    · have hq := hi.seen q
      simp only [List.mem_cons, List.mem_append, List.not_mem_nil, or_false] at hq ⊢
      tauto
  | skip p pending seen inFlight hroom hseen =>
    have hknown : ∀ q, State.Known ⟨p :: pending, seen, inFlight⟩ q → State.Known ⟨pending, seen, inFlight⟩ q := by
      rintro q (hq | hq)
      · exact .inl hq
      · rcases List.mem_cons.mp hq with rfl | hq
        · exact .inl hseen
        · exact .inr hq
    rw [List.append_nil]
    refine ⟨hi.nodup, hi.seen, hknown root hi.start, fun q hq c hc => hknown c (hi.child q hq c hc),
      fun q hq => hi.reach q (hq.imp id (List.mem_cons_of_mem _))⟩
  | finish pending seen before p after hwait =>
    have hp : p ∈ seen := (hi.seen p).mpr (.inr (by simp))
    have hknown : ∀ q, State.Known ⟨pending, seen, before ++ p :: after⟩ q → State.Known
        ⟨((children p).filter (· ∉ seen)).reverse ++ pending, seen, before ++ after⟩ q := fun q hq =>
      hq.imp id (List.mem_append_right _)
    refine ⟨?_, fun q => ?_, hknown root hi.start, fun q hq c hc => ?_, fun q hq => ?_⟩
    · have hperm : (scanned ++ [p] ++ (before ++ after)).Perm (scanned ++ (before ++ p :: after)) := by
        rw [List.append_assoc]
        exact (@List.perm_middle P p before after).symm.append_left scanned
      exact hperm.nodup_iff.mpr hi.nodup
    · have hq := hi.seen q
      simp only [List.mem_append, List.mem_cons, List.not_mem_nil, or_false] at hq ⊢
      tauto
    · rcases List.mem_append.mp hq with hq | hq
      · exact hknown c (hi.child q hq c hc)
      · rw [List.mem_singleton.mp hq] at hc
        by_cases hseen : c ∈ seen
        · exact .inl hseen
        · refine .inr (List.mem_append_left _ (List.mem_reverse.mpr (List.mem_filter.mpr ⟨hc, ?_⟩)))
          exact decide_eq_true hseen
    · rcases hq with hq | hq
      · exact hi.reach q (.inl hq)
      · rcases List.mem_append.mp hq with hq | hq
        · have hchild := (List.mem_filter.mp (List.mem_reverse.mp hq)).1
          exact (hi.reach p (.inl hp)).tail hchild
        · exact hi.reach q (.inr hq)

omit [DecidableEq P] in
-- At the end every place that can be reached has been scanned, once.
theorem Inv.done (hi : Inv children root w scanned) (hdone : w.Done) :
    scanned.Nodup ∧ ∀ p, p ∈ scanned ↔ Reach children root p := by
  obtain ⟨hpending, hflight⟩ := hdone
  have hseen : ∀ p, w.Known p ↔ p ∈ scanned := by
    intro p
    rw [State.Known, hi.seen p, hpending, hflight]
    simp
  refine ⟨List.Nodup.of_append_left hi.nodup, fun p => ⟨fun hp => hi.reach p ((hseen p).mpr hp), fun hp => ?_⟩⟩
  induction hp with
  | refl => exact (hseen root).mp hi.start
  | tail _ hchild ih => exact (hseen _).mp (hi.child _ ih _ hchild)

omit [DecidableEq P] in
theorem reach_congr {children' : P → List P} (h : ∀ a b, b ∈ children a ↔ b ∈ children' a) :
    Reach children root p ↔ Reach children' root p :=
  ⟨Relation.ReflTransGen.mono (fun a b => (h a b).mp) root p,
    Relation.ReflTransGen.mono (fun a b => (h a b).mpr) root p⟩

section Runs

variable (children limit) in
inductive Run (root : P) : Nat → State P → List P → Prop
  | start : Run root 0 (.init root) []
  | step {n : Nat} {w w' : State P} {scanned out : List P} (h : Run root n w scanned)
      (hs : Step children limit w out w') : Run root (n + 1) w' (scanned ++ out)

variable {n : Nat}

theorem Run.inv (h : Run children limit root n w scanned) : Inv children root w scanned := by
  induction h with
  | start => exact .init
  | step h hs ih => exact ih.step hs

-- Only a finished list has no step.
theorem progress (hlimit : 0 < limit) (h : ¬ w.Done) : ∃ out w', Step children limit w out w' := by
  obtain ⟨pending, seen, inFlight⟩ := w
  by_cases hroom : inFlight.length < limit
  · cases pending with
    | nil =>
      cases inFlight with
      | nil => exact absurd ⟨rfl, rfl⟩ h
      | cons p rest => exact ⟨_, _, .finish [] seen [] p rest (.inl rfl)⟩
    | cons p pending =>
      by_cases hseen : p ∈ seen
      · exact ⟨_, _, .skip p pending seen inFlight hroom hseen⟩
      · exact ⟨_, _, .launch p pending seen inFlight hroom hseen⟩
  · cases inFlight with
    | nil => exact absurd hlimit hroom
    | cons p rest => exact ⟨_, _, .finish pending seen [] p rest (.inr (Nat.not_lt.mp hroom))⟩

-- The steps that are left, at most `width` children each and `size` places in all.
def cost (size width : Nat) (w : State P) (scanned : List P) : Nat :=
  (size - (scanned.length + w.inFlight.length)) * (width + 2) + w.inFlight.length * (width + 1) +
    w.pending.length

structure Within (children : P → List P) (root : P) (places : List P) (width : Nat) : Prop where
  places : ∀ p, Reach children root p → p ∈ places
  width : ∀ p, Reach children root p → (children p).length ≤ width

variable {places : List P} {width : Nat}

omit [DecidableEq P] in
theorem Inv.count (hi : Inv children root w scanned) (hin : Within children root places width) :
    scanned.length + w.inFlight.length ≤ places.length := by
  rw [← List.length_append]
  refine (List.subperm_of_subset hi.nodup fun p hp => hin.places p (hi.reach p (.inl ?_))).length_le
  exact (hi.seen p).mpr (List.mem_append.mp hp)

theorem step_cost (hin : Within children root places width) (hi : Inv children root w scanned)
    (hs : Step children limit w out w') :
    cost places.length width w' (scanned ++ out) < cost places.length width w scanned := by
  have hcount' := (hi.step hs).count hin
  cases hs with
  | launch p pending seen inFlight hroom hnew =>
    simp only [List.append_nil, List.length_append, List.length_cons, List.length_nil] at hcount'
    simp only [cost, List.append_nil, List.length_append, List.length_cons, List.length_nil]
    obtain ⟨k, hk⟩ := Nat.exists_eq_add_of_le hcount'
    have hbefore : places.length - (scanned.length + inFlight.length) = k + 1 := by omega
    have hafter : places.length - (scanned.length + (inFlight.length + (0 + 1))) = k := by omega
    rw [hbefore, hafter, Nat.succ_mul, @Nat.succ_mul k]
    omega
  | skip p pending seen inFlight hroom hseen =>
    simp only [cost, List.append_nil, List.length_cons]
    omega
  | finish pending seen before p after hwait =>
    have hp : Reach children root p := hi.reach p (.inl ((hi.seen p).mpr (.inr (by simp))))
    have hwidth := hin.width p hp
    have hfilter := List.length_filter_le (fun q => decide (q ∉ seen)) (children p)
    simp only [cost, List.length_append, List.length_reverse, List.length_cons, List.length_nil]
    have hcount : scanned.length + (0 + 1) + (before.length + after.length) =
        scanned.length + (before.length + (after.length + 1)) := by omega
    have hflight : (before.length + (after.length + 1)) * (width + 1) =
        (before.length + after.length) * (width + 1) + (width + 1) := by
      rw [← Nat.add_assoc, Nat.succ_mul]
    rw [hcount, hflight]
    omega

theorem Run.length_le (hin : Within children root places width) (h : Run children limit root n w scanned) :
    n + cost places.length width w scanned ≤ places.length * (width + 2) + 1 := by
  induction h with
  | start => simp [cost, State.init]
  | step h hs ih =>
    have hstep := step_cost hin h.inv hs
    omega

end Runs

section Visit

variable {E : Type} (scan : P → Option (Except E (List P)))

-- One place after the other; what is found goes on the stack, seen or not.
def visit : Nat → List P → List P → Option (Except E (List P))
  | 0, _, _ => none
  | _ + 1, [], _ => some (.ok [])
  | fuel + 1, p :: pending, seen =>
      if p ∈ seen then visit fuel pending seen
      else match scan p with
        | none => none
        | some (.error e) => some (.error e)
        | some (.ok found) =>
            (visit fuel (found.reverse ++ pending) (p :: seen)).map fun rest => rest.map (p :: ·)

def found (p : P) : List P := ((scan p).bind Except.toOption).getD []

variable {scan} {pending seen : List P} {fuel width : Nat} {places : List P}

omit [DecidableEq P] in
theorem Inv.of_known (hi : Inv children root w scanned) (hseen : w'.seen = w.seen)
    (hflight : w'.inFlight = w.inFlight) (hknown : ∀ q, w'.Known q ↔ w.Known q) :
    Inv children root w' scanned where
  nodup := by
    rw [hflight]
    exact hi.nodup
  seen p := by
    rw [hseen, hflight]
    exact hi.seen p
  start := (hknown root).mpr hi.start
  child p hp c hc := (hknown c).mpr (hi.child p hp c hc)
  reach p hp := hi.reach p ((hknown p).mp hp)

theorem Inv.visit (hi : Inv children root ⟨p :: pending, seen, []⟩ scanned) (hnew : p ∉ seen) :
    Inv children root ⟨(children p).reverse ++ pending, p :: seen, []⟩ (scanned ++ [p]) := by
  have hlaunch : Step children 1 ⟨p :: pending, seen, []⟩ [] ⟨pending, p :: seen, [p]⟩ :=
    .launch p pending seen [] Nat.one_pos hnew
  have hfinish : Step children 1 ⟨pending, p :: seen, [p]⟩ [p]
      ⟨((children p).filter (· ∉ p :: seen)).reverse ++ pending, p :: seen, []⟩ :=
    .finish pending (p :: seen) [] p [] (.inr (Nat.le_refl 1))
  have hfinished := (hi.step hlaunch).step hfinish
  rw [List.append_nil] at hfinished
  refine hfinished.of_known rfl rfl fun q => ?_
  by_cases hq : q ∈ p :: seen
  · exact iff_of_true (.inl hq) (.inl hq)
  · simp only [State.Known, List.mem_append, List.mem_reverse, List.mem_filter, hq, not_false_eq_true,
      decide_true, and_true]

theorem Inv.visit_cost (hin : Within children root places width)
    (hi : Inv children root ⟨p :: pending, seen, []⟩ scanned) (hnew : p ∉ seen) :
    cost places.length width ⟨(children p).reverse ++ pending, p :: seen, []⟩ (scanned ++ [p]) <
      cost places.length width ⟨p :: pending, seen, []⟩ scanned := by
  have hcount := (hi.visit hnew).count hin
  have hp : Reach children root p := hi.reach p (.inr List.mem_cons_self)
  have hwidth := hin.width p hp
  simp only [List.length_append, List.length_cons, List.length_nil] at hcount
  simp only [cost, List.length_append, List.length_reverse, List.length_cons, List.length_nil]
  obtain ⟨k, hk⟩ := Nat.exists_eq_add_of_le hcount
  have hbefore : places.length - (scanned.length + 0) = k + 1 := by omega
  have hafter : places.length - (scanned.length + (0 + 1) + 0) = k := by omega
  rw [hbefore, hafter, Nat.succ_mul]
  omega

theorem visit_sound (h : visit scan fuel pending seen = some (.ok out))
    (hi : Inv (found scan) root ⟨pending, seen, []⟩ scanned) :
    (∃ w, w.Done ∧ Inv (found scan) root w (scanned ++ out)) ∧ ∀ p ∈ out, scan p = some (.ok (found scan p)) := by
  induction fuel generalizing pending seen scanned out with
  | zero => cases h
  | succ fuel ih =>
    cases pending with
    | nil =>
      rw [visit] at h
      cases h
      rw [List.append_nil]
      exact ⟨⟨_, ⟨rfl, rfl⟩, hi⟩, fun p hp => by cases hp⟩
    | cons p pending =>
      rw [visit] at h
      by_cases hp : p ∈ seen
      · rw [if_pos hp] at h
        have hskip : Step (found scan) 1 ⟨p :: pending, seen, []⟩ [] ⟨pending, seen, []⟩ :=
          .skip p pending seen [] Nat.one_pos hp
        have hskipped := hi.step hskip
        rw [List.append_nil] at hskipped
        exact ih h hskipped
      · rw [if_neg hp] at h
        cases hscan : scan p with
        | none =>
          rw [hscan] at h
          cases h
        | some result =>
        rw [hscan] at h
        cases result with
        | error e => cases h
        | ok places =>
          have hfound : found scan p = places := by rw [found, hscan]; rfl
          obtain ⟨rest, hrest, hout⟩ := Option.map_eq_some_iff.mp h
          cases rest with
          | error e => cases hout
          | ok rest =>
            cases hout
            have hvisit := hi.visit hp
            rw [hfound] at hvisit
            obtain ⟨hdone, hok⟩ := ih hrest hvisit
            rw [List.append_assoc] at hdone
            refine ⟨hdone, fun q hq => ?_⟩
            rcases List.mem_cons.mp hq with rfl | hq
            · rw [hscan, hfound]
            · exact hok q hq

-- Each place is scanned once, and all that can be reached are.
theorem visit_complete (h : visit scan fuel [root] [] = some (.ok out)) :
    out.Nodup ∧ (∀ p, p ∈ out ↔ Reach (found scan) root p) ∧ ∀ p ∈ out, scan p = some (.ok (found scan p)) := by
  obtain ⟨⟨w, hdone, hi⟩, hok⟩ := visit_sound h (.init : Inv (found scan) root (.init root) [])
  obtain ⟨hnodup, hreach⟩ := hi.done hdone
  exact ⟨hnodup, hreach, hok⟩

theorem visit_of_fuel (hin : Within (found scan) root places width)
    (hi : Inv (found scan) root ⟨pending, seen, []⟩ scanned)
    (hok : ∀ p, Reach (found scan) root p → scan p = some (.ok (found scan p)))
    (hfuel : cost places.length width ⟨pending, seen, []⟩ scanned < fuel) :
    ∃ out, visit scan fuel pending seen = some (.ok out) := by
  induction fuel generalizing pending seen scanned with
  | zero => cases hfuel
  | succ fuel ih =>
    cases pending with
    | nil =>
      rw [visit]
      exact ⟨[], rfl⟩
    | cons p pending =>
      rw [visit]
      by_cases hp : p ∈ seen
      · rw [if_pos hp]
        have hskip : Step (found scan) 1 ⟨p :: pending, seen, []⟩ [] ⟨pending, seen, []⟩ :=
          .skip p pending seen [] Nat.one_pos hp
        have hcost := step_cost hin hi hskip
        have hskipped := hi.step hskip
        rw [List.append_nil] at hskipped hcost
        exact ih hskipped (by omega)
      · have hless := hi.visit_cost hin hp
        obtain ⟨rest, hrest⟩ := ih (hi.visit hp) (by omega)
        rw [if_neg hp, hok p (hi.reach p (.inr List.mem_cons_self))]
        dsimp only
        rw [hrest]
        exact ⟨p :: rest, rfl⟩

end Visit

end VeStorage.Lib.Worklist
