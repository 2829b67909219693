import VeStorage.Lib.Walk
import VeStorage.Lib.Sorted
import Mathlib.Algebra.Order.BigOperators.Group.Finset

namespace VeStorage.Lib.Hierarchy
open Walk (isDirect commonPrefix)

variable {I : Type} (key : I → Text) (delimiter : Char)

-- What a delimiter listing of `pre` returns: direct items, and each common prefix once.
structure Answer (world : Finset I) (pre : Text) (entries : List I) (children : List Text) : Prop where
  entries_nodup : entries.Nodup
  children_nodup : children.Nodup
  mem_entries : ∀ i, i ∈ entries ↔
    i ∈ world ∧ pre <+: key i ∧ isDirect (some delimiter) pre (key i) = true
  mem_children : ∀ q, q ∈ children ↔ ∃ i ∈ world, pre <+: key i ∧
    isDirect (some delimiter) pre (key i) = false ∧ commonPrefix (some delimiter) pre (key i) = q

-- The stack of prefixes has its top in front.
structure State (I : Type) where
  world : Finset I
  pending : List Text
  seen : List Text
  inFlight : List Text
  handed : List I

def State.init (items : Finset I) (root : Text) : State I := ⟨items, [root], [], [], []⟩

def State.Done (x : State I) : Prop := x.pending = [] ∧ x.inFlight = []

def pushChildren (seen children pending : List Text) : List Text :=
  (children.filter (· ∉ seen)).reverse ++ pending

variable (scan : Finset I → Text → List I → List Text → Prop) (limit : Nat) (removes : Bool)

-- With `removes` the consumer deletes some of the items it was handed.
inductive Step [DecidableEq I] : State I → State I → Prop
  | visit (world p pending seen inFlight handed) (hnew : p ∉ seen)
      (h : inFlight.length < max limit 1) :
      Step ⟨world, p :: pending, seen, inFlight, handed⟩
        ⟨world, pending, p :: seen, inFlight ++ [p], handed⟩
  | skip (world p pending seen inFlight handed) (hseen : p ∈ seen) :
      Step ⟨world, p :: pending, seen, inFlight, handed⟩ ⟨world, pending, seen, inFlight, handed⟩
  | scanned (world pending seen before p after handed entries children)
      (h : scan world p entries children) :
      Step ⟨world, pending, seen, before ++ p :: after, handed⟩
        ⟨world, pushChildren seen children pending, seen, before ++ after, handed ++ entries⟩
  | remove (world pending seen inFlight handed i) (hr : removes = true) (hi : i ∈ handed)
      (hw : i ∈ world) :
      Step ⟨world, pending, seen, inFlight, handed⟩ ⟨world.erase i, pending, seen, inFlight, handed⟩

inductive Runs [DecidableEq I] : Nat → State I → State I → Prop
  | refl (x) : Runs 0 x x
  | tail (n x y z) (h : Runs n x y) (hs : Step scan limit removes y z) : Runs (n + 1) x z

def State.walk (x : State I) : Walk.State I := ⟨x.pending, x.seen, x.inFlight.map fun p => ⟨p, [], false⟩⟩

structure Inv (items : Finset I) (root : Text) (x : State I) : Prop where
  walk : Walk.Inv key (some delimiter) items x.world root x.walk x.handed
  seen_nodup : x.seen.Nodup
  known : ∀ p, x.walk.Known p → p = root ∨ ∃ i ∈ items, p <+: key i
  removed : removes = false → x.world = items

variable {key delimiter scan limit removes} {items world : Finset I} {root p : Text}

theorem init_inv : Inv key delimiter removes items root (State.init items root) where
  walk := Walk.Inv.init items root
  seen_nodup := List.nodup_nil
  known := fun p hp => .inl (by simpa [State.init, State.walk, Walk.State.Known] using hp)
  removed := fun _ => rfl

section Scanned

variable {pending seen before after children : List Text} {handed entries : List I}

noncomputable def under (key : I → Text) (world : Finset I) (pre : Text) : List I :=
  world.toList.filter fun i => decide (pre <+: key i)

theorem mem_under {i : I} : i ∈ under key world p ↔ i ∈ world ∧ p <+: key i := by
  simp [under]

theorem under_page (world : Finset I) (p : Text) :
    Walk.Page key world p [] (under key world p) true where
  nodup := (Finset.nodup_toList world).filter _
  mem := fun _ hi => ⟨(mem_under.mp hi).1, (mem_under.mp hi).2, List.not_mem_nil⟩
  complete := fun _ _ hi hp => .inr (mem_under.mpr ⟨hi, hp⟩)

theorem Answer.entries_perm (h : Answer key delimiter world p entries children) :
    entries.Perm ((⟨p, [] ++ under key world p, true⟩ : Walk.Scan I).entries key (some delimiter)) := by
  refine (List.perm_ext_iff_of_nodup h.entries_nodup ?_).mpr fun i => ?_
  · exact ((Finset.nodup_toList world).filter _).filter _
  · rw [h.mem_entries, Walk.Scan.entries, List.mem_filter, List.nil_append, mem_under, and_assoc]

theorem Answer.children_iff (h : Answer key delimiter world p entries children) (q : Text) :
    q ∈ children ↔
      q ∈ (⟨p, [] ++ under key world p, true⟩ : Walk.Scan I).children key (some delimiter) := by
  rw [h.mem_children, Walk.Scan.children, List.mem_map]
  constructor
  · rintro ⟨i, hi, hp, hdir, rfl⟩
    exact ⟨i, List.mem_filter.mpr ⟨by simpa using mem_under.mpr ⟨hi, hp⟩, by simp [hdir]⟩, rfl⟩
  · rintro ⟨i, hi, rfl⟩
    obtain ⟨hm, hdir⟩ := List.mem_filter.mp hi
    obtain ⟨hi, hp⟩ := mem_under.mp hm
    exact ⟨i, hi, hp, by simpa using hdir, rfl⟩

theorem Answer.child_prefix (h : Answer key delimiter world p entries children) {q : Text}
    (hq : q ∈ children) : ∃ i ∈ world, q <+: key i := by
  obtain ⟨i, hi, hp, hdir, rfl⟩ := (h.mem_children q).mp hq
  exact ⟨i, hi, (Walk.commonPrefix_childOf hp hdir).2⟩

theorem mem_pushChildren {seen children pending : List Text} {q : Text} :
    q ∈ pushChildren seen children pending ↔ (q ∈ children ∧ q ∉ seen) ∨ q ∈ pending := by
  simp [pushChildren]

theorem Inv.scanned (h : Inv key delimiter removes items root
      ⟨world, pending, seen, before ++ p :: after, handed⟩)
    (ha : Answer key delimiter world p entries children) :
    Inv key delimiter removes items root
      ⟨world, pushChildren seen children pending, seen, before ++ after, handed ++ entries⟩ where
  walk := by
    have hwalk := h.walk
    simp only [State.walk, List.map_append, List.map_cons] at hwalk ⊢
    have hpage := hwalk.page (under_page world p)
    have hfound : ∀ q, q ∈ children.reverse ↔ _ := fun q =>
      List.mem_reverse.trans (ha.children_iff q)
    have htake := hpage.take rfl ha.entries_perm hfound
    rw [List.filter_reverse] at htake
    exact htake
  seen_nodup := h.seen_nodup
  known := by
    rintro q (hq | hq)
    · exact h.known q (.inl hq)
    · rcases mem_pushChildren.mp hq with ⟨hq, -⟩ | hq
      · obtain ⟨i, hi, hk⟩ := ha.child_prefix hq
        exact .inr ⟨i, h.walk.world_items hi, hk⟩
      · exact h.known q (.inr hq)
  removed := h.removed

end Scanned

section Bounds

variable {x : State I}

-- Every prefix a walk can meet is the root or begins a key.
def places (key : I → Text) (items : Finset I) (root : Text) : Finset Text :=
  insert root (items.biUnion fun i => (key i).inits.toFinset)

theorem mem_places {q : Text} : q ∈ places key items root ↔ q = root ∨ ∃ i ∈ items, q <+: key i := by
  simp [places]

def bound (key : I → Text) (items : Finset I) (root : Text) (x : State I) : Nat :=
  let N := (places key items root).card
  (N - x.seen.length) * (N + 2) + x.inFlight.length * (N + 1) + x.pending.length + x.world.card

theorem seen_length_le (h : Inv key delimiter removes items root x) :
    x.seen.length ≤ (places key items root).card := by
  rw [← List.toFinset_card_of_nodup h.seen_nodup]
  refine Finset.card_le_card fun q hq => ?_
  exact mem_places.mpr (h.known q (.inl (List.mem_toFinset.mp hq)))

theorem Answer.children_length_le (root : Text) {entries : List I} {children : List Text}
    (h : Answer key delimiter world p entries children) (hw : world ⊆ items) :
    children.length ≤ (places key items root).card := by
  rw [← List.toFinset_card_of_nodup h.children_nodup]
  refine Finset.card_le_card fun q hq => ?_
  obtain ⟨i, hi, hk⟩ := h.child_prefix (List.mem_toFinset.mp hq)
  exact mem_places.mpr (.inr ⟨i, hw hi, hk⟩)

theorem done_handed (h : Inv key delimiter removes items root x) (hd : x.Done) :
    x.handed.Nodup ∧ ∀ i, i ∈ x.handed ↔ i ∈ items ∧ root <+: key i := by
  have hdone : x.walk.Done := ⟨hd.1, by rw [State.walk, hd.2]; rfl⟩
  exact ⟨h.walk.out_nodup, fun i => h.walk.done hdone⟩

end Bounds

section Steps

variable [DecidableEq I] {x x' : State I} {n : Nat}

theorem step_inv (hscan : ∀ world ⊆ items, ∀ p entries children, scan world p entries children →
      Answer key delimiter world p entries children)
    (hs : Step scan limit removes x x') (h : Inv key delimiter removes items root x) :
    Inv key delimiter removes items root x' := by
  cases hs with
  | visit world p pending seen inFlight handed hnew _ =>
    refine ⟨?_, List.nodup_cons.mpr ⟨hnew, h.seen_nodup⟩, ?_, h.removed⟩
    · have hwalk := h.walk.visit hnew
      simpa [State.walk] using hwalk
    · rintro q (hq | hq)
      · rcases List.mem_cons.mp hq with rfl | hq
        · exact h.known q (.inr (List.mem_cons_self ..))
        · exact h.known q (.inl hq)
      · exact h.known q (.inr (List.mem_cons_of_mem _ hq))
  | skip world p pending seen inFlight handed hseen =>
    refine ⟨h.walk.skip hseen, h.seen_nodup, ?_, h.removed⟩
    rintro q (hq | hq)
    · exact h.known q (.inl hq)
    · exact h.known q (.inr (List.mem_cons_of_mem _ hq))
  | scanned world pending seen before p after handed entries children ha =>
    exact h.scanned (hscan _ h.walk.world_items _ _ _ ha)
  | remove world pending seen inFlight handed i hr hi hw =>
    refine ⟨h.walk.shrink (Finset.erase_subset i world) fun j hj hout => ?_, h.seen_nodup, h.known,
      fun hf => absurd (hr.symm.trans hf) nofun⟩
    refine Finset.mem_erase.mpr ⟨?_, hj⟩
    rintro rfl
    exact hout hi

theorem run_inv (hscan : ∀ world ⊆ items, ∀ p entries children, scan world p entries children →
      Answer key delimiter world p entries children)
    (h : Runs scan limit removes n (State.init items root) x) :
    Inv key delimiter removes items root x := by
  generalize hy : State.init items root = y at h
  induction h with
  | refl x => exact hy ▸ init_inv
  | tail n x y z _ hs ih => exact step_inv hscan hs (ih hy)

theorem step_bound (hscan : ∀ world ⊆ items, ∀ p entries children, scan world p entries children →
      Answer key delimiter world p entries children)
    (hs : Step scan limit removes x x') (h : Inv key delimiter removes items root x) :
    bound key items root x' < bound key items root x := by
  have hseen' := seen_length_le (step_inv hscan hs h)
  cases hs with
  | visit world p pending seen inFlight handed hnew _ =>
    simp only [bound, List.length_cons, List.length_append, List.length_nil] at hseen' ⊢
    generalize (places key items root).card = N at hseen' ⊢
    obtain ⟨k, rfl⟩ := Nat.exists_eq_add_of_le hseen'
    have h1 : seen.length + 1 + k - (seen.length + 1) = k := by omega
    have h2 : seen.length + 1 + k - seen.length = k + 1 := by omega
    rw [h1, h2, Nat.add_mul k 1, Nat.one_mul, Nat.add_mul inFlight.length, Nat.zero_add, Nat.one_mul]
    omega
  | skip world p pending seen inFlight handed _ =>
    simp only [bound, List.length_cons]
    omega
  | scanned world pending seen before p after handed entries children ha =>
    have hle := (hscan _ h.walk.world_items _ _ _ ha).children_length_le root h.walk.world_items
    have hpush : (pushChildren seen children pending).length ≤ children.length + pending.length := by
      simp only [pushChildren, List.length_append, List.length_reverse]
      have := List.length_filter_le (fun q => decide (q ∉ seen)) children
      omega
    simp only [bound, List.length_append, List.length_cons]
    generalize (places key items root).card = N at hle ⊢
    have h1 : (before.length + (after.length + 1)) * (N + 1) =
        (before.length + after.length) * (N + 1) + (N + 1) := by
      rw [← Nat.add_assoc, Nat.succ_mul]
    rw [h1]
    omega
  | remove world pending seen inFlight handed i _ _ hw =>
    simp only [bound]
    have := Finset.card_erase_lt_of_mem hw
    omega

theorem run_bound (hscan : ∀ world ⊆ items, ∀ p entries children, scan world p entries children →
      Answer key delimiter world p entries children)
    (h : Runs scan limit removes n (State.init items root) x) :
    n + bound key items root x ≤ bound key items root (State.init items root) := by
  generalize hy : State.init items root = y at h
  induction h with
  | refl x => omega
  | tail n y x z hrun hs ih =>
    subst hy
    have hlt := step_bound hscan hs (run_inv hscan hrun)
    have hprev := ih rfl
    omega

theorem step_exists (hscan : ∀ world ⊆ items, ∀ p, ∃ entries children, scan world p entries children)
    (hw : x.world ⊆ items) (hd : ¬ x.Done) : ∃ x', Step scan limit removes x x' := by
  obtain ⟨world, pending, seen, inFlight, handed⟩ := x
  cases inFlight with
  | cons p after =>
    obtain ⟨entries, children, ha⟩ := hscan world hw p
    exact ⟨_, .scanned world pending seen [] p after handed entries children ha⟩
  | nil =>
    cases pending with
    | nil => exact absurd ⟨rfl, rfl⟩ hd
    | cons p pending =>
      by_cases hp : p ∈ seen
      · exact ⟨_, .skip world p pending seen [] handed hp⟩
      · refine ⟨_, .visit world p pending seen [] handed hp ?_⟩
        exact Nat.lt_of_lt_of_le Nat.one_pos (Nat.le_max_right limit 1)

end Steps

end VeStorage.Lib.Hierarchy
