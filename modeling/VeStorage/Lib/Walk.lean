import VeStorage.Lib.Text
import Mathlib.Data.Finset.Basic

namespace VeStorage.Lib.Walk

variable {I : Type} (key : I → Text)

-- One page of a paged listing: items under the prefix which no earlier page returned.
structure Page (world : Finset I) (pre : Text) (returned chunk : List I) (last : Bool) : Prop where
  nodup : chunk.Nodup
  mem : ∀ i ∈ chunk, i ∈ world ∧ pre <+: key i ∧ i ∉ returned
  complete : last = true → ∀ i ∈ world, pre <+: key i → i ∈ returned ∨ i ∈ chunk

def isDirect (delimiter : Option Char) (pre k : Text) : Bool :=
  match delimiter with
  | none => true
  | some c => decide (c ∉ k.drop pre.length)

def commonPrefix (delimiter : Option Char) (pre k : Text) : Text :=
  match delimiter with
  | none => pre
  | some c => pre ++ ((k.drop pre.length).takeWhile (· ≠ c) ++ [c])

structure Scan (I : Type) where
  pre : Text
  returned : List I
  complete : Bool

structure State (I : Type) where
  pending : List Text
  seen : List Text
  inFlight : List (Scan I)

def State.init (root : Text) : State I := ⟨[root], [], []⟩

def State.Done (x : State I) : Prop := x.pending = [] ∧ x.inFlight = []

def State.flights (x : State I) : List Text := x.inFlight.map Scan.pre

def State.Closed (x : State I) (p : Text) : Prop := p ∈ x.seen ∧ p ∉ x.flights

def State.Known (x : State I) (p : Text) : Prop := p ∈ x.seen ∨ p ∈ x.pending

variable (delimiter : Option Char)

def Scan.entries (f : Scan I) : List I :=
  f.returned.filter fun i => isDirect delimiter f.pre (key i)

def Scan.children (f : Scan I) : List Text :=
  (f.returned.filter fun i => !isDirect delimiter f.pre (key i)).map fun i =>
    commonPrefix delimiter f.pre (key i)

variable (limit : Nat) (world : Finset I)

-- `batch` and `found` are a scan's entries and prefixes in whatever order the walk sorts them.
inductive Step : State I → List I → State I → Prop
  | visit (p pending seen inFlight) (hnew : p ∉ seen) (h : inFlight.length < max limit 1) :
      Step ⟨p :: pending, seen, inFlight⟩ [] ⟨pending, p :: seen, inFlight ++ [⟨p, [], false⟩]⟩
  | skip (p pending seen inFlight) (hseen : p ∈ seen) :
      Step ⟨p :: pending, seen, inFlight⟩ [] ⟨pending, seen, inFlight⟩
  | page (pending seen before p returned chunk last after)
      (h : Page key world p returned chunk last) :
      Step ⟨pending, seen, before ++ ⟨p, returned, false⟩ :: after⟩ []
        ⟨pending, seen, before ++ ⟨p, returned ++ chunk, last⟩ :: after⟩
  | take (pending seen before f after) (batch : List I) (found : List Text) (h : f.complete = true)
      (hbatch : batch.Perm (f.entries key delimiter))
      (hfound : found.Perm (f.children key delimiter)) :
      Step ⟨pending, seen, before ++ f :: after⟩ batch
        ⟨found.filter (· ∉ seen) ++ pending, seen, before ++ after⟩

-- Everything emitted so far, in order.
inductive Gather {S : Type} (emit : S → List I → S → Prop) (start : S) : List I → S → Prop
  | start : Gather emit start [] start
  | more (out x batch x') (h : Gather emit start out x) (he : emit x batch x') :
      Gather emit start (out ++ batch) x'

theorem Gather.inv {S : Type} {emit : S → List I → S → Prop} {start : S}
    {P : S → List I → Prop} (h0 : P start [])
    (hstep : ∀ out x batch x', P x out → emit x batch x' → P x' (out ++ batch)) {out : List I}
    {x : S} (h : Gather emit start out x) : P x out := by
  induction h with
  | start => exact h0
  | more out x batch x' _ he ih => exact hstep out x batch x' ih he

def Place (root p : Text) : Prop :=
  p = root ∨ root <+: p ∧ ∃ c, delimiter = some c ∧ [c] <:+ p

def ChildOf (p q : Text) : Prop := ∃ c seg, delimiter = some c ∧ c ∉ seg ∧ q = p ++ (seg ++ [c])

structure Inv (items world : Finset I) (root : Text) (x : State I) (out : List I) : Prop where
  flights_nodup : x.flights.Nodup
  flights_seen : ∀ p ∈ x.flights, p ∈ x.seen
  place : ∀ p, x.Known p → Place delimiter root p
  root_known : x.Known root
  parent : ∀ q, x.Known q → q ≠ root → ∃ p, x.Closed p ∧ ChildOf delimiter p q
  child : ∀ p, x.Closed p → ∀ i ∈ items, p <+: key i → isDirect delimiter p (key i) = false →
    x.Known (commonPrefix delimiter p (key i))
  returned_nodup : ∀ f ∈ x.inFlight, f.returned.Nodup
  returned_mem : ∀ f ∈ x.inFlight, ∀ i ∈ f.returned, i ∈ items ∧ f.pre <+: key i
  returned_all : ∀ f ∈ x.inFlight, f.complete = true →
    ∀ i ∈ items, f.pre <+: key i → i ∈ f.returned
  out_nodup : out.Nodup
  out_mem : ∀ i ∈ out, i ∈ items ∧ ∃ p, x.Closed p ∧ p <+: key i ∧
    isDirect delimiter p (key i) = true
  out_all : ∀ p, x.Closed p → ∀ i ∈ items, p <+: key i → isDirect delimiter p (key i) = true →
    i ∈ out
  world_items : world ⊆ items
  items_world : ∀ i ∈ items, i ∉ out → i ∈ world

variable {key delimiter limit world}

theorem isDirect_some {c : Char} {p k : Text} :
    isDirect (some c) p k = true ↔ c ∉ k.drop p.length := by simp [isDirect]

theorem commonPrefix_childOf {p k : Text} (hp : p <+: k) (h : isDirect delimiter p k = false) :
    ChildOf delimiter p (commonPrefix delimiter p k) ∧ commonPrefix delimiter p k <+: k := by
  cases delimiter with
  | none => cases h
  | some c =>
    obtain ⟨rest, rfl⟩ := hp
    have hc : c ∈ rest := by simpa [isDirect] using h
    simp only [commonPrefix, List.drop_left]
    refine ⟨⟨c, _, rfl, ?_, rfl⟩, (List.prefix_append_right_inj p).mpr ?_⟩
    · intro hm
      simpa using List.mem_takeWhile_imp hm
    · obtain ⟨hd, tl, hdrop⟩ : ∃ hd tl, rest.dropWhile (· ≠ c) = hd :: tl := by
        cases he : rest.dropWhile (· ≠ c) with
        | nil =>
          have := List.dropWhile_eq_nil_iff.mp he c hc
          simp at this
        | cons hd tl => exact ⟨hd, tl, rfl⟩
      have hhd : hd = c := by
        have := List.head_dropWhile_not (p := fun x => decide (x ≠ c)) (l := rest)
          (by rw [hdrop]; simp)
        simp only [hdrop, List.head_cons] at this
        simpa using this
      refine ⟨tl, ?_⟩
      rw [List.append_assoc, List.singleton_append, ← hhd, ← hdrop]
      subst hhd
      exact List.takeWhile_append_dropWhile

theorem Place.under_root {root p : Text} (h : Place delimiter root p) : root <+: p := by
  rcases h with rfl | ⟨h, -⟩
  · exact List.prefix_rfl
  · exact h

theorem ChildOf.place {root p q : Text} (hp : Place delimiter root p) (h : ChildOf delimiter p q) :
    Place delimiter root q := by
  obtain ⟨c, seg, hc, -, rfl⟩ := h
  refine .inr ⟨hp.under_root.trans (List.prefix_append _ _), c, hc, ⟨p ++ seg, ?_⟩⟩
  simp

theorem ChildOf.length_lt {p q : Text} (h : ChildOf delimiter p q) : p.length < q.length := by
  obtain ⟨c, seg, -, -, rfl⟩ := h
  simp

theorem Place.prefix_parent {root p p0 q : Text} (hp : Place delimiter root p)
    (hroot : root <+: p0) (hq : ChildOf delimiter p0 q) (h : p <+: q) (hne : p ≠ q) : p <+: p0 := by
  rcases hp with rfl | ⟨-, c, hc, p1, rfl⟩
  · exact hroot
  · obtain ⟨c', seg, hc', hseg, rfl⟩ := hq
    obtain rfl : c = c' := Option.some.inj (hc.symm.trans hc')
    by_contra hnot
    have hlen : p0.length ≤ (p1 ++ [c]).length := by
      by_contra hlt
      exact hnot (List.prefix_of_prefix_length_le h (List.prefix_append _ _) (by omega))
    obtain ⟨t, ht⟩ := List.prefix_of_prefix_length_le (List.prefix_append p0 (seg ++ [c])) h hlen
    rw [← ht, List.prefix_append_right_inj] at h
    rcases List.prefix_concat_iff.mp h with rfl | hpre
    · exact hne ht.symm
    · have hmem : c ∈ t := by
        rcases List.eq_nil_or_concat t with rfl | ⟨t', e, rfl⟩
        · rw [List.append_nil] at ht
          exact absurd (ht ▸ List.prefix_rfl) hnot
        · rw [List.concat_eq_append, ← List.append_assoc] at ht
          have := List.append_inj_right' ht rfl
          simp_all
      exact hseg (hpre.subset hmem)

theorem Place.prefix_direct {root p d k : Text} (hp : Place delimiter root p)
    (hroot : root <+: d) (hd : d <+: k) (hk : isDirect delimiter d k = true) (h : p <+: k) :
    p <+: d := by
  rcases hp with rfl | ⟨-, c, rfl, p1, rfl⟩
  · exact hroot
  · by_contra hnot
    have hlen : d.length ≤ (p1 ++ [c]).length := by
      by_contra hlt
      exact hnot (List.prefix_of_prefix_length_le h hd (by omega))
    obtain ⟨t, ht⟩ := List.prefix_of_prefix_length_le hd h hlen
    obtain ⟨rest, rfl⟩ := hd
    rw [← ht, List.prefix_append_right_inj] at h
    rw [isDirect_some, List.drop_left] at hk
    rcases List.eq_nil_or_concat t with rfl | ⟨t', e, rfl⟩
    · rw [List.append_nil] at ht
      exact hnot (ht ▸ List.prefix_rfl)
    · rw [List.concat_eq_append, ← List.append_assoc] at ht
      have he : e = c := by simpa using List.append_inj_right' ht rfl
      exact hk (h.subset (by simp [he]))

section Invariant

variable {items : Finset I} {root : Text} {x x' : State I} {out batch : List I}

theorem Inv.init (items : Finset I) (root : Text) :
    Inv key delimiter items items root (State.init root) [] := by
  have hknown : ∀ p, (State.init root : State I).Known p → p = root := by
    simp [State.Known, State.init]
  have hclosed : ∀ p, ¬ (State.init root : State I).Closed p := by simp [State.Closed, State.init]
  exact {
    flights_nodup := List.nodup_nil
    flights_seen := by simp [State.init, State.flights]
    place := fun p hp => .inl (hknown p hp)
    root_known := .inr (by simp [State.init])
    parent := fun q hq hne => absurd (hknown q hq) hne
    child := fun p hp => absurd hp (hclosed p)
    returned_nodup := by simp [State.init]
    returned_mem := by simp [State.init]
    returned_all := by simp [State.init]
    out_nodup := List.nodup_nil
    out_mem := by simp
    out_all := fun p hp => absurd hp (hclosed p)
    world_items := Finset.Subset.refl _
    items_world := fun i hi _ => hi }

theorem Inv.ancestor_closed (h : Inv key delimiter items world root x out) {p : Text}
    (hp : Place delimiter root p) {q : Text} (hq : x.Closed q) (hpq : p <+: q) : x.Closed p := by
  induction hn : q.length using Nat.strong_induction_on generalizing q with
  | _ n ih =>
    subst hn
    by_cases he : p = q
    · exact he ▸ hq
    have hne : q ≠ root := by
      rintro rfl
      exact he (hpq.eq_of_length (le_antisymm hpq.length_le hp.under_root.length_le))
    obtain ⟨p0, hp0, hchild⟩ := h.parent q (.inl hq.1) hne
    have hroot := (h.place p0 (.inl hp0.1)).under_root
    exact ih p0.length hchild.length_lt hp0 (hp.prefix_parent hroot hchild hpq he) rfl

theorem Inv.not_out (h : Inv key delimiter items world root x out) {p : Text} (hp : x.Known p)
    (hopen : ¬ x.Closed p) {i : I} (hi : p <+: key i) : i ∉ out := by
  intro hout
  obtain ⟨-, d, hd, hdk, hdirect⟩ := h.out_mem i hout
  have hplace := h.place p hp
  have hroot := (h.place d (.inl hd.1)).under_root
  exact hopen (h.ancestor_closed hplace hd (hplace.prefix_direct hroot hdk hdirect hi))

theorem Inv.done (h : Inv key delimiter items world root x out) (hd : x.Done) {i : I} :
    i ∈ out ↔ i ∈ items ∧ root <+: key i := by
  obtain ⟨hpending, hflight⟩ := hd
  have hclosed : ∀ p, x.Known p → x.Closed p := by
    intro p hp
    refine ⟨hp.resolve_right (by simp [hpending]), by simp [State.flights, hflight]⟩
  constructor
  · intro hi
    obtain ⟨him, p, hp, hpk, -⟩ := h.out_mem i hi
    exact ⟨him, (h.place p (.inl hp.1)).under_root.trans hpk⟩
  · rintro ⟨hi, hk⟩
    -- descend from the root towards the key; every prefix on the way is closed
    have hdescend : ∀ n p, x.Closed p → p <+: key i → (key i).length - p.length ≤ n → i ∈ out := by
      intro n
      induction n with
      | zero =>
        intro p hp hpk hn
        obtain rfl : p = key i := hpk.eq_of_length (le_antisymm hpk.length_le (by omega))
        refine h.out_all _ hp i hi hpk ?_
        cases delimiter <;> simp [isDirect]
      | succ n ih =>
        intro p hp hpk hn
        cases hdir : isDirect delimiter p (key i) with
        | true => exact h.out_all p hp i hi hpk hdir
        | false =>
          obtain ⟨hchild, hck⟩ := commonPrefix_childOf hpk hdir
          have hlt := hchild.length_lt
          have hle := hck.length_le
          exact ih _ (hclosed _ (h.child p hp i hi hpk hdir)) hck (by omega)
    exact hdescend _ root (hclosed _ h.root_known) hk le_rfl

theorem Inv.shrink {world' : Finset I} (h : Inv key delimiter items world root x out)
    (hsub : world' ⊆ world) (hkeep : ∀ i ∈ world, i ∉ out → i ∈ world') :
    Inv key delimiter items world' root x out :=
  { h with
    world_items := hsub.trans h.world_items
    items_world := fun i hi ho => hkeep i (h.items_world i hi ho) ho }

theorem closed_congr {pending pending' seen : List Text} {inFlight inFlight' : List (Scan I)}
    (h : inFlight'.map Scan.pre = inFlight.map Scan.pre) (p : Text) :
    (⟨pending', seen, inFlight'⟩ : State I).Closed p ↔
      (⟨pending, seen, inFlight⟩ : State I).Closed p := by
  simp [State.Closed, State.flights, h]

theorem Inv.skip {p : Text} {pending seen : List Text} {inFlight : List (Scan I)}
    (h : Inv key delimiter items world root ⟨p :: pending, seen, inFlight⟩ out) (hseen : p ∈ seen) :
    Inv key delimiter items world root ⟨pending, seen, inFlight⟩ out := by
  have hknown : ∀ q, (⟨pending, seen, inFlight⟩ : State I).Known q ↔
      (⟨p :: pending, seen, inFlight⟩ : State I).Known q := by
    intro q
    simp only [State.Known, List.mem_cons]
    constructor
    · tauto
    · rintro (hq | rfl | hq)
      · exact .inl hq
      · exact .inl hseen
      · exact .inr hq
  exact { h with
    place := fun q hq => h.place q ((hknown q).mp hq)
    root_known := (hknown root).mpr h.root_known
    parent := fun q hq => h.parent q ((hknown q).mp hq)
    child := fun q hq i hi hk hd => (hknown _).mpr (h.child q hq i hi hk hd) }

theorem Inv.visit {p : Text} {pending seen : List Text} {inFlight : List (Scan I)}
    (h : Inv key delimiter items world root ⟨p :: pending, seen, inFlight⟩ out) (hnew : p ∉ seen) :
    Inv key delimiter items world root ⟨pending, p :: seen, inFlight ++ [⟨p, [], false⟩]⟩ out := by
  have hknown : ∀ q, (⟨pending, p :: seen, inFlight ++ [⟨p, [], false⟩]⟩ : State I).Known q ↔
      (⟨p :: pending, seen, inFlight⟩ : State I).Known q := by
    intro q
    simp only [State.Known, List.mem_cons]
    tauto
  have hclosed : ∀ q, (⟨pending, p :: seen, inFlight ++ [⟨p, [], false⟩]⟩ : State I).Closed q ↔
      (⟨p :: pending, seen, inFlight⟩ : State I).Closed q := by
    intro q
    simp only [State.Closed, State.flights, List.mem_cons, List.map_append, List.map_cons,
      List.map_nil, List.mem_append, List.not_mem_nil, or_false]
    constructor
    · tauto
    · rintro ⟨hq, hf⟩
      exact ⟨.inr hq, fun ho => ho.elim hf fun he => hnew (he ▸ hq)⟩
  have hpf : p ∉ inFlight.map Scan.pre := fun hp => hnew (h.flights_seen p hp)
  exact {
    flights_nodup := by
      simp only [State.flights, List.map_append, List.map_cons, List.map_nil]
      exact List.nodup_append.mpr ⟨h.flights_nodup, List.nodup_singleton p, by
        rintro a ha b hb rfl
        exact hpf (List.mem_singleton.mp hb ▸ ha)⟩
    flights_seen := by
      intro q hq
      simp only [State.flights, List.map_append, List.map_cons, List.map_nil, List.mem_append,
        List.mem_singleton] at hq
      rcases hq with hq | rfl
      · exact List.mem_cons_of_mem _ (h.flights_seen q hq)
      · exact List.mem_cons_self ..
    place := fun q hq => h.place q ((hknown q).mp hq)
    root_known := (hknown root).mpr h.root_known
    parent := by
      intro q hq hne
      obtain ⟨d, hd, hc⟩ := h.parent q ((hknown q).mp hq) hne
      exact ⟨d, (hclosed d).mpr hd, hc⟩
    child := fun q hq i hi hk hd => (hknown _).mpr (h.child q ((hclosed q).mp hq) i hi hk hd)
    returned_nodup := by
      intro f hf
      rcases List.mem_append.mp hf with hf | hf
      · exact h.returned_nodup f hf
      · rw [List.mem_singleton.mp hf]
        exact List.nodup_nil
    returned_mem := by
      intro f hf
      rcases List.mem_append.mp hf with hf | hf
      · exact h.returned_mem f hf
      · rw [List.mem_singleton.mp hf]
        simp
    returned_all := by
      intro f hf
      rcases List.mem_append.mp hf with hf | hf
      · exact h.returned_all f hf
      · rw [List.mem_singleton.mp hf]
        simp
    out_nodup := h.out_nodup
    out_mem := by
      intro i hi
      obtain ⟨him, d, hd, hdk⟩ := h.out_mem i hi
      exact ⟨him, d, (hclosed d).mpr hd, hdk⟩
    out_all := fun q hq => h.out_all q ((hclosed q).mp hq)
    world_items := h.world_items
    items_world := h.items_world }

theorem Inv.page {p : Text} {pending seen : List Text} {before after : List (Scan I)}
    {returned chunk : List I} {last : Bool}
    (h : Inv key delimiter items world root ⟨pending, seen, before ++ ⟨p, returned, false⟩ :: after⟩
      out) (hp : Page key world p returned chunk last) :
    Inv key delimiter items world root
      ⟨pending, seen, before ++ ⟨p, returned ++ chunk, last⟩ :: after⟩ out := by
  have hflight : p ∈ (before ++ (⟨p, returned, false⟩ : Scan I) :: after).map Scan.pre := by simp
  have hopen : ¬ (⟨pending, seen, before ++ ⟨p, returned, false⟩ :: after⟩ : State I).Closed p :=
    fun hc => hc.2 hflight
  have hmap : (before ++ (⟨p, returned ++ chunk, last⟩ : Scan I) :: after).map Scan.pre =
      (before ++ (⟨p, returned, false⟩ : Scan I) :: after).map Scan.pre := by simp
  have hclosed := @closed_congr _ pending pending seen _ _ hmap
  have hold : (⟨p, returned, false⟩ : Scan I) ∈ before ++ ⟨p, returned, false⟩ :: after := by simp
  have hscan : ∀ f, f ∈ before ++ (⟨p, returned ++ chunk, last⟩ : Scan I) :: after →
      f = ⟨p, returned ++ chunk, last⟩ ∨ f ∈ before ++ ⟨p, returned, false⟩ :: after := by
    intro f hf
    simp only [List.mem_append, List.mem_cons] at hf ⊢
    tauto
  exact {
    flights_nodup := by
      have := h.flights_nodup
      simpa [State.flights] using this
    flights_seen := by
      have := h.flights_seen
      simpa [State.flights] using this
    place := h.place
    root_known := h.root_known
    parent := by
      intro q hq hne
      obtain ⟨d, hd, hc⟩ := h.parent q hq hne
      exact ⟨d, (hclosed d).mpr hd, hc⟩
    child := fun q hq => h.child q ((hclosed q).mp hq)
    returned_nodup := by
      intro f hf
      rcases hscan f hf with rfl | hf
      · refine List.nodup_append.mpr ⟨h.returned_nodup _ hold, hp.nodup, ?_⟩
        rintro a ha b hb rfl
        exact (hp.mem a hb).2.2 ha
      · exact h.returned_nodup f hf
    returned_mem := by
      intro f hf i hi
      rcases hscan f hf with rfl | hf
      · rcases List.mem_append.mp hi with hi | hi
        · exact h.returned_mem _ hold i hi
        · exact ⟨h.world_items (hp.mem i hi).1, (hp.mem i hi).2.1⟩
      · exact h.returned_mem f hf i hi
    returned_all := by
      intro f hf hcomplete i hi hk
      rcases hscan f hf with rfl | hf
      · have hout := h.not_out (.inl (h.flights_seen p hflight)) hopen hk
        exact List.mem_append.mpr (hp.complete hcomplete i (h.items_world i hi hout) hk)
      · exact h.returned_all f hf hcomplete i hi hk
    out_nodup := h.out_nodup
    out_mem := by
      intro i hi
      obtain ⟨him, d, hd, hdk⟩ := h.out_mem i hi
      exact ⟨him, d, (hclosed d).mpr hd, hdk⟩
    out_all := fun q hq => h.out_all q ((hclosed q).mp hq)
    world_items := h.world_items
    items_world := h.items_world }

theorem Inv.take {f : Scan I} {pending seen : List Text} {before after : List (Scan I)}
    {found : List Text}
    (h : Inv key delimiter items world root ⟨pending, seen, before ++ f :: after⟩ out)
    (hf : f.complete = true) (hbatch : batch.Perm (f.entries key delimiter))
    (hfound : ∀ q, q ∈ found ↔ q ∈ f.children key delimiter) :
    Inv key delimiter items world root
      ⟨found.filter (· ∉ seen) ++ pending, seen, before ++ after⟩ (out ++ batch) := by
  have hmem : f ∈ before ++ f :: after := by simp
  have hpre : f.pre ∈ seen := h.flights_seen _ (List.mem_map.mpr ⟨f, hmem, rfl⟩)
  have hnodup : ((before ++ f :: after).map Scan.pre).Nodup := h.flights_nodup
  have hpf : f.pre ∉ (before ++ after).map Scan.pre := by
    rw [List.map_append, List.map_cons] at hnodup
    have := (List.nodup_middle.mp hnodup)
    rw [← List.map_append] at this
    exact (List.nodup_cons.mp this).1
  have hopen : ¬ (⟨pending, seen, before ++ f :: after⟩ : State I).Closed f.pre :=
    fun hc => hc.2 (List.mem_map.mpr ⟨f, hmem, rfl⟩)
  have hclosed : ∀ q, (⟨found.filter (· ∉ seen) ++ pending, seen, before ++ after⟩ :
      State I).Closed q ↔ (⟨pending, seen, before ++ f :: after⟩ : State I).Closed q ∨
        q = f.pre := by
    intro q
    simp only [State.Closed, State.flights, List.map_append, List.map_cons, List.mem_append,
      List.mem_cons] at hpf ⊢
    constructor
    · tauto
    · rintro (hq | rfl)
      · tauto
      · exact ⟨hpre, hpf⟩
  have hknown : ∀ q, (⟨found.filter (· ∉ seen) ++ pending, seen, before ++ after⟩ :
      State I).Known q ↔ (⟨pending, seen, before ++ f :: after⟩ : State I).Known q ∨
        q ∈ f.children key delimiter := by
    intro q
    simp only [State.Known, List.mem_append, List.mem_filter, hfound, decide_eq_true_eq]
    tauto
  have hchild : ∀ q ∈ f.children key delimiter, ChildOf delimiter f.pre q := by
    intro q hq
    obtain ⟨i, hi, rfl⟩ := List.mem_map.mp hq
    obtain ⟨hi, hdir⟩ := List.mem_filter.mp hi
    exact (commonPrefix_childOf (h.returned_mem f hmem i hi).2 (by simpa using hdir)).1
  have hentry : ∀ i, i ∈ batch ↔ i ∈ f.returned ∧ isDirect delimiter f.pre (key i) = true := by
    intro i
    rw [hbatch.mem_iff, Scan.entries, List.mem_filter]
  exact {
    flights_nodup := hnodup.sublist
      (((List.sublist_cons_self f after).append_left before).map Scan.pre)
    flights_seen := by
      intro q hq
      refine h.flights_seen q ?_
      simp only [State.flights, List.map_append, List.map_cons, List.mem_append,
        List.mem_cons] at hq ⊢
      tauto
    place := by
      intro q hq
      rcases (hknown q).mp hq with hq | hq
      · exact h.place q hq
      · exact (hchild q hq).place (h.place _ (.inl hpre))
    root_known := (hknown root).mpr (.inl h.root_known)
    parent := by
      intro q hq hne
      rcases (hknown q).mp hq with hq | hq
      · obtain ⟨d, hd, hc⟩ := h.parent q hq hne
        exact ⟨d, (hclosed d).mpr (.inl hd), hc⟩
      · exact ⟨f.pre, (hclosed _).mpr (.inr rfl), hchild q hq⟩
    child := by
      intro q hq i hi hk hd
      rcases (hclosed q).mp hq with hq | rfl
      · exact (hknown _).mpr (.inl (h.child q hq i hi hk hd))
      · refine (hknown _).mpr (.inr (List.mem_map.mpr ⟨i, List.mem_filter.mpr ⟨?_, ?_⟩, rfl⟩))
        · exact h.returned_all f hmem hf i hi hk
        · simpa using hd
    returned_nodup := fun g hg => h.returned_nodup g (by simp at hg ⊢; tauto)
    returned_mem := fun g hg => h.returned_mem g (by simp at hg ⊢; tauto)
    returned_all := fun g hg => h.returned_all g (by simp at hg ⊢; tauto)
    out_nodup := by
      refine List.nodup_append.mpr ⟨h.out_nodup,
        hbatch.nodup_iff.mpr ((h.returned_nodup f hmem).filter _), ?_⟩
      rintro a ha b hb rfl
      have hret := ((hentry a).mp hb).1
      exact h.not_out (.inl hpre) hopen (h.returned_mem f hmem a hret).2 ha
    out_mem := by
      intro i hi
      rcases List.mem_append.mp hi with hi | hi
      · obtain ⟨him, d, hd, hdk⟩ := h.out_mem i hi
        exact ⟨him, d, (hclosed d).mpr (.inl hd), hdk⟩
      · obtain ⟨hret, hdir⟩ := (hentry i).mp hi
        obtain ⟨him, hk⟩ := h.returned_mem f hmem i hret
        exact ⟨him, f.pre, (hclosed _).mpr (.inr rfl), hk, hdir⟩
    out_all := by
      intro q hq i hi hk hd
      rcases (hclosed q).mp hq with hq | rfl
      · exact List.mem_append_left _ (h.out_all q hq i hi hk hd)
      · exact List.mem_append_right _ ((hentry i).mpr ⟨h.returned_all f hmem hf i hi hk, hd⟩)
    world_items := h.world_items
    items_world := fun i hi ho => h.items_world i hi fun hm => ho (List.mem_append_left _ hm) }

theorem Inv.step (h : Inv key delimiter items world root x out)
    (hs : Step key delimiter limit world x batch x') :
    Inv key delimiter items world root x' (out ++ batch) := by
  cases hs with
  | visit p pending seen inFlight hnew _ => simpa using h.visit hnew
  | skip p pending seen inFlight hseen => simpa using h.skip hseen
  | page pending seen before p returned chunk last after hp => simpa using h.page hp
  | take pending seen before f after batch found hf hbatch hfound =>
    exact h.take hf hbatch fun _ => hfound.mem_iff

theorem gather_inv (h : Gather (Step key delimiter limit items) (State.init root) out x) :
    Inv key delimiter items items root x out :=
  h.inv (Inv.init items root) fun _ _ _ _ hinv hs => hinv.step hs

end Invariant

end VeStorage.Lib.Walk
