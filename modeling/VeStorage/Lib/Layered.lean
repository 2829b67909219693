import VeStorage.Lib.Grouped
import VeStorage.Lib.Sorted

namespace VeStorage.Lib.Grouped

variable {J γ : Type}

def Event.job : Event J → J
  | .start job => job
  | .finish job _ => job

-- Nothing is heard of `k` any more once `d` is started, and `k` has finished by then.
def StartsAfter (log : List (Event J)) (d k : J) : Prop :=
  ∀ before after, log = before ++ .start d :: after →
    Finished before k ∧ ∀ e ∈ after, e.job ≠ k

def anyOutcome (_ : J) (_ _ : Unit) (_ : Bool) : Prop := True

def Reaches (limit : Nat) (groups : List (List J)) (x : Exec Unit J) : Prop :=
  Run anyOutcome limit (Exec.init () groups) x

def Layered [LinearOrder γ] (rank : J → γ) (groups : List (List J)) : Prop :=
  (∀ g ∈ groups, ∀ a ∈ g, ∀ b ∈ g, rank a = rank b) ∧
    groups.Pairwise fun g h => ∀ a ∈ g, ∀ b ∈ h, rank a < rank b

section Layers

variable [LinearOrder γ] {rank : J → γ}

theorem layered_of_chain {groups : List (List J)}
    (hsame : ∀ g ∈ groups, ∀ a ∈ g, ∀ b ∈ g, rank a = rank b)
    (hle : groups.Pairwise fun g h => ∀ a ∈ g, ∀ b ∈ h, rank a ≤ rank b)
    (hchain : groups.IsChain fun g h => ∃ a ∈ g, ∃ b ∈ h, rank a ≠ rank b) :
    Layered rank groups := by
  refine ⟨hsame, ?_⟩
  induction groups with
  | nil => exact .nil
  | cons g groups ih =>
    have hrest := ih (fun h hh => hsame h (List.mem_cons_of_mem g hh)) hle.of_cons hchain.tail
    refine List.pairwise_cons.mpr ⟨?_, hrest⟩
    rcases groups with - | ⟨next, groups⟩
    · simp
    · obtain ⟨a, ha, b, hb, hne⟩ := (List.isChain_cons_cons.mp hchain).1
      have hlt : rank a < rank b :=
        lt_of_le_of_ne ((List.pairwise_cons.mp hle).1 next (by simp) a ha b hb) hne
      intro h hh x hx y hy
      rw [hsame g (by simp) x hx a ha]
      refine hlt.trans_le ?_
      rcases List.mem_cons.mp hh with rfl | hh
      · exact (hsame h (by simp) b hb y hy).le
      · exact (List.pairwise_cons.mp hle.of_cons).1 h hh b hb y hy

theorem layered_levels {l : List J} (h : l.Pairwise fun a b => rank a ≤ rank b) :
    Layered rank (levels rank l) := by
  refine layered_of_chain (fun g hg a ha b hb => depth_eq_of_mem_level hg ha hb) ?_ ?_
  · rw [← levels_flatten rank l] at h
    exact (List.pairwise_flatten.mp h).2
  · refine (List.isChain_getLast_head_splitBy (fun a b => rank a == rank b) l).imp ?_
    rintro g h ⟨hg, hh, hne⟩
    exact ⟨_, List.getLast_mem hg, _, List.head_mem hh, by simpa using hne⟩

theorem Layered.rerank {δ : Type} [LinearOrder δ] {rank' : J → δ} {groups : List (List J)}
    (h : Layered rank groups)
    (heq : ∀ a ∈ groups.flatten, ∀ b ∈ groups.flatten, rank a = rank b → rank' a = rank' b)
    (hlt : ∀ a ∈ groups.flatten, ∀ b ∈ groups.flatten, rank a < rank b → rank' a < rank' b) :
    Layered rank' groups := by
  have hmem : ∀ g ∈ groups, ∀ a ∈ g, a ∈ groups.flatten := fun g hg a ha =>
    List.mem_flatten.mpr ⟨g, hg, ha⟩
  refine ⟨fun g hg a ha b hb => heq a (hmem g hg a ha) b (hmem g hg b hb) (h.1 g hg a ha b hb), ?_⟩
  refine h.2.imp_of_mem fun {g h'} hg hh hgh a ha b hb => ?_
  exact hlt a (hmem g hg a ha) b (hmem h' hh b hb) (hgh a ha b hb)

theorem Layered.cons {groups : List (List J)} (h : Layered rank groups) {g : List J}
    (hsame : ∀ a ∈ g, ∀ b ∈ g, rank a = rank b)
    (hlt : ∀ a ∈ g, ∀ b ∈ groups.flatten, rank a < rank b) : Layered rank (g :: groups) := by
  refine ⟨List.forall_mem_cons.mpr ⟨hsame, h.1⟩, List.pairwise_cons.mpr ⟨?_, h.2⟩⟩
  exact fun h' hh a ha b hb => hlt a ha b (List.mem_flatten.mpr ⟨h', hh, hb⟩)

theorem Layered.group_lt {groups closed rest : List (List J)} {current : List J} {d k : J}
    (h : Layered rank groups) (he : groups = closed ++ current :: rest) (hd : d ∈ current)
    (hk : k ∈ groups.flatten) (hlt : rank k < rank d) : k ∈ closed.flatten := by
  subst he
  rw [List.flatten_append, List.flatten_cons] at hk
  rcases List.mem_append.mp hk with hk | hk
  · exact hk
  · have htail := (List.pairwise_append.mp h.2).2.1
    rcases List.mem_append.mp hk with hk | hk
    · exact absurd (h.1 current (by simp) k hk d hd) hlt.ne
    · obtain ⟨g, hg, hkg⟩ := List.mem_flatten.mp hk
      exact absurd ((List.pairwise_cons.mp htail).1 g hg d hd k hkg) hlt.asymm

theorem Layered.same_group {groups : List (List J)} {d k : J} (h : Layered rank groups)
    (hd : d ∈ groups.flatten) (hk : k ∈ groups.flatten) (he : rank k = rank d) :
    ∃ g ∈ groups, d ∈ g ∧ k ∈ g := by
  obtain ⟨g, hg, hdg⟩ := List.mem_flatten.mp hd
  obtain ⟨g', hg', hkg⟩ := List.mem_flatten.mp hk
  rcases eq_or_ne g g' with rfl | hne
  · exact ⟨g, hg, hdg, hkg⟩
  · have hsym : ∀ g ∈ groups, ∀ h ∈ groups, g ≠ h → ∀ a ∈ g, ∀ b ∈ h, rank a ≠ rank b := by
      have hpair : groups.Pairwise fun g h => ∀ a ∈ g, ∀ b ∈ h, rank a ≠ rank b :=
        h.2.imp fun hlt a ha b hb => (hlt a ha b hb).ne
      have : Std.Symm fun g h : List J => ∀ a ∈ g, ∀ b ∈ h, rank a ≠ rank b :=
        ⟨fun g h hgh a ha b hb => (hgh b hb a ha).symm⟩
      exact fun g hg h hh hne => hpair.forall hg hh hne
    exact absurd he.symm (hsym g hg g' hg' hne d hdg k hkg)

theorem Layered.finished_before {W : Type} {act : J → W → W → Bool → Prop} {limit : Nat} {groups : List (List J)}
    (hl : Layered rank groups) {w : W} {x : Exec W J} (h : Run act limit (Exec.init w groups) x)
    {before after : List (Event J)} {d k : J} (hlog : x.log = before ++ .start d :: after)
    (hk : k ∈ groups.flatten) (hlt : rank k < rank d) : Finished before k := by
  obtain ⟨closed, current, rest, hsplit, hd, hdone⟩ := (run_inv h).1 before d after hlog
  have hcons : Layered rank ([] :: groups) := hl.cons (by simp) (by simp)
  exact hdone k (hcons.group_lt hsplit hd (by simpa using hk) hlt)

end Layers

section Ranked

variable [LinearOrder γ] {rank : J → γ} {limit : Nat} {groups : List (List J)}

def Exec.layer (x : Exec Unit J) : List J := x.pending ++ x.running.map Prod.fst

structure RankInv (rank : J → γ) (x : Exec Unit J) : Prop where
  layered : Layered rank (x.layer :: x.groups)
  log_le : ∀ e ∈ x.log, ∀ j ∈ x.layer ++ x.groups.flatten, rank e.job ≤ rank j
  sorted : x.log.Pairwise fun e e' => rank e.job ≤ rank e'.job

theorem RankInv.of_layer {x x' : Exec Unit J} (h : RankInv rank x) (hg : x'.groups = x.groups)
    (hl : x'.log = x.log) (hm : ∀ j ∈ x'.layer, j ∈ x.layer) : RankInv rank x' := by
  obtain ⟨hlay, hle, hsorted⟩ := h
  have hsame := List.forall_mem_cons.mp hlay.1
  have hlt := List.pairwise_cons.mp hlay.2
  refine ⟨?_, ?_, hl ▸ hsorted⟩
  · rw [hg]
    refine Layered.cons ⟨hsame.2, hlt.2⟩ (fun a ha b hb => hsame.1 a (hm a ha) b (hm b hb)) ?_
    intro a ha b hb
    obtain ⟨g, hg', hbg⟩ := List.mem_flatten.mp hb
    exact hlt.1 g hg' a (hm a ha) b hbg
  · rw [hl, hg]
    intro e he j hj
    refine hle e he j ?_
    rcases List.mem_append.mp hj with hj | hj
    · exact List.mem_append_left _ (hm j hj)
    · exact List.mem_append_right _ hj

theorem RankInv.log_snoc {x : Exec Unit J} (h : RankInv rank x) {e : Event J}
    (he : e.job ∈ x.layer) : RankInv rank { x with log := x.log ++ [e] } := by
  obtain ⟨hlay, hle, hsorted⟩ := h
  refine ⟨hlay, ?_, List.pairwise_append.mpr ⟨hsorted, List.pairwise_singleton _ _, ?_⟩⟩
  · intro e' he' j hj
    rcases List.mem_append.mp he' with he' | he'
    · exact hle e' he' j hj
    · obtain rfl := List.mem_singleton.mp he'
      rcases List.mem_append.mp hj with hj | hj
      · exact ((List.forall_mem_cons.mp hlay.1).1 _ he j hj).le
      · obtain ⟨g, hg, hjg⟩ := List.mem_flatten.mp hj
        exact ((List.pairwise_cons.mp hlay.2).1 g hg _ he j hjg).le
  · intro e' he' b hb
    obtain rfl := List.mem_singleton.mp hb
    exact hle e' he' _ (List.mem_append_left _ he)

theorem rank_step {x x' : Exec Unit J} (h : Step anyOutcome limit x x') (hinv : RankInv rank x) :
    RankInv rank x' := by
  cases h with
  | launch w gs job pending running log _ =>
    have hlog := hinv.log_snoc (e := .start job) (by simp [Exec.layer, Event.job])
    refine hlog.of_layer rfl rfl ?_
    intro j hj
    simp only [Exec.layer, List.map_append, List.map_cons, List.map_nil, List.mem_append,
      List.mem_cons, List.not_mem_nil, or_false] at hj ⊢
    tauto
  | effect w w' gs pending pre job ok post log _ =>
    refine hinv.of_layer rfl rfl ?_
    simp [Exec.layer]
  | finish w gs pending pre job ok post log =>
    have hlog := hinv.log_snoc (e := .finish job ok) (by simp [Exec.layer, Event.job])
    refine hlog.of_layer rfl rfl ?_
    simp only [Exec.layer, List.map_append, List.map_cons, List.mem_append, List.mem_cons]
    tauto
  | next w group gs log =>
    obtain ⟨hlay, hle, hsorted⟩ := hinv
    refine ⟨?_, ?_, hsorted⟩
    · have hgroups : Layered rank (group :: gs) := ⟨(List.forall_mem_cons.mp hlay.1).2, hlay.2.of_cons⟩
      simpa [Exec.layer] using hgroups
    · simpa [Exec.layer] using hle

theorem rank_run {x : Exec Unit J} (hl : Layered rank groups) (h : Reaches limit groups x) :
    RankInv rank x := by
  induction h with
  | refl =>
    refine ⟨hl.cons ?_ ?_, ?_, .nil⟩ <;> simp [Exec.layer, Exec.init]
  | tail _ hs ih => exact rank_step hs ih

theorem startsAfter_of_rank {x : Exec Unit J} (hl : Layered rank groups)
    (h : Reaches limit groups x) {d k : J} (hk : k ∈ groups.flatten) (hlt : rank k < rank d) :
    StartsAfter x.log d k := by
  intro before after he
  obtain ⟨closed, current, rest, hsplit, hd, hdone⟩ := (run_inv h).1 before d after he
  have hcons : Layered rank ([] :: groups) := hl.cons (by simp) (by simp)
  refine ⟨hdone k (hcons.group_lt hsplit hd (by simpa using hk) hlt), ?_⟩
  rintro e hm rfl
  have hsorted := (rank_run hl h).sorted
  rw [he] at hsorted
  have hle := (List.pairwise_cons.mp (List.pairwise_append.mp hsorted).2.1).1 e hm
  exact absurd hlt (not_lt.mpr hle)

end Ranked

section Serial

variable {groups : List (List J)} {limit : Nat}

def serial (done : List (J × Bool)) : List (Event J) :=
  done.flatMap fun p => [.start p.1, .finish p.1 p.2]

structure SerialInv (done : List (J × Bool)) (x : Exec Unit J) : Prop where
  running : x.running.length ≤ 1
  log : x.log = serial done ++ x.running.map fun r => .start r.1

theorem serial_step {x x' : Exec Unit J} (hlim : limit ≤ 1) (h : Step anyOutcome limit x x')
    {done : List (J × Bool)} (hinv : SerialInv done x) : ∃ done', SerialInv done' x' := by
  obtain ⟨hrun, hlog⟩ := hinv
  cases h with
  | launch w gs job pending running log hfree =>
    obtain rfl : running = [] := by
      rw [← List.length_eq_zero_iff]
      omega
    refine ⟨done, by simp, ?_⟩
    simpa using hlog
  | effect w w' gs pending pre job ok post log _ =>
    exact ⟨done, by simpa using hrun, by simpa using hlog⟩
  | finish w gs pending pre job ok post log =>
    have hlen : pre.length + (post.length + 1) ≤ 1 := by simpa using hrun
    obtain rfl : pre = [] := List.length_eq_zero_iff.mp (by omega)
    obtain rfl : post = [] := List.length_eq_zero_iff.mp (by omega)
    refine ⟨done ++ [(job, ok)], by simp, ?_⟩
    simp only [List.map_cons, List.map_nil, List.nil_append] at hlog
    simp [hlog, serial]
  | next w group gs log => exact ⟨done, hrun, hlog⟩

theorem serial_run {x : Exec Unit J} (hlim : limit ≤ 1) (h : Reaches limit groups x) :
    ∃ done, SerialInv done x := by
  induction h with
  | refl => exact ⟨[], by simp [Exec.init], rfl⟩
  | tail _ hs ih =>
    obtain ⟨done, hinv⟩ := ih
    exact serial_step hlim hs hinv

theorem serial_split {done : List (J × Bool)} {last before after : List (Event J)} {d : J}
    (hlast : last = [] ∨ ∃ j, last = [.start j])
    (h : serial done ++ last = before ++ .start d :: after) :
    (∀ j ∈ starts before, Finished before j) ∧ ∀ e ∈ after, e.job = d ∨ e.job ∈ starts after := by
  induction done generalizing before with
  | nil =>
    rcases hlast with rfl | ⟨j, rfl⟩
    · simp [serial] at h
    · obtain ⟨rfl, rfl⟩ : before = [] ∧ after = [] := by
        rcases before with - | ⟨e, before⟩ <;> simp_all [serial]
      simp [starts]
  | cons p done ih =>
    obtain ⟨j, ok⟩ := p
    have h' : Event.start j :: .finish j ok :: (serial done ++ last) =
        before ++ .start d :: after := by simpa [serial] using h
    rcases before with - | ⟨e, - | ⟨e', before⟩⟩
    · obtain ⟨he, rfl⟩ := List.cons.inj h'
      obtain rfl := Event.start.inj he
      refine ⟨by simp [starts], ?_⟩
      have hall : ∀ e ∈ serial done ++ last, e.job ∈ starts (serial done ++ last) := by
        intro e he
        rcases List.mem_append.mp he with he | he
        · obtain ⟨p, hp, he⟩ := List.mem_flatMap.mp he
          refine mem_starts.mpr (List.mem_append_left _ (List.mem_flatMap.mpr ⟨p, hp, ?_⟩))
          simp only [List.mem_cons, List.not_mem_nil, or_false] at he
          rcases he with rfl | rfl <;> simp [Event.job]
        · rcases hlast with rfl | ⟨i, rfl⟩
          · cases he
          · obtain rfl := List.mem_singleton.mp he
            exact mem_starts.mpr (List.mem_append_right _ (by simp [Event.job]))
      intro e he
      rcases List.mem_cons.mp he with rfl | he
      · exact .inl rfl
      · exact .inr (hall e he)
    · simp at h'
    · rw [List.cons_append, List.cons_append, List.cons.injEq, List.cons.injEq] at h'
      obtain ⟨rfl, rfl, h'⟩ := h'
      obtain ⟨hfin, hafter⟩ := ih h'
      refine ⟨fun i hi => ?_, hafter⟩
      have hstarts : starts (Event.start j :: .finish j ok :: before) = j :: starts before := rfl
      rw [hstarts] at hi
      rcases List.mem_cons.mp hi with rfl | hi
      · exact ⟨ok, by simp⟩
      · obtain ⟨o, ho⟩ := hfin i hi
        exact ⟨o, by simp [ho]⟩

theorem startsAfter_of_serial {x : Exec Unit J} (hlim : limit ≤ 1) (h : Reaches limit groups x)
    {d k : J} (hk : k ∈ groups.flatten) (hne : k ≠ d)
    (hbefore : groups.flatten.Pairwise fun a b => a = d → b ≠ k) : StartsAfter x.log d k := by
  intro before after he
  obtain ⟨done, hrun, hlog⟩ := serial_run hlim h
  obtain ⟨rest, hrest⟩ := run_starts h
  have hlast : (x.running.map fun r => Event.start r.1) = [] ∨
      ∃ j, (x.running.map fun r => Event.start r.1) = [.start j] := by
    rcases hr : x.running with - | ⟨r, rs⟩
    · exact .inl rfl
    · obtain rfl : rs = [] := by simpa [hr] using hrun
      exact .inr ⟨r.1, rfl⟩
  obtain ⟨hfin, hafter⟩ := serial_split hlast (hlog.symm.trans he)
  rw [he, starts_append] at hrest
  have hcons : starts (Event.start d :: after) = d :: starts after := rfl
  rw [hcons, List.append_assoc, List.cons_append] at hrest
  rw [hrest] at hk hbefore
  have hlater := (List.pairwise_cons.mp (List.pairwise_append.mp hbefore).2.1).1
  constructor
  · rcases List.mem_append.mp hk with hk | hk
    · exact hfin k hk
    · rcases List.mem_cons.mp hk with rfl | hk
      · exact absurd rfl hne
      · exact absurd rfl (hlater k hk rfl)
  · rintro e hm rfl
    rcases hafter e hm with hj | hj
    · exact hne hj
    · exact hlater _ (List.mem_append_left _ hj) rfl rfl

end Serial

section Overlap

variable {limit : Nat}

theorem overlap_run {k d : J} (hlim : 1 < limit) (earlier later : List (List J)) (a b c : List J) :
    ∃ x : Exec Unit J, Reaches limit (earlier ++ (a ++ k :: (b ++ d :: c)) :: later) x ∧
      ¬ StartsAfter x.log d k := by
  have hf : ∀ (job : J) w, anyOutcome job w ((fun _ w => w) job w) true := fun _ _ => trivial
  obtain ⟨l1, h1⟩ := @run_groups _ _ _ limit _ hf () earlier
    ((a ++ k :: (b ++ d :: c)) :: later) []
  obtain ⟨l2, h2⟩ := @run_group _ _ _ limit _ hf () later a (k :: (b ++ d :: c)) l1
  have hk : Step anyOutcome limit ⟨(), later, k :: (b ++ d :: c), [], l2⟩
      ⟨(), later, b ++ d :: c, [(k, none)], l2 ++ [.start k]⟩ :=
    .launch () later k (b ++ d :: c) [] l2 (by simp)
  obtain ⟨l3, h3⟩ := @run_beside _ _ _ limit _ hf [(k, none)] (by simp; omega) () later b (d :: c)
    (l2 ++ [.start k])
  have hd : Step anyOutcome limit ⟨(), later, d :: c, [(k, none)], l3⟩
      ⟨(), later, c, [(k, none), (d, none)], l3 ++ [.start d]⟩ :=
    .launch () later d c [(k, none)] l3 (by simp; omega)
  have heffect : Step anyOutcome limit ⟨(), later, c, [(k, none), (d, none)], l3 ++ [.start d]⟩
      ⟨(), later, c, [(k, some true), (d, none)], l3 ++ [.start d]⟩ :=
    .effect () () later c [] k true [(d, none)] _ trivial
  have hfinish : Step anyOutcome limit
      ⟨(), later, c, [(k, some true), (d, none)], l3 ++ [.start d]⟩
      ⟨(), later, c, [(d, none)], l3 ++ [.start d] ++ [.finish k true]⟩ :=
    .finish () later c [] k true [(d, none)] _
  refine ⟨_, (h1.trans (.head (.next () _ later l1) (h2.trans (.head hk (h3.trans
    (.head hd (.head heffect (.head hfinish .refl)))))))), fun h => ?_⟩
  exact (h l3 [.finish k true] (by simp)).2 _ (List.mem_singleton_self _) rfl

end Overlap

end VeStorage.Lib.Grouped
