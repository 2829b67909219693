import VeStorage.Lib.Text

namespace VeStorage.Lib

section Components

variable {α : Type} [DecidableEq α]

def join (c : α) (parts : List (List α)) : List α := [c].intercalate parts

-- The leading components of a path, joined; the last one is the path itself.
def prefixes (c : α) (t : List α) : List (List α) :=
  (List.range (t.splitOn c).length).map fun count => join c ((t.splitOn c).take (count + 1))

variable {c : α} {t q rest : List α} {a b : List (List α)} {n : Nat}

@[simp] theorem join_splitOn (c : α) (t : List α) : join c (t.splitOn c) = t :=
  List.intercalate_splitOn c

omit [DecidableEq α] in
theorem join_append (ha : a ≠ []) (hb : b ≠ []) : join c (a ++ b) = join c a ++ c :: join c b := by
  induction a with
  | nil => exact absurd rfl ha
  | cons x a ih =>
    cases a with
    | nil => simp [join, List.intercalate_cons_of_ne_nil hb, List.intercalate_singleton]
    | cons y a =>
      have hrest := ih (List.cons_ne_nil y a)
      rw [join] at hrest
      simp only [join, List.cons_append, List.intercalate_cons_cons, List.append_assoc] at hrest ⊢
      rw [hrest]

omit [DecidableEq α] in
theorem cons_join (ha : a ≠ []) : c :: join c a = a.flatMap (c :: ·) := by
  induction a with
  | nil => exact absurd rfl ha
  | cons x a ih =>
    cases a with
    | nil => simp [join, List.intercalate_singleton]
    | cons y a =>
      rw [List.flatMap_cons, ← ih (List.cons_ne_nil y a)]
      simp [join, List.intercalate_cons_cons]

omit [DecidableEq α] in
theorem join_ne_nil (ha : a ≠ []) (h : ∀ part ∈ a, part ≠ []) : join c a ≠ [] := by
  obtain ⟨x, rest, rfl⟩ := List.exists_cons_of_ne_nil ha
  have hx : x ≠ [] := h x List.mem_cons_self
  cases rest with
  | nil => simpa [join, List.intercalate_singleton] using hx
  | cons y rest => simp [join, List.intercalate_cons_cons, hx]

omit [DecidableEq α] in
theorem mem_join {x : α} (h : x ∈ join c a) (hx : x ≠ c) : ∃ part ∈ a, x ∈ part := by
  have hcons := List.mem_cons_of_mem c h
  by_cases ha : a = []
  · subst ha
    cases h
  · rw [cons_join ha] at hcons
    obtain ⟨part, hpart, hmem⟩ := List.mem_flatMap.mp hcons
    exact ⟨part, hpart, (List.mem_cons.mp hmem).resolve_left hx⟩

theorem splitOn_length_pos (c : α) (t : List α) : 0 < (t.splitOn c).length :=
  List.length_pos_iff.mpr (List.splitOn_ne_nil c t)

theorem prefixes_last : join c ((t.splitOn c).take (t.splitOn c).length) = t := by
  rw [List.take_length, join_splitOn]

theorem take_splitOn (hn : 0 < n) (hlt : n < (t.splitOn c).length) :
    t = join c ((t.splitOn c).take n) ++ c :: join c ((t.splitOn c).drop n) := by
  have htake : (t.splitOn c).take n ≠ [] := by
    rw [← List.length_pos_iff, List.length_take]
    omega
  have hdrop : (t.splitOn c).drop n ≠ [] := by
    rw [← List.length_pos_iff, List.length_drop]
    omega
  rw [← join_append htake hdrop, List.take_append_drop, join_splitOn]

theorem prefix_components (h : t = q ++ c :: rest) :
    (t.splitOn c).take (q.splitOn c).length = q.splitOn c ∧
      (q.splitOn c).length < (t.splitOn c).length := by
  rw [h, List.splitOn_append_cons_self]
  refine ⟨List.take_left, ?_⟩
  rw [List.length_append]
  exact Nat.lt_add_of_pos_right (splitOn_length_pos c rest)

theorem prefixes_append (c : α) (a b : List α) :
    prefixes c (a ++ c :: b) = prefixes c a ++ (prefixes c b).map (a ++ c :: ·) := by
  rw [prefixes, List.splitOn_append_cons_self, List.length_append, List.range_add, List.map_append]
  congr 1
  · refine List.map_congr_left fun count hcount => ?_
    rw [List.take_append_of_le_length (Nat.succ_le_of_lt (List.mem_range.mp hcount))]
  · rw [prefixes, List.map_map, List.map_map]
    refine List.map_congr_left fun count hcount => ?_
    have hne : (b.splitOn c).take (count + 1) ≠ [] := by
      rw [← List.length_pos_iff, List.length_take]
      exact lt_min (Nat.succ_pos count) (splitOn_length_pos c b)
    rw [Function.comp_apply, Function.comp_apply, Nat.add_assoc,
      List.take_length_add_append, join_append (List.splitOn_ne_nil c a) hne, join_splitOn]

theorem prefixes_of_not_mem (h : c ∉ t) : prefixes c t = [t] := by
  have hsplit : t.splitOn c = [t] := by
    have hone : ([c].intercalate [t]).splitOn c = [t] :=
      List.splitOn_intercalate c (by simpa using h) (List.cons_ne_nil _ _)
    rwa [List.intercalate_singleton] at hone
  simp [prefixes, hsplit, join, List.intercalate_singleton]

theorem prefixes_dropLast (c : α) (t : List α) : (prefixes c t).dropLast =
    (List.range ((t.splitOn c).length - 1)).map fun count => join c ((t.splitOn c).take (count + 1)) := by
  obtain ⟨n, hn⟩ := Nat.exists_eq_succ_of_ne_zero (splitOn_length_pos c t).ne'
  rw [prefixes, hn, List.range_succ, List.map_append, List.map_singleton, List.dropLast_concat]
  rfl

theorem prefixes_eq_concat (c : α) (t : List α) : prefixes c t = (prefixes c t).dropLast ++ [t] := by
  have hpos := splitOn_length_pos c t
  have hrange : List.range (t.splitOn c).length =
      List.range ((t.splitOn c).length - 1) ++ [(t.splitOn c).length - 1] := by
    rw [← List.range_succ, Nat.succ_eq_add_one, Nat.sub_add_cancel hpos]
  rw [prefixes_dropLast, prefixes, hrange, List.map_append, List.map_singleton,
    Nat.sub_add_cancel hpos, prefixes_last]

theorem mem_prefixes_dropLast : q ∈ (prefixes c t).dropLast ↔ ∃ rest, t = q ++ c :: rest := by
  rw [prefixes_dropLast, List.mem_map]
  constructor
  · rintro ⟨count, hcount, rfl⟩
    have hlt := List.mem_range.mp hcount
    exact ⟨_, take_splitOn (Nat.succ_pos count) (by omega)⟩
  · rintro ⟨rest, hrest⟩
    obtain ⟨htake, hlt⟩ := prefix_components hrest
    have hq := splitOn_length_pos c q
    refine ⟨(q.splitOn c).length - 1, List.mem_range.mpr (by omega), ?_⟩
    rw [Nat.sub_add_cancel hq, htake, join_splitOn]

theorem mem_prefixes : q ∈ prefixes c t ↔ q = t ∨ ∃ rest, t = q ++ c :: rest := by
  rw [prefixes_eq_concat, List.mem_append, mem_prefixes_dropLast, List.mem_singleton, or_comm]

theorem not_mem_splitOn (c : α) (t : List α) : ∀ part ∈ t.splitOn c, c ∉ part := by
  induction t with
  | nil => simp
  | cons x t ih =>
    rw [List.splitOn_cons_eq_if_modifyHead]
    split
    next =>
      intro part hp
      rcases List.mem_cons.mp hp with rfl | hp
      · exact List.not_mem_nil
      · exact ih part hp
    next hx =>
      obtain ⟨head, tail, hs⟩ := List.exists_cons_of_ne_nil (List.splitOn_ne_nil c t)
      rw [hs] at ih ⊢
      intro part hp
      rcases List.mem_cons.mp hp with rfl | hp
      · intro hc
        rcases List.mem_cons.mp hc with rfl | hc
        · exact hx (by simp)
        · exact ih head List.mem_cons_self hc
      · exact ih part (List.mem_cons_of_mem _ hp)

theorem not_mem_last_splitOn (c : α) (t : List α) : c ∉ (t.splitOn c).getLastD [] := by
  rcases List.eq_nil_or_concat (t.splitOn c) with he | ⟨init, x, hx⟩
  · exact absurd he (List.splitOn_ne_nil c t)
  · rw [List.concat_eq_append] at hx
    rw [hx, List.getLastD_concat]
    exact not_mem_splitOn c t x (by simp [hx])

theorem join_inj (ha : ∀ part ∈ a, c ∉ part) (hb : ∀ part ∈ b, c ∉ part) (hne : a ≠ [])
    (hne' : b ≠ []) : join c a = join c b ↔ a = b := by
  refine ⟨fun h => ?_, congrArg _⟩
  have hsplit := congrArg (List.splitOn c) h
  rwa [join, List.splitOn_intercalate c ha hne, join, List.splitOn_intercalate c hb hne'] at hsplit

-- The separator is kept, so the first path is a proper ancestor of the second.
theorem join_below_iff (ha : ∀ part ∈ a, c ∉ part) (hb : ∀ part ∈ b, c ∉ part) (hne : a ≠ [])
    (hne' : b ≠ []) : join c a ++ [c] <+: join c b ↔ a <+: b ∧ a ≠ b := by
  constructor
  · rintro ⟨rest, h⟩
    have heq : join c b = join c a ++ c :: rest := by simp [← h]
    have hsplit := prefix_components heq
    rw [join, List.splitOn_intercalate c ha hne, join, List.splitOn_intercalate c hb hne'] at hsplit
    refine ⟨List.prefix_iff_eq_take.mpr hsplit.1.symm, ?_⟩
    rintro rfl
    exact lt_irrefl _ hsplit.2
  · rintro ⟨⟨rest, rfl⟩, h⟩
    have hrest : rest ≠ [] := by
      rintro rfl
      simp at h
    rw [join_append hne hrest]
    exact ⟨join c rest, by simp⟩

-- A map of texts that works component by component.
structure Componentwise (c : α) (f : List α → List α) : Prop where
  map_append : ∀ a b, f (a ++ c :: b) = f a ++ c :: f b
  not_mem : ∀ a, c ∉ a → c ∉ f a

namespace Componentwise

variable {f : List α → List α}

omit [DecidableEq α] in
theorem map_join (h : Componentwise c f) (ha : a ≠ []) : f (join c a) = join c (a.map f) := by
  induction a with
  | nil => exact absurd rfl ha
  | cons x a ih =>
    cases a with
    | nil => simp [join, List.intercalate_singleton]
    | cons y a =>
      have hrest := ih (List.cons_ne_nil y a)
      simp only [join, List.map_cons, List.intercalate_cons_cons] at hrest ⊢
      rw [List.append_assoc, List.singleton_append, h.map_append, hrest, List.append_assoc,
        List.singleton_append]

theorem splitOn_map (h : Componentwise c f) (t : List α) :
    (f t).splitOn c = (t.splitOn c).map f := by
  have hne : (t.splitOn c).map f ≠ [] := fun he => List.splitOn_ne_nil c t (List.map_eq_nil_iff.mp he)
  have hparts : ∀ part ∈ (t.splitOn c).map f, c ∉ part := by
    intro part hp
    obtain ⟨x, hx, rfl⟩ := List.mem_map.mp hp
    exact h.not_mem x (not_mem_splitOn c t x hx)
  have ht := h.map_join (a := t.splitOn c) (List.splitOn_ne_nil c t)
  rw [join_splitOn] at ht
  rw [ht]
  exact List.splitOn_intercalate c hparts hne

-- A component prefix of the image is the image of a component prefix.
theorem exists_prefix (h : Componentwise c f) {r : List α} (hp : f t = q ++ c :: r) :
    ∃ p rest, t = p ++ c :: rest ∧ f p = q := by
  have hsplit := congrArg (List.splitOn c) hp
  rw [List.splitOn_append_cons_self, h.splitOn_map] at hsplit
  have hlength := congrArg List.length hsplit
  rw [List.length_append, List.length_map] at hlength
  have hr := splitOn_length_pos c r
  have hq := splitOn_length_pos c q
  refine ⟨_, _, take_splitOn hq (by omega), ?_⟩
  have hne : (t.splitOn c).take (q.splitOn c).length ≠ [] := by
    rw [← List.length_pos_iff, List.length_take]
    omega
  have htake : ((t.splitOn c).take (q.splitOn c).length).map f = q.splitOn c := by
    rw [List.map_take, hsplit]
    exact List.take_left' rfl
  rw [h.map_join hne, htake, join_splitOn]

end Componentwise

end Components

section Segments

variable {α : Type} [DecidableEq α] {c : α}

theorem segments_replicate (c : α) (n : Nat) : segments c (List.replicate n c) = [] := by
  induction n with
  | zero => rfl
  | succ n ih => exact (segments_append c [] (List.replicate n c)).trans ih

theorem segments_trimEnd (c : α) (t : List α) : segments c (trimEnd c t) = segments c t := by
  obtain ⟨n, hn⟩ := exists_trimEnd c t
  conv_rhs => rw [hn]
  cases n with
  | zero => simp
  | succ n => rw [List.replicate_succ, segments_append, segments_replicate, List.append_nil]

theorem segments_trimStart (c : α) (t : List α) : segments c (trimStart c t) = segments c t := by
  induction t with
  | nil => rfl
  | cons d t ih =>
    rcases eq_or_ne d c with rfl | hd
    · rw [trimStart_cons_self, ih]
      exact (segments_append d [] t).symm
    · rw [trimStart_of_head_ne hd]

theorem segments_trim (c : α) (t : List α) : segments c (trim c t) = segments c t := by
  rw [trim, segments_trimEnd, segments_trimStart]

theorem mem_segments {s t : List α} (h : s ∈ segments c t) : c ∉ s ∧ s ≠ [] := by
  obtain ⟨hs, hne⟩ := List.mem_filter.mp h
  exact ⟨not_mem_splitOn c t s hs, by simpa using hne⟩

def PlainNames (c : α) (names : List (List α)) : Prop := ∀ name ∈ names, c ∉ name ∧ name ≠ []

theorem plainNames_segments (c : α) (t : List α) : PlainNames c (segments c t) := fun _ h => mem_segments h

theorem splitOn_join {names : List (List α)} (h : PlainNames c names) (hne : names ≠ []) :
    (join c names).splitOn c = names :=
  List.splitOn_intercalate c (fun name hn => (h name hn).1) hne

theorem segments_join {names : List (List α)} (h : PlainNames c names) :
    segments c (join c names) = names := by
  by_cases hne : names = []
  · subst hne
    rfl
  · rw [segments, splitOn_join h hne, List.filter_eq_self]
    exact fun name hn => by simpa using (h name hn).2

omit [DecidableEq α] in
theorem PlainNames.of_subset {names more : List (List α)} (h : PlainNames c more) (hs : names ⊆ more) :
    PlainNames c names := fun name hn => h name (hs hn)

theorem join_splits {names : List (List α)} {g r : List α} (h : PlainNames c names)
    (he : join c names = g ++ c :: r) : names = g.splitOn c ++ r.splitOn c := by
  have hne : names ≠ [] := by
    rintro rfl
    simp [join] at he
  rw [← splitOn_join h hne, he, List.splitOn_append_cons_self]

theorem head_join {names : List (List α)} (h : PlainNames c names) {d : α} {rest : List α}
    (he : join c names = d :: rest) : d ≠ c := by
  rintro rfl
  have hsplit := join_splits (g := []) h he
  exact (h [] (by simp [hsplit])).2 rfl

theorem trimStart_join {names : List (List α)} (h : PlainNames c names) :
    trimStart c (join c names) = join c names := by
  refine trimStart_eq_self fun rest he => head_join h he rfl

theorem trim_join {names : List (List α)} (h : PlainNames c names) :
    trim c (join c names) = join c names := by
  rw [trim, trimStart_join h]
  refine trimEnd_of_getLast_ne fun rest he => ?_
  have hsplit := join_splits (r := []) h he
  exact (h [] (by simp [hsplit])).2 rfl

end Segments

end VeStorage.Lib
