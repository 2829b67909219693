import Mathlib.Data.List.DropRight
import Mathlib.Data.List.Infix
import Mathlib.Algebra.GroupWithZero.Nat
import Mathlib.Algebra.Group.Int.Defs
import Mathlib.Order.Lattice

namespace VeStorage.Lib

abbrev Text := List Char

instance : LawfulBEq Text := inferInstance

section Bytes

-- The length of a text in its UTF-8 encoding.
def byteCount : Text → Nat
  | [] => 0
  | c :: t => c.utf8Size + byteCount t

@[simp] theorem byteCount_nil : byteCount [] = 0 := rfl

@[simp] theorem byteCount_cons (c : Char) (t : Text) : byteCount (c :: t) = c.utf8Size + byteCount t := rfl

@[simp] theorem byteCount_append (s t : Text) : byteCount (s ++ t) = byteCount s + byteCount t := by
  induction s with
  | nil => simp
  | cons c s ih => rw [List.cons_append, byteCount_cons, byteCount_cons, ih, Nat.add_assoc]

theorem byteCount_pos {t : Text} (h : t ≠ []) : 0 < byteCount t := by
  cases t with
  | nil => exact absurd rfl h
  | cons c t =>
    have := c.utf8Size_pos
    rw [byteCount_cons]
    omega

theorem byteCount_lt_append (s : Text) {t : Text} (h : t ≠ []) : byteCount s < byteCount (s ++ t) := by
  have := byteCount_pos h
  rw [byteCount_append]
  omega

end Bytes

section Trim

variable {α : Type} [DecidableEq α]

def trimStart (c : α) (t : List α) : List α := t.dropWhile (· = c)

def trimEnd (c : α) (t : List α) : List α := t.rdropWhile (· = c)

def trim (c : α) (t : List α) : List α := trimEnd c (trimStart c t)

def stripPrefix (p t : List α) : Option (List α) :=
  if p <+: t then some (t.drop p.length) else none

def trimStartMatchesFuel (p : List α) : Nat → List α → List α
  | 0, t => t
  | n + 1, t => if p <+: t then trimStartMatchesFuel p n (t.drop p.length) else t

def trimStartMatches (p t : List α) : List α := trimStartMatchesFuel p t.length t

def splitOnce (c : α) : List α → List α × Option (List α)
  | [] => ([], none)
  | x :: xs =>
      if x = c then ([], some xs) else (x :: (splitOnce c xs).1, (splitOnce c xs).2)

@[simp] theorem trimStart_nil (c : α) : trimStart c [] = [] := rfl

@[simp] theorem trimEnd_nil (c : α) : trimEnd c [] = [] := rfl

@[simp] theorem trimStart_cons_self (c : α) (t : List α) :
    trimStart c (c :: t) = trimStart c t := by simp [trimStart]

theorem trimStart_of_head_ne {c d : α} (h : d ≠ c) (t : List α) :
    trimStart c (d :: t) = d :: t := by simp [trimStart, h]

theorem head_trimStart (c d : α) (t rest : List α) (h : trimStart c t = d :: rest) : d ≠ c := by
  induction t with
  | nil => simp at h
  | cons x xs ih =>
    by_cases hx : x = c
    · subst hx
      exact ih (by simpa using h)
    · rw [trimStart_of_head_ne hx] at h
      obtain ⟨rfl, -⟩ := List.cons.inj h
      exact hx

theorem trimStart_eq_self {c : α} {t : List α} (h : ∀ rest, t ≠ c :: rest) :
    trimStart c t = t := by
  cases t with
  | nil => rfl
  | cons x xs =>
    apply trimStart_of_head_ne
    rintro rfl
    exact h xs rfl

@[simp] theorem trimStart_idem (c : α) (t : List α) :
    trimStart c (trimStart c t) = trimStart c t :=
  trimStart_eq_self fun rest h => head_trimStart c c t rest h rfl

theorem stripPrefix_append (p t : List α) : stripPrefix p (p ++ t) = some t := by
  simp [stripPrefix]

theorem stripPrefix_eq_some {p t r : List α} : stripPrefix p t = some r ↔ t = p ++ r := by
  unfold stripPrefix
  constructor
  · intro h
    split at h
    · obtain ⟨s, rfl⟩ := ‹p <+: t›
      simpa using h
    · cases h
  · rintro rfl
    simp

theorem trimStartMatches_append {p t : List α} (hp : p ≠ []) (h : ¬ p <+: t) :
    trimStartMatches p (p ++ t) = t := by
  have hl : 0 < p.length := List.length_pos_iff.mpr hp
  obtain ⟨n, hn⟩ : ∃ n, (p ++ t).length = n + 1 := ⟨p.length + t.length - 1, by simp; omega⟩
  unfold trimStartMatches
  rw [hn, trimStartMatchesFuel, if_pos (List.prefix_append p t), List.drop_left]
  cases n with
  | zero => rfl
  | succ n => simp [trimStartMatchesFuel, h]

theorem splitOnce_append {c : α} {a : List α} (h : c ∉ a) (b : List α) :
    splitOnce c (a ++ c :: b) = (a, some b) := by
  induction a with
  | nil => simp [splitOnce]
  | cons x a ih =>
    have hx : x ≠ c := fun hc => h (by simp [hc])
    have ha : c ∉ a := fun hm => h (by simp [hm])
    simp [splitOnce, hx, ih ha]

theorem splitOnce_of_not_mem {c : α} {t : List α} (h : c ∉ t) : splitOnce c t = (t, none) := by
  induction t with
  | nil => rfl
  | cons x t ih =>
    rw [List.mem_cons, not_or] at h
    rw [splitOnce, if_neg (Ne.symm h.1), ih h.2]

theorem splitOnce_fst_not_mem (c : α) (t : List α) : c ∉ (splitOnce c t).1 := by
  induction t with
  | nil => simp [splitOnce]
  | cons x t ih =>
    by_cases hx : x = c
    · simp [splitOnce, hx]
    · simpa [splitOnce, hx, Ne.symm hx] using ih

theorem splitOnce_eq {c : α} {t b : List α} (h : (splitOnce c t).2 = some b) :
    t = (splitOnce c t).1 ++ c :: b := by
  induction t with
  | nil => simp [splitOnce] at h
  | cons x t ih =>
    by_cases hx : x = c
    · simpa [splitOnce, hx] using h
    · simp only [splitOnce, if_neg hx] at h ⊢
      rw [List.cons_append, ← ih h]

theorem trimEnd_of_getLast_ne {c : α} {t : List α} (h : ∀ rest, t ≠ rest ++ [c]) :
    trimEnd c t = t := by
  unfold trimEnd
  rw [List.rdropWhile_eq_self_iff]
  intro hne
  rw [decide_eq_true_eq]
  intro hl
  apply h t.dropLast
  rw [← hl, List.dropLast_append_getLast]

theorem trimEnd_ne_append (c : α) (t rest : List α) : trimEnd c t ≠ rest ++ [c] := by
  intro h
  have hne : trimEnd c t ≠ [] := by simp [h]
  have := List.rdropWhile_last_not (fun x => decide (x = c)) t hne
  simp only [decide_eq_true_eq] at this
  apply this
  have hl : (trimEnd c t).getLast hne = c := by simp [h]
  exact hl

@[simp] theorem trimEnd_idem (c : α) (t : List α) : trimEnd c (trimEnd c t) = trimEnd c t :=
  trimEnd_of_getLast_ne fun rest => trimEnd_ne_append c t rest

theorem exists_trimEnd (c : α) (t : List α) : ∃ n, t = trimEnd c t ++ List.replicate n c := by
  refine ⟨(t.rtakeWhile (· = c)).length, ?_⟩
  have hs : t.rtakeWhile (· = c) = List.replicate (t.rtakeWhile (· = c)).length c := by
    refine List.eq_replicate_of_mem fun x hx => ?_
    simpa using List.mem_rtakeWhile_imp hx
  rw [← hs]
  exact List.rdropWhile_append_rtakeWhile.symm

theorem trimEnd_append_self (c : α) (t : List α) : trimEnd c (t ++ [c]) = trimEnd c t := by
  simp [trimEnd]

theorem trimEnd_append {c : α} {t : List α} (h : trimEnd c t ≠ []) (a : List α) :
    trimEnd c (a ++ t) = a ++ trimEnd c t := by
  rw [trimEnd, List.rdropWhile, List.reverse_append, List.dropWhile_append, if_neg]
  · rw [List.reverse_append, List.reverse_reverse]
    rfl
  · intro he
    exact h (by rw [trimEnd, List.rdropWhile, List.isEmpty_iff.mp he]; rfl)

theorem trimEnd_append_nil {c : α} {t : List α} (h : trimEnd c t = []) (a : List α) :
    trimEnd c (a ++ t) = trimEnd c a := by
  have hdrop : t.reverse.dropWhile (· = c) = [] := by simpa [trimEnd, List.rdropWhile] using h
  rw [trimEnd, List.rdropWhile, List.reverse_append, List.dropWhile_append, if_pos (by simp [hdrop])]
  rfl

theorem exists_trimStart (c : α) (t : List α) : ∃ n, t = List.replicate n c ++ trimStart c t := by
  refine ⟨(t.takeWhile (· = c)).length, ?_⟩
  have hs : t.takeWhile (· = c) = List.replicate (t.takeWhile (· = c)).length c := by
    refine List.eq_replicate_of_mem fun x hx => ?_
    simpa using List.mem_takeWhile_imp hx
  rw [← hs]
  exact List.takeWhile_append_dropWhile.symm

end Trim

section Segments

variable {α : Type} [DecidableEq α]

def segments (c : α) (t : List α) : List (List α) := (t.splitOn c).filter (· ≠ [])

def segmentDepth (c : α) (t : List α) : Nat := (segments c (trimEnd c t)).length

@[simp] theorem segments_nil (c : α) : segments c [] = [] := rfl

theorem segments_append (c : α) (a b : List α) :
    segments c (a ++ c :: b) = segments c a ++ segments c b := by
  simp [segments, List.splitOn_append_cons_self]

theorem segments_ne_nil {c : α} {t : List α} (h : ∃ x ∈ t, x ≠ c) : segments c t ≠ [] := by
  induction t with
  | nil => simp at h
  | cons y t ih =>
    by_cases hy : y = c
    · subst hy
      have hrest : segments y t ≠ [] := ih (by simpa using h)
      have hskip : segments y (y :: t) = segments y t := segments_append y [] t
      rwa [hskip]
    · obtain ⟨s, ss, hs⟩ := List.exists_cons_of_ne_nil (List.splitOn_ne_nil c t)
      simp [segments, List.splitOn_cons_eq_if_modifyHead, hy, hs]

omit [DecidableEq α] in
theorem exists_ne_of_getLast {c : α} {t : List α} (hne : t ≠ []) (h : ∀ rest, t ≠ rest ++ [c]) :
    ∃ x ∈ t, x ≠ c := by
  refine ⟨t.getLast hne, List.getLast_mem hne, fun hl => h t.dropLast ?_⟩
  rw [← hl, List.dropLast_append_getLast]

theorem segmentDepth_lt {c : α} {a t : List α} (ha : trimEnd c a = a) (ht : trimEnd c t = t)
    {r : List α} (h : t = a ++ c :: r) : segmentDepth c a < segmentDepth c t := by
  have hr : r ≠ [] := by
    rintro rfl
    exact trimEnd_ne_append c t a (ht.trans h)
  have hlast : ∀ rest, r ≠ rest ++ [c] := by
    rintro rest rfl
    exact trimEnd_ne_append c t (a ++ c :: rest) (by rw [ht, h]; simp)
  have hseg := List.length_pos_iff.mpr (segments_ne_nil (exists_ne_of_getLast hr hlast))
  unfold segmentDepth
  rw [ha, ht, h, segments_append, List.length_append]
  omega

end Segments

end VeStorage.Lib
