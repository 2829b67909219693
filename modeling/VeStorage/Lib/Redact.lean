import Mathlib.Data.List.Infix

namespace VeStorage.Lib.Redact

variable {α : Type} {p v new s : List α} {values : List (List α)}

theorem infix_of_append (hv : v ≠ []) (hd : v.Disjoint new) (h : v <:+: new ++ s) : v <:+: s := by
  induction new with
  | nil => exact h
  | cons c new ih =>
    rw [List.disjoint_cons_right] at hd
    rcases List.infix_cons_iff.mp h with hpre | hrest
    · obtain ⟨x, v, rfl⟩ := List.exists_cons_of_ne_nil hv
      obtain rfl : x = c := (List.cons_prefix_cons.mp hpre).1
      exact absurd List.mem_cons_self hd.1
    · exact ih hd.2 hrest

theorem not_prefix_append (hv : v ≠ []) (hnew : new ≠ []) (hd : v.Disjoint new) :
    ¬ v <+: new ++ s := by
  obtain ⟨x, v, rfl⟩ := List.exists_cons_of_ne_nil hv
  obtain ⟨c, new, rfl⟩ := List.exists_cons_of_ne_nil hnew
  intro h
  obtain rfl : x = c := (List.cons_prefix_cons.mp h).1
  exact hd List.mem_cons_self List.mem_cons_self

variable [DecidableEq α]

-- The first argument counts what is left of the last occurrence found.
def replaceFrom (p new : List α) : Nat → List α → List α
  | _, [] => []
  | n + 1, _ :: s => replaceFrom p new n s
  | 0, c :: s =>
    if p <+: c :: s then new ++ replaceFrom p new (p.length - 1) s else c :: replaceFrom p new 0 s

-- The occurrences are taken from the left and do not overlap.
def replace (p new s : List α) : List α := replaceFrom p new 0 s

def redact (new : List α) (values : List (List α)) (s : List α) : List α :=
  (values.filter fun value => !value.isEmpty).foldl (fun safe value => replace value new safe) s

@[simp] theorem redact_nil (new s : List α) : redact new [] s = s := rfl

theorem prefix_of_replace (hnew : new ≠ []) (hd : v.Disjoint new) (h : v <+: replace p new s) :
    v <+: s := by
  induction s generalizing v with
  | nil => exact h
  | cons c s ih =>
    rcases eq_or_ne v [] with rfl | hv
    · exact List.nil_prefix
    unfold replace at h
    rw [replaceFrom] at h
    split at h
    · exact absurd h (not_prefix_append hv hnew hd)
    · obtain ⟨x, v, rfl⟩ := List.exists_cons_of_ne_nil hv
      obtain ⟨rfl, hrest⟩ := List.cons_prefix_cons.mp h
      rw [List.disjoint_cons_left] at hd
      exact List.cons_prefix_cons.mpr ⟨rfl, ih hd.2 hrest⟩

theorem infix_of_replaceFrom {n : Nat} (hv : v ≠ []) (hnew : new ≠ []) (hd : v.Disjoint new)
    (h : v <:+: replaceFrom p new n s) : v <:+: s := by
  induction s generalizing n with
  | nil =>
    rw [replaceFrom] at h
    exact h
  | cons c s ih =>
    cases n with
    | succ n => exact List.infix_cons (ih h)
    | zero =>
      by_cases hp : p <+: c :: s
      · rw [replaceFrom, if_pos hp] at h
        exact List.infix_cons (ih (infix_of_append hv hd h))
      · have hwhole : v <+: replace p new (c :: s) → v <+: c :: s := prefix_of_replace hnew hd
        rw [replace, replaceFrom, if_neg hp] at hwhole
        rw [replaceFrom, if_neg hp] at h
        rcases List.infix_cons_iff.mp h with hpre | hrest
        · exact (hwhole hpre).isInfix
        · exact List.infix_cons (ih hrest)

theorem not_infix_replaceFrom {n : Nat} (hp : p ≠ []) (hnew : new ≠ []) (hd : p.Disjoint new) :
    ¬ p <:+: replaceFrom p new n s := by
  induction s generalizing n with
  | nil =>
    rw [replaceFrom, List.infix_nil]
    exact hp
  | cons c s ih =>
    cases n with
    | succ n => exact ih
    | zero =>
      by_cases hc : p <+: c :: s
      · rw [replaceFrom, if_pos hc]
        exact fun h => ih (infix_of_append hp hd h)
      · have hwhole : p <+: replace p new (c :: s) → p <+: c :: s := prefix_of_replace hnew hd
        rw [replace, replaceFrom, if_neg hc] at hwhole
        rw [replaceFrom, if_neg hc, List.infix_cons_iff, not_or]
        exact ⟨mt hwhole hc, ih⟩

theorem infix_of_replaces (hv : v ≠ []) (hnew : new ≠ []) (hd : v.Disjoint new)
    (h : v <:+: values.foldl (fun safe value => replace value new safe) s) : v <:+: s := by
  induction values generalizing s with
  | nil => exact h
  | cons value values ih => exact infix_of_replaceFrom hv hnew hd (ih h)

theorem infix_of_redact (hv : v ≠ []) (hnew : new ≠ []) (hd : v.Disjoint new)
    (h : v <:+: redact new values s) : v <:+: s :=
  infix_of_replaces hv hnew hd h

-- What is cleaned away once does not come back with a later replacement.
theorem not_infix_redact (hv : v ≠ []) (hnew : new ≠ []) (hd : v.Disjoint new) (hmem : v ∈ values) :
    ¬ v <:+: redact new values s := by
  have hfilter : v ∈ values.filter fun value => !value.isEmpty :=
    List.mem_filter.mpr ⟨hmem, by simpa using hv⟩
  obtain ⟨before, after, hsplit⟩ := List.append_of_mem hfilter
  unfold redact
  rw [hsplit, List.foldl_append, List.foldl_cons]
  exact mt (infix_of_replaces hv hnew hd) (not_infix_replaceFrom hv hnew hd)

theorem replaceFrom_eq_self (h : ¬ p <:+: s) : replaceFrom p new 0 s = s := by
  induction s with
  | nil => rw [replaceFrom]
  | cons c s ih =>
    rw [List.infix_cons_iff, not_or] at h
    rw [replaceFrom, if_neg h.1, ih h.2]

theorem redact_eq_self (h : ∀ v ∈ values, v ≠ [] → ¬ v <:+: s) : redact new values s = s := by
  induction values with
  | nil => rfl
  | cons value values ih =>
    have hrest := ih fun v hv => h v (List.mem_cons_of_mem _ hv)
    unfold redact at hrest ⊢
    rcases eq_or_ne value [] with rfl | hvalue
    · exact hrest
    · rw [List.filter_cons_of_pos (by simpa using hvalue), List.foldl_cons, replace,
        replaceFrom_eq_self (h value List.mem_cons_self hvalue)]
      exact hrest

theorem replaceFrom_eq_self_of_not_mem {c : α} (hc : c ∈ new) (h : c ∉ replaceFrom p new 0 s) :
    replaceFrom p new 0 s = s := by
  induction s with
  | nil => rw [replaceFrom]
  | cons d s ih =>
    rw [replaceFrom] at h ⊢
    split
    · rename_i hp
      rw [if_pos hp] at h
      exact absurd (List.mem_append_left _ hc) h
    · rename_i hp
      rw [if_neg hp, List.mem_cons, not_or] at h
      rw [ih h.2]

theorem replaces_eq_self_of_not_mem {c : α} (hc : c ∈ new)
    (h : c ∉ values.foldl (fun safe value => replace value new safe) s) :
    values.foldl (fun safe value => replace value new safe) s = s := by
  induction values generalizing s with
  | nil => rfl
  | cons value values ih =>
    rw [List.foldl_cons] at h ⊢
    have hrest := ih h
    rw [hrest] at h ⊢
    exact replaceFrom_eq_self_of_not_mem hc h

-- A replacement leaves its mark.
theorem redact_eq_self_of_not_mem {c : α} (hc : c ∈ new) (h : c ∉ redact new values s) :
    redact new values s = s :=
  replaces_eq_self_of_not_mem hc h

end VeStorage.Lib.Redact
