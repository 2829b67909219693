import Mathlib.Data.List.Infix

namespace VeStorage.Lib.Glob

variable {α : Type}

inductive Symbol (α : Type) where
  | lit (c : α)
  | one
  | many
deriving DecidableEq, Repr

-- `take u w` says which `u` a `many` may take in front of what is left, `w`.
inductive Matches (take : List α → List α → Prop) : List α → List (Symbol α) → Prop where
  | nil : Matches take [] []
  | lit {v p} (c : α) (h : Matches take v p) : Matches take (c :: v) (.lit c :: p)
  | one {v p} (c : α) (h : Matches take v p) : Matches take (c :: v) (.one :: p)
  | many {v p} (u : List α) (ht : take u v) (h : Matches take v p) :
      Matches take (u ++ v) (.many :: p)

abbrev Denotes (v : List α) (p : List (Symbol α)) : Prop := Matches (fun _ _ => True) v p

theorem Matches.mono {take take' : List α → List α → Prop} (hle : ∀ u v, take u v → take' u v)
    {v : List α} {p : List (Symbol α)} (h : Matches take v p) : Matches take' v p := by
  induction h with
  | nil => exact .nil
  | lit c _ ih => exact .lit c ih
  | one c _ ih => exact .one c ih
  | many u ht _ ih => exact .many u (hle _ _ ht) ih

theorem Matches.denotes {take : List α → List α → Prop} {v : List α} {p : List (Symbol α)}
    (h : Matches take v p) : Denotes v p := h.mono fun _ _ _ => trivial

section Inversion

variable {take : List α → List α → Prop} {v : List α} {p : List (Symbol α)}

@[simp] theorem matches_nil : Matches take v [] ↔ v = [] := by
  constructor
  · rintro ⟨⟩
    rfl
  · rintro rfl
    exact .nil

theorem matches_lit {c : α} :
    Matches take v (.lit c :: p) ↔ ∃ w, v = c :: w ∧ Matches take w p := by
  constructor
  · rintro ⟨⟩
    exact ⟨_, rfl, by assumption⟩
  · rintro ⟨w, rfl, h⟩
    exact .lit c h

theorem matches_one : Matches take v (.one :: p) ↔ ∃ c w, v = c :: w ∧ Matches take w p := by
  constructor
  · rintro ⟨⟩
    exact ⟨_, _, rfl, by assumption⟩
  · rintro ⟨c, w, rfl, h⟩
    exact .one c h

theorem matches_many :
    Matches take v (.many :: p) ↔ ∃ u w, v = u ++ w ∧ take u w ∧ Matches take w p := by
  constructor
  · rintro ⟨⟩
    exact ⟨_, _, rfl, by assumption, by assumption⟩
  · rintro ⟨u, w, rfl, ht, h⟩
    exact .many u ht h

end Inversion

theorem matches_ones (take : List α → List α → Prop) (v : List α) (n : Nat) :
    Matches take v (List.replicate n .one) ↔ v.length = n := by
  induction n generalizing v with
  | zero => simp
  | succ n ih =>
    rw [List.replicate_succ, matches_one]
    constructor
    · rintro ⟨c, w, rfl, h⟩
      simpa using (ih w).mp h
    · intro h
      obtain ⟨c, w, rfl⟩ := List.exists_cons_of_length_eq_add_one h
      exact ⟨c, w, rfl, (ih w).mpr (by simpa using h)⟩

theorem matches_ones_append (take : List α → List α → Prop) (u v : List α)
    (p : List (Symbol α)) :
    Matches take (u ++ v) (List.replicate u.length .one ++ p) ↔ Matches take v p := by
  induction u with
  | nil => rfl
  | cons c u ih =>
    rw [List.length_cons, List.replicate_succ, List.cons_append, List.cons_append, matches_one]
    constructor
    · rintro ⟨d, w, he, h⟩
      obtain ⟨rfl, rfl⟩ := List.cons.inj he
      exact ih.mp h
    · exact fun h => ⟨c, _, rfl, ih.mpr h⟩

section Denotes

variable {v : List α} {p : List (Symbol α)}

theorem denotes_many : Denotes v (.many :: p) ↔ ∃ w, w <:+ v ∧ Denotes w p := by
  rw [Denotes, matches_many]
  constructor
  · rintro ⟨u, w, rfl, -, h⟩
    exact ⟨w, List.suffix_append u w, h⟩
  · rintro ⟨w, ⟨u, rfl⟩, h⟩
    exact ⟨u, w, rfl, trivial, h⟩

theorem denotes_append {q : List (Symbol α)} :
    Denotes v (p ++ q) ↔ ∃ u w, v = u ++ w ∧ Denotes u p ∧ Denotes w q := by
  constructor
  · intro h
    induction p generalizing v with
    | nil => exact ⟨[], v, rfl, .nil, h⟩
    | cons x p ih =>
      cases h with
      | lit c h =>
        obtain ⟨u, w, rfl, hu, hw⟩ := ih h
        exact ⟨c :: u, w, rfl, .lit c hu, hw⟩
      | one c h =>
        obtain ⟨u, w, rfl, hu, hw⟩ := ih h
        exact ⟨c :: u, w, rfl, .one c hu, hw⟩
      | many t _ h =>
        obtain ⟨u, w, rfl, hu, hw⟩ := ih h
        exact ⟨t ++ u, w, by simp, .many t trivial hu, hw⟩
  · rintro ⟨u, w, rfl, hu, hw⟩
    induction hu with
    | nil => exact hw
    | lit c _ ih => exact .lit c ih
    | one c _ ih => exact .one c ih
    | many t _ _ ih =>
      rw [List.append_assoc]
      exact .many t trivial ih

theorem denotes_lits {s : List α} : Denotes v (s.map .lit) ↔ v = s := by
  induction s generalizing v with
  | nil => simp [Denotes]
  | cons c s ih =>
    rw [List.map_cons, Denotes, matches_lit]
    constructor
    · rintro ⟨w, rfl, h⟩
      rw [ih.mp h]
    · rintro rfl
      exact ⟨s, rfl, ih.mpr rfl⟩

theorem denotes_many_self : Denotes v [.many] := denotes_many.mpr ⟨[], List.nil_suffix, .nil⟩

theorem denotes_many_mono {w : List α} (h : Denotes w (.many :: p)) (hs : w <:+ v) :
    Denotes v (.many :: p) := by
  obtain ⟨x, hx, hp⟩ := denotes_many.mp h
  exact denotes_many.mpr ⟨x, hx.trans hs, hp⟩

theorem denotes_snoc_many_mono {w : List α} (h : Denotes w (p ++ [.many])) (hp : w <+: v) :
    Denotes v (p ++ [.many]) := by
  obtain ⟨u, x, rfl, hu, -⟩ := denotes_append.mp h
  obtain ⟨t, rfl⟩ := hp
  exact denotes_append.mpr ⟨u, x ++ t, by simp, hu, denotes_many_self⟩

end Denotes

end VeStorage.Lib.Glob
