import VeStorage.Tos.Glob

namespace VeStorage.Tos
open Lib Lib.Glob

structure Cursor where
  vi : Nat
  pi : Nat
  star : Option Nat
  matchI : Nat

def Cursor.start : Cursor := ⟨0, 0, none, 0⟩

-- Both scans read by index; `none` is an index out of range or a loop that has not ended.
def closingStars (pattern : Bytes) : Nat → Nat → Option Bool
  | 0, _ => none
  | fuel + 1, pi =>
      if pi < pattern.length then do
        let p ← pattern[pi]?
        if p = asterisk then closingStars pattern fuel (pi + 1) else some (decide (pi = pattern.length))
      else some (decide (pi = pattern.length))

def Cursor.retry (c : Cursor) : Option Cursor :=
  c.star.map fun s => ⟨c.matchI + 1, s + 1, some s, c.matchI + 1⟩

def wildcardIndexed (value pattern : Bytes) : Nat → Cursor → Option Bool
  | 0, _ => none
  | fuel + 1, c =>
      if c.vi < value.length then
        if c.pi < pattern.length then do
          let v ← value[c.vi]?
          let p ← pattern[c.pi]?
          if p = question ∨ p = v then
            wildcardIndexed value pattern fuel { c with vi := c.vi + 1, pi := c.pi + 1 }
          else if p = asterisk then
            wildcardIndexed value pattern fuel
              { c with pi := c.pi + 1, star := some c.pi, matchI := c.vi }
          else match c.retry with
            | some c => wildcardIndexed value pattern fuel c
            | none => some false
        else match c.retry with
          | some c => wildcardIndexed value pattern fuel c
          | none => some false
      else closingStars pattern (pattern.length + 1) c.pi

structure Cursor.InRange (value pattern : Bytes) (c : Cursor) : Prop where
  vi : c.vi ≤ value.length
  pi : c.pi ≤ pattern.length
  star : ∀ s ∈ c.star, s < pattern.length ∧ c.matchI ≤ c.vi

def Cursor.saved (value pattern : Bytes) (c : Cursor) : Option (Bytes × Bytes) :=
  c.star.map fun s => (pattern.drop (s + 1), value.drop c.matchI)

theorem closingStars_spec (pattern : Bytes) (fuel pi : Nat) (hp : pi ≤ pattern.length)
    (hf : pattern.length < fuel + pi) :
    closingStars pattern fuel pi = some (decide (trimStart asterisk (pattern.drop pi) = [])) := by
  induction fuel generalizing pi with
  | zero => omega
  | succ fuel ih =>
    rcases Nat.lt_or_ge pi pattern.length with hlt | hge
    · rw [closingStars, if_pos hlt, List.getElem?_eq_getElem hlt, Option.bind_eq_bind,
        Option.bind_some, List.drop_eq_getElem_cons hlt]
      split
      · rename_i hs
        rw [hs, trimStart_cons_self]
        exact ih (pi + 1) hlt (by omega)
      · rename_i hs
        rw [trimStart_of_head_ne hs]
        simp [Nat.ne_of_lt hlt, hlt]
    · obtain rfl : pi = pattern.length := by omega
      rw [closingStars, if_neg (lt_irrefl _), List.drop_length]
      simp

theorem Cursor.InRange.retry {value pattern : Bytes} {c d : Cursor}
    (h : c.InRange value pattern) (hv : c.vi < value.length) (hd : c.retry = some d) :
    d.InRange value pattern := by
  obtain ⟨s, hs, rfl⟩ := Option.map_eq_some_iff.mp hd
  obtain ⟨hlt, hm⟩ := h.star s hs
  refine ⟨by dsimp only; omega, hlt, ?_⟩
  rintro _ ⟨⟩
  exact ⟨hlt, le_rfl⟩

theorem retry_agrees {value pattern : Bytes} {fuel : Nat} {c : Cursor}
    (h : c.InRange value pattern) (hv : c.vi < value.length)
    (ih : ∀ d : Cursor, d.InRange value pattern → wildcardIndexed value pattern fuel d =
      wildcardLoop fuel (value.drop d.vi) (pattern.drop d.pi) (d.saved value pattern)) :
    (match c.retry with
      | some c => wildcardIndexed value pattern fuel c
      | none => some false) =
    (match c.saved value pattern with
      | some (sp, _ :: ms) => wildcardLoop fuel ms sp (some (sp, ms))
      | _ => some false) := by
  rcases hs : c.star with - | s
  · simp [Cursor.retry, Cursor.saved, hs]
  · have hr : c.retry = some ⟨c.matchI + 1, s + 1, some s, c.matchI + 1⟩ := by
      simp [Cursor.retry, hs]
    have hm : c.matchI < value.length := by
      have := (h.star s hs).2
      omega
    rw [hr]
    simp only [Cursor.saved, hs, Option.map_some, List.drop_eq_getElem_cons hm]
    simpa [Cursor.saved] using ih _ (h.retry hv hr)

theorem wildcardIndexed_eq (value pattern : Bytes) (fuel : Nat) (c : Cursor)
    (h : c.InRange value pattern) : wildcardIndexed value pattern fuel c =
      wildcardLoop fuel (value.drop c.vi) (pattern.drop c.pi) (c.saved value pattern) := by
  induction fuel generalizing c with
  | zero => rfl
  | succ fuel ih =>
    rcases Nat.lt_or_ge c.vi value.length with hv | hv
    · rw [wildcardIndexed, if_pos hv]
      rcases Nat.lt_or_ge c.pi pattern.length with hp | hp
      · rw [if_pos hp, List.getElem?_eq_getElem hv, List.getElem?_eq_getElem hp]
        rw [List.drop_eq_getElem_cons hv, List.drop_eq_getElem_cons hp]
        simp only [Option.bind_eq_bind, Option.bind_some, wildcardLoop]
        split
        · apply ih { c with vi := c.vi + 1, pi := c.pi + 1 }
          exact ⟨hv, hp, fun s hs => ⟨(h.star s hs).1, Nat.le_succ_of_le (h.star s hs).2⟩⟩
        · split
          · rw [← List.drop_eq_getElem_cons hv]
            apply ih { c with pi := c.pi + 1, star := some c.pi, matchI := c.vi }
            refine ⟨h.vi, hp, ?_⟩
            rintro _ ⟨⟩
            exact ⟨hp, le_rfl⟩
          · exact retry_agrees h hv ih
      · rw [if_neg (Nat.not_lt.mpr hp), List.drop_eq_getElem_cons hv, List.drop_of_length_le hp]
        simp only [wildcardLoop]
        exact retry_agrees h hv ih
    · rw [wildcardIndexed, if_neg (Nat.not_lt.mpr hv), List.drop_of_length_le hv, wildcardLoop]
      exact closingStars_spec pattern _ c.pi h.pi (by omega)

theorem wildcardIndexed_ends (value pattern : Bytes) :
    wildcardIndexed value pattern (wildcardFuel value pattern) .start =
      some (wildcardMatches value pattern) := by
  obtain ⟨b, hb⟩ := wildcardMatches_runs value pattern
  rw [wildcardIndexed_eq value pattern _ _ ⟨Nat.zero_le _, Nat.zero_le _, fun s hs => by cases hs⟩]
  rw [wildcardMatches, show Cursor.saved value pattern .start = none from rfl]
  simp [Cursor.start, hb]

theorem starGlobs_globs {value pattern : Bytes} (h : StarGlobs value pattern) :
    Globs value pattern := Matches.denotes h

theorem globs_starGlobs {value pattern : Bytes} (hv : asterisk ∉ value) (h : Globs value pattern) :
    StarGlobs value pattern := by
  have key : ∀ {v p}, Denotes v p → asterisk ∉ v → Matches TakesStar v p := by
    intro v p h
    induction h with
    | nil => exact fun _ => .nil
    | lit c _ ih => exact fun hv => .lit c (ih fun hm => hv (List.mem_cons_of_mem c hm))
    | one c _ ih => exact fun hv => .one c (ih fun hm => hv (List.mem_cons_of_mem c hm))
    | many u _ _ ih =>
      refine fun hv => .many u (fun rest he => ?_) (ih fun hm => hv (List.mem_append_right u hm))
      exact absurd (he ▸ List.mem_cons_self) hv
  exact key h hv

def hidingPattern (u w : Bytes) : Bytes :=
  List.replicate u.length question ++ asterisk :: List.replicate (w.length + 1) question

theorem hidingPattern_globs (u w : Bytes) : Globs (u ++ asterisk :: w) (hidingPattern u w) := by
  rw [Globs, hidingPattern, globSymbols_append, globSymbols_ones, globSymbols_many,
    globSymbols_ones, Denotes, matches_ones_append]
  exact .many [] trivial ((matches_ones _ _ _).mpr rfl)

theorem hidingPattern_hidden (u w : Bytes) : ¬ StarGlobs (u ++ asterisk :: w) (hidingPattern u w) := by
  rw [StarGlobs, hidingPattern, globSymbols_append, globSymbols_ones, globSymbols_many,
    globSymbols_ones, matches_ones_append, matches_many]
  rintro ⟨t, x, he, ht, hx⟩
  obtain rfl := ht w he.symm
  obtain ⟨-, rfl⟩ := List.cons.inj he
  have := (matches_ones _ _ _).mp hx
  omega

def hidingText (u w : Text) : Text :=
  List.replicate (utf8 u).length '?' ++ '*' :: List.replicate ((utf8 w).length + 1) '?'

theorem utf8_star (t : Text) : utf8 ('*' :: t) = asterisk :: utf8 t := rfl

theorem utf8_ones (n : Nat) : utf8 (List.replicate n '?') = List.replicate n question := by
  induction n with
  | zero => rfl
  | succ n ih =>
    rw [List.replicate_succ, List.replicate_succ, utf8_cons, ih]
    rfl

theorem asterisk_mem_utf8 {t : Text} : asterisk ∈ utf8 t ↔ '*' ∈ t := mem_utf8 (a := '*') (by decide)

theorem utf8_hidingText (u w : Text) : utf8 (hidingText u w) = hidingPattern (utf8 u) (utf8 w) := by
  rw [hidingText, utf8_append, utf8_star, utf8_ones, utf8_ones, hidingPattern]

theorem hidingText_wild (u w : Text) : ¬ ('*' ∉ hidingText u w ∧ '?' ∉ hidingText u w) := by
  simp [hidingText]

theorem wildcardMatches_correct_iff (value pattern : Bytes) :
    (wildcardMatches value pattern = true ↔ Globs value pattern) ↔
      (Globs value pattern → StarGlobs value pattern) := by
  rw [wildcardMatches_iff]
  exact ⟨fun h => h.mpr, fun h => ⟨starGlobs_globs, h⟩⟩

theorem wildcardMatches_all_iff (value : Bytes) :
    (∀ pattern, wildcardMatches value pattern = true ↔ Globs value pattern) ↔ asterisk ∉ value := by
  constructor
  · intro h hm
    obtain ⟨u, w, rfl⟩ := List.append_of_mem hm
    exact hidingPattern_hidden u w
      ((wildcardMatches_iff _ _).mp ((h _).mpr (hidingPattern_globs u w)))
  · intro hv pattern
    exact (wildcardMatches_correct_iff value pattern).mpr (globs_starGlobs hv)

theorem patternMatches_iff {value pattern : Text} (hv : '*' ∉ value) :
    patternMatches value pattern = true ↔ PatternSelects value pattern := by
  unfold patternMatches PatternSelects
  split
  · exact decide_eq_true_iff
  · exact (wildcardMatches_all_iff _).mpr (fun hm => hv (asterisk_mem_utf8.mp hm)) _

theorem patternAllows_iff {value : Text} (hv : '*' ∉ value)
    (includePattern excludePattern : Option Text) :
    patternAllows value includePattern excludePattern = true ↔
      Selected value includePattern excludePattern := by
  have hm : ∀ p, patternMatches value p = true ↔ PatternSelects value p := fun p =>
    patternMatches_iff hv
  rcases includePattern with - | i <;> rcases excludePattern with - | e <;>
    simp [patternAllows, Selected, ← hm, and_comm]

theorem hidingText_selects (u w : Text) : PatternSelects (u ++ '*' :: w) (hidingText u w) := by
  rw [PatternSelects, if_neg (hidingText_wild u w), utf8_append, utf8_star, utf8_hidingText]
  exact hidingPattern_globs (utf8 u) (utf8 w)

theorem hidingText_hidden (u w : Text) : patternMatches (u ++ '*' :: w) (hidingText u w) = false := by
  rw [patternMatches, if_neg (hidingText_wild u w), utf8_append, utf8_star, utf8_hidingText,
    Bool.eq_false_iff, ne_eq, wildcardMatches_iff]
  exact hidingPattern_hidden (utf8 u) (utf8 w)

theorem patternAllows_hides (u w : Text) :
    ¬ (patternAllows (u ++ '*' :: w) (some (hidingText u w)) none = true ↔
      Selected (u ++ '*' :: w) (some (hidingText u w)) none) := by
  intro h
  have hs : Selected (u ++ '*' :: w) (some (hidingText u w)) none := by
    refine ⟨?_, nofun⟩
    rintro _ ⟨⟩
    exact hidingText_selects u w
  have hc : patternMatches (u ++ '*' :: w) (hidingText u w) = true := h.mpr hs
  rw [hidingText_hidden] at hc
  cases hc

theorem patternAllows_all_iff (value : Text) :
    (∀ includePattern excludePattern, patternAllows value includePattern excludePattern = true ↔
      Selected value includePattern excludePattern) ↔ '*' ∉ value := by
  constructor
  · intro h hm
    obtain ⟨u, w, rfl⟩ := List.append_of_mem hm
    exact patternAllows_hides u w (h _ _)
  · exact patternAllows_iff

theorem glob_matcher_correct_iff (value pattern : Bytes) (key : Text) :
    ((∃ b, wildcardIndexed value pattern (wildcardFuel value pattern) .start = some b ∧
        wildcardMatches value pattern = b) ∧
      ((wildcardMatches value pattern = true ↔ Globs value pattern) ↔
        (Globs value pattern → StarGlobs value pattern))) ∧
    ((∀ pattern, wildcardMatches value pattern = true ↔ Globs value pattern) ↔ asterisk ∉ value) ∧
    ((∀ includePattern excludePattern, patternAllows key includePattern excludePattern = true ↔
        Selected key includePattern excludePattern) ↔ '*' ∉ key) := by
  have hends : wildcardIndexed value pattern (wildcardFuel value pattern) .start =
      some (wildcardMatches value pattern) := wildcardIndexed_ends value pattern
  exact ⟨⟨⟨_, hends, rfl⟩, wildcardMatches_correct_iff value pattern⟩, wildcardMatches_all_iff value,
    patternAllows_all_iff key⟩

theorem literal_star_hides_wildcard :
    Globs (utf8 "*a".toList) (utf8 "*".toList) ∧
      wildcardMatches (utf8 "*a".toList) (utf8 "*".toList) = false ∧
      patternAllows "*a".toList (some "*".toList) none = false ∧
      Selected "*a".toList (some "*".toList) none := by
  have hg : Globs (utf8 "*a".toList) (utf8 "*".toList) := .many (utf8 "*a".toList) trivial .nil
  refine ⟨hg, by decide, by decide, ?_, nofun⟩
  rintro _ ⟨⟩
  rw [PatternSelects, if_neg (by decide)]
  exact hg

end VeStorage.Tos
