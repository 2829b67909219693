import VeStorage.ADrive.Pattern
import VeStorage.Lib.Components
import VeStorage.Lib.Glob

namespace VeStorage.ADrive
open Lib Lib.Glob

section Bytes

def byteLen (t : Text) : Nat := (t.map Char.utf8Size).sum

-- `t[offset..]`, which ends the program off a character boundary or past the end.
def sliceFrom : Text → Nat → Option Text
  | t, 0 => some t
  | [], _ + 1 => none
  | c :: t, n + 1 => if c.utf8Size ≤ n + 1 then sliceFrom t (n + 1 - c.utf8Size) else none

def byteFind (part : Text) : Text → Option Nat
  | [] => if part = [] then some 0 else none
  | c :: cs => if part <+: c :: cs then some 0 else (byteFind part cs).map (· + c.utf8Size)

def matchSlices (anchored : Bool) : List Text → Text → Option Bool
  | [], _ => some true
  | [] :: parts, remainder => matchSlices false parts remainder
  | part :: parts, remainder =>
      match byteFind part remainder with
      | none => some false
      | some position =>
          if anchored && position != 0 then some false
          else (sliceFrom remainder (position + byteLen part)).bind (matchSlices false parts)

def simplePatternMatchBytes (pattern value : Text) : Option Bool :=
  let parts := pattern.splitOn '*'
  if pattern = ['*'] then some true
  else if parts.length = 1 then some (decide (pattern <:+: value))
  else do
    let found ← matchSlices (!decide (['*'] <+: pattern)) parts value
    some (found && (decide (['*'] <:+ pattern) || decide (parts.getLastD [] <:+ value)))

theorem byteLen_append (s t : Text) : byteLen (s ++ t) = byteLen s + byteLen t := by
  simp [byteLen]

theorem sliceFrom_append (s t : Text) : sliceFrom (s ++ t) (byteLen s) = some t := by
  induction s with
  | nil => cases t <;> rfl
  | cons c s ih =>
    have hc := c.utf8Size_pos
    obtain ⟨n, hn⟩ : ∃ n, byteLen (c :: s) = n + 1 :=
      ⟨c.utf8Size + byteLen s - 1, by simp [byteLen]; omega⟩
    have hs : n + 1 = c.utf8Size + byteLen s := by rw [← hn]; simp [byteLen]
    rw [hn, List.cons_append, sliceFrom, if_pos (by omega)]
    rwa [show n + 1 - c.utf8Size = byteLen s by omega]

end Bytes

section Find

variable {part remainder : Text}

theorem findPart_none (h : findPart part remainder = none) : ¬ part <:+: remainder := by
  induction remainder with
  | nil =>
    rw [findPart] at h
    split at h
    · cases h
    · simpa using ‹¬ part = []›
  | cons c cs ih =>
    rw [findPart] at h
    split at h
    · cases h
    · rw [List.infix_cons_iff, not_or]
      exact ⟨‹_›, ih (Option.map_eq_none_iff.mp h)⟩

theorem byteFind_none (h : findPart part remainder = none) :
    byteFind part remainder = none := by
  induction remainder with
  | nil =>
    rw [findPart] at h
    rw [byteFind]
    split at h
    · cases h
    · rw [if_neg ‹_›]
  | cons c cs ih =>
    rw [findPart] at h
    rw [byteFind]
    split at h
    · cases h
    · rw [if_neg ‹_›, ih (Option.map_eq_none_iff.mp h)]
      rfl

theorem findPart_some {k : Nat} (h : findPart part remainder = some k) :
    ∃ u w, remainder = u ++ part ++ w ∧ u.length = k ∧ byteFind part remainder = some (byteLen u) ∧
      ∀ u' w', remainder = u' ++ part ++ w' → w' <:+ w := by
  induction remainder generalizing k with
  | nil =>
    rw [findPart] at h
    split at h
    · subst part
      obtain rfl := Option.some.inj h
      refine ⟨[], [], rfl, rfl, rfl, fun u' w' he => ?_⟩
      simp_all
    · cases h
  | cons c cs ih =>
    rw [findPart] at h
    rw [byteFind]
    split at h
    · rename_i hp
      obtain ⟨w, hw⟩ := id hp
      obtain rfl := Option.some.inj h
      refine ⟨[], w, hw.symm, rfl, if_pos hp, fun u' w' he => ?_⟩
      have hlen := congrArg List.length (hw.trans he)
      simp only [List.length_append] at hlen
      refine List.suffix_of_suffix_length_le ⟨u' ++ part, he.symm⟩ ⟨part, hw⟩ (by omega)
    · rename_i hp
      obtain ⟨j, hj, rfl⟩ := Option.map_eq_some_iff.mp h
      obtain ⟨u, w, rfl, rfl, hb, hmin⟩ := ih hj
      refine ⟨c :: u, w, rfl, rfl, ?_, fun u' w' he => ?_⟩
      · rw [if_neg hp, hb]
        simp [byteLen, Nat.add_comm]
      · cases u' with
        | nil => exact absurd ⟨w', he.symm⟩ hp
        | cons d u' => exact hmin u' w' (List.cons.inj he).2

end Find

def globSymbol (c : Char) : Symbol Char := if c = '*' then .many else .lit c

def globSymbols (pattern : Text) : List (Symbol Char) := pattern.map globSymbol

def Globs (value pattern : Text) : Prop := Denotes value (globSymbols pattern)

def PatternSelects (value pattern : Text) : Prop :=
  if '*' ∈ pattern then Globs value pattern else pattern <:+: value

def PathSelected (path : Text) (includePattern excludePattern : Option Text) : Prop :=
  (∀ p ∈ includePattern, PatternSelects path p) ∧ ∀ p ∈ excludePattern, ¬ PatternSelects path p

-- The parts in order, anything before, between and after them.
def loose (parts : List Text) : List (Symbol Char) :=
  parts.flatMap (fun s => .many :: s.map .lit) ++ [.many]

theorem loose_cons (part : Text) (parts : List Text) :
    loose (part :: parts) = .many :: (part.map .lit ++ loose parts) := by
  simp [loose]

theorem loose_mono {parts : List Text} {v w : Text} (h : Denotes w (loose parts))
    (hs : w <:+ v) : Denotes v (loose parts) := by
  cases parts with
  | nil => exact denotes_many_self
  | cons s parts =>
    rw [loose_cons] at h ⊢
    exact denotes_many_mono h hs

theorem denotes_loose_cons {part : Text} {parts : List Text} {v : Text} :
    Denotes v (loose (part :: parts)) ↔ ∃ u w, v = u ++ part ++ w ∧ Denotes w (loose parts) := by
  rw [loose_cons, denotes_many]
  constructor
  · rintro ⟨_, ⟨u, rfl⟩, h⟩
    obtain ⟨s, w, rfl, hs, hw⟩ := denotes_append.mp h
    obtain rfl := denotes_lits.mp hs
    exact ⟨u, w, by simp, hw⟩
  · rintro ⟨u, w, rfl, h⟩
    exact ⟨part ++ w, ⟨u, by simp⟩, denotes_append.mpr ⟨part, w, rfl, denotes_lits.mpr rfl, h⟩⟩

theorem matchParts_find {part : Text} (h : part ≠ []) (anchored : Bool) (parts : List Text)
    (remainder : Text) : matchParts anchored (part :: parts) remainder =
      match findPart part remainder with
      | none => false
      | some position =>
          if anchored && position != 0 then false
          else matchParts false parts (remainder.drop (position + part.length)) := by
  obtain ⟨c, cs, rfl⟩ := List.exists_cons_of_ne_nil h
  rfl

theorem matchParts_loose (parts : List Text) (remainder : Text) :
    matchParts false parts remainder = true ↔ Denotes remainder (loose parts) := by
  induction parts generalizing remainder with
  | nil => simpa [matchParts, loose] using denotes_many_self
  | cons part parts ih =>
    rw [denotes_loose_cons]
    rcases eq_or_ne part [] with rfl | hne
    · rw [matchParts, ih]
      constructor
      · exact fun h => ⟨[], remainder, by simp, h⟩
      · rintro ⟨u, w, rfl, h⟩
        exact loose_mono h (List.suffix_append _ w)
    · rw [matchParts_find hne]
      rcases hf : findPart part remainder with - | k
      · constructor
        · nofun
        · rintro ⟨u, w, rfl, -⟩
          exact absurd ⟨u, w, rfl⟩ (findPart_none hf)
      · obtain ⟨u, w, rfl, rfl, -, hmin⟩ := findPart_some hf
        simp only [Bool.false_and, Bool.false_eq_true, if_false]
        rw [← List.length_append, List.drop_left, ih]
        constructor
        · exact fun h => ⟨u, w, rfl, h⟩
        · rintro ⟨u', w', he, h⟩
          exact loose_mono h (hmin u' w' he)

theorem matchParts_anchored (part : Text) (parts : List Text) (value : Text) :
    matchParts true (part :: parts) value = true ↔
      ∃ r, value = part ++ r ∧ Denotes r (loose parts) := by
  rcases eq_or_ne part [] with rfl | hne
  · simp [matchParts, matchParts_loose]
  · rw [matchParts_find hne]
    rcases hf : findPart part value with - | k
    · constructor
      · nofun
      · rintro ⟨r, rfl, -⟩
        exact absurd (List.prefix_append part r).isInfix (findPart_none hf)
    · obtain ⟨u, w, rfl, rfl, -, hmin⟩ := findPart_some hf
      rcases u with - | ⟨d, u⟩
      · simp [matchParts_loose]
      · constructor
        · nofun
        · rintro ⟨r, he, -⟩
          have hlen := (hmin [] r he).length_le
          have := congrArg List.length he
          simp only [List.length_append, List.length_cons] at this
          omega

theorem globSymbols_lits {s : Text} (h : '*' ∉ s) : globSymbols s = s.map .lit := by
  apply List.map_congr_left
  intro c hc
  rw [globSymbol, if_neg]
  rintro rfl
  exact h hc

theorem globSymbols_join {s : Text} {parts : List Text} (hs : '*' ∉ s)
    (h : ∀ part ∈ parts, '*' ∉ part) : globSymbols (join '*' (s :: parts)) =
      s.map .lit ++ parts.flatMap fun part => .many :: part.map .lit := by
  have hrest : globSymbols (parts.flatMap ('*' :: ·)) =
      parts.flatMap fun part => .many :: part.map .lit := by
    induction parts with
    | nil => rfl
    | cons part parts ih =>
      have hp := globSymbols_lits (h part List.mem_cons_self)
      rw [List.flatMap_cons, List.flatMap_cons, ← ih fun q hq => h q (List.mem_cons_of_mem part hq),
        ← hp]
      simp [globSymbols, globSymbol]
  have hcons := cons_join (c := '*') (List.cons_ne_nil s parts)
  rw [List.flatMap_cons, List.cons_append, List.cons.injEq] at hcons
  rw [hcons.2, ← hrest, ← globSymbols_lits hs, globSymbols, globSymbols, globSymbols,
    List.map_append]

-- The last part is found somewhere behind the others; the value's own end is at least as far.
theorem denotes_last {parts : List Text} {last s r : Text} :
    Denotes r (parts.flatMap (fun part => .many :: part.map .lit) ++ .many :: last.map .lit) ↔
      Denotes r (loose (parts ++ [last])) ∧ last <:+ s ++ r := by
  have hl : parts.flatMap (fun part => Symbol.many :: part.map .lit) ++ .many :: last.map .lit =
      loose parts ++ last.map .lit := by simp [loose]
  have hr : loose (parts ++ [last]) = loose parts ++ (last.map .lit ++ [.many]) := by simp [loose]
  rw [hl, hr]
  constructor
  · intro h
    obtain ⟨u, t, rfl, hu, ht⟩ := denotes_append.mp h
    obtain rfl := denotes_lits.mp ht
    refine ⟨denotes_append.mpr ⟨u, t, rfl, hu, ?_⟩, ⟨s ++ u, by simp⟩⟩
    exact denotes_append.mpr ⟨t, [], by simp, denotes_lits.mpr rfl, denotes_many_self⟩
  · rintro ⟨h, hsuf⟩
    obtain ⟨u, t, rfl, hu, ht⟩ := denotes_append.mp h
    obtain ⟨l, y, rfl, hl, -⟩ := denotes_append.mp ht
    obtain rfl := denotes_lits.mp hl
    have hlong : l.length ≤ (u ++ (l ++ y)).length := by
      simp only [List.length_append]
      omega
    obtain ⟨z, hz⟩ := List.suffix_of_suffix_length_le hsuf (List.suffix_append s _) hlong
    have hlen := congrArg List.length hz
    simp only [List.length_append] at hlen
    have hpre : u <+: z := List.prefix_of_prefix_length_le (List.prefix_append u (l ++ y))
      (hz ▸ List.prefix_append z l) (by omega)
    rw [← hz]
    refine denotes_append.mpr ⟨z, l, rfl, ?_, denotes_lits.mpr rfl⟩
    exact denotes_snoc_many_mono hu hpre

structure Split (pattern : Text) where
  first : Text
  mid : List Text
  last : Text
  parts : pattern.splitOn '*' = first :: (mid ++ [last])

theorem splitOn_length_one {pattern : Text} :
    (pattern.splitOn '*').length = 1 ↔ '*' ∉ pattern := by
  constructor
  · intro h
    obtain ⟨s, hs⟩ := List.length_eq_one_iff.mp h
    have hj := join_splitOn '*' pattern
    rw [hs] at hj
    have hfree := not_mem_splitOn '*' pattern s (by simp [hs])
    rwa [← hj, show join '*' [s] = s by simp [join, List.intercalate_singleton]]
  · intro h
    rw [List.splitOn_eq_singleton h]
    rfl

theorem exists_split {pattern : Text} (h : '*' ∈ pattern) : Nonempty (Split pattern) := by
  obtain ⟨s, rest, hs⟩ := List.exists_cons_of_ne_nil (List.splitOn_ne_nil '*' pattern)
  rcases List.eq_nil_or_concat rest with rfl | ⟨mid, last, rfl⟩
  · exact absurd h (splitOn_length_one.mp (by rw [hs]; rfl))
  · exact ⟨⟨s, mid, last, by simpa using hs⟩⟩

namespace Split

variable {pattern : Text}

theorem free (p : Split pattern) : ∀ part ∈ p.first :: (p.mid ++ [p.last]), '*' ∉ part := by
  rw [← p.parts]
  exact not_mem_splitOn '*' pattern

theorem join_eq (p : Split pattern) :
    join '*' (p.first :: (p.mid ++ [p.last])) = pattern := by
  rw [← p.parts, join_splitOn]

theorem symbols (p : Split pattern) : globSymbols pattern = p.first.map .lit ++
    (p.mid.flatMap (fun part => .many :: part.map .lit) ++ .many :: p.last.map .lit) := by
  have hfree := List.forall_mem_cons.mp p.free
  have hsym := globSymbols_join hfree.1 hfree.2
  rw [p.join_eq] at hsym
  simpa using hsym

theorem starts (p : Split pattern) (h : ['*'] <+: pattern) : p.first = [] := by
  have hj := p.join_eq
  obtain ⟨rest, rfl⟩ := h
  rw [join, List.intercalate_cons_of_ne_nil (by simp)] at hj
  rcases hf : p.first with - | ⟨c, cs⟩
  · rfl
  · rw [hf] at hj
    obtain ⟨rfl, -⟩ := List.cons.inj hj
    exact absurd (by simp [hf]) (p.free p.first (by simp))

theorem ends (p : Split pattern) (h : ['*'] <:+ pattern) : p.last = [] := by
  have hj := p.join_eq
  obtain ⟨rest, rfl⟩ := h
  rw [← List.cons_append, join_append (by simp) (by simp), join, join,
    List.intercalate_singleton] at hj
  rcases List.eq_nil_or_concat p.last with hl | ⟨l, c, hl⟩
  · exact hl
  · rw [hl, List.concat_eq_append, ← List.cons_append, ← List.append_assoc] at hj
    obtain ⟨-, hc⟩ := List.append_inj' hj rfl
    obtain rfl := List.singleton_inj.mp hc
    exact absurd (by simp [hl]) (p.free p.last (by simp))

theorem matches_iff (p : Split pattern) (value : Text) :
    simplePatternMatch pattern value = true ↔ Globs value pattern := by
  have hlen : (pattern.splitOn '*').length ≠ 1 := by simp [p.parts]
  have hlast : (pattern.splitOn '*').getLastD [] = p.last := by
    rw [p.parts, ← List.cons_append, List.getLastD_concat]
  have hfirst : matchParts (!decide (['*'] <+: pattern)) (pattern.splitOn '*') value =
      matchParts true (pattern.splitOn '*') value := by
    by_cases hs : ['*'] <+: pattern
    · simp [p.parts, p.starts hs, matchParts]
    · simp [hs]
  have hend : (['*'] <:+ pattern ∨ p.last <:+ value) ↔ p.last <:+ value := by
    refine ⟨?_, .inr⟩
    rintro (h | h)
    · simp [p.ends h]
    · exact h
  rcases eq_or_ne pattern ['*'] with rfl | hne
  · simpa [simplePatternMatch, Globs, globSymbols, globSymbol] using denotes_many_self
  · rw [simplePatternMatch, if_neg hne, if_neg hlen, hfirst, hlast, Bool.and_eq_true,
      Bool.or_eq_true, decide_eq_true_iff, decide_eq_true_iff, hend, p.parts,
      matchParts_anchored, Globs, p.symbols, denotes_append]
    constructor
    · rintro ⟨⟨r, rfl, h⟩, hs⟩
      exact ⟨p.first, r, rfl, denotes_lits.mpr rfl, denotes_last.mpr ⟨h, hs⟩⟩
    · rintro ⟨u, r, rfl, hu, h⟩
      obtain rfl := denotes_lits.mp hu
      obtain ⟨h, hs⟩ := denotes_last.mp h
      exact ⟨⟨r, rfl, h⟩, hs⟩

end Split

theorem simplePatternMatch_iff (pattern value : Text) :
    simplePatternMatch pattern value = true ↔ PatternSelects value pattern := by
  unfold PatternSelects
  split
  · rename_i h
    obtain ⟨p⟩ := exists_split h
    exact p.matches_iff value
  · rename_i h
    have hne : pattern ≠ ['*'] := by
      rintro rfl
      simp at h
    simp [simplePatternMatch, hne, splitOn_length_one.mpr h]

theorem matchSlices_eq (anchored : Bool) (parts : List Text) (remainder : Text) :
    matchSlices anchored parts remainder = some (matchParts anchored parts remainder) := by
  induction parts generalizing anchored remainder with
  | nil => rfl
  | cons part parts ih =>
    rcases eq_or_ne part [] with rfl | hne
    · exact ih false remainder
    · have hstep : matchSlices anchored (part :: parts) remainder =
          match byteFind part remainder with
          | none => some false
          | some position =>
              if anchored && position != 0 then some false
              else (sliceFrom remainder (position + byteLen part)).bind
                (matchSlices false parts) := by
        obtain ⟨c, cs, rfl⟩ := List.exists_cons_of_ne_nil hne
        rfl
      rw [hstep, matchParts_find hne]
      rcases hf : findPart part remainder with - | k
      · rw [byteFind_none hf]
      · obtain ⟨u, w, rfl, rfl, hb, -⟩ := findPart_some hf
        have hzero : (byteLen u != 0) = (u.length != 0) := by
          rcases u with - | ⟨c, u⟩
          · rfl
          · have := c.utf8Size_pos
            have hpos : byteLen (c :: u) ≠ 0 := by
              simp only [byteLen, List.map_cons, List.sum_cons]
              omega
            simp [hpos]
        rw [hb]
        dsimp only
        rw [hzero, ← byteLen_append, sliceFrom_append, Option.bind_some, ih,
          ← List.length_append, List.drop_left]
        split <;> rfl

theorem simplePatternMatchBytes_eq (pattern value : Text) :
    simplePatternMatchBytes pattern value = some (simplePatternMatch pattern value) := by
  unfold simplePatternMatchBytes simplePatternMatch
  dsimp only
  split
  · rfl
  · split
    · rfl
    · rw [matchSlices_eq]
      rfl

theorem pattern_filters_correct (pattern path : Text) :
    (∃ b, simplePatternMatchBytes pattern path = some b ∧ simplePatternMatch pattern path = b) ∧
    (simplePatternMatch pattern path = true ↔
      if '*' ∈ pattern then Globs path pattern else pattern <:+: path) ∧
    ∀ includePattern excludePattern,
      pathMatchesFilters path includePattern excludePattern = true ↔
        PathSelected path includePattern excludePattern := by
  refine ⟨⟨_, simplePatternMatchBytes_eq pattern path, rfl⟩, simplePatternMatch_iff pattern path,
    fun includePattern excludePattern => ?_⟩
  rcases includePattern with - | i <;> rcases excludePattern with - | e <;>
    simp [pathMatchesFilters, PathSelected, ← simplePatternMatch_iff, and_comm]

end VeStorage.ADrive
