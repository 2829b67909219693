import Mathlib.Data.List.Forall2
import VeStorage.Lib.Glob
import VeStorage.Tos.Filter

namespace VeStorage.Tos
open Lib Lib.Glob

def globSymbol (c : UInt8) : Symbol UInt8 :=
  if c = question then .one else if c = asterisk then .many else .lit c

def globSymbols (pattern : Bytes) : List (Symbol UInt8) := pattern.map globSymbol

def Globs (value pattern : Bytes) : Prop := Denotes value (globSymbols pattern)

-- A star facing a literal `*` of the value takes that one byte and nothing else.
def TakesStar (u w : Bytes) : Prop := ∀ rest, u ++ w = asterisk :: rest → u = [asterisk]

def StarGlobs (value pattern : Bytes) : Prop := Matches TakesStar value (globSymbols pattern)

def PatternSelects (value pattern : Text) : Prop :=
  if '*' ∉ pattern ∧ '?' ∉ pattern then pattern <:+: value else Globs (utf8 value) (utf8 pattern)

def Selected (value : Text) (includePattern excludePattern : Option Text) : Prop :=
  (∀ p ∈ includePattern, PatternSelects value p) ∧ ∀ p ∈ excludePattern, ¬ PatternSelects value p

@[simp] theorem globSymbols_nil : globSymbols [] = [] := rfl

@[simp] theorem globSymbols_one (p : Bytes) :
    globSymbols (question :: p) = .one :: globSymbols p := rfl

@[simp] theorem globSymbols_many (p : Bytes) :
    globSymbols (asterisk :: p) = .many :: globSymbols p := rfl

theorem globSymbols_lit {c : UInt8} (hq : c ≠ question) (hs : c ≠ asterisk) (p : Bytes) :
    globSymbols (c :: p) = .lit c :: globSymbols p := by
  simp [globSymbols, globSymbol, hq, hs]

theorem globSymbols_append (p q : Bytes) :
    globSymbols (p ++ q) = globSymbols p ++ globSymbols q := List.map_append

theorem globSymbols_ones (n : Nat) :
    globSymbols (List.replicate n question) = List.replicate n .one := List.map_replicate

theorem starGlobs_nil (p : Bytes) : StarGlobs [] p ↔ trimStart asterisk p = [] := by
  induction p with
  | nil => simp [StarGlobs]
  | cons c p ih =>
    rcases eq_or_ne c asterisk with rfl | hs
    · rw [trimStart_cons_self, ← ih, StarGlobs, globSymbols_many, matches_many]
      constructor
      · rintro ⟨u, w, he, -, h⟩
        obtain ⟨-, rfl⟩ := List.append_eq_nil_iff.mp he.symm
        exact h
      · intro h
        exact ⟨[], [], rfl, by simp [TakesStar], h⟩
    · rw [trimStart_of_head_ne hs]
      rcases eq_or_ne c question with rfl | hq
      · simp [StarGlobs, matches_one]
      · simp [StarGlobs, globSymbols_lit hq hs, matches_lit]

theorem starGlobs_step {v p : UInt8} (h : p = question ∨ p = v) (vs ps : Bytes) :
    StarGlobs (v :: vs) (p :: ps) ↔ StarGlobs vs ps := by
  rcases eq_or_ne p question with rfl | hq
  · simp [StarGlobs, matches_one]
  · obtain rfl := h.resolve_left hq
    rcases eq_or_ne p asterisk with rfl | hs
    · rw [StarGlobs, globSymbols_many, matches_many]
      constructor
      · rintro ⟨u, w, he, ht, h⟩
        obtain rfl := ht vs he.symm
        obtain ⟨-, rfl⟩ := List.cons.inj he
        exact h
      · exact fun h => ⟨[asterisk], vs, rfl, fun _ _ => rfl, h⟩
    · simp [StarGlobs, globSymbols_lit hq hs, matches_lit]

theorem starGlobs_star {v : Bytes} (hv : ∀ rest, v ≠ asterisk :: rest) (ps : Bytes) :
    StarGlobs v (asterisk :: ps) ↔ ∃ w, w <:+ v ∧ StarGlobs w ps := by
  rw [StarGlobs, globSymbols_many, matches_many]
  constructor
  · rintro ⟨u, w, rfl, -, h⟩
    exact ⟨w, List.suffix_append u w, h⟩
  · rintro ⟨w, ⟨u, rfl⟩, h⟩
    exact ⟨u, w, rfl, fun rest he => absurd he (hv rest), h⟩

theorem starGlobs_mismatch {v p : UInt8} (hq : p ≠ question) (hv : p ≠ v) (hs : p ≠ asterisk)
    (vs ps : Bytes) : ¬ StarGlobs (v :: vs) (p :: ps) := by
  rw [StarGlobs, globSymbols_lit hq hs, matches_lit]
  rintro ⟨w, he, -⟩
  exact hv (List.cons.inj he).1.symm

def Aligned (u q : Bytes) : Prop := List.Forall₂ (fun c p => p = question ∨ p = c) u q

theorem Aligned.snoc {u q : Bytes} (h : Aligned u q) {c p : UInt8} (hc : p = question ∨ p = c) :
    Aligned (u ++ [c]) (q ++ [p]) := List.rel_append h (.cons hc .nil)

theorem suffix_of_cons {c : UInt8} {w t u : Bytes} (h : w ++ t <:+ c :: u) (hw : w ≠ []) :
    t <:+ u := by
  obtain ⟨x, w, rfl⟩ := List.exists_cons_of_ne_nil hw
  rcases List.suffix_cons_iff.mp h with he | hs
  · obtain ⟨-, rfl⟩ := List.cons.inj he
    exact List.suffix_append w t
  · exact ((List.suffix_append (x :: w) t).trans hs)

-- What the pattern can do from an earlier start of the last star, it can do from here.
theorem Aligned.slack {u q : Bytes} (ha : Aligned u q) {v p w : Bytes} (hw : w <:+ u ++ v)
    (h : StarGlobs w (q ++ p)) : ∃ w', w' <:+ v ∧ StarGlobs w' p := by
  induction ha generalizing w with
  | nil => exact ⟨w, hw, h⟩
  | @cons c x u q hcx ha ih =>
    rw [List.cons_append] at hw h
    rcases eq_or_ne x question with rfl | hq
    · obtain ⟨d, w', rfl, h'⟩ := matches_one.mp h
      exact ih (suffix_of_cons (w := [d]) hw (by simp)) h'
    · obtain rfl := hcx.resolve_left hq
      rcases eq_or_ne x asterisk with rfl | hs
      · obtain ⟨t, w', rfl, ht, h'⟩ := matches_many.mp h
        rcases List.suffix_cons_iff.mp hw with he | hsuf
        · obtain rfl := ht _ he
          exact ih (suffix_of_cons hw (by simp)) h'
        · exact ih ((List.suffix_append t w').trans hsuf) h'
      · rw [StarGlobs, globSymbols_lit hq hs, matches_lit] at h
        obtain ⟨w', rfl, h'⟩ := h
        exact ih (suffix_of_cons (w := [x]) hw (by simp)) h'

def StarOk (value pattern : Bytes) : Option (Bytes × Bytes) → Prop
  | none => True
  | some (sp, ms) => ∃ u q, ms = u ++ value ∧ sp = q ++ pattern ∧ Aligned u q

def Retries : Option (Bytes × Bytes) → Prop
  | none => False
  | some (sp, ms) => ∃ w, w <:+ ms ∧ w ≠ ms ∧ StarGlobs w sp

theorem retries_slack {v p : Bytes} {star : Option (Bytes × Bytes)} (hok : StarOk v p star)
    (h : Retries star) : ∃ w, w <:+ v ∧ StarGlobs w p := by
  rcases star with - | ⟨sp, ms⟩
  · exact h.elim
  · obtain ⟨u, q, rfl, rfl, ha⟩ := hok
    obtain ⟨w, hw, -, hm⟩ := h
    exact ha.slack hw hm

theorem retries_fresh (v p : Bytes) :
    StarGlobs v p ∨ Retries (some (p, v)) ↔ ∃ w, w <:+ v ∧ StarGlobs w p := by
  constructor
  · rintro (h | ⟨w, hw, -, h⟩)
    · exact ⟨v, List.suffix_refl v, h⟩
    · exact ⟨w, hw, h⟩
  · rintro ⟨w, hw, h⟩
    rcases eq_or_ne w v with rfl | hne
    · exact .inl h
    · exact .inr ⟨w, hw, hne, h⟩

theorem retries_cons (sp ms : Bytes) (x : UInt8) :
    Retries (some (sp, x :: ms)) ↔ ∃ w, w <:+ ms ∧ StarGlobs w sp := by
  constructor
  · rintro ⟨w, hw, hne, h⟩
    exact ⟨w, (List.suffix_cons_iff.mp hw).resolve_left hne, h⟩
  · rintro ⟨w, hw, h⟩
    refine ⟨w, List.suffix_cons_iff.mpr (.inr hw), ?_, h⟩
    rintro rfl
    have := hw.length_le
    simp at this

theorem starOk_fresh (v p : Bytes) : StarOk v p (some (p, v)) := ⟨[], [], rfl, rfl, .nil⟩

theorem StarOk.snoc {v p : UInt8} {vs ps : Bytes} {star : Option (Bytes × Bytes)}
    (hok : StarOk (v :: vs) (p :: ps) star) (hc : p = question ∨ p = v) : StarOk vs ps star := by
  rcases star with - | ⟨sp, ms⟩
  · trivial
  · obtain ⟨u, q, rfl, rfl, ha⟩ := hok
    exact ⟨u ++ [v], q ++ [p], by simp, by simp, ha.snoc hc⟩

theorem stuck_spec {fuel : Nat} {v : UInt8} {vs pattern : Bytes} {star : Option (Bytes × Bytes)}
    {b : Bool} (hno : ¬ StarGlobs (v :: vs) pattern)
    (hr : (match star with
      | some (sp, _ :: ms) => wildcardLoop fuel ms sp (some (sp, ms))
      | _ => some false) = some b)
    (hok : StarOk (v :: vs) pattern star)
    (retry : ∀ sp ms, wildcardLoop fuel ms sp (some (sp, ms)) = some b →
      (b = true ↔ ∃ w, w <:+ ms ∧ StarGlobs w sp)) :
    b = true ↔ StarGlobs (v :: vs) pattern ∨ Retries star := by
  rw [or_iff_right hno]
  rcases star with - | ⟨sp, - | ⟨x, ms⟩⟩
  · obtain rfl := Option.some.inj hr
    simp [Retries]
  · obtain ⟨u, q, he, -⟩ := hok
    simp at he
  · rw [retries_cons]
    exact retry sp ms hr

theorem wildcardLoop_spec {fuel : Nat} {value pattern : Bytes} {star : Option (Bytes × Bytes)}
    {b : Bool} (hok : StarOk value pattern star)
    (hr : wildcardLoop fuel value pattern star = some b) :
    b = true ↔ StarGlobs value pattern ∨ Retries star := by
  induction fuel generalizing value pattern star with
  | zero => cases hr
  | succ fuel ih =>
    have retry : ∀ sp ms, wildcardLoop fuel ms sp (some (sp, ms)) = some b →
        (b = true ↔ ∃ w, w <:+ ms ∧ StarGlobs w sp) := by
      intro sp ms h
      rw [ih (starOk_fresh ms sp) h, retries_fresh]
    cases value with
    | nil =>
      obtain rfl : decide (trimStart asterisk pattern = []) = b := by simpa [wildcardLoop] using hr
      rw [decide_eq_true_iff, ← starGlobs_nil]
      constructor
      · exact .inl
      · rintro (h | h)
        · exact h
        · obtain ⟨w, hw, h⟩ := retries_slack hok h
          rwa [List.suffix_nil.mp hw] at h
    | cons v vs =>
      cases pattern with
      | nil => exact stuck_spec (by simp [StarGlobs]) hr hok retry
      | cons p ps =>
        simp only [wildcardLoop] at hr
        split at hr
        · rename_i hc
          rw [ih (hok.snoc hc) hr, starGlobs_step hc]
        · rename_i hc
          obtain ⟨hq, hv⟩ := not_or.mp hc
          split at hr
          · rename_i hs
            subst hs
            have hhead : ∀ rest, v :: vs ≠ asterisk :: rest := fun _ he => hv (List.cons.inj he).1.symm
            rw [ih (starOk_fresh _ _) hr, retries_fresh, starGlobs_star hhead]
            refine ⟨.inl, Or.rec id fun h => ?_⟩
            obtain ⟨w, hw, h⟩ := retries_slack hok h
            obtain ⟨t, w', rfl, -, h'⟩ := matches_many.mp h
            exact ⟨w', (List.suffix_append t w').trans hw, h'⟩
          · rename_i hs
            exact stuck_spec (starGlobs_mismatch hq hv hs vs ps) hr hok retry

theorem wildcardMatches_iff (value pattern : Bytes) :
    wildcardMatches value pattern = true ↔ StarGlobs value pattern := by
  obtain ⟨b, hb⟩ := wildcardMatches_runs value pattern
  simpa [wildcardMatches, hb, Retries] using @wildcardLoop_spec _ _ _ none _ trivial hb

end VeStorage.Tos
