import VeStorage.Tos.Uri
import VeStorage.Lib.Strings
import Mathlib.Tactic.Ring
import Mathlib.Tactic.Linarith

namespace VeStorage.Tos
open Lib

def question : UInt8 := 63

def asterisk : UInt8 := 42

-- `star` holds the pattern after the last `*` and the value from which it was last tried.
def wildcardLoop : Nat → Bytes → Bytes → Option (Bytes × Bytes) → Option Bool
  | 0, _, _, _ => none
  | _ + 1, [], pattern, _ => some (decide (trimStart asterisk pattern = []))
  | fuel + 1, v :: vs, pattern, star =>
      match pattern with
      | p :: ps =>
          if p = question ∨ p = v then wildcardLoop fuel vs ps star
          else if p = asterisk then wildcardLoop fuel (v :: vs) ps (some (ps, v :: vs))
          else match star with
            | some (sp, _ :: ms) => wildcardLoop fuel ms sp (some (sp, ms))
            | _ => some false
      | [] =>
          match star with
          | some (sp, _ :: ms) => wildcardLoop fuel ms sp (some (sp, ms))
          | _ => some false

def wildcardFuel (value pattern : Bytes) : Nat :=
  (value.length + 1) * (pattern.length + 2) + pattern.length + 1

def wildcardMatches (value pattern : Bytes) : Bool :=
  (wildcardLoop (wildcardFuel value pattern) value pattern none).getD false

def patternMatches (value pattern : Text) : Bool :=
  if '*' ∉ pattern ∧ '?' ∉ pattern then decide (pattern <:+: value)
  else wildcardMatches (utf8 value) (utf8 pattern)

def patternAllows (value : Text) (includePattern excludePattern : Option Text) : Bool :=
  if excludePattern.any (patternMatches value) then false
  else includePattern.all (patternMatches value)

def starRank (value : Bytes) : Option (Bytes × Bytes) → Nat
  | none => value.length + 1
  | some (_, matched) => matched.length

theorem wildcardLoop_total (bound : Nat) (fuel : Nat) (value pattern : Bytes)
    (star : Option (Bytes × Bytes)) (hp : pattern.length ≤ bound)
    (hs : ∀ sp m, star = some (sp, m) → sp.length ≤ bound ∧ value.length ≤ m.length)
    (hf : starRank value star * (bound + 2) + pattern.length < fuel) :
    ∃ b, wildcardLoop fuel value pattern star = some b := by
  induction fuel generalizing value pattern star with
  | zero => omega
  | succ fuel ih =>
    have retry : ∀ sp x ms, star = some (sp, x :: ms) →
        ∃ b, wildcardLoop fuel ms sp (some (sp, ms)) = some b := by
      intro sp x ms he
      subst he
      have hb := (hs sp _ rfl).1
      apply ih ms sp _ hb
      · rintro sp' m' ⟨⟩
        exact ⟨hb, le_refl _⟩
      · simp only [starRank, List.length_cons] at hf ⊢
        nlinarith
    cases value with
    | nil => exact ⟨_, rfl⟩
    | cons v vs =>
      cases pattern with
      | nil =>
        simp only [wildcardLoop]
        split
        · exact retry _ _ _ rfl
        · exact ⟨_, rfl⟩
      | cons p ps =>
        simp only [List.length_cons] at hp hf
        simp only [wildcardLoop]
        split
        · apply ih vs ps star (by omega)
          · intro sp m he
            have := hs sp m he
            simp only [List.length_cons] at this
            omega
          · cases star with
            | none => simp only [starRank, List.length_cons] at hf ⊢; nlinarith
            | some s => simp only [starRank] at hf ⊢; omega
        · split
          · apply ih (v :: vs) ps _ (by omega)
            · rintro sp m ⟨⟩
              exact ⟨by omega, le_refl _⟩
            · cases star with
              | none => simp only [starRank, List.length_cons] at hf ⊢; nlinarith
              | some s =>
                obtain ⟨sp, m⟩ := s
                have hm := (hs sp m rfl).2
                simp only [starRank] at hf ⊢
                have := Nat.mul_le_mul_right (bound + 2) hm
                omega
          · split
            · exact retry _ _ _ rfl
            · exact ⟨_, rfl⟩

theorem wildcardMatches_runs (value pattern : Bytes) :
    ∃ b, wildcardLoop (wildcardFuel value pattern) value pattern none = some b := by
  apply wildcardLoop_total pattern.length _ _ _ _ le_rfl
  · intro sp m h
    cases h
  · simp only [starRank, wildcardFuel]
    omega

theorem patternAllows_none (value : Text) : patternAllows value none none = true := rfl

example : patternAllows "logs/2024.txt".toList (some "*.txt".toList) (some "tmp".toList) = true := by
  decide

example : patternMatches "é".toList "?".toList = false ∧ patternMatches "é".toList "??".toList = true := by
  decide

end VeStorage.Tos
