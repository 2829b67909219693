import VeStorage.ADrive.Share.CollisionFree
import VeStorage.ADrive.Share.CrashSafe

namespace VeStorage.ADrive.Share
open Lib
open Lib.Crash (ensure ensure_eq_ok bind_eq_ok seq_eq_ok)

def Env.withManifest (env : Env) (u : Unicode) : Env :=
  { env with
    validateManifest := Manifest.validate u
    validateSelection := Manifest.validateSelection u
    validateOptions := Manifest.validateOptions }

variable {env : Env} {u : Unicode} {identity expected : Identity} {journal : Journal}
  {policy : SelectionPolicy}

namespace MappingPolicy

-- What a mapping says about parents and filters, where it records it.
def Carries (mapping : MappingPolicy) (isIncludeParent : Bool)
    (includePattern excludePattern : Option Text) : Prop :=
  match mapping with
  | .legacy => True
  | .cp recorded recordedInclude recordedExclude
  | .spaceRoot recorded recordedInclude recordedExclude =>
      recorded = isIncludeParent ∧ recordedInclude = includePattern ∧
        recordedExclude = excludePattern

theorem validateOptions_eq_ok {mapping : MappingPolicy} {isIncludeParent : Bool}
    {includePattern excludePattern : Option Text} (h : mapping ≠ .legacy) :
    mapping.validateOptions isIncludeParent includePattern excludePattern = .ok () ↔
      mapping.Carries isIncludeParent includePattern excludePattern := by
  cases mapping with
  | legacy => exact absurd rfl h
  | cp => simp [validateOptions, Carries, ensure_eq_ok, and_assoc]
  | spaceRoot => simp [validateOptions, Carries, ensure_eq_ok, and_assoc]

end MappingPolicy

structure Identity.Permits (recorded : Identity) (policy : SelectionPolicy) : Prop where
  noInclude : policy.includePattern = none
  noExclude : policy.excludePattern = none
  overwrite : policy.overwrite = (if recorded.isOverwrite then "force" else "no-clobber").toList
  parent : policy.isIncludeParent = true ∨ recorded.isRecursive = false

theorem Identity.permits_eq_true : identity.permits policy = true ↔ identity.Permits policy := by
  rw [Identity.permits]
  simp only [Bool.and_eq_true, Bool.or_eq_true, Bool.not_eq_true', Option.isNone_iff_eq_none,
    decide_eq_true_eq]
  constructor
  · rintro ⟨⟨⟨hparent, hinclude⟩, hexclude⟩, hoverwrite⟩
    exact ⟨hinclude, hexclude, hoverwrite, hparent.symm⟩
  · rintro ⟨hinclude, hexclude, hoverwrite, hparent⟩
    exact ⟨⟨⟨hparent.symm, hinclude⟩, hexclude⟩, hoverwrite⟩

theorem Identity.policy_of_matches (h : identity.matchesExpected env expected = .ok true) :
    identity.effectivePolicy expected = expected.selectionPolicy := by
  rw [Identity.matchesExpected] at h
  split at h
  · obtain ⟨origin, -, heq⟩ := bind_eq_ok.mp h
    have hexpected := of_decide_eq_true (Except.ok.inj heq)
    exact congrArg Identity.selectionPolicy hexpected
  · have hexpected := of_decide_eq_true (Except.ok.inj h)
    exact congrArg Identity.selectionPolicy hexpected

-- An accepted journal records the policy of the command, or its flags permit it.
theorem Identity.recorded_or_permits (h : identity.matchesExpected env expected = .ok true)
    (hp : expected.selectionPolicy = some policy) :
    identity.selectionPolicy = some policy ∨
      (identity.selectionPolicy = none ∧ identity.Permits policy) := by
  have hpolicy := Identity.policy_of_matches h
  rw [Identity.effectivePolicy, hp] at hpolicy
  cases hr : identity.selectionPolicy with
  | some recorded =>
    rw [hr] at hpolicy
    exact .inl hpolicy
  | none =>
    simp only [hr] at hpolicy
    split at hpolicy
    next hpermits => exact .inr ⟨rfl, Identity.permits_eq_true.mp hpermits⟩
    next => cases hpolicy

-- The manifest was projected under `policy`, or the journal is a genuine legacy one.
def Journal.ProjectedUnder (journal : Journal) (policy : SelectionPolicy) : Prop :=
  journal.manifest.validateOptions policy.isIncludeParent policy.includePattern
      policy.excludePattern = .ok () ∨
    (journal.identity.selectionPolicy = none ∧ journal.manifest.policy = .legacy ∧
      journal.identity.Permits policy)

theorem accepted_journal_projected
    (h : journal.validate (env.withManifest u) expected = .ok ())
    (hp : expected.selectionPolicy = some policy) :
    journal.ProjectedUnder policy ↔ (journal.identity.selectionPolicy.isSome = true ∨
      journal.manifest.policy.Carries policy.isIncludeParent none none) := by
  have haccepted := (Journal.validate_eq_ok (env.withManifest u)).mp h
  rw [Journal.ProjectedUnder, Manifest.validateOptions]
  rcases Identity.recorded_or_permits haccepted.task hp with hr | ⟨hr, hpermits⟩
  · have hoptions := haccepted.options policy hr
    exact ⟨fun _ => .inl (by rw [hr]; rfl), fun _ => .inl hoptions⟩
  · rw [hr, hpermits.noInclude, hpermits.noExclude]
    by_cases hlegacy : journal.manifest.policy = .legacy
    · rw [hlegacy]
      exact ⟨fun _ => .inr trivial, fun _ => .inr ⟨rfl, rfl, hpermits⟩⟩
    · rw [MappingPolicy.validateOptions_eq_ok hlegacy]
      simp [hlegacy]

section Example

def filteredManifest : Manifest where
  roots := ["docs/".toList]
  files := [⟨"docs/a.txt".toList, ⟨"docs/a.txt".toList, 1, "tag".toList, 5, 0⟩⟩]
  directories := ["docs".toList]
  remoteDirectories := ["docs/".toList]
  policy := .cp true (some "*.txt".toList) none
  sized := by decide

def filteredJournal : Journal where
  version := 1
  identity := sampleIdentity
  manifest := filteredManifest
  completed := [none]

def legacyJournal : Journal where
  version := 1
  identity := sampleIdentity
  manifest := sharedFolder [sharedFile "a", sharedFile "b/c/d"] (by decide)
  completed := [none, none]

def wholePolicy : SelectionPolicy where
  isIncludeParent := true
  includePattern := none
  excludePattern := none
  overwrite := "no-clobber".toList

def wholeIdentity : Identity := { sampleIdentity with selectionPolicy := some wholePolicy }

theorem legacy_journal_projected : legacyJournal.ProjectedUnder wholePolicy :=
  (@accepted_journal_projected sampleEnv asciiUnicode wholeIdentity legacyJournal wholePolicy
    (by decide) rfl).mpr (.inr trivial)

theorem filtered_journal_accepted :
    wholeIdentity.selectionPolicy = some wholePolicy ∧
      filteredJournal.validate (sampleEnv.withManifest asciiUnicode) wholeIdentity = .ok () ∧
      ¬ filteredJournal.ProjectedUnder wholePolicy := by
  refine ⟨rfl, by decide, ?_⟩
  rintro (hoptions | ⟨-, hlegacy, -⟩)
  · exact absurd hoptions (by decide)
  · exact absurd hlegacy (by decide)

end Example

end VeStorage.ADrive.Share
