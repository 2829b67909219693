import VeStorage.Zti.Source

namespace VeStorage.Zti
open Lib

variable {source : Source} {decode : Text → Option JwtClaims} {s s' : State} {a : Act} {c d k : Nat}
  {t u : CachedToken} {h : Holder} {p : Phase} {e : ZtiTokenError}

theorem current_ok (hcur : t.current k = .ok u) : u = t ∧ k < t.expiresAt := by
  unfold CachedToken.current at hcur
  split at hcur
  · cases hcur
  · cases hcur
    exact ⟨rfl, by omega⟩

theorem current_error (hcur : t.current k = .error e) : t.expiresAt ≤ k := by
  unfold CachedToken.current at hcur
  split at hcur
  · assumption
  · cases hcur

def Issued (decode : Text → Option JwtClaims) (t : CachedToken) : Prop :=
  ∀ now, now < t.expiresAt → tokenExpiration decode t.token now = .ok t.expiresAt

theorem fetchToken_ok {outcome : Except ZtiTokenError Text} {n now : Nat}
    (hread : fetchToken decode n now outcome = .ok t) :
    Issued decode t ∧ t.read = n ∧ now < t.expiresAt := by
  unfold fetchToken at hread
  split at hread
  · cases hread
  split at hread
  · cases hread
  · rename_i exp hexp
    cases hread
    obtain ⟨hnow, hlater⟩ := tokenExpiration_ok hexp
    exact ⟨fun now h => hlater now h, rfl, hnow⟩

def State.holder (s : State) : Option Holder := s.lock.map Prod.fst

structure Inv (decode : Text → Option JwtClaims) (s : State) : Prop where
  started : ∀ c, (s.calls c).startedAt ≤ s.now
  locked : ∀ c, (s.calls c).phase = .locked ↔ s.holder = some (.call c)
  claimed : ∀ c, (s.calls c).phase = .initialising → s.cell = none ∧ s.permit = some c
  opened : (s.lock ≠ none ∨ s.refreshing = true ∨
    ∃ c, (s.calls c).phase = .looking ∨ (s.calls c).phase = .queued) → s.cell ≠ none
  kept : ∀ t, s.cell = some t → Issued decode t ∧ t.read ≤ s.reads
  writing : ∀ h t, s.lock = some (h, .writing t) → Issued decode t ∧ t.read ≤ s.reads ∧
    (∀ u, s.cell = some u → u.read < t.read) ∧ ∀ c, h = .call c → (s.calls c).startedAt < t.expiresAt
  returned : ∀ c t, (s.calls c).phase = .returned t → Issued decode t ∧
    (s.calls c).startedAt < t.expiresAt ∧ ∃ u, s.cell = some u ∧ t.read ≤ u.read

theorem init_inv (now : Nat) : Inv decode (State.init now) := by
  constructor <;> simp [State.init, State.holder]

@[grind =] theorem move_calls :
    (s.move c p).calls d = if d = c then ⟨p, (s.calls d).startedAt⟩ else s.calls d := by
  by_cases hd : d = c
  · subst hd
    simp [State.move]
  · simp [State.move, hd]

@[grind =] theorem begin_calls :
    (s.begin c p).calls d = if d = c then ⟨p, s.now⟩ else s.calls d := by
  simp [State.begin, Function.update_apply]

@[grind =] theorem settle_calls :
    (s.settle h p).calls d = if h = .call d then ⟨p, (s.calls d).startedAt⟩ else s.calls d := by
  cases h with
  | call c =>
    show (s.move c p).calls d = _
    grind
  | refresh => rfl

@[grind =] theorem unread_calls : (s.unread source h e).calls d =
    if h = .call d ∧ source = .agent then ⟨.failed e, (s.calls d).startedAt⟩ else s.calls d := by
  cases h with
  | call c =>
    cases source with
    | file => simp [State.unread]
    | agent => simp [State.unread, settle_calls]
  | refresh => rfl

@[grind =] theorem unchecked_calls : (s.unchecked source c t e).calls d =
    if d = c ∧ source = .file then ⟨.failed e, (s.calls d).startedAt⟩ else s.calls d := by
  cases source with
  | file => simp [State.unchecked, settle_calls, eq_comm]
  | agent => simp [State.unchecked]

theorem entry_cases (cell : Option CachedToken) : entry source cell = .opening ∨
    cell ≠ none ∧ (entry source cell = .queued ∨ entry source cell = .looking) := by
  cases cell <;> cases source <;> simp [entry]

attribute [local grind .] entry_cases
attribute [local grind =] State.move State.begin State.settle State.unread State.unchecked
  State.holder Holder.act afterExpired firstCritical
attribute [local grind cases] Holder Source
attribute [local grind →] current_ok fetchToken_ok

theorem cell_step (hs : Step source decode s a s') (hi : Inv decode s) (hu : s.cell = some u) :
    ∃ u', s'.cell = some u' ∧ u.read ≤ u'.read := by
  obtain ⟨-, -, h3, -, -, h6, -⟩ := hi
  cases hs <;> grind

theorem started_step (hs : Step source decode s a s') (hi : Inv decode s) :
    ∀ c, (s'.calls c).startedAt ≤ s'.now := by
  have := hi.started
  cases hs <;> grind

theorem locked_step (hs : Step source decode s a s') (hi : Inv decode s) :
    ∀ c, (s'.calls c).phase = .locked ↔ s'.holder = some (.call c) := by
  have := hi.locked
  cases hs <;> grind

theorem claimed_step (hs : Step source decode s a s') (hi : Inv decode s) :
    ∀ c, (s'.calls c).phase = .initialising → s'.cell = none ∧ s'.permit = some c := by
  have := hi.claimed
  have := hi.opened
  cases hs <;> grind

theorem opened_step (hs : Step source decode s a s') (hi : Inv decode s) :
    (s'.lock ≠ none ∨ s'.refreshing = true ∨
    ∃ c, (s'.calls c).phase = .looking ∨ (s'.calls c).phase = .queued) → s'.cell ≠ none := by
  have := hi.opened
  cases hs <;> grind

theorem kept_step (hs : Step source decode s a s') (hi : Inv decode s) :
    ∀ t, s'.cell = some t → Issued decode t ∧ t.read ≤ s'.reads := by
  have := hi.kept
  have := hi.writing
  cases hs <;> grind

theorem writing_step (hs : Step source decode s a s') (hi : Inv decode s) :
    ∀ h t, s'.lock = some (h, .writing t) → Issued decode t ∧ t.read ≤ s'.reads ∧
    (∀ u, s'.cell = some u → u.read < t.read) ∧ ∀ c, h = .call c → (s'.calls c).startedAt < t.expiresAt := by
  obtain ⟨h1, h2, h3, h4, h5, h6, -⟩ := hi
  cases hs <;> grind

theorem returned_step (hs : Step source decode s a s') (hi : Inv decode s) :
    ∀ c t, (s'.calls c).phase = .returned t → Issued decode t ∧
    (s'.calls c).startedAt < t.expiresAt ∧ ∃ u, s'.cell = some u ∧ t.read ≤ u.read := by
  obtain ⟨h1, h2, h3, h4, h5, h6, h7⟩ := hi
  cases hs <;> grind

theorem step_inv (hs : Step source decode s a s') (hi : Inv decode s) : Inv decode s' where
  started := started_step hs hi
  locked := locked_step hs hi
  claimed := claimed_step hs hi
  opened := opened_step hs hi
  kept := kept_step hs hi
  writing := writing_step hs hi
  returned := returned_step hs hi

def Run (source : Source) (decode : Text → Option JwtClaims) : State → State → Prop :=
  Relation.ReflTransGen fun s s' => ∃ a, Step source decode s a s'

theorem run_inv (hr : Run source decode s s') (hi : Inv decode s) : Inv decode s' := by
  induction hr with
  | refl => exact hi
  | tail _ hs ih =>
    obtain ⟨a, hs⟩ := hs
    exact step_inv hs ih

theorem returned_current (hr : Run source decode (State.init k) s)
    (hc : (s.calls c).phase = .returned t) :
    tokenExpiration decode t.token (s.calls c).startedAt = .ok t.expiresAt := by
  obtain ⟨hissued, hstart, -⟩ := (run_inv hr (init_inv k)).returned c t hc
  exact hissued _ hstart

-- What a call `c` that starts now can still get once the `k`-th read has been handed out.
structure Later (k c : Nat) (s : State) : Prop where
  cell : ∃ u, s.cell = some u ∧ k ≤ u.read
  returned : ∀ t, (s.calls c).phase = .returned t → k ≤ t.read

theorem later_step (hs : Step source decode s a s') (hi : Inv decode s) (hl : Later k c s) :
    Later k c s' := by
  obtain ⟨u, hu, hk⟩ := hl.cell
  obtain ⟨u', hu', hle⟩ := cell_step hs hi hu
  refine ⟨⟨u', hu', hk.trans hle⟩, ?_⟩
  have hw := hi.writing
  have hret := hl.returned
  cases hs <;> grind

theorem later_run (hr : Run source decode s s') (hi : Inv decode s) (hl : Later k c s) :
    Later k c s' := by
  induction hr with
  | refl => exact hl
  | tail hr hs ih =>
    obtain ⟨a, hs⟩ := hs
    exact later_step hs (run_inv hr hi) ih

theorem returned_later {n : Nat} (h₁ : Run source decode (State.init n) s) (h₂ : Run source decode s s')
    (ht : (s.calls c).phase = .returned t) (hidle : (s.calls d).phase = .idle)
    (hu : (s'.calls d).phase = .returned u) : t.read ≤ u.read := by
  have hi := run_inv h₁ (init_inv n)
  obtain ⟨-, -, hcell⟩ := hi.returned c t ht
  refine (later_run h₂ hi ⟨hcell, fun t ht => ?_⟩).returned u hu
  rw [hidle] at ht
  cases ht

end VeStorage.Zti
