import VeStorage.Zti.Fresh

namespace VeStorage.Zti
open Lib

variable {source : Source} {decode : Text → Option JwtClaims} {s s' : State} {a : Act} {c d k : Nat}
  {t u : CachedToken} {h : Holder} {e : ZtiTokenError}

def State.storing (s : State) : Option Holder :=
  match s.lock with
  | some (h, .writing _) => some h
  | _ => none

def Undisturbed (source : Source) (s : State) : Act → Prop
  | .cancel c => s.storing ≠ some (.call c)
  | .stop => s.storing ≠ some .refresh
  | .call c => source = .file → (s.calls c).phase = .looking → s.storing ≠ none →
      ∀ t, s.cell = some t → s.now < t.expiresAt
  | _ => True

def CarefulRun (source : Source) (decode : Text → Option JwtClaims) : State → State → Prop :=
  Relation.ReflTransGen fun s s' => ∃ a, Undisturbed source s a ∧ Step source decode s a s'

theorem CarefulRun.run (hr : CarefulRun source decode s s') : Run source decode s s' := by
  induction hr with
  | refl => exact .refl
  | tail _ hs ih =>
    obtain ⟨a, -, hs⟩ := hs
    exact ih.tail ⟨a, hs⟩

structure KeptInv (source : Source) (s : State) : Prop where
  stored : s.storing = none → s.last = s.cell
  storing : ∀ h t, s.lock = some (h, .writing t) → s.last = some t
  found : ∀ h n, s.lock = some (h, .reading (some n)) →
    ∃ t, s.cell = some t ∧ t.read = n ∧ t.expiresAt ≤ s.now
  agent : source = .agent → ∀ c, s.lock ≠ some (.call c, .reading none)
  refresh : s.lock ≠ some (.refresh, .checking)
  fetched : ∀ n ∈ s.fetchedFor, ∃ u, s.cell = some u ∧ n ≤ u.read ∧ (s.storing = none → n < u.read)
  nodup : s.fetchedFor.Nodup

theorem init_keptInv : KeptInv source (State.init k) := by
  constructor <;> simp [State.init, State.storing]

attribute [local grind =] State.move State.begin State.settle State.unread State.unchecked
  State.holder State.storing Holder.act afterExpired firstCritical Undisturbed
attribute [local grind cases] Holder Source
attribute [local grind .] entry_cases
attribute [local grind →] current_ok current_error fetchToken_ok

theorem stored_step (hs : Step source decode s a s') (hi : Inv decode s) (hk : KeptInv source s)
    (hu : Undisturbed source s a) : s'.storing = none → s'.last = s'.cell := by
  have hopened := hi.opened
  have hclaimed := hi.claimed
  have hstored := hk.stored
  have hstoring := hk.storing
  cases hs <;> grind

theorem storing_step (hs : Step source decode s a s') (hi : Inv decode s) (hk : KeptInv source s) :
    ∀ h t, s'.lock = some (h, .writing t) → s'.last = some t := by
  have hopened := hi.opened
  have hclaimed := hi.claimed
  have hstoring := hk.storing
  cases hs <;> grind

theorem found_step (hs : Step source decode s a s') (hi : Inv decode s) (hk : KeptInv source s) :
    ∀ h n, s'.lock = some (h, .reading (some n)) →
      ∃ t, s'.cell = some t ∧ t.read = n ∧ t.expiresAt ≤ s'.now := by
  have hopened := hi.opened
  have hclaimed := hi.claimed
  have hfound := hk.found
  cases hs <;> grind

theorem agent_step (hs : Step source decode s a s') (hk : KeptInv source s) :
    source = .agent → ∀ c, s'.lock ≠ some (.call c, .reading none) := by
  have hagent := hk.agent
  cases hs <;> grind

theorem refresh_step (hs : Step source decode s a s') (hk : KeptInv source s) :
    s'.lock ≠ some (.refresh, .checking) := by
  have hrefresh := hk.refresh
  cases hs <;> grind

theorem fetched_step (hs : Step source decode s a s') (hi : Inv decode s) (hk : KeptInv source s)
    (hu : Undisturbed source s a) : ∀ n ∈ s'.fetchedFor,
      ∃ u, s'.cell = some u ∧ n ≤ u.read ∧ (s'.storing = none → n < u.read) := by
  have hopened := hi.opened
  have hclaimed := hi.claimed
  have hwriting := hi.writing
  have hfound := hk.found
  have hfetched := hk.fetched
  cases hs <;> grind

theorem nodup_step (hs : Step source decode s a s') (hk : KeptInv source s) :
    s'.fetchedFor.Nodup := by
  have hfound := hk.found
  have hfetched := hk.fetched
  have hnodup := hk.nodup
  cases hs <;> grind

theorem careful_step (hs : Step source decode s a s') (hi : Inv decode s) (hk : KeptInv source s)
    (hu : Undisturbed source s a) : KeptInv source s' where
  stored := stored_step hs hi hk hu
  storing := storing_step hs hi hk
  found := found_step hs hi hk
  agent := agent_step hs hk
  refresh := refresh_step hs hk
  fetched := fetched_step hs hi hk hu
  nodup := nodup_step hs hk

theorem careful_inv (hr : CarefulRun source decode (State.init k) s) :
    Inv decode s ∧ KeptInv source s := by
  induction hr with
  | refl => exact ⟨init_inv k, init_keptInv⟩
  | tail _ hs ih =>
    obtain ⟨a, hu, hs⟩ := hs
    exact ⟨step_inv hs ih.1, careful_step hs ih.1 ih.2 hu⟩

theorem failed_expired (hs : Step source decode s a s') (hi : Inv decode s) (hk : KeptInv source s)
    (hu : Undisturbed source s a) (hbefore : (s.calls c).phase ≠ .failed e)
    (hafter : (s'.calls c).phase = .failed e) :
    ∀ t, s'.last = some t → t.expiresAt ≤ s'.now := by
  have hopened := hi.opened
  have hclaimed := hi.claimed
  have hstored := hk.stored
  have hfound := hk.found
  have hagent := hk.agent
  cases hs
  case readFailed h found _ _ hlock _ => cases found <;> grind
  all_goals grind

def Act.moves : Act → Bool
  | .call _ => true
  | .refresh => true
  | _ => false

-- Calls and the refresh task move on while every read of the source fails.
def BlindRun (source : Source) (decode : Text → Option JwtClaims) : State → State → Prop :=
  Relation.ReflTransGen fun s s' =>
    ∃ a, a.moves = true ∧ Step source decode s a s' ∧ s'.reads = s.reads

theorem blind (hs : Step source decode s a s') (ha : a.moves = true := by rfl)
    (hreads : s'.reads = s.reads := by rfl) : BlindRun source decode s s' :=
  .single ⟨a, ha, hs, hreads⟩

theorem read_fails : fetchToken decode (s.reads + 1) s.now (.error .unavailable) =
    .error .unavailable := rfl

theorem current_fresh (hlt : k < t.expiresAt) : t.current k = .ok t := if_neg (by omega)

structure Left (s s' : State) : Prop where
  now : s'.now = s.now
  lock : s'.lock = none
  cell : s'.cell = s.last
  calls : ∀ d, s.holder ≠ some (.call d) → s'.calls d = s.calls d
  returned : ∀ d, s.holder = some (.call d) → ∃ u, (s'.calls d).phase = .returned u

theorem check_returns (hlock : s.lock = some (.call c, .checking)) (hcell : s.cell = some t)
    (hlt : s.now < t.expiresAt) :
    BlindRun source decode s (s.settle (.call c) (.returned t)) :=
  blind (.check hlock hcell (current_fresh hlt))

theorem settle_left {critical : Critical} {cell : Option CachedToken}
    (hlock : s.lock = some (h, critical)) (hcell : cell = s.last) :
    Left s { s.settle h (.returned u) with cell := cell } where
  now := by grind
  lock := by grind
  cell := hcell
  calls d hd := by grind
  returned d hd := by
    have hd : ((s.settle h (.returned u)).calls d).phase = .returned u := by grind
    exact ⟨u, hd⟩

theorem lock_left (hk : KeptInv source s) (ht : s.last = some t) (hlt : s.now < t.expiresAt) :
    ∃ s', BlindRun source decode s s' ∧ Left s s' := by
  have hstored := hk.stored
  obtain hlock | ⟨h, critical, hlock⟩ : s.lock = none ∨ ∃ h k, s.lock = some (h, k) := by
    rcases s.lock with - | ⟨h, k⟩
    · exact .inl rfl
    · exact .inr ⟨h, k, rfl⟩
  · exact ⟨s, .refl, rfl, hlock, by grind, fun _ _ => rfl, by grind⟩
  cases critical with
  | writing u =>
    exact ⟨_, blind (.store hlock) (by cases h <;> rfl) (by cases h <;> rfl),
      settle_left hlock (hk.storing h u hlock).symm⟩
  | checking =>
    have hcell : s.cell = s.last := by grind
    cases h with
    | refresh => exact absurd hlock hk.refresh
    | call c =>
      exact ⟨_, check_returns hlock (hcell.trans ht) hlt, settle_left hlock hcell⟩
  | reading found =>
    have hcell : s.cell = s.last := by grind
    have hfail : BlindRun source decode s (s.unread source h .unavailable) :=
      blind (.readFailed hlock read_fails) (by cases h <;> rfl) (by cases h <;> cases source <;> rfl)
    cases h with
    | refresh => exact ⟨_, hfail, rfl, rfl, hcell, fun _ _ => rfl, by grind⟩
    | call c =>
      cases source with
      | file =>
        have hleft := settle_left (s := State.unread .file s (.call c) .unavailable) (u := t) rfl hcell
        refine ⟨_, hfail.trans (check_returns rfl (hcell.trans ht) hlt), hleft.now, hleft.lock,
          hleft.cell, fun d hd => hleft.calls d ?_, fun d hd => hleft.returned d ?_⟩
        · grind
        · grind
      | agent =>
        have hfound := hk.found
        have hagent := hk.agent rfl
        cases found with
        | none => exact absurd hlock (hagent c)
        | some n => grind

inductive Active : Phase → Prop
  | opening : Active .opening
  | initialising : Active .initialising
  | looking : Active .looking
  | queued : Active .queued
  | locked : Active .locked

theorem look_returns (hcell : s.cell = some t) (hlt : s.now < t.expiresAt)
    (hc : (s.calls c).phase = .looking) :
    ∃ s', BlindRun source decode s s' ∧ ∃ u, (s'.calls c).phase = .returned u :=
  ⟨_, blind (.look hc hcell (current_fresh hlt)), t, by grind⟩

theorem queued_returns (hcell : s.cell = some t) (hlt : s.now < t.expiresAt) (hlock : s.lock = none)
    (hc : (s.calls c).phase = .queued) :
    ∃ s', BlindRun source decode s s' ∧ ∃ u, (s'.calls c).phase = .returned u := by
  have hacquire : BlindRun source decode s _ := blind (.acquire hc hlock)
  cases source with
  | agent => exact ⟨_, hacquire.trans (check_returns rfl hcell hlt), t, by grind⟩
  | file =>
    have hfail := hacquire.trans (blind (.readFailed rfl read_fails))
    exact ⟨_, hfail.trans (check_returns rfl hcell hlt), t, by grind⟩

theorem call_returns (hi : Inv decode s) (hk : KeptInv source s) (ht : s.last = some t)
    (hlt : s.now < t.expiresAt) (hc : Active (s.calls c).phase) :
    ∃ s', BlindRun source decode s s' ∧ ∃ u, (s'.calls c).phase = .returned u := by
  obtain ⟨s₁, hrun, hleft⟩ := lock_left hk ht hlt
  by_cases hholder : s.holder = some (.call c)
  · exact ⟨s₁, hrun, hleft.returned c hholder⟩
  have hsame := hleft.calls c hholder
  have hcell : s₁.cell = some t := hleft.cell.trans ht
  have hnow : s₁.now < t.expiresAt := hleft.now ▸ hlt
  rw [← hsame] at hc
  rcases hp : (s₁.calls c).phase
  case looking =>
    obtain ⟨s₂, h₂, hret⟩ := look_returns hcell hnow hp
    exact ⟨s₂, hrun.trans h₂, hret⟩
  case queued =>
    obtain ⟨s₂, h₂, hret⟩ := queued_returns hcell hnow hleft.lock hp
    exact ⟨s₂, hrun.trans h₂, hret⟩
  case opening =>
    have hjoin : BlindRun source decode s₁ (s₁.move c .looking) := blind (.join hp hcell)
    have hlooking : ((s₁.move c .looking).calls c).phase = .looking := by grind
    have hmoved : (s₁.move c .looking).cell = some t := hcell
    obtain ⟨s₂, h₂, hret⟩ := look_returns hmoved hnow hlooking
    exact ⟨s₂, (hrun.trans hjoin).trans h₂, hret⟩
  case locked =>
    rw [hsame] at hp
    exact absurd ((hi.locked c).mp hp) hholder
  case initialising =>
    have hclaimed := hi.claimed c (hsame ▸ hp)
    have hstored := hk.stored
    have hstoring := hk.storing
    have hopened := hi.opened
    grind
  all_goals
    rw [hp] at hc
    cases hc

theorem tokens_fresh_ordered_retained (source : Source) (decode : Text → Option JwtClaims)
    (now : Nat) :
    (∀ s, Run source decode (State.init now) s →
      (∀ c t, (s.calls c).phase = .returned t →
        tokenExpiration decode t.token (s.calls c).startedAt = .ok t.expiresAt) ∧
      ∀ s', Run source decode s s' → ∀ c d t u, (s.calls c).phase = .returned t →
        (s.calls d).phase = .idle → (s'.calls d).phase = .returned u → t.read ≤ u.read) ∧
    ∀ s, CarefulRun source decode (State.init now) s →
      (∀ a s', Undisturbed source s a → Step source decode s a s' → ∀ c e,
        (s.calls c).phase ≠ .failed e → (s'.calls c).phase = .failed e →
          ∀ t, s'.last = some t → t.expiresAt ≤ s'.now) ∧
      (∀ c t, Active (s.calls c).phase → s.last = some t → s.now < t.expiresAt →
        ∃ s', BlindRun source decode s s' ∧ ∃ u, (s'.calls c).phase = .returned u) ∧
      s.fetchedFor.Nodup := by
  refine ⟨fun s hr => ⟨fun c t ht => returned_current hr ht, fun s' hr' c d t u ht hd hu =>
    returned_later hr hr' ht hd hu⟩, fun s hr => ?_⟩
  obtain ⟨hi, hk⟩ := careful_inv hr
  exact ⟨fun a s' hu hs c e hbefore hafter => failed_expired hs hi hk hu hbefore hafter,
    fun c t hc ht hlt => call_returns hi hk ht hlt hc, hk.nodup⟩

def sampleDecode (payload : Text) : Option JwtClaims :=
  if payload = ['p'] then some ⟨"spiffe://example.org/ns:test/id:integration".toList, 10⟩
  else if payload = ['q'] then some ⟨"spiffe://example.org/ns:test/id:integration".toList, 100⟩
  else none

-- A second call reads a token that is good until 100 and is dropped before it stores it.
theorem dropped_store_loses_token : ∃ s s', Run .file sampleDecode (State.init 0) s ∧
    Step .file sampleDecode s (.call 2) s' ∧ (s.calls 2).phase = .locked ∧
    (s'.calls 2).phase = .failed .expired ∧ ∃ t, s'.last = some t ∧ s'.now < t.expiresAt := by
  have first : fetchToken sampleDecode 1 0 (.ok "h.p.s".toList) = .ok ⟨"h.p.s".toList, 10, 1⟩ := by
    decide +kernel
  have second : fetchToken sampleDecode 2 0 (.ok "h.q.s".toList) = .ok ⟨"h.q.s".toList, 100, 2⟩ := by
    decide +kernel
  have run : Run .file sampleDecode (State.init 0) _ :=
    ((((((((((((Relation.ReflTransGen.refl).tail
      ⟨_, .start (c := 0) rfl⟩).tail
      ⟨_, .claim (c := 0) rfl rfl rfl⟩).tail
      ⟨_, .initRead (c := 0) rfl first⟩).tail
      ⟨_, .look (c := 0) rfl rfl rfl⟩).tail
      ⟨_, .start (c := 1) rfl⟩).tail
      ⟨_, .acquire (c := 1) rfl rfl⟩).tail
      ⟨_, .read rfl second⟩).tail
      ⟨_, .cancelLocked (c := 1) rfl⟩).tail
      ⟨_, .tick 50⟩).tail
      ⟨_, .start (c := 2) rfl⟩).tail
      ⟨_, .acquire (c := 2) rfl rfl⟩).tail
      ⟨_, .readFailed rfl read_fails⟩
  exact ⟨_, _, run, .checkExpired (e := .expired) rfl rfl rfl, rfl, rfl, ⟨"h.q.s".toList, 100, 2⟩, rfl, by decide⟩

end VeStorage.Zti
