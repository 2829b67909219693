import Mathlib.Data.List.Forall2

namespace VeStorage.Lib.Crash

section Results

variable {ε α β : Type}

def ensure (p : Prop) [Decidable p] (e : ε) : Except ε Unit := if p then .ok () else .error e

@[simp] theorem ensure_eq_ok {p : Prop} [Decidable p] {e : ε} {u : Unit} :
    ensure p e = .ok u ↔ p := by
  unfold ensure
  split <;> simp_all

@[simp] theorem bind_eq_ok {m : Except ε α} {f : α → Except ε β} {b : β} :
    (m >>= f) = .ok b ↔ ∃ a, m = .ok a ∧ f a = .ok b := by
  cases m with
  | error e => simp [bind, Except.bind]
  | ok a => simp [bind, Except.bind]

theorem seq_eq_ok {m : Except ε Unit} {f : Unit → Except ε β} {b : β} :
    (m >>= f) = .ok b ↔ m = .ok () ∧ f () = .ok b := by
  rw [bind_eq_ok]
  exact ⟨fun ⟨⟨⟩, h⟩ => h, fun h => ⟨(), h⟩⟩

@[simp] theorem pure_eq_ok {a b : α} : (pure a : Except ε α) = .ok b ↔ a = b := by
  simp [pure, Except.pure]

theorem bind_eq_error {m : Except ε α} {f : α → Except ε β} {e : ε} :
    (m >>= f) = .error e ↔ m = .error e ∨ ∃ a, m = .ok a ∧ f a = .error e := by
  cases m with
  | error e' => simp [bind, Except.bind]
  | ok a => simp [bind, Except.bind]

theorem pure_eq_error {a : α} {e : ε} : (pure a : Except ε α) = .error e ↔ False := by
  simp [pure, Except.pure]

theorem ensure_eq_error {p : Prop} [Decidable p] {e e' : ε} :
    ensure p e' = .error e ↔ ¬ p ∧ e' = e := by
  unfold ensure
  split <;> simp_all

theorem mapM_eq_ok {f : α → Except ε β} {as : List α} {bs : List β} :
    as.mapM f = .ok bs ↔ List.Forall₂ (fun a b => f a = .ok b) as bs := by
  induction as generalizing bs with
  | nil => cases bs <;> simp
  | cons a as ih =>
    rw [List.mapM_cons, List.forall₂_cons_left_iff]
    simp only [bind_eq_ok, pure_eq_ok, ih]
    constructor
    · rintro ⟨b, hb, rest, hrest, rfl⟩
      exact ⟨b, rest, hb, hrest, rfl⟩
    · rintro ⟨b, rest, hb, hrest, rfl⟩
      exact ⟨b, hb, rest, hrest, rfl⟩

end Results

-- What the outside does to one effect: a fault keeps a part of it and fails or kills the process.
inductive Fault where
  | none
  | fail (kept : Nat)
  | crash (kept : Nat)

inductive Stop (ε : Type) where
  | raised (error : ε)
  | killed
deriving DecidableEq

structure World (σ : Type) where
  state : σ
  faults : List Fault

abbrev CrashIo (ε σ : Type) := EStateM (Stop ε) (World σ)

variable {ε σ α β : Type}

def raise (e : ε) : CrashIo ε σ α := throw (.raised e)

def observe : CrashIo ε σ σ := fun w => .ok w.state w

def change (f : σ → σ) : CrashIo ε σ Unit := fun w => .ok () { w with state := f w.state }

def require (p : Prop) [Decidable p] (e : ε) : CrashIo ε σ Unit :=
  if p then pure () else raise e

def orRaise (o : Option α) (e : ε) : CrashIo ε σ α := o.elim (raise e) pure

def orPanic (o : Option α) : CrashIo ε σ α := o.elim (throw .killed) pure

def ofExcept : Except ε α → CrashIo ε σ α
  | .ok a => pure a
  | .error e => raise e

-- An effect of which a fault leaves `kept k` behind.
def effect (e : ε) (kept : Nat → σ → σ) (whole : σ → σ) : CrashIo ε σ Unit
  | ⟨s, []⟩ => .ok () ⟨whole s, []⟩
  | ⟨s, .none :: faults⟩ => .ok () ⟨whole s, faults⟩
  | ⟨s, .fail k :: faults⟩ => .error (.raised e) ⟨kept k s, faults⟩
  | ⟨s, .crash k :: faults⟩ => .error .killed ⟨kept k s, faults⟩

-- An effect that happens as a whole or not at all.
def atomic (e : ε) (f : σ → σ) : CrashIo ε σ Unit :=
  effect e (fun kept => if kept = 0 then id else f) f

def forEach : List α → (α → CrashIo ε σ Unit) → CrashIo ε σ Unit
  | [], _ => pure ()
  | a :: as, body => do
      body a
      forEach as body

def Ensures (m : CrashIo ε σ α) (s : σ) (Q : α → σ → Prop) (E : Stop ε → σ → Prop) : Prop :=
  ∀ faults, match m ⟨s, faults⟩ with
    | .ok r w => Q r w.state
    | .error e w => E e w.state

section Rules

variable {m : CrashIo ε σ α} {f : α → CrashIo ε σ β} {s : σ} {Q Q' : α → σ → Prop}
  {R : β → σ → Prop} {E E' : Stop ε → σ → Prop} {U : Unit → σ → Prop}

theorem Ensures.mono (h : Ensures m s Q E) (hQ : ∀ r s', Q r s' → Q' r s')
    (hE : ∀ e s', E e s' → E' e s') : Ensures m s Q' E' := by
  intro faults
  have hm := h faults
  cases hrun : m ⟨s, faults⟩ with
  | ok r w =>
    rw [hrun] at hm
    exact hQ r w.state hm
  | error e w =>
    rw [hrun] at hm
    exact hE e w.state hm

theorem Ensures.bind (h : Ensures m s Q E) (hf : ∀ r s', Q r s' → Ensures (f r) s' R E) :
    Ensures (m >>= f) s R E := by
  intro faults
  have hm := h faults
  change match EStateM.bind m f ⟨s, faults⟩ with
    | .ok r w => R r w.state
    | .error e w => E e w.state
  unfold EStateM.bind
  cases hrun : m ⟨s, faults⟩ with
  | ok r w =>
    rw [hrun] at hm
    exact hf r w.state hm w.faults
  | error e w =>
    rw [hrun] at hm
    exact hm

theorem ensures_pure {a : α} (h : Q a s) : Ensures (pure a : CrashIo ε σ α) s Q E := fun _ => h

theorem ensures_raise {e : ε} (h : E (.raised e) s) :
    Ensures (raise e : CrashIo ε σ α) s Q E := fun _ => h

theorem ensures_bind_pure {a : α} (h : Ensures (f a) s R E) :
    Ensures ((pure a : CrashIo ε σ α) >>= f) s R E := h

theorem ensures_bind_raise {e : ε} (h : E (.raised e) s) :
    Ensures ((raise e : CrashIo ε σ α) >>= f) s R E := fun _ => h

theorem ensures_observe {g : σ → CrashIo ε σ β} (h : Ensures (g s) s R E) :
    Ensures (observe >>= g) s R E := h

theorem ensures_change {g : σ → σ} {k : Unit → CrashIo ε σ β} (h : Ensures (k ()) (g s) R E) :
    Ensures (change g >>= k) s R E := fun faults => h faults

theorem ensures_require {p : Prop} [Decidable p] {e : ε} {k : Unit → CrashIo ε σ β}
    (hn : ¬ p → E (.raised e) s) (hp : p → Ensures (k ()) s R E) :
    Ensures (require p e >>= k) s R E := by
  unfold require
  split
  · next h => exact ensures_bind_pure (hp h)
  · next h => exact ensures_bind_raise (hn h)

theorem ensures_require_last {p : Prop} [Decidable p] {e : ε} (hn : ¬ p → E (.raised e) s)
    (hp : p → U () s) : Ensures (require p e : CrashIo ε σ Unit) s U E := by
  unfold require
  split
  · next h => exact ensures_pure (hp h)
  · next h => exact ensures_raise (hn h)

theorem ensures_change_last {g : σ → σ} (h : U () (g s)) :
    Ensures (change g : CrashIo ε σ Unit) s U E := fun _ => h

theorem ensures_orRaise {o : Option α} {e : ε} (hn : o = none → E (.raised e) s)
    (hs : ∀ a, o = some a → Ensures (f a) s R E) : Ensures (orRaise o e >>= f) s R E := by
  cases o with
  | none => exact ensures_bind_raise (hn rfl)
  | some a => exact ensures_bind_pure (hs a rfl)

theorem ensures_orPanic {o : Option α} (hn : o = none → E .killed s)
    (hs : ∀ a, o = some a → Ensures (f a) s R E) : Ensures (orPanic o >>= f) s R E := by
  cases o with
  | none => exact fun _ => hn rfl
  | some a => exact ensures_bind_pure (hs a rfl)

theorem ensures_ofExcept {r : Except ε α} (he : ∀ e, r = .error e → E (.raised e) s)
    (ho : ∀ a, r = .ok a → Ensures (f a) s R E) : Ensures (ofExcept r >>= f) s R E := by
  cases r with
  | ok a => exact ensures_bind_pure (ho a rfl)
  | error e => exact ensures_bind_raise (he e rfl)

theorem ensures_effect {e : ε} {kept : Nat → σ → σ} {whole : σ → σ} (hw : U () (whole s))
    (hk : ∀ k stop, E stop (kept k s)) : Ensures (effect e kept whole) s U E := by
  intro faults
  match faults with
  | [] => exact hw
  | .none :: _ => exact hw
  | .fail k :: _ => exact hk k (.raised e)
  | .crash k :: _ => exact hk k .killed

theorem ensures_atomic {e : ε} {g : σ → σ} (hg : U () (g s)) (hn : ∀ stop, E stop s)
    (hs : ∀ stop, E stop (g s)) : Ensures (atomic e g) s U E := by
  apply ensures_effect hg
  intro k stop
  split
  · exact hn stop
  · exact hs stop

-- A loop keeps what every pass keeps; `I done` is what holds once the elements of `done` are through.
theorem ensures_forEach (body : α → CrashIo ε σ Unit) {I : List α → σ → Prop}
    (hbody : ∀ done a t, I done t → Ensures (body a) t (fun _ => I (done ++ [a])) E)
    (as done : List α) (hs : I done s) :
    Ensures (forEach as body) s (fun _ => I (done ++ as)) E := by
  induction as generalizing s done with
  | nil =>
    rw [List.append_nil]
    exact ensures_pure hs
  | cons a as ih =>
    apply (hbody done a s hs).bind
    intro _ t ht
    have hrest := ih (done ++ [a]) ht
    rwa [List.append_assoc] at hrest

end Rules

-- One run under a known script.
section Runs

variable {m : CrashIo ε σ α} {f : α → CrashIo ε σ β} {w w' : World σ} {a : α} {e : ε}
  {stop : Stop ε}

theorem bind_run (h : m w = .ok a w') : (m >>= f) w = f a w' := by
  change EStateM.bind m f w = f a w'
  unfold EStateM.bind
  rw [h]

theorem bind_stop (h : m w = .error stop w') : (m >>= f) w = .error stop w' := by
  change EStateM.bind m f w = .error stop w'
  unfold EStateM.bind
  rw [h]

theorem observe_run : (observe : CrashIo ε σ σ) w = .ok w.state w := rfl

theorem require_run {p : Prop} [Decidable p] (hp : p) :
    (require p e : CrashIo ε σ Unit) w = .ok () w := by
  rw [require, if_pos hp]
  rfl

theorem orRaise_run : (orRaise (some a) e : CrashIo ε σ α) w = .ok a w := rfl

theorem orPanic_run : (orPanic (some a) : CrashIo ε σ α) w = .ok a w := rfl

theorem ofExcept_run {r : Except ε α} (h : r = .ok a) :
    (ofExcept r : CrashIo ε σ α) w = .ok a w := by
  rw [h]
  rfl

theorem atomic_run {g : σ → σ} {s : σ} {faults : List Fault}
    (h : faults.head?.getD .none = .none) :
    atomic e g ⟨s, faults⟩ = .ok () ⟨g s, faults.tail⟩ := by
  match faults, h with
  | [], _ => rfl
  | .none :: _, _ => rfl

theorem forEach_run {body : α → CrashIo ε σ Unit} {as : List α}
    (h : ∀ a ∈ as, body a w = .ok () w) : forEach as body w = .ok () w := by
  induction as with
  | nil => rfl
  | cons a as ih =>
    rw [forEach, bind_run (h a List.mem_cons_self)]
    exact ih fun b hb => h b (List.mem_cons_of_mem a hb)

end Runs

end VeStorage.Lib.Crash
