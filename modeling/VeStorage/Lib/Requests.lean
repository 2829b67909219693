import Mathlib.Logic.Basic

namespace VeStorage.Lib.Requests

variable {R W S E α β : Type} {A : R → Type}

inductive Prog (R : Type) (A : R → Type) (α : Type)
  | ret (a : α)
  | ask (r : R) (k : A r → Prog R A α)

def Prog.bind : Prog R A α → (α → Prog R A β) → Prog R A β
  | .ret a, f => f a
  | .ask r k, f => .ask r fun a => (k a).bind f

-- Each item in turn, up to the first error.
def each (f : S → α → Prog R A (S × Except E Unit)) : List α → S → Prog R A (S × Except E Unit)
  | [], s => .ret (s, .ok ())
  | a :: rest, s => (f s a).bind fun out =>
    match out with
    | (s, .ok _) => each f rest s
    | (s, .error e) => .ret (s, .error e)

structure Event (W R : Type) (A : R → Type) where
  request : R
  answer : A request
  world : W

-- The newest event stands first.
abbrev Log (W R : Type) (A : R → Type) := List (Event W R A)

inductive Runs : Prog R A α → Log W R A → Prog R A α → Log W R A → Prop
  | refl (p : Prog R A α) (l : Log W R A) : Runs p l p l
  | step {p : Prog R A α} {l l' : Log W R A} {r : R} {k : A r → Prog R A α}
      (h : Runs p l (.ask r k) l') (a : A r) (w : W) : Runs p l (k a) (⟨r, a, w⟩ :: l')

section Rules

variable (valid : Log W R A → Event W R A → Prop) (safe : Log W R A → R → Prop)

def Valid : Log W R A → Prop
  | [] => True
  | e :: l => Valid l ∧ valid l e

def Safe : Log W R A → Prop
  | [] => True
  | e :: l => Safe l ∧ safe l e.request

def Holds (Q : α → Log W R A → Prop) : Prog R A α → Log W R A → Prop
  | .ret a, l => Q a l
  | .ask r k, l => safe l r ∧ ∀ a w, valid l ⟨r, a, w⟩ → Holds Q (k a) (⟨r, a, w⟩ :: l)

theorem Valid.and {valid valid' : Log W R A → Event W R A → Prop} {l : Log W R A}
    (h : Valid valid l) (h' : Valid valid' l) : Valid (fun l e => valid l e ∧ valid' l e) l := by
  induction l with
  | nil => trivial
  | cons e l ih => exact ⟨ih h.1 h'.1, h.2, h'.2⟩

variable {valid safe} {Q Q' : α → Log W R A → Prop} {p p' : Prog R A α} {l l' : Log W R A}

theorem Holds.mono (h : Holds valid safe Q p l) (hq : ∀ a l, Q a l → Q' a l) :
    Holds valid safe Q' p l := by
  induction p generalizing l with
  | ret a => exact hq a l h
  | ask r k ih => exact ⟨h.1, fun a w hv => ih a (h.2 a w hv)⟩

theorem Holds.bind {T : β → Log W R A → Prop} {f : α → Prog R A β}
    (h : Holds valid safe Q p l) (hf : ∀ a l, Q a l → Holds valid safe T (f a) l) :
    Holds valid safe T (p.bind f) l := by
  induction p generalizing l with
  | ret a => exact hf a l h
  | ask r k ih => exact ⟨h.1, fun a w hv => ih a (h.2 a w hv)⟩

theorem Holds.runs (h : Holds valid safe Q p l) (hr : Runs p l p' l') (hv : Valid valid l')
    (hs : Safe safe l) : Safe safe l' ∧ Holds valid safe Q p' l' := by
  induction hr with
  | refl => exact ⟨hs, h⟩
  | step _ a w ih =>
    obtain ⟨hsafe, hask⟩ := ih hv.1
    exact ⟨⟨hsafe, hask.1⟩, hask.2 a w hv.2⟩

-- `I` speaks of the items already handled.
theorem Holds.each {I : List α → S → Log W R A → Prop} {F : S → Log W R A → Prop}
    {f : S → α → Prog R A (S × Except E Unit)} (items : List α) {s : S}
    (h0 : I [] s l)
    (hstep : ∀ done a rest, items = done ++ a :: rest → ∀ s l, I done s l →
      Holds valid safe (fun out l => match out with
        | (s, .ok _) => I (done ++ [a]) s l
        | (s, .error _) => F s l) (f s a) l) :
    Holds valid safe (fun out l => match out with
      | (s, .ok _) => I items s l
      | (s, .error _) => F s l) (each f items s) l := by
  suffices h : ∀ rest done, items = done ++ rest → ∀ s l, I done s l →
      Holds valid safe (fun out l => match out with
        | (s, .ok _) => I items s l
        | (s, .error _) => F s l) (Requests.each f rest s) l from h items [] rfl s l h0
  intro rest
  induction rest with
  | nil =>
    intro done hd s l hi
    rw [List.append_nil] at hd
    exact hd ▸ hi
  | cons a rest ih =>
    intro done hd s l hi
    refine (hstep done a rest hd s l hi).bind ?_
    rintro ⟨s, r⟩ l hout
    cases r with
    | ok u => exact ih (done ++ [a]) (by simp [hd]) s l hout
    | error e => exact hout

end Rules

end VeStorage.Lib.Requests
