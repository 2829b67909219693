import Mathlib.Logic.Function.Iterate
import Mathlib.Logic.Function.Basic

namespace VeStorage.Lib

variable {σ τ : Type} [DecidableEq σ] {f : τ → τ} {stack stack' : List σ} {traces : σ → τ} {s : σ}

-- A change to the trace of every scope of a stack, in its order.
def onStack (f : τ → τ) (stack : List σ) (traces : σ → τ) : σ → τ :=
  stack.foldl (fun traces s => Function.update traces s (f (traces s))) traces

@[simp] theorem onStack_nil : onStack f [] traces = traces := rfl

theorem onStack_apply (f : τ → τ) (stack : List σ) (traces : σ → τ) (s : σ) :
    onStack f stack traces s = f^[stack.count s] (traces s) := by
  induction stack generalizing traces with
  | nil => rfl
  | cons t stack ih =>
    have htail := ih (Function.update traces t (f (traces t)))
    rw [onStack, List.foldl_cons]
    refine htail.trans ?_
    by_cases h : t = s
    · subst h
      rw [Function.update_self, List.count_cons_self, Function.iterate_succ_apply]
    · rw [Function.update_of_ne (Ne.symm h), List.count_cons_of_ne h]

theorem onStack_of_not_mem (h : s ∉ stack) : onStack f stack traces s = traces s := by
  rw [onStack_apply, List.count_eq_zero_of_not_mem h]
  rfl

theorem onStack_of_count (h : stack.count s = 1) : onStack f stack traces s = f (traces s) := by
  rw [onStack_apply, h]
  rfl

end VeStorage.Lib
