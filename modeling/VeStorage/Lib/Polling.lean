import Mathlib.Data.List.Induction

namespace VeStorage.Lib.Polling

-- One question: when it was sent, when it was over and what came back.
structure Poll (A : Type) where
  sent : Nat
  ended : Nat
  answer : A

variable {S A : Type}

def lastEnd (start : Nat) (polls : List (Poll A)) : Nat := (polls.getLast?.map Poll.ended).getD start

def after (next : S → A → S) (schedule : S) (polls : List (Poll A)) : S :=
  polls.foldl (fun schedule poll => next schedule poll.answer) schedule

section Schedule

variable (interval : S → Nat) (next : S → A → S)

-- Every question waits for the interval that the answers before it have left.
inductive Spaced (schedule : S) (start : Nat) : List (Poll A) → Prop
  | nil : Spaced schedule start []
  | concat (polls : List (Poll A)) (poll : Poll A) (h : Spaced schedule start polls)
      (hsent : lastEnd start polls + interval (after next schedule polls) ≤ poll.sent)
      (hended : poll.sent ≤ poll.ended) : Spaced schedule start (polls ++ [poll])

def Growing : Prop := ∀ schedule answer, interval schedule ≤ interval (next schedule answer)

variable {interval next} {schedule : S} {start : Nat} {polls pre mid post : List (Poll A)} {p q : Poll A}

@[simp] theorem lastEnd_concat (start : Nat) (polls : List (Poll A)) (poll : Poll A) :
    lastEnd start (polls ++ [poll]) = poll.ended := by simp [lastEnd]

theorem after_append (schedule : S) (polls more : List (Poll A)) :
    after next schedule (polls ++ more) = after next (after next schedule polls) more := List.foldl_append

theorem Growing.after_le (hgrow : Growing interval next) (schedule : S) (polls : List (Poll A)) :
    interval schedule ≤ interval (after next schedule polls) := by
  induction polls generalizing schedule with
  | nil => exact Nat.le_refl _
  | cons poll polls ih => exact Nat.le_trans (hgrow schedule poll.answer) (ih _)

namespace Spaced

theorem of_append (h : Spaced interval next schedule start (pre ++ post)) :
    Spaced interval next schedule start pre := by
  induction post using List.reverseRecOn with
  | nil => rwa [List.append_nil] at h
  | append_singleton post last ih =>
    rw [← List.append_assoc] at h
    generalize hl : pre ++ post ++ [last] = l at h
    cases h with
    | nil => simp at hl
    | concat polls poll h _ _ =>
      obtain ⟨rfl, -⟩ := List.append_inj' hl rfl
      exact ih h

theorem last (h : Spaced interval next schedule start (pre ++ [p])) :
    lastEnd start pre + interval (after next schedule pre) ≤ p.sent ∧ p.sent ≤ p.ended := by
  generalize hl : pre ++ [p] = l at h
  cases h with
  | nil => simp at hl
  | concat polls poll _ hsent hended =>
    obtain ⟨rfl, he⟩ := List.append_inj' hl rfl
    obtain rfl := List.singleton_inj.mp he
    exact ⟨hsent, hended⟩

theorem at_poll (h : Spaced interval next schedule start (pre ++ p :: post)) :
    lastEnd start pre + interval (after next schedule pre) ≤ p.sent ∧ p.sent ≤ p.ended := by
  rw [← List.singleton_append, ← List.append_assoc] at h
  exact h.of_append.last

-- Between two neighbours lies at least what the first one's answer has left.
theorem neighbours (h : Spaced interval next schedule start (pre ++ p :: q :: post)) :
    p.ended + interval (next (after next schedule pre) p.answer) ≤ q.sent := by
  have hq : Spaced interval next schedule start ((pre ++ [p]) ++ q :: post) := by simpa using h
  have hsent := hq.at_poll.1
  rw [lastEnd_concat, after_append] at hsent
  exact hsent

theorem elapsed (hgrow : Growing interval next) (h : Spaced interval next schedule start polls) :
    start + polls.length * interval schedule ≤ lastEnd start polls := by
  induction h with
  | nil => simp [lastEnd]
  | concat polls poll h hsent hended ih =>
    have hle := hgrow.after_le schedule polls
    rw [lastEnd_concat, List.length_append, List.length_singleton, Nat.succ_mul]
    omega

-- A question sent before the deadline bounds how many there were.
theorem count (hgrow : Growing interval next) (h : Spaced interval next schedule start (pre ++ [p]))
    {deadline : Nat} (hp : p.sent < deadline) :
    start + (pre ++ [p]).length * interval schedule < deadline := by
  have hpre := h.of_append.elapsed hgrow
  have hsent := h.last.1
  have hle := hgrow.after_le schedule pre
  rw [List.length_append, List.length_singleton, Nat.succ_mul]
  omega

end Spaced

-- What an answer asks for holds for every later question.
theorem Growing.later (hgrow : Growing interval next) (schedule : S) (pre mid : List (Poll A)) (p : Poll A) :
    interval (next (after next schedule pre) p.answer) ≤ interval (after next schedule (pre ++ p :: mid)) := by
  rw [after_append]
  exact hgrow.after_le _ mid

end Schedule

end VeStorage.Lib.Polling
