import Mathlib.Data.List.Basic

namespace VeStorage.Lib.PageLoop

variable {σ Q P E : Type}

-- `ask` gives the next request or ends the loop; `accept` reads the answer, `true` ends the loop.
structure Loop (σ Q P E : Type) where
  ask : σ → Except E (Option (Q × σ))
  accept : σ → P → Except E (σ × Bool)

variable (L : Loop σ Q P E) (answers : Nat → Except E P)

-- The requests sent, and the outcome unless the fuel is spent.
def Loop.run : Nat → Nat → σ → List Q × Option (Except E σ)
  | 0, _, _ => ([], none)
  | fuel + 1, n, s =>
      match L.ask s with
      | .error e => ([], some (.error e))
      | .ok none => ([], some (.ok s))
      | .ok (some (q, asked)) =>
          match answers n with
          | .error e => ([q], some (.error e))
          | .ok page =>
              match L.accept asked page with
              | .error e => ([q], some (.error e))
              | .ok (s', true) => ([q], some (.ok s'))
              | .ok (s', false) =>
                  let rest := Loop.run fuel (n + 1) s'
                  (q :: rest.1, rest.2)

inductive Ran (start : σ) : List Q → List P → σ → Bool → Prop
  | start : Ran start [] [] start false
  | turn {sent : List Q} {pages : List P} {s asked s' : σ} {q : Q} {page : P} {finished : Bool}
      (h : Ran start sent pages s false) (hask : L.ask s = .ok (some (q, asked)))
      (hanswer : answers pages.length = .ok page)
      (haccept : L.accept asked page = .ok (s', finished)) :
      Ran start (sent ++ [q]) (pages ++ [page]) s' finished

-- A last request that brought no page, or only one that the loop refused.
inductive Sent (start : σ) : List Q → Prop
  | answered {sent : List Q} {pages : List P} {s : σ} {finished : Bool}
      (h : Ran L answers start sent pages s finished) : Sent start sent
  | last {sent : List Q} {pages : List P} {s asked : σ} {q : Q}
      (h : Ran L answers start sent pages s false) (hask : L.ask s = .ok (some (q, asked))) :
      Sent start (sent ++ [q])

section Rules

variable {L answers} {start s out : σ} {sent : List Q} {pages : List P} {finished : Bool}

theorem Ran.length (h : Ran L answers start sent pages s finished) :
    sent.length = pages.length := by
  induction h with
  | start => rfl
  | turn h hask hanswer haccept ih => rw [List.length_append, List.length_append, ih]; rfl

theorem Ran.of_nil (h : Ran L answers start sent [] s finished) : s = start ∧ finished = false := by
  generalize hp : ([] : List P) = pages at h
  cases h with
  | start => exact ⟨rfl, rfl⟩
  | turn => exact absurd (congrArg List.length hp) (by rw [List.length_append]; exact nofun)

theorem Ran.answered (h : Ran L answers start sent pages s finished) (n : Nat) (page : P)
    (hn : pages[n]? = some page) : answers n = .ok page := by
  induction h with
  | start => cases hn
  | @turn sent pages s asked s' q last finished h hask hanswer haccept ih =>
    rcases Nat.lt_trichotomy n pages.length with hlt | rfl | hgt
    · exact ih (by rwa [List.getElem?_append_left hlt] at hn)
    · rw [List.getElem?_concat_length] at hn
      rw [hanswer, Option.some.inj hn]
    · rw [List.getElem?_eq_none (by rw [List.length_append]; exact hgt)] at hn
      cases hn

theorem run_sent (h : Ran L answers start sent pages s false) {n : Nat} (hn : pages.length = n)
    (fuel : Nat) : Sent L answers start (sent ++ (L.run answers fuel n s).1) := by
  have hstop : Sent L answers start (sent ++ []) := (List.append_nil sent).symm ▸ .answered h
  induction fuel generalizing sent pages s n with
  | zero => exact hstop
  | succ fuel ih =>
    unfold Loop.run
    split
    · exact hstop
    · exact hstop
    · next q asked hask =>
      split
      · exact .last h hask
      · next page hanswer =>
        split
        · exact .last h hask
        · next s' haccept => exact .answered (.turn h hask (hn ▸ hanswer) haccept)
        · next s' haccept =>
          have hturn := Ran.turn h hask (hn ▸ hanswer) haccept
          have hrest := ih hturn (by rw [List.length_append, hn])
            ((List.append_nil (sent ++ [q])).symm ▸ .answered hturn)
          rwa [List.append_assoc] at hrest

theorem run_ok (h : Ran L answers start sent pages s false) {n fuel : Nat} (hn : pages.length = n)
    (hr : (L.run answers fuel n s).2 = some (.ok out)) :
    ∃ read finished, Ran L answers start (sent ++ (L.run answers fuel n s).1) read out finished ∧
      (finished = true ∨ L.ask out = .ok none) := by
  induction fuel generalizing sent pages s n with
  | zero => cases hr
  | succ fuel ih =>
    unfold Loop.run at hr ⊢
    split at hr
    · cases hr
    · next hask =>
      cases hr
      exact ⟨pages, false, (List.append_nil sent).symm ▸ h, .inr hask⟩
    · next q asked hask =>
      split at hr
      · cases hr
      · next page hanswer =>
        split at hr
        · cases hr
        · next s' haccept =>
          cases hr
          exact ⟨_, true, .turn h hask (hn ▸ hanswer) haccept, .inl rfl⟩
        · next s' haccept =>
          have hturn := Ran.turn h hask (hn ▸ hanswer) haccept
          obtain ⟨read, finished, hran, hend⟩ := ih hturn (by rw [List.length_append, hn]; rfl) hr
          rw [List.append_assoc] at hran
          exact ⟨read, finished, hran, hend⟩

theorem run_error (h : Ran L answers start sent pages s false) {n fuel : Nat}
    (hn : pages.length = n) {e : E} (hr : (L.run answers fuel n s).2 = some (.error e)) :
    ∃ sent read s, Ran L answers start sent read s false ∧ (L.ask s = .error e ∨
      ∃ q asked, L.ask s = .ok (some (q, asked)) ∧ (answers read.length = .error e ∨
        ∃ page, answers read.length = .ok page ∧ L.accept asked page = .error e)) := by
  induction fuel generalizing sent pages s n with
  | zero => cases hr
  | succ fuel ih =>
    unfold Loop.run at hr
    split at hr
    · next hask =>
      cases hr
      exact ⟨sent, pages, s, h, .inl hask⟩
    · cases hr
    · next q asked hask =>
      split at hr
      · next hanswer =>
        cases hr
        exact ⟨sent, pages, s, h, .inr ⟨q, asked, hask, .inl (hn ▸ hanswer)⟩⟩
      · next page hanswer =>
        split at hr
        · next haccept =>
          cases hr
          exact ⟨sent, pages, s, h, .inr ⟨q, asked, hask, .inr ⟨page, hn ▸ hanswer, haccept⟩⟩⟩
        · cases hr
        · next s' haccept =>
          exact ih (.turn h hask (hn ▸ hanswer) haccept) (by rw [List.length_append, hn]; rfl) hr

theorem run_ends (measure : σ → Nat)
    (hdown : ∀ s q asked page s', L.ask s = .ok (some (q, asked)) →
      L.accept asked page = .ok (s', false) → measure s' < measure s)
    {fuel : Nat} (hfuel : measure s < fuel) (n : Nat) : (L.run answers fuel n s).2 ≠ none := by
  induction fuel generalizing n s with
  | zero => exact absurd hfuel (Nat.not_lt_zero _)
  | succ fuel ih =>
    unfold Loop.run
    split
    · exact nofun
    · exact nofun
    · next q asked hask =>
      split
      · exact nofun
      · next page hanswer =>
        split
        · exact nofun
        · exact nofun
        · next s' haccept =>
          have hless := hdown s q asked page s' hask haccept
          exact ih (by omega) (n + 1)

end Rules

end VeStorage.Lib.PageLoop
