import VeStorage.Lib.PageLoop
import Mathlib.Data.List.Nodup
import Mathlib.Data.List.TakeDrop

namespace VeStorage.Lib.Capped
open PageLoop (Loop)

variable {σ α P M E : Type}

structure Request (M : Type) where
  limit : Nat
  marker : Option M

-- A listing that collects pages up to a cap: what it holds, and the marker that a page names.
structure Source (σ P M E : Type) where
  limit : Nat → Nat → Nat
  count : σ → Nat
  absorb : Nat → σ → P → σ
  next : P → Except E (Option M)

structure State (σ M : Type) where
  held : σ
  marker : Option M
  next : Option M

structure Output (σ M : Type) where
  held : σ
  nextMarker : Option M
  isTruncated : Bool

def Source.loop (S : Source σ P M E) (maxKeys : Nat) : Loop (State σ M) (Request M) P E where
  ask s :=
    if S.count s.held < maxKeys then
      .ok (some (⟨S.limit (S.count s.held) maxKeys, s.marker⟩, { s with marker := none }))
    else .ok none
  accept s page := do
    let held := S.absorb maxKeys s.held page
    match ← S.next page with
    | none => return (⟨held, s.marker, none⟩, true)
    | some marker =>
        if maxKeys ≤ S.count held then return (⟨held, s.marker, some marker⟩, true)
        else return (⟨held, some marker, some marker⟩, false)

def Source.list (S : Source σ P M E) (answers : Nat → Except E P) (maxKeys : Nat)
    (initialMarker : Option M) (start : σ) (fuel : Nat) :
    List (Request M) × Option (Except E (Output σ M)) :=
  let listed := (S.loop maxKeys).run answers fuel 0 ⟨start, initialMarker, none⟩
  (listed.1, listed.2.map (·.map fun s => ⟨s.held, s.next, s.next.isSome⟩))

-- `for item in items`, left once the cap is reached.
def pushUpTo (maxKeys : Nat) (count : σ → Nat) (push : σ → α → σ) : σ → List α → σ
  | s, [] => s
  | s, a :: rest =>
      if maxKeys ≤ count s then s else pushUpTo maxKeys count push (push s a) rest

-- The entries that a state holds, in the order of the pages.
structure Represents (S : Source σ P M E) (items : P → List α) (R : σ → List α → Prop) : Prop where
  count : ∀ {s acc}, R s acc → S.count s = acc.length
  absorb : ∀ {s acc} (maxKeys : Nat) (page : P), R s acc →
    R (S.absorb maxKeys s page) (acc ++ (items page).take (maxKeys - acc.length))

theorem pushUpTo_represents {β : Type} (entry : β → α) (R : σ → List α → Prop) (count : σ → Nat)
    (push : σ → β → σ) (hcount : ∀ {s acc}, R s acc → count s = acc.length)
    (hpush : ∀ {s acc} (b : β), R s acc → R (push s b) (acc ++ [entry b]))
    (maxKeys : Nat) (items : List β) {s : σ} {acc : List α} (h : R s acc) :
    R (pushUpTo maxKeys count push s items)
      (acc ++ (items.map entry).take (maxKeys - acc.length)) := by
  induction items generalizing s acc with
  | nil => simpa [pushUpTo] using h
  | cons b rest ih =>
    unfold pushUpTo
    rw [hcount h]
    split
    · next hfull =>
      rw [Nat.sub_eq_zero_of_le hfull, List.take_zero, List.append_nil]
      exact h
    · next hroom =>
      have hrest := ih (hpush b h)
      rw [List.length_append, List.length_singleton, List.append_assoc] at hrest
      obtain ⟨room, hsub⟩ : ∃ room, maxKeys - acc.length = room + 1 :=
        ⟨maxKeys - acc.length - 1, by omega⟩
      rw [show maxKeys - (acc.length + 1) = room by omega] at hrest
      rw [hsub, List.map_cons, List.take_succ_cons]
      exact hrest

theorem take_append_take (acc xs ys : List α) (n : Nat) :
    (acc ++ xs.take (n - acc.length)) ++
        ys.take (n - (acc ++ xs.take (n - acc.length)).length) =
      acc ++ (xs ++ ys).take (n - acc.length) := by
  rw [List.append_assoc, List.take_append, List.length_append, List.length_take]
  congr 3
  omega

-- Two vectors that share one allowance; a page fills the first one first.
structure HeldPair (A B : Type) where
  first : List A
  second : List B
  returned : Nat

namespace HeldPair

variable {A B : Type}

def empty : HeldPair A B := ⟨[], [], 0⟩

def pushFirst (held : HeldPair A B) (a : A) : HeldPair A B :=
  { held with first := held.first ++ [a], returned := held.returned + 1 }

def pushSecond (held : HeldPair A B) (b : B) : HeldPair A B :=
  { held with second := held.second ++ [b], returned := held.returned + 1 }

def absorb (maxKeys : Nat) (held : HeldPair A B) (first : List A) (second : List B) : HeldPair A B :=
  let held := pushUpTo maxKeys returned pushFirst held first
  pushUpTo maxKeys returned pushSecond held second

def items (first : List A) (second : List B) : List (A ⊕ B) :=
  first.map .inl ++ second.map .inr

-- The two vectors, out of the entries in the order of the pages.
structure Holds (held : HeldPair A B) (acc : List (A ⊕ B)) : Prop where
  first : held.first = acc.filterMap Sum.getLeft?
  second : held.second = acc.filterMap Sum.getRight?
  returned : held.returned = acc.length

def Shows (held : HeldPair A B) : A ⊕ B → Prop
  | .inl a => a ∈ held.first
  | .inr b => b ∈ held.second

variable {held : HeldPair A B} {acc : List (A ⊕ B)}

theorem empty_holds : (empty : HeldPair A B).Holds [] := ⟨rfl, rfl, rfl⟩

theorem Holds.pushFirst (h : held.Holds acc) (a : A) : (held.pushFirst a).Holds (acc ++ [.inl a]) where
  first := by rw [List.filterMap_append, ← h.first]; rfl
  second := by rw [List.filterMap_append, ← h.second]; exact (List.append_nil _).symm
  returned := by rw [List.length_append, ← h.returned]; rfl

theorem Holds.pushSecond (h : held.Holds acc) (b : B) :
    (held.pushSecond b).Holds (acc ++ [.inr b]) where
  first := by rw [List.filterMap_append, ← h.first]; exact (List.append_nil _).symm
  second := by rw [List.filterMap_append, ← h.second]; rfl
  returned := by rw [List.length_append, ← h.returned]; rfl

theorem Holds.absorb (h : held.Holds acc) (maxKeys : Nat) (first : List A) (second : List B) :
    (held.absorb maxKeys first second).Holds
      (acc ++ (items first second).take (maxKeys - acc.length)) := by
  have hfirst := pushUpTo_represents Sum.inl Holds HeldPair.returned HeldPair.pushFirst
    (fun h => h.returned) (fun a h => h.pushFirst a) maxKeys first h
  have hsecond := pushUpTo_represents Sum.inr Holds HeldPair.returned HeldPair.pushSecond
    (fun h => h.returned) (fun b h => h.pushSecond b) maxKeys second hfirst
  rwa [take_append_take] at hsecond

theorem Holds.mem_first (h : held.Holds acc) (a : A) : a ∈ held.first ↔ .inl a ∈ acc := by
  rw [h.first, List.mem_filterMap]
  constructor
  · rintro ⟨entry, hmem, hentry⟩
    exact Sum.getLeft?_eq_some_iff.mp hentry ▸ hmem
  · exact fun hmem => ⟨_, hmem, rfl⟩

theorem Holds.mem_second (h : held.Holds acc) (b : B) : b ∈ held.second ↔ .inr b ∈ acc := by
  rw [h.second, List.mem_filterMap]
  constructor
  · rintro ⟨entry, hmem, hentry⟩
    exact Sum.getRight?_eq_some_iff.mp hentry ▸ hmem
  · exact fun hmem => ⟨_, hmem, rfl⟩

theorem Holds.shows (h : held.Holds acc) (entry : A ⊕ B) : held.Shows entry ↔ entry ∈ acc := by
  cases entry with
  | inl a => exact h.mem_first a
  | inr b => exact h.mem_second b

theorem Holds.size (h : held.Holds acc) : held.first.length + held.second.length = acc.length := by
  rw [h.first, h.second]
  clear h
  induction acc with
  | nil => rfl
  | cons entry rest ih =>
    cases entry with
    | inl a =>
      simp only [List.filterMap_cons, Sum.getLeft?_inl, Sum.getRight?_inl, List.length_cons]
      omega
    | inr b =>
      simp only [List.filterMap_cons, Sum.getLeft?_inr, Sum.getRight?_inr, List.length_cons]
      omega

end HeldPair

-- The pages that a listing reads from the answer `n` on, `total` entries after the first.
inductive Reads (next : P → Except E (Option M)) (items : P → List α) (maxKeys : Nat)
    (answers : Nat → Except E P) : Nat → Nat → List P → Prop
  | last {n total : Nat} {page : P} (hanswer : answers n = .ok page) (hnext : next page = .ok none) :
      Reads next items maxKeys answers n total [page]
  | full {n total : Nat} {page : P} {marker : M} (hanswer : answers n = .ok page)
      (hnext : next page = .ok (some marker)) (hfull : maxKeys ≤ total + (items page).length) :
      Reads next items maxKeys answers n total [page]
  | more {n total : Nat} {page : P} {marker : M} {rest : List P} (hanswer : answers n = .ok page)
      (hnext : next page = .ok (some marker)) (hroom : total + (items page).length < maxKeys)
      (h : Reads next items maxKeys answers (n + 1) (total + (items page).length) rest) :
      Reads next items maxKeys answers n total (page :: rest)

-- Where the listing goes on after a page.
def nextOf (next : P → Except E (Option M)) (page : P) : Option M :=
  match next page with
  | .ok marker => marker
  | .error _ => none

section Reads

variable {next : P → Except E (Option M)} {items : P → List α} {maxKeys n total : Nat}
  {answers : Nat → Except E P} {pages : List P}

theorem Reads.ne_nil (h : Reads next items maxKeys answers n total pages) : pages ≠ [] := by
  cases h <;> exact List.cons_ne_nil _ _

theorem Reads.answered (h : Reads next items maxKeys answers n total pages) (i : Nat) (page : P)
    (hi : pages[i]? = some page) : answers (n + i) = .ok page := by
  induction h generalizing i with
  | last hanswer hnext =>
    cases i with
    | zero => exact hanswer.trans (congrArg Except.ok (Option.some.inj hi))
    | succ i => cases hi
  | full hanswer hnext hfull =>
    cases i with
    | zero => exact hanswer.trans (congrArg Except.ok (Option.some.inj hi))
    | succ i => cases hi
  | more hanswer hnext hroom h ih =>
    cases i with
    | zero => exact hanswer.trans (congrArg Except.ok (Option.some.inj hi))
    | succ i => exact (congrArg answers (by omega)).trans (ih i hi)

end Reads

section Run

variable {S : Source σ P M E} {items : P → List α} {R : σ → List α → Prop} {maxKeys n total : Nat}
  {answers : Nat → Except E P} {s out : State σ M} {acc : List α} {pages : List P}

theorem run_limits {good : Nat → Prop}
    (hgood : ∀ returned, returned < maxKeys → good (S.limit returned maxKeys)) (fuel : Nat) :
    ∀ q ∈ ((S.loop maxKeys).run answers fuel n s).1, good q.limit := by
  induction fuel generalizing n s with
  | zero =>
    intro q hq
    cases hq
  | succ fuel ih =>
    unfold Loop.run
    dsimp only [Source.loop]
    by_cases hroom : S.count s.held < maxKeys
    · have hone : ∀ q ∈ [Request.mk (S.limit (S.count s.held) maxKeys) s.marker], good q.limit :=
        fun q hq => List.mem_singleton.mp hq ▸ hgood _ hroom
      rw [if_pos hroom]
      dsimp only
      split
      · exact hone
      · split
        · exact hone
        · exact hone
        · intro q hq
          rcases List.mem_cons.mp hq with rfl | hq
          · exact hgood _ hroom
          · exact ih q hq
    · rw [if_neg hroom]
      intro q hq
      cases hq

theorem loop_ask (h : S.count s.held < maxKeys) :
    (S.loop maxKeys).ask s =
      .ok (some (⟨S.limit (S.count s.held) maxKeys, s.marker⟩, { s with marker := none })) :=
  if_pos h

theorem loop_accept_last {page : P} (hnext : S.next page = .ok none) :
    (S.loop maxKeys).accept s page =
      .ok (⟨S.absorb maxKeys s.held page, s.marker, none⟩, true) := by
  simp only [Source.loop, hnext]
  rfl

theorem loop_accept_full {page : P} {marker : M} (hnext : S.next page = .ok (some marker))
    (hfull : maxKeys ≤ S.count (S.absorb maxKeys s.held page)) :
    (S.loop maxKeys).accept s page =
      .ok (⟨S.absorb maxKeys s.held page, s.marker, some marker⟩, true) := by
  simp only [Source.loop, hnext]
  exact if_pos hfull

theorem loop_accept_more {page : P} {marker : M} (hnext : S.next page = .ok (some marker))
    (hroom : ¬ maxKeys ≤ S.count (S.absorb maxKeys s.held page)) :
    (S.loop maxKeys).accept s page =
      .ok (⟨S.absorb maxKeys s.held page, some marker, some marker⟩, false) := by
  simp only [Source.loop, hnext]
  exact if_neg hroom

-- The list that stands for the state once a page has been read.
theorem count_absorb (hR : Represents S items R) (hs : R s.held acc) (hroom : acc.length < maxKeys)
    (page : P) :
    S.count (S.absorb maxKeys s.held page) = min maxKeys (acc.length + (items page).length) := by
  rw [hR.count (hR.absorb maxKeys page hs), List.length_append, List.length_take]
  omega

-- What a run that reads these pages holds and returns in the end.
structure Result (S : Source σ P M E) (items : P → List α) (R : σ → List α → Prop) (maxKeys : Nat)
    (s : State σ M) (acc : List α) (pages : List P) (sent : List (Request M)) (out : State σ M) :
    Prop where
  held : R out.held ((acc ++ pages.flatMap items).take maxKeys)
  next : out.next = pages.getLast?.bind (nextOf S.next)
  markers : sent.map (·.marker) = s.marker :: pages.dropLast.map (nextOf S.next)

theorem Result.single (hR : Represents S items R) (hs : R s.held acc) (hroom : acc.length < maxKeys)
    (page : P) (limit : Nat) :
    Result S items R maxKeys s acc [page] [⟨limit, s.marker⟩]
      ⟨S.absorb maxKeys s.held page, none, nextOf S.next page⟩ := by
  refine ⟨?_, rfl, rfl⟩
  have habsorb := hR.absorb maxKeys page hs
  rwa [List.flatMap_cons, List.flatMap_nil, List.append_nil, List.take_append,
    List.take_of_length_le (Nat.le_of_lt hroom)]

theorem run_of_reads (hR : Represents S items R) (h : Reads S.next items maxKeys answers n total pages)
    (hs : R s.held acc) (htotal : acc.length = total) (hroom : total < maxKeys) {fuel : Nat}
    (hfuel : pages.length ≤ fuel) :
    ∃ sent out, (S.loop maxKeys).run answers fuel n s = (sent, some (.ok out)) ∧
      Result S items R maxKeys s acc pages sent out := by
  induction h generalizing fuel s acc with
  | @last n total page hanswer hnext =>
    obtain ⟨fuel, rfl⟩ := Nat.exists_eq_add_of_le' hfuel
    subst htotal
    have hnone : nextOf S.next page = none := by rw [nextOf, hnext]
    refine ⟨_, _, ?_, Result.single hR hs hroom page (S.limit (S.count s.held) maxKeys)⟩
    rw [List.length_singleton, Loop.run, loop_ask ((hR.count hs).symm ▸ hroom)]
    simp only [hanswer, loop_accept_last hnext, hnone]
  | @full n total page marker hanswer hnext hfull =>
    obtain ⟨fuel, rfl⟩ := Nat.exists_eq_add_of_le' hfuel
    subst htotal
    have hsome : nextOf S.next page = some marker := by rw [nextOf, hnext]
    have hcount : maxKeys ≤ S.count (S.absorb maxKeys s.held page) := by
      rw [count_absorb hR hs hroom page]
      omega
    refine ⟨_, _, ?_, Result.single hR hs hroom page (S.limit (S.count s.held) maxKeys)⟩
    rw [List.length_singleton, Loop.run, loop_ask ((hR.count hs).symm ▸ hroom)]
    simp only [hanswer, loop_accept_full (s := { s with marker := none }) hnext hcount, hsome]
  | @more n total page marker rest hanswer hnext hless h ih =>
    rw [List.length_cons] at hfuel
    obtain ⟨fuel, rfl⟩ : ∃ k, fuel = k + 1 := ⟨fuel - 1, by omega⟩
    subst htotal
    have hsome : nextOf S.next page = some marker := by rw [nextOf, hnext]
    have hcount : ¬ maxKeys ≤ S.count (S.absorb maxKeys s.held page) := by
      rw [count_absorb hR hs hroom page]
      omega
    have habsorb := hR.absorb maxKeys page hs
    rw [List.take_of_length_le (by omega)] at habsorb
    let after : State σ M := ⟨S.absorb maxKeys s.held page, some marker, some marker⟩
    obtain ⟨sent, out, hrun, hresult⟩ :=
      ih (s := after) habsorb List.length_append hless (Nat.le_of_succ_le_succ hfuel)
    have hrest := h.ne_nil
    refine ⟨⟨S.limit (S.count s.held) maxKeys, s.marker⟩ :: sent, out, ?_, ?_, ?_, ?_⟩
    · rw [Loop.run, loop_ask ((hR.count hs).symm ▸ hroom)]
      simp only [hanswer, loop_accept_more (s := { s with marker := none }) hnext hcount]
      rw [hrun]
    · have hheld := hresult.held
      rwa [List.append_assoc, ← List.flatMap_cons] at hheld
    · obtain ⟨second, others, rfl⟩ := List.exists_cons_of_ne_nil hrest
      rw [hresult.next, List.getLast?_cons_cons]
    · rw [List.map_cons, hresult.markers, List.dropLast_cons_of_ne_nil hrest, List.map_cons, hsome]

theorem reads_of_run (hR : Represents S items R) (hs : R s.held acc) (htotal : acc.length = total)
    (hroom : total < maxKeys) {fuel : Nat}
    (hr : ((S.loop maxKeys).run answers fuel n s).2 = some (.ok out)) :
    ∃ pages, Reads S.next items maxKeys answers n total pages ∧ pages.length ≤ fuel := by
  induction fuel generalizing n total s acc with
  | zero => cases hr
  | succ fuel ih =>
    subst htotal
    rw [Loop.run, loop_ask ((hR.count hs).symm ▸ hroom)] at hr
    dsimp only at hr
    split at hr
    · cases hr
    · next page hanswer =>
      have hcount := count_absorb hR hs hroom page
      cases hnext : S.next page with
      | error e =>
        simp only [Source.loop, hnext] at hr
        cases hr
      | ok next =>
        cases next with
        | none => exact ⟨[page], .last hanswer hnext, Nat.succ_le_succ (Nat.zero_le fuel)⟩
        | some marker =>
          by_cases hfull : maxKeys ≤ S.count (S.absorb maxKeys s.held page)
          · exact ⟨[page], .full hanswer hnext (by omega), Nat.succ_le_succ (Nat.zero_le fuel)⟩
          · rw [loop_accept_more (s := { s with marker := none }) hnext hfull] at hr
            have habsorb := hR.absorb maxKeys page hs
            rw [List.take_of_length_le (by omega)] at habsorb
            obtain ⟨rest, hreads, hlength⟩ := ih habsorb List.length_append (by omega) hr
            exact ⟨page :: rest, .more hanswer hnext (by omega) hreads,
              Nat.succ_le_succ hlength⟩

end Run

section Covers

variable (next : P → Except E (Option M)) (items : P → List α) (answers : Nat → Except E P)

-- An entry of a page that the marker of the page before `n` leads to.
def Reached (n : Nat) (e : α) : Prop :=
  ∃ m page, n ≤ m ∧ answers m = .ok page ∧ e ∈ items page ∧
    ∀ i, n ≤ i + 1 → i < m → ∃ before marker, answers i = .ok before ∧ next before = .ok (some marker)

-- Nothing that the pages hold is hidden from who reads on at `marker`.
structure Covers (pages : List P) (shows : α → Prop) (marker : Option M) : Prop where
  entries : ∀ e ∈ pages.flatMap items, shows e ∨ Reached next items answers pages.length e
  complete : marker = none →
    (∀ e ∈ pages.flatMap items, shows e) ∧ ∀ e, ¬ Reached next items answers pages.length e

def served : Nat → List α
  | 0 => []
  | n + 1 =>
      served n ++ match answers n with
        | .ok page => items page
        | .error _ => []

-- No name stands on two pages, or twice on one.
def DistinctBy {β : Type} (name : α → β) : Prop := ∀ n, ((served items answers n).map name).Nodup

def Distinct : Prop := ∀ n, (served items answers n).Nodup

variable {next items answers} {maxKeys : Nat} {pages : List P} {marker : Option M}
  {shows : α → Prop}

theorem not_reached_of_last (h : Reads next items maxKeys answers 0 0 pages)
    (hlast : pages.getLast?.bind (nextOf next) = none) (e : α) :
    ¬ Reached next items answers pages.length e := by
  rintro ⟨m, page, hle, -, -, hchain⟩
  have hpos := List.length_pos_of_ne_nil h.ne_nil
  obtain ⟨before, marker, hanswer, hnext⟩ := hchain (pages.length - 1) (by omega) (by omega)
  have hget : pages[pages.length - 1]? = some (pages.getLast h.ne_nil) := by
    rw [← List.getLast?_eq_getElem?, List.getLast?_eq_some_getLast h.ne_nil]
  have hread := h.answered _ _ hget
  rw [Nat.zero_add, hanswer] at hread
  rw [List.getLast?_eq_some_getLast h.ne_nil, ← Except.ok.inj hread, Option.bind_some, nextOf,
    hnext] at hlast
  cases hlast

theorem covers_iff_cut (h : Reads next items maxKeys answers 0 0 pages)
    (hmarker : marker = pages.getLast?.bind (nextOf next))
    (hshows : ∀ e ∈ (pages.flatMap items).take maxKeys, shows e) :
    Covers next items answers pages shows marker ↔
      ∀ e ∈ (pages.flatMap items).drop maxKeys,
        shows e ∨ Reached next items answers pages.length e := by
  refine ⟨fun hc e he => hc.entries e (List.mem_of_mem_drop he), fun hkept => ?_⟩
  have hentries : ∀ e ∈ pages.flatMap items,
      shows e ∨ Reached next items answers pages.length e := by
    intro e he
    rw [← List.take_append_drop maxKeys (pages.flatMap items)] at he
    rcases List.mem_append.mp he with he | he
    · exact .inl (hshows e he)
    · exact hkept e he
  refine ⟨hentries, fun hnone => ?_⟩
  have hlast := not_reached_of_last h (hmarker ▸ hnone)
  exact ⟨fun e he => (hentries e he).resolve_right (hlast e), hlast⟩

theorem covers_iff (h : Reads next items maxKeys answers 0 0 pages)
    (hmarker : marker = pages.getLast?.bind (nextOf next))
    (hshows : ∀ e, shows e ↔ e ∈ (pages.flatMap items).take maxKeys) :
    Covers next items answers pages shows marker ↔
      ∀ e ∈ (pages.flatMap items).drop maxKeys,
        e ∈ (pages.flatMap items).take maxKeys ∨ Reached next items answers pages.length e := by
  rw [covers_iff_cut h hmarker fun e he => (hshows e).mpr he]
  exact forall₂_congr fun e _ => or_congr_left (hshows e)

theorem kept_of_fits (hfits : (pages.flatMap items).length ≤ maxKeys) :
    ∀ e ∈ (pages.flatMap items).drop maxKeys,
      e ∈ (pages.flatMap items).take maxKeys ∨ Reached next items answers pages.length e := by
  rw [List.drop_of_length_le hfits]
  exact nofun

theorem flatMap_eq_served (h : Reads next items maxKeys answers 0 0 pages) {n : Nat}
    (hn : n ≤ pages.length) : (pages.take n).flatMap items = served items answers n := by
  induction n with
  | zero => rfl
  | succ n ih =>
    have hget := List.getElem?_eq_getElem hn
    have hread := h.answered n _ hget
    rw [Nat.zero_add] at hread
    rw [List.take_add_one, hget, List.flatMap_append, ih (Nat.le_of_succ_le hn), served, hread]
    simp

variable (items answers) in
theorem served_append {n m : Nat} (h : n ≤ m) :
    ∃ rest, served items answers m = served items answers n ++ rest := by
  induction m with
  | zero => exact ⟨[], by rw [Nat.le_zero.mp h, List.append_nil]⟩
  | succ m ih =>
    rcases Nat.le_succ_iff.mp h with h | rfl
    · obtain ⟨rest, hrest⟩ := ih h
      exact ⟨_, by rw [served, hrest, List.append_assoc]⟩
    · exact ⟨[], (List.append_nil _).symm⟩

section Distinct

variable {β : Type} {name : α → β} {e : α}

theorem Distinct.by_id (h : Distinct items answers) : DistinctBy items answers id := fun n => by
  rw [List.map_id]
  exact h n

theorem cut_not_taken (h : Reads next items maxKeys answers 0 0 pages)
    (hdistinct : DistinctBy items answers name) (he : e ∈ (pages.flatMap items).drop maxKeys)
    {taken : α} (htaken : taken ∈ (pages.flatMap items).take maxKeys) : name taken ≠ name e := by
  have hserved := flatMap_eq_served h (Nat.le_refl _)
  have hnodup := hdistinct pages.length
  rw [List.take_length] at hserved
  rw [← hserved, ← List.take_append_drop maxKeys (pages.flatMap items), List.map_append] at hnodup
  exact (List.nodup_append.mp hnodup).2.2 _ (List.mem_map_of_mem htaken) _ (List.mem_map_of_mem he)

theorem cut_not_reached (h : Reads next items maxKeys answers 0 0 pages)
    (hdistinct : DistinctBy items answers name) (he : e ∈ (pages.flatMap items).drop maxKeys) :
    ¬ Reached next items answers pages.length e := by
  rintro ⟨m, page, hle, hanswer, hmem, -⟩
  have hserved := flatMap_eq_served h (Nat.le_refl _)
  obtain ⟨rest, hrest⟩ := served_append items answers hle
  have hnodup := hdistinct (m + 1)
  rw [List.take_length] at hserved
  rw [served, hanswer, List.map_append] at hnodup
  refine (List.nodup_append.mp hnodup).2.2 (name e) (List.mem_map_of_mem ?_) _
    (List.mem_map_of_mem hmem) rfl
  rw [hrest, ← hserved]
  exact List.mem_append_left _ (List.mem_of_mem_drop he)

end Distinct

theorem fits_of_no_cut (h : ∀ e, e ∉ (pages.flatMap items).drop maxKeys) :
    (pages.flatMap items).length ≤ maxKeys :=
  List.drop_eq_nil_iff.mp (List.eq_nil_iff_forall_not_mem.mpr h)

theorem fits_of_kept (h : Reads next items maxKeys answers 0 0 pages)
    (hdistinct : Distinct items answers)
    (hkept : ∀ e ∈ (pages.flatMap items).drop maxKeys,
      e ∈ (pages.flatMap items).take maxKeys ∨ Reached next items answers pages.length e) :
    (pages.flatMap items).length ≤ maxKeys := by
  refine fits_of_no_cut fun e he => ?_
  rcases hkept e he with htaken | hreached
  · exact cut_not_taken h hdistinct.by_id he htaken rfl
  · exact cut_not_reached h hdistinct.by_id he hreached

end Covers

section Lists

-- What a listing that reads these pages returns, and when it hides nothing.
structure Returns (next : P → Except E (Option M)) (items : P → List α)
    (answers : Nat → Except E P) (maxKeys : Nat) (marker : Option M) (size : σ → Nat)
    (R : σ → List α → Prop) (shows : σ → α → Prop) (pages : List P) (sent : List (Request M))
    (out : Output σ M) : Prop where
  markers : sent.map (·.marker) = marker :: pages.dropLast.map (nextOf next)
  bounded : size out.held ≤ maxKeys
  inOrder : R out.held ((pages.flatMap items).take maxKeys)
  nextMarker : out.nextMarker = pages.getLast?.bind (nextOf next)
  truncated : out.isTruncated = out.nextMarker.isSome
  hides : Covers next items answers pages (shows out.held) out.nextMarker ↔
    ∀ e ∈ (pages.flatMap items).drop maxKeys,
      e ∈ (pages.flatMap items).take maxKeys ∨ Reached next items answers pages.length e
  fits : (pages.flatMap items).length ≤ maxKeys →
    Covers next items answers pages (shows out.held) out.nextMarker
  distinct : Distinct items answers →
    Covers next items answers pages (shows out.held) out.nextMarker →
    (pages.flatMap items).length ≤ maxKeys

structure Lists (next : P → Except E (Option M)) (items : P → List α)
    (answers : Nat → Except E P) (maxKeys : Nat) (marker : Option M) (good : Nat → Prop)
    (size : σ → Nat) (R : σ → List α → Prop) (shows : σ → α → Prop)
    (run : Nat → List (Request M) × Option (Except E (Output σ M))) : Prop where
  limits : ∀ fuel, ∀ q ∈ (run fuel).1, good q.limit
  reads : ∀ fuel out, (run fuel).2 = some (.ok out) →
    ∃ pages, Reads next items maxKeys answers 0 0 pages ∧ pages.length ≤ fuel
  returns : ∀ pages, Reads next items maxKeys answers 0 0 pages → ∀ fuel, pages.length ≤ fuel →
    ∃ sent out, run fuel = (sent, some (.ok out)) ∧
      Returns next items answers maxKeys marker size R shows pages sent out

theorem Source.lists {S : Source σ P M E} {items : P → List α} {R : σ → List α → Prop}
    (hR : Represents S items R) {start : σ} (hstart : R start []) {maxKeys : Nat}
    (hmax : 0 < maxKeys) {good : Nat → Prop}
    (hgood : ∀ returned, returned < maxKeys → good (S.limit returned maxKeys)) {size : σ → Nat}
    (hsize : ∀ held acc, R held acc → size held = acc.length) {shows : σ → α → Prop}
    (hshows : ∀ held acc, R held acc → ∀ e, shows held e ↔ e ∈ acc)
    (answers : Nat → Except E P) (marker : Option M) :
    Lists S.next items answers maxKeys marker good size R shows
      (S.list answers maxKeys marker start) := by
  refine ⟨fun fuel => run_limits hgood fuel, fun fuel out h => ?_, fun pages h fuel hfuel => ?_⟩
  · obtain ⟨result, hrun, hout⟩ := Option.map_eq_some_iff.mp h
    cases result with
    | error e => cases hout
    | ok s => exact reads_of_run hR hstart rfl hmax hrun
  · obtain ⟨sent, s, hrun, hresult⟩ :=
      run_of_reads (s := ⟨start, marker, none⟩) hR h hstart rfl hmax hfuel
    have hheld := hresult.held
    rw [List.nil_append] at hheld
    have hiff := covers_iff h hresult.next (hshows _ _ hheld)
    refine ⟨sent, ⟨s.held, s.next, s.next.isSome⟩, ?_, hresult.markers, ?_, hheld, hresult.next, rfl,
      hiff, fun hfits => hiff.mpr (kept_of_fits hfits),
      fun hdistinct hcovers => fits_of_kept h hdistinct (hiff.mp hcovers)⟩
    · rw [Source.list, hrun]
      rfl
    · rw [hsize _ _ hheld]
      exact List.length_take_le _ _

end Lists

end VeStorage.Lib.Capped
