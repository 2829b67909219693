import Mathlib.Data.List.Basic
import Mathlib.Logic.Relation

namespace VeStorage.Lib

structure Page (α M : Type) where
  items : List α
  isTruncated : Bool
  next : M

-- The items of a listing in the service's order, and where each page ends.
structure Listing (α : Type) where
  items : List α
  size : Nat → Nat
  size_pos : ∀ n, 0 < size n

namespace Listing

variable {α : Type} (L : Listing α)

def after (n : Nat) : Nat := n + L.size n

def chunk (n : Nat) : List α := (L.items.drop n).take (L.size n)

def truncated (n : Nat) : Bool := decide (L.after n < L.items.length)

def Follows (n m : Nat) : Prop := L.truncated n = true ∧ m = L.after n

-- The positions at which the pages begin, from `n` on.
abbrev Begins : Nat → Nat → Prop := Relation.ReflTransGen L.Follows

theorem take_after (n : Nat) : L.items.take n ++ L.chunk n = L.items.take (L.after n) := by
  rw [after, List.take_add, chunk]

theorem take_last {n : Nat} (h : L.truncated n = false) : L.items.take (L.after n) = L.items :=
  List.take_of_length_le (Nat.le_of_not_lt (of_decide_eq_false h))

theorem lt_after (n : Nat) : n < L.after n := Nat.lt_add_of_pos_right (L.size_pos n)

theorem after_lt {n : Nat} (h : L.truncated n = true) : L.after n < L.items.length :=
  of_decide_eq_true h

end Listing

-- `next n`: the marker that the truncated page beginning at `n` carries.
structure Service (α M : Type) extends Listing α where
  first : M
  next : Nat → M
  position : M → Nat
  position_first : position first = 0

def Service.answer {α M : Type} (S : Service α M) (marker : M) : Page α M :=
  let n := S.position marker
  ⟨S.chunk n, S.truncated n, if S.truncated n then S.next n else S.first⟩

variable {α M ρ : Type}

-- `missing` ends the loop at a truncated page whose marker `proceed` does not accept.
def paginate (fetch : M → Page α M) (proceed : M → Bool) (done missing : List α → ρ) :
    Nat → M → List α → Option ρ
  | 0, _, _ => none
  | fuel + 1, marker, acc =>
      let page := fetch marker
      if page.isTruncated then
        if proceed page.next then
          paginate fetch proceed done missing fuel page.next (acc ++ page.items)
        else some (missing (acc ++ page.items))
      else some (done (acc ++ page.items))

section Ways

variable (S : Service α M) (proceed : M → Bool)

-- The page at `n` sends the loop on to the page at `m`.
structure Goes (n m : Nat) : Prop where
  truncated : S.truncated n = true
  proceeds : proceed (S.next n) = true
  position : m = S.position (S.next n)

abbrev Reads : Nat → Nat → Prop := Relation.ReflTransGen (Goes S proceed)

-- The items of the pages on the way, without those of the last one.
inductive Collects : Nat → Nat → List α → Prop
  | refl (n : Nat) : Collects n n []
  | head {n m k : Nat} {l : List α} (h : Goes S proceed n m) (hrest : Collects m k l) :
      Collects n k (S.chunk n ++ l)

def Stops (k : Nat) : Prop := S.truncated k = true → proceed (S.next k) = false

-- On the way to the last page some marker starts behind items that no page has brought yet.
def StepsOver : Prop := ∃ n m k, Reads S proceed 0 n ∧ Goes S proceed n m ∧ S.after n < m ∧
  Reads S proceed m k ∧ S.truncated k = false

-- What the loop needs: it sends back each marker it accepts.
structure Faithful (fetch : M → Page α M) : Prop where
  fetch_first : fetch S.first = S.answer S.first
  fetch_next : ∀ n, proceed (S.next n) = true → fetch (S.next n) = S.answer (S.next n)

end Ways

section Collecting

variable {S : Service α M} {proceed : M → Bool} {n m k : Nat} {l l' : List α}

theorem Collects.reads (h : Collects S proceed n k l) : Reads S proceed n k := by
  induction h with
  | refl => exact .refl
  | head h _ ih => exact .head h ih

theorem Collects.trans (h : Collects S proceed n m l) (h' : Collects S proceed m k l') :
    Collects S proceed n k (l ++ l') := by
  induction h with
  | refl => exact h'
  | head h _ ih =>
    rw [List.append_assoc]
    exact .head h (ih h')

theorem Reads.collects (h : Reads S proceed n k) : ∃ l, Collects S proceed n k l := by
  induction h using Relation.ReflTransGen.head_induction_on with
  | refl => exact ⟨[], .refl k⟩
  | head h _ ih =>
    obtain ⟨l, hl⟩ := ih
    exact ⟨_, .head h hl⟩

theorem Goes.unique (h : Goes S proceed n m) (h' : Goes S proceed n k) : m = k :=
  h.position.trans h'.position.symm

-- A way that comes back to where it was never ends.
theorem no_end_of_cycle {a : Nat} (hcycle : Relation.TransGen (Goes S proceed) a a)
    (hk : Reads S proceed a k) : ∃ m, Goes S proceed k m := by
  have hback : Relation.TransGen (Goes S proceed) k k := by
    induction hk with
    | refl => exact hcycle
    | tail _ hgo ih =>
      obtain ⟨c, hc, hrest⟩ := Relation.TransGen.head'_iff.mp ih
      obtain rfl := hgo.unique hc
      exact Relation.TransGen.tail' hrest hgo
  obtain ⟨c, hc, -⟩ := Relation.TransGen.head'_iff.mp hback
  exact ⟨c, hc⟩

theorem not_back {a p : Nat} (hp : Reads S proceed a p) (hgo : Goes S proceed p a)
    (hk : Reads S proceed a k) (hend : S.truncated k = false) : False := by
  obtain ⟨m, hm⟩ := no_end_of_cycle (Relation.TransGen.tail' hp hgo) hk
  exact absurd (hend.symm.trans hm.truncated) nofun

theorem way_ends (hforward : ∀ p q, Goes S proceed p q → S.after p ≤ q) (n : Nat) :
    ∃ k, Reads S proceed n k ∧ Stops S proceed k := by
  by_cases hstop : Stops S proceed n
  · exact ⟨n, .refl, hstop⟩
  · unfold Stops at hstop
    push Not at hstop
    obtain ⟨ht, hp⟩ := hstop
    have hgo : Goes S proceed n (S.position (S.next n)) := ⟨ht, by simpa using hp, rfl⟩
    have hlt := S.lt_after n
    have hafter := S.after_lt ht
    have hle := hforward n _ hgo
    obtain ⟨k, hk, hstop⟩ := way_ends hforward (S.position (S.next n))
    exact ⟨k, .head hgo hk, hstop⟩
termination_by S.items.length - n

theorem Collects.straight (h : Collects S proceed n k l)
    (hs : ∀ p q, Reads S proceed n p → Goes S proceed p q → Reads S proceed q k → q = S.after p) :
    S.items.take n ++ l = S.items.take k := by
  induction h with
  | refl => rw [List.append_nil]
  | @head n m k l hgo hrest ih =>
    obtain rfl := hs n m .refl hgo hrest.reads
    rw [← List.append_assoc, S.take_after]
    exact ih fun p q hp => hs p q (.head hgo hp)

theorem mem_chunk {x : α} (h : x ∈ S.chunk n) : ∃ i, n ≤ i ∧ i < S.after n ∧ S.items[i]? = some x := by
  obtain ⟨j, hj⟩ := List.mem_iff_getElem?.mp h
  rw [Listing.chunk, List.getElem?_take] at hj
  split at hj
  · rw [List.getElem?_drop] at hj
    exact ⟨n + j, by omega, by rw [Listing.after]; omega, hj⟩
  · cases hj

theorem Collects.mem (h : Collects S proceed n k l)
    (hforward : ∀ p q, Reads S proceed n p → Goes S proceed p q → Reads S proceed q k →
      S.after p ≤ q) :
    n ≤ k ∧ ∀ x ∈ l, ∃ i, n ≤ i ∧ i < k ∧ S.items[i]? = some x := by
  induction h with
  | refl => exact ⟨Nat.le_refl _, by simp⟩
  | @head n m k l hgo hrest ih =>
    obtain ⟨hle, hmem⟩ := ih fun p q hp => hforward p q (.head hgo hp)
    have hafter := hforward n m .refl hgo hrest.reads
    have hlt := S.lt_after n
    refine ⟨by omega, fun x hx => ?_⟩
    rcases List.mem_append.mp hx with hx | hx
    · obtain ⟨i, hi, hi', he⟩ := mem_chunk hx
      exact ⟨i, hi, by omega, he⟩
    · obtain ⟨i, hi, hi', he⟩ := hmem x hx
      exact ⟨i, by omega, hi', he⟩

theorem left_out (hnodup : S.items.Nodup) {i : Nat} (hi : i < S.items.length)
    (hl : ∀ x ∈ l, ∃ j, j ≠ i ∧ S.items[j]? = some x) : ∃ x ∈ S.items, x ∉ l := by
  refine ⟨S.items[i], List.getElem_mem hi, fun hx => ?_⟩
  obtain ⟨j, hne, hj⟩ := hl _ hx
  exact hne ((List.getElem?_inj hi hnodup).mp ((List.getElem?_eq_getElem hi).trans hj.symm)).symm

theorem stopped_leaves_out (hnodup : S.items.Nodup) (h : Collects S proceed 0 n l)
    (ht : S.truncated n = true)
    (hforward : ∀ p q, Reads S proceed 0 p → Goes S proceed p q → Reads S proceed q n →
      S.after p ≤ q) : ∃ x ∈ S.items, x ∉ l ++ S.chunk n := by
  obtain ⟨-, hmem⟩ := h.mem hforward
  have hlt := S.lt_after n
  refine left_out hnodup (S.after_lt ht) fun x hx => ?_
  rcases List.mem_append.mp hx with hx | hx
  · obtain ⟨i, -, hi, he⟩ := hmem x hx
    exact ⟨i, by omega, he⟩
  · obtain ⟨i, -, hi, he⟩ := mem_chunk hx
    exact ⟨i, by omega, he⟩

theorem stepped_leaves_out (hnodup : S.items.Nodup) (h : Collects S proceed 0 n l)
    (hgo : Goes S proceed n m) (hover : S.after n < m) (hrest : Collects S proceed m k l')
    (hforward : ∀ p q, Reads S proceed 0 p → Goes S proceed p q → Reads S proceed q k →
      S.after p ≤ q) : ∃ x ∈ S.items, x ∉ l ++ (S.chunk n ++ l') ++ S.chunk k := by
  have hn := h.reads
  have hk := hrest.reads
  obtain ⟨-, hbefore⟩ := h.mem fun p q hp hg hq => hforward p q hp hg (hq.trans (.head hgo hk))
  obtain ⟨hle, hbehind⟩ := hrest.mem fun p q hp => hforward p q (hn.trans (.head hgo hp))
  have hlt := S.lt_after n
  refine left_out hnodup (S.after_lt hgo.truncated) fun x hx => ?_
  simp only [List.mem_append] at hx
  rcases hx with (hx | hx | hx) | hx
  · obtain ⟨i, -, hi, he⟩ := hbefore x hx
    exact ⟨i, by omega, he⟩
  · obtain ⟨i, -, hi, he⟩ := mem_chunk hx
    exact ⟨i, by omega, he⟩
  · obtain ⟨i, hi, -, he⟩ := hbehind x hx
    exact ⟨i, by omega, he⟩
  · obtain ⟨i, hi, -, he⟩ := mem_chunk hx
    exact ⟨i, by omega, he⟩

end Collecting

section Paginate

variable {S : Service α M} {fetch : M → Page α M} {proceed : M → Bool} {done missing : List α → ρ}
  {n k : Nat} {marker : M}

def At (S : Service α M) (fetch : M → Page α M) (n : Nat) (marker : M) : Prop :=
  fetch marker = ⟨S.chunk n, S.truncated n, if S.truncated n then S.next n else S.first⟩

-- The outcome of a loop whose last page begins at `k`.
def Ended (S : Service α M) (proceed : M → Bool) (done missing : List α → ρ) (k : Nat)
    (rows : List α) (r : ρ) : Prop :=
  (S.truncated k = false ∧ r = done rows) ∨
    (S.truncated k = true ∧ proceed (S.next k) = false ∧ r = missing rows)

theorem Faithful.at_first (h : Faithful S proceed fetch) : At S fetch 0 S.first := by
  rw [At, h.fetch_first, Service.answer, S.position_first]

theorem Faithful.at_next (h : Faithful S proceed fetch) {m : Nat} (hgo : Goes S proceed n m) :
    At S fetch m (S.next n) := by
  rw [At, h.fetch_next n hgo.proceeds, Service.answer, ← hgo.position]

theorem paginate_succ (h : At S fetch n marker) (fuel : Nat) (acc : List α) :
    paginate fetch proceed done missing (fuel + 1) marker acc =
      if S.truncated n then
        if proceed (S.next n) then
          paginate fetch proceed done missing fuel (S.next n) (acc ++ S.chunk n)
        else some (missing (acc ++ S.chunk n))
      else some (done (acc ++ S.chunk n)) := by
  rw [paginate, h]
  cases ht : S.truncated n <;> simp

theorem paginate_reads (hf : Faithful S proceed fetch) (h : At S fetch n marker) {fuel : Nat}
    {acc : List α} {r : ρ} (hr : paginate fetch proceed done missing fuel marker acc = some r) :
    ∃ k l, Collects S proceed n k l ∧ Ended S proceed done missing k (acc ++ l ++ S.chunk k) r := by
  induction fuel generalizing n marker acc with
  | zero => cases hr
  | succ fuel ih =>
    rw [paginate_succ h] at hr
    cases ht : S.truncated n with
    | false =>
      rw [ht, if_neg Bool.false_ne_true] at hr
      exact ⟨n, [], .refl n, .inl ⟨ht, by simpa using (Option.some.inj hr).symm⟩⟩
    | true =>
      rw [ht, if_pos rfl] at hr
      cases hp : proceed (S.next n) with
      | false =>
        rw [hp, if_neg Bool.false_ne_true] at hr
        exact ⟨n, [], .refl n, .inr ⟨ht, hp, by simpa using (Option.some.inj hr).symm⟩⟩
      | true =>
        rw [hp, if_pos rfl] at hr
        have hgo : Goes S proceed n (S.position (S.next n)) := ⟨ht, hp, rfl⟩
        obtain ⟨k, l, hc, he⟩ := ih (hf.at_next hgo) hr
        refine ⟨k, S.chunk n ++ l, .head hgo hc, ?_⟩
        rwa [← List.append_assoc acc]

theorem paginate_collects (hf : Faithful S proceed fetch) {l : List α}
    (hc : Collects S proceed n k l) (h : At S fetch n marker) {acc : List α} {r : ρ}
    (he : Ended S proceed done missing k (acc ++ l ++ S.chunk k) r) :
    ∃ fuel, paginate fetch proceed done missing fuel marker acc = some r := by
  induction hc generalizing marker acc with
  | refl n =>
    rw [List.append_nil] at he
    refine ⟨1, ?_⟩
    rw [paginate_succ h]
    rcases he with ⟨ht, rfl⟩ | ⟨ht, hp, rfl⟩
    · simp [ht]
    · simp [ht, hp]
  | head hgo _ ih =>
    rw [← List.append_assoc] at he
    obtain ⟨fuel, hr⟩ := ih (hf.at_next hgo) he
    refine ⟨fuel + 1, ?_⟩
    rw [paginate_succ h, hgo.truncated, hgo.proceeds, if_pos rfl, if_pos rfl, hr]

theorem collected_items {l : List α} (hc : Collects S proceed 0 k l) (hk : S.truncated k = false)
    (hs : ∀ p q, Reads S proceed 0 p → Goes S proceed p q → Reads S proceed q k → q = S.after p) :
    l ++ S.chunk k = S.items := by
  have hl := hc.straight hs
  rw [List.take_zero, List.nil_append] at hl
  rw [hl, S.take_after, S.take_last hk]

-- A loop whose requests all fetch the first page never leaves it.
theorem paginate_stuck (hfetch : ∀ m, fetch m = S.answer S.first) (ht : S.truncated 0 = true)
    (hp : proceed (S.next 0) = true) (fuel : Nat) (marker : M) (acc : List α) :
    paginate fetch proceed done missing fuel marker acc = none := by
  have hat : ∀ m, At S fetch 0 m := fun m => by
    rw [At, hfetch, Service.answer, S.position_first]
  induction fuel generalizing marker acc with
  | zero => rfl
  | succ fuel ih =>
    rw [paginate_succ (hat marker), if_pos ht, if_pos hp]
    exact ih _ _

end Paginate

end VeStorage.Lib
