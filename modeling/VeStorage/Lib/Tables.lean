import VeStorage.Lib.Ordered
import Mathlib.Algebra.BigOperators.Group.List.Basic

namespace VeStorage.Lib.Tables

variable {κ ν : Type} [LinearOrder κ] [AddCommMonoid ν]

def keys (t : List (κ × ν)) : List κ := t.map Prod.fst

def total (t : List (κ × ν)) : ν := (t.map Prod.snd).sum

def amount (key : κ) (t : List (κ × ν)) : ν := ((findBy Prod.fst key t).map Prod.snd).getD 0

-- The entry of the key, or a new one of nothing, grows.
def bump (key : κ) (value : ν) (t : List (κ × ν)) : List (κ × ν) :=
  insertBy Prod.fst (key, amount key t + value) t

def mergeInto (t source : List (κ × ν)) : List (κ × ν) :=
  source.foldl (fun t entry => bump entry.1 entry.2 t) t

variable (limit : Nat) (overflow : κ)

def bumpLimited (key : κ) (value : ν) (t : List (κ × ν)) : List (κ × ν) :=
  bump (if key ∈ keys t ∨ t.length < limit then key else overflow) value t

def mergeLimited (t source : List (κ × ν)) : List (κ × ν) :=
  source.foldl (fun t entry => bumpLimited limit overflow entry.1 entry.2 t) t

variable {limit overflow} {t t' source entries entries' : List (κ × ν)} {key j : κ} {value : ν}

theorem insertBy_perm {α γ : Type} [LinearOrder γ] {rank : α → γ} {a : α} {l : List α}
    (h : Ordered rank l) : (insertBy rank a l).Perm (a :: l.filter fun b => rank b ≠ rank a) := by
  refine (List.perm_ext_iff_of_nodup (ordered_insertBy h).nodup ?_).mpr fun x => ?_
  · exact List.nodup_cons.mpr ⟨by simp, h.nodup.filter _⟩
  · rw [mem_insertBy h]
    simp

theorem ordered_bump (h : Ordered Prod.fst t) : Ordered Prod.fst (bump key value t) :=
  ordered_insertBy h

theorem amount_of_mem (h : Ordered Prod.fst t) (hm : (key, value) ∈ t) : amount key t = value := by
  rw [amount, h.findBy_eq_some.mpr ⟨hm, rfl⟩]
  rfl

theorem amount_of_not_mem (hm : key ∉ keys t) : amount key t = 0 := by
  rw [amount]
  cases hf : findBy Prod.fst key t with
  | none => rfl
  | some entry =>
    obtain ⟨hentry, rfl⟩ := of_findBy hf
    exact absurd (List.mem_map_of_mem hentry) hm

theorem mem_iff (h : Ordered Prod.fst t) : (key, value) ∈ t ↔ key ∈ keys t ∧ amount key t = value := by
  constructor
  · intro hm
    exact ⟨List.mem_map_of_mem hm, amount_of_mem h hm⟩
  · rintro ⟨hkey, rfl⟩
    obtain ⟨⟨key, value⟩, hm, rfl⟩ := List.mem_map.mp hkey
    rwa [amount_of_mem h hm]

theorem mem_keys_bump (h : Ordered Prod.fst t) : j ∈ keys (bump key value t) ↔ j = key ∨ j ∈ keys t := by
  constructor
  · intro hj
    obtain ⟨entry, hentry, rfl⟩ := List.mem_map.mp hj
    rcases (mem_insertBy h).mp hentry with rfl | ⟨hentry, -⟩
    · exact .inl rfl
    · exact .inr (List.mem_map_of_mem hentry)
  · intro hj
    by_cases heq : j = key
    · exact List.mem_map.mpr ⟨_, (mem_insertBy h).mpr (.inl rfl), heq.symm⟩
    · obtain ⟨entry, hentry, rfl⟩ := List.mem_map.mp (hj.resolve_left heq)
      exact List.mem_map_of_mem ((mem_insertBy h).mpr (.inr ⟨hentry, heq⟩))

theorem amount_bump_self (h : Ordered Prod.fst t) : amount key (bump key value t) = amount key t + value :=
  amount_of_mem (ordered_bump h) ((mem_insertBy h).mpr (.inl rfl))

theorem amount_bump_other (h : Ordered Prod.fst t) (hne : j ≠ key) :
    amount j (bump key value t) = amount j t := by
  by_cases hj : j ∈ keys t
  · have hm : (j, amount j t) ∈ t := (mem_iff h).mpr ⟨hj, rfl⟩
    exact amount_of_mem (ordered_bump h) ((mem_insertBy h).mpr (.inr ⟨hm, hne⟩))
  · rw [amount_of_not_mem hj, amount_of_not_mem]
    rw [mem_keys_bump h]
    tauto

-- A table split at one key.
theorem perm_split (h : Ordered Prod.fst t) (hkey : key ∈ keys t) :
    t.Perm ((key, amount key t) :: t.filter fun entry => entry.1 ≠ key) := by
  refine (List.perm_ext_iff_of_nodup h.nodup ?_).mpr fun entry => ?_
  · exact List.nodup_cons.mpr ⟨by simp, h.nodup.filter _⟩
  · rw [List.mem_cons, List.mem_filter, decide_eq_true_iff]
    obtain ⟨j, value⟩ := entry
    by_cases heq : j = key
    · subst heq
      rw [mem_iff h]
      simp [hkey, eq_comm]
    · simp [heq]

omit [AddCommMonoid ν] in
theorem filter_of_not_mem (hkey : key ∉ keys t) : t.filter (fun entry => entry.1 ≠ key) = t := by
  refine List.filter_eq_self.mpr fun entry hentry => decide_eq_true fun heq => hkey ?_
  exact heq ▸ List.mem_map_of_mem hentry

theorem total_bump (h : Ordered Prod.fst t) : total (bump key value t) = total t + value := by
  have hsum : total t = amount key t + total (t.filter fun entry => entry.1 ≠ key) := by
    by_cases hkey : key ∈ keys t
    · exact ((perm_split h hkey).map Prod.snd).sum_eq
    · rw [filter_of_not_mem hkey, amount_of_not_mem hkey, zero_add]
  have hbump : total (bump key value t) =
      amount key t + value + total (t.filter fun entry => entry.1 ≠ key) :=
    ((insertBy_perm h).map Prod.snd).sum_eq
  rw [hbump, hsum]
  exact add_right_comm _ _ _

theorem length_bump (h : Ordered Prod.fst t) :
    (bump key value t).length = if key ∈ keys t then t.length else t.length + 1 := by
  have hbump : (bump key value t).length = (t.filter fun entry => entry.1 ≠ key).length + 1 :=
    (insertBy_perm h).length_eq
  rw [hbump]
  split
  next hkey => exact (perm_split h hkey).length_eq.symm
  next hkey => rw [filter_of_not_mem hkey]

section Limited

structure Limited (limit : Nat) (overflow : κ) (t : List (κ × ν)) : Prop where
  ordered : Ordered Prod.fst t
  length : t.length ≤ limit ∨ t.length ≤ limit + 1 ∧ overflow ∈ keys t

omit [AddCommMonoid ν] in
theorem limited_nil : Limited limit overflow ([] : List (κ × ν)) := ⟨ordered_nil, .inl (Nat.zero_le _)⟩

omit [AddCommMonoid ν] in
theorem Limited.length_le (h : Limited limit overflow t) : t.length ≤ limit + 1 := by
  rcases h.length with h | h
  · omega
  · exact h.1

theorem Limited.bumpLimited (h : Limited limit overflow t) :
    Limited limit overflow (bumpLimited limit overflow key value t) := by
  refine ⟨ordered_bump h.ordered, ?_⟩
  rw [Tables.bumpLimited, length_bump h.ordered, mem_keys_bump h.ordered]
  split
  next hin =>
    split
    next hkey => exact h.length.imp id fun hl => ⟨hl.1, .inr hl.2⟩
    next hkey =>
      have hlt := hin.resolve_left hkey
      exact .inl hlt
  next hout =>
    refine .inr ⟨?_, .inl rfl⟩
    split
    next hkey => exact h.length_le
    next hkey =>
      have hle := h.length.resolve_right fun hl => hkey hl.2
      omega

theorem total_bumpLimited (h : Limited limit overflow t) :
    total (Tables.bumpLimited limit overflow key value t) = total t + value :=
  total_bump h.ordered

theorem Limited.mergeLimited (h : Limited limit overflow t) (source : List (κ × ν)) :
    Limited limit overflow (mergeLimited limit overflow t source) ∧
      total (Tables.mergeLimited limit overflow t source) = total t + total source := by
  induction source generalizing t with
  | nil => exact ⟨h, (add_zero _).symm⟩
  | cons entry source ih =>
    have hbumped : Limited limit overflow (Tables.bumpLimited limit overflow entry.1 entry.2 t) := h.bumpLimited
    obtain ⟨hlimited, htotal⟩ := ih hbumped
    refine ⟨hlimited, htotal.trans ?_⟩
    rw [total_bumpLimited h, add_assoc]
    rfl

end Limited

section Holds

-- What has been added at a key.
def added (key : κ) (entries : List (κ × ν)) : ν := total (entries.filter fun entry => entry.1 = key)

structure Holds (t entries : List (κ × ν)) : Prop where
  ordered : Ordered Prod.fst t
  keys : ∀ key, key ∈ keys t ↔ key ∈ keys entries
  amount : ∀ key, amount key t = added key entries

theorem added_append : added key (entries ++ entries') = added key entries + added key entries' := by
  simp [added, total, List.filter_append]

omit [LinearOrder κ] [AddCommMonoid ν] in
theorem mem_keys_append : key ∈ keys (entries ++ entries') ↔ key ∈ keys entries ∨ key ∈ keys entries' := by
  simp only [keys, List.map_append, List.mem_append]

theorem holds_nil : Holds ([] : List (κ × ν)) [] := ⟨ordered_nil, fun _ => Iff.rfl, fun _ => rfl⟩

theorem Holds.bump (h : Holds t entries) : Holds (bump key value t) (entries ++ [(key, value)]) := by
  refine ⟨ordered_bump h.ordered, fun j => ?_, fun j => ?_⟩
  · rw [mem_keys_bump h.ordered, mem_keys_append, h.keys, or_comm]
    simp [Tables.keys]
  · rw [added_append, ← h.amount]
    by_cases heq : j = key
    · subst heq
      rw [amount_bump_self h.ordered]
      simp [added, total]
    · rw [amount_bump_other h.ordered heq]
      simp [added, total, Ne.symm heq]

theorem Holds.of_same (h : Holds t entries) (hkeys : ∀ key, key ∈ Tables.keys entries ↔ key ∈ Tables.keys entries')
    (hadded : ∀ key, added key entries = added key entries') : Holds t entries' :=
  ⟨h.ordered, fun key => (h.keys key).trans (hkeys key), fun key => (h.amount key).trans (hadded key)⟩

theorem Holds.of_perm (h : Holds t entries) (hperm : entries.Perm entries') : Holds t entries' :=
  h.of_same (fun _ => (hperm.map Prod.fst).mem_iff) fun _ =>
    ((hperm.filter _).map Prod.snd).sum_eq

theorem holds_self (h : Ordered Prod.fst t) : Holds t t := by
  refine ⟨h, fun _ => Iff.rfl, fun key => ?_⟩
  by_cases hkey : key ∈ Tables.keys t
  · have hperm := (perm_split h hkey).filter fun entry => entry.1 = key
    have hrest : (t.filter fun entry => entry.1 ≠ key).filter (fun entry => entry.1 = key) = [] := by
      rw [List.filter_filter]
      simp
    rw [List.filter_cons_of_pos (by simp), hrest] at hperm
    have hsum : added key t = total [(key, Tables.amount key t)] := (hperm.map Prod.snd).sum_eq
    rw [hsum]
    simp [total]
  · have hnone : t.filter (fun entry => entry.1 = key) = [] := by
      refine List.filter_eq_nil_iff.mpr fun entry hentry heq => hkey ?_
      exact of_decide_eq_true heq ▸ List.mem_map_of_mem hentry
    rw [amount_of_not_mem hkey, added, hnone]
    rfl

theorem Holds.foldl (h : Holds t entries) (source : List (κ × ν)) :
    Holds (mergeInto t source) (entries ++ source) := by
  induction source generalizing t entries with
  | nil => rwa [List.append_nil]
  | cons entry source ih =>
    have hbumped : Holds (Tables.bump entry.1 entry.2 t) (entries ++ [entry]) := h.bump
    rw [List.append_cons]
    exact ih hbumped

theorem Holds.mergeInto (h : Holds t entries) (h' : Holds t' entries') :
    Holds (mergeInto t t') (entries ++ entries') := by
  have hself := holds_self h'.ordered
  refine (h.foldl t').of_same (fun key => ?_) fun key => ?_
  · rw [mem_keys_append, mem_keys_append, h'.keys]
  · rw [added_append, added_append, ← hself.amount, h'.amount]

theorem Holds.unique (h : Holds t entries) (h' : Holds t' entries) : t = t' := by
  refine h.ordered.ext h'.ordered fun entry => ?_
  obtain ⟨key, value⟩ := entry
  rw [mem_iff h.ordered, mem_iff h'.ordered, h.keys, h'.keys, h.amount, h'.amount]

end Holds

end VeStorage.Lib.Tables
