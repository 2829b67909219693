import VeStorage.ADrive.Share.Scan
import VeStorage.ADrive.Share.Collide

namespace VeStorage.ADrive.Share
open Lib
open Lib.Crash (ensure ensure_eq_ok bind_eq_ok seq_eq_ok pure_eq_ok)

variable {u : Unicode} {mapping : MappingIndex} {p q r x : Text} {isDirectory : Bool}

section Ancestors

-- `path` and what is above it, or only the latter, from below upwards.
def ancestors (path : Text) (isDirectory : Bool) : List Text :=
  (if isDirectory then prefixes '/' path else (prefixes '/' path).dropLast).reverse

theorem localParents_eq (path : Text) (isDirectory : Bool) :
    localParents path isDirectory = (ancestors path isDirectory).takeWhile fun current => current ≠ [] :=
  rfl

theorem ancestors_append (a x : Text) (isDirectory : Bool) :
    ancestors (a ++ '/' :: x) isDirectory =
      (ancestors x isDirectory).map (a ++ '/' :: ·) ++ ancestors a true := by
  have hne : (prefixes '/' x).map (a ++ '/' :: ·) ≠ [] := by
    rw [prefixes_eq_concat]
    simp
  cases isDirectory <;>
    simp [ancestors, prefixes_append, List.dropLast_append_of_ne_nil hne, List.map_dropLast]

theorem ancestors_true (path : Text) :
    ancestors path true = path :: ancestors path false := by
  rw [ancestors, if_pos rfl, prefixes_eq_concat]
  simp [ancestors]

theorem ancestors_plain (h : '/' ∉ p) : ancestors p true = [p] ∧ ancestors p false = [] := by
  simp [ancestors, prefixes_of_not_mem h]

theorem mem_ancestors_true : q ∈ ancestors p true ↔ q = p ∨ ∃ rest, p = q ++ '/' :: rest := by
  rw [ancestors, if_pos rfl, List.mem_reverse, mem_prefixes]

theorem mem_ancestors_false : q ∈ ancestors p false ↔ ∃ rest, p = q ++ '/' :: rest := by
  rw [ancestors, if_neg Bool.false_ne_true, List.mem_reverse, mem_prefixes_dropLast]

theorem localParents_append (a x : Text) (isDirectory : Bool) :
    localParents (a ++ '/' :: x) isDirectory =
      (ancestors x isDirectory).map (a ++ '/' :: ·) ++ localParents a true := by
  rw [localParents_eq, ancestors_append, List.takeWhile_append_of_pos, localParents_eq]
  intro path hpath
  obtain ⟨y, -, rfl⟩ := List.mem_map.mp hpath
  simp

theorem localParents_self (h : p ≠ []) :
    localParents p true = p :: localParents p false := by
  rw [localParents_eq, ancestors_true, List.takeWhile_cons_of_pos (by simpa using h), localParents_eq]

theorem localParents_nil (isDirectory : Bool) : localParents [] isDirectory = [] := by
  cases isDirectory <;> rfl

end Ancestors

section Root

-- What `root` finds first: a folder among the roots with no other above it.
structure MappingIndex.Highest (mapping : MappingIndex) (r : Text) : Prop where
  folder : ['/'] <:+ r
  mem : r ∈ mapping.roots
  least : ∀ q, ['/'] <:+ q → q <+: r → q ∈ mapping.roots → q = r

-- The Space root is not among the roots.
def MappingIndex.Ordinary (mapping : MappingIndex) : Prop :=
  mapping.policy.isSpaceRoot = true → ['/'] ∉ mapping.roots

theorem slash_prefix_iff : (∃ n, n < p.length ∧ p[n]? = some '/' ∧ q = p.take (n + 1)) ↔
    q <+: p ∧ ['/'] <:+ q := by
  constructor
  · rintro ⟨n, hn, hslash, rfl⟩
    refine ⟨List.take_prefix _ _, ?_⟩
    rw [List.take_add_one, hslash]
    exact List.suffix_append _ _
  · rintro ⟨⟨rest, rfl⟩, init, rfl⟩
    refine ⟨init.length, by simp, by simp, ?_⟩
    simp [List.take_append]

def MappingIndex.search (mapping : MappingIndex) (path : Text) : Option Text :=
  (List.range path.length).findSome? fun offset =>
    if path[offset]? = some '/' ∧ path.take (offset + 1) ∈ mapping.roots
    then some (path.take (offset + 1)) else none

theorem root_eq (h : mapping.Ordinary) (path : Text) : mapping.root u path =
    (mapping.search path).or (if path ∈ mapping.roots then some path else none) := by
  rw [MappingIndex.root, if_neg]
  · rfl
  · rintro hc
    simp only [Bool.and_eq_true, decide_eq_true_eq] at hc
    exact h hc.1.1 hc.1.2

theorem search_eq_none : mapping.search p = none ↔ ∀ q, q <+: p → ['/'] <:+ q → q ∉ mapping.roots := by
  rw [MappingIndex.search, List.findSome?_eq_none_iff]
  constructor
  · intro h q hq hs hmem
    obtain ⟨n, hn, hslash, rfl⟩ := slash_prefix_iff.mpr ⟨hq, hs⟩
    simpa [hslash, hmem] using h n (List.mem_range.mpr hn)
  · intro h n hn
    refine if_neg fun hc => ?_
    obtain ⟨hq, hs⟩ := slash_prefix_iff.mp ⟨n, List.mem_range.mp hn, hc.1, rfl⟩
    exact h _ hq hs hc.2

theorem search_eq_some (h : mapping.search p = some r) : mapping.Highest r ∧ r <+: p := by
  rw [MappingIndex.search, List.findSome?_eq_some_iff] at h
  obtain ⟨before, n, after, hsplit, hfound, hbefore⟩ := h
  have hn : n < p.length := by
    have hmem : n ∈ List.range p.length := by simp [hsplit]
    exact List.mem_range.mp hmem
  have hlow : ∀ m, m < n → m ∈ before := by
    intro m hm
    have hsorted := List.pairwise_lt_range (n := p.length)
    have hmem : m ∈ List.range p.length := List.mem_range.mpr (hm.trans hn)
    rw [hsplit] at hmem hsorted
    rcases List.mem_append.mp hmem with hmem | hmem
    · exact hmem
    · have hafter := (List.pairwise_cons.mp (List.pairwise_append.mp hsorted).2.1).1
      rcases List.mem_cons.mp hmem with rfl | hmem
      · omega
      · exact absurd (hafter m hmem) (by omega)
  split at hfound
  next hc =>
    obtain rfl := Option.some.inj hfound
    obtain ⟨hbelow, hfolder⟩ := slash_prefix_iff.mp ⟨n, hn, hc.1, rfl⟩
    refine ⟨⟨hfolder, hc.2, fun q hs hq hmem => ?_⟩, hbelow⟩
    obtain ⟨m, hm, hslash, rfl⟩ := slash_prefix_iff.mpr ⟨hq.trans hbelow, hs⟩
    have hlength := hq.length_le
    rw [List.length_take, List.length_take, min_eq_left hm, min_eq_left hn] at hlength
    rcases Nat.lt_or_eq_of_le (Nat.le_of_succ_le_succ hlength) with hlt | rfl
    · have hskip := hbefore m (hlow m hlt)
      rw [if_pos ⟨hslash, hmem⟩] at hskip
      cases hskip
    · rfl
  next => cases hfound

theorem search_highest (h : mapping.Highest r) (hp : r <+: p) : mapping.search p = some r := by
  cases hs : mapping.search p with
  | none => exact absurd h.mem (search_eq_none.mp hs r hp h.folder)
  | some r' =>
    obtain ⟨h', hp'⟩ := search_eq_some hs
    rcases List.prefix_or_prefix_of_prefix hp hp' with hle | hle
    · rw [h'.least r h.folder hle h.mem]
    · rw [h.least r' h'.folder hle h'.mem]

theorem root_highest (ho : mapping.Ordinary) (h : mapping.Highest r) (hp : r <+: p) :
    mapping.root u p = some r := by
  rw [root_eq ho, search_highest h hp, Option.some_or]

theorem root_none (ho : mapping.Ordinary)
    (h : ∀ q, q <+: p ++ ['/'] → ['/'] <:+ q → q ∉ mapping.roots) :
    mapping.root u (p ++ ['/']) = none := by
  rw [root_eq ho, search_eq_none.mpr h, Option.none_or, if_neg]
  exact h _ List.prefix_rfl (List.suffix_append _ _)

theorem root_cases (ho : mapping.Ordinary) (h : mapping.root u p = some r) :
    (mapping.Highest r ∧ r <+: p) ∨
      (r = p ∧ p ∈ mapping.roots ∧ ∀ q, q <+: p → ['/'] <:+ q → q ∉ mapping.roots) := by
  rw [root_eq ho] at h
  cases hs : mapping.search p with
  | some r' =>
    rw [hs, Option.some_or] at h
    exact .inl (Option.some.inj h ▸ search_eq_some hs)
  | none =>
    rw [hs, Option.none_or] at h
    split at h
    next hmem => exact .inr ⟨(Option.some.inj h).symm, hmem, search_eq_none.mp hs⟩
    next => cases h

-- Nothing above the highest root leads to a root.
theorem root_above (ho : mapping.Ordinary) (h : mapping.Highest r) (hq : q ++ ['/'] <+: r)
    (hne : q ++ ['/'] ≠ r) : mapping.root u (q ++ ['/']) = none := by
  refine root_none ho fun q' hq' hs hmem => hne ?_
  have heq := h.least q' hs (hq'.trans hq) hmem
  exact hq.eq_of_length_le (heq ▸ hq'.length_le)

end Root

section Local

theorem valid_split (h : validateRelative u (p ++ '/' :: x) = .ok ()) :
    validateRelative u p = .ok () ∧ validateRelative u x = .ok () := by
  simp only [validateRelative, seq_eq_ok, ensure_eq_ok, List.splitOn_append_cons_self,
    List.length_append, not_or] at h ⊢
  obtain ⟨⟨-, hbytes, hdepth⟩, hsafe⟩ := h
  have hne : ∀ q, (∀ part ∈ q.splitOn '/', isUnsafeComponent u part = false) → q ≠ [] := by
    rintro q hq rfl
    have hempty := hq [] (by simp)
    simp [isUnsafeComponent] at hempty
  have hleft : ∀ part ∈ p.splitOn '/', isUnsafeComponent u part = false :=
    fun part hp => hsafe part (List.mem_append_left _ hp)
  have hright : ∀ part ∈ x.splitOn '/', isUnsafeComponent u part = false :=
    fun part hp => hsafe part (List.mem_append_right _ hp)
  simp only [utf8Len, List.map_append, List.map_cons, List.sum_append, List.sum_cons] at hbytes ⊢
  exact ⟨⟨⟨hne p hleft, by omega, by omega⟩, hleft⟩, ⟨hne x hright, by omega, by omega⟩, hright⟩

theorem valid_ne_nil (h : validateRelative u p = .ok ()) : p ≠ [] := by
  rw [validateRelative, seq_eq_ok, ensure_eq_ok] at h
  exact fun hp => h.1 (.inl hp)

theorem valid_last (h : validateRelative u p = .ok ()) (rest : Text) : p ≠ rest ++ ['/'] := by
  rintro rfl
  exact valid_ne_nil (valid_split h).2 rfl

theorem valid_trimEnd (h : validateRelative u p = .ok ()) : trimEnd '/' p = p :=
  trimEnd_of_getLast_ne (valid_last h)

theorem valid_ancestor (h : validateRelative u p = .ok ()) (hq : q ∈ ancestors p isDirectory) :
    validateRelative u q = .ok () := by
  have hmem : q = p ∨ ∃ rest, p = q ++ '/' :: rest := by
    cases isDirectory with
    | true => exact mem_ancestors_true.mp hq
    | false => exact .inr (mem_ancestors_false.mp hq)
  rcases hmem with rfl | ⟨rest, rfl⟩
  · exact h
  · exact (valid_split h).1

theorem localParents_valid (h : validateRelative u p = .ok ()) :
    localParents p isDirectory = ancestors p isDirectory := by
  rw [localParents_eq, List.takeWhile_eq_self_iff]
  exact fun q hq => by simpa using valid_ne_nil (valid_ancestor h hq)

-- A mapped path, which is checked unless it is empty.
def checked (u : Unicode) (mapped : Text) : Except CliError Text :=
  if mapped = [] then .ok mapped else do
    validateRelative u mapped
    return mapped

theorem checked_eq_ok {l : Text} : checked u p = .ok l ↔
    p = l ∧ (p = [] ∨ validateRelative u p = .ok ()) := by
  rw [checked]
  split
  next h => simp [h]
  next h => rw [seq_eq_ok, pure_eq_ok, or_iff_right h, and_comm]

def MappingIndex.under (mapping : MappingIndex) (r suffix : Text) : Text :=
  if mapping.policy.includesParent = true then
    if suffix = [] then rootName r else rootName r ++ '/' :: suffix
  else suffix

theorem localPath_under (ho : mapping.Ordinary) (h : mapping.Highest r) (hr : r ≠ ['/']) (x : Text) :
    mapping.localPath u (r ++ x) = checked u (mapping.under r (trimEnd '/' x)) := by
  rw [MappingIndex.localPath, root_highest ho h (List.prefix_append r x)]
  dsimp only
  rw [if_neg hr, stripPrefix_append, Option.getD_some, checked, MappingIndex.under]
  simp [h.folder]

theorem rootName_plain (r : Text) : '/' ∉ rootName r := not_mem_last_splitOn '/' _

theorem localPath_exact (hroot : mapping.root u p = some p) (hp : ¬ ['/'] <:+ p) :
    mapping.localPath u p = checked u (rootName p) := by
  have hstrip : stripPrefix p p = some [] := by simpa using stripPrefix_append p ([] : Text)
  rw [MappingIndex.localPath, hroot]
  dsimp only
  rw [if_neg, hstrip, Option.getD_some, checked]
  · simp [hp]
  · rintro rfl
    exact hp List.suffix_rfl

end Local

end VeStorage.ADrive.Share
