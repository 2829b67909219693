import VeStorage.Lib.Components
import VeStorage.Lib.Layered
import VeStorage.Tos.Batch.Manifest
import VeStorage.Tos.Rm.Plan
import Mathlib.Order.WithBot

namespace VeStorage.Tos.BottomUp
open Lib Lib.Grouped
open Rm (ObjectVersionRef bottomUpRank sortKeysBottomUp sortVersionsBottomUp deleteTosKeysBottomUp)
open Move (deletesBefore isMoveDirectory moveDeleteDepth tosMoveDeleteSortKey moveDeleteGroups)
open Batch (SyncExtra tosSyncDeleteSortKey isSyncLeaf syncDeleteGroups)

section Depth

theorem keyDepth_eq (key : Text) : keyDepth key = (segments '/' key).length := by
  rw [keyDepth, segmentDepth, segments_trimEnd]

theorem keyDepth_under {d : Text} (hd : ['/'] <:+ d) (rest : Text) :
    keyDepth (d ++ rest) = keyDepth d + (segments '/' rest).length := by
  obtain ⟨a, rfl⟩ := hd
  have hdir : segments '/' (a ++ ['/']) = segments '/' a := by
    simpa using segments_append '/' a []
  rw [keyDepth_eq, keyDepth_eq, hdir, List.append_assoc, List.singleton_append, segments_append,
    List.length_append]

theorem keyDepth_slashes {d : Text} (hd : ['/'] <:+ d) (n : Nat) :
    keyDepth (d ++ List.replicate n '/') = keyDepth d := by
  rw [keyDepth_under hd, segments_replicate]
  rfl

theorem keyDepth_lt {d rest : Text} (hd : ['/'] <:+ d) (h : ∃ c ∈ rest, c ≠ '/') :
    keyDepth d < keyDepth (d ++ rest) := by
  have := List.length_pos_iff.mpr (segments_ne_nil h)
  rw [keyDepth_under hd]
  omega

theorem rank_lt_of_longer {k d : Text} (hdepth : keyDepth k = keyDepth d)
    (hlen : byteCount d < byteCount k) : bottomUpRank k < bottomUpRank d := by
  rw [bottomUpRank, bottomUpRank, hdepth, Prod.Lex.toLex_lt_toLex]
  refine .inr ⟨rfl, Prod.Lex.toLex_lt_toLex.mpr (.inl ?_)⟩
  exact OrderDual.toDual_lt_toDual.mpr hlen

theorem depth_le_of_rank {a b : Text} (h : bottomUpRank a ≤ bottomUpRank b) :
    OrderDual.toDual (keyDepth a) ≤ OrderDual.toDual (keyDepth b) := by
  rw [bottomUpRank, bottomUpRank, Prod.Lex.toLex_le_toLex] at h
  rcases h with h | ⟨h, -⟩
  · exact h.le
  · exact h.le

theorem deletesBefore_iff (a b : Text) :
    deletesBefore a b = decide (bottomUpRank a ≤ bottomUpRank b) := by
  rw [Bool.eq_iff_iff, decide_eq_true_iff, bottomUpRank, bottomUpRank, Prod.Lex.toLex_le_toLex,
    Prod.Lex.toLex_le_toLex]
  simp only [deletesBefore, Bool.or_eq_true, Bool.and_eq_true, decide_eq_true_eq,
    OrderDual.toDual_lt_toDual, OrderDual.toDual_inj]
  rw [eq_comm (a := keyDepth b), eq_comm (a := byteCount b)]

theorem mergeSort_deletesBefore {J : Type} (key : J → Text) (l : List J) :
    (l.mergeSort fun a b => deletesBefore (key a) (key b)) = sortOn (fun j => bottomUpRank (key j)) l := by
  simp only [sortOn, deletesBefore_iff]

end Depth

section Order

variable {J γ : Type} (key : J → Option Text)

def Below (d k : J) : Prop :=
  ∃ dir under, key d = some dir ∧ key k = some under ∧ ['/'] <:+ dir ∧ dir <+: under ∧ under ≠ dir

-- The pairs whose depths agree: `k` is `d` with nothing but slashes behind it.
def SlashBelow (d k : J) : Prop :=
  ∃ dir n, key d = some dir ∧ ['/'] <:+ dir ∧ key k = some (dir ++ List.replicate (n + 1) '/')

def SlashPair (items : List J) : Prop := ∃ d ∈ items, ∃ k ∈ items, SlashBelow key d k

def ChildrenFirst (limit : Nat) (groups : List (List J)) (items : List J) : Prop :=
  ∀ x, Reaches limit groups x → ∀ d ∈ items, ∀ k ∈ items, Below key d k → StartsAfter x.log d k

def SentOnce {S : Type} [DecidableEq S] (sent : J → S) (limit : Nat) (groups : List (List J))
    (items : List J) : Prop :=
  ∀ x, Reaches limit groups x → x.Done → ∀ j ∈ items, ((starts x.log).map sent).count (sent j) = 1

variable {key} {limit : Nat} {groups : List (List J)} {items : List J}

theorem SlashBelow.below {d k : J} (h : SlashBelow key d k) : Below key d k := by
  obtain ⟨dir, n, hd, hdir, hk⟩ := h
  refine ⟨dir, _, hd, hk, hdir, List.prefix_append _ _, fun he => ?_⟩
  have := congrArg List.length he
  simp at this

theorem SlashBelow.ne {d k : J} (h : SlashBelow key d k) : k ≠ d := by
  rintro rfl
  obtain ⟨dir, under, hd, hk, -, -, hne⟩ := h.below
  rw [hd] at hk
  exact hne (Option.some.inj hk).symm

theorem Below.depth {d k : J} (h : Below key d k) (hs : ¬ SlashBelow key d k) :
    ∃ dir under, key d = some dir ∧ key k = some under ∧ ['/'] <:+ dir ∧
      keyDepth dir < keyDepth under := by
  obtain ⟨dir, _, hd, hk, hdir, ⟨rest, rfl⟩, hne⟩ := h
  refine ⟨dir, _, hd, hk, hdir, keyDepth_lt hdir ?_⟩
  by_contra hall
  push Not at hall
  have hrest : rest = List.replicate rest.length '/' := List.eq_replicate_of_mem hall
  rcases hn : rest.length with - | n
  · rw [List.length_eq_zero_iff.mp hn, List.append_nil] at hne
    exact hne rfl
  · exact hs ⟨dir, n, hd, hdir, by rw [hk, hrest, hn]⟩

theorem SlashBelow.rank_lt {d k : J} (h : SlashBelow key d k) :
    ∃ dir under, key d = some dir ∧ key k = some under ∧ bottomUpRank under < bottomUpRank dir := by
  obtain ⟨dir, n, hd, hdir, hk⟩ := h
  exact ⟨dir, _, hd, hk, rank_lt_of_longer (keyDepth_slashes hdir (n + 1)) (byteCount_lt_append dir (by simp))⟩

structure Bottoms [LinearOrder γ] (key : J → Option Text) (rank : J → γ) (groups : List (List J))
    (items : List J) : Prop where
  layered : Layered rank groups
  mem : ∀ j, j ∈ groups.flatten ↔ j ∈ items
  deeper : ∀ d ∈ items, ∀ k ∈ items, Below key d k → ¬ SlashBelow key d k → rank k < rank d
  level : ∀ d ∈ items, ∀ k ∈ items, SlashBelow key d k → rank k = rank d
  longer : groups.flatten.Pairwise fun a b => ¬ SlashBelow key a b

theorem Bottoms.overlap [LinearOrder γ] {rank : J → γ} (h : Bottoms key rank groups items)
    (hlim : 1 < limit) {d k : J} (hd : d ∈ items) (hk : k ∈ items) (hs : SlashBelow key d k) :
    ¬ ChildrenFirst key limit groups items := by
  obtain ⟨g, hg, hdg, hkg⟩ := h.layered.same_group ((h.mem d).mpr hd) ((h.mem k).mpr hk)
    (h.level d hd k hk hs)
  obtain ⟨p, c, rfl⟩ := List.append_of_mem hdg
  have hpair := (List.pairwise_flatten.mp h.longer).1 _ hg
  have hkp : k ∈ p := by
    rcases List.mem_append.mp hkg with hkp | hkc
    · exact hkp
    · rcases List.mem_cons.mp hkc with he | hkc
      · exact absurd he hs.ne
      · exact absurd hs ((List.pairwise_cons.mp (List.pairwise_append.mp hpair).2.1).1 k hkc)
  obtain ⟨a, b, rfl⟩ := List.append_of_mem hkp
  obtain ⟨earlier, later, rfl⟩ := List.append_of_mem hg
  rw [List.append_assoc, List.cons_append]
  obtain ⟨x, hx, hno⟩ := overlap_run (k := k) (d := d) hlim earlier later a b c
  exact fun hall => hno (hall x hx d hd k hk hs.below)

theorem Bottoms.iff [LinearOrder γ] {rank : J → γ} (h : Bottoms key rank groups items) :
    ChildrenFirst key limit groups items ↔ limit ≤ 1 ∨ ¬ SlashPair key items := by
  constructor
  · intro hall
    rcases Nat.lt_or_ge 1 limit with hlim | hlim
    · right
      rintro ⟨d, hd, k, hk, hs⟩
      exact h.overlap hlim hd hk hs hall
    · exact .inl hlim
  · intro hcond x hx d hd k hk hbelow
    have hkg := (h.mem k).mpr hk
    by_cases hs : SlashBelow key d k
    · rcases hcond with hlim | hno
      · refine startsAfter_of_serial hlim hx hkg hs.ne (h.longer.imp ?_)
        rintro a b hab rfl rfl
        exact hab hs
      · exact absurd ⟨d, hd, k, hk, hs⟩ hno
    · exact startsAfter_of_rank h.layered hx hkg (h.deeper d hd k hk hbelow hs)

theorem sentOnce_iff {S : Type} [DecidableEq S] {sent : J → S}
    (hmem : ∀ j, j ∈ groups.flatten ↔ j ∈ items) :
    SentOnce sent limit groups items ↔ (groups.flatten.map sent).Nodup := by
  constructor
  · intro h
    have hf : ∀ (job : J) w, anyOutcome job w ((fun _ w => w) job w) true := fun _ _ => trivial
    obtain ⟨log, hrun⟩ := @run_exists _ _ _ limit _ hf () groups []
    have hdone : (⟨(), [], [], [], log⟩ : Exec Unit J).Done := ⟨rfl, rfl, rfl⟩
    have hcount := h _ hrun hdone
    rw [(run_starts_done hrun hdone).1] at hcount
    rw [List.nodup_iff_count_le_one]
    intro s
    by_cases hs : s ∈ groups.flatten.map sent
    · obtain ⟨j, hj, rfl⟩ := List.mem_map.mp hs
      exact (hcount j ((hmem j).mp hj)).le
    · rw [List.count_eq_zero_of_not_mem hs]
      exact Nat.zero_le 1
  · intro h x hx hdone j hj
    rw [(run_starts_done hx hdone).1]
    exact List.count_eq_one_of_mem h (List.mem_map_of_mem ((hmem j).mpr hj))

end Order

section Plans

variable {J : Type} {key : J → Option Text} {sortKey : J → Text} {isDir : J → Bool}

def layerRank (isDir : J → Bool) (sortKey : J → Text) (j : J) : WithBot ℕᵒᵈ :=
  if isDir j then ↑(OrderDual.toDual (keyDepth (sortKey j))) else ⊥

theorem layerRank_lt {a b : J} (ha : isDir a = false ∨ keyDepth (sortKey b) < keyDepth (sortKey a))
    (hb : isDir b = true) : layerRank isDir sortKey a < layerRank isDir sortKey b := by
  rcases ha with ha | hlt
  · simp [layerRank, ha, hb]
  · rcases Bool.eq_false_or_eq_true (isDir a) with ha | ha
    · simpa [layerRank, ha, hb] using hlt
    · simp [layerRank, ha, hb]

theorem layered_depths {dirs : List J}
    (h : dirs.Pairwise fun a b => bottomUpRank (sortKey a) ≤ bottomUpRank (sortKey b)) :
    Layered (fun j => OrderDual.toDual (keyDepth (sortKey j)))
      (levels (fun j => keyDepth (sortKey j)) dirs) := by
  have hlevels : levels (fun j => OrderDual.toDual (keyDepth (sortKey j))) dirs =
      levels (fun j => keyDepth (sortKey j)) dirs := by
    have hdepth : (fun a b => OrderDual.toDual (keyDepth (sortKey a)) ==
        OrderDual.toDual (keyDepth (sortKey b))) =
        fun a b => keyDepth (sortKey a) == keyDepth (sortKey b) := by
      funext a b
      rw [Bool.eq_iff_iff]
      simp
    rw [levels, levels, hdepth]
  rw [← hlevels]
  exact layered_levels (h.imp depth_le_of_rank)

theorem layered_leaves {leaves dirs : List J} (hleaf : ∀ j ∈ leaves, isDir j = false)
    (hdir : ∀ j ∈ dirs, isDir j = true)
    (h : dirs.Pairwise fun a b => bottomUpRank (sortKey a) ≤ bottomUpRank (sortKey b)) :
    Layered (layerRank isDir sortKey) (leaves :: levels (fun j => keyDepth (sortKey j)) dirs) := by
  have hdirs : Layered (layerRank isDir sortKey) (levels (fun j => keyDepth (sortKey j)) dirs) := by
    refine (layered_depths h).rerank ?_ ?_
    · rw [levels_flatten]
      intro a ha b hb he
      rw [layerRank, layerRank, if_pos (hdir a ha), if_pos (hdir b hb), he]
    · rw [levels_flatten]
      intro a ha b hb hlt
      exact layerRank_lt (.inr hlt) (hdir b hb)
  refine hdirs.cons ?_ ?_
  · intro a ha b hb
    simp [layerRank, hleaf a ha, hleaf b hb]
  · rw [levels_flatten]
    exact fun a ha b hb => layerRank_lt (.inl (hleaf a ha)) (hdir b hb)

theorem longer_of_sorted {l : List J} (hkey : ∀ j ∈ l, ∀ k, key j = some k → sortKey j = k)
    (h : l.Pairwise fun a b => bottomUpRank (sortKey a) ≤ bottomUpRank (sortKey b)) :
    l.Pairwise fun a b => ¬ SlashBelow key a b := by
  refine h.imp_of_mem fun {a b} ha hb hle hs => ?_
  obtain ⟨dir, under, hd, hu, hlt⟩ := hs.rank_lt
  rw [hkey a ha dir hd, hkey b hb under hu] at hle
  exact absurd hlt (not_lt.mpr hle)

theorem bottoms_leaves {leaves dirs items : List J}
    (hkey : ∀ j ∈ items, ∀ k, key j = some k → sortKey j = k ∧ (isDir j = true ↔ ['/'] <:+ k))
    (hleaf : ∀ j ∈ leaves, isDir j = false) (hdir : ∀ j ∈ dirs, isDir j = true)
    (hmem : ∀ j, j ∈ leaves ∨ j ∈ dirs ↔ j ∈ items)
    (h : dirs.Pairwise fun a b => bottomUpRank (sortKey a) ≤ bottomUpRank (sortKey b)) :
    Bottoms key (layerRank isDir sortKey) (leaves :: levels (fun j => keyDepth (sortKey j)) dirs)
      items := by
  have hin : ∀ j, j ∈ (leaves :: levels (fun j => keyDepth (sortKey j)) dirs).flatten ↔
      j ∈ items := by
    intro j
    rw [List.flatten_cons, levels_flatten, List.mem_append, hmem]
  refine ⟨layered_leaves hleaf hdir h, hin, ?_, ?_, ?_⟩
  · intro d hd k hk hbelow hs
    obtain ⟨dir, under, hkd, hku, hslash, hlt⟩ := hbelow.depth hs
    refine layerRank_lt ?_ ((hkey d hd dir hkd).2.mpr hslash)
    rw [(hkey d hd dir hkd).1, (hkey k hk under hku).1]
    exact .inr hlt
  · intro d hd k hk hs
    obtain ⟨dir, n, hkd, hslash, hku⟩ := hs
    have hunder : ['/'] <:+ dir ++ List.replicate (n + 1) '/' := by
      rw [List.replicate_succ']
      exact ⟨dir ++ List.replicate n '/', by simp⟩
    rw [layerRank, layerRank, if_pos ((hkey d hd dir hkd).2.mpr hslash),
      if_pos ((hkey k hk _ hku).2.mpr hunder), (hkey d hd dir hkd).1, (hkey k hk _ hku).1,
      keyDepth_slashes hslash]
  · rw [List.flatten_cons, levels_flatten]
    have hkeys : ∀ j ∈ dirs, ∀ k, key j = some k → sortKey j = k := fun j hj k hk =>
      (hkey j ((hmem j).mp (.inr hj)) k hk).1
    have hplain : ∀ a ∈ leaves, ∀ b, ¬ SlashBelow key a b := by
      rintro a ha b ⟨dir, n, hd, hslash, -⟩
      have htrue := (hkey a ((hmem a).mp (.inl ha)) dir hd).2.mpr hslash
      rw [hleaf a ha] at htrue
      cases htrue
    exact List.pairwise_append.mpr ⟨List.pairwise_of_forall_mem_list fun a ha b _ => hplain a ha b,
      longer_of_sorted hkeys h, fun a ha b _ => hplain a ha b⟩

theorem bottoms_levels {versions items : List J} (hkey : ∀ j, key j = some (sortKey j))
    (hmem : ∀ j, j ∈ versions ↔ j ∈ items)
    (h : versions.Pairwise fun a b => bottomUpRank (sortKey a) ≤ bottomUpRank (sortKey b)) :
    Bottoms key (fun j => OrderDual.toDual (keyDepth (sortKey j)))
      (levels (fun j => keyDepth (sortKey j)) versions) items := by
  have hsort : ∀ j k, key j = some k → sortKey j = k := fun j k hk =>
    Option.some.inj ((hkey j).symm.trans hk)
  refine ⟨layered_depths h, ?_, ?_, ?_, ?_⟩
  · intro j
    rw [levels_flatten, hmem]
  · intro d _ k _ hbelow hs
    obtain ⟨dir, under, hd, hu, -, hlt⟩ := hbelow.depth hs
    rw [hsort d dir hd, hsort k under hu]
    exact hlt
  · rintro d - k - ⟨dir, n, hd, hslash, hk⟩
    rw [hsort d dir hd, hsort k _ hk, keyDepth_slashes hslash]
  · rw [levels_flatten]
    exact longer_of_sorted (fun j _ => hsort j) h

end Plans

section Deletes

def deleteTosVersionsWithConcurrency (bottomUp : Bool) (versions : List ObjectVersionRef) :
    List (List ObjectVersionRef) :=
  if bottomUp then levels (fun v => keyDepth v.key) versions else [versions]

-- What `rm --all-versions` hands over: the sorted listing without what the filters keep.
def versionsToDelete (allow : Text → Bool) (listed : List ObjectVersionRef) :
    List ObjectVersionRef := (sortVersionsBottomUp listed).filter fun v => allow v.key

def deleteMoveSourceItemsBottomUp (items : List TransferPlanItem) : List (List TransferPlanItem) :=
  items.filter (fun item => !isMoveDirectory item) ::
    ((items.filter isMoveDirectory).mergeSort fun l r =>
      deletesBefore (tosMoveDeleteSortKey l) (tosMoveDeleteSortKey r)).splitBy
        fun l r => moveDeleteDepth l == moveDeleteDepth r

def syncKey (extra : SyncExtra) : Option Text :=
  if isTosUri extra.source then some (tosSyncDeleteSortKey extra) else none

theorem moveDeleteGroups_bottomUp (planned : List TransferPlanItem) :
    moveDeleteGroups planned true =
      deleteMoveSourceItemsBottomUp (Move.orderedRecursiveMoveDeleteItems planned true) := rfl

theorem deleteTosVersions_bottomUp (args : Rm.RmArgs) (plan : Rm.RmPlan)
    (listed : List ObjectVersionRef) (h : plan.bottomUp = true) :
    Rm.deleteTosVersions args plan listed =
      deleteTosVersionsWithConcurrency true (versionsToDelete args.allows listed) := by
  simp [Rm.deleteTosVersions, deleteTosVersionsWithConcurrency, versionsToDelete, h]

theorem keys_bottoms (keys : List Text) :
    Bottoms some (layerRank tosDeleteKeyIsDirectory id) (deleteTosKeysBottomUp keys) keys := by
  have hmem : ∀ j, j ∈ keys.filter (fun key => !tosDeleteKeyIsDirectory key) ∨
      j ∈ sortKeysBottomUp (keys.filter tosDeleteKeyIsDirectory) ↔ j ∈ keys := by
    intro j
    rw [Rm.mem_sortKeysBottomUp, List.mem_filter, List.mem_filter]
    cases tosDeleteKeyIsDirectory j <;> simp
  refine bottoms_leaves ?_ ?_ ?_ hmem ?_
  · rintro j - k ⟨⟩
    exact ⟨rfl, by simp [tosDeleteKeyIsDirectory]⟩
  · intro j hj
    simpa using (List.mem_filter.mp hj).2
  · intro j hj
    exact (List.mem_filter.mp (Rm.mem_sortKeysBottomUp.mp hj)).2
  · exact (sortOn_pairwise bottomUpRank _).sublist (dedupBy_sublist id _)

theorem versions_bottoms (allow : Text → Bool) (listed : List ObjectVersionRef) :
    Bottoms (fun v => some v.key) (fun v => OrderDual.toDual (keyDepth v.key))
      (deleteTosVersionsWithConcurrency true (versionsToDelete allow listed))
      (versionsToDelete allow listed) :=
  @bottoms_levels _ _ ObjectVersionRef.key _ _ (fun _ => rfl) (fun _ => Iff.rfl)
    ((sortOn_pairwise _ listed).filter _)

theorem moves_bottoms (items : List TransferPlanItem) :
    Bottoms (fun item => some (tosMoveDeleteSortKey item))
      (layerRank isMoveDirectory tosMoveDeleteSortKey)
      (deleteMoveSourceItemsBottomUp items) items := by
  have hgroups : deleteMoveSourceItemsBottomUp items =
      items.filter (fun item => !isMoveDirectory item) ::
        levels (fun item => keyDepth (tosMoveDeleteSortKey item))
          (sortOn (fun item => bottomUpRank (tosMoveDeleteSortKey item))
            (items.filter isMoveDirectory)) := by
    rw [← mergeSort_deletesBefore]
    rfl
  rw [hgroups]
  refine bottoms_leaves ?_ ?_ ?_ ?_ (sortOn_pairwise _ _)
  · rintro j - k ⟨⟩
    exact ⟨rfl, by simp [isMoveDirectory, tosDeleteKeyIsDirectory]⟩
  · intro j hj
    simpa using (List.mem_filter.mp hj).2
  · intro j hj
    exact (List.mem_filter.mp (mem_sortOn.mp hj)).2
  · intro j
    rw [mem_sortOn, List.mem_filter, List.mem_filter]
    cases isMoveDirectory j <;> simp

theorem sync_bottoms (deletePlan : List SyncExtra) :
    Bottoms syncKey (layerRank (fun extra => !isSyncLeaf extra) tosSyncDeleteSortKey)
      (syncDeleteGroups deletePlan) deletePlan := by
  have hsort : ∀ l, Batch.sortTosSyncDeleteManifestItemsBottomUp l =
      sortOn (fun extra => bottomUpRank (tosSyncDeleteSortKey extra)) l :=
    mergeSort_deletesBefore tosSyncDeleteSortKey
  rw [syncDeleteGroups, hsort, hsort]
  refine bottoms_leaves ?_ ?_ ?_ ?_ (sortOn_pairwise _ _)
  · intro j _ k hk
    unfold syncKey at hk
    split at hk
    · obtain rfl := Option.some.inj hk
      exact ⟨rfl, by simp [isSyncLeaf, tosDeleteKeyIsDirectory, *]⟩
    · cases hk
  · intro j hj
    simpa using (List.mem_filter.mp hj).2
  · intro j hj
    exact (List.mem_filter.mp (mem_sortOn.mp hj)).2
  · intro j
    rw [mem_sortOn, List.mem_filter, List.mem_filter, mem_sortOn]
    cases isSyncLeaf j <;> simp

theorem keys_sent (keys : List Text) : ((deleteTosKeysBottomUp keys).flatten.map id).Nodup ↔
    (keys.filter fun key => !tosDeleteKeyIsDirectory key).Nodup := by
  rw [List.map_id, deleteTosKeysBottomUp, List.flatten_cons, levels_flatten]
  constructor
  · exact fun h => (List.nodup_append.mp h).1
  · intro h
    refine List.nodup_append.mpr ⟨h, Rm.sortKeysBottomUp_nodup _, ?_⟩
    rintro key hleaf _ hdir rfl
    have hleaf := (List.mem_filter.mp hleaf).2
    have hdir := (List.mem_filter.mp (Rm.mem_sortKeysBottomUp.mp hdir)).2
    simp [hdir] at hleaf

theorem versions_sent (versions : List ObjectVersionRef) :
    ((deleteTosVersionsWithConcurrency true versions).flatten.map id).Nodup ↔ versions.Nodup := by
  rw [List.map_id, deleteTosVersionsWithConcurrency, if_pos rfl, levels_flatten]

theorem deleteMoveSourceItemsBottomUp_perm (items : List TransferPlanItem) :
    (deleteMoveSourceItemsBottomUp items).flatten.Perm items := by
  rw [deleteMoveSourceItemsBottomUp, List.flatten_cons, List.flatten_splitBy]
  refine (List.Perm.append_left _ (List.mergeSort_perm _ _)).trans ?_
  exact List.perm_append_comm.trans (List.filter_append_perm isMoveDirectory items)

theorem bottom_up_deletes_ordered_iff (limit : Nat) :
    (∀ keys : List Text,
      (ChildrenFirst some limit (deleteTosKeysBottomUp keys) keys ↔
        limit ≤ 1 ∨ ¬ SlashPair some keys) ∧
      (SentOnce id limit (deleteTosKeysBottomUp keys) keys ↔
        (keys.filter fun key => !tosDeleteKeyIsDirectory key).Nodup)) ∧
    (∀ (allow : Text → Bool) (listed : List ObjectVersionRef),
      (ChildrenFirst (fun v => some v.key) limit
          (deleteTosVersionsWithConcurrency true (versionsToDelete allow listed))
          (versionsToDelete allow listed) ↔
        limit ≤ 1 ∨ ¬ SlashPair (fun v => some v.key) (versionsToDelete allow listed)) ∧
      (SentOnce id limit (deleteTosVersionsWithConcurrency true (versionsToDelete allow listed))
          (versionsToDelete allow listed) ↔ (versionsToDelete allow listed).Nodup)) ∧
    (∀ items : List TransferPlanItem,
      (ChildrenFirst (fun item => some (tosMoveDeleteSortKey item)) limit
          (deleteMoveSourceItemsBottomUp items) items ↔
        limit ≤ 1 ∨ ¬ SlashPair (fun item => some (tosMoveDeleteSortKey item)) items) ∧
      (SentOnce TransferPlanItem.source limit (deleteMoveSourceItemsBottomUp items) items ↔
        (items.map TransferPlanItem.source).Nodup)) ∧
    ∀ deletePlan : List SyncExtra,
      (ChildrenFirst syncKey limit (syncDeleteGroups deletePlan) deletePlan ↔
        limit ≤ 1 ∨ ¬ SlashPair syncKey deletePlan) ∧
      (SentOnce (fun extra : SyncExtra => extra.source) limit (syncDeleteGroups deletePlan)
          deletePlan ↔ (deletePlan.map fun extra => extra.source).Nodup) := by
  refine ⟨fun keys => ⟨(keys_bottoms keys).iff, ?_⟩, fun allow listed =>
    ⟨(versions_bottoms allow listed).iff, ?_⟩, fun items => ⟨(moves_bottoms items).iff, ?_⟩,
    fun deletePlan => ⟨(sync_bottoms deletePlan).iff, ?_⟩⟩
  · rw [sentOnce_iff (keys_bottoms keys).mem, keys_sent]
  · rw [sentOnce_iff (versions_bottoms allow listed).mem, versions_sent]
  · rw [sentOnce_iff (moves_bottoms items).mem]
    exact ((deleteMoveSourceItemsBottomUp_perm items).map _).nodup_iff
  · rw [sentOnce_iff (sync_bottoms deletePlan).mem]
    exact ((Batch.syncDeleteGroups_perm deletePlan).map _).nodup_iff

theorem same_depth_parent_overlaps_child :
    ¬ ChildrenFirst some 2 (deleteTosKeysBottomUp ["a/".toList, "a//".toList])
        ["a/".toList, "a//".toList] ∧
      ¬ SentOnce id 2 (deleteTosKeysBottomUp ["x".toList, "x".toList])
        ["x".toList, "x".toList] := by
  constructor
  · exact (keys_bottoms _).overlap (d := "a/".toList) (k := "a//".toList) (by decide) (by decide)
      (by decide) ⟨"a/".toList, 0, rfl, by decide, rfl⟩
  · rw [sentOnce_iff (keys_bottoms _).mem, keys_sent]
    decide

end Deletes

end VeStorage.Tos.BottomUp
