import VeStorage.ADrive.Share.Manifest

namespace VeStorage.ADrive.Share
open Lib
open Lib.Crash (ensure ensure_eq_ok bind_eq_ok seq_eq_ok)

variable {u : Unicode} {m m' : Manifest} {p q : Text} {isDirectory isParent : Bool}

theorem Unicode.uppercase_append (a b : Text) :
    u.uppercase (a ++ '/' :: b) = u.uppercase a ++ '/' :: u.uppercase b := by
  simp [Unicode.uppercase, u.upper_slash]

theorem Unicode.fold_componentwise (u : Unicode) : Componentwise '/' u.fold where
  map_append a b := by
    rw [Unicode.fold, u.nfd_append, Unicode.uppercase_append]
    rfl
  not_mem a ha hc := by
    obtain ⟨c, hmem, hslash⟩ := List.mem_flatMap.mp hc
    exact u.upper_other c (fun he => u.nfd_other a ha (he ▸ hmem)) hslash

-- What a path claims: itself, and each of its ancestors as a parent.
theorem mem_pathItems : (q, isParent) ∈ pathItems p isDirectory ↔
    (q = p ∧ isParent = isDirectory) ∨ (isParent = true ∧ ∃ rest, p = q ++ '/' :: rest) := by
  have hpos := splitOn_length_pos '/' p
  rw [pathItems, List.mem_map]
  constructor
  · rintro ⟨count, hcount, heq⟩
    obtain ⟨rfl, rfl⟩ := Prod.mk.inj heq
    have hlt := List.mem_range.mp hcount
    by_cases hlast : count + 1 < (p.splitOn '/').length
    · refine .inr ⟨by simp [hlast], _, take_splitOn (Nat.succ_pos count) hlast⟩
    · obtain hall : count + 1 = (p.splitOn '/').length := by omega
      refine .inl ⟨?_, by simp [hlast]⟩
      rw [hall, prefixes_last]
  · rintro (⟨rfl, rfl⟩ | ⟨rfl, rest, hrest⟩)
    · refine ⟨(q.splitOn '/').length - 1, List.mem_range.mpr (by omega), ?_⟩
      rw [Nat.sub_add_cancel hpos, prefixes_last]
      simp
    · obtain ⟨htake, hlt⟩ := prefix_components hrest
      have hq := splitOn_length_pos '/' q
      refine ⟨(q.splitOn '/').length - 1, List.mem_range.mpr (by omega), ?_⟩
      rw [Nat.sub_add_cancel hq, htake, join_splitOn]
      simp [hlt]

theorem claimAll_append {K T : Type} [DecidableEq K] [DecidableEq T] {fold : T → K}
    {claims : List (K × Claimed T)} (a b : List (Claimed T)) :
    claimAll fold claims (a ++ b) = (claimAll fold claims a).bind fun next => claimAll fold next b := by
  rw [claimAll, List.foldlM_append]
  rfl

theorem insertPath_eq_ok {paths paths' : PathMap} :
    insertPath u paths p isDirectory = .ok paths' ↔ validateRelative u p = .ok () ∧
      claimAll u.fold paths (pathItems p isDirectory) = some paths' := by
  rw [insertPath, seq_eq_ok]
  cases claimAll u.fold paths (pathItems p isDirectory) with
  | none => simp
  | some next => simp [pure, Except.pure]

theorem insertDirectories_eq_ok {paths paths' : PathMap} {directories : List Text} :
    Manifest.insertDirectories u paths directories = .ok paths' ↔
      (∀ directory ∈ directories, validateRelative u directory = .ok ()) ∧
      claimAll u.fold paths (directories.flatMap fun directory => pathItems directory true) =
        some paths' := by
  induction directories generalizing paths with
  | nil => simp [Manifest.insertDirectories, claimAll]
  | cons directory rest ih =>
    rw [Manifest.insertDirectories, bind_eq_ok, List.flatMap_cons, claimAll_append,
      Option.bind_eq_some_iff, List.forall_mem_cons]
    constructor
    · rintro ⟨next, hnext, hrest⟩
      obtain ⟨hvalid, hclaims⟩ := insertPath_eq_ok.mp hnext
      obtain ⟨hall, hfinal⟩ := ih.mp hrest
      exact ⟨⟨hvalid, hall⟩, next, hclaims, hfinal⟩
    · rintro ⟨⟨hvalid, hall⟩, next, hclaims, hfinal⟩
      exact ⟨next, insertPath_eq_ok.mpr ⟨hvalid, hclaims⟩, ih.mpr ⟨hall, hfinal⟩⟩

structure Manifest.EntryOk (u : Unicode) (m : Manifest) (entry : Entry) : Prop where
  remote : entry.remote.validate u = .ok ()
  mapped : m.mapping.localPath u entry.remote.path = .ok entry.localPath
  relative : validateRelative u entry.localPath = .ok ()

structure Manifest.DirectoryOk (u : Unicode) (m : Manifest) (pair : Text × Text) : Prop where
  folder : ['/'] <:+ pair.1
  remote : validateRelative u (stripSlash pair.1) = .ok ()
  nonempty : pair.2 ≠ []
  mapped : m.mapping.localPath u pair.1 = .ok pair.2

theorem insertFiles_eq_ok {seen : List Text} {paths paths' : PathMap} {files : List Entry} :
    m.insertFiles u seen paths files = .ok paths' ↔
      (∀ entry ∈ files, m.EntryOk u entry) ∧ (∀ entry ∈ files, entry.remote.path ∉ seen) ∧
      (files.map fun entry => entry.remote.path).Nodup ∧
      claimAll u.fold paths (files.flatMap fun entry => pathItems entry.localPath false) =
        some paths' := by
  induction files generalizing seen paths with
  | nil => simp [Manifest.insertFiles, claimAll]
  | cons entry rest ih =>
    rw [Manifest.insertFiles, seq_eq_ok, seq_eq_ok, ensure_eq_ok, bind_eq_ok, List.flatMap_cons,
      claimAll_append, Option.bind_eq_some_iff, List.forall_mem_cons, List.forall_mem_cons,
      List.map_cons, List.nodup_cons]
    constructor
    · rintro ⟨hremote, hseen, mapped, hmapped, h⟩
      rw [seq_eq_ok, ensure_eq_ok, bind_eq_ok] at h
      obtain ⟨rfl, next, hnext, hrest⟩ := h
      obtain ⟨hvalid, hclaims⟩ := insertPath_eq_ok.mp hnext
      obtain ⟨hall, hnew, hnodup, hfinal⟩ := ih.mp hrest
      refine ⟨⟨⟨hremote, hmapped, hvalid⟩, hall⟩, ⟨hseen, fun e he hm => ?_⟩, ⟨fun hm => ?_, hnodup⟩,
        next, hclaims, hfinal⟩
      · exact hnew e he (List.mem_cons_of_mem _ hm)
      · obtain ⟨e, he, hpath⟩ := List.mem_map.mp hm
        exact hnew e he (hpath ▸ List.mem_cons_self)
    · rintro ⟨⟨hentry, hall⟩, ⟨hseen, hunseen⟩, ⟨hnew, hnodup⟩, next, hclaims, hfinal⟩
      refine ⟨hentry.remote, hseen, entry.localPath, hentry.mapped, ?_⟩
      rw [seq_eq_ok, ensure_eq_ok, bind_eq_ok]
      refine ⟨rfl, next, insertPath_eq_ok.mpr ⟨hentry.relative, hclaims⟩,
        ih.mpr ⟨hall, fun e he hm => ?_, hnodup, hfinal⟩⟩
      rcases List.mem_cons.mp hm with hpath | hm
      · exact hnew (hpath ▸ List.mem_map_of_mem he)
      · exact hunseen e he hm

theorem validateDirectoriesFrom_eq_ok {seenRemote seenLocal : List Text}
    {pairs : List (Text × Text)} :
    m.validateDirectoriesFrom u seenRemote seenLocal pairs = .ok () ↔
      (∀ pair ∈ pairs, m.DirectoryOk u pair) ∧
      (∀ pair ∈ pairs, pair.1 ∉ seenRemote ∧ pair.2 ∉ seenLocal) ∧
      (pairs.map Prod.fst).Nodup ∧ (pairs.map Prod.snd).Nodup := by
  induction pairs generalizing seenRemote seenLocal with
  | nil => simp [Manifest.validateDirectoriesFrom]
  | cons pair rest ih =>
    obtain ⟨remote, localPath⟩ := pair
    rw [Manifest.validateDirectoriesFrom, seq_eq_ok, seq_eq_ok, seq_eq_ok, ensure_eq_ok,
      ensure_eq_ok, bind_eq_ok, List.forall_mem_cons, List.forall_mem_cons, List.map_cons,
      List.map_cons, List.nodup_cons, List.nodup_cons, not_or, not_or, not_not]
    constructor
    · rintro ⟨⟨hfolder, hremote, hlocal⟩, hvalid, hne, mapped, hmapped, h⟩
      rw [seq_eq_ok, ensure_eq_ok] at h
      obtain ⟨rfl, hrest⟩ := h
      obtain ⟨hall, hnew, hnodup, hnodup'⟩ := ih.mp hrest
      refine ⟨⟨⟨hfolder, hvalid, hne, hmapped⟩, hall⟩, ⟨⟨hremote, hlocal⟩, fun pair hp => ?_⟩,
        ⟨fun hm => ?_, hnodup⟩, fun hm => ?_, hnodup'⟩
      · exact ⟨fun hm => (hnew pair hp).1 (List.mem_cons_of_mem _ hm),
          fun hm => (hnew pair hp).2 (List.mem_cons_of_mem _ hm)⟩
      · obtain ⟨pair, hp, hpath⟩ := List.mem_map.mp hm
        exact (hnew pair hp).1 (hpath ▸ List.mem_cons_self)
      · obtain ⟨pair, hp, hpath⟩ := List.mem_map.mp hm
        exact (hnew pair hp).2 (hpath ▸ List.mem_cons_self)
    · rintro ⟨⟨hpair, hall⟩, ⟨hseen, hunseen⟩, ⟨hremote, hnodup⟩, hlocal, hnodup'⟩
      refine ⟨⟨hpair.folder, hseen⟩, hpair.remote, hpair.nonempty, localPath, hpair.mapped, ?_⟩
      rw [seq_eq_ok, ensure_eq_ok]
      refine ⟨rfl, ih.mpr ⟨hall, fun pair hp => ⟨fun hm => ?_, fun hm => ?_⟩, hnodup, hnodup'⟩⟩
      · rcases List.mem_cons.mp hm with hpath | hm
        · exact hremote (List.mem_map.mpr ⟨pair, hp, hpath⟩)
        · exact (hunseen pair hp).1 hm
      · rcases List.mem_cons.mp hm with hpath | hm
        · exact hlocal (List.mem_map.mpr ⟨pair, hp, hpath⟩)
        · exact (hunseen pair hp).2 hm

theorem sumSizes_eq_ok {total : Nat} {files : List Entry} (ht : total ≤ u64Max) :
    Manifest.sumSizes total files = .ok () ↔
      total + (files.map fun entry => entry.remote.size).sum ≤ u64Max := by
  induction files generalizing total with
  | nil => simpa [Manifest.sumSizes] using ht
  | cons entry rest ih =>
    rw [Manifest.sumSizes, seq_eq_ok, ensure_eq_ok, List.map_cons, List.sum_cons, ← Nat.add_assoc]
    constructor
    · rintro ⟨hle, hrest⟩
      exact (ih hle).mp hrest
    · intro hle
      have hfirst : total + entry.remote.size ≤ u64Max := Nat.le_trans (Nat.le_add_right _ _) hle
      exact ⟨hfirst, (ih hfirst).mpr hle⟩

def Manifest.items (m : Manifest) : List (Claimed Text) :=
  (m.directories.flatMap fun directory => pathItems directory true) ++
    m.files.flatMap fun entry => pathItems entry.localPath false

structure Manifest.Validated (u : Unicode) (m : Manifest) : Prop where
  counted : m.remoteDirectories.length = m.directories.length
  roots : m.validateRoots u = .ok ()
  pairs : ∀ pair ∈ m.remoteDirectories.zip m.directories, m.DirectoryOk u pair
  remoteNodup : ((m.remoteDirectories.zip m.directories).map Prod.fst).Nodup
  localNodup : ((m.remoteDirectories.zip m.directories).map Prod.snd).Nodup
  policy : m.validateDirectoryPolicy = .ok ()
  relative : ∀ directory ∈ m.directories, validateRelative u directory = .ok ()
  entries : ∀ entry ∈ m.files, m.EntryOk u entry
  pathsNodup : (m.files.map fun entry => entry.remote.path).Nodup
  compatible : m.items.Pairwise (Compatible u.fold)
  total : (m.files.map fun entry => entry.remote.size).sum ≤ u64Max

theorem validate_eq_ok : m.validate u = .ok () ↔ m.Validated u := by
  rw [Manifest.validate, seq_eq_ok, seq_eq_ok, bind_eq_ok, Manifest.validateRootsAndDirectories,
    seq_eq_ok, seq_eq_ok, ensure_eq_ok, validateDirectoriesFrom_eq_ok]
  constructor
  · rintro ⟨⟨hcounted, hroots, hpairs, -, hremote, hlocal⟩, hpolicy, paths, hpaths, h⟩
    obtain ⟨paths', hfiles, hsum⟩ := bind_eq_ok.mp h
    obtain ⟨hrelative, hclaims⟩ := insertDirectories_eq_ok.mp hpaths
    obtain ⟨hentries, -, hnodup, hclaims'⟩ := insertFiles_eq_ok.mp hfiles
    have hsum' := (sumSizes_eq_ok (Nat.zero_le _)).mp hsum
    rw [Nat.zero_add] at hsum'
    refine ⟨hcounted, hroots, hpairs, hremote, hlocal, hpolicy, hrelative, hentries, hnodup, ?_, hsum'⟩
    refine claimAll_isSome.mp ⟨paths', ?_⟩
    rw [Manifest.items, claimAll_append, hclaims]
    exact hclaims'
  · intro h
    obtain ⟨paths', hclaims⟩ := claimAll_isSome.mpr h.compatible
    rw [Manifest.items, claimAll_append, Option.bind_eq_some_iff] at hclaims
    obtain ⟨paths, hdirectories, hfiles⟩ := hclaims
    refine ⟨⟨h.counted, h.roots, h.pairs, fun _ _ => ⟨nofun, nofun⟩, h.remoteNodup, h.localNodup⟩,
      h.policy, paths, insertDirectories_eq_ok.mpr ⟨h.relative, hdirectories⟩, bind_eq_ok.mpr ?_⟩
    refine ⟨paths', insertFiles_eq_ok.mpr ⟨h.entries, fun _ _ => nofun, h.pathsNodup, hfiles⟩, ?_⟩
    rw [sumSizes_eq_ok (Nat.zero_le _), Nat.zero_add]
    exact h.total

end VeStorage.ADrive.Share
