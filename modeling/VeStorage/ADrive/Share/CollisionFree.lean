import VeStorage.ADrive.Share.Collide

namespace VeStorage.ADrive.Share
open Lib
open Lib.Crash (ensure ensure_eq_ok bind_eq_ok seq_eq_ok)

namespace Manifest

variable {u : Unicode} {m m' : Manifest} {p q : Text} {entry : Entry}

def locals (m : Manifest) : List Text := m.directories ++ m.files.map Entry.localPath

-- `a` lies below the folder whose folded name is `k`.
def Below (u : Unicode) (k a : Text) : Prop := ∃ rest, u.fold a = k ++ '/' :: rest

structure CollisionFree (u : Unicode) (m : Manifest) : Prop where
  filesApart : m.files.Pairwise fun a b => u.fold a.localPath ≠ u.fold b.localPath
  notFolder : ∀ entry ∈ m.files, ∀ directory ∈ m.directories,
    u.fold entry.localPath ≠ u.fold directory
  notAncestor : ∀ entry ∈ m.files, ∀ other ∈ m.locals, ¬ Below u (u.fold entry.localPath) other
  sameSpelling : ∀ a ∈ m.locals, ∀ b ∈ m.locals, ∀ k, Below u k a → Below u k b →
    ∃ p rest rest', u.fold p = k ∧ a = p ++ '/' :: rest ∧ b = p ++ '/' :: rest'
  folderSpelling : ∀ directory ∈ m.directories, ∀ b ∈ m.locals,
    (u.fold b = u.fold directory → b = directory) ∧
      (Below u (u.fold directory) b → ∃ rest, b = directory ++ '/' :: rest)
  distinctRemotes : (m.files.map fun entry => entry.remote.path).Nodup
  distinctLocals : ∀ a ∈ m.files, ∀ b ∈ m.files, a.remote ≠ b.remote → a.localPath ≠ b.localPath

theorem file_mem_items (h : entry ∈ m.files) : (entry.localPath, false) ∈ m.items :=
  List.mem_append_right _
    (List.mem_flatMap.mpr ⟨entry, h, mem_pathItems.mpr (.inl ⟨rfl, rfl⟩)⟩)

theorem directory_mem_items (h : p ∈ m.directories) : (p, true) ∈ m.items :=
  List.mem_append_left _ (List.mem_flatMap.mpr ⟨p, h, mem_pathItems.mpr (.inl ⟨rfl, rfl⟩)⟩)

theorem ancestor_mem_items {rest : Text} (h : p ++ '/' :: rest ∈ m.locals) :
    (p, true) ∈ m.items := by
  have hitem : ∀ isDirectory, (p, true) ∈ pathItems (p ++ '/' :: rest) isDirectory := fun _ =>
    mem_pathItems.mpr (.inr ⟨rfl, rest, rfl⟩)
  rcases List.mem_append.mp h with h | h
  · exact List.mem_append_left _ (List.mem_flatMap.mpr ⟨_, h, hitem true⟩)
  · obtain ⟨entry, hentry, hlocal⟩ := List.mem_map.mp h
    exact List.mem_append_right _ (List.mem_flatMap.mpr ⟨entry, hentry, hlocal ▸ hitem false⟩)

theorem Below.exists_item {k a : Text} (hb : Below u k a) (ha : a ∈ m.locals) :
    ∃ p rest, u.fold p = k ∧ a = p ++ '/' :: rest ∧ (p, true) ∈ m.items := by
  obtain ⟨rest, hrest⟩ := hb
  obtain ⟨p, tail, rfl, hfold⟩ := u.fold_componentwise.exists_prefix hrest
  exact ⟨p, tail, hfold, rfl, ancestor_mem_items ha⟩

namespace Validated

theorem compatible_of_mem (h : m.Validated u) {a b : Claimed Text} (ha : a ∈ m.items)
    (hb : b ∈ m.items) (hne : a ≠ b) : Compatible u.fold a b :=
  h.compatible.forall ha hb hne

theorem folders_eq (h : m.Validated u) (hp : (p, true) ∈ m.items) (hq : (q, true) ∈ m.items)
    (hfold : u.fold p = u.fold q) : p = q := by
  by_contra hne
  exact hne (h.compatible_of_mem hp hq (by simpa using hne) hfold).1

theorem file_ne_folder (h : m.Validated u) (hp : (p, false) ∈ m.items) (hq : (q, true) ∈ m.items) :
    u.fold p ≠ u.fold q := by
  intro hfold
  have hpair := h.compatible_of_mem hp hq (by simp) hfold
  cases hpair.2.1

theorem files_apart (h : m.Validated u) :
    m.files.Pairwise fun a b => u.fold a.localPath ≠ u.fold b.localPath := by
  have hfiles := (List.pairwise_append.mp h.compatible).2.1
  refine (List.pairwise_flatMap.mp hfiles).2.imp fun hab hfold => ?_
  have hpair := hab (_, false) (mem_pathItems.mpr (.inl ⟨rfl, rfl⟩)) (_, false)
    (mem_pathItems.mpr (.inl ⟨rfl, rfl⟩)) hfold
  cases hpair.2.1

theorem collisionFree (h : m.Validated u) : m.CollisionFree u where
  filesApart := h.files_apart
  notFolder entry hentry directory hdirectory :=
    h.file_ne_folder (file_mem_items hentry) (directory_mem_items hdirectory)
  notAncestor entry hentry other hother hbelow := by
    obtain ⟨p, rest, hfold, -, hp⟩ := hbelow.exists_item hother
    exact h.file_ne_folder (file_mem_items hentry) hp hfold.symm
  sameSpelling a ha b hb k hka hkb := by
    obtain ⟨p, rest, hp, rfl, hpitem⟩ := hka.exists_item ha
    obtain ⟨q, rest', hq, rfl, hqitem⟩ := hkb.exists_item hb
    obtain rfl := h.folders_eq hpitem hqitem (hp.trans hq.symm)
    exact ⟨p, rest, rest', hp, rfl, rfl⟩
  folderSpelling directory hdirectory b hb := by
    refine ⟨fun hfold => ?_, fun hbelow => ?_⟩
    · rcases List.mem_append.mp hb with hb | hb
      · exact h.folders_eq (directory_mem_items hb) (directory_mem_items hdirectory) hfold
      · obtain ⟨entry, hentry, rfl⟩ := List.mem_map.mp hb
        exact absurd hfold
          (h.file_ne_folder (file_mem_items hentry) (directory_mem_items hdirectory))
    · obtain ⟨p, rest, hp, rfl, hpitem⟩ := hbelow.exists_item hb
      exact ⟨rest, by rw [h.folders_eq hpitem (directory_mem_items hdirectory) hp]⟩
  distinctRemotes := h.pathsNodup
  distinctLocals a ha b hb hne hlocal := by
    have hsymm : Std.Symm fun a b : Entry => u.fold a.localPath ≠ u.fold b.localPath :=
      ⟨fun _ _ => Ne.symm⟩
    have hab : a ≠ b := fun he => hne (congrArg Entry.remote he)
    exact h.files_apart.forall ha hb hab (congrArg u.fold hlocal)

end Validated

-- The same files and the same pairs of directories, listed in another order.
structure Reordered (m m' : Manifest) : Prop where
  roots : m.roots = m'.roots
  policy : m.policy = m'.policy
  files : m.files.Perm m'.files
  remoteDirectories : m.remoteDirectories.Perm m'.remoteDirectories
  directories : m.directories.Perm m'.directories
  paired : (m.remoteDirectories.zip m.directories).Perm
    (m'.remoteDirectories.zip m'.directories)

namespace Reordered

variable (h : m.Reordered m')
include h

theorem symm : m'.Reordered m :=
  ⟨h.roots.symm, h.policy.symm, h.files.symm, h.remoteDirectories.symm, h.directories.symm,
    h.paired.symm⟩

theorem mapping : m.mapping = m'.mapping := by
  rw [Manifest.mapping, Manifest.mapping, h.roots, h.policy]

theorem mem_represented : p ∈ m.represented ↔ p ∈ m'.represented :=
  (h.remoteDirectories.append (h.files.map _)).mem_iff

theorem validateRootsFrom (seen roots : List Text) :
    m.validateRootsFrom u seen roots = m'.validateRootsFrom u seen roots := by
  induction roots generalizing seen with
  | nil => rfl
  | cons root rest ih =>
    simp only [Manifest.validateRootsFrom, h.mapping, h.policy, h.mem_represented, ih]

theorem validateRoots : m.validateRoots u = m'.validateRoots u := by
  rw [Manifest.validateRoots, Manifest.validateRoots, h.policy, h.roots, h.validateRootsFrom]

theorem mem_expectedDirectories :
    p ∈ m.expectedDirectories ↔ p ∈ m'.expectedDirectories := by
  rw [expectedDirectories, expectedDirectories, h.policy]
  exact ((h.files.flatMap_right _).append ((h.directories.filter _).flatMap_right _)).mem_iff

theorem validateDirectoryPolicy : m.validateDirectoryPolicy = m'.validateDirectoryPolicy := by
  simp only [Manifest.validateDirectoryPolicy, h.policy, List.subset_def, h.directories.mem_iff,
    h.mem_expectedDirectories, h.files.mem_iff]

theorem items : m.items.Perm m'.items :=
  (h.directories.flatMap_right _).append (h.files.flatMap_right _)

theorem validated (hv : m.Validated u) : m'.Validated u where
  counted := by rw [← h.remoteDirectories.length_eq, ← h.directories.length_eq, hv.counted]
  roots := h.validateRoots ▸ hv.roots
  pairs pair hp := by
    obtain ⟨hfolder, hremote, hnonempty, hmapped⟩ := hv.pairs pair (h.paired.mem_iff.mpr hp)
    exact ⟨hfolder, hremote, hnonempty, h.mapping ▸ hmapped⟩
  remoteNodup := (h.paired.map _).nodup_iff.mp hv.remoteNodup
  localNodup := (h.paired.map _).nodup_iff.mp hv.localNodup
  policy := h.validateDirectoryPolicy ▸ hv.policy
  relative directory hd := hv.relative directory (h.directories.mem_iff.mpr hd)
  entries entry hentry := by
    obtain ⟨hremote, hmapped, hrelative⟩ := hv.entries entry (h.files.mem_iff.mpr hentry)
    exact ⟨hremote, h.mapping ▸ hmapped, hrelative⟩
  pathsNodup := (h.files.map _).nodup_iff.mp hv.pathsNodup
  compatible := (compatible_perm h.items).mp hv.compatible
  total := (h.files.map _).sum_nat ▸ hv.total

end Reordered

theorem validate_collision_free (u : Unicode) (m : Manifest) :
    (m.validate u = .ok () → m.CollisionFree u) ∧
      ∀ m', m.Reordered m' → (m.validate u = .ok () ↔ m'.validate u = .ok ()) := by
  refine ⟨fun h => (validate_eq_ok.mp h).collisionFree, fun m' hm => ⟨fun h => ?_, fun h => ?_⟩⟩
  · exact validate_eq_ok.mpr (hm.validated (validate_eq_ok.mp h))
  · exact validate_eq_ok.mpr (hm.symm.validated (validate_eq_ok.mp h))

end Manifest

theorem toUpper_eq_slash {c : Char} (h : c.toUpper = '/') : c = '/' := by
  by_cases hc : 'a'.val ≤ c.val ∧ c.val ≤ 'z'.val
  · have hlow := hc.1
    have hupper : c.toUpper = _ := dif_pos hc
    have hval := congrArg Char.val (hupper.symm.trans h)
    change c.val + ('A'.val - 'a'.val) = '/'.val at hval
    have hc : c.val = 'O'.val := by
      rw [← UInt32.add_sub_cancel c.val ('A'.val - 'a'.val), hval]
      rfl
    rw [hc] at hlow
    exact absurd hlow (by decide)
  · have hsame : c.toUpper = c := dif_neg hc
    exact hsame.symm.trans h

-- ASCII has no compositions, and its capitals are one letter each.
def asciiUnicode : Unicode where
  toUppercase c := [c.toUpper]
  nfd t := t
  upper_slash := rfl
  upper_other _ hc hmem := hc (toUpper_eq_slash (List.mem_singleton.mp hmem).symm)
  nfd_append _ _ := rfl
  nfd_other _ h := h

def sharedFile (path : String) : Entry :=
  ⟨path.toList, path.toList, 7, "tag".toList, 5, 0⟩

def sharedFolder (files : List Entry) (hsized : files.length ≤ maxEntries) : Manifest where
  roots := ["a".toList, "b/".toList]
  files := files
  directories := ["b".toList, "b/c".toList]
  remoteDirectories := ["b/".toList, "b/c/".toList]
  policy := .legacy
  sized := hsized

theorem shared_folder_collision_free :
    let shared := sharedFolder [sharedFile "a", sharedFile "b/c/d"] (by decide)
    let swapped := sharedFolder [sharedFile "b/c/d", sharedFile "a"] (by decide)
    shared.CollisionFree asciiUnicode ∧ swapped.validate asciiUnicode = .ok () := by
  intro shared swapped
  have hswap : shared.Reordered swapped :=
    ⟨rfl, rfl, .swap _ _ _, .refl _, .refl _, .refl _⟩
  have hvalid : shared.validate asciiUnicode = .ok () := by decide
  have h := Manifest.validate_collision_free asciiUnicode shared
  exact ⟨h.1 hvalid, (h.2 swapped hswap).mp hvalid⟩

end VeStorage.ADrive.Share
