import VeStorage.ADrive.Share.Projection
import VeStorage.ADrive.Share.CollisionFree

namespace VeStorage.ADrive.Share
open Lib
open Lib.Crash (ensure ensure_eq_ok bind_eq_ok seq_eq_ok pure_eq_ok ensure_eq_error bind_eq_error
  pure_eq_error)

variable {u : Unicode} {mapping : MappingIndex} {m : Manifest} {p q : Text}
  {files : List RemoteFile} {directories roots : List Text} {policy : MappingPolicy}

section Project

-- `build_manifest` up to its validation.
def project (u : Unicode) (mapping : MappingIndex) (files : List RemoteFile)
    (directories : List Text) : Except CliError (List Entry × List (Text × Text)) := do
  let (keptFiles, retained) ← keepFiles u mapping [] [] files
  let retained ← keepDirectories u mapping retained directories
  return (keptFiles, retained)

def projected (mapping : MappingIndex) (entries : List Entry) (retained : List (Text × Text))
    (h : entries.length ≤ maxEntries) : Manifest :=
  ⟨mapping.roots, entries, retained.map Prod.snd, retained.map Prod.fst, mapping.policy, h⟩

theorem buildManifest_projected {entries : List Entry} {retained : List (Text × Text)}
    (h : project u ⟨roots, policy⟩ files directories = .ok (entries, retained)) :
    buildManifest u roots files directories policy =
      if h : entries.length ≤ maxEntries then do
        (projected ⟨roots, policy⟩ entries retained h).validate u
        return projected ⟨roots, policy⟩ entries retained h
      else .error (invalid "capacity overflow") := by
  rw [project, bind_eq_ok] at h
  obtain ⟨⟨kept, middle⟩, hfiles, h⟩ := h
  rw [bind_eq_ok] at h
  obtain ⟨last, hdirectories, h⟩ := h
  obtain ⟨rfl, rfl⟩ := Prod.mk.inj (pure_eq_ok.mp h)
  rw [buildManifest, hfiles]
  change (do
    let keptDirectories ← keepDirectories u ⟨roots, policy⟩ middle directories
    if h : kept.length ≤ maxEntries then do
      let manifest : Manifest := ⟨roots, kept, keptDirectories.map Prod.snd,
        keptDirectories.map Prod.fst, policy, h⟩
      manifest.validate u
      return manifest
    else .error (invalid "capacity overflow")) = _
  rw [hdirectories]
  rfl

-- The directories of the projection, and what the check makes of the local paths.
structure Manifest.Agrees (u : Unicode) (files : List RemoteFile) (m : Manifest) : Prop where
  files : m.files = passing u m.mapping files
  directories : ∀ p, p ∈ m.directories ↔ p ∈ m.expectedDirectories
  ancestors : ∀ p, (p ∈ m.directories ∨ ∃ entry ∈ m.files, entry.localPath = p) →
    ∀ q rest, p = q ++ '/' :: rest → q ∈ m.directories
  counted : m.remoteDirectories.length = m.directories.length
  remapped : ∀ pair ∈ m.remoteDirectories.zip m.directories,
    m.mapping.localPath u pair.1 = .ok pair.2

theorem mem_expectedDirectories_iff : p ∈ m.expectedDirectories ↔
    (∃ entry ∈ m.files, p ∈ localParents entry.localPath false) ∨
      ∃ directory ∈ m.directories, m.policy.matchesPath directory = true ∧
        p ∈ localParents directory true := by
  simp [Manifest.expectedDirectories, and_assoc]

theorem zip_unzip (retained : List (Text × Text)) :
    (retained.map Prod.fst).zip (retained.map Prod.snd) = retained := by
  rw [← List.unzip_fst, ← List.unzip_snd, List.zip_unzip]

theorem project_agrees (hd : mapping.Declared)
    (hfiles : ∀ remote ∈ files, ∃ l, mapping.localPath u remote.path = .ok l)
    (hdirectories : ∀ directory ∈ directories, ∃ l, mapping.localPath u directory = .ok l) :
    ∃ retained, project u mapping files directories = .ok (passing u mapping files, retained) ∧
      Retained u mapping retained ∧
      ∀ h : (passing u mapping files).length ≤ maxEntries,
        (projected mapping (passing u mapping files) retained h).Agrees u files := by
  obtain ⟨middle, hkeep, hmiddle, hmem⟩ := keepFiles_local hd [] hfiles retained_nil
  obtain ⟨retained, sources, hkeep', hretained, hsources, hmem'⟩ :=
    keepDirectories_local hd hdirectories hmiddle
  have hlocals : ∀ p, p ∈ localsOf retained ↔
      (∃ entry ∈ passing u mapping files, p ∈ localParents entry.localPath false) ∨
        ∃ l ∈ sources, p ∈ localParents l true := by
    intro p
    rw [hmem', hmem]
    simp [localsOf]
  have hentry : ∀ entry ∈ passing u mapping files,
      entry.localPath = [] ∨ validateRelative u entry.localPath = .ok () :=
    fun entry he => localPath_valid (passing_mapped he).2.1
  have hsource : ∀ l ∈ sources, l = [] ∨ validateRelative u l = .ok () := by
    intro l hl
    obtain ⟨-, directory, -, hmapped⟩ := hsources l hl
    exact localPath_valid hmapped
  have hclosed : ∀ p, p ∈ localsOf retained → ∀ q ∈ localParents p true, q ∈ localsOf retained := by
    intro p hp q hq
    rw [hlocals] at hp ⊢
    rcases hp with ⟨entry, he, hp⟩ | ⟨l, hl, hp⟩
    · exact .inl ⟨entry, he, localParents_trans (hentry entry he) hp hq⟩
    · exact .inr ⟨l, hl, localParents_trans (hsource l hl) hp hq⟩
  refine ⟨retained, ?_, hretained, fun h => ⟨rfl, fun p => ?_, fun p hp q rest hrest => ?_, ?_, ?_⟩⟩
  · rw [project, hkeep, List.nil_append]
    simp only [bind, Except.bind, hkeep']
    rfl
  · change p ∈ localsOf retained ↔ _
    rw [mem_expectedDirectories_iff]
    constructor
    · intro hp
      rcases (hlocals p).mp hp with hfile | ⟨l, hl, hp⟩
      · exact .inl hfile
      · have hne : l ≠ [] := by
          rintro rfl
          rw [localParents_nil] at hp
          cases hp
        exact .inr ⟨l, (hlocals l).mpr (.inr ⟨l, hl, self_mem_localParents hne⟩), (hsources l hl).1, hp⟩
    · rintro (hfile | ⟨directory, hdirectory, -, hp⟩)
      · exact (hlocals p).mpr (.inl hfile)
      · exact hclosed directory hdirectory p hp
  · change q ∈ localsOf retained
    rcases hp with hp | ⟨entry, he, rfl⟩
    · obtain ⟨pair, hpair, hsnd⟩ := List.mem_map.mp hp
      have hvalid := (localPath_valid (hretained.mapped pair hpair)).resolve_left
        (hretained.nonempty pair hpair)
      refine hclosed p hp q ?_
      rw [← hsnd, localParents_valid hvalid, hsnd]
      exact mem_ancestors_true.mpr (.inr ⟨rest, hrest⟩)
    · have hvalid := (hentry entry he).resolve_left (by simp [hrest])
      refine (hlocals q).mpr (.inl ⟨entry, he, ?_⟩)
      rw [localParents_valid hvalid]
      exact mem_ancestors_false.mpr ⟨rest, hrest⟩
  · simp [projected]
  · intro pair hpair
    change pair ∈ (retained.map Prod.fst).zip (retained.map Prod.snd) at hpair
    rw [zip_unzip] at hpair
    exact hretained.mapped pair hpair

end Project

section Errors

def duplicateDirectory : String := "invalid or duplicate directory mapping"

def duplicateRemote : String := "invalid or duplicate manifest remote mapping"

-- What the validator says of a projection that its own policy does not account for.
def projectionMessages : List String :=
  ["manifest file violates its filter policy",
    "manifest directories violate filters or omit necessary parents",
    "directory mapping count differs",
    "directory mapping differs from remote roots"]

def mappingMessages : List String := duplicateDirectory :: duplicateRemote :: projectionMessages

def Aside {α : Type} (r : Except CliError α) : Prop :=
  ∀ message ∈ mappingMessages, r ≠ .error (invalid message)

variable {α β : Type} {r : Except CliError α} {message : String}

theorem Aside.bind {f : α → Except CliError β} (h : Aside r) (hf : ∀ a, Aside (f a)) :
    Aside (r >>= f) := by
  intro message hm herr
  rcases bind_eq_error.mp herr with herr | ⟨a, -, herr⟩
  · exact h message hm herr
  · exact hf a message hm herr

theorem aside_pure (a : α) : Aside (pure a : Except CliError α) := nofun

theorem aside_invalid (h : message ∉ mappingMessages) :
    Aside (.error (invalid message) : Except CliError α) := by
  intro other hm herr
  obtain rfl := CliError.validation.inj (Except.error.inj herr)
  exact h hm

theorem aside_ensure {c : Prop} [Decidable c] (h : message ∉ mappingMessages) :
    Aside (ensure c (invalid message)) := by
  intro other hm herr
  obtain rfl := CliError.validation.inj (ensure_eq_error.mp herr).2
  exact h hm

theorem validateRelative_aside (p : Text) : Aside (validateRelative u p) := by
  refine Aside.bind ?_ fun _ => ?_
  · exact aside_ensure (by decide)
  · exact aside_ensure (by decide)

theorem checked_aside (p : Text) : Aside (checked u p) := by
  rw [checked]
  split
  · exact aside_pure p
  · exact (validateRelative_aside p).bind fun _ => aside_pure p

theorem localPath_aside (p : Text) : Aside (mapping.localPath u p) := by
  rw [MappingIndex.localPath]
  split
  next => exact aside_invalid (by decide)
  next r _ =>
    split
    next =>
      split
      next => exact aside_pure _
      next => exact (validateRelative_aside _).bind fun _ => aside_pure _
    next => exact checked_aside _

theorem validateRootsFrom_aside (seen roots : List Text) : Aside (m.validateRootsFrom u seen roots) := by
  induction roots generalizing seen with
  | nil => exact aside_pure ()
  | cons root rest ih =>
    exact (validateRelative_aside _).bind fun _ => (localPath_aside root).bind fun _ =>
      (aside_ensure (by decide)).bind fun _ => ih (root :: seen)

theorem validateRoots_aside : Aside (m.validateRoots u) := by
  rw [Manifest.validateRoots]
  split
  · exact aside_ensure (by decide)
  · exact validateRootsFrom_aside [] m.roots

theorem insertPath_aside (paths : PathMap) (p : Text) (isDirectory : Bool) :
    Aside (insertPath u paths p isDirectory) := by
  refine (validateRelative_aside p).bind fun _ => ?_
  split
  · exact aside_pure _
  · exact aside_invalid (by decide)

theorem insertDirectories_aside (paths : PathMap) (directories : List Text) :
    Aside (Manifest.insertDirectories u paths directories) := by
  induction directories generalizing paths with
  | nil => exact aside_pure paths
  | cons directory rest ih => exact (insertPath_aside paths directory true).bind fun next => ih next

theorem sumSizes_aside (total : Nat) (entries : List Entry) : Aside (Manifest.sumSizes total entries) := by
  induction entries generalizing total with
  | nil => exact aside_pure ()
  | cons entry rest ih => exact (aside_ensure (by decide)).bind fun _ => ih _

theorem remoteValidate_aside (remote : RemoteFile) : Aside (remote.validate u) :=
  (validateRelative_aside _).bind fun _ => aside_ensure (by decide)

-- Folders that map to their own local paths are refused as duplicates only.
theorem validateDirectoriesFrom_blames {seenRemote seenLocal : List Text} {pairs : List (Text × Text)}
    (hpairs : ∀ pair ∈ pairs, ['/'] <:+ pair.1 ∧ pair.2 ≠ [] ∧
      m.mapping.localPath u pair.1 = .ok pair.2)
    (hremote : (pairs.map Prod.fst).Nodup) (hseen : ∀ pair ∈ pairs, pair.1 ∉ seenRemote) {message : String}
    (hm : message ∈ mappingMessages)
    (h : m.validateDirectoriesFrom u seenRemote seenLocal pairs = .error (invalid message)) :
    message = duplicateDirectory ∧
      ¬ ((pairs.map Prod.snd).Nodup ∧ ∀ pair ∈ pairs, pair.2 ∉ seenLocal) := by
  induction pairs generalizing seenRemote seenLocal with
  | nil => cases h
  | cons pair rest ih =>
    obtain ⟨remote, mapped⟩ := pair
    rw [List.forall_mem_cons] at hpairs hseen
    obtain ⟨⟨hfolder, hne, hmapped⟩, hrest⟩ := hpairs
    rw [List.map_cons, List.nodup_cons] at hremote
    rw [Manifest.validateDirectoriesFrom] at h
    rcases bind_eq_error.mp h with h | ⟨-, -, h⟩
    · obtain ⟨hc, he⟩ := ensure_eq_error.mp h
      refine ⟨(CliError.validation.inj he).symm, fun hfree => hc ?_⟩
      rintro (hfolder' | hmem | hmem)
      · exact hfolder' hfolder
      · exact hseen.1 hmem
      · exact hfree.2 _ List.mem_cons_self hmem
    · rcases bind_eq_error.mp h with h | ⟨-, -, h⟩
      · exact absurd h (validateRelative_aside _ message hm)
      · rcases bind_eq_error.mp h with h | ⟨-, -, h⟩
        · exact absurd hne (ensure_eq_error.mp h).1
        · rw [hmapped] at h
          change (ensure (mapped = mapped) _ >>= _) = _ at h
          rcases bind_eq_error.mp h with h | ⟨-, -, h⟩
          · exact absurd rfl (ensure_eq_error.mp h).1
          · have hnext : ∀ pair ∈ rest, pair.1 ∉ remote :: seenRemote := by
              intro pair hp hmem
              rcases List.mem_cons.mp hmem with hsame | hmem
              · exact hremote.1 (List.mem_map.mpr ⟨pair, hp, hsame⟩)
              · exact hseen.2 pair hp hmem
            obtain ⟨he, hfree⟩ := ih hrest hremote.2 hnext h
            refine ⟨he, fun hboth => hfree ?_⟩
            rw [List.map_cons, List.nodup_cons, List.forall_mem_cons] at hboth
            refine ⟨hboth.1.2, fun pair hp hmem => ?_⟩
            rcases List.mem_cons.mp hmem with hsame | hmem
            · exact hboth.1.1 (List.mem_map.mpr ⟨pair, hp, hsame⟩)
            · exact hboth.2.2 pair hp hmem

theorem insertFiles_blames {seen : List Text} {paths : PathMap} {entries : List Entry}
    (hentries : ∀ entry ∈ entries, m.mapping.localPath u entry.remote.path = .ok entry.localPath)
    {message : String} (hm : message ∈ mappingMessages)
    (h : m.insertFiles u seen paths entries = .error (invalid message)) :
    message = duplicateRemote ∧ ¬ ((entries.map fun entry => entry.remote.path).Nodup ∧
      ∀ entry ∈ entries, entry.remote.path ∉ seen) := by
  induction entries generalizing seen paths with
  | nil => cases h
  | cons entry rest ih =>
    rw [List.forall_mem_cons] at hentries
    obtain ⟨hmapped, hrest⟩ := hentries
    rw [Manifest.insertFiles] at h
    rcases bind_eq_error.mp h with h | ⟨-, -, h⟩
    · exact absurd h (remoteValidate_aside _ message hm)
    · rcases bind_eq_error.mp h with h | ⟨-, -, h⟩
      · obtain ⟨hc, he⟩ := ensure_eq_error.mp h
        refine ⟨(CliError.validation.inj he).symm, fun hfree => hc ?_⟩
        exact hfree.2 entry List.mem_cons_self
      · rw [hmapped] at h
        change (ensure (entry.localPath = entry.localPath) _ >>= _) = _ at h
        rcases bind_eq_error.mp h with h | ⟨-, -, h⟩
        · exact absurd rfl (ensure_eq_error.mp h).1
        · rcases bind_eq_error.mp h with h | ⟨next, -, h⟩
          · exact absurd h (insertPath_aside _ _ _ message hm)
          · obtain ⟨he, hfree⟩ := ih hrest h
            refine ⟨he, fun hboth => hfree ?_⟩
            rw [List.map_cons, List.nodup_cons, List.forall_mem_cons] at hboth
            refine ⟨hboth.1.2, fun other hother hmem => ?_⟩
            rcases List.mem_cons.mp hmem with hsame | hmem
            · exact hboth.1.1 (List.mem_map.mpr ⟨other, hother, hsame⟩)
            · exact hboth.2.2 other hother hmem

end Errors

section Blames

variable {retained : List (Text × Text)}

theorem passing_sublist (mapping : MappingIndex) (files : List RemoteFile) :
    ((passing u mapping files).map Entry.remote).Sublist files := by
  induction files with
  | nil => exact List.Sublist.slnil
  | cons remote rest ih =>
    rw [passing, List.filterMap_cons]
    split
    next => exact ih.cons remote
    next entry hentry =>
      have hremote : entry.remote = remote := by
        split at hentry
        next =>
          split at hentry
          next => rw [← Option.some.inj hentry]
          next => cases hentry
        next => cases hentry
      rw [List.map_cons, hremote]
      exact ih.cons_cons remote

theorem directoryPolicy_ok (h : m.Agrees u files) : m.validateDirectoryPolicy = .ok () := by
  rw [Manifest.validateDirectoryPolicy]
  split
  · rfl
  · rw [seq_eq_ok, ensure_eq_ok, ensure_eq_ok]
    refine ⟨fun entry he => ?_, fun p => (h.directories p).mp, fun p => (h.directories p).mpr⟩
    rw [h.files] at he
    exact (passing_mapped he).2.2

theorem validate_blames (hretained : Retained u mapping retained)
    {h : (passing u mapping files).length ≤ maxEntries}
    (hagrees : (projected mapping (passing u mapping files) retained h).Agrees u files)
    {message : String} (hm : message ∈ mappingMessages)
    (herr : (projected mapping (passing u mapping files) retained h).validate u =
      .error (invalid message)) :
    (message = duplicateDirectory ∧ ¬ (localsOf retained).Nodup) ∨
      (message = duplicateRemote ∧ ¬ (files.map RemoteFile.path).Nodup) := by
  rw [Manifest.validate] at herr
  rcases bind_eq_error.mp herr with herr | ⟨-, -, herr⟩
  · rw [Manifest.validateRootsAndDirectories] at herr
    rcases bind_eq_error.mp herr with herr | ⟨-, -, herr⟩
    · exact absurd hagrees.counted (ensure_eq_error.mp herr).1
    · rcases bind_eq_error.mp herr with herr | ⟨-, -, herr⟩
      · exact absurd herr (validateRoots_aside message hm)
      · change Manifest.validateDirectoriesFrom _ _ [] []
          ((retained.map Prod.fst).zip (retained.map Prod.snd)) = _ at herr
        rw [zip_unzip] at herr
        have hnodup : (retained.map Prod.fst).Nodup :=
          List.pairwise_map.mpr (hretained.ordered.imp fun hlt => hlt.ne)
        obtain ⟨he, hfree⟩ := validateDirectoriesFrom_blames (fun pair hp => ⟨hretained.folder pair hp,
          hretained.nonempty pair hp, hretained.mapped pair hp⟩) hnodup (by simp) hm herr
        exact .inl ⟨he, fun hlocals => hfree ⟨hlocals, by simp⟩⟩
  · rcases bind_eq_error.mp herr with herr | ⟨-, -, herr⟩
    · rw [directoryPolicy_ok hagrees] at herr
      cases herr
    · rcases bind_eq_error.mp herr with herr | ⟨paths, -, herr⟩
      · exact absurd herr (insertDirectories_aside _ _ message hm)
      · rcases bind_eq_error.mp herr with herr | ⟨next, -, herr⟩
        · obtain ⟨he, hfree⟩ := insertFiles_blames (fun entry hentry => (passing_mapped hentry).2.1) hm herr
          refine .inr ⟨he, fun hnodup => hfree ⟨?_, by simp⟩⟩
          have hpaths := (passing_sublist (u := u) mapping files).map RemoteFile.path
          rw [List.map_map] at hpaths
          exact hpaths.nodup hnodup
        · exact absurd herr (sumSizes_aside _ _ message hm)

-- The projection and the validator agree wherever the mapping is declared for the whole Space or
-- for its own roots alone.
theorem projection_agrees (u : Unicode) (roots : List Text) (files : List RemoteFile)
    (directories : List Text) (policy : MappingPolicy)
    (hdeclared : (⟨roots, policy⟩ : MappingIndex).Declared)
    (hfiles : ∀ remote ∈ files, ∃ l, (⟨roots, policy⟩ : MappingIndex).localPath u remote.path = .ok l)
    (hdirectories : ∀ directory ∈ directories,
      ∃ l, (⟨roots, policy⟩ : MappingIndex).localPath u directory = .ok l) :
    ∃ entries retained, project u ⟨roots, policy⟩ files directories = .ok (entries, retained) ∧
      (∀ h : entries.length ≤ maxEntries, (projected ⟨roots, policy⟩ entries retained h).Agrees u files) ∧
      ∀ message ∈ mappingMessages,
        buildManifest u roots files directories policy = .error (invalid message) →
        (message = duplicateDirectory ∧ ¬ (localsOf retained).Nodup) ∨
          (message = duplicateRemote ∧ ¬ (files.map RemoteFile.path).Nodup) := by
  obtain ⟨retained, hproject, hretained, hagrees⟩ := project_agrees hdeclared hfiles hdirectories
  refine ⟨_, retained, hproject, hagrees, fun message hm herr => ?_⟩
  rw [buildManifest_projected hproject] at herr
  split at herr
  next h =>
    rcases bind_eq_error.mp herr with herr | ⟨-, -, herr⟩
    · exact validate_blames hretained (hagrees h) hm herr
    · cases herr
  next => exact absurd herr (aside_invalid (by decide) message hm)

end Blames

section Sample

def remoteFile (path : String) : RemoteFile := ⟨path.toList, 7, "tag".toList, 5, 0⟩

theorem projection_agrees_space :
    let mapping : MappingIndex := ⟨["/".toList], .spaceRoot true none (some "*.log".toList)⟩
    let files := [remoteFile "a/b/c", remoteFile "a/d.log"]
    ∃ entries retained, project asciiUnicode mapping files ["e/f/".toList] = .ok (entries, retained) ∧
      (∀ h : entries.length ≤ maxEntries,
        (projected mapping entries retained h).Agrees asciiUnicode files) ∧
      ∀ message ∈ mappingMessages,
        buildManifest asciiUnicode mapping.roots files ["e/f/".toList] mapping.policy =
          .error (invalid message) →
        (message = duplicateDirectory ∧ ¬ (localsOf retained).Nodup) ∨
          (message = duplicateRemote ∧ ¬ (files.map RemoteFile.path).Nodup) := by
  intro mapping files
  refine projection_agrees asciiUnicode ["/".toList] files ["e/f/".toList]
    (.spaceRoot true none (some "*.log".toList)) ?_ ?_ ?_
  · exact fun _ _ r hr => List.mem_singleton.mp hr
  · refine List.forall_mem_cons.mpr ⟨⟨"a/b/c".toList, by decide⟩, List.forall_mem_singleton.mpr ?_⟩
    exact ⟨"a/d.log".toList, by decide⟩
  · exact List.forall_mem_singleton.mpr ⟨"e/f".toList, by decide⟩

-- `a/b/c//` maps below `a/`, the folders above it below the Space root.
theorem projection_disagrees :
    let mapping : MappingIndex := ⟨["/".toList, "a/".toList], .spaceRoot false none none⟩
    let doubled : MappingIndex := ⟨["a/x/".toList, "b/x/".toList], .cp true none none⟩
    ((∃ l, mapping.localPath asciiUnicode "/".toList = .ok l) ∧
      (∃ l, mapping.localPath asciiUnicode "a/".toList = .ok l) ∧
      (∃ l, mapping.localPath asciiUnicode "a/b/c//".toList = .ok l) ∧
      ∃ entries retained h,
        project asciiUnicode mapping [remoteFile "a/b/c//"] [] = .ok (entries, retained) ∧
        (⟨"b/c".toList, remoteFile "a/b/c//"⟩ : Entry) ∈ entries ∧
        "b".toList ∉ (projected mapping entries retained h).directories ∧
        "b".toList ∈ (projected mapping entries retained h).expectedDirectories) ∧
    (∃ l, doubled.localPath asciiUnicode "a/x/1".toList = .ok l) ∧
      (∃ l, doubled.localPath asciiUnicode "b/x/2".toList = .ok l) ∧
      buildManifest asciiUnicode ["a/x/".toList, "b/x/".toList]
          [remoteFile "a/x/1", remoteFile "b/x/2"] [] (.cp true none none) =
        .error (invalid duplicateDirectory) := by
  intro mapping doubled
  refine ⟨⟨⟨[], rfl⟩, ⟨"a".toList, by decide⟩, ⟨"b/c".toList, by decide⟩, ?_⟩,
    ⟨"x/1".toList, by decide⟩, ⟨"x/2".toList, by decide⟩, ?_⟩
  · refine ⟨[⟨"b/c".toList, remoteFile "a/b/c//"⟩],
      [("a/".toList, "a".toList), ("a/b/".toList, "a/b".toList)], by decide, ?_, ?_, ?_, ?_⟩
    · decide
    · decide
    · decide
    · decide
  · decide

end Sample

end VeStorage.ADrive.Share
