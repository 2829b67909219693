import VeStorage.ADrive.Share.Scan
import Mathlib.Data.Set.Insert

namespace VeStorage.ADrive.Share
open Lib
open Lib.Crash (ensure bind_eq_ok pure_eq_ok mapM_eq_ok)

-- What one entry of a listing says.
inductive Fact where
  | file (file : RemoteFile)
  | folder (directory : Text)
  | version (directory : Text) (version : Int)

variable (u : Unicode)

def folderFacts (path : Text) (updatedAt : Int) : Except CliError (List Fact) := do
  let directory ← directoryPath u path
  return (if updatedAt = 0 then [] else [.version directory updatedAt]) ++ [.folder directory]

def fileFacts (info : FileInfo) : Except CliError (List Fact) :=
  if isFolder info = true then folderFacts u info.filePath info.updatedAt
  else do
    let file ← RemoteFile.fromInfo u info
    return [.file file]

def allFacts {α : Type} (facts : α → Except CliError (List Fact)) :
    List α → Except CliError (List Fact)
  | [] => .ok []
  | item :: rest => do
      let first ← facts item
      let later ← allFacts facts rest
      return first ++ later

def DirectoryListing.facts (listing : DirectoryListing) : Except CliError (List Fact) := do
  let folders ← allFacts (fun folder => folderFacts u folder.folder folder.updatedAt) listing.folders
  let files ← allFacts (fileFacts u) listing.files
  return folders ++ files

structure Consistent (facts : Set Fact) : Prop where
  files : ∀ f g, .file f ∈ facts → .file g ∈ facts → f.path = g.path → f = g
  versions : ∀ d v w, .version d v ∈ facts → .version d w ∈ facts → v = w

theorem Consistent.mono {facts facts' : Set Fact} (h : Consistent facts') (hs : facts ⊆ facts') :
    Consistent facts :=
  ⟨fun f g hf hg => h.files f g (hs hf) (hs hg), fun d v w hv hw => h.versions d v w (hs hv) (hs hw)⟩

namespace Snapshot

def learn (s : Snapshot) : Fact → Option Snapshot
  | .file file =>
      (recordBy RemoteFile.path file s.files).map fun files => { s with files := files }
  | .folder directory =>
      if directory ∈ s.directories then some s
      else some { s with
        directories := insertBy id directory s.directories
        queue := s.queue ++ [directory] }
  | .version directory version =>
      (recordBy Prod.fst (directory, version) s.directoryVersions).map fun versions =>
        { s with directoryVersions := versions }

def learnAll (s : Snapshot) (facts : List Fact) : Option Snapshot := facts.foldlM learn s

variable {u} {s s' : Snapshot} {path : Text}

theorem learnAll_append (facts facts' : List Fact) :
    s.learnAll (facts ++ facts') = (s.learnAll facts).bind fun next => next.learnAll facts' := by
  rw [learnAll, List.foldlM_append]
  rfl

theorem learnAll_singleton (fact : Fact) : s.learnAll [fact] = s.learn fact := by
  simp [learnAll]

theorem okOr_eq_ok {α : Type} {o : Option α} {err : CliError} {a : α} :
    okOr o err = .ok a ↔ o = some a := by
  cases o <;> simp [okOr]

theorem addDirectory_eq_ok : s.addDirectory u path = .ok s' ↔
    ∃ directory, directoryPath u path = .ok directory ∧ s.learn (.folder directory) = some s' := by
  rw [addDirectory, bind_eq_ok]
  refine exists_congr fun directory => and_congr_right fun _ => ?_
  rw [learn]
  split <;> simp

theorem directoryVersion_eq_ok {version : Int} : s.directoryVersion u path version = .ok s' ↔
    ∃ directory, directoryPath u path = .ok directory ∧
      s.learnAll (if version = 0 then [] else [.version directory version]) = some s' := by
  rw [directoryVersion, bind_eq_ok]
  refine exists_congr fun directory => and_congr_right fun _ => ?_
  split
  next => simp [learnAll]
  next =>
    simp only [learnAll_singleton, learn, bind_eq_ok, okOr_eq_ok, pure_eq_ok,
      Option.map_eq_some_iff]

-- Each operation learns the facts of what it is given, when these can be read off at all.
def LearnsFrom (result : Except CliError Snapshot) (s : Snapshot)
    (facts : Except CliError (List Fact)) : Prop :=
  ∀ s', result = .ok s' ↔ ∃ known, facts = .ok known ∧ s.learnAll known = some s'

theorem acceptFolder_learns (folder : FolderInfo) :
    LearnsFrom (s.acceptFolder u folder) s (folderFacts u folder.folder folder.updatedAt) := by
  intro s'
  rw [acceptFolder, bind_eq_ok]
  simp only [folderFacts, bind_eq_ok, pure_eq_ok]
  constructor
  · rintro ⟨next, hversion, hfolder⟩
    obtain ⟨directory, hpath, hknown⟩ := directoryVersion_eq_ok.mp hversion
    obtain ⟨directory', hpath', hlearn⟩ := addDirectory_eq_ok.mp hfolder
    obtain rfl : directory = directory' := Except.ok.inj (hpath.symm.trans hpath')
    refine ⟨_, ⟨directory, hpath, rfl⟩, ?_⟩
    rw [learnAll_append, hknown, Option.bind_some, learnAll_singleton, hlearn]
  · rintro ⟨known, ⟨directory, hpath, rfl⟩, hknown⟩
    rw [learnAll_append, Option.bind_eq_some_iff] at hknown
    obtain ⟨next, hversion, hfolder⟩ := hknown
    rw [learnAll_singleton] at hfolder
    exact ⟨next, directoryVersion_eq_ok.mpr ⟨directory, hpath, hversion⟩,
      addDirectory_eq_ok.mpr ⟨directory, hpath, hfolder⟩⟩

theorem addFile_learns (info : FileInfo) :
    LearnsFrom (s.addFile u info) s (fileFacts u info) := by
  intro s'
  rw [addFile, fileFacts]
  split
  next => exact acceptFolder_learns ⟨info.filePath, info.updatedAt⟩ s'
  next =>
    simp only [bind_eq_ok, pure_eq_ok, okOr_eq_ok]
    constructor
    · rintro ⟨file, hfile, files, hfiles, rfl⟩
      refine ⟨_, ⟨file, hfile, rfl⟩, ?_⟩
      rw [learnAll_singleton, learn, hfiles, Option.map_some]
    · rintro ⟨known, ⟨file, hfile, rfl⟩, hknown⟩
      rw [learnAll_singleton, learn, Option.map_eq_some_iff] at hknown
      obtain ⟨files, hfiles, heq⟩ := hknown
      exact ⟨file, hfile, files, hfiles, heq⟩

theorem foldlM_learns {α : Type} {add : Snapshot → α → Except CliError Snapshot}
    {facts : α → Except CliError (List Fact)}
    (hadd : ∀ s a, LearnsFrom (add s a) s (facts a)) (items : List α) (s : Snapshot) :
    LearnsFrom (items.foldlM add s) s (allFacts facts items) := by
  induction items generalizing s with
  | nil => simp [LearnsFrom, allFacts, learnAll, pure, Except.pure]
  | cons item rest ih =>
    intro s'
    simp only [List.foldlM_cons, allFacts, bind_eq_ok, pure_eq_ok]
    constructor
    · rintro ⟨next, hnext, hlater⟩
      obtain ⟨first, hfirst, hknown⟩ := (hadd s item next).mp hnext
      obtain ⟨later, hlater, hknown'⟩ := (ih next s').mp hlater
      refine ⟨_, ⟨first, hfirst, later, hlater, rfl⟩, ?_⟩
      rw [learnAll_append, hknown, Option.bind_some, hknown']
    · rintro ⟨known, ⟨first, hfirst, later, hlater, rfl⟩, hs⟩
      rw [learnAll_append, Option.bind_eq_some_iff] at hs
      obtain ⟨next, hnext, hs'⟩ := hs
      exact ⟨next, (hadd s item next).mpr ⟨first, hfirst, hnext⟩,
        (ih next s').mpr ⟨later, hlater, hs'⟩⟩

theorem accept_learns (listing : DirectoryListing) :
    LearnsFrom (s.accept u listing) s (listing.facts u) := by
  intro s'
  have hfolders := foldlM_learns (fun s folder => acceptFolder_learns (u := u) (s := s) folder)
    listing.folders
  have hfiles := foldlM_learns (fun s info => addFile_learns (u := u) (s := s) info) listing.files
  simp only [accept, DirectoryListing.facts, bind_eq_ok, pure_eq_ok]
  constructor
  · rintro ⟨next, hnext, hlater⟩
    obtain ⟨folders, hknown, hlearn⟩ := (hfolders s next).mp hnext
    obtain ⟨files, hknown', hlearn'⟩ := (hfiles next s').mp hlater
    refine ⟨_, ⟨folders, hknown, files, hknown', rfl⟩, ?_⟩
    rw [learnAll_append, hlearn, Option.bind_some, hlearn']
  · rintro ⟨known, ⟨folders, hknown, files, hknown', rfl⟩, hs⟩
    rw [learnAll_append, Option.bind_eq_some_iff] at hs
    obtain ⟨next, hnext, hs'⟩ := hs
    exact ⟨next, (hfolders s next).mpr ⟨folders, hknown, hnext⟩,
      (hfiles next s').mpr ⟨files, hknown', hs'⟩⟩

-- The snapshot holds exactly these facts.
structure Holds (s : Snapshot) (facts : Set Fact) : Prop where
  filesOrdered : Ordered RemoteFile.path s.files
  directoriesOrdered : Ordered id s.directories
  versionsOrdered : Ordered Prod.fst s.directoryVersions
  files : ∀ f, f ∈ s.files ↔ .file f ∈ facts
  directories : ∀ d, d ∈ s.directories ↔ .folder d ∈ facts
  versions : ∀ d v, (d, v) ∈ s.directoryVersions ↔ .version d v ∈ facts

namespace Holds

variable {facts : Set Fact} {fact : Fact} {known : List Fact}

theorem consistent (h : s.Holds facts) : Consistent facts where
  files f g hf hg hpath := h.filesOrdered.eq_of_rank ((h.files f).mpr hf) ((h.files g).mpr hg) hpath
  versions d v w hv hw := congrArg Prod.snd
    (h.versionsOrdered.eq_of_rank ((h.versions d v).mpr hv) ((h.versions d w).mpr hw) rfl)

theorem learn (h : s.Holds facts) (hl : s.learn fact = some s') : s'.Holds (insert fact facts) := by
  cases fact with
  | file file =>
    obtain ⟨files, hfiles, rfl⟩ := Option.map_eq_some_iff.mp hl
    refine ⟨ordered_recordBy h.filesOrdered hfiles, h.directoriesOrdered, h.versionsOrdered,
      fun f => ?_, fun d => ?_, fun d v => ?_⟩
    · simp [h.filesOrdered.mem_recordBy hfiles, h.files]
    · simp [h.directories]
    · simp [h.versions]
  | folder directory =>
    rw [Snapshot.learn] at hl
    split at hl
    next hmem =>
      obtain rfl := Option.some.inj hl
      rwa [Set.insert_eq_of_mem ((h.directories directory).mp hmem)]
    next hmem =>
      obtain rfl := Option.some.inj hl
      refine ⟨h.filesOrdered, ordered_insertBy h.directoriesOrdered, h.versionsOrdered,
        fun f => ?_, fun d => ?_, fun d v => ?_⟩
      · simp [h.files]
      · have hne : d ∈ s.directories → d ≠ directory := fun hd he => hmem (he ▸ hd)
        simp only [mem_insertBy h.directoriesOrdered, id, Set.mem_insert_iff, Fact.folder.injEq,
          h.directories] at hne ⊢
        tauto
      · simp [h.versions]
  | version directory version =>
    obtain ⟨versions, hversions, rfl⟩ := Option.map_eq_some_iff.mp hl
    refine ⟨h.filesOrdered, h.directoriesOrdered, ordered_recordBy h.versionsOrdered hversions,
      fun f => ?_, fun d => ?_, fun d v => ?_⟩
    · simp [h.files]
    · simp [h.directories]
    · simp [h.versionsOrdered.mem_recordBy hversions, h.versions]

theorem exists_learn (h : s.Holds facts) (hc : Consistent (insert fact facts)) :
    ∃ s', s.learn fact = some s' := by
  cases fact with
  | file file =>
    have hsame : ∀ f ∈ s.files, f.path = file.path → f = file := fun f hf hpath =>
      hc.files f file (.inr ((h.files f).mp hf)) (.inl rfl) hpath
    have hrecord := h.filesOrdered.recordBy_eq_some.mpr ⟨hsame, rfl⟩
    exact ⟨_, Option.map_eq_some_iff.mpr ⟨_, hrecord, rfl⟩⟩
  | folder directory =>
    rw [Snapshot.learn]
    split <;> exact ⟨_, rfl⟩
  | version directory version =>
    have hsame : ∀ entry ∈ s.directoryVersions, entry.1 = directory →
        entry = (directory, version) := by
      rintro ⟨d, v⟩ hentry rfl
      rw [hc.versions d v version (.inr ((h.versions d v).mp hentry)) (.inl rfl)]
    have hrecord := (h.versionsOrdered.recordBy_eq_some (a := (directory, version))).mpr ⟨hsame, rfl⟩
    exact ⟨_, Option.map_eq_some_iff.mpr ⟨_, hrecord, rfl⟩⟩

theorem insert_union (fact : Fact) (facts : Set Fact) (rest : List Fact) :
    insert fact facts ∪ {x | x ∈ rest} = facts ∪ {x | x ∈ fact :: rest} := by
  ext x
  simp only [Set.mem_union, Set.mem_insert_iff, Set.mem_ofPred_eq, List.mem_cons]
  tauto

theorem learnAll (h : s.Holds facts) (hl : s.learnAll known = some s') :
    s'.Holds (facts ∪ {fact | fact ∈ known}) := by
  induction known generalizing s facts with
  | nil =>
    obtain rfl := Option.some.inj hl
    simpa using h
  | cons fact rest ih =>
    rw [Snapshot.learnAll, List.foldlM_cons] at hl
    obtain ⟨next, hnext, hrest⟩ := Option.bind_eq_some_iff.mp hl
    have hfinal := ih (h.learn hnext) hrest
    rwa [insert_union] at hfinal

theorem exists_learnAll (h : s.Holds facts) (hc : Consistent (facts ∪ {fact | fact ∈ known})) :
    ∃ s', s.learnAll known = some s' := by
  induction known generalizing s facts with
  | nil => exact ⟨s, rfl⟩
  | cons fact rest ih =>
    rw [← insert_union] at hc
    obtain ⟨next, hnext⟩ := h.exists_learn (hc.mono Set.subset_union_left)
    obtain ⟨s', hs'⟩ := ih (h.learn hnext) hc
    refine ⟨s', ?_⟩
    rw [Snapshot.learnAll, List.foldlM_cons]
    exact Option.bind_eq_some_iff.mpr ⟨next, hnext, hs'⟩

end Holds

-- The directories are those asked for and those queued, each once.
structure Frontier (s : Snapshot) (requested : List Text) : Prop where
  nodup : (requested ++ s.queue).Nodup
  mem : ∀ d, d ∈ requested ++ s.queue ↔ d ∈ s.directories

namespace Frontier

variable {requested : List Text} {fact : Fact} {known : List Fact}

theorem learn (h : s.Frontier requested) (ho : Ordered id s.directories)
    (hl : s.learn fact = some s') : s'.Frontier requested := by
  cases fact with
  | file file =>
    obtain ⟨files, -, rfl⟩ := Option.map_eq_some_iff.mp hl
    exact ⟨h.nodup, h.mem⟩
  | version directory version =>
    obtain ⟨versions, -, rfl⟩ := Option.map_eq_some_iff.mp hl
    exact ⟨h.nodup, h.mem⟩
  | folder directory =>
    rw [Snapshot.learn] at hl
    split at hl
    next =>
      obtain rfl := Option.some.inj hl
      exact h
    next hnew =>
      obtain rfl := Option.some.inj hl
      have hperm : (requested ++ (s.queue ++ [directory])).Perm
          (directory :: (requested ++ s.queue)) := by
        rw [← List.append_assoc]
        exact List.perm_append_singleton _ _
      refine ⟨hperm.nodup_iff.mpr (List.nodup_cons.mpr ⟨?_, h.nodup⟩), fun d => ?_⟩
      · rwa [h.mem]
      · have hne : d ∈ s.directories → d ≠ directory := fun hd he => hnew (he ▸ hd)
        rw [hperm.mem_iff, List.mem_cons, h.mem, mem_insertBy ho]
        simp only [id] at hne ⊢
        tauto

theorem learnAll {facts : Set Fact} (h : s.Frontier requested) (hs : s.Holds facts)
    (hl : s.learnAll known = some s') : s'.Frontier requested := by
  induction known generalizing s facts with
  | nil =>
    obtain rfl := Option.some.inj hl
    exact h
  | cons fact rest ih =>
    rw [Snapshot.learnAll, List.foldlM_cons] at hl
    obtain ⟨next, hnext, hrest⟩ := Option.bind_eq_some_iff.mp hl
    exact ih (h.learn hs.directoriesOrdered hnext) (hs.learn hnext) hrest

theorem request {directory : Text} {rest : List Text} (h : s.Frontier requested)
    (hq : s.queue = directory :: rest) :
    Frontier { s with queue := rest } (requested ++ [directory]) := by
  obtain ⟨hnodup, hmem⟩ := h
  rw [hq] at hnodup
  simp only [hq] at hmem
  exact ⟨by simpa using hnodup, by simpa using hmem⟩

end Frontier

theorem learn_roots {fact : Fact} (hl : s.learn fact = some s') :
    s'.roots = s.roots ∧ s'.policy = s.policy := by
  cases fact with
  | file file =>
    obtain ⟨files, -, rfl⟩ := Option.map_eq_some_iff.mp hl
    exact ⟨rfl, rfl⟩
  | folder directory =>
    rw [learn] at hl
    split at hl <;> obtain rfl := Option.some.inj hl <;> exact ⟨rfl, rfl⟩
  | version directory version =>
    obtain ⟨versions, -, rfl⟩ := Option.map_eq_some_iff.mp hl
    exact ⟨rfl, rfl⟩

theorem learnAll_roots {known : List Fact} (hl : s.learnAll known = some s') :
    s'.roots = s.roots ∧ s'.policy = s.policy := by
  induction known generalizing s with
  | nil =>
    obtain rfl := Option.some.inj hl
    exact ⟨rfl, rfl⟩
  | cons fact rest ih =>
    rw [learnAll, List.foldlM_cons] at hl
    obtain ⟨next, hnext, hrest⟩ := Option.bind_eq_some_iff.mp hl
    obtain ⟨hroots, hpolicy⟩ := ih hrest
    obtain ⟨hroots', hpolicy'⟩ := learn_roots hnext
    exact ⟨hroots.trans hroots', hpolicy.trans hpolicy'⟩

-- What the selection of a download builds before its directories are scanned.
inductive Built (u : Unicode) : Snapshot → Prop
  | empty (roots : List Text) (policy : MappingPolicy) : Built u ⟨roots, [], [], [], [], policy⟩
  | select (s : Snapshot) (roots : List Text) (policy : MappingPolicy) (h : Built u s) :
      Built u { s with roots := roots, policy := policy }
  | addDirectory (s s' : Snapshot) (path : Text) (h : Built u s)
      (ha : s.addDirectory u path = .ok s') : Built u s'
  | addFile (s s' : Snapshot) (info : FileInfo) (h : Built u s) (ha : s.addFile u info = .ok s') :
      Built u s'
  | accept (s s' : Snapshot) (listing : DirectoryListing) (h : Built u s)
      (ha : s.accept u listing = .ok s') : Built u s'

theorem Built.holds (h : s.Built u) : (∃ facts, s.Holds facts) ∧ s.Frontier [] := by
  have hlearn : ∀ {s s' : Snapshot} {known : List Fact},
      (∃ facts, s.Holds facts) ∧ s.Frontier [] → s.learnAll known = some s' →
        (∃ facts, s'.Holds facts) ∧ s'.Frontier [] := by
    rintro s s' known ⟨⟨facts, hs⟩, hf⟩ hl
    exact ⟨⟨_, hs.learnAll hl⟩, hf.learnAll hs hl⟩
  induction h with
  | empty roots policy =>
    exact ⟨⟨∅, ⟨ordered_nil, ordered_nil, ordered_nil, by simp, by simp, by simp⟩⟩, ⟨by simp, by simp⟩⟩
  | select s roots policy _ ih =>
    obtain ⟨⟨facts, hs⟩, hf⟩ := ih
    exact ⟨⟨facts, ⟨hs.filesOrdered, hs.directoriesOrdered, hs.versionsOrdered, hs.files,
      hs.directories, hs.versions⟩⟩, ⟨hf.nodup, hf.mem⟩⟩
  | addDirectory s s' path _ ha ih =>
    obtain ⟨directory, -, hl⟩ := addDirectory_eq_ok.mp ha
    exact hlearn ih ((learnAll_singleton _).trans hl)
  | addFile s s' info _ ha ih =>
    obtain ⟨known, -, hl⟩ := (addFile_learns info s').mp ha
    exact hlearn ih hl
  | accept s s' listing _ ha ih =>
    obtain ⟨known, -, hl⟩ := (accept_learns listing s').mp ha
    exact hlearn ih hl

end Snapshot

end VeStorage.ADrive.Share
