import VeStorage.ADrive.Rm
import VeStorage.Lib.Url

namespace VeStorage.ADrive
open Lib

structure ListFilesOutput where
  files : List FileInfo
  folders : List FolderInfo
  nextMarker : Text
  isTruncated : Bool

structure Normalizing where
  folderKeys : List Text
  files : List FileInfo
  folders : List FolderInfo

def Normalizing.push (currentFolderMarker : Option Text) (s : Normalizing) (file : FileInfo) :
    Normalizing :=
  if adriveFileInfoIsFolderMarker file = false then { s with files := s.files ++ [file] }
  else
    let folderKey := normalizeAdriveFolderPath file.filePath
    if folderKey = [] then s
    else if some folderKey = currentFolderMarker then s
    else if folderKey ∈ s.folderKeys then s
    else { s with folderKeys := folderKey :: s.folderKeys, folders := s.folders ++ [⟨file.filePath⟩] }

def normalizeLsFilesAndFolders (files : List FileInfo) (folders : List FolderInfo)
    (rootPath : Text) : List FileInfo × List FolderInfo :=
  let currentFolderMarker :=
    if rootPath = [] then none else some (normalizeAdriveFolderPath (trimFolderPrefix rootPath))
  let normalized := files.foldl (Normalizing.push currentFolderMarker)
    ⟨folders.map fun folder => normalizeAdriveFolderPath folder.folder, [], folders⟩
  (normalized.files, normalized.folders)

theorem normalize_trimFolderPrefix (path : Text) :
    normalizeAdriveFolderPath (trimFolderPrefix path) = normalizeAdriveFolderPath path := by
  unfold trimFolderPrefix
  split
  · rfl
  · exact trimEnd_append_self '/' path

structure Normalizing.Inv (folders : List FolderInfo) (s : Normalizing) : Prop where
  keys : ∀ k ∈ s.folderKeys, ∃ folder ∈ s.folders, normalizeAdriveFolderPath folder.folder = k
  kept : ∀ folder ∈ folders, folder ∈ s.folders

structure Normalizing.Grows (s s' : Normalizing) : Prop where
  files : ∀ file ∈ s.files, file ∈ s'.files
  folders : ∀ folder ∈ s.folders, folder ∈ s'.folders

-- What a file of the page stands for in the normalized lists.
structure Normalizing.Promoted (listed : Option Text) (s : Normalizing) (file : FileInfo) :
    Prop where
  plain : adriveFileInfoIsFolderMarker file = false → file ∈ s.files
  marker : adriveFileInfoIsFolderMarker file = true →
    normalizeAdriveFolderPath file.filePath ≠ [] →
    some (normalizeAdriveFolderPath file.filePath) ≠ listed →
    ∃ folder ∈ s.folders,
      normalizeAdriveFolderPath folder.folder = normalizeAdriveFolderPath file.filePath

namespace Normalizing

variable {folders : List FolderInfo} {listed : Option Text} {s s' s'' : Normalizing}
  {file : FileInfo}

theorem Grows.refl (s : Normalizing) : Grows s s := ⟨fun _ h => h, fun _ h => h⟩

theorem Grows.trans (h : Grows s s') (h' : Grows s' s'') : Grows s s'' :=
  ⟨fun file hf => h'.files file (h.files file hf),
    fun folder hf => h'.folders folder (h.folders folder hf)⟩

theorem Promoted.grow (h : Promoted listed s file) (hg : Grows s s') : Promoted listed s' file where
  plain hf := hg.files file (h.plain hf)
  marker hm hk hl := by
    obtain ⟨folder, hmem, hkey⟩ := h.marker hm hk hl
    exact ⟨folder, hg.folders folder hmem, hkey⟩

theorem push_grows (listed : Option Text) (s : Normalizing) (file : FileInfo) :
    Grows s (s.push listed file) := by
  unfold push
  split
  · exact ⟨fun f hf => List.mem_append_left _ hf, fun _ hf => hf⟩
  · dsimp only
    split
    · exact .refl s
    · split
      · exact .refl s
      · split
        · exact .refl s
        · exact ⟨fun _ hf => hf, fun f hf => List.mem_append_left _ hf⟩

variable (listed file) in
theorem push_inv (h : Inv folders s) : Inv folders (s.push listed file) := by
  have hgrow := push_grows listed s file
  refine ⟨?_, fun folder hf => hgrow.folders folder (h.kept folder hf)⟩
  unfold push
  split
  · exact h.keys
  · dsimp only
    split
    · exact h.keys
    · split
      · exact h.keys
      · split
        · exact h.keys
        · intro k hk
          rcases List.mem_cons.mp hk with rfl | hk
          · exact ⟨⟨file.filePath⟩, List.mem_append_right _ List.mem_cons_self, rfl⟩
          · obtain ⟨folder, hmem, hkey⟩ := h.keys k hk
            exact ⟨folder, List.mem_append_left _ hmem, hkey⟩

theorem push_promoted (h : Inv folders s) : Promoted listed (s.push listed file) file := by
  unfold push
  split
  · next hfile =>
    exact ⟨fun _ => List.mem_append_right _ List.mem_cons_self,
      fun hm => absurd (hfile.symm.trans hm) nofun⟩
  · next hfile =>
    refine ⟨fun hf => absurd hf hfile, fun _ hkey hlisted => ?_⟩
    dsimp only
    rw [if_neg (show ¬ normalizeAdriveFolderPath file.filePath = [] from hkey),
      if_neg (show ¬ some (normalizeAdriveFolderPath file.filePath) = listed from hlisted)]
    split
    · next hmem => exact h.keys _ hmem
    · exact ⟨⟨file.filePath⟩, List.mem_append_right _ List.mem_cons_self, rfl⟩

variable (listed) in
theorem foldl_spec (h : Inv folders s) (files : List FileInfo) :
    Grows s (files.foldl (push listed) s) ∧ Inv folders (files.foldl (push listed) s) ∧
      ∀ file ∈ files, Promoted listed (files.foldl (push listed) s) file := by
  induction files generalizing s with
  | nil => exact ⟨.refl s, h, nofun⟩
  | cons file rest ih =>
    obtain ⟨hgrow, hinv, hall⟩ := ih (push_inv listed file h)
    refine ⟨(push_grows listed s file).trans hgrow, hinv, fun f hf => ?_⟩
    rcases List.mem_cons.mp hf with rfl | hf
    · exact (push_promoted h).grow hgrow
    · exact hall f hf

end Normalizing


end VeStorage.ADrive
