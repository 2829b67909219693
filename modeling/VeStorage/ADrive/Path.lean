import VeStorage.Lib.Text

namespace VeStorage.ADrive
open Lib

def normalizeAdriveFolderPath (path : Text) : Text := trimEnd '/' path

def adrivePathDepth (path : Text) : Nat := segmentDepth '/' path

def trimFolderPrefix (path : Text) : Text :=
  if path = [] ∨ ['/'] <:+ path then path else path ++ ['/']

-- What DeleteFolder of `folder` takes with it.
def Below (folder path : Text) : Prop := folder = [] ∨ folder ++ ['/'] <+: path

instance (folder path : Text) : Decidable (Below folder path) :=
  inferInstanceAs (Decidable (_ ∨ _))

theorem depth_lt_of_below {folder path : Text} (hf : normalizeAdriveFolderPath folder = folder)
    (hp : normalizeAdriveFolderPath path = path) (hne : path ≠ folder) (h : Below folder path) :
    adrivePathDepth folder < adrivePathDepth path := by
  unfold adrivePathDepth
  rcases h with rfl | ⟨r, hr⟩
  · have hlast : ∀ rest, path ≠ rest ++ ['/'] := fun rest he =>
      trimEnd_ne_append '/' path rest (hp.trans he)
    have hseg := List.length_pos_iff.mpr (segments_ne_nil (exists_ne_of_getLast hne hlast))
    unfold segmentDepth
    rw [show trimEnd '/' path = path from hp]
    simpa using hseg
  · refine segmentDepth_lt (r := r) hf hp ?_
    rw [← hr]
    simp

end VeStorage.ADrive
