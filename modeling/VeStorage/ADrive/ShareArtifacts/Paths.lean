import VeStorage.ADrive.Share.Collide
import VeStorage.Tos.RollingCsv

namespace VeStorage.ADrive.ShareArtifacts
open Lib
open Lib.Crash (ensure)
open ADrive.Share (CliError Unicode Manifest invalid validateRelative)
open Tos.RollingCsv (FileName padded parseUsize stripSuffix)

section Paths

-- A component of a path other than its root; `.` is skipped.
inductive Component
  | parentDir
  | normal (name : FileName)

structure Path where
  isAbsolute : Bool
  components : List Component

-- An absolute path of plain names.
abbrev Resolved := List FileName

def fileName? (text : Text) : Option FileName :=
  if h : text ≠ [] ∧ '/' ∉ text ∧ text ≠ ".".toList ∧ text ≠ "..".toList then
    some ⟨text, h.1, h.2.1, h.2.2⟩
  else none

def component? (text : Text) : Option Component :=
  if text = "..".toList then some .parentDir else (fileName? text).map .normal

def Path.ofText (text : Text) : Path :=
  ⟨text.head? = some '/', (text.splitOn '/').filterMap component?⟩

def pathText (path : Resolved) : Text := '/' :: join '/' (path.map FileName.text)

namespace Path

variable (path : Path)

def fileName : Option FileName :=
  match path.components.getLast? with
  | some (.normal name) => some name
  | _ => none

-- `path.parent()`, or `.` where that is missing or empty.
def parentOrDot : Path :=
  if path.components = [] then ⟨false, []⟩ else ⟨path.isAbsolute, path.components.dropLast⟩

def withFileName (name : FileName) : Path :=
  if path.fileName.isSome then ⟨path.isAbsolute, path.components.dropLast ++ [.normal name]⟩
  else ⟨path.isAbsolute, path.components ++ [.normal name]⟩

def stem : Text :=
  match path.fileName with
  | some name => name.stem
  | none => "report".toList

end Path

-- `destination.join(relative)`
def joinRelative (destination : Resolved) (relative : Text) : Resolved :=
  destination ++ (relative.splitOn '/').filterMap fileName?

end Paths

section Volumes

theorem stem_plain (name : FileName) : '/' ∉ name.stem := by
  rw [name.stem_eq]
  rcases Tos.RollingCsv.fileStem_eq name.text with he | ⟨ext, he, -⟩
  · rw [he]
    exact name.plain
  · intro hmem
    apply name.plain
    rw [he]
    exact List.mem_append_left _ hmem

theorem Path.stem_plain (path : Path) : '/' ∉ path.stem := by
  unfold Path.stem
  split
  · exact ShareArtifacts.stem_plain _
  · simp

def volumeText (stem : Text) (part : Nat) : Text :=
  stem ++ (".part-".toList ++ (padded part ++ ".csv".toList))

theorem volumeText_long (stem : Text) (part : Nat) : 2 < (volumeText stem part).length := by
  simp only [volumeText, List.length_append, String.length_toList]
  have hpart : ".part-".length = 6 := rfl
  omega

def volumeName (stem : Text) (h : '/' ∉ stem) (part : Nat) : FileName where
  text := volumeText stem part
  nonempty he := by
    have hlong := volumeText_long stem part
    simp [he] at hlong
  plain hmem := by
    simp only [volumeText, List.mem_append] at hmem
    rcases hmem with hmem | hmem | hmem | hmem
    · exact h hmem
    · simp at hmem
    · simpa using Tos.RollingCsv.padded_isDigit part '/' hmem
    · simp at hmem
  entry := by
    have hlong := volumeText_long stem part
    constructor <;> intro he <;> simp [he] at hlong

def rolledCsvPath (basePath : Path) (part : Nat) : Path :=
  if part = 1 then basePath
  else basePath.withFileName (volumeName basePath.stem basePath.stem_plain part)

end Volumes

section Families

structure Metadata where
  isFile : Bool
  nlink : Nat

-- The file system, without symlinks: a path is canonical as it stands, or is not found.
structure Disk where
  currentDir : Resolved
  canonicalize : Resolved → Except CliError Unit
  symlinkMetadata : Path → Except CliError (Option Metadata)
  readDir : Resolved → Except CliError (List FileName)

variable (disk : Disk) (u : Unicode)

def Disk.absolute (path : Path) : List Component :=
  if path.isAbsolute then path.components else disk.currentDir.map .normal ++ path.components

def step (resolved : Resolved) : Component → Resolved
  | .parentDir => resolved.dropLast
  | .normal name => resolved ++ [name]

def normalizeFrom : Resolved → List Component → Except CliError Resolved
  | resolved, [] => .ok resolved
  | resolved, component :: rest => do
      disk.canonicalize (step resolved component)
      normalizeFrom (step resolved component) rest

def normalizePath (path : Path) : Except CliError Resolved :=
  normalizeFrom disk [] (disk.absolute path)

def folded (text : Text) : Text := u.fold (text.map fun c => if c = '\\' then '/' else c)

def pathsOverlap (left right : Text) : Bool :=
  left = right || decide (right ++ ['/'] <+: left) || decide (left ++ ['/'] <+: right)

def ensurePlainOutput (path : Path) : Except CliError Unit := do
  match ← disk.symlinkMetadata path with
  | none => return
  | some metadata => do
      ensure (metadata.isFile = true) (invalid
        "report/manifest volume must be an ordinary file, not a symlink or special entry")
      ensure (¬ metadata.nlink > 1) (invalid "report/manifest volume must not be hard-linked")

structure VolumeFamily where
  base : Resolved
  parent : Text
  partPrefix : Text

namespace VolumeFamily

def containsVolume (family : VolumeFamily) (path : Resolved) : Bool :=
  match path.getLast? with
  | none => false
  | some filename =>
      if folded u (pathText path.dropLast) ≠ family.parent then false
      else match (stripPrefix family.partPrefix (folded u filename.text)).bind
          (stripSuffix ".CSV".toList) with
        | none => false
        | some part =>
            4 ≤ part.length && part.all Char.isDigit && (parseUsize part).any fun part => 1 < part

def overlaps (family : VolumeFamily) (target : Resolved) : Bool :=
  pathsOverlap (folded u (pathText family.base)) (folded u (pathText target)) ||
    target.inits.any (family.containsVolume u)

def checkExistingVolumes (family : VolumeFamily) (parent : Resolved) : Except CliError Unit := do
  let entries ← disk.readDir parent
  entries.forM fun name =>
    if family.containsVolume u (parent ++ [name]) then
      ensurePlainOutput disk ⟨true, (parent ++ [name]).map .normal⟩
    else pure ()

def new (path : Path) : Except CliError VolumeFamily := do
  ensurePlainOutput disk path
  let base ← normalizePath disk path
  match (rolledCsvPath path 2).fileName with
  | none => .error (invalid "artifact path needs a filename")
  | some filename =>
      match stripSuffix "0002.CSV".toList (folded u filename.text) with
      | none => .error (invalid "unexpected artifact rollover filename")
      | some partPrefix => do
          let requestedParent ← normalizePath disk path.parentOrDot
          let family : VolumeFamily := ⟨base, folded u (pathText requestedParent), partPrefix⟩
          family.checkExistingVolumes disk u requestedParent
          return family

end VolumeFamily

structure Paths where
  reportPath : Text
  manifestPath : Option Text

def protectedPaths (checkpoint : Text) : List Text :=
  [checkpoint, checkpoint ++ ".lock".toList, checkpoint ++ ".parts".toList,
    checkpoint ++ ".completed".toList]

def relatives (manifest : Manifest) : List Text :=
  manifest.directories ++ manifest.files.map fun entry => entry.localPath

namespace Paths

def validatedFamilies (paths : Paths) : Except CliError (List VolumeFamily) := do
  let report ← VolumeFamily.new disk u (Path.ofText paths.reportPath)
  match paths.manifestPath with
  | none => return [report]
  | some path => do
      let manifest ← VolumeFamily.new disk u (Path.ofText path)
      ensure (¬ ((report.parent = manifest.parent ∧ report.partPrefix = manifest.partPrefix) ∨
          report.overlaps u manifest.base = true ∨ manifest.overlaps u report.base = true))
        (invalid "report and manifest volumes collide")
      return [report, manifest]

def checkTargets (families : List VolumeFamily) (destination : Resolved) :
    List Text → Except CliError Unit
  | [] => .ok ()
  | relative :: rest => do
      validateRelative u relative
      ensure (∀ family ∈ families, family.overlaps u (joinRelative destination relative) = false)
        (invalid "report/manifest volume collides with download mapping")
      checkTargets families destination rest

def checkProtected (families : List VolumeFamily) : List Text → Except CliError Unit
  | [] => .ok ()
  | path :: rest => do
      let protectedPath ← normalizePath disk (Path.ofText path)
      ensure (∀ family ∈ families, family.overlaps u protectedPath = false)
        (invalid "report/manifest volume collides with checkpoint/lock/recovery state")
      checkProtected families rest

def validateAgainstManifest (paths : Paths) (manifest : Manifest) (destination : Text)
    (checkpoint : Option Text) : Except CliError Unit := do
  let families ← paths.validatedFamilies disk u
  let destination ← normalizePath disk (Path.ofText destination)
  checkTargets u families destination (relatives manifest)
  match checkpoint with
  | none => return
  | some checkpoint => checkProtected disk u families (protectedPaths checkpoint)

end Paths

end Families

end VeStorage.ADrive.ShareArtifacts
