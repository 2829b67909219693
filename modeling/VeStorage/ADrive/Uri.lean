import VeStorage.Lib.Components
import VeStorage.Tos.LocalPath
import VeStorage.ADrive.Path
import VeStorage.ADrive.Pattern

namespace VeStorage.ADrive
open Lib
open Tos (CliError pathFileName)

structure ParsedADriveUri where
  inst : Text
  space : Text
  path : Text
deriving DecidableEq, Repr

def adriveScheme : Text := "adrive://".toList

def isADriveUri (uri : Text) : Bool := decide (adriveScheme <+: uri)

def parseAdriveUri (uri : Text) (allowInstanceOnly : Bool) : Except CliError ParsedADriveUri :=
  let expected : Except CliError ParsedADriveUri := .error (.validationError
    ("invalid A-Drive URI '".toList ++ uri ++ "': expected adrive://instance/space[/path]".toList))
  if isADriveUri uri then
    let first := splitOnce '/' (trimStartMatches adriveScheme uri)
    let second := splitOnce '/' (first.2.getD [])
    if first.1 = [] then .error (.validationError
      ("invalid A-Drive URI '".toList ++ uri ++ "': missing instance".toList))
    else if second.1 = [] then
      if allowInstanceOnly then .ok ⟨first.1, [], []⟩ else expected
    else .ok ⟨first.1, second.1, second.2.getD []⟩
  else expected

def formatTarget (target : ParsedADriveUri) : Text :=
  if target.space = [] then adriveScheme ++ target.inst
  else if target.path = [] then adriveScheme ++ target.inst ++ '/' :: target.space
  else adriveScheme ++ target.inst ++ '/' :: target.space ++ '/' :: target.path

def joinRemotePath (base relative : Text) : Text :=
  if trim '/' base = [] then trimStart '/' relative
  else if trimStart '/' relative = [] then trim '/' base
  else trim '/' base ++ '/' :: trimStart '/' relative

def remoteRelativePath (filePath rootPrefix : Text) : Text :=
  trimStart '/' ((stripPrefix rootPrefix filePath).getD filePath)

def prependAdriveParentPrefix (relative : Text) (parentPrefix : Option Text) : Text :=
  match parentPrefix with
  | some parent => joinRemotePath parent relative
  | none => relative

def recursiveAdriveRelativePath (filePath sourcePrefix : Text) (parentPrefix : Option Text) : Text :=
  prependAdriveParentPrefix (remoteRelativePath filePath sourcePrefix) parentPrefix

def recursiveAdriveSourceParentPrefix (source : Text) (includeParent : Bool) :
    Except CliError (Option Text) :=
  let missing : Except CliError (Option Text) := .error (.validationError
    "--include-parent requires a source directory or prefix with a final path segment".toList)
  if includeParent = false then .ok none
  else if isADriveUri source then do
    let parsed ← parseAdriveUri source true
    let name := ((trim '/' (trimFolderPrefix parsed.path)).splitOn '/').getLastD []
    if name = [] then missing else .ok (some name)
  else
    match (pathFileName source).filter (· ≠ []) with
    | some name => .ok (some name)
    | none => missing

-- What `joinRemotePath` puts in front of a relative path.
def joinBase (base : Text) : Text := if trim '/' base = [] then [] else trim '/' base ++ ['/']

def parentBase (parentPrefix : Option Text) : Text := (parentPrefix.map joinBase).getD []

theorem joinRemotePath_eq (base : Text) {relative : Text} (h : trimStart '/' relative ≠ []) :
    joinRemotePath base relative = joinBase base ++ trimStart '/' relative := by
  unfold joinRemotePath joinBase
  by_cases hb : trim '/' base = []
  · simp [hb]
  · simp [hb, h]

theorem trim_head_ne (base : Text) {c : Char} {rest : Text} (h : trim '/' base = c :: rest) :
    c ≠ '/' := by
  obtain ⟨more, hm⟩ : trim '/' base <+: trimStart '/' base := List.rdropWhile_prefix _ _
  rw [h, List.cons_append] at hm
  exact head_trimStart '/' c base _ hm.symm

theorem trimStart_joinBase (base rest : Text) (h : trimStart '/' rest = rest) :
    trimStart '/' (joinBase base ++ rest) = joinBase base ++ rest := by
  unfold joinBase
  split
  · exact h
  · cases hb : trim '/' base with
    | nil => contradiction
    | cons c cs => exact trimStart_of_head_ne (trim_head_ne base hb) _

theorem prependAdriveParentPrefix_eq (parentPrefix : Option Text) {relative : Text}
    (h : trimStart '/' relative = relative) (hne : relative ≠ []) :
    prependAdriveParentPrefix relative parentPrefix = parentBase parentPrefix ++ relative := by
  cases parentPrefix with
  | none => rfl
  | some parent => simp [prependAdriveParentPrefix, parentBase, joinRemotePath_eq, h, hne]

theorem trimStart_prepend (parentPrefix : Option Text) {relative : Text}
    (h : trimStart '/' relative = relative) (hne : relative ≠ []) :
    trimStart '/' (prependAdriveParentPrefix relative parentPrefix) =
      parentBase parentPrefix ++ relative := by
  rw [prependAdriveParentPrefix_eq parentPrefix h hne]
  cases parentPrefix with
  | none => exact h
  | some parent => exact trimStart_joinBase parent relative h

theorem joinRemotePath_prepend (base : Text) (parentPrefix : Option Text) {relative : Text}
    (h : trimStart '/' relative = relative) (hne : relative ≠ []) :
    joinRemotePath base (prependAdriveParentPrefix relative parentPrefix) =
      joinBase base ++ (parentBase parentPrefix ++ relative) := by
  have htrim := trimStart_prepend parentPrefix h hne
  rw [joinRemotePath_eq base (by simp [htrim, hne]), htrim]

theorem remoteRelativePath_append (rootPrefix rest : Text) :
    remoteRelativePath (rootPrefix ++ rest) rootPrefix = trimStart '/' rest := by
  simp [remoteRelativePath, stripPrefix_append]

theorem formatTarget_path {target : ParsedADriveUri} (hs : target.space ≠ []) (hp : target.path ≠ []) :
    formatTarget target = adriveScheme ++ target.inst ++ '/' :: target.space ++ '/' :: target.path := by
  simp [formatTarget, hs, hp]

theorem parseAdriveUri_space {uri : Text} {target : ParsedADriveUri}
    (h : parseAdriveUri uri false = .ok target) : target.space ≠ [] := by
  unfold parseAdriveUri at h
  simp only [Bool.false_eq_true, if_false] at h
  split at h
  · split at h
    · cases h
    · split at h
      · cases h
      · rename_i hs
        cases h
        exact hs
  · cases h

theorem sourceParent_plain {source parent : Text} {includeParent : Bool}
    (h : recursiveAdriveSourceParentPrefix source includeParent = .ok (some parent)) :
    '/' ∉ parent ∧ parent ≠ [] := by
  unfold recursiveAdriveSourceParentPrefix at h
  split at h
  · cases h
  split at h
  · obtain ⟨e, hparse⟩ | ⟨parsed, hparse⟩ : (∃ e, parseAdriveUri source true = .error e) ∨
        ∃ parsed, parseAdriveUri source true = .ok parsed := by
      cases parseAdriveUri source true with
      | error e => exact .inl ⟨e, rfl⟩
      | ok parsed => exact .inr ⟨parsed, rfl⟩
    · rw [hparse] at h
      cases h
    simp only [hparse, bind, Except.bind] at h
    split at h
    · cases h
    · rename_i hne
      cases h
      exact ⟨not_mem_last_splitOn '/' _, hne⟩
  · split at h
    · rename_i name hname
      cases h
      obtain ⟨hfile, hne⟩ := Option.filter_eq_some_iff.mp hname
      refine ⟨?_, by simpa using hne⟩
      unfold Tos.pathFileName at hfile
      split at hfile
      · cases hfile
      · rename_i s ss hs
        dsimp only at hfile
        split at hfile
        · cases hfile
        · cases hfile
          have hfree : ∀ x ∈ s :: ss, '/' ∉ x := by
            rw [← hs]
            exact fun x hx => not_mem_splitOn '/' _ x (List.mem_filter.mp hx).1
          exact hfree _ (List.getLast_mem _)
    · cases h

example : joinRemotePath "a/".toList "/b".toList = "a/b".toList := by decide

end VeStorage.ADrive
