import VeStorage.Lib.Collision
import VeStorage.Lib.Components
import VeStorage.ADrive.Pattern
import VeStorage.ADrive.Share.Journal

namespace VeStorage.ADrive.Share
open Lib
open Lib.Crash (ensure ensure_eq_ok bind_eq_ok)

-- `char::to_uppercase` and the NFD of a whole text; `/` has no decomposition, no case and no
-- combining class, and no other character turns into it.
structure Unicode where
  toUppercase : Char → Text
  nfd : Text → Text
  upper_slash : toUppercase '/' = ['/']
  upper_other : ∀ c, c ≠ '/' → '/' ∉ toUppercase c
  nfd_append : ∀ a b, nfd (a ++ '/' :: b) = nfd a ++ '/' :: nfd b
  nfd_other : ∀ a, '/' ∉ a → '/' ∉ nfd a

def invalid (message : String) : CliError := .validation message

def utf8Len (t : Text) : Nat := (t.map Char.utf8Size).sum

def isControl (c : Char) : Bool := c.toNat < 32 || (127 ≤ c.toNat && c.toNat ≤ 159)

variable (u : Unicode)

def Unicode.uppercase (t : Text) : Text := t.flatMap u.toUppercase

def Unicode.fold (t : Text) : Text := u.uppercase (u.nfd t)

def isDevice (component : Text) : Bool :=
  let base := u.uppercase ((component.splitOn '.').headD [])
  base ∈ ["CON".toList, "PRN".toList, "AUX".toList, "NUL".toList] ||
    (utf8Len base = 4 && ("COM".toList <+: base || "LPT".toList <+: base) &&
      base[3]?.any Char.isDigit)

def isUnsafeComponent (component : Text) : Bool :=
  component = [] || component = ".".toList || component = "..".toList ||
    (['.'] <:+ component || [' '] <:+ component) || isDevice u component ||
    component.any fun letter => isControl letter || letter ∈ "\\:<>\"|?*".toList

def validateRelative (path : Text) : Except CliError Unit := do
  ensure (¬ (path = [] ∨ utf8Len path > 4096 ∨ (path.splitOn '/').length > 64))
    (invalid "download path is empty or exceeds path/depth limit")
  ensure (∀ component ∈ path.splitOn '/', isUnsafeComponent u component = false)
    (invalid "unsafe or non-portable download path")

def stripSlash (path : Text) : Text := if ['/'] <:+ path then path.dropLast else path

namespace MappingPolicy

def includesParent : MappingPolicy → Bool
  | .legacy => true
  | .cp isIncludeParent _ _ => isIncludeParent
  | .spaceRoot _ _ _ => false

def isSpaceRoot : MappingPolicy → Bool
  | .spaceRoot _ _ _ => true
  | _ => false

def matchesPath : MappingPolicy → Text → Bool
  | .legacy, _ => true
  | .cp _ includePattern excludePattern, path
  | .spaceRoot _ includePattern excludePattern, path =>
      pathMatchesFilters path includePattern excludePattern

def validateOptions (policy : MappingPolicy) (isIncludeParent : Bool)
    (includePattern excludePattern : Option Text) : Except CliError Unit :=
  have isMatching := match policy with
    | .legacy => isIncludeParent && includePattern.isNone && excludePattern.isNone
    | .cp recorded recordedInclude recordedExclude
    | .spaceRoot recorded recordedInclude recordedExclude =>
        decide (recorded = isIncludeParent) && decide (recordedInclude = includePattern) &&
          decide (recordedExclude = excludePattern)
  ensure (isMatching = true)
    (invalid "manifest mapping or filtering policy differs from this download")

end MappingPolicy

structure MappingIndex where
  roots : List Text
  policy : MappingPolicy

def isOk {α : Type} : Except CliError α → Bool
  | .ok _ => true
  | .error _ => false

def MappingIndex.root (mapping : MappingIndex) (path : Text) : Option Text :=
  if mapping.policy.isSpaceRoot && decide (['/'] ∈ mapping.roots) &&
      (decide (path = ['/']) || isOk (validateRelative u (stripSlash path))) then some ['/']
  else
    ((List.range path.length).findSome? fun offset =>
      if path[offset]? = some '/' ∧ path.take (offset + 1) ∈ mapping.roots
      then some (path.take (offset + 1)) else none).or
    (if path ∈ mapping.roots then some path else none)

def rootName (root : Text) : Text := ((trimEnd '/' root).splitOn '/').getLastD []

def MappingIndex.localPath (mapping : MappingIndex) (path : Text) : Except CliError Text :=
  match mapping.root u path with
  | none => .error (invalid "path is outside manifest roots")
  | some root =>
    if root = ['/'] then
      if path = ['/'] then .ok [] else do
        validateRelative u (stripSlash path)
        return stripSlash path
    else
      let suffix := trimEnd '/' ((stripPrefix root path).getD [])
      let mapped :=
        if ¬ ['/'] <:+ root ∨ mapping.policy.includesParent = true then
          if suffix = [] then rootName root else rootName root ++ '/' :: suffix
        else suffix
      if mapped = [] then .ok mapped else do
        validateRelative u mapped
        return mapped

def RemoteFile.validate (remote : RemoteFile) : Except CliError Unit := do
  validateRelative u remote.path
  ensure (¬ (utf8Len remote.etag > 1024 ∨ remote.etag.any isControl = true))
    (invalid "invalid remote ETag")

abbrev PathMap := List (Text × Claimed Text)

-- The entries that `insert_path` makes for one path: its prefixes, all but the last as parents.
def pathItems (path : Text) (isDirectory : Bool) : List (Claimed Text) :=
  let components := path.splitOn '/'
  (List.range components.length).map fun count =>
    (join '/' (components.take (count + 1)), decide (count + 1 < components.length) || isDirectory)

def insertPath (paths : PathMap) (path : Text) (isDirectory : Bool) : Except CliError PathMap := do
  validateRelative u path
  match claimAll u.fold paths (pathItems path isDirectory) with
  | some paths => return paths
  | none => .error (invalid "download paths collide (case, Unicode, or file/directory)")

-- The parents that the filters need, from `path` or its parent upwards.
def localParents (path : Text) (isDirectory : Bool) : List Text :=
  ((if isDirectory then prefixes '/' path else (prefixes '/' path).dropLast).reverse).takeWhile
    fun current => current ≠ []

namespace Manifest

variable (m : Manifest)

def mapping : MappingIndex := ⟨m.roots, m.policy⟩

def represented : List Text := m.remoteDirectories ++ m.files.map fun entry => entry.remote.path

def validateRootsFrom (seen : List Text) : List Text → Except CliError Unit
  | [] => .ok ()
  | root :: rest => do
      validateRelative u (stripSlash root)
      let mapped ← m.mapping.localPath u root
      let needsTarget := decide (m.policy = .legacy) ||
        (decide (mapped ≠ []) && m.policy.matchesPath mapped)
      ensure (¬ (root ∈ seen ∨ (needsTarget = true ∧ root ∉ m.represented)))
        (invalid "duplicate or unrepresented manifest root")
      validateRootsFrom (root :: seen) rest

def validateRoots : Except CliError Unit :=
  if m.policy.isSpaceRoot = true then
    ensure (m.roots = [['/']]) (invalid "Space-root manifest must declare exactly `/`")
  else m.validateRootsFrom u [] m.roots

def validateDirectoriesFrom (seenRemote seenLocal : List Text) :
    List (Text × Text) → Except CliError Unit
  | [] => .ok ()
  | (remote, localPath) :: rest => do
      ensure (¬ (¬ ['/'] <:+ remote ∨ remote ∈ seenRemote ∨ localPath ∈ seenLocal))
        (invalid "invalid or duplicate directory mapping")
      validateRelative u (stripSlash remote)
      ensure (localPath ≠ []) (invalid "directory mapping differs from remote roots")
      let mapped ← m.mapping.localPath u remote
      ensure (mapped = localPath) (invalid "directory mapping differs from remote roots")
      validateDirectoriesFrom (remote :: seenRemote) (localPath :: seenLocal) rest

def validateRootsAndDirectories : Except CliError Unit := do
  ensure (m.remoteDirectories.length = m.directories.length)
    (invalid "directory mapping count differs")
  m.validateRoots u
  m.validateDirectoriesFrom u [] [] (m.remoteDirectories.zip m.directories)

def expectedDirectories : List Text :=
  (m.files.flatMap fun entry => localParents entry.localPath false) ++
    (m.directories.filter m.policy.matchesPath).flatMap fun directory => localParents directory true

def validateDirectoryPolicy : Except CliError Unit :=
  if m.policy = .legacy then .ok () else do
    ensure (∀ entry ∈ m.files, m.policy.matchesPath entry.localPath = true)
      (invalid "manifest file violates its filter policy")
    ensure (m.directories ⊆ m.expectedDirectories ∧ m.expectedDirectories ⊆ m.directories)
      (invalid "manifest directories violate filters or omit necessary parents")

def insertDirectories : PathMap → List Text → Except CliError PathMap
  | paths, [] => .ok paths
  | paths, directory :: rest => do
      let paths ← insertPath u paths directory true
      insertDirectories paths rest

def insertFiles (seen : List Text) : PathMap → List Entry → Except CliError PathMap
  | paths, [] => .ok paths
  | paths, entry :: rest => do
      entry.remote.validate u
      ensure (entry.remote.path ∉ seen) (invalid "invalid or duplicate manifest remote mapping")
      let mapped ← m.mapping.localPath u entry.remote.path
      ensure (mapped = entry.localPath) (invalid "invalid or duplicate manifest remote mapping")
      let paths ← insertPath u paths entry.localPath false
      insertFiles (entry.remote.path :: seen) paths rest

def sumSizes (total : Nat) : List Entry → Except CliError Unit
  | [] => .ok ()
  | entry :: rest => do
      ensure (total + entry.remote.size ≤ u64Max) (invalid "manifest total byte size overflows u64")
      sumSizes (total + entry.remote.size) rest

def validate : Except CliError Unit := do
  m.validateRootsAndDirectories u
  m.validateDirectoryPolicy
  let paths ← insertDirectories u [] m.directories
  let _ ← m.insertFiles u [] paths m.files
  sumSizes 0 m.files

def validateOptions (isIncludeParent : Bool) (includePattern excludePattern : Option Text) :
    Except CliError Unit :=
  m.policy.validateOptions isIncludeParent includePattern excludePattern

def isValidExactSelection (selection : Text) : Except CliError Bool := do
  let mapped ← m.mapping.localPath u selection
  let expectedCount := (m.policy.matchesPath mapped).toNat
  return decide (m.directories = []) && decide (m.files.length = expectedCount) &&
    m.files.all fun entry => entry.remote.path = selection

def validateSelection (selection : Option Text) (isRecursive : Bool) : Except CliError Unit := do
  ensure (¬ (isRecursive = false ∧ (m.directories ≠ [] ∨ ∃ root ∈ m.roots, ['/'] <:+ root)))
    (invalid "directory manifest requires recursive policy")
  match selection with
  | none => return
  | some selection =>
    ensure (m.roots = [selection]) (invalid "manifest roots differ from selected target")
    if ['/'] <:+ selection then
      ensure (¬ (isRecursive = false ∨ (m.policy = .legacy ∧ selection ∉ m.remoteDirectories)))
        (invalid "selected directory is absent or nonrecursive")
    else do
      let isExact ← m.isValidExactSelection u selection
      ensure (isExact = true)
        (invalid "exact file selection must contain exactly that file and no directories")

end Manifest

end VeStorage.ADrive.Share
