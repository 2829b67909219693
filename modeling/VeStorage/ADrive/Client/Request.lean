import VeStorage.Lib.Url

namespace VeStorage.ADrive.Client
open Lib Percent
open Lib.Url (slash question hash pathCode queryCode Segment pathText splitPath Undotted
  readSegments)

inductive Method
  | get
  | head
  | post
  | put
  | delete
deriving DecidableEq, Repr

structure Call where
  method : Method
  path : Bytes
deriving DecidableEq, Repr

def fileCall (method : Method) (suffix : String) (inst space path : Bytes) : Call where
  method := method
  path := ascii "/v1/instances/" ++ inst ++ ascii "/spaces/" ++ space ++ ascii "/files/" ++ path ++
    ascii suffix

def folderCall (method : Method) (inst space path : Bytes) : Call where
  method := method
  path := ascii "/v1/instances/" ++ inst ++ ascii "/spaces/" ++ space ++ ascii "/folders/" ++ path

def putFile : Bytes → Bytes → Bytes → Call := fileCall .post ""

def getFile : Bytes → Bytes → Bytes → Call := fileCall .get ""

def headFile : Bytes → Bytes → Bytes → Call := fileCall .head ""

def deleteFile : Bytes → Bytes → Bytes → Call := fileCall .delete ""

def renameFile : Bytes → Bytes → Bytes → Call := fileCall .post ":rename"

def copyFile : Bytes → Bytes → Bytes → Call := fileCall .post ":copy"

def initiateMultipartUpload : Bytes → Bytes → Bytes → Call := fileCall .post ":initiateMultipart"

def uploadPart : Bytes → Bytes → Bytes → Call := fileCall .put ":uploadPart"

def completeMultipartUpload : Bytes → Bytes → Bytes → Call := fileCall .post ":completeMultipart"

def abortMultipartUpload : Bytes → Bytes → Bytes → Call := fileCall .delete ":abortMultipart"

def deleteFolder : Bytes → Bytes → Bytes → Call := folderCall .delete

def renameFolder : Bytes → Bytes → Bytes → Call := folderCall .post

inductive Operation
  | putFile
  | getFile
  | headFile
  | deleteFile
  | renameFile
  | copyFile
  | initiateMultipartUpload
  | uploadPart
  | completeMultipartUpload
  | abortMultipartUpload
  | deleteFolder
  | renameFolder
deriving DecidableEq, Repr

structure Target where
  operation : Operation
  inst : Bytes
  space : Bytes
  path : Bytes
deriving DecidableEq, Repr

def Operation.call : Operation → Bytes → Bytes → Bytes → Call
  | .putFile => Client.putFile
  | .getFile => Client.getFile
  | .headFile => Client.headFile
  | .deleteFile => Client.deleteFile
  | .renameFile => Client.renameFile
  | .copyFile => Client.copyFile
  | .initiateMultipartUpload => Client.initiateMultipartUpload
  | .uploadPart => Client.uploadPart
  | .completeMultipartUpload => Client.completeMultipartUpload
  | .abortMultipartUpload => Client.abortMultipartUpload
  | .deleteFolder => Client.deleteFolder
  | .renameFolder => Client.renameFolder

def Target.call (target : Target) : Call :=
  target.operation.call target.inst target.space target.path

def uriEncode (input : Bytes) (encodeSlash : Bool) : Bytes :=
  if encodeSlash then queryCode.encode input else pathCode.encode input

def encodePath (path : Bytes) : Bytes := if path = [] then [slash] else uriEncode path false

-- The scheme with the authority, and the path that follows them.
structure Endpoint where
  origin : Bytes
  base : List Segment
  question_not_mem : question ∉ origin

theorem Endpoint.eq_iff (a b : Endpoint) : a = b ↔ a.origin = b.origin ∧ a.base = b.base := by
  cases a
  cases b
  simp

instance : DecidableEq Endpoint := fun a b => decidable_of_iff' _ (a.eq_iff b)

structure Url where
  origin : Bytes
  path : List Bytes
  query : Option Bytes
deriving DecidableEq, Repr

def Url.parse (origin path : Bytes) : Url :=
  ⟨origin, Lib.Url.resolve (splitPath path), none⟩

def Url.asStr (url : Url) : Bytes :=
  url.origin ++ url.path.flatMap (slash :: ·) ++
    match url.query with
    | some query => question :: query
    | none => []

abbrev Query := List (Str × Str)

def Query.pairs (query : Query) : List (Bytes × Bytes) :=
  query.map fun pair => (pair.1.bytes, pair.2.bytes)

def requestUrl (endpoint : Endpoint) (path : Bytes) (query : Option Query) : Url :=
  let url := Url.parse endpoint.origin (pathText endpoint.base ++ encodePath path)
  match query with
  | some query => { url with query := some (Lib.Url.render formCode.encode query.pairs) }
  | none => url

def requestInstanceId (path : Bytes) (query : Option Query) : Option Bytes :=
  let pathInstance := (stripPrefix (ascii "/v1/instances/") path).bind fun remaining =>
    let inst := (splitOnce slash remaining).1
    if inst = [] then none else some inst
  pathInstance.orElse fun _ => query.bind fun query =>
    (query.find? fun pair => asciiLower pair.1.bytes = asciiLower (ascii "instanceId")).map
      (·.2.bytes)

def Operation.collection : Operation → Bytes
  | .deleteFolder | .renameFolder => ascii "folders"
  | _ => ascii "files"

def Operation.suffix : Operation → Bytes
  | .renameFile => ascii ":rename"
  | .copyFile => ascii ":copy"
  | .initiateMultipartUpload => ascii ":initiateMultipart"
  | .uploadPart => ascii ":uploadPart"
  | .completeMultipartUpload => ascii ":completeMultipart"
  | .abortMultipartUpload => ascii ":abortMultipart"
  | _ => []

def Target.name (target : Target) : Bytes := target.path ++ target.operation.suffix

-- The segments a request names: its ids whole, its path with the operation at the end.
def Target.segments (target : Target) : List Bytes :=
  [ascii "v1", ascii "instances", target.inst, ascii "spaces", target.space,
    target.operation.collection] ++ target.name.splitOn slash

-- The segments of the text that the request is built from.
def Target.pieces (target : Target) : List Bytes :=
  [ascii "v1", ascii "instances"] ++ target.inst.splitOn slash ++ [ascii "spaces"] ++
    target.space.splitOn slash ++ [target.operation.collection] ++ target.name.splitOn slash

open Lib Percent
open Lib.Url (slash pathCode pathText splitPath Undotted readSegments Segment)

variable {target : Target} {endpoint : Endpoint} {query : Option Query} {s : Bytes}

def Url.segments (url : Url) : List Bytes := readSegments url.path

-- The instance that the path of a URL names.
def Url.inst (url : Url) : Option Bytes :=
  match url.segments with
  | first :: second :: inst :: _ =>
      if first = ascii "v1" ∧ second = ascii "instances" ∧ inst ≠ [] then some inst else none
  | _ => none

theorem call_path (target : Target) :
    target.call.path = slash :: (ascii "v1" ++ slash :: (ascii "instances" ++ slash ::
      (target.inst ++ slash :: (ascii "spaces" ++ slash :: (target.space ++ slash ::
        (target.operation.collection ++ slash :: target.name)))))) := by
  obtain ⟨operation, inst, space, path⟩ := target
  have hinstances : ascii "/v1/instances/" =
      slash :: (ascii "v1" ++ slash :: (ascii "instances" ++ [slash])) := by decide
  have hspaces : ascii "/spaces/" = slash :: (ascii "spaces" ++ [slash]) := by decide
  have hfiles : ascii "/files/" = slash :: (ascii "files" ++ [slash]) := by decide
  have hfolders : ascii "/folders/" = slash :: (ascii "folders" ++ [slash]) := by decide
  have hnone : ascii "" = [] := rfl
  cases operation
  all_goals
    simp only [Target.call, Operation.call, putFile, getFile, headFile, deleteFile, renameFile,
      copyFile, initiateMultipartUpload, uploadPart, completeMultipartUpload, abortMultipartUpload,
      deleteFolder, renameFolder, fileCall, folderCall, Operation.collection, Target.name,
      Operation.suffix, hinstances, hspaces, hfiles, hfolders, hnone, List.cons_append,
      List.append_assoc, List.nil_append, List.append_nil]

theorem collection_plain (operation : Operation) : slash ∉ operation.collection := by
  cases operation <;> decide

theorem splitOn_call_path (target : Target) :
    target.call.path = slash :: target.call.path.drop 1 ∧
      (target.call.path.drop 1).splitOn slash = target.pieces := by
  rw [call_path, List.drop_one, List.tail_cons,
    List.splitOn_append_cons_self_of_not_mem (by decide),
    List.splitOn_append_cons_self_of_not_mem (by decide), List.splitOn_append_cons_self,
    List.splitOn_append_cons_self_of_not_mem (by decide), List.splitOn_append_cons_self,
    List.splitOn_append_cons_self_of_not_mem (collection_plain target.operation)]
  exact ⟨rfl, by simp [Target.pieces]⟩

theorem mem_pieces (target : Target) : ∀ piece ∈ target.pieces, slash ∉ piece := by
  rw [← (splitOn_call_path target).2]
  exact not_mem_splitOn slash _

theorem pieces_ne_nil (target : Target) : target.pieces ≠ [] := by simp [Target.pieces]

theorem encodePath_call_eq (target : Target) :
    encodePath target.call.path = slash :: pathCode.encode (target.call.path.drop 1) := by
  have hslash := (splitOn_call_path target).1
  have hne : target.call.path ≠ [] := by simp [call_path]
  rw [encodePath, if_neg hne, uriEncode, if_neg (by decide)]
  conv_lhs => rw [hslash]
  exact Lib.Url.pathCode_componentwise.map_append [] _

theorem requestUrl_path (endpoint : Endpoint) (target : Target) (query : Option Query) :
    (requestUrl endpoint target.call.path query).path =
      Lib.Url.resolve (endpoint.base.map Segment.bytes ++ target.pieces.map pathCode.encode) := by
  have hpath : (requestUrl endpoint target.call.path query).path =
      (Url.parse endpoint.origin (pathText endpoint.base ++ encodePath target.call.path)).path := by
    cases query with
    | none => rfl
    | some query => rfl
  rw [hpath, Url.parse, encodePath_call_eq, Lib.Url.splitPath_pathText,
    Lib.Url.pathCode_componentwise.splitOn_map, (splitOn_call_path target).2]

structure PlainTarget (endpoint : Endpoint) (target : Target) : Prop where
  base : Lib.Url.normalize (endpoint.base.map Segment.bytes) = []
  inst : slash ∉ target.inst
  space : slash ∉ target.space
  undotted : Undotted target.segments

theorem pieces_eq_segments (hinst : slash ∉ target.inst) (hspace : slash ∉ target.space) :
    target.pieces = target.segments := by
  rw [Target.pieces, Target.segments, List.splitOn_eq_singleton hinst,
    List.splitOn_eq_singleton hspace]
  rfl

theorem PlainTarget.path (h : PlainTarget endpoint target) (query : Option Query) :
    (requestUrl endpoint target.call.path query).path = target.segments.map pathCode.encode := by
  have hpieces := pieces_eq_segments h.inst h.space
  rw [requestUrl_path, Lib.Url.resolve_encode (pieces_ne_nil target) h.base (hpieces ▸ h.undotted),
    hpieces]

theorem segments_iff : (requestUrl endpoint target.call.path query).segments = target.segments ↔
    PlainTarget endpoint target := by
  constructor
  · intro h
    have hmem : ∀ s ∈ target.segments, (s ≠ ascii "." ∧ s ≠ ascii "..") ∧ slash ∉ s := by
      intro s hs
      rw [← h, Url.segments, requestUrl_path] at hs
      exact Lib.Url.mem_readSegments (mem_pieces target) hs
    have hinst := (hmem target.inst (by simp [Target.segments])).2
    have hspace := (hmem target.space (by simp [Target.segments])).2
    rw [Url.segments, requestUrl_path, ← pieces_eq_segments hinst hspace,
      Lib.Url.readSegments_resolve (pieces_ne_nil target) (mem_pieces target)] at h
    exact ⟨h.1, hinst, hspace, fun s hs => (hmem s hs).1⟩
  · intro h
    rw [Url.segments, h.path query, Lib.Url.readSegments_encode]

end VeStorage.ADrive.Client
