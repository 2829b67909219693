import VeStorage.Lib.Text

namespace VeStorage.Tos
open Lib

inductive CliError where
  | validationError (message : Text)
  | conflict (message : Text)
  | transferFailed (message : Text)
  | io
  | http
deriving DecidableEq, Repr

structure ParsedTosUri where
  bucket : Text
  key : Option Text
deriving DecidableEq, Repr

def tosScheme : Text := "tos://".toList

def isTosUri (uri : Text) : Bool := decide (tosScheme <+: uri)

def invalidTosUri (uri : Text) (allowBucketOnly : Bool) : CliError :=
  .validationError ("invalid TOS URI '".toList ++ uri ++ "': expected ".toList ++
    if allowBucketOnly then "tos://bucket or tos://bucket/key".toList
    else "tos://bucket/key".toList)

def parseTosUri (uri : Text) (allowBucketOnly : Bool) : Except CliError ParsedTosUri :=
  if isTosUri uri then
    let parts := splitOnce '/' (trimStartMatches tosScheme uri)
    let key := parts.2.filter (· ≠ [])
    if parts.1 = [] ∨ (allowBucketOnly = false ∧ key = none) then
      .error (invalidTosUri uri allowBucketOnly)
    else .ok ⟨parts.1, key⟩
  else .error (.validationError ("invalid TOS URI '".toList ++ uri ++
    "': expected tos://bucket/key".toList))

def formatTosUri (bucket key : Text) : Text := tosScheme ++ (bucket ++ '/' :: key)

def BucketName (bucket : Text) : Prop := bucket ≠ [] ∧ '/' ∉ bucket ∧ bucket ≠ "tos:".toList

@[simp] theorem isTosUri_format (bucket key : Text) : isTosUri (formatTosUri bucket key) = true := by
  simp [isTosUri, formatTosUri]

theorem bucket_not_scheme {bucket : Text} (hb : BucketName bucket) (key : Text) :
    ¬ tosScheme <+: bucket ++ '/' :: key := by
  rintro ⟨s, hs⟩
  have hl := splitOnce_append (c := '/') (a := "tos:".toList) (by decide) ('/' :: s)
  have hr := splitOnce_append hb.2.1 key
  have he : "tos:".toList ++ '/' :: '/' :: s = bucket ++ '/' :: key := hs
  rw [he, hr] at hl
  exact hb.2.2 (congrArg Prod.fst hl)

theorem parseTosUri_format {bucket key : Text} (hb : BucketName bucket) (hk : key ≠ []) :
    parseTosUri (formatTosUri bucket key) false = .ok ⟨bucket, some key⟩ := by
  have ht : trimStartMatches tosScheme (formatTosUri bucket key) = bucket ++ '/' :: key :=
    trimStartMatches_append (by decide) (bucket_not_scheme hb key)
  simp [parseTosUri, ht, splitOnce_append hb.2.1, hb.1, hk]

theorem parseTosUri_bucket {uri : Text} {allow : Bool} {p : ParsedTosUri}
    (h : parseTosUri uri allow = .ok p) : p.bucket ≠ [] ∧ '/' ∉ p.bucket := by
  unfold parseTosUri at h
  split at h
  · simp only at h
    split at h
    · cases h
    · cases h
      exact ⟨fun he => by simp_all, splitOnce_fst_not_mem '/' _⟩
  · cases h

open Lib

def joinTosKey (pre key : Text) : Text :=
  match trim '/' pre, trimStart '/' key with
  | [], key => key
  | p :: ps, key => (p :: ps) ++ '/' :: key

def stripTosPrefix (key pre : Text) : Text :=
  trimStart '/' ((stripPrefix (trimStart '/' pre) key).getD key)

def normalizeRecursiveTosPrefix (pre : Option Text) : Text :=
  let p := trimStart '/' (pre.getD [])
  if p = [] ∨ ['/'] <:+ p then p else p ++ ['/']

def normalizeRecursiveTosTarget (target : ParsedTosUri) : ParsedTosUri :=
  { target with key := target.key.map fun key => normalizeRecursiveTosPrefix (some key) }

def prependParentPrefix (relativeKey : Text) (parentPrefix : Option Text) : Text :=
  match parentPrefix with
  | some parent => joinTosKey parent relativeKey
  | none => relativeKey

def lastSegment (t : Text) : Text := (t.splitOn '/').getLastD []

def pathFileName (path : Text) : Option Text :=
  match (path.splitOn '/').filter (fun s => s ≠ [] ∧ s ≠ ".".toList) with
  | [] => none
  | s :: ss =>
      let name := (s :: ss).getLast (by simp)
      if name = "..".toList then none else some name

def includeParentError : CliError :=
  .validationError
    "--include-parent requires a source directory or prefix with a final path segment".toList

def recursiveSourceParentPrefix (source : Text) (includeParent : Bool) :
    Except CliError (Option Text) :=
  if includeParent = false then .ok none
  else if isTosUri source then do
    let parsed ← parseTosUri source true
    let name := lastSegment (trim '/' (normalizeRecursiveTosPrefix parsed.key))
    if name = [] then .error includeParentError else .ok (some name)
  else
    match (pathFileName source).filter (· ≠ []) with
    | some name => .ok (some name)
    | none => .error includeParentError

def keyDepth (key : Text) : Nat := segmentDepth '/' key

def tosDeleteKeyIsDirectory (key : Text) : Bool := decide (['/'] <:+ key)

@[simp] theorem joinTosKey_trimStart (pre key : Text) :
    joinTosKey pre (trimStart '/' key) = joinTosKey pre key := by simp [joinTosKey]

theorem joinTosKey_of_trim_nil {pre : Text} (h : trim '/' pre = []) (key : Text) :
    joinTosKey pre key = trimStart '/' key := by simp [joinTosKey, h]

theorem joinTosKey_of_trim_ne_nil {pre : Text} (h : trim '/' pre ≠ []) (key : Text) :
    joinTosKey pre key = trim '/' pre ++ '/' :: trimStart '/' key := by
  cases ht : trim '/' pre with
  | nil => exact absurd ht h
  | cons p ps => simp [joinTosKey, ht]

theorem joinTosKey_inj {pre k k' : Text} (h : joinTosKey pre k = joinTosKey pre k') :
    trimStart '/' k = trimStart '/' k' := by
  by_cases hp : trim '/' pre = []
  · simpa only [joinTosKey_of_trim_nil hp] using h
  · rw [joinTosKey_of_trim_ne_nil hp, joinTosKey_of_trim_ne_nil hp] at h
    simpa using List.append_cancel_left h

theorem stripTosPrefix_append (pre rest : Text) :
    stripTosPrefix (trimStart '/' pre ++ rest) pre = trimStart '/' rest := by
  simp [stripTosPrefix, stripPrefix_append]

theorem normalizeRecursiveTosPrefix_trimStart (pre : Option Text) :
    trimStart '/' (normalizeRecursiveTosPrefix pre) = normalizeRecursiveTosPrefix pre := by
  unfold normalizeRecursiveTosPrefix
  simp only
  split
  · simp
  · cases ht : trimStart '/' (pre.getD []) with
    | nil => simp_all
    | cons x xs =>
      have hx := head_trimStart '/' x _ xs ht
      rw [List.cons_append, trimStart_of_head_ne hx]

example : stripTosPrefix "a//x".toList "a/".toList = stripTosPrefix "a/x".toList "a/".toList := by
  decide

end VeStorage.Tos
