import VeStorage.Tos.Filter

namespace VeStorage.Tos
open Lib

structure ObjectEntry where
  key : Text
  size : Nat
  lastModified : Option Text
  etag : Option Text
deriving DecidableEq, Repr

structure TransferPlanItem where
  relativeKey : Text
  source : Text
  destination : Text
  size : Nat
  etag : Option Text
  lastModified : Option Text
deriving DecidableEq, Repr

def pathJoin (base rel : Text) : Text :=
  if ['/'] <+: rel then rel
  else if base = [] ∨ ['/'] <:+ base then base ++ rel
  else base ++ '/' :: rel

def parseDestination (destination : Text) : Except CliError (Option ParsedTosUri) :=
  if isTosUri destination then (parseTosUri destination true).map some else .ok none

def planDestination (target : Option ParsedTosUri) (destination relativeKey : Text) : Text :=
  match target with
  | some target => formatTosUri target.bucket (joinTosKey (target.key.getD []) relativeKey)
  | none => pathJoin destination relativeKey

def tosSourceItem (sourceTarget : ParsedTosUri) (sourcePrefix destination : Text)
    (target : Option ParsedTosUri) (parentPrefix : Option Text) (entry : ObjectEntry) :
    TransferPlanItem :=
  let relativeKey := prependParentPrefix (stripTosPrefix entry.key sourcePrefix) parentPrefix
  { relativeKey := relativeKey
    source := formatTosUri sourceTarget.bucket entry.key
    destination := planDestination target destination relativeKey
    size := entry.size
    etag := entry.etag
    lastModified := entry.lastModified }

def buildTosSourceTransferItems (sourceTarget : ParsedTosUri) (sourcePrefix destination : Text)
    (parentPrefix : Option Text) (entries : List ObjectEntry) :
    Except CliError (List TransferPlanItem) := do
  let target ← parseDestination destination
  .ok (entries.map (tosSourceItem sourceTarget sourcePrefix destination target parentPrefix))

def tosStreamCopyItem (sourceTarget : ParsedTosUri) (sourcePrefix destination : Text)
    (parentPrefix : Option Text) (entry : ObjectEntry) : Except CliError TransferPlanItem := do
  let target ← parseDestination destination
  .ok (tosSourceItem sourceTarget sourcePrefix destination target parentPrefix entry)

open Lib

instance (bucket : Text) : Decidable (BucketName bucket) :=
  inferInstanceAs (Decidable (bucket ≠ [] ∧ '/' ∉ bucket ∧ bucket ≠ "tos:".toList))

structure ObjectName where
  bucket : Text
  key : Text
  bucket_ok : BucketName bucket
  key_ne_nil : key ≠ []
deriving DecidableEq

instance : Inhabited ObjectName := ⟨"b".toList, "k".toList, by decide, by decide⟩

abbrev Store (C : Type) := ObjectName → Option C

def nameOf (bucket key : Text) : Option ObjectName :=
  if h : BucketName bucket ∧ key ≠ [] then some ⟨bucket, key, h.1, h.2⟩ else none

def objectName (uri : Text) : Option ObjectName :=
  match parseTosUri uri false with
  | .ok target => nameOf target.bucket (target.key.getD [])
  | .error _ => none

def ObjectName.uri (n : ObjectName) : Text := formatTosUri n.bucket n.key

@[simp] theorem nameOf_name (n : ObjectName) : nameOf n.bucket n.key = some n := by
  simp [nameOf, n.bucket_ok, n.key_ne_nil]

@[simp] theorem objectName_uri (n : ObjectName) : objectName n.uri = some n := by
  simp [objectName, ObjectName.uri, parseTosUri_format n.bucket_ok n.key_ne_nil]

theorem nameOf_eq_some {bucket key : Text} {n : ObjectName} (h : nameOf bucket key = some n) :
    n.bucket = bucket ∧ n.key = key := by
  unfold nameOf at h
  split at h
  · cases h
    exact ⟨rfl, rfl⟩
  · cases h

structure ListedObject where
  name : ObjectName
  size : Nat
  lastModified : Option Text
  etag : Option Text

def ListedObject.entry (o : ListedObject) : ObjectEntry :=
  ⟨o.name.key, o.size, o.lastModified, o.etag⟩

section Requests

variable {C : Type} (etagOf : C → Text)

inductive CopyPhase where
  | head
  | copy (etag : Text)
  | done (ok : Bool)

def CopyPhase.outcome : CopyPhase → Option Bool
  | .done ok => some ok
  | _ => none

-- The requests of `copy_tos_to_tos`; a reply can also be lost after the copy took effect.
inductive CopyRequest (item : TransferPlanItem) : Store C → CopyPhase → Store C → CopyPhase → Prop
  | failed (s p) (h : p.outcome = none) : CopyRequest item s p s (.done false)
  | head (s n c) (hn : objectName item.source = some n) (hd : objectName item.destination ≠ none)
      (hc : s n = some c) : CopyRequest item s .head s (.copy (etagOf c))
  | copy (s n d c ok) (hn : objectName item.source = some n)
      (hd : objectName item.destination = some d) (hc : s n = some c) :
      CopyRequest item s (.copy (etagOf c)) (Function.update s d (some c)) (.done ok)

inductive DeleteTosObject (name : Option ObjectName) (etag : Option Text) :
    Store C → Store C → Bool → Prop
  | failed (s) : DeleteTosObject name etag s s false
  | absent (s n ok) (hn : name = some n) (hc : s n = none) : DeleteTosObject name etag s s ok
  | removed (s n c ok) (hn : name = some n) (hc : s n = some c)
      (he : ∀ t, etag = some t → t = etagOf c) :
      DeleteTosObject name etag s (Function.update s n none) ok

theorem DeleteTosObject.effect {name : Option ObjectName} {etag : Option Text} {s s' : Store C}
    {ok : Bool} (h : DeleteTosObject etagOf name etag s s' ok) :
    s' = s ∨ ∃ n, name = some n ∧ s' = Function.update s n none := by
  cases h with
  | failed => exact .inl rfl
  | absent => exact .inl rfl
  | removed n c ok hn hc he => exact .inr ⟨n, hn, rfl⟩

end Requests

end VeStorage.Tos
