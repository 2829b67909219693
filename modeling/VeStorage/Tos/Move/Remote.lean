import VeStorage.Tos.Plan
import VeStorage.Tos.Move.Args
import VeStorage.Tos.Move.StreamSafe

namespace VeStorage.Tos.Move
open Lib CopyDelete

section Selection

variable (args : MvArgs) (ctx : MvContext)

def MvContext.inScope (ctx : MvContext) (n : ObjectName) : Prop :=
  n.bucket = ctx.sourceTarget.bucket ∧ ctx.sourcePrefix <+: n.key

def relativeKey (key : Text) : Text :=
  prependParentPrefix (stripTosPrefix key ctx.sourcePrefix) ctx.parentPrefix

def selects (key : Text) : Bool :=
  patternAllows (relativeKey ctx key) args.includePattern args.excludePattern &&
    !(ctx.isHns && hasMoveFilters args && tosDeleteKeyIsDirectory key)

def plannedDestination (n : ObjectName) : Text :=
  planDestination ctx.target args.destination (relativeKey ctx n.key)

def transfer (n : ObjectName) : Transfer ObjectName :=
  ⟨n, objectName (plannedDestination args ctx n)⟩

def Selected {C : Type} (s0 : Store C) : Set (Transfer ObjectName) :=
  {t | s0 t.src ≠ none ∧ ctx.inScope t.src ∧ selects args ctx t.src.key = true ∧
    t = transfer args ctx t.src}

-- The names whose object the move may treat as a source of its own: a key it selects that
-- was there at the start, with `--no-manifest` any key a later page can list, and the marker
-- of an HNS source root.
def Claimable {C : Type} (noManifest : Bool) (s0 : Store C) (n : ObjectName) : Prop :=
  ctx.inScope n ∧ selects args ctx n.key = true ∧
    (s0 n ≠ none ∨ noManifest = true ∨ (ctx.isHns = true ∧ n.key = ctx.sourcePrefix))

structure KeepsApart {C : Type} (noManifest : Bool) (s0 : Store C) : Prop where
  agree : ∀ t ∈ Selected args ctx s0, ∀ t' ∈ Selected args ctx s0, ∀ d, t.dst = some d →
    t'.dst = some d → s0 t.src = s0 t'.src
  free : ∀ t ∈ Selected args ctx s0, ∀ d, t.dst = some d → ¬ Claimable args ctx noManifest s0 d

end Selection

section Remote

variable {C : Type} (etagOf : C → Text) (args : MvArgs) (ctx : MvContext)

def remoteOps (close : Option (Store C → Store C → Option Bool → Prop)) : Ops (Store C) CopyPhase where
  start := .head
  outcome := CopyPhase.outcome
  work := CopyRequest etagOf
  remove := fun item => DeleteTosObject etagOf (objectName item.source) item.etag
  close := close

def removeSourceRoot (bucket key : Text) (s s' : Store C) (ok : Bool) : Prop :=
  DeleteTosObject etagOf (nameOf bucket key) none s s' ok

def remoteClose (planned : List TransferPlanItem) :
    Option (Store C → Store C → Option Bool → Prop) :=
  if ctx.isHns then
    match tosRecursiveMoveSourceRoot args with
    | none => none
    | some (bucket, key, uri) =>
        if uri ∈ planned.map TransferPlanItem.source then none
        else some fun s s' r => ∃ ok, r = some ok ∧ removeSourceRoot etagOf bucket key s s' ok
  else none

def remoteRoot : Option (Text × (Store C → Store C → Bool → Prop)) :=
  if ctx.isHns then
    (tosRecursiveMoveSourceRoot args).map fun root =>
      (root.2.2, removeSourceRoot etagOf root.1 root.2.1)
  else none

def remoteStreamOps : StreamOps (Store C) CopyPhase ListedObject ObjectName where
  toOps := remoteOps etagOf none
  present := fun s n => s n ≠ none
  listed := fun s o => ∃ c, s o.name = some c ∧ ∀ t, o.etag = some t → t = etagOf c
  listedPlace := ListedObject.name
  inScope := ctx.inScope
  select := fun o => queueTosStreamMoveEntry args ctx o.entry
  defer := fun item => ctx.isHns && isMoveDirectory item
  arrange := sortUnmanifestedHnsDirectoryDeletesBottomUp
  root := remoteRoot etagOf args ctx
  prune := none

structure Listing (s0 : Store C) (entries : List ListedObject) : Prop where
  sound : ∀ o ∈ entries, ctx.inScope o.name ∧
    ∃ c, s0 o.name = some c ∧ ∀ t, o.etag = some t → t = etagOf c
  complete : ∀ n, ctx.inScope n → s0 n ≠ none → ∃ o ∈ entries, o.name = n

end Remote

section Runs

variable {C : Type} (etagOf : C → Text) (args : MvArgs)

-- A run of `execute_mv_recursive_tos` between two TOS locations: the store it has reached and,
-- once the command has returned, its exit code (`none` for an error).
inductive MvReaches (isHns noManifest : Bool) (limit : Nat) (s0 : Store C) :
    Store C → Option (Option Nat) → Prop
  | rejected (e) (h : validateRecursiveRemoteMove args = .error e) :
      MvReaches isHns noManifest limit s0 s0 (some none)
  | unparsed (e) (h : tosMoveContext args isHns = .error e) :
      MvReaches isHns noManifest limit s0 s0 (some none)
  | unplanned : MvReaches isHns noManifest limit s0 s0 (some none)
  | manifest (ctx entries planned) (b : Batch (Store C) CopyPhase) (hm : noManifest = false)
      (hv : validateRecursiveRemoteMove args = .ok ()) (hc : tosMoveContext args isHns = .ok ctx)
      (hl : Listing etagOf ctx s0 entries)
      (hp : planTosMove args ctx (entries.map ListedObject.entry) = .ok planned)
      (hr : Run (remoteOps etagOf (remoteClose etagOf args ctx planned)) limit
        (moveDeleteGroups planned isHns) (Batch.init s0 planned) b) :
      MvReaches isHns noManifest limit s0 b.world (b.stage.code)
  | streaming (ctx) (b : Stream (Store C) CopyPhase ListedObject ObjectName)
      (hm : noManifest = true) (hv : validateRecursiveRemoteMove args = .ok ())
      (hc : tosMoveContext args isHns = .ok ctx)
      (hr : StreamRun (remoteStreamOps etagOf args ctx) limit
        (Stream.init (fun s n => s n ≠ none) s0) b) :
      MvReaches isHns noManifest limit s0 b.world b.stage.code

end Runs

def place (item : TransferPlanItem) : Transfer ObjectName :=
  ⟨(objectName item.source).getD default, objectName item.destination⟩

section Items

variable {C : Type} {args : MvArgs} {ctx : MvContext}

theorem tosMoveItem_source {o : ListedObject} (h : ctx.inScope o.name) :
    (tosMoveItem args ctx o.entry).source = o.name.uri := by
  simp [tosMoveItem, tosSourceItem, ListedObject.entry, ObjectName.uri, h.1]

theorem place_tosMoveItem {o : ListedObject} (h : ctx.inScope o.name) :
    place (tosMoveItem args ctx o.entry) = transfer args ctx o.name := by
  unfold place
  rw [tosMoveItem_source h, objectName_uri]
  rfl

theorem sortKey_uri {item : TransferPlanItem} {n : ObjectName} (h : item.source = n.uri) :
    tosMoveDeleteSortKey item = n.key := by
  simp [tosMoveDeleteSortKey, h, ObjectName.uri, parseTosUri_format n.bucket_ok n.key_ne_nil]

theorem selects_iff {o : ListedObject} (h : ctx.inScope o.name) :
    (itemAllowed args (tosMoveItem args ctx o.entry) = true ∧
      isFilteredHnsMoveDirectory args ctx.isHns (tosMoveItem args ctx o.entry) = false) ↔
    selects args ctx o.name.key = true := by
  unfold isFilteredHnsMoveDirectory
  rw [sortKey_uri (tosMoveItem_source h)]
  simp only [selects, Bool.and_eq_true, Bool.not_eq_true', itemAllowed]
  rfl

theorem transfer_src_inj {s0 : Store C} {t t' : Transfer ObjectName}
    (ht : t ∈ Selected args ctx s0) (ht' : t' ∈ Selected args ctx s0) (h : t.src = t'.src) :
    t.dst = t'.dst := by
  rw [ht.2.2.2, ht'.2.2.2, h]

theorem KeepsApart.separated {noManifest : Bool} {s0 : Store C}
    (h : KeepsApart args ctx noManifest s0) : Separated (Selected args ctx s0) s0 where
  src_inj := fun _ ht _ => transfer_src_inj ht
  dst_agree := h.agree
  dst_ne_src := fun t ht _ ht' hd =>
    h.free t ht _ hd ⟨ht'.2.1, ht'.2.2.1, .inl ht'.1⟩

end Items

section Refinement

variable {C : Type} {etagOf : C → Text} {args : MvArgs} {ctx : MvContext} {s0 : Store C}

theorem copyRequest_effect {item : TransferPlanItem} {s s' : Store C} {p p' : CopyPhase}
    (h : CopyRequest etagOf item s p s' p') :
    (s' = s ∧ (p'.outcome = some true → p.outcome = some true)) ∨
      ∃ d c, (place item).dst = some d ∧ s (place item).src = some c ∧
        s' = Function.update s d (some c) := by
  cases h with
  | failed h => exact .inl ⟨rfl, by simp [CopyPhase.outcome]⟩
  | head n c hn hd hc => exact .inl ⟨rfl, by simp [CopyPhase.outcome]⟩
  | copy n d c ok hn hd hc => exact .inr ⟨d, c, hd, by simpa [place, hn] using hc, rfl⟩

theorem delete_effect {item : TransferPlanItem} {s s' : Store C} {ok : Bool}
    (h : DeleteTosObject etagOf (objectName item.source) item.etag s s' ok) :
    s' = s ∨ s' = Function.update s (place item).src none := by
  rcases h.effect with h | ⟨n, hn, h⟩
  · exact .inl h
  · exact .inr (by simpa [place, hn] using h)

theorem tosMoveContext_spec {isHns : Bool} (h : tosMoveContext args isHns = .ok ctx) :
    ctx.isHns = isHns ∧ ∃ source, parseTosUri args.source true = .ok source ∧
      ctx.sourceTarget = normalizeRecursiveTosTarget source := by
  unfold tosMoveContext at h
  cases hs : parseTosUri args.source true with
  | error e =>
    rw [hs] at h
    cases h
  | ok source =>
    cases hp : recursiveSourceParentPrefix args.source args.includeParent with
    | error e =>
      rw [hs, hp] at h
      cases h
    | ok parent =>
      cases ht : parseDestination args.destination with
      | error e =>
        rw [hs, hp, ht] at h
        cases h
      | ok target =>
        rw [hs, hp, ht] at h
        cases h
        exact ⟨rfl, source, rfl, rfl⟩

theorem sourceRoot_spec {isHns : Bool} (h : tosMoveContext args isHns = .ok ctx)
    {bucket key uri : Text} (hr : tosRecursiveMoveSourceRoot args = some (bucket, key, uri)) :
    hasMoveFilters args = false ∧ bucket = ctx.sourceTarget.bucket ∧ key = ctx.sourcePrefix := by
  obtain ⟨-, source, hs, hctx⟩ := tosMoveContext_spec h
  unfold tosRecursiveMoveSourceRoot at hr
  split at hr
  · cases hr
  · rename_i hf
    rw [hs] at hr
    simp only at hr
    split at hr
    · cases hr
    · rename_i rawKey hk
      split at hr
      · cases hr
      · cases hr
        simp [MvContext.sourcePrefix, hctx, normalizeRecursiveTosTarget, hk, hf]

theorem selects_unfiltered (h : hasMoveFilters args = false) (key : Text) :
    selects args ctx key = true := by
  obtain ⟨hi, he⟩ : args.includePattern = none ∧ args.excludePattern = none := by
    simpa [hasMoveFilters] using h
  simp [selects, h, hi, he, patternAllows_none]

theorem selected_of_present {n : ObjectName} (hn : ctx.inScope n) (h0 : s0 n ≠ none)
    (hs : selects args ctx n.key = true) : transfer args ctx n ∈ Selected args ctx s0 :=
  ⟨h0, hn, hs, rfl⟩

theorem removeSourceRoot_inv {isHns noManifest : Bool} (hc : tosMoveContext args isHns = .ok ctx)
    (hns : ctx.isHns = true) (hk : KeepsApart args ctx noManifest s0) {bucket key uri : Text}
    (hr : tosRecursiveMoveSourceRoot args = some (bucket, key, uri)) {s s' : Store C} {ok : Bool}
    {copied : Set (Transfer ObjectName)}
    (hinv : CopyDelete.Inv (Selected args ctx s0) s0 s copied)
    (hall : Selected args ctx s0 ⊆ copied)
    (h : removeSourceRoot etagOf bucket key s s' ok) :
    ∃ copied', copied ⊆ copied' ∧ CopyDelete.Inv (Selected args ctx s0) s0 s' copied' := by
  obtain ⟨hf, rfl, rfl⟩ := sourceRoot_spec hc hr
  rcases h.effect with rfl | ⟨n, hn, rfl⟩
  · exact ⟨copied, subset_rfl, hinv⟩
  · obtain ⟨hbucket, hkey⟩ := nameOf_eq_some hn
    have hscope : ctx.inScope n := ⟨hbucket, hkey ▸ List.prefix_rfl⟩
    have hsel : selects args ctx n.key = true := selects_unfiltered hf n.key
    refine hinv.delete_settled hk.separated hall (fun t ht hd => ?_) fun h0 => ?_
    · exact hk.free t ht n hd ⟨hscope, hsel, .inr (.inr ⟨hns, hkey⟩)⟩
    · exact ⟨_, selected_of_present hscope h0 hsel, rfl⟩

theorem remoteOps_refines {close : Option (Store C → Store C → Option Bool → Prop)}
    (hclose : ∀ {act s s' r copied}, close = some act →
      CopyDelete.Inv (Selected args ctx s0) s0 s copied → Selected args ctx s0 ⊆ copied →
      act s s' r → ∃ copied', copied ⊆ copied' ∧
        CopyDelete.Inv (Selected args ctx s0) s0 s' copied') :
    Refines (remoteOps etagOf close) id place (Selected args ctx s0) s0 fun _ => True where
  start := by simp [remoteOps, CopyPhase.outcome]
  work := fun _ _ h => ⟨trivial, copyRequest_effect h⟩
  remove := fun _ _ h => ⟨trivial, delete_effect h⟩
  close := fun ha _ hinv hall h => ⟨trivial, hclose ha hinv hall h⟩

theorem remoteClose_inv {isHns : Bool} (hc : tosMoveContext args isHns = .ok ctx)
    (hk : KeepsApart args ctx false s0) {planned : List TransferPlanItem}
    {act : Store C → Store C → Option Bool → Prop} {s s' : Store C} {r : Option Bool}
    {copied : Set (Transfer ObjectName)} (ha : remoteClose etagOf args ctx planned = some act)
    (hinv : CopyDelete.Inv (Selected args ctx s0) s0 s copied)
    (hall : Selected args ctx s0 ⊆ copied) (h : act s s' r) :
    ∃ copied', copied ⊆ copied' ∧ CopyDelete.Inv (Selected args ctx s0) s0 s' copied' := by
  unfold remoteClose at ha
  split at ha
  · rename_i hns
    split at ha
    · cases ha
    · rename_i bucket key uri hr
      split at ha
      · cases ha
      · cases ha
        obtain ⟨ok, -, hrm⟩ := h
        exact removeSourceRoot_inv hc hns hk hr hinv hall hrm
  · cases ha

theorem queue_some {o : ListedObject} (hs : ctx.inScope o.name) {r : Option TransferPlanItem}
    (h : queueTosStreamMoveEntry args ctx o.entry = .ok r) {item : TransferPlanItem} :
    r = some item ↔ item = tosMoveItem args ctx o.entry ∧ selects args ctx o.name.key = true := by
  rw [queueTosStreamMoveEntry_some h, ← selects_iff hs]
  constructor
  · rintro ⟨rfl, h⟩
    exact ⟨rfl, h⟩
  · rintro ⟨rfl, h⟩
    exact ⟨rfl, h⟩

theorem remoteStream_refines {isHns : Bool} (hc : tosMoveContext args isHns = .ok ctx)
    (hk : KeepsApart args ctx true s0) :
    StreamRefines (remoteStreamOps etagOf args ctx) id place (Selected args ctx s0) s0
      fun _ => True where
  toRefines := remoteOps_refines (by simp)
  present_iff := fun _ => Iff.rfl
  listed_present := by
    rintro w o - ⟨c, hc, -⟩
    simp [remoteStreamOps, hc]
  select_src := by
    intro o item h hs
    obtain ⟨rfl, -⟩ := (queue_some hs h).mp rfl
    rw [place_tosMoveItem hs]
    rfl
  select_items := by
    intro o item h hs h0
    obtain ⟨rfl, hsel⟩ := (queue_some hs h).mp rfl
    rw [place_tosMoveItem hs]
    exact selected_of_present hs h0 hsel
  items_scope := fun ht => ⟨ht.1, ht.2.1⟩
  items_select := by
    intro t o r ht hsrc h
    obtain ⟨-, hscope, hsel, htr⟩ := ht
    have hname : o.name = t.src := hsrc
    rw [← hname] at hscope hsel htr
    refine ⟨_, (queue_some hscope h).mpr ⟨rfl, hsel⟩, ?_⟩
    rw [place_tosMoveItem hscope, htr]
  fresh := by
    intro t o item ht hs h hd
    obtain ⟨-, hsel⟩ := (queue_some hs h).mp rfl
    exact hk.free t ht _ hd ⟨hs, hsel, .inr (.inl rfl)⟩
  arrange_mem := fun h => List.mem_mergeSort.mp h
  root := by
    intro uri act w w' ok copied hr _ hinv hall h
    simp only [remoteStreamOps, remoteRoot] at hr
    split at hr
    · rename_i hns
      simp only [Option.map_eq_some_iff] at hr
      obtain ⟨⟨bucket, key, uri'⟩, hroot, he⟩ := hr
      cases he
      exact ⟨trivial, removeSourceRoot_inv hc hns hk hroot hinv hall h⟩
    · cases hr
  prune := by simp [remoteStreamOps]

theorem planned_place {entries : List ListedObject} {planned : List TransferPlanItem}
    (hl : Listing etagOf ctx s0 entries)
    (hp : planTosMove args ctx (entries.map ListedObject.entry) = .ok planned) :
    (∀ item ∈ planned, place item ∈ Selected args ctx s0) ∧
      ∀ t ∈ Selected args ctx s0, ∃ item ∈ planned, place item = t := by
  constructor
  · intro item hi
    obtain ⟨e, he, rfl, hsel⟩ := (mem_planTosMove hp).mp hi
    obtain ⟨o, ho, rfl⟩ := List.mem_map.mp he
    obtain ⟨hscope, c, h0, -⟩ := hl.sound o ho
    rw [place_tosMoveItem hscope]
    exact selected_of_present hscope (by simp [h0]) ((selects_iff hscope).mp hsel)
  · rintro t ⟨h0, hscope, hsel, ht⟩
    obtain ⟨o, ho, hname⟩ := hl.complete t.src hscope h0
    rw [← hname] at hscope hsel ht
    refine ⟨tosMoveItem args ctx o.entry, (mem_planTosMove hp).mpr
      ⟨o.entry, List.mem_map_of_mem ho, rfl, (selects_iff hscope).mpr hsel⟩, ?_⟩
    rw [place_tosMoveItem hscope, ht]

end Refinement

section Safety

variable {C : Type} {etagOf : C → Text} {args : MvArgs}

structure MoveSafe (ctx : MvContext) (args : MvArgs) (s0 s : Store C)
    (code : Option (Option Nat)) : Prop where
  kept : Kept (Selected args ctx s0) s0 s
  framed : Framed (Selected args ctx s0) s0 s
  delivered : code = some (some 0) → Delivered (Selected args ctx s0) s0 s

theorem Stage.code_zero {stage : Stage} (h : stage.code = some (some 0)) :
    stage = .finished (some 0) := by
  cases stage with
  | finished code => simpa [Stage.code] using h
  | copying => cases h
  | deleting => cases h
  | closing => cases h

theorem StreamStage.code_zero {stage : StreamStage} (h : stage.code = some (some 0)) :
    stage = .finished (some 0) := by
  cases stage with
  | finished code => simpa [StreamStage.code] using h
  | streaming => cases h
  | draining => cases h
  | directories => cases h
  | closing => cases h

theorem MoveSafe.start (ctx : MvContext) (s0 : Store C) {code : Option (Option Nat)}
    (h : code ≠ some (some 0)) : MoveSafe ctx args s0 s0 code where
  kept := fun _ _ => .inl rfl
  framed := fun _ _ => rfl
  delivered := fun hc => absurd hc h

theorem mv_keeps_objects {isHns noManifest : Bool} {limit : Nat} {s0 s : Store C}
    {code : Option (Option Nat)} {ctx : MvContext} (hctx : tosMoveContext args isHns = .ok ctx)
    (hk : KeepsApart args ctx noManifest s0)
    (h : MvReaches etagOf args isHns noManifest limit s0 s code) :
    MoveSafe ctx args s0 s code := by
  cases h with
  | rejected e he => exact MoveSafe.start ctx s0 (by simp)
  | unparsed e he => exact MoveSafe.start ctx s0 (by simp)
  | unplanned => exact MoveSafe.start ctx s0 (by simp)
  | manifest ctx' entries planned b hm hv hc hl hp hr =>
    obtain rfl : ctx' = ctx := Except.ok.inj (hc.symm.trans hctx)
    subst hm
    obtain ⟨hplace, hcover⟩ := planned_place hl hp
    obtain ⟨hkept, hframed, -, hdone⟩ :=
      run_safe (remoteOps_refines (remoteClose_inv hc hk)) hk.separated hplace hcover
        (moveDeleteGroups_subset planned isHns) rfl trivial hr
    exact ⟨hkept, hframed, fun h0 => hdone (Stage.code_zero h0)⟩
  | streaming ctx' b hm hv hc hr =>
    obtain rfl : ctx' = ctx := Except.ok.inj (hc.symm.trans hctx)
    subst hm
    obtain ⟨hkept, hframed, -, hdone⟩ :=
      stream_run_safe (remoteStream_refines hc hk) hk.separated rfl trivial hr
    exact ⟨hkept, hframed, fun h0 => hdone (StreamStage.code_zero h0)⟩

def nestedArgs : MvArgs :=
  ⟨"tos://b/a/".toList, "tos://b/".toList, false, none, none, .ok ()⟩

def nestedContext : MvContext :=
  ⟨⟨"b".toList, some "a/".toList⟩, some ⟨"b".toList, none⟩, none, false⟩

theorem bucketName_b : BucketName "b".toList := by decide

def inBucket (key : Text) (h : key ≠ []) : ObjectName := ⟨"b".toList, key, bucketName_b, h⟩

def innerName : ObjectName := inBucket "a/a/x".toList (by decide)

def outerName : ObjectName := inBucket "a/x".toList (by decide)

def movedName : ObjectName := inBucket "x".toList (by decide)

def sizeTag (n : Nat) : Text := List.replicate n 'e'

def listedOf (n : ObjectName) (c : Nat) : ListedObject := ⟨n, c, none, some (sizeTag c)⟩

def nestedStore : Store Nat :=
  Function.update (Function.update (fun _ => none) innerName (some 1)) outerName (some 2)

def nestedEntries : List ListedObject := [listedOf innerName 1, listedOf outerName 2]

def innerItem : TransferPlanItem := tosMoveItem nestedArgs nestedContext (listedOf innerName 1).entry

def outerItem : TransferPlanItem := tosMoveItem nestedArgs nestedContext (listedOf outerName 2).entry

theorem nested_listing : Listing sizeTag nestedContext nestedStore nestedEntries where
  sound := by
    simp only [nestedEntries, List.mem_cons, List.not_mem_nil, or_false]
    rintro o (rfl | rfl)
    · exact ⟨⟨rfl, by decide⟩, 1, by decide, by rintro t ⟨⟩; rfl⟩
    · exact ⟨⟨rfl, by decide⟩, 2, by decide, by rintro t ⟨⟩; rfl⟩
  complete := by
    intro n _ h
    by_cases ho : n = outerName
    · exact ⟨listedOf outerName 2, by simp [nestedEntries], ho.symm⟩
    · by_cases hi : n = innerName
      · exact ⟨listedOf innerName 1, by simp [nestedEntries], hi.symm⟩
      · simp [nestedStore, ho, hi] at h

def nestedEnd : Store Nat :=
  Function.update (Function.update (Function.update nestedStore outerName (some 1)) movedName (some 1))
    innerName none

theorem nested_run :
    Run (remoteOps sizeTag none) 1 (moveDeleteGroups [innerItem, outerItem] false)
      (Batch.init nestedStore [innerItem, outerItem])
      ⟨nestedEnd, [], [], 1, false, .finished (some 1)⟩ := by
  refine .head (.launch _ _ _ _ _ _ (by decide)) ?_
  refine .head (.work _ _ _ _ _ _ [] [] _ _
    (.head _ innerName 1 (by decide) (by decide) (by decide))) ?_
  refine .head (.work _ _ _ _ _ _ [] [] _ _
    (.copy _ innerName outerName 1 true (by decide) (by decide) (by decide))) ?_
  refine .head (.record _ _ _ true _ [] [] _ _ false rfl) ?_
  refine .head (.launch _ _ _ _ _ _ (by decide)) ?_
  refine .head (.work _ _ _ _ _ _ [] [] _ _
    (.head _ outerName 1 (by decide) (by decide) (by decide))) ?_
  refine .head (.work _ _ _ _ _ _ [] [] _ _
    (.copy _ outerName movedName 1 true (by decide) (by decide) (by decide))) ?_
  refine .head (.record _ _ _ true _ [] [] _ _ false rfl) ?_
  refine .head (.beginDeletes _) ?_
  refine .head (.nextGroup _ _ _ _ _) ?_
  refine .head (.launchDelete _ _ _ _ _ _ (by decide)) ?_
  refine .head (.remove _ _ _ true _ _ [] [] _ _
    (.removed _ innerName 1 _ (by decide) (by decide) (by rintro t ⟨⟩; rfl))) ?_
  refine .head (.recordDelete _ _ _ _ _ [] [] _ _ false) ?_
  refine .head (.launchDelete _ _ _ _ _ _ (by decide)) ?_
  -- the object at `a/x` no longer has the listed ETag
  refine .head (.remove _ _ _ false _ _ [] [] _ _ (.failed _)) ?_
  refine .head (.recordDelete _ _ _ _ _ [] [] _ _ false) ?_
  refine .head (.endDeletes _ _ _) ?_
  exact .single (.closeSkipped _ _ _ false (.inl rfl))

theorem mv_to_parent_loses :
    ∃ s, MvReaches sizeTag nestedArgs false false 1 nestedStore s (some (some 1)) ∧
      ¬ MoveSafe nestedContext nestedArgs nestedStore s (some (some 1)) := by
  refine ⟨nestedEnd, .manifest nestedContext nestedEntries [innerItem, outerItem] _ rfl rfl rfl
    nested_listing rfl nested_run, fun h => ?_⟩
  have hsel : transfer nestedArgs nestedContext outerName ∈
      Selected nestedArgs nestedContext nestedStore :=
    selected_of_present ⟨rfl, by decide⟩ (by decide) (by decide)
  rcases h.kept _ hsel with hs | ⟨d, hd, hs⟩
  · exact absurd hs (by decide)
  · obtain rfl : movedName = d := Option.some.inj ((by decide : some movedName = _).trans hd)
    exact absurd hs (by decide)

def plainArgs : MvArgs :=
  ⟨"tos://b/a/".toList, "tos://b/c".toList, false, none, none, .ok ()⟩

def plainContext : MvContext :=
  ⟨⟨"b".toList, some "a/".toList⟩, some ⟨"b".toList, some "c".toList⟩, none, false⟩

def otherName : ObjectName := inBucket "a/y".toList (by decide)

def plainStore : Store Nat :=
  Function.update (Function.update (fun _ => none) outerName (some 1)) otherName (some 2)

def plainName : ObjectName := inBucket "c/x".toList (by decide)

def plainOther : ObjectName := inBucket "c/y".toList (by decide)

def plainItem : TransferPlanItem := tosMoveItem plainArgs plainContext (listedOf outerName 1).entry

def otherItem : TransferPlanItem := tosMoveItem plainArgs plainContext (listedOf otherName 2).entry

def plainEnd : Store Nat :=
  Function.update (Function.update (Function.update (Function.update plainStore plainOther (some 2))
    plainName (some 1)) outerName none) otherName none

theorem plain_present {n : ObjectName} (h : plainStore n ≠ none) : n = outerName ∨ n = otherName := by
  by_contra hne
  rw [not_or] at hne
  simp [plainStore, hne.1, hne.2] at h

theorem plain_moved {t : Transfer ObjectName} (h : t ∈ Selected plainArgs plainContext plainStore) :
    (t.src = outerName ∧ t.dst = some plainName) ∨ t.src = otherName ∧ t.dst = some plainOther := by
  obtain ⟨hpresent, -, -, he⟩ := h
  rcases plain_present hpresent with hsrc | hsrc
  · refine .inl ⟨hsrc, ?_⟩
    rw [he, hsrc]
    decide
  · refine .inr ⟨hsrc, ?_⟩
    rw [he, hsrc]
    decide

theorem plain_apart : KeepsApart plainArgs plainContext false plainStore where
  agree := by
    intro t ht t' ht' d hd hd'
    have hdst : t.dst = t'.dst := hd.trans hd'.symm
    rcases plain_moved ht with ⟨hsrc, hto⟩ | ⟨hsrc, hto⟩ <;>
      rcases plain_moved ht' with ⟨hsrc', hto'⟩ | ⟨hsrc', hto'⟩
    · rw [hsrc, hsrc']
    · exact absurd ((hto.symm.trans hdst).trans hto') (by decide)
    · exact absurd ((hto.symm.trans hdst).trans hto') (by decide)
    · rw [hsrc, hsrc']
  free := by
    intro t ht d hd hclaim
    rcases plain_moved ht with ⟨-, hto⟩ | ⟨-, hto⟩
    · obtain rfl := Option.some.inj (hto.symm.trans hd)
      exact absurd hclaim.1.2 (by decide)
    · obtain rfl := Option.some.inj (hto.symm.trans hd)
      exact absurd hclaim.1.2 (by decide)

theorem plain_listing :
    Listing sizeTag plainContext plainStore [listedOf outerName 1, listedOf otherName 2] where
  sound := by
    simp only [List.mem_cons, List.not_mem_nil, or_false]
    rintro o (rfl | rfl)
    · exact ⟨⟨rfl, by decide⟩, 1, by decide, by rintro t ⟨⟩; rfl⟩
    · exact ⟨⟨rfl, by decide⟩, 2, by decide, by rintro t ⟨⟩; rfl⟩
  complete := by
    intro n _ h
    rcases plain_present h with rfl | rfl
    · exact ⟨_, List.mem_cons_self, rfl⟩
    · exact ⟨_, List.mem_cons_of_mem _ (List.mem_singleton_self _), rfl⟩

-- Both copies are under way at once, and so are both deletes.
theorem plain_reaches :
    MvReaches sizeTag plainArgs false false 2 plainStore plainEnd (some (some 0)) := by
  refine .manifest plainContext [listedOf outerName 1, listedOf otherName 2] [plainItem, otherItem]
    ⟨plainEnd, [], [], 0, false, .finished (some 0)⟩ rfl rfl rfl plain_listing rfl ?_
  refine .head (.launch _ _ _ _ _ _ (by decide)) ?_
  refine .head (.launch _ _ _ _ _ _ (by decide)) ?_
  refine .head (.work _ _ _ _ _ _ [] [_] _ _ (.head _ outerName 1 (by decide) (by decide) (by decide))) ?_
  refine .head (.work _ _ _ _ _ _ [_] [] _ _ (.head _ otherName 2 (by decide) (by decide) (by decide))) ?_
  refine .head (.work _ _ _ _ _ _ [_] [] _ _
    (.copy _ otherName plainOther 2 true (by decide) (by decide) (by decide))) ?_
  refine .head (.work _ _ _ _ _ _ [] [_] _ _
    (.copy _ outerName plainName 1 true (by decide) (by decide) (by decide))) ?_
  refine .head (.record _ _ _ true _ [_] [] _ _ false rfl) ?_
  refine .head (.record _ _ _ true _ [] [] _ _ false rfl) ?_
  refine .head (.beginDeletes _) ?_
  refine .head (.nextGroup _ _ _ _ _) ?_
  refine .head (.launchDelete _ _ _ _ _ _ (by decide)) ?_
  refine .head (.launchDelete _ _ _ _ _ _ (by decide)) ?_
  refine .head (.remove _ _ _ true _ _ [] [_] _ _
    (.removed _ outerName 1 _ (by decide) (by decide) (by rintro t ⟨⟩; rfl))) ?_
  refine .head (.remove _ _ _ true _ _ [_] [] _ _
    (.removed _ otherName 2 _ (by decide) (by decide) (by rintro t ⟨⟩; rfl))) ?_
  refine .head (.recordDelete _ _ _ _ _ [] [_] _ _ false) ?_
  refine .head (.recordDelete _ _ _ _ _ [] [] _ _ false) ?_
  refine .head (.endDeletes _ _ _) ?_
  exact .single (.closeSkipped _ _ _ false (.inl rfl))

theorem mv_keeps_objects_plain :
    MoveSafe plainContext plainArgs plainStore plainEnd (some (some 0)) :=
  mv_keeps_objects rfl plain_apart plain_reaches

end Safety

end VeStorage.Tos.Move
