import VeStorage.Tos.Sync.Plan

namespace VeStorage.Tos.Sync
open Lib

inductive Place where
  | object (uri : Text)
  | file (names : List Text)

section Spec

variable (args : SyncArgs) (ctx : SyncContext) (st : SyncState)

def destinationPlace (path : Text) : Place :=
  if isTosUri args.destination then .object path else .file (resolvePath st.cwd path)

def sourcePlaces : Set Place :=
  if isTosUri args.source then
    {p | ∃ e ∈ st.sourceEntries, p = .object (formatTosUri ctx.source.bucket e.key)}
  else
    {p | ∃ rel, (rel ∈ st.sourceFiles ∨ ∃ node ∈ st.sourceNodes, node.rel = rel) ∧
      p = .file (resolvePath st.cwd args.source ++ rel.names)}

def DeleteAllowed (d : DeleteExtra) : Prop :=
  if isTosUri args.source = false ∧ isTosUri args.destination = true then
    ∃ key, d.source = formatTosUri ctx.rawDestination.bucket key ∧
      syncRemoteKeyMatches args ctx key = true
  else allows args d.relativeKey = true

def InsideDestination (d : DeleteExtra) : Prop :=
  if isTosUri args.destination then
    ∃ key, d.source = formatTosUri ctx.rawDestination.bucket key ∧ ctx.destinationPrefix <+: key
  else resolvePath st.cwd args.destination <+: resolvePath st.cwd d.source

-- A directory object is kept while a planned key or an excluded destination key lies below it.
def AncestorsKept (d : DeleteExtra) : Prop :=
  ∀ key, d.source = formatTosUri ctx.rawDestination.bucket key → ['/'] <:+ key →
    (∀ item ∈ (buildLocalUploadSyncPlan args ctx st.sourceNodes).planned, ¬ key <+: item.key) ∧
      ∀ e ∈ st.destinationEntries, syncRemoteKeyMatches args ctx e.key = false → ¬ key <+: e.key

structure SyncSafe : Prop where
  not_planned : ∀ d ∈ (syncPlan args ctx st).deletes, ∀ c ∈ (syncPlan args ctx st).copies,
    destinationPlace args st d.source ≠ destinationPlace args st c.destination
  not_source : ∀ d ∈ (syncPlan args ctx st).deletes,
    destinationPlace args st d.source ∉ sourcePlaces args ctx st
  filtered : ∀ d ∈ (syncPlan args ctx st).deletes, DeleteAllowed args ctx d
  inside : ∀ d ∈ (syncPlan args ctx st).deletes, InsideDestination args ctx st d
  ancestors : isTosUri args.source = false → isTosUri args.destination = true →
    ∀ d ∈ (syncPlan args ctx st).deletes, AncestorsKept args ctx st d

def Dotted (key : Text) : Prop :=
  (key.splitOn '/').head? = some ".".toList ∨ "..".toList ∈ segments '/' key

-- Where a destination entry can be mistaken for an extra. A local upload has no such case.
structure SyncApart : Prop where
  local_copies : isTosUri args.source = false → isTosUri args.destination = false →
    ∀ rel ∈ st.destinationFiles.getD [], allows args (slashed rel.text) = true →
      rel ∈ st.sourceFiles → allows args (localRelativeKey ctx rel) = true →
      ∃ s ∈ st.sourceFiles, pathComponents (localRelativeKey ctx s) = (false, rel.names)
  local_overlap : isTosUri args.source = false → isTosUri args.destination = false →
    ∀ rel ∈ st.destinationFiles.getD [], allows args (slashed rel.text) = true →
      .file (resolvePath st.cwd args.destination ++ rel.names) ∈ sourcePlaces args ctx st →
      ∃ s ∈ st.sourceFiles, pathComponents (localRelativeKey ctx s) = (false, rel.names)
  download_dots : isTosUri args.source = true → isTosUri args.destination = false →
    ∀ rel ∈ st.destinationFiles.getD [], allows args (slashed rel.text) = true →
      ∀ e ∈ st.sourceEntries, allows args (tosRelativeKey ctx e.key) = true →
      Dotted (tosRelativeKey ctx e.key) →
      resolvePath (resolvePath st.cwd args.destination) (tosRelativeKey ctx e.key) =
        resolvePath st.cwd args.destination ++ rel.names →
      ∃ s ∈ st.sourceEntries, pathComponents (tosRelativeKey ctx s.key) = (false, rel.names)
  remote_overlap : isTosUri args.source = true → isTosUri args.destination = true →
    ctx.source.bucket = ctx.rawDestination.bucket → ∀ e ∈ st.destinationEntries,
      allows args (stripTosPrefix e.key ctx.destinationPrefix) = true →
      e.key ∈ st.sourceEntries.map ObjectEntry.key →
      ∃ s ∈ st.sourceEntries, joinTosKey ctx.destinationPrefix (tosRelativeKey ctx s.key) = e.key

-- TOS returns only keys under the requested prefix.
def DestinationListed : Prop := ∀ e ∈ st.destinationEntries, ctx.destinationPrefix <+: e.key

end Spec

section Context

variable {args : SyncArgs} {ctx : SyncContext}

theorem syncContext_spec (h : syncContext args = .ok ctx) :
    ∃ source, parseEnd args.source = .ok source ∧
      parseEnd args.destination = .ok ctx.rawDestination ∧
      recursiveSourceParentPrefix args.source args.includeParent = .ok ctx.parentPrefix ∧
      ctx.source = normalizeRecursiveTosTarget source := by
  unfold syncContext at h
  cases hs : parseEnd args.source with
  | error e =>
    rw [hs] at h
    cases h
  | ok source =>
    cases hd : parseEnd args.destination with
    | error e =>
      rw [hs, hd] at h
      cases h
    | ok destination =>
      cases hp : recursiveSourceParentPrefix args.source args.includeParent with
      | error e =>
        rw [hs, hd, hp] at h
        cases h
      | ok parent =>
        rw [hs, hd, hp] at h
        cases h
        exact ⟨source, rfl, rfl, rfl, rfl⟩

theorem parseEnd_bucket {uri : Text} {p : ParsedTosUri} (h : parseEnd uri = .ok p) :
    '/' ∉ p.bucket := by
  unfold parseEnd at h
  split at h
  · exact (parseTosUri_bucket h).2
  · cases h
    simp

theorem destination_bucket (h : syncContext args = .ok ctx) : '/' ∉ ctx.rawDestination.bucket := by
  obtain ⟨source, -, hd, -⟩ := syncContext_spec h
  exact parseEnd_bucket hd

theorem source_bucket (h : syncContext args = .ok ctx) : '/' ∉ ctx.source.bucket := by
  obtain ⟨source, hs, -, -, hc⟩ := syncContext_spec h
  have hb : '/' ∉ source.bucket := parseEnd_bucket hs
  rw [hc]
  exact hb

theorem formatTosUri_inj {b b' k k' : Text} (hb : '/' ∉ b) (hb' : '/' ∉ b')
    (h : formatTosUri b k = formatTosUri b' k') : b = b' ∧ k = k' := by
  have hcancel : b ++ '/' :: k = b' ++ '/' :: k' := List.append_cancel_left h
  have hsplit := congrArg (splitOnce '/') hcancel
  rw [splitOnce_append hb, splitOnce_append hb'] at hsplit
  simpa using hsplit

theorem trim_normalize (key : Option Text) :
    trim '/' (normalizeRecursiveTosPrefix key) = trim '/' (key.getD []) := by
  unfold trim
  rw [normalizeRecursiveTosPrefix_trimStart]
  unfold normalizeRecursiveTosPrefix
  simp only
  split
  · rfl
  · exact trimEnd_append_self '/' _

theorem joinTosKey_destinationPrefix (key : Text) :
    joinTosKey ctx.destinationPrefix key = joinTosKey (ctx.rawDestination.key.getD []) key := by
  have htrim : trim '/' ctx.destinationPrefix = trim '/' (ctx.rawDestination.key.getD []) := by
    unfold SyncContext.destinationPrefix normalizeRecursiveTosTarget
    cases ctx.rawDestination.key with
    | none => rfl
    | some k => exact trim_normalize (some k)
  simp only [joinTosKey, htrim]

theorem relative_of_trim (t : Text) : ¬ ['/'] <+: trimStart '/' t := by
  rintro ⟨r, hr⟩
  exact head_trimStart '/' '/' t r hr.symm rfl

theorem joinTosKey_relative (pre key : Text) : ¬ ['/'] <+: joinTosKey pre key := by
  by_cases hp : trim '/' pre = []
  · rw [joinTosKey_of_trim_nil hp]
    exact relative_of_trim key
  · rw [joinTosKey_of_trim_ne_nil hp]
    rintro ⟨r, hr⟩
    obtain ⟨c, cs, hc⟩ := List.exists_cons_of_ne_nil hp
    rw [hc] at hr
    obtain ⟨rfl, -⟩ := List.cons.inj hr
    have hpre : trimEnd '/' (trimStart '/' pre) <+: trimStart '/' pre := List.rdropWhile_prefix _ _
    rw [show trimEnd '/' (trimStart '/' pre) = '/' :: cs from hc] at hpre
    obtain ⟨s, hs⟩ := hpre
    exact head_trimStart '/' '/' pre _ hs.symm rfl

theorem tosRelativeKey_relative (key : Text) : ¬ ['/'] <+: tosRelativeKey ctx key := by
  unfold tosRelativeKey prependParentPrefix
  split
  · exact joinTosKey_relative _ _
  · exact relative_of_trim _

end Context

section Upload

variable {args : SyncArgs} {ctx : SyncContext}

def Protected (desired : List Text) (pre key : Text) : Prop :=
  ∀ p, p <+: key → ['/'] <:+ p → pre <+: p → p ∈ desired

theorem Protected.mono {desired desired' : List Text} {pre key : Text} (hs : desired ⊆ desired')
    (h : Protected desired pre key) : Protected desired' pre key :=
  fun p hp hd hpre => hs (h p hp hd hpre)

theorem Protected.below {desired : List Text} {pre key key' : Text} (hk : key' <+: key)
    (h : Protected desired pre key) : Protected desired pre key' :=
  fun p hp => h p (hp.trans hk)

theorem protectTosKeyAncestors_protected (desired : List Text) (key pre : Text) :
    Protected (protectTosKeyAncestors desired key pre) pre key := by
  intro p hp hd hpre
  refine List.mem_append_right _ (List.mem_filter.mpr ⟨(List.mem_inits _ _).mpr hp, ?_⟩)
  simp [isDirKey, hd, hpre]

theorem protectTosKeyAncestors_subset (desired : List Text) (key pre : Text) :
    desired ⊆ protectTosKeyAncestors desired key pre := List.subset_append_left _ _

theorem withSlash_suffix (key : Text) : ['/'] <:+ withSlash key := by
  unfold withSlash
  split
  · assumption
  · exact List.suffix_append _ _

-- Every upload key is one fixed text followed by the relative path without leading slashes.
theorem uploadKey_eq (ctx : SyncContext) : ∃ base : Text, (base = [] ∨ ['/'] <:+ base) ∧
    ∀ rel : RelPath, joinTosKey (ctx.rawDestination.key.getD []) (localRelativeKey ctx rel) =
      base ++ trimStart '/' (slashed rel.text) := by
  have hjoin : ∀ pre : Text, ∃ base : Text, (base = [] ∨ ['/'] <:+ base) ∧
      (∀ key, joinTosKey pre key = base ++ trimStart '/' key) ∧
      (base ≠ [] → ∀ t, trimStart '/' (base ++ t) = base ++ t) := by
    intro pre
    by_cases hp : trim '/' pre = []
    · exact ⟨[], .inl rfl, fun key => joinTosKey_of_trim_nil hp key, fun h => absurd rfl h⟩
    · refine ⟨trim '/' pre ++ ['/'], .inr (List.suffix_append _ _), fun key => ?_, fun _ t => ?_⟩
      · rw [joinTosKey_of_trim_ne_nil hp]
        simp
      · apply trimStart_eq_self
        intro rest hr
        have hrel := joinTosKey_relative pre t
        rw [joinTosKey_of_trim_ne_nil hp] at hrel
        obtain ⟨c, cs, hc⟩ := List.exists_cons_of_ne_nil hp
        rw [hc] at hr hrel
        obtain ⟨rfl, -⟩ := List.cons.inj hr
        exact hrel (by simp)
  obtain ⟨base, hbase, hd, hfix⟩ := hjoin (ctx.rawDestination.key.getD [])
  unfold localRelativeKey prependParentPrefix
  cases ctx.parentPrefix with
  | none => exact ⟨base, hbase, fun rel => hd _⟩
  | some parent =>
    obtain ⟨base', hbase', hd', hfix'⟩ := hjoin parent
    by_cases hne : base' = []
    · refine ⟨base, hbase, fun rel => ?_⟩
      simp only
      rw [hd, hd', hne, List.nil_append, trimStart_idem]
    · refine ⟨base ++ base', .inr ?_, fun rel => ?_⟩
      · exact (hbase'.resolve_left hne).trans (List.suffix_append _ _)
      · simp only
        rw [hd, hd', hfix' hne, List.append_assoc]

theorem planUploadItem_spec {rel : RelPath} {isDir : Bool} {size : Nat} {item : UploadItem}
    (h : planUploadItem args ctx rel isDir size = some item) :
    item.rel = rel ∧ item.key =
      (if isDir then withSlash (joinTosKey (ctx.rawDestination.key.getD []) (localRelativeKey ctx rel))
      else joinTosKey (ctx.rawDestination.key.getD []) (localRelativeKey ctx rel)) ∧
      joinTosKey (ctx.rawDestination.key.getD []) (localRelativeKey ctx rel) ≠ [] := by
  unfold planUploadItem at h
  simp only at h
  split at h
  · cases h
  · cases h
    exact ⟨rfl, rfl, ‹_›⟩

theorem withSlash_prefix_of_append {base t : Text} (hb : base = [] ∨ ['/'] <:+ base)
    (hne : base ++ trimStart '/' t ≠ []) (r : Text) :
    withSlash (base ++ trimStart '/' t) <+: base ++ trimStart '/' (t ++ '/' :: r) := by
  have htrim : trimStart '/' t ≠ [] →
      trimStart '/' (t ++ '/' :: r) = trimStart '/' t ++ '/' :: r := by
    intro ht
    simp only [trimStart] at ht ⊢
    rw [List.dropWhile_append, if_neg (by simpa using ht)]
  by_cases ht : trimStart '/' t = []
  · have hb' := hb.resolve_left fun he => hne (by simp [he, ht])
    rw [ht, List.append_nil, withSlash, if_pos hb']
    exact List.prefix_append _ _
  · rw [htrim ht]
    unfold withSlash
    split
    · rw [← List.append_assoc]
      exact List.prefix_append _ _
    · refine ⟨r, ?_⟩
      simp

theorem mem_parents {rel p : RelPath} (h : p ∈ parents rel) :
    ∃ rest, rest ≠ [] ∧ rel.names = p.names ++ rest := by
  obtain ⟨n, hn, rfl⟩ := List.mem_map.mp h
  refine ⟨rel.names.drop n, ?_, (List.take_append_drop n rel.names).symm⟩
  rw [Ne, List.drop_eq_nil_iff, not_le]
  exact List.mem_range.mp hn

theorem ancestor_key {rel : RelPath} {isDir : Bool} {size : Nat} {item anc : UploadItem}
    (hi : planUploadItem args ctx rel isDir size = some item)
    (ha : anc ∈ requiredLocalUploadAncestors args ctx item) :
    ['/'] <:+ anc.key ∧ anc.key <+: item.key := by
  obtain ⟨hrel, hkey, -⟩ := planUploadItem_spec hi
  obtain ⟨p, hp, hanc⟩ := List.mem_filterMap.mp ha
  obtain ⟨-, hak, hane⟩ := planUploadItem_spec hanc
  rw [hrel] at hp
  obtain ⟨rest, hrest, hnames⟩ := mem_parents hp
  obtain ⟨base, hbase, heq⟩ := uploadKey_eq ctx
  simp only [if_true] at hak
  refine ⟨hak ▸ withSlash_suffix _, ?_⟩
  have hbelow : anc.key <+: joinTosKey (ctx.rawDestination.key.getD []) (localRelativeKey ctx rel) := by
    rw [heq p] at hak hane
    rw [hak, heq rel]
    by_cases hpn : p.names = []
    · have htext : p.text = [] := by simp [RelPath.text, hpn]
      rw [htext] at hane ⊢
      have hb' := hbase.resolve_left fun he => hane (by simp [he, slashed])
      rw [withSlash, show trimStart '/' (slashed []) = [] from rfl, List.append_nil, if_pos hb']
      exact List.prefix_append _ _
    · have htext : rel.text = p.text ++ '/' :: ['/'].intercalate rest := by
        rw [RelPath.text, hnames, intercalate_append hpn hrest]
        rfl
      rw [htext, slashed_append]
      exact withSlash_prefix_of_append hbase hane _
  refine hbelow.trans ?_
  rw [hkey]
  split
  · unfold withSlash
    split
    · exact List.prefix_rfl
    · exact List.prefix_append _ _
  · exact List.prefix_rfl

theorem retainNew_subset (actions : List UploadItem) (emitted : List Text) :
    (retainNew actions emitted).1 ⊆ actions := by
  induction actions generalizing emitted with
  | nil => simp [retainNew]
  | cons a actions ih =>
    unfold retainNew
    split
    · split
      · exact List.Subset.trans (ih emitted) (List.subset_cons_self _ _)
      · exact List.cons_subset_cons _ (ih _)
    · exact List.cons_subset_cons _ (ih _)

theorem selected_key {rel : RelPath} {isDir : Bool} {size : Nat} {item action : UploadItem}
    {emitted : List Text} (hi : planUploadItem args ctx rel isDir size = some item)
    (ha : action ∈ (selectLocalUploadActions args ctx item emitted).1) :
    action.key <+: item.key ∧ (['/'] <:+ action.key ∨ action.key = item.key) := by
  unfold selectLocalUploadActions at ha
  split at ha
  · cases ha
  · rcases List.mem_append.mp (retainNew_subset _ _ ha) with hm | hm
    · split at hm
      · cases hm
      · obtain ⟨hd, hp⟩ := ancestor_key hi hm
        exact ⟨hp, .inl hd⟩
    · obtain rfl := List.mem_singleton.mp hm
      exact ⟨List.prefix_rfl, .inr rfl⟩

def Retains (ctx : SyncContext) (desired : List Text) (item : UploadItem) : Prop :=
  Protected desired ctx.destinationPrefix item.key ∧ (['/'] <:+ item.key ∨ item.key ∈ desired)

theorem uploadSyncStep_retains {acc : UploadSync}
    (h : ∀ item ∈ acc.planned, Retains ctx acc.desired item) (node : LocalNode) :
    ∀ item ∈ (uploadSyncStep args ctx acc node).planned,
      Retains ctx (uploadSyncStep args ctx acc node).desired item := by
  unfold uploadSyncStep
  split
  · exact h
  · rename_i item hitem
    split
    · have hsub : acc.desired ⊆
          protectTosKeyAncestors (acc.desired ++ [item.key]) item.key ctx.destinationPrefix :=
        List.Subset.trans (List.subset_append_left _ _) (protectTosKeyAncestors_subset _ _ _)
      intro action ha
      rcases List.mem_append.mp ha with ha | ha
      · obtain ⟨hp, hd⟩ := h action ha
        exact ⟨hp.mono hsub, hd.imp id fun hm => hsub hm⟩
      · obtain ⟨hp, hd⟩ := selected_key hitem ha
        refine ⟨(protectTosKeyAncestors_protected _ _ _).below hp, hd.imp id fun he => ?_⟩
        exact protectTosKeyAncestors_subset _ _ _ (by simp [he])
    · exact h

theorem buildLocalUploadSyncPlan_retains (nodes : List LocalNode) :
    ∀ item ∈ (buildLocalUploadSyncPlan args ctx nodes).planned,
      Retains ctx (buildLocalUploadSyncPlan args ctx nodes).desired item := by
  have hfold : ∀ acc : UploadSync, (∀ item ∈ acc.planned, Retains ctx acc.desired item) →
      ∀ item ∈ (nodes.foldl (uploadSyncStep args ctx) acc).planned,
        Retains ctx (nodes.foldl (uploadSyncStep args ctx) acc).desired item := by
    induction nodes with
    | nil => exact fun acc h => h
    | cons node nodes ih => exact fun acc h => ih _ (uploadSyncStep_retains h node)
  exact hfold _ (by simp)

theorem retainedDesired_spec (desired : List Text) (inventory : List ObjectEntry) :
    desired ⊆ retainedDesired args ctx desired inventory ∧
      ∀ e ∈ inventory, syncRemoteKeyMatches args ctx e.key = false →
        Protected (retainedDesired args ctx desired inventory) ctx.destinationPrefix e.key := by
  induction inventory generalizing desired with
  | nil => exact ⟨List.Subset.refl _, by simp⟩
  | cons e inventory ih =>
    have hrest := ih (if syncRemoteKeyMatches args ctx e.key then desired
      else protectTosKeyAncestors desired e.key ctx.destinationPrefix)
    refine ⟨List.Subset.trans ?_ hrest.1, ?_⟩
    · split
      · exact List.Subset.refl _
      · exact protectTosKeyAncestors_subset _ _ _
    · intro e' he' hmatch
      rcases List.mem_cons.mp he' with rfl | he'
      · refine Protected.mono hrest.1 ?_
        rw [if_neg (by simp [hmatch])]
        exact protectTosKeyAncestors_protected _ _ _
      · exact hrest.2 e' he' hmatch

end Upload

section Directions

variable {args : SyncArgs} {ctx : SyncContext} {st : SyncState}

theorem desiredContains_iff {desired : List Text} {rel : RelPath} :
    desiredContains desired rel = true ↔
      ∃ path ∈ desired, pathComponents path = (false, rel.names) := by
  simp [desiredContains, rel.components]

theorem mem_localExtras {desired : List Text} {d : DeleteExtra} :
    d ∈ buildLocalExtrasPlanFromDesired args st desired ↔
      ∃ rel ∈ st.destinationFiles.getD [], allows args (slashed rel.text) = true ∧
        (¬ ∃ path ∈ desired, pathComponents path = (false, rel.names)) ∧
        d = ⟨slashed rel.text, pathJoin args.destination rel.text, none⟩ := by
  simp only [buildLocalExtrasPlanFromDesired, List.mem_map, List.mem_filter, Bool.and_eq_true,
    Bool.not_eq_true', ← desiredContains_iff, Bool.not_eq_true]
  constructor
  · rintro ⟨rel, ⟨hrel, ha, hd⟩, rfl⟩
    exact ⟨rel, hrel, ha, hd, rfl⟩
  · rintro ⟨rel, hrel, ha, hd, rfl⟩
    exact ⟨rel, ⟨hrel, ha, hd⟩, rfl⟩

theorem mem_filteredCopies {mappings : List (Text × SyncCopy)} {c : SyncCopy} :
    c ∈ filteredCopies args mappings ↔ ∃ key, (key, c) ∈ mappings ∧ allows args key = true := by
  simp only [filteredCopies, List.mem_map, List.mem_filter]
  constructor
  · rintro ⟨⟨key, c⟩, ⟨hm, ha⟩, rfl⟩
    exact ⟨key, hm, ha⟩
  · rintro ⟨key, hm, ha⟩
    exact ⟨(key, c), ⟨hm, ha⟩, rfl⟩

theorem destinationPlace_local (hd : isTosUri args.destination = false) (rel : RelPath) :
    destinationPlace args st (pathJoin args.destination rel.text) =
      .file (resolvePath st.cwd args.destination ++ rel.names) := by
  rw [destinationPlace, if_neg (by simp [hd]), rel.resolve_join]

theorem RelPath.ext_names {rel rel' : RelPath} (h : rel.names = rel'.names) : rel = rel' := by
  cases rel
  cases rel'
  cases h
  rfl

theorem localExtras_shape (hd : isTosUri args.destination = false) {desired : List Text}
    {d : DeleteExtra} (h : d ∈ buildLocalExtrasPlanFromDesired args st desired) :
    DeleteAllowed args ctx d ∧ InsideDestination args ctx st d := by
  obtain ⟨rel, -, ha, -, rfl⟩ := mem_localExtras.mp h
  constructor
  · rw [DeleteAllowed, if_neg (by simp [hd])]
    exact ha
  · rw [InsideDestination, if_neg (by simp [hd]), rel.resolve_join]
    exact List.prefix_append _ _

theorem syncSafe_local (hs : isTosUri args.source = false) (hd : isTosUri args.destination = false) :
    SyncSafe args ctx st ↔ SyncApart args ctx st := by
  have hplan : syncPlan args ctx st =
      ⟨filteredCopies args (buildLocalSourceMappings args ctx st),
        buildLocalExtrasPlan args ctx st⟩ := by simp only [syncPlan, hs, hd]
  have hdesired : ∀ rel : RelPath, (∃ path ∈ st.sourceFiles.map (localRelativeKey ctx),
      pathComponents path = (false, rel.names)) ↔
      ∃ s ∈ st.sourceFiles, pathComponents (localRelativeKey ctx s) = (false, rel.names) := by simp
  constructor
  · intro h
    refine ⟨fun _ _ rel hrel ha hsrc hplanned => ?_, fun _ _ rel hrel ha hsrc => ?_, by simp [hs],
      by simp [hs]⟩
    · by_contra hno
      have hdel := mem_localExtras.mpr ⟨rel, hrel, ha, (hdesired rel).not.mpr hno, rfl⟩
      have hcopy : (⟨pathJoin args.source rel.text, pathJoin args.destination rel.text⟩ : SyncCopy) ∈
          filteredCopies args (buildLocalSourceMappings args ctx st) :=
        mem_filteredCopies.mpr ⟨_, List.mem_map.mpr ⟨rel, hsrc, rfl⟩, hplanned⟩
      exact h.not_planned _ (by rw [hplan]; exact hdel) _ (by rw [hplan]; exact hcopy) rfl
    · by_contra hno
      have hdel := mem_localExtras.mpr ⟨rel, hrel, ha, (hdesired rel).not.mpr hno, rfl⟩
      refine h.not_source _ (by rw [hplan]; exact hdel) ?_
      rwa [destinationPlace_local hd]
  · intro h
    constructor
    · intro d hdel c hc he
      rw [hplan] at hdel hc
      obtain ⟨rel, hrel, ha, hno, rfl⟩ := mem_localExtras.mp hdel
      obtain ⟨key, hm, hkey⟩ := mem_filteredCopies.mp hc
      obtain ⟨rel', hsrc, hpair⟩ := List.mem_map.mp hm
      cases hpair
      rw [destinationPlace_local hd, destinationPlace_local hd] at he
      have hnames : rel.names = rel'.names := by simpa using he
      obtain rfl := RelPath.ext_names hnames
      exact hno ((hdesired rel).mpr (h.local_copies hs hd rel hrel ha hsrc hkey))
    · intro d hdel hin
      rw [hplan] at hdel
      obtain ⟨rel, hrel, ha, hno, rfl⟩ := mem_localExtras.mp hdel
      rw [destinationPlace_local hd] at hin
      exact hno ((hdesired rel).mpr (h.local_overlap hs hd rel hrel ha hin))
    · intro d hdel
      rw [hplan] at hdel
      exact (localExtras_shape hd hdel).1
    · intro d hdel
      rw [hplan] at hdel
      exact (localExtras_shape hd hdel).2
    · simp [hd]

theorem pathComponents_of_undotted {base : List Text} {key : Text} {names : List Text}
    (hrel : ¬ ['/'] <+: key) (hdots : ¬ Dotted key) (h : resolvePath base key = base ++ names) :
    pathComponents key = (false, names) := by
  obtain ⟨hhead, hparent⟩ := not_or.mp hdots
  have hfold : ∀ (segs base : List Text), "..".toList ∉ segs →
      segs.foldl applyComponent base = base ++ segs.filter (· ≠ ".".toList) := by
    intro segs
    induction segs with
    | nil => simp
    | cons s segs ih =>
      intro base hs
      have hs1 : s ≠ "..".toList := fun he => hs (by simp [he])
      rw [List.foldl_cons, ih _ fun hm => hs (List.mem_cons_of_mem _ hm), applyComponent]
      by_cases hdot : s = ".".toList
      · simp [hdot]
      · rw [if_neg hdot, if_neg hs1, List.filter_cons_of_pos (by simpa using hdot)]
        simp
  rw [resolvePath, if_neg hrel, hfold _ _ hparent] at h
  have hnames := List.append_cancel_left h
  simp only [pathComponents, if_neg hhead, List.nil_append, hnames, decide_eq_false hrel]

theorem syncSafe_download (hs : isTosUri args.source = true)
    (hd : isTosUri args.destination = false) :
    SyncSafe args ctx st ↔ SyncApart args ctx st := by
  have hplan : syncPlan args ctx st =
      ⟨filteredCopies args (buildTosSourceMappings args ctx st),
        buildLocalExtrasPlanForTosSource args ctx st⟩ := by simp only [syncPlan, hs, hd]
  have hdesired : ∀ rel : RelPath,
      (∃ path ∈ st.sourceEntries.map fun e => tosRelativeKey ctx e.key,
        pathComponents path = (false, rel.names)) ↔
      ∃ s ∈ st.sourceEntries, pathComponents (tosRelativeKey ctx s.key) = (false, rel.names) := by
    simp
  have hcopyPlace : ∀ key, destinationPlace args st (pathJoin args.destination (tosRelativeKey ctx key)) =
      .file (resolvePath (resolvePath st.cwd args.destination) (tosRelativeKey ctx key)) := by
    intro key
    rw [destinationPlace, if_neg (by simp [hd]), resolvePath_pathJoin (tosRelativeKey_relative key)]
  constructor
  · intro h
    refine ⟨by simp [hs], by simp [hs], fun _ _ rel hrel ha e he hplanned _ hres => ?_, by simp [hd]⟩
    by_contra hno
    have hdel := mem_localExtras.mpr ⟨rel, hrel, ha, (hdesired rel).not.mpr hno, rfl⟩
    have hcopy : (⟨formatTosUri ctx.source.bucket e.key,
        pathJoin args.destination (tosRelativeKey ctx e.key)⟩ : SyncCopy) ∈
        filteredCopies args (buildTosSourceMappings args ctx st) :=
      mem_filteredCopies.mpr ⟨_, List.mem_map.mpr ⟨e, he, by simp [hd]⟩, hplanned⟩
    refine h.not_planned _ (by rw [hplan]; exact hdel) _ (by rw [hplan]; exact hcopy) ?_
    rw [destinationPlace_local hd, hcopyPlace, hres]
  · intro h
    constructor
    · intro d hdel c hc he
      rw [hplan] at hdel hc
      obtain ⟨rel, hrel, ha, hno, rfl⟩ := mem_localExtras.mp hdel
      obtain ⟨key, hm, hkey⟩ := mem_filteredCopies.mp hc
      obtain ⟨e, hsrc, hpair⟩ := List.mem_map.mp hm
      rw [if_neg (by simp [hd])] at hpair
      cases hpair
      rw [destinationPlace_local hd, hcopyPlace] at he
      have hres := (Place.file.inj he).symm
      refine hno ((hdesired rel).mpr ?_)
      by_cases hdots : Dotted (tosRelativeKey ctx e.key)
      · exact h.download_dots hs hd rel hrel ha e hsrc hkey hdots hres
      · exact ⟨e, hsrc, pathComponents_of_undotted (tosRelativeKey_relative _) hdots hres⟩
    · intro d hdel hin
      rw [sourcePlaces, if_pos hs] at hin
      obtain ⟨e, -, he⟩ := hin
      rw [destinationPlace, if_neg (by simp [hd])] at he
      cases he
    · intro d hdel
      rw [hplan] at hdel
      exact (localExtras_shape hd hdel).1
    · intro d hdel
      rw [hplan] at hdel
      exact (localExtras_shape hd hdel).2
    · simp [hd]

theorem object_inj (hctx : syncContext args = .ok ctx) {key key' : Text}
    (h : Place.object (formatTosUri ctx.rawDestination.bucket key) =
      .object (formatTosUri ctx.rawDestination.bucket key')) : key = key' :=
  (formatTosUri_inj (destination_bucket hctx) (destination_bucket hctx) (Place.object.inj h)).2

theorem mem_tosExtras {desired : List Text} {d : DeleteExtra} :
    d ∈ buildTosExtrasPlan args ctx st desired ↔
      ∃ e ∈ st.destinationEntries, allows args (stripTosPrefix e.key ctx.destinationPrefix) = true ∧
        e.key ∉ desired ∧ d = deleteExtraEntry ctx e := by
  simp only [buildTosExtrasPlan, List.mem_map, List.mem_filter, Bool.and_eq_true,
    decide_eq_true_eq]
  constructor
  · rintro ⟨e, ⟨he, ha, hd⟩, rfl⟩
    exact ⟨e, he, ha, hd, rfl⟩
  · rintro ⟨e, he, ha, hd, rfl⟩
    exact ⟨e, ⟨he, ha, hd⟩, rfl⟩

theorem syncSafe_remote (hctx : syncContext args = .ok ctx) (hl : DestinationListed ctx st)
    (hs : isTosUri args.source = true) (hd : isTosUri args.destination = true) :
    SyncSafe args ctx st ↔ SyncApart args ctx st := by
  have hplan : syncPlan args ctx st =
      ⟨filteredCopies args (buildTosSourceMappings args ctx st),
        buildTosExtrasPlanForTosSource args ctx st⟩ := by simp only [syncPlan, hs, hd]
  have hplace : ∀ uri, destinationPlace args st uri = .object uri := fun uri => if_pos hd
  constructor
  · intro h
    refine ⟨by simp [hs], by simp [hd], by simp [hd], fun _ _ hbucket e he ha hsrc => ?_⟩
    by_contra hno
    have hdel : deleteExtraEntry ctx e ∈ buildTosExtrasPlanForTosSource args ctx st :=
      mem_tosExtras.mpr ⟨e, he, ha, by simpa using hno, rfl⟩
    refine h.not_source _ (by rw [hplan]; exact hdel) ?_
    obtain ⟨s, hs', hkey⟩ := List.mem_map.mp hsrc
    rw [hplace, sourcePlaces, if_pos hs]
    exact ⟨s, hs', by rw [deleteExtraEntry, hbucket, hkey]⟩
  · intro h
    constructor
    · intro d hdel c hc he
      rw [hplan] at hdel hc
      obtain ⟨e, -, -, hno, rfl⟩ := mem_tosExtras.mp hdel
      obtain ⟨key, hm, -⟩ := mem_filteredCopies.mp hc
      obtain ⟨s, hsrc, hpair⟩ := List.mem_map.mp hm
      rw [if_pos hd] at hpair
      cases hpair
      rw [hplace, hplace] at he
      refine hno (List.mem_map.mpr ⟨s, hsrc, ?_⟩)
      rw [joinTosKey_destinationPrefix]
      exact (object_inj hctx he).symm
    · intro d hdel hin
      rw [hplan] at hdel
      obtain ⟨e, hent, ha, hno, rfl⟩ := mem_tosExtras.mp hdel
      rw [hplace, sourcePlaces, if_pos hs] at hin
      obtain ⟨s, hsrc, he⟩ := hin
      obtain ⟨hbucket, hkey⟩ := formatTosUri_inj (destination_bucket hctx) (source_bucket hctx)
        (Place.object.inj he)
      exact hno (List.mem_map.mpr (h.remote_overlap hs hd hbucket.symm e hent ha
        (List.mem_map.mpr ⟨s, hsrc, hkey.symm⟩)))
    · intro d hdel
      rw [hplan] at hdel
      obtain ⟨e, -, ha, -, rfl⟩ := mem_tosExtras.mp hdel
      rw [DeleteAllowed, if_neg (by simp [hs])]
      exact ha
    · intro d hdel
      rw [hplan] at hdel
      obtain ⟨e, he, -, -, rfl⟩ := mem_tosExtras.mp hdel
      rw [InsideDestination, if_pos hd]
      exact ⟨e.key, rfl, hl e he⟩
    · simp [hs]

theorem mem_uploadExtras {desired : List Text} {inventory : List ObjectEntry} {d : DeleteExtra} :
    d ∈ planLocalUploadSyncExtras args ctx desired inventory ↔
      ∃ e ∈ inventory, e.key ∉ retainedDesired args ctx desired inventory ∧
        syncRemoteKeyMatches args ctx e.key = true ∧ d = deleteExtraEntry ctx e := by
  simp only [planLocalUploadSyncExtras, List.mem_map, List.mem_filter, Bool.and_eq_true,
    decide_eq_true_eq]
  constructor
  · rintro ⟨e, ⟨he, hd, ha⟩, rfl⟩
    exact ⟨e, he, hd, ha, rfl⟩
  · rintro ⟨e, he, hd, ha, rfl⟩
    exact ⟨e, ⟨he, hd, ha⟩, rfl⟩

theorem syncSafe_upload (hctx : syncContext args = .ok ctx) (hl : DestinationListed ctx st)
    (hs : isTosUri args.source = false) (hd : isTosUri args.destination = true) :
    SyncSafe args ctx st := by
  have hplan : syncPlan args ctx st =
      ⟨uploadCopies args ctx st.sourceNodes,
        planLocalUploadSyncExtras args ctx
          (buildLocalUploadSyncPlan args ctx st.sourceNodes).desired st.destinationEntries⟩ := by
    simp only [syncPlan, hs, hd]
  have hplace : ∀ uri, destinationPlace args st uri = .object uri := fun uri => if_pos hd
  have hsub := @retainedDesired_spec args ctx
    (buildLocalUploadSyncPlan args ctx st.sourceNodes).desired st.destinationEntries
  have hretains := @buildLocalUploadSyncPlan_retains args ctx st.sourceNodes
  constructor
  · intro d hdel c hc he
    rw [hplan] at hdel hc
    obtain ⟨e, hent, hno, -, rfl⟩ := mem_uploadExtras.mp hdel
    obtain ⟨item, hitem, rfl⟩ := List.mem_map.mp hc
    rw [hplace, hplace] at he
    have hkey : e.key = item.key := object_inj hctx he
    obtain ⟨hprot, hdir | hin⟩ := hretains item hitem
    · refine hno (hsub.1 (hprot e.key (hkey ▸ List.prefix_rfl) (hkey ▸ hdir) (hl e hent)))
    · exact hno (hsub.1 (hkey ▸ hin))
  · intro d _ hin
    rw [hplace, sourcePlaces, if_neg (by simp [hs])] at hin
    obtain ⟨rel, -, he⟩ := hin
    cases he
  · intro d hdel
    rw [hplan] at hdel
    obtain ⟨e, -, -, ha, rfl⟩ := mem_uploadExtras.mp hdel
    rw [DeleteAllowed, if_pos ⟨hs, hd⟩]
    exact ⟨e.key, rfl, ha⟩
  · intro d hdel
    rw [hplan] at hdel
    obtain ⟨e, he, -, -, rfl⟩ := mem_uploadExtras.mp hdel
    rw [InsideDestination, if_pos hd]
    exact ⟨e.key, rfl, hl e he⟩
  · intro _ _ d hdel
    rw [hplan] at hdel
    obtain ⟨e, hent, hno, -, rfl⟩ := mem_uploadExtras.mp hdel
    intro key hkey hdir
    have hek : e.key = key :=
      (formatTosUri_inj (destination_bucket hctx) (destination_bucket hctx) hkey).2
    subst hek
    refine ⟨fun item hitem hbelow => ?_, fun e' he' hmatch hbelow => ?_⟩
    · exact hno (hsub.1 ((hretains item hitem).1 e.key hbelow hdir (hl e hent)))
    · exact hno (hsub.2 e' he' hmatch e.key hbelow hdir (hl e hent))

end Directions

theorem sync_delete_keeps_iff {args : SyncArgs} {ctx : SyncContext} {st : SyncState}
    (hctx : syncContext args = .ok ctx) (hl : DestinationListed ctx st) :
    SyncSafe args ctx st ↔ SyncApart args ctx st := by
  cases hs : isTosUri args.source with
  | false =>
    cases hd : isTosUri args.destination with
    | false => exact syncSafe_local hs hd
    | true =>
      have hsafe := syncSafe_upload hctx hl hs hd
      exact ⟨fun _ => ⟨by simp [hd], by simp [hd], by simp [hd], by simp [hs]⟩, fun _ => hsafe⟩
  | true =>
    cases hd : isTosUri args.destination with
    | false => exact syncSafe_download hs hd
    | true => exact syncSafe_remote hctx hl hs hd

def localArgs (includeParent : Bool) : SyncArgs :=
  ⟨"src".toList, "dst".toList, includeParent, none, none, false⟩

def localContext (parent : Option Text) : SyncContext := ⟨⟨[], none⟩, ⟨[], none⟩, parent⟩

theorem fileName_x : ∀ name ∈ ["x".toList], FileName name := by decide

def relX : RelPath := ⟨["x".toList], fileName_x⟩

def syncedState : SyncState := ⟨[], [relX], [], [], some [relX], []⟩

theorem sync_include_parent_deletes_copy :
    syncContext (localArgs true) = .ok (localContext (some "src".toList)) ∧
      ¬ SyncSafe (localArgs true) (localContext (some "src".toList)) syncedState := by
  refine ⟨rfl, fun h => ?_⟩
  let d : DeleteExtra := ⟨"x".toList, "dst/x".toList, none⟩
  let c : SyncCopy := ⟨"src/x".toList, "dst/x".toList⟩
  have hd : d ∈ (syncPlan (localArgs true) (localContext (some "src".toList)) syncedState).deletes :=
    List.mem_singleton_self _
  have hc : c ∈ (syncPlan (localArgs true) (localContext (some "src".toList)) syncedState).copies :=
    List.mem_singleton_self _
  exact h.not_planned d hd c hc rfl

def remoteArgs : SyncArgs :=
  ⟨"tos://b/a".toList, "tos://b/out".toList, false, none, some "keep".toList, false⟩

def remoteContext : SyncContext := ⟨⟨"b".toList, some "a/".toList⟩, ⟨"b".toList, some "out".toList⟩, none⟩

def listedEntry (key : Text) : ObjectEntry := ⟨key, 0, none, some "e".toList⟩

-- The destination holds one of the copies, an extra and an excluded object.
def remoteState : SyncState where
  cwd := []
  sourceFiles := []
  sourceNodes := []
  sourceEntries := [listedEntry "a/x".toList, listedEntry "a/y".toList]
  destinationFiles := none
  destinationEntries :=
    [listedEntry "out/keep".toList, listedEntry "out/old".toList, listedEntry "out/x".toList]

theorem sync_delete_keeps_plain :
    syncContext remoteArgs = .ok remoteContext ∧
    (syncPlan remoteArgs remoteContext remoteState).copies.map SyncCopy.destination =
      ["tos://b/out/x".toList, "tos://b/out/y".toList] ∧
    (syncPlan remoteArgs remoteContext remoteState).deletes.map DeleteExtra.source = ["tos://b/out/old".toList] ∧
    SyncSafe remoteArgs remoteContext remoteState := by
  have hlisted : DestinationListed remoteContext remoteState := by
    unfold DestinationListed
    decide
  refine ⟨by rfl, by decide, by decide, (sync_delete_keeps_iff rfl hlisted).mpr ⟨?_, ?_, ?_, ?_⟩⟩
  · intro h
    cases h
  · intro h
    cases h
  · intro _ h
    cases h
  · intro _ _ _ e he _ hsource
    have hapart : ∀ e ∈ remoteState.destinationEntries, e.key ∉ remoteState.sourceEntries.map ObjectEntry.key := by
      decide
    exact absurd hsource (hapart e he)

end VeStorage.Tos.Sync
