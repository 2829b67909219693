import VeStorage.Lib.Components
import VeStorage.Tos.LocalPath
import VeStorage.Tos.Move.Args

namespace VeStorage.Tos.Mapping
open Lib
open Move (hasLocalParentDir pathContainsParentDir)

section Components

theorem segments_under (base rel : Text) :
    segments '/' (base ++ ['/'] ++ rel) = segments '/' (base ++ ['/']) ++ segments '/' rel := by
  have hbase := segments_append '/' base []
  rw [segments_nil, List.append_nil] at hbase
  rw [List.append_assoc, List.singleton_append, segments_append, hbase]

theorem head_splitOn_append (a b : Text) :
    ((a ++ '/' :: b).splitOn '/').head? = (a.splitOn '/').head? := by
  rw [List.splitOn_append_cons_self, List.head?_append]
  obtain ⟨s, ss, hs⟩ := List.exists_cons_of_ne_nil (List.splitOn_ne_nil '/' a)
  simp [hs]

def plainSegments (t : Text) : List Text := (segments '/' t).filter (· ≠ ".".toList)

theorem pathComponents_join {base rel : Text} (hb : base ≠ []) (hr : ¬ ['/'] <+: rel) :
    pathComponents (pathJoin base rel) =
      ((pathComponents base).1, (pathComponents base).2 ++ plainSegments rel) := by
  have hroot : ∀ tail : Text, (['/'] <+: base ++ tail) ↔ (['/'] <+: base) := by
    intro tail
    cases base with
    | nil => exact absurd rfl hb
    | cons c cs => simp
  unfold pathJoin
  rw [if_neg hr]
  split
  · rename_i hslash
    obtain ⟨b, rfl⟩ := hslash.resolve_left hb
    have hhead : ((b ++ ['/'] ++ rel).splitOn '/').head? = ((b ++ ['/']).splitOn '/').head? := by
      rw [List.append_assoc, List.singleton_append, head_splitOn_append, head_splitOn_append]
    simp only [pathComponents, hroot, hhead, segments_under, List.filter_append, plainSegments]
    rw [List.append_assoc]
  · simp only [pathComponents, hroot, head_splitOn_append, segments_append, List.filter_append,
      plainSegments, List.append_assoc]

theorem mem_splitOnP {p q : Char → Bool} (hpq : ∀ c, p c = true → q c = true) (t : Text) {s : Text}
    (hs : s ∈ t.splitOnP p) (hfree : ∀ c ∈ s, q c = false) : s ∈ t.splitOnP q := by
  have hheads : ∃ h rest h' rest', t.splitOnP p = h :: rest ∧ t.splitOnP q = h' :: rest' ∧
      ((∀ c ∈ h, q c = false) → h' = h) ∧ ∀ s ∈ rest, (∀ c ∈ s, q c = false) → s ∈ rest' := by
    clear hs
    induction t with
    | nil => exact ⟨[], [], [], [], rfl, rfl, fun _ => rfl, by simp⟩
    | cons c t ih =>
      obtain ⟨h, rest, h', rest', he, he', hhead, hrest⟩ := ih
      rw [List.splitOnP_cons_eq_if_modifyHead, List.splitOnP_cons_eq_if_modifyHead, he, he']
      rcases Bool.eq_false_or_eq_true (p c) with hp | hp
      · rw [if_pos hp, if_pos (hpq c hp)]
        refine ⟨[], _, [], _, rfl, rfl, fun _ => rfl, fun s hs hf => ?_⟩
        rcases List.mem_cons.mp hs with rfl | hs
        · rw [hhead hf]
          exact List.mem_cons_self
        · exact List.mem_cons_of_mem _ (hrest s hs hf)
      · rw [if_neg (by simp [hp])]
        rcases Bool.eq_false_or_eq_true (q c) with hq | hq
        · rw [if_pos hq]
          refine ⟨c :: h, rest, [], _, rfl, rfl, fun hf => ?_, fun s hs hf =>
            List.mem_cons_of_mem _ (hrest s hs hf)⟩
          have := hf c List.mem_cons_self
          rw [hq] at this
          cases this
        · rw [if_neg (by simp [hq])]
          refine ⟨c :: h, rest, c :: h', rest', rfl, rfl, fun hf => ?_, hrest⟩
          rw [hhead fun d hd => hf d (List.mem_cons_of_mem c hd)]
  obtain ⟨h, rest, h', rest', he, he', hhead, hrest⟩ := hheads
  rw [he] at hs
  rw [he']
  rcases List.mem_cons.mp hs with rfl | hs
  · rw [hhead hfree]
    exact List.mem_cons_self
  · exact List.mem_cons_of_mem _ (hrest s hs hfree)

theorem parentDir_flagged {path : Text} (h : "..".toList ∈ segments '/' path) :
    pathContainsParentDir path = true := by
  have hsplit : "..".toList ∈ path.splitOnP (· == '/') := by
    rw [← List.splitOn_eq_splitOnP]
    exact (List.mem_filter.mp h).1
  have hmem : "..".toList ∈ path.splitOnP fun c => c = '/' || c = '\\' :=
    mem_splitOnP (by simp) path hsplit (by simp)
  exact List.any_eq_true.mpr ⟨_, hmem, by simp⟩

theorem base_prefix_pathJoin {base rel : Text} (hr : ¬ ['/'] <+: rel) :
    base <+: pathJoin base rel := by
  unfold pathJoin
  rw [if_neg hr]
  split <;> exact List.prefix_append _ _

theorem isTosUri_pathJoin {base rel : Text} (hb : base ≠ []) (hr : ¬ ['/'] <+: rel) :
    isTosUri (pathJoin base rel) = isTosUri base := by
  have hbase := @base_prefix_pathJoin base rel hr
  rw [isTosUri, isTosUri, decide_eq_decide]
  constructor
  · intro h
    rcases Nat.lt_or_ge base.length tosScheme.length with hlt | hge
    · obtain ⟨t, ht⟩ := List.prefix_of_prefix_length_le hbase h (Nat.le_of_lt hlt)
      -- A shorter base would leave a slash of the scheme to the relative part.
      have hscheme : base ++ t = ['t', 'o', 's', ':', '/', '/'] := ht
      rcases base with - | ⟨c1, - | ⟨c2, - | ⟨c3, - | ⟨c4, - | ⟨c5, base⟩⟩⟩⟩⟩
      · exact absurd rfl hb
      all_goals simp only [List.cons_append, List.nil_append, List.cons.injEq] at hscheme
      · obtain ⟨rfl, -⟩ := hscheme
        rw [pathJoin, if_neg hr, if_neg (by decide)] at h
        simp [tosScheme] at h
      · obtain ⟨rfl, rfl, -⟩ := hscheme
        rw [pathJoin, if_neg hr, if_neg (by decide)] at h
        simp [tosScheme] at h
      · obtain ⟨rfl, rfl, rfl, -⟩ := hscheme
        rw [pathJoin, if_neg hr, if_neg (by decide)] at h
        simp [tosScheme] at h
      · obtain ⟨rfl, rfl, rfl, rfl, -⟩ := hscheme
        rw [pathJoin, if_neg hr, if_neg (by decide)] at h
        exact absurd (by simpa [tosScheme] using h) hr
      · obtain ⟨rfl, rfl, rfl, rfl, rfl, -⟩ := hscheme
        obtain rfl : base = [] := by
          rw [← List.length_eq_zero_iff]
          simp only [List.length_cons, tosScheme] at hlt
          have : "tos://".toList.length = 6 := rfl
          omega
        rw [pathJoin, if_neg hr, if_pos (by decide)] at h
        exact absurd (by simpa [tosScheme] using h) hr
    · exact List.prefix_of_prefix_length_le h hbase hge
  · exact fun h => h.trans hbase

end Components

section Joined

theorem trimStart_relative (t : Text) : ¬ ['/'] <+: trimStart '/' t := by
  rintro ⟨rest, h⟩
  exact head_trimStart '/' '/' t rest h.symm rfl

theorem joinTosKey_relative (pre key : Text) : ¬ ['/'] <+: joinTosKey pre key := by
  rcases eq_or_ne (trim '/' pre) [] with hp | hp
  · rw [joinTosKey_of_trim_nil hp]
    exact trimStart_relative key
  · rw [joinTosKey_of_trim_ne_nil hp]
    obtain ⟨c, rest, hc⟩ := List.exists_cons_of_ne_nil hp
    have htrim : trim '/' pre <+: trimStart '/' pre := by
      obtain ⟨n, hn⟩ := exists_trimEnd '/' (trimStart '/' pre)
      exact ⟨_, hn.symm⟩
    rw [hc] at htrim ⊢
    rintro ⟨tail, ht⟩
    obtain ⟨rfl, -⟩ := List.cons.inj ht
    obtain ⟨more, hmore⟩ := htrim
    exact trimStart_relative pre ⟨rest ++ more, hmore⟩

theorem joinTosKey_eq_nil {pre key : Text} :
    joinTosKey pre key = [] ↔ trim '/' pre = [] ∧ trimStart '/' key = [] := by
  rcases eq_or_ne (trim '/' pre) [] with hp | hp
  · simp [joinTosKey_of_trim_nil hp, hp]
  · simp [joinTosKey_of_trim_ne_nil hp, hp]

theorem not_scheme {bucket key : Text} (hb : '/' ∉ bucket) (hr : ¬ ['/'] <+: key) :
    ¬ tosScheme <+: bucket ++ '/' :: key := by
  rintro ⟨s, hs⟩
  have hl := splitOnce_append (c := '/') (a := "tos:".toList) (by decide) ('/' :: s)
  have he : "tos:".toList ++ '/' :: '/' :: s = bucket ++ '/' :: key := hs
  rw [he, splitOnce_append hb] at hl
  exact hr ⟨s, (Option.some.inj (congrArg Prod.snd hl)).symm⟩

theorem parse_joined {bucket key : Text} (hb : bucket ≠ [] ∧ '/' ∉ bucket)
    (hr : ¬ ['/'] <+: key) (parsed : ParsedTosUri) :
    parseTosUri (formatTosUri bucket key) false = .ok parsed ↔
      key ≠ [] ∧ parsed = ⟨bucket, some key⟩ := by
  have ht : trimStartMatches tosScheme (formatTosUri bucket key) = bucket ++ '/' :: key :=
    trimStartMatches_append (by decide) (not_scheme hb.2 hr)
  rcases eq_or_ne key [] with rfl | hk
  · simp [parseTosUri, ht, splitOnce_append hb.2, hb.1]
  · have hparsed : parseTosUri (formatTosUri bucket key) false = .ok ⟨bucket, some key⟩ := by
      simp [parseTosUri, ht, splitOnce_append hb.2, hb.1, hk]
    rw [hparsed, Except.ok.injEq]
    exact ⟨fun h => ⟨hk, h.symm⟩, fun h => h.2.symm⟩

theorem trim_ends (t : Text) :
    ∃ m n, t = List.replicate m '/' ++ (trim '/' t ++ List.replicate n '/') ∧
      trimStart '/' t = trim '/' t ++ List.replicate n '/' ∧ ¬ ['/'] <:+ trim '/' t := by
  obtain ⟨m, hm⟩ := exists_trimStart '/' t
  obtain ⟨n, hn⟩ := exists_trimEnd '/' (trimStart '/' t)
  refine ⟨m, n, by rw [trim, ← hn, ← hm], hn, ?_⟩
  rintro ⟨rest, hr⟩
  exact trimEnd_ne_append '/' (trimStart '/' t) rest hr.symm

theorem normalize_of_nil {target : Option Text} (h : trim '/' (target.getD []) = []) :
    normalizeRecursiveTosPrefix target = [] := by
  obtain ⟨-, n, -, hstart, -⟩ := trim_ends (target.getD [])
  rw [h, List.nil_append] at hstart
  have hnil : trimStart '/' (target.getD []) = [] := by
    cases n with
    | zero => exact hstart
    | succ n => exact absurd ⟨List.replicate n '/', hstart.symm⟩ (trimStart_relative _)
  simp [normalizeRecursiveTosPrefix, hnil]

theorem doubled_iff {core : Text} (hne : core ≠ []) (hc : ¬ ['/'] <:+ core) (m n : Nat) :
    ['/', '/'] <:+ List.replicate m '/' ++ (core ++ List.replicate n '/') ↔ 2 ≤ n := by
  have hlast : ¬ ['/'] <:+ List.replicate m '/' ++ core := fun h =>
    hc (List.suffix_of_suffix_length_le h (List.suffix_append _ core)
      (List.length_pos_iff.mpr hne))
  rcases n with - | - | n
  · rw [List.replicate_zero, List.append_nil]
    exact ⟨fun h => absurd ((List.suffix_cons '/' ['/']).trans h) hlast, nofun⟩
  · refine ⟨fun ⟨r, hr⟩ => ?_, fun h => by omega⟩
    have hcut : r ++ ['/'] ++ ['/'] = List.replicate m '/' ++ core ++ ['/'] := by simpa using hr
    exact absurd ⟨r, (List.append_inj' hcut rfl).1⟩ hlast
  · refine ⟨fun _ => by omega, fun _ => ⟨List.replicate m '/' ++ (core ++ List.replicate n '/'), ?_⟩⟩
    rw [List.replicate_succ', List.replicate_succ']
    simp

theorem under_prefix_iff (target : Option Text) (rel : Text) :
    normalizeRecursiveTosPrefix target <+: joinTosKey (target.getD []) rel ↔
      trim '/' (target.getD []) = [] ∨ ¬ ['/', '/'] <:+ target.getD [] := by
  rcases eq_or_ne (trim '/' (target.getD [])) [] with hp | hp
  · simp [normalize_of_nil hp, hp]
  · obtain ⟨m, n, he, hstart, hlast⟩ := trim_ends (target.getD [])
    have hdoubled := doubled_iff hp hlast m n
    rw [← he] at hdoubled
    rw [or_iff_right hp, joinTosKey_of_trim_ne_nil hp, hdoubled, normalizeRecursiveTosPrefix, hstart]
    generalize trim '/' (target.getD []) = core at hp hlast
    rcases n with - | - | n
    · simp [hp, hlast]
    · simp
    · have hdir : ['/'] <:+ core ++ List.replicate (n + 1 + 1) '/' := by
        rw [List.replicate_succ', ← List.append_assoc]
        exact List.suffix_append _ _
      rw [if_pos (.inr hdir), List.prefix_append_right_inj, List.replicate_succ, List.replicate_succ,
        List.cons_prefix_cons]
      refine ⟨fun h => ?_, fun h => by omega⟩
      exact absurd ((List.prefix_append ['/'] _).trans h.2) (trimStart_relative rel)

end Joined

section Mapped

variable (parent : Option Text) (pre destination : Text)

def behind (pre key : Text) : Text := key.drop pre.length

def Inside (root path : Text) : Prop :=
  ∃ names, pathComponents path = ((pathComponents root).1, (pathComponents root).2 ++ names) ∧
    "..".toList ∉ names

-- A destination that can be written, and where it has to be.
def Placed (target : Option ParsedTosUri) (destination : Text) (item : TransferPlanItem) : Prop :=
  match target with
  | some target => ∃ key, parseTosUri item.destination false = .ok ⟨target.bucket, some key⟩ ∧
      normalizeRecursiveTosPrefix target.key <+: key
  | none => hasLocalParentDir item = true ∨ Inside destination item.destination

def SameDestination (target : Option ParsedTosUri) (a b : TransferPlanItem) : Prop :=
  match target with
  | some _ => a.destination = b.destination
  | none => pathComponents a.destination = pathComponents b.destination

structure WellMapped (target : Option ParsedTosUri) (destination : Text)
    (items : List TransferPlanItem) : Prop where
  placed : ∀ item ∈ items, Placed target destination item
  apart : items.Pairwise fun a b => ¬ SameDestination target a b

-- Where the keys of the source may not differ for the mapping to keep them apart.
def keyName (target : Option ParsedTosUri) (pre key : Text) : List Text :=
  match target with
  | some _ => [trimStart '/' (behind pre key)]
  | none => plainSegments (behind pre key)

structure Spaced (target : Option ParsedTosUri) (parent : Option Text) (pre : Text)
    (keys : List Text) : Prop where
  single : ∀ t ∈ target, keys = [] ∨ trim '/' (t.key.getD []) = [] ∨
    ¬ ['/', '/'] <:+ t.key.getD []
  named : ∀ t ∈ target, trim '/' (t.key.getD []) = [] → parent = none →
    ∀ key ∈ keys, trimStart '/' (behind pre key) ≠ []
  apart : keys.Pairwise fun a b => keyName target pre a ≠ keyName target pre b

def validateTosUri (uri : Text) (allowBucketOnly : Bool) : Except CliError Unit :=
  if isTosUri uri then
    let parts := splitOnce '/' (trimStartMatches tosScheme uri)
    if parts.1 = [] ∨ (allowBucketOnly = false ∧ parts.2.getD [] = []) then
      .error (invalidTosUri uri allowBucketOnly)
    else .ok ()
  else .error (.validationError ("invalid TOS URI '".toList ++ uri ++
    "': expected tos://bucket/key".toList))

def validateEnd (uri : Text) (allowBucketOnly : Bool) : Except CliError Unit :=
  if isTosUri uri then validateTosUri uri allowBucketOnly else .ok ()

-- `isBlank` is `trim().is_empty()`.
def validateTransferPair (isBlank : Text → Bool) (source destination : Text)
    (allowSourceBucketOnly : Bool) : Except CliError Unit :=
  if isBlank source || isBlank destination then
    .error (.validationError "source and destination must not be empty".toList)
  else if source = destination then
    .error (.validationError "source and destination must be different".toList)
  else (validateEnd source allowSourceBucketOnly).bind fun _ => validateEnd destination true

theorem validateTosUri_parse {uri : Text} (h : validateTosUri uri true = .ok ()) :
    ∃ parsed, parseTosUri uri true = .ok parsed := by
  unfold validateTosUri at h
  split at h
  · rename_i ht
    dsimp only at h
    split at h
    · cases h
    · rename_i hb
      have hparse : ∃ parsed, (parseTosUri uri true) = .ok parsed := by
        rw [parseTosUri, if_pos ht]
        exact ⟨_, if_neg (by simpa using hb)⟩
      exact hparse
  · cases h

theorem validateTransferPair_ok {isBlank : Text → Bool} (hblank : isBlank [] = true)
    {source destination : Text} {allow : Bool}
    (h : validateTransferPair isBlank source destination allow = .ok ()) :
    destination ≠ [] ∧ ∃ target, parseDestination destination = .ok target := by
  unfold validateTransferPair at h
  split at h
  · cases h
  · rename_i hb
    constructor
    · rintro rfl
      simp [hblank] at hb
    · split at h
      · cases h
      · have hdest : validateEnd destination true = .ok () := by
          cases hsource : validateEnd source allow with
          | error e =>
            rw [hsource] at h
            cases h
          | ok u => rwa [hsource] at h
        unfold parseDestination
        split
        · rename_i ht
          rw [validateEnd, if_pos ht] at hdest
          obtain ⟨parsed, hparsed⟩ := validateTosUri_parse hdest
          exact ⟨some parsed, by rw [hparsed]; rfl⟩
        · exact ⟨none, rfl⟩

end Mapped

section Relative

variable {parent : Option Text} {pre : Text}

def ParentOk (parent : Option Text) : Prop := ∀ p ∈ parent, p ≠ [] ∧ '/' ∉ p

theorem parentOk_of_source {source : Text} {includeParent : Bool} {parsed : ParsedTosUri}
    (hs : parseTosUri source true = .ok parsed)
    (h : recursiveSourceParentPrefix source includeParent = .ok parent) : ParentOk parent := by
  have ht : isTosUri source = true := by
    by_contra hno
    rw [parseTosUri, if_neg hno] at hs
    cases hs
  unfold recursiveSourceParentPrefix at h
  split at h
  · obtain rfl := Except.ok.inj h
    intro p hp
    cases hp
  · rw [hs] at h
    simp only [bind, Except.bind] at h
    split at h
    · cases h
    · rename_i hne
      obtain rfl := Except.ok.inj h
      rintro p ⟨⟩
      refine ⟨hne, ?_⟩
      exact not_mem_last_splitOn '/' _

theorem trim_of_free {t : Text} (h : '/' ∉ t) : trim '/' t = t := by
  have hstart : trimStart '/' t = t := trimStart_eq_self fun rest he => h (by simp [he])
  rw [trim, hstart]
  exact trimEnd_of_getLast_ne fun rest he => h (by simp [he])

-- The relative key of a plan, from what stands behind the prefix.
def relativeOf (parent : Option Text) (r : Text) : Text :=
  prependParentPrefix (trimStart '/' r) parent

theorem relativeOf_some {p : Text} (hp : p ≠ [] ∧ '/' ∉ p) (r : Text) :
    relativeOf (some p) r = p ++ '/' :: trimStart '/' r := by
  have htrim := trim_of_free hp.2
  rw [relativeOf, prependParentPrefix, joinTosKey_trimStart,
    joinTosKey_of_trim_ne_nil (by rw [htrim]; exact hp.1), htrim]

theorem relativeOf_relative (parent : Option Text) (r : Text) :
    ¬ ['/'] <+: relativeOf parent r := by
  cases parent with
  | none => exact trimStart_relative r
  | some p => exact joinTosKey_relative p _

theorem relativeOf_trimStart (parent : Option Text) (r : Text) :
    trimStart '/' (relativeOf parent r) = relativeOf parent r :=
  trimStart_eq_self fun rest he => relativeOf_relative parent r ⟨rest, he.symm⟩

theorem relativeOf_inj (hp : ParentOk parent) {a b : Text} :
    relativeOf parent a = relativeOf parent b ↔ trimStart '/' a = trimStart '/' b := by
  cases parent with
  | none => exact Iff.rfl
  | some p =>
    rw [relativeOf_some (hp p rfl), relativeOf_some (hp p rfl)]
    simp

theorem relativeOf_eq_nil (hp : ParentOk parent) {r : Text} :
    relativeOf parent r = [] ↔ parent = none ∧ trimStart '/' r = [] := by
  cases parent with
  | none => simp [relativeOf, prependParentPrefix]
  | some p =>
    rw [relativeOf_some (hp p rfl)]
    simp

theorem plainSegments_relativeOf (hp : ParentOk parent) {a b : Text} :
    plainSegments (relativeOf parent a) = plainSegments (relativeOf parent b) ↔
      plainSegments a = plainSegments b := by
  have hnone : ∀ r, plainSegments (trimStart '/' r) = plainSegments r := fun r => by
    rw [plainSegments, segments_trimStart, plainSegments]
  cases parent with
  | none =>
    change plainSegments (trimStart '/' a) = plainSegments (trimStart '/' b) ↔ _
    rw [hnone, hnone]
  | some p =>
    have hsome : ∀ r, plainSegments (relativeOf (some p) r) = plainSegments p ++ plainSegments r := by
      intro r
      rw [relativeOf_some (hp p rfl), plainSegments, segments_append, List.filter_append,
        segments_trimStart, plainSegments, plainSegments]
    rw [hsome, hsome, List.append_cancel_left_eq]

theorem relative_of_under {key : Text} (hpre : trimStart '/' pre = pre) (hkey : pre <+: key) :
    prependParentPrefix (stripTosPrefix key pre) parent = relativeOf parent (behind pre key) := by
  obtain ⟨r, rfl⟩ := hkey
  have hstrip := stripTosPrefix_append pre r
  rw [hpre] at hstrip
  rw [hstrip, behind, List.drop_left, relativeOf]

end Relative

section Correct

variable {parent : Option Text} {pre destination : Text} {bucket : Text}
  {target : Option ParsedTosUri}

theorem parseDestination_bucket {t : ParsedTosUri} (h : parseDestination destination = .ok (some t)) :
    t.bucket ≠ [] ∧ '/' ∉ t.bucket := by
  unfold parseDestination at h
  split at h
  · cases hp : parseTosUri destination true with
    | error e =>
      rw [hp] at h
      cases h
    | ok parsed =>
      rw [hp] at h
      obtain rfl : parsed = t := by
        have := Except.ok.inj h
        simpa using this
      exact parseTosUri_bucket hp
  · cases h

theorem parseDestination_none (h : parseDestination destination = .ok none) :
    isTosUri destination = false := by
  unfold parseDestination at h
  split at h
  · cases hp : parseTosUri destination true with
    | error e =>
      rw [hp] at h
      cases h
    | ok parsed =>
      rw [hp] at h
      cases h
  · simpa using ‹¬ isTosUri destination = true›

theorem planDestination_some (t : ParsedTosUri) (r : Text) :
    planDestination (some t) destination (relativeOf parent r) =
      formatTosUri t.bucket (joinTosKey (t.key.getD []) (relativeOf parent r)) := rfl

theorem formatTosUri_inj {key key' : Text} :
    formatTosUri bucket key = formatTosUri bucket key' ↔ key = key' := by
  simp [formatTosUri]

theorem same_tos_iff (hp : ParentOk parent) (t : ParsedTosUri) {a b : Text} :
    planDestination (some t) destination (relativeOf parent a) =
      planDestination (some t) destination (relativeOf parent b) ↔
      trimStart '/' a = trimStart '/' b := by
  rw [planDestination_some, planDestination_some, formatTosUri_inj]
  constructor
  · intro h
    have hinj := joinTosKey_inj h
    rw [relativeOf_trimStart, relativeOf_trimStart] at hinj
    exact (relativeOf_inj hp).mp hinj
  · intro h
    rw [(relativeOf_inj hp).mpr h]

theorem same_local_iff (hp : ParentOk parent) (hne : destination ≠ []) {a b : Text} :
    pathComponents (planDestination none destination (relativeOf parent a)) =
      pathComponents (planDestination none destination (relativeOf parent b)) ↔
      plainSegments a = plainSegments b := by
  have hjoin : ∀ r, pathComponents (planDestination none destination (relativeOf parent r)) =
      ((pathComponents destination).1,
        (pathComponents destination).2 ++ plainSegments (relativeOf parent r)) := fun r =>
    pathComponents_join hne (relativeOf_relative parent r)
  rw [hjoin, hjoin, Prod.mk.injEq, List.append_cancel_left_eq, plainSegments_relativeOf hp]
  simp

theorem placed_tos_iff (hp : ParentOk parent) {t : ParsedTosUri}
    (hb : t.bucket ≠ [] ∧ '/' ∉ t.bucket) {item : TransferPlanItem} {r : Text}
    (hitem : item.destination = planDestination (some t) destination (relativeOf parent r)) :
    Placed (some t) destination item ↔
      ¬ (trim '/' (t.key.getD []) = [] ∧ parent = none ∧ trimStart '/' r = []) ∧
        (trim '/' (t.key.getD []) = [] ∨ ¬ ['/', '/'] <:+ t.key.getD []) := by
  rw [Placed, hitem, planDestination_some]
  simp only [parse_joined hb (joinTosKey_relative _ _)]
  rw [← relativeOf_eq_nil hp, ← under_prefix_iff t.key (relativeOf parent r)]
  have hnil := @joinTosKey_eq_nil (t.key.getD []) (relativeOf parent r)
  rw [relativeOf_trimStart] at hnil
  rw [← hnil]
  constructor
  · rintro ⟨key, ⟨hne, he⟩, hpre⟩
    obtain ⟨-, hkey⟩ := (ParsedTosUri.mk.injEq ..).mp he
    obtain rfl := Option.some.inj hkey
    exact ⟨hne, hpre⟩
  · exact fun h => ⟨_, ⟨h.1, rfl⟩, h.2⟩

theorem placed_local (hne : destination ≠ []) (ht : isTosUri destination = false)
    {item : TransferPlanItem} {r : Text}
    (hitem : item.destination = planDestination none destination (relativeOf parent r)) :
    Placed none destination item := by
  have hrel := relativeOf_relative parent r
  have hpath : item.destination = pathJoin destination (relativeOf parent r) := hitem
  by_cases hdots : "..".toList ∈ plainSegments (relativeOf parent r)
  · left
    have hmem : "..".toList ∈ segments '/' item.destination := by
      have hcomp := congrArg Prod.snd (pathComponents_join hne hrel)
      rw [← hpath] at hcomp
      have hin : "..".toList ∈ (pathComponents item.destination).2 := by
        rw [hcomp]
        exact List.mem_append_right _ hdots
      rcases List.mem_append.mp hin with hlead | hseg
      · split at hlead
        · exact absurd (List.mem_singleton.mp hlead) (by decide)
        · cases hlead
      · exact List.mem_of_mem_filter hseg
    have hnottos : isTosUri item.destination = false := by
      rw [hpath, isTosUri_pathJoin hne hrel, ht]
    simp [hasLocalParentDir, hnottos, parentDir_flagged hmem]
  · right
    refine ⟨plainSegments (relativeOf parent r), ?_, hdots⟩
    rw [hpath]
    exact pathComponents_join hne hrel

theorem tosSourceItem_destination {sourceTarget : ParsedTosUri} {entry : ObjectEntry}
    (hpre : trimStart '/' pre = pre) (hkey : pre <+: entry.key) :
    (tosSourceItem sourceTarget pre destination target parent entry).destination =
      planDestination target destination (relativeOf parent (behind pre entry.key)) := by
  rw [tosSourceItem, relative_of_under hpre hkey]

theorem sameDestination_iff (hp : ParentOk parent) (hne : destination ≠ [])
    {sourceTarget : ParsedTosUri} (hpre : trimStart '/' pre = pre) {a b : ObjectEntry}
    (ha : pre <+: a.key) (hb : pre <+: b.key) :
    SameDestination target (tosSourceItem sourceTarget pre destination target parent a)
        (tosSourceItem sourceTarget pre destination target parent b) ↔
      keyName target pre a.key = keyName target pre b.key := by
  cases target with
  | some t =>
    rw [SameDestination, tosSourceItem_destination hpre ha, tosSourceItem_destination hpre hb,
      same_tos_iff hp]
    simp [keyName]
  | none =>
    rw [SameDestination, tosSourceItem_destination hpre ha, tosSourceItem_destination hpre hb,
      same_local_iff hp hne]
    rfl

theorem wellMapped_iff (hp : ParentOk parent) (hne : destination ≠ [])
    (ht : parseDestination destination = .ok target) {sourceTarget : ParsedTosUri}
    (hpre : trimStart '/' pre = pre) {entries : List ObjectEntry}
    (hkeys : ∀ e ∈ entries, pre <+: e.key) :
    WellMapped target destination
        (entries.map (tosSourceItem sourceTarget pre destination target parent)) ↔
      Spaced target parent pre (entries.map ObjectEntry.key) := by
  have happart : (entries.map (tosSourceItem sourceTarget pre destination target parent)).Pairwise
      (fun a b => ¬ SameDestination target a b) ↔
      (entries.map ObjectEntry.key).Pairwise fun a b => keyName target pre a ≠ keyName target pre b := by
    rw [List.pairwise_map, List.pairwise_map]
    refine List.Pairwise.iff_of_mem fun {a b} ha hb => ?_
    rw [sameDestination_iff hp hne hpre (hkeys a ha) (hkeys b hb)]
  have hitem : ∀ e ∈ entries,
      (tosSourceItem sourceTarget pre destination target parent e).destination =
        planDestination target destination (relativeOf parent (behind pre e.key)) := fun e he =>
    tosSourceItem_destination hpre (hkeys e he)
  constructor
  · rintro ⟨hplaced, hapart⟩
    have hall : ∀ t, target = some t → ∀ e ∈ entries, _ := fun t hsome e he =>
      (placed_tos_iff hp (parseDestination_bucket (hsome ▸ ht)) (hsome ▸ hitem e he)).mp
        (hsome ▸ hplaced _ (List.mem_map_of_mem he))
    refine ⟨fun t hsome => ?_, fun t hsome hroot hparent key hkey hnil => ?_, happart.mp hapart⟩
    · rcases entries with - | ⟨e, entries⟩
      · exact .inl rfl
      · exact .inr (hall t hsome e List.mem_cons_self).2
    · obtain ⟨e, he, rfl⟩ := List.mem_map.mp hkey
      exact (hall t hsome e he).1 ⟨hroot, hparent, hnil⟩
  · rintro ⟨hsingle, hnamed, hapart⟩
    refine ⟨?_, happart.mpr hapart⟩
    intro item hm
    obtain ⟨e, he, rfl⟩ := List.mem_map.mp hm
    cases target with
    | none => exact placed_local hne (parseDestination_none ht) (hitem e he)
    | some t =>
      refine (placed_tos_iff hp (parseDestination_bucket ht) (hitem e he)).mpr ⟨?_, ?_⟩
      · exact fun h => hnamed t rfl h.1 h.2.1 e.key (List.mem_map_of_mem he) h.2.2
      · refine (hsingle t rfl).resolve_left fun hnil => ?_
        rw [List.map_eq_nil_iff] at hnil
        rw [hnil] at he
        cases he

theorem stream_items (ht : parseDestination destination = .ok target) (sourceTarget : ParsedTosUri)
    (entries : List ObjectEntry) :
    entries.mapM (tosStreamCopyItem sourceTarget pre destination parent) =
      .ok (entries.map (tosSourceItem sourceTarget pre destination target parent)) := by
  induction entries with
  | nil => rfl
  | cons e entries ih =>
    rw [List.mapM_cons, ih, tosStreamCopyItem, ht]
    rfl

def sourcePrefix (sourceTarget : ParsedTosUri) : Text :=
  (normalizeRecursiveTosTarget sourceTarget).key.getD []

theorem sourcePrefix_trimStart (sourceTarget : ParsedTosUri) :
    trimStart '/' (sourcePrefix sourceTarget) = sourcePrefix sourceTarget := by
  rw [sourcePrefix, normalizeRecursiveTosTarget]
  cases sourceTarget.key with
  | none => rfl
  | some key => exact normalizeRecursiveTosPrefix_trimStart (some key)

end Correct

theorem recursive_mapping_iff {isBlank : Text → Bool} (hblank : isBlank [] = true)
    {source destination : Text} {includeParent : Bool} {sourceTarget : ParsedTosUri}
    {parent : Option Text} (hs : parseTosUri source true = .ok sourceTarget)
    (hparent : recursiveSourceParentPrefix source includeParent = .ok parent)
    (hvalid : validateTransferPair isBlank source destination true = .ok ())
    {entries : List ObjectEntry}
    (hkeys : ∀ e ∈ entries, sourcePrefix sourceTarget <+: e.key) :
    ∃ target items, parseDestination destination = .ok target ∧
      buildTosSourceTransferItems (normalizeRecursiveTosTarget sourceTarget)
        (sourcePrefix sourceTarget) destination parent entries = .ok items ∧
      entries.mapM (tosStreamCopyItem (normalizeRecursiveTosTarget sourceTarget)
        (sourcePrefix sourceTarget) destination parent) = .ok items ∧
      items.map TransferPlanItem.source =
        entries.map (fun e => formatTosUri sourceTarget.bucket e.key) ∧
      (WellMapped target destination items ↔
        Spaced target parent (sourcePrefix sourceTarget) (entries.map ObjectEntry.key)) := by
  obtain ⟨hne, target, ht⟩ := validateTransferPair_ok hblank hvalid
  refine ⟨target, _, ht, ?_, stream_items ht _ entries, ?_,
    wellMapped_iff (parentOk_of_source hs hparent) hne ht (sourcePrefix_trimStart sourceTarget) hkeys⟩
  · rw [buildTosSourceTransferItems, ht]
    rfl
  · rw [List.map_map]
    rfl

def entry (key : Text) : ObjectEntry := ⟨key, 0, none, none⟩

def blank (t : Text) : Bool := t.all Char.isWhitespace

def nestedEntries : List ObjectEntry := [entry "a/x".toList, entry "a/y/x".toList, entry "a/y".toList]

theorem nested_spaced : Spaced (some ⟨"dst".toList, some "out".toList⟩) none "a/".toList
    (nestedEntries.map ObjectEntry.key) where
  single := by decide
  named := by decide
  apart := by decide

theorem recursive_mapping_sample :
    ∃ target items, parseDestination "tos://dst/out".toList = .ok target ∧
      buildTosSourceTransferItems ⟨"src".toList, some "a/".toList⟩ "a/".toList
        "tos://dst/out".toList none nestedEntries = .ok items ∧
      nestedEntries.mapM (tosStreamCopyItem ⟨"src".toList, some "a/".toList⟩ "a/".toList
        "tos://dst/out".toList none) = .ok items ∧
      items.map TransferPlanItem.destination =
        ["tos://dst/out/x".toList, "tos://dst/out/y/x".toList, "tos://dst/out/y".toList] ∧
      WellMapped target "tos://dst/out".toList items := by
  have hkeys : ∀ e ∈ nestedEntries, sourcePrefix ⟨"src".toList, some "a".toList⟩ <+: e.key := by decide
  obtain ⟨target, items, ht, hplanned, hstreamed, -, hmapped⟩ := @recursive_mapping_iff blank rfl
    "tos://src/a".toList "tos://dst/out".toList false ⟨"src".toList, some "a".toList⟩ none rfl rfl rfl _ hkeys
  obtain rfl : some ⟨"dst".toList, some "out".toList⟩ = target := Except.ok.inj (Eq.trans rfl ht)
  have hitems : items.map TransferPlanItem.destination =
      ["tos://dst/out/x".toList, "tos://dst/out/y/x".toList, "tos://dst/out/y".toList] := by
    rw [← Except.ok.inj (Eq.trans rfl hplanned)]
    decide
  exact ⟨_, items, rfl, hplanned, hstreamed, hitems, hmapped.mpr nested_spaced⟩

theorem extra_slash_collides :
    validateTransferPair blank "tos://src/a".toList "tos://dst/out".toList true = .ok () ∧
      ∃ items, buildTosSourceTransferItems ⟨"src".toList, some "a/".toList⟩ "a/".toList
          "tos://dst/out".toList none [entry "a/x".toList, entry "a//x".toList] = .ok items ∧
        items.map TransferPlanItem.source = ["tos://src/a/x".toList, "tos://src/a//x".toList] ∧
        items.map TransferPlanItem.destination =
          ["tos://dst/out/x".toList, "tos://dst/out/x".toList] :=
  ⟨rfl, _, rfl, by decide, by decide⟩

end VeStorage.Tos.Mapping
