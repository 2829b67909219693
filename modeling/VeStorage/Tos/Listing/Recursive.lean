import VeStorage.Lib.Hierarchy
import VeStorage.Tos.Listing.Complete

namespace VeStorage.Tos.Listing
open Lib
open Lib.Hierarchy (Answer Runs Step State)
open Rm (ObjectVersionRef versionRank versionRank_injective)

def slash : Char := '/'

-- The rows a listing holds: each direct item, and each common prefix once.
structure Rows {I : Type} (key : I → Text) (delimiter : Option Char) (world : Finset I) (pre : Text)
    (rows : List (Row I)) : Prop where
  nodup : rows.Nodup
  entry : ∀ i, .entry i ∈ rows ↔ i ∈ world ∧ pre <+: key i ∧ Walk.isDirect delimiter pre (key i) = true
  commonPrefix : ∀ q, .commonPrefix q ∈ rows ↔ ∃ i ∈ world, pre <+: key i ∧
    Walk.isDirect delimiter pre (key i) = false ∧ Walk.commonPrefix delimiter pre (key i) = q

def delimiterParam (delimiter : Option Char) : Option Text := delimiter.map fun c => [c]

structure ServesObjects (S : Matching .listObjects (Row ObjectEntry)) (world : Finset ObjectEntry) :
    Prop where
  rows : ∀ pre delimiter, Rows ObjectEntry.key delimiter world (pre.getD [])
    (S (objectsQuery pre (delimiterParam delimiter) none)).items
  marked : ∀ q, (S q).Marked

structure ServesVersions (S : Matching .listObjectVersions (Row ObjectVersionRef))
    (world : Finset ObjectVersionRef) : Prop where
  rows : ∀ pre delimiter, Rows ObjectVersionRef.key delimiter world (pre.getD [])
    (S (versionsQuery pre (delimiterParam delimiter) none none)).items
  marked : ∀ q, (S q).Marked

def scanTosEntriesPrefix (S : Finset ObjectEntry → Matching .listObjects (Row ObjectEntry))
    (world : Finset ObjectEntry) (currentPrefix : Text) (entries : List ObjectEntry)
    (childPrefixes : List Text) : Prop :=
  ∃ fuel, listObjectEntriesWithPrefixes (S world) (some currentPrefix) (delimiterParam (some slash))
    fuel = some (.ok (entries, childPrefixes))

def scanTosVersionsPrefix
    (S : Finset ObjectVersionRef → Matching .listObjectVersions (Row ObjectVersionRef))
    (world : Finset ObjectVersionRef) (currentPrefix : Text) (versions : List ObjectVersionRef)
    (childPrefixes : List Text) : Prop :=
  ∃ fuel, listObjectVersionsWithPrefixes (S world) (some currentPrefix) (delimiterParam (some slash))
    fuel = some (.ok (versions, childPrefixes))

-- The end of `list_object_entries_recursive_with_progress` and of `list_object_versions_recursive`.
def finishEntries (entries : List ObjectEntry) : List ObjectEntry :=
  dedupBy ObjectEntry.key (sortOn ObjectEntry.key entries)

def finishVersions (versions : List ObjectVersionRef) : List ObjectVersionRef :=
  dedupBy id (sortOn versionRank versions)

-- `handed` is what a collecting walk gathers and what a streaming one (rm, cp, mv, restore) queues.
structure Agrees {I γ : Type} [DecidableEq I] [LinearOrder γ] (key : I → Text) (rank : I → γ)
    (scan : Finset I → Text → List I → List Text → Prop) (limit : Nat) (finish : List I → List I)
    (items : Finset I) (root : Text) (flat : List I) : Prop where
  sorted : flat.Pairwise fun i j => rank i < rank j
  all : ∀ i, i ∈ flat ↔ i ∈ items ∧ root <+: key i
  terminates : ∃ bound, ∀ removes n x, Runs scan limit removes n (State.init items root) x →
    n ≤ bound ∧ (x.Done ∨ ∃ x', Step scan limit removes x x')
  scanned_once : ∀ removes n x, Runs scan limit removes n (State.init items root) x → x.seen.Nodup
  collected : ∀ n x, Runs scan limit false n (State.init items root) x → x.Done →
    finish x.handed = flat
  streamed : ∀ removes n x, Runs scan limit removes n (State.init items root) x → x.Done →
    x.handed.Nodup ∧ ∀ i, i ∈ x.handed ↔ i ∈ flat

section Rows

variable {I : Type} {key : I → Text} {delimiter : Option Char} {world : Finset I} {pre : Text}
  {rows : List (Row I)}

theorem entriesOf_nodup (h : rows.Nodup) : (entriesOf rows).Nodup := by
  refine h.filterMap fun row row' i hi hi' => ?_
  cases row with
  | entry j =>
    cases row' with
    | entry j' => exact congrArg Row.entry ((Option.some.inj hi).trans (Option.some.inj hi').symm)
    | commonPrefix q => cases hi'
  | commonPrefix q => cases hi

theorem prefixesOf_nodup (h : rows.Nodup) : (prefixesOf rows).Nodup := by
  refine h.filterMap fun row row' q hq hq' => ?_
  cases row with
  | entry j => cases hq
  | commonPrefix p =>
    cases row' with
    | entry j => cases hq'
    | commonPrefix p' =>
      exact congrArg Row.commonPrefix ((Option.some.inj hq).trans (Option.some.inj hq').symm)

theorem Rows.answer (h : Rows key (some slash) world pre rows) {entries : List I}
    {children : List Text} (he : entries.Perm (entriesOf rows)) (hn : children.Nodup)
    (hc : ∀ q, q ∈ children ↔ q ∈ prefixesOf rows) : Answer key slash world pre entries children where
  entries_nodup := he.nodup_iff.mpr (entriesOf_nodup h.nodup)
  children_nodup := hn
  mem_entries := fun i => by rw [he.mem_iff, mem_entriesOf, h.entry]
  mem_children := fun q => by rw [hc, mem_prefixesOf, h.commonPrefix]

theorem Rows.flat (h : Rows key none world pre rows) (i : I) :
    i ∈ entriesOf rows ↔ i ∈ world ∧ pre <+: key i := by
  rw [mem_entriesOf, h.entry, Walk.isDirect]
  simp

end Rows

section Sorted

variable {α β γ : Type} [LinearOrder γ] [DecidableEq β]

theorem sortOn_strict {rank : α → γ} {l : List α} (hn : l.Nodup)
    (hr : ∀ a ∈ l, ∀ b ∈ l, rank a = rank b → a = b) :
    (sortOn rank l).Pairwise fun a b => rank a < rank b := by
  have hboth := (sortOn_pairwise rank l).and (sortOn_nodup hn)
  refine hboth.imp_of_mem fun {a b} ha hb hab => lt_of_le_of_ne hab.1 fun he => hab.2 ?_
  exact hr a (mem_sortOn.mp ha) b (mem_sortOn.mp hb) he

theorem dedupFrom_distinct {f : α → β} (last : α) (l : List α)
    (h : (last :: l).Pairwise fun a b => f a ≠ f b) : dedupFrom f last l = last :: l := by
  induction l generalizing last with
  | nil => rfl
  | cons b l ih =>
    obtain ⟨hlast, hrest⟩ := List.pairwise_cons.mp h
    have hne : f b ≠ f last := fun he => hlast b (List.mem_cons_self ..) he.symm
    rw [dedupFrom, if_neg hne, ih b hrest]

theorem dedupBy_distinct {f : α → β} {l : List α} (h : l.Pairwise fun a b => f a ≠ f b) :
    dedupBy f l = l := by
  cases l with
  | nil => rfl
  | cons a l => exact dedupFrom_distinct a l h

theorem strict_unique {rank : α → γ} {l l' : List α} (h : l.Pairwise fun a b => rank a < rank b)
    (h' : l'.Pairwise fun a b => rank a < rank b) (hmem : ∀ a, a ∈ l ↔ a ∈ l') : l = l' := by
  have hnodup : ∀ {m : List α}, m.Pairwise (fun a b => rank a < rank b) → m.Nodup :=
    fun hm => hm.imp fun hlt he => ne_of_lt hlt (congrArg rank he)
  have hp : l.Perm l' := (List.perm_ext_iff_of_nodup (hnodup h) (hnodup h')).mpr hmem
  exact hp.eq_of_pairwise (fun _ _ _ _ hab hba => absurd (hab.trans hba) (lt_irrefl _)) h h'

end Sorted

section Agrees

variable {I γ : Type} [DecidableEq I] [LinearOrder γ] {key : I → Text} {rank : I → γ}
  {scan : Finset I → Text → List I → List Text → Prop} {limit : Nat} {finish : List I → List I}
  {items : Finset I} {root : Text} {flat : List I}

theorem agrees_of (hscan : ∀ world ⊆ items, ∀ p entries children, scan world p entries children →
      Answer key slash world p entries children)
    (hexists : ∀ world ⊆ items, ∀ p, ∃ entries children, scan world p entries children)
    (hfinish : ∀ l : List I, l.Nodup → (∀ i ∈ l, i ∈ items) →
      (finish l).Pairwise (fun i j => rank i < rank j) ∧ ∀ i, i ∈ finish l ↔ i ∈ l)
    (hflat : flat.Pairwise fun i j => rank i < rank j)
    (hall : ∀ i, i ∈ flat ↔ i ∈ items ∧ root <+: key i) :
    Agrees key rank scan limit finish items root flat where
  sorted := hflat
  all := hall
  terminates := by
    refine ⟨Hierarchy.bound key items root (State.init items root), fun removes n x hrun => ?_⟩
    have hinv := Hierarchy.run_inv hscan hrun
    refine ⟨(Nat.le_add_right n _).trans (Hierarchy.run_bound hscan hrun), ?_⟩
    by_cases hd : x.Done
    · exact .inl hd
    · exact .inr (Hierarchy.step_exists hexists hinv.walk.world_items hd)
  scanned_once := fun _ _ _ hrun => (Hierarchy.run_inv hscan hrun).seen_nodup
  collected := by
    intro n x hrun hd
    obtain ⟨hnodup, hmem⟩ := Hierarchy.done_handed (Hierarchy.run_inv hscan hrun) hd
    obtain ⟨hsorted, hsame⟩ := hfinish x.handed hnodup fun i hi => ((hmem i).mp hi).1
    exact strict_unique hsorted hflat fun i => by rw [hsame, hmem, hall]
  streamed := by
    intro removes n x hrun hd
    obtain ⟨hnodup, hmem⟩ := Hierarchy.done_handed (Hierarchy.run_inv hscan hrun) hd
    exact ⟨hnodup, fun i => by rw [hmem, hall]⟩

end Agrees

section Objects

variable {S : Finset ObjectEntry → Matching .listObjects (Row ObjectEntry)}
  {objects : Finset ObjectEntry}

theorem objects_scan {world : Finset ObjectEntry} (hS : ServesObjects (S world) world) {p : Text}
    {entries : List ObjectEntry} {children : List Text}
    (h : scanTosEntriesPrefix S world p entries children) :
    Answer ObjectEntry.key slash world p entries children := by
  obtain ⟨fuel, hr⟩ := h
  have hrows := hS.rows (some p) (some slash)
  obtain ⟨hentries, hchildren⟩ := (withPrefixes_complete (S world) _ _).whole fuel _ hr
  refine hrows.answer hentries ?_ fun q => hchildren.mem_iff
  exact hchildren.nodup_iff.mpr (prefixesOf_nodup hrows.nodup)

theorem objects_scanned {world : Finset ObjectEntry} (hS : ServesObjects (S world) world) (p : Text) :
    ∃ entries children, scanTosEntriesPrefix S world p entries children := by
  obtain ⟨fuel, r, hr⟩ := (withPrefixes_complete (S world) (some p) (delimiterParam (some slash))).ends
    (hS.marked _)
  exact ⟨r.1, r.2, fuel, hr⟩

theorem finishEntries_sorted (hkeys : ∀ i ∈ objects, ∀ j ∈ objects, i.key = j.key → i = j)
    (l : List ObjectEntry) (hn : l.Nodup) (hl : ∀ i ∈ l, i ∈ objects) :
    (finishEntries l).Pairwise (fun i j => i.key < j.key) ∧ ∀ i, i ∈ finishEntries l ↔ i ∈ l := by
  have hstrict := sortOn_strict hn fun a ha b hb => hkeys a (hl a ha) b (hl b hb)
  rw [finishEntries, dedupBy_distinct (hstrict.imp ne_of_lt)]
  exact ⟨hstrict, fun _ => mem_sortOn⟩

theorem objects_agree (hkeys : ∀ i ∈ objects, ∀ j ∈ objects, i.key = j.key → i = j)
    (hS : ∀ world ⊆ objects, ServesObjects (S world) world) (pre : Option Text) (limit : Nat) :
    ∃ fuel flat, listObjectEntries (S objects) pre none fuel = some (.ok flat) ∧
      Agrees ObjectEntry.key ObjectEntry.key (scanTosEntriesPrefix S) limit finishEntries objects
        (pre.getD []) flat := by
  have hserves := hS objects (Finset.Subset.refl _)
  have hrows := hserves.rows pre none
  have hlist := entries_complete (S objects) pre none
  obtain ⟨fuel, r, hr⟩ := hlist.ends (hserves.marked _)
  obtain rfl := hlist.whole fuel r hr
  refine ⟨fuel, _, hr, agrees_of (fun world hw _ _ _ h => objects_scan (hS world hw) h)
    (fun world hw p => objects_scanned (hS world hw) p) (finishEntries_sorted hkeys) ?_ fun i => ?_⟩
  · refine sortOn_strict (entriesOf_nodup hrows.nodup) fun a ha b hb => ?_
    exact hkeys a ((hrows.flat a).mp ha).1 b ((hrows.flat b).mp hb).1
  · rw [mem_sortOn]
    exact hrows.flat i

end Objects

section Versions

variable {S : Finset ObjectVersionRef → Matching .listObjectVersions (Row ObjectVersionRef)}
  {versions : Finset ObjectVersionRef}

theorem versions_scan {world : Finset ObjectVersionRef} (hS : ServesVersions (S world) world) {p : Text}
    {entries : List ObjectVersionRef} {children : List Text}
    (h : scanTosVersionsPrefix S world p entries children) :
    Answer ObjectVersionRef.key slash world p entries children := by
  obtain ⟨fuel, hr⟩ := h
  obtain ⟨hentries, hnodup, hchildren⟩ := (versions_complete (marked_not_stepsOver (hS.marked _))).whole fuel _ hr
  refine (hS.rows (some p) (some slash)).answer ?_ hnodup hchildren
  exact (List.Perm.of_eq hentries).trans (sortOn_perm _ _)

theorem versions_scanned {world : Finset ObjectVersionRef} (hS : ServesVersions (S world) world)
    (p : Text) : ∃ entries children, scanTosVersionsPrefix S world p entries children := by
  obtain ⟨fuel, r, hr⟩ := (versions_complete (marked_not_stepsOver (hS.marked _))).ends (hS.marked _)
  exact ⟨r.1, r.2, fuel, hr⟩

theorem finishVersions_sorted (l : List ObjectVersionRef) (hn : l.Nodup) :
    (finishVersions l).Pairwise (fun i j => versionRank i < versionRank j) ∧
      ∀ i, i ∈ finishVersions l ↔ i ∈ l := by
  have hstrict := sortOn_strict hn fun a _ b _ h => versionRank_injective h
  have hdistinct := hstrict.imp fun {a b} hlt (he : id a = id b) =>
    ne_of_lt hlt (congrArg versionRank he)
  rw [finishVersions, dedupBy_distinct hdistinct]
  exact ⟨hstrict, fun _ => mem_sortOn⟩

theorem versions_agree (hS : ∀ world ⊆ versions, ServesVersions (S world) world) (pre : Option Text)
    (limit : Nat) :
    ∃ fuel flat prefixes, listObjectVersionsWithPrefixes (S versions) pre none fuel =
        some (.ok (flat, prefixes)) ∧
      Agrees ObjectVersionRef.key versionRank (scanTosVersionsPrefix S) limit finishVersions versions
        (pre.getD []) flat := by
  have hserves := hS versions (Finset.Subset.refl _)
  have hrows := hserves.rows pre none
  have hlist := @versions_complete (S versions) pre none (marked_not_stepsOver (hserves.marked _))
  obtain ⟨fuel, ⟨flat, prefixes⟩, hr⟩ := hlist.ends (hserves.marked _)
  obtain ⟨rfl, -⟩ := hlist.whole fuel _ hr
  refine ⟨fuel, _, prefixes, hr, agrees_of (fun world hw _ _ _ h => versions_scan (hS world hw) h)
    (fun world hw p => versions_scanned (hS world hw) p)
    (fun l hn _ => finishVersions_sorted l hn) ?_ fun i => ?_⟩
  · exact sortOn_strict (entriesOf_nodup hrows.nodup) fun a _ b _ h => versionRank_injective h
  · rw [mem_sortOn]
    exact hrows.flat i

end Versions

structure Bucket where
  objects : Finset ObjectEntry
  versions : Finset ObjectVersionRef
  distinct : ∀ i ∈ objects, ∀ j ∈ objects, i.key = j.key → i = j

-- The service at each state the bucket passes through while a consumer removes what it was handed.
structure BucketService (b : Bucket) where
  objects : Finset ObjectEntry → Matching .listObjects (Row ObjectEntry)
  versions : Finset ObjectVersionRef → Matching .listObjectVersions (Row ObjectVersionRef)
  serves_objects : ∀ world ⊆ b.objects, ServesObjects (objects world) world
  serves_versions : ∀ world ⊆ b.versions, ServesVersions (versions world) world

section OnePerPage

variable {I : Type} (key : I → Text) (delimiter : Option Char) (pre : Text)

def rowsOf (items : List I) : List (Row I) :=
  let matching := items.filter fun i => decide (pre <+: key i)
  (matching.filter fun i => Walk.isDirect delimiter pre (key i)).map .entry ++
    (((matching.filter fun i => !Walk.isDirect delimiter pre (key i)).map fun i =>
      Walk.commonPrefix delimiter pre (key i)).dedup).map .commonPrefix

theorem rowsOf_rows (world : Finset I) : Rows key delimiter world pre (rowsOf key delimiter pre world.toList) where
  nodup := by
    rw [rowsOf, List.nodup_append]
    refine ⟨?_, ?_, ?_⟩
    · refine List.Nodup.map (fun _ _ h => Row.entry.inj h) ?_
      exact ((Finset.nodup_toList world).filter _).filter _
    · exact List.Nodup.map (fun _ _ h => Row.commonPrefix.inj h) (List.nodup_dedup _)
    · intro row hrow row' hrow' he
      obtain ⟨i, -, rfl⟩ := List.mem_map.mp hrow
      obtain ⟨q, -, rfl⟩ := List.mem_map.mp hrow'
      cases he
  entry := fun i => by
    simp only [rowsOf, List.mem_append, List.mem_map, List.mem_filter, Finset.mem_toList]
    constructor
    · rintro (⟨j, ⟨⟨hj, hp⟩, hdir⟩, he⟩ | ⟨q, -, he⟩)
      · obtain rfl := Row.entry.inj he
        exact ⟨hj, of_decide_eq_true hp, hdir⟩
      · cases he
    · rintro ⟨hi, hp, hdir⟩
      exact .inl ⟨i, ⟨⟨hi, decide_eq_true hp⟩, hdir⟩, rfl⟩
  commonPrefix := fun q => by
    simp only [rowsOf, List.mem_append, List.mem_map, List.mem_dedup, List.mem_filter,
      Finset.mem_toList]
    constructor
    · rintro (⟨j, -, he⟩ | ⟨q', ⟨i, ⟨⟨hi, hp⟩, hdir⟩, rfl⟩, he⟩)
      · cases he
      · obtain rfl := Row.commonPrefix.inj he
        exact ⟨i, hi, of_decide_eq_true hp, by simpa using hdir, rfl⟩
    · rintro ⟨i, hi, hp, hdir, rfl⟩
      exact .inr ⟨_, ⟨i, ⟨⟨hi, decide_eq_true hp⟩, by simp [hdir]⟩, rfl⟩, rfl⟩

end OnePerPage

def queryPrefix (q : Query) : Text := (List.lookup .pre q).getD []

def queryDelimiter (q : Query) : Option Char := (List.lookup .delimiter q).bind List.head?

-- Every bucket has such a service: it answers one row a page.
noncomputable def onePerPage (b : Bucket) : BucketService b where
  objects := fun world q => oneByOne .listObjects
    (rowsOf ObjectEntry.key (queryDelimiter q) (queryPrefix q) world.toList) false false
  versions := fun world q => oneByOne .listObjectVersions
    (rowsOf ObjectVersionRef.key (queryDelimiter q) (queryPrefix q) world.toList) false false
  serves_objects := fun world _ => {
    rows := fun pre delimiter => by
      cases pre <;> cases delimiter <;> exact rowsOf_rows _ _ _ world
    marked := fun _ _ _ _ => rfl }
  serves_versions := fun world _ => {
    rows := fun pre delimiter => by
      cases pre <;> cases delimiter <;> exact rowsOf_rows _ _ _ world
    marked := fun _ _ _ _ => rfl }

theorem recursive_listings_agree (b : Bucket) (srv : BucketService b) (pre : Option Text)
    (limit : Nat) :
    (∃ fuel flat, listObjectEntries (srv.objects b.objects) pre none fuel = some (.ok flat) ∧
      Agrees ObjectEntry.key ObjectEntry.key (scanTosEntriesPrefix srv.objects) limit finishEntries
        b.objects (pre.getD []) flat) ∧
    ∃ fuel flat prefixes, listObjectVersionsWithPrefixes (srv.versions b.versions) pre none fuel =
        some (.ok (flat, prefixes)) ∧
      Agrees ObjectVersionRef.key versionRank (scanTosVersionsPrefix srv.versions) limit finishVersions
        b.versions (pre.getD []) flat :=
  ⟨objects_agree b.distinct srv.serves_objects pre limit, versions_agree srv.serves_versions pre limit⟩

end VeStorage.Tos.Listing
