import VeStorage.ADrive.Share.CollisionFree
import VeStorage.ADrive.Share.Facts
import Mathlib.Data.Set.Card

namespace VeStorage.ADrive.Share
open Lib
open Lib.Crash (bind_eq_ok)

variable (u : Unicode)

def Snapshot.Says (s : Snapshot) : Fact → Prop
  | .file file => file ∈ s.files
  | .folder directory => directory ∈ s.directories
  | .version directory version => (directory, version) ∈ s.directoryVersions

theorem Snapshot.Holds.eq_says {s : Snapshot} {facts : Set Fact} (h : s.Holds facts) :
    facts = {fact | s.Says fact} := by
  ext fact
  cases fact with
  | file file => exact (h.files file).symm
  | folder directory => exact (h.directories directory).symm
  | version directory version => exact (h.versions directory version).symm

theorem readDirectory_mono {u : Unicode} {listPage : ListPage} {scope marker : Option Text}
    {fuel fuel' : Nat} {markers : List Text} {listing : DirectoryListing}
    {result : Except CliError DirectoryListing} (hle : fuel ≤ fuel')
    (h : readDirectory u listPage scope fuel marker markers listing = some result) :
    readDirectory u listPage scope fuel' marker markers listing = some result := by
  induction fuel generalizing fuel' marker markers listing with
  | zero => cases h
  | succ fuel ih =>
    obtain ⟨more, rfl⟩ : ∃ more, fuel' = more + 1 := ⟨fuel' - 1, by omega⟩
    rw [readDirectory] at h ⊢
    split
    next heq =>
      rw [heq] at h
      exact h
    next heq =>
      rw [heq] at h
      exact h
    next heq =>
      rw [heq] at h
      exact ih (by omega) h

theorem Reads.unique {u : Unicode} {listPage : ListPage} {directory : Text}
    {result result' : Except CliError DirectoryListing} (h : Reads u listPage directory result)
    (h' : Reads u listPage directory result') : result = result' := by
  obtain ⟨fuel, hfuel⟩ := h
  obtain ⟨fuel', hfuel'⟩ := h'
  have hmax := readDirectory_mono (Nat.le_max_left fuel fuel') hfuel
  have hmax' := readDirectory_mono (Nat.le_max_right fuel fuel') hfuel'
  exact Option.some.inj (hmax.symm.trans hmax')

variable (listing : Text → Except CliError DirectoryListing) (start : Snapshot)

def Listed (directory : Text) (known : List Fact) : Prop :=
  ∃ found, listing directory = .ok found ∧ found.facts u = .ok known

inductive Reachable : Text → Prop
  | start (directory : Text) (h : directory ∈ start.directories) : Reachable directory
  | child (directory inner : Text) (known : List Fact) (h : Reachable directory)
      (hl : Listed u listing directory known) (hm : .folder inner ∈ known) : Reachable inner

def union : Set Fact :=
  {fact | start.Says fact} ∪
    {fact | ∃ directory known, Reachable u listing start directory ∧
      Listed u listing directory known ∧ fact ∈ known}

structure Enumerable : Prop where
  readable : ∀ directory, Reachable u listing start directory →
    ∃ known, Listed u listing directory known
  consistent : Consistent (union u listing start)

structure IsUnion (files : List RemoteFile) (directories : List Text) : Prop where
  filesOrdered : Ordered RemoteFile.path files
  directoriesOrdered : Ordered id directories
  files : ∀ f, f ∈ files ↔ .file f ∈ union u listing start
  directories : ∀ d, d ∈ directories ↔ .folder d ∈ union u listing start

def Scan.Read (x : Scan) (directory : Text) : Prop :=
  directory ∈ x.requested ∧ directory ∉ x.pending

def Scan.learned (x : Scan) : Set Fact :=
  {fact | start.Says fact} ∪
    {fact | ∃ directory known, x.Read directory ∧ Listed u listing directory known ∧ fact ∈ known}

structure Scan.Inv (x : Scan) : Prop where
  holds : x.snapshot.Holds (x.learned u listing start)
  frontier : x.snapshot.Frontier x.requested
  pendingNodup : x.pending.Nodup
  pendingRequested : x.pending ⊆ x.requested
  reachable : ∀ d ∈ x.snapshot.directories, Reachable u listing start d
  readable : ∀ d, x.Read d → ∃ known, Listed u listing d known
  roots : x.snapshot.roots = start.roots ∧ x.snapshot.policy = start.policy

variable {u listing start} {files files' : List RemoteFile} {directories directories' : List Text}

theorem Listed.unique {directory : Text} {known known' : List Fact}
    (h : Listed u listing directory known) (h' : Listed u listing directory known') :
    known = known' := by
  obtain ⟨found, hfound, hfacts⟩ := h
  obtain ⟨found', hfound', hfacts'⟩ := h'
  obtain rfl := Except.ok.inj (hfound.symm.trans hfound')
  exact Except.ok.inj (hfacts.symm.trans hfacts')

theorem IsUnion.unique (h : IsUnion u listing start files directories)
    (h' : IsUnion u listing start files' directories') :
    files = files' ∧ directories = directories' :=
  ⟨h.filesOrdered.ext h'.filesOrdered fun f => (h.files f).trans (h'.files f).symm,
    h.directoriesOrdered.ext h'.directoriesOrdered fun d =>
      (h.directories d).trans (h'.directories d).symm⟩

namespace Scan

variable {listPage : ListPage} {concurrency : Nat} {x x' : Scan}

theorem inv_start (h : start.Built u) : (Scan.start start).Inv u listing start := by
  obtain ⟨⟨facts, hs⟩, hf⟩ := h.holds
  refine ⟨?_, hf, List.nodup_nil, nofun, fun d hd => .start d hd, ?_, rfl, rfl⟩
  · have hnone : (Scan.start start).learned u listing start = {fact | start.Says fact} := by
      ext fact
      simp [learned, Scan.start, Read]
    rw [hnone, ← hs.eq_says]
    exact hs
  · rintro d ⟨hd, -⟩
    cases hd

theorem Inv.pending_reachable (h : x.Inv u listing start) {directory : Text}
    (hp : directory ∈ x.pending) : Reachable u listing start directory := by
  have hrequested := h.pendingRequested hp
  exact h.reachable directory ((h.frontier.mem directory).mp (List.mem_append_left _ hrequested))

theorem Inv.request {s : Snapshot} {directory : Text} {rest pending requested : List Text}
    (h : Inv u listing start ⟨s, pending, requested⟩) (hq : s.queue = directory :: rest) :
    Inv u listing start
      ⟨{ s with queue := rest }, pending ++ [directory], requested ++ [directory]⟩ := by
  have hnodup : (requested ++ s.queue).Nodup := h.frontier.nodup
  rw [hq, List.nodup_append] at hnodup
  have hnew : directory ∉ requested := fun hm =>
    hnodup.2.2 directory hm directory List.mem_cons_self rfl
  have hread : ∀ d, Read ⟨{ s with queue := rest }, pending ++ [directory],
      requested ++ [directory]⟩ d ↔ Read ⟨s, pending, requested⟩ d := by
    intro d
    have hne : d ∈ requested → d ≠ directory := fun hd he => hnew (he ▸ hd)
    simp only [Read, List.mem_append, List.mem_singleton]
    tauto
  refine ⟨?_, h.frontier.request hq, ?_, ?_, h.reachable, ?_, h.roots⟩
  · simp only [learned, hread]
    have hs := h.holds
    exact ⟨hs.filesOrdered, hs.directoriesOrdered, hs.versionsOrdered, hs.files, hs.directories,
      hs.versions⟩
  · refine List.nodup_append.mpr ⟨h.pendingNodup, List.nodup_singleton _, fun d hd e he => ?_⟩
    rw [List.mem_singleton.mp he]
    exact fun heq => hnew (heq ▸ h.pendingRequested hd)
  · intro d hd
    rcases List.mem_append.mp hd with hd | hd
    · exact List.mem_append_left _ (h.pendingRequested hd)
    · exact List.mem_append_right _ hd
  · exact fun d hd => h.readable d ((hread d).mp hd)

theorem Inv.complete {s s' : Snapshot} {directory : Text} {before after requested : List Text}
    {known : List Fact} (h : Inv u listing start ⟨s, before ++ directory :: after, requested⟩)
    (hl : Listed u listing directory known) (hs' : s.learnAll known = some s') :
    Inv u listing start ⟨s', before ++ after, requested⟩ := by
  have hpending : directory ∈ before ++ directory :: after := by simp
  have hnodup := List.nodup_middle.mp h.pendingNodup
  have hread : ∀ d, Read ⟨s', before ++ after, requested⟩ d ↔
      Read ⟨s, before ++ directory :: after, requested⟩ d ∨ d = directory := by
    intro d
    have hnot := (List.nodup_cons.mp hnodup).1
    have hrequested : d = directory → d ∈ requested := fun he => he ▸ h.pendingRequested hpending
    have hgone : d = directory → d ∉ before ++ after := fun he => he ▸ hnot
    simp only [Read, List.mem_append, List.mem_cons] at hrequested hgone ⊢
    tauto
  have hlearned : learned u listing start ⟨s', before ++ after, requested⟩ =
      learned u listing start ⟨s, before ++ directory :: after, requested⟩ ∪
        {fact | fact ∈ known} := by
    ext fact
    simp only [learned, hread, Set.mem_union, Set.mem_ofPred_eq]
    constructor
    · rintro (hstart | ⟨d, other, hd | rfl, hother, hmem⟩)
      · exact .inl (.inl hstart)
      · exact .inl (.inr ⟨d, other, hd, hother, hmem⟩)
      · exact .inr (hl.unique hother ▸ hmem)
    · rintro ((hstart | ⟨d, other, hd, hother, hmem⟩) | hmem)
      · exact .inl hstart
      · exact .inr ⟨d, other, .inl hd, hother, hmem⟩
      · exact .inr ⟨directory, known, .inr rfl, hl, hmem⟩
  have hs := h.holds.learnAll hs'
  refine ⟨hlearned ▸ hs, h.frontier.learnAll h.holds hs', (List.nodup_cons.mp hnodup).2, ?_, ?_, ?_, ?_⟩
  · exact fun d hd => h.pendingRequested (List.perm_middle.symm.mem_iff.mp (List.mem_cons_of_mem _ hd))
  · intro d hd
    rcases (hs.directories d).mp hd with hold | hnew
    · exact h.reachable d ((h.holds.directories d).mpr hold)
    · exact .child directory d known (h.pending_reachable hpending) hl hnew
  · intro d hd
    rcases (hread d).mp hd with hd | rfl
    · exact h.readable d hd
    · exact ⟨known, hl⟩
  · obtain ⟨hroots, hpolicy⟩ := Snapshot.learnAll_roots hs'
    exact ⟨hroots.trans h.roots.1, hpolicy.trans h.roots.2⟩

section Run

variable (hlisting : ∀ d, Reachable u listing start d → Reads u listPage d (listing d))
include hlisting

theorem Inv.listing_eq (h : x.Inv u listing start) {directory : Text}
    {result : Except CliError DirectoryListing} (hp : directory ∈ x.pending)
    (hread : Reads u listPage directory result) : listing directory = result :=
  (hlisting directory (h.pending_reachable hp)).unique hread

theorem Inv.step (h : x.Inv u listing start) (hs : Step u listPage concurrency x x') :
    x'.Inv u listing start := by
  cases hs with
  | request s directory rest pending requested _ hq => exact h.request hq
  | complete s s' directory before after requested found _ hread haccept =>
    obtain ⟨known, hknown, hlearn⟩ := (Snapshot.accept_learns found s').mp haccept
    have hfound := h.listing_eq hlisting (by simp) hread
    exact h.complete ⟨found, hfound, hknown⟩ hlearn

theorem Runs.inv (hbuilt : start.Built u) (h : Runs u listPage concurrency start x) :
    x.Inv u listing start := by
  induction h with
  | refl => exact inv_start hbuilt
  | tail _ hs ih => exact ih.step hlisting hs

end Run

theorem Inv.requested_nodup (h : x.Inv u listing start) : x.requested.Nodup :=
  (List.nodup_append.mp h.frontier.nodup).1

theorem Inv.requested_reachable (h : x.Inv u listing start) {directory : Text}
    (hd : directory ∈ x.requested) : Reachable u listing start directory :=
  h.reachable directory ((h.frontier.mem directory).mp (List.mem_append_left _ hd))

-- A drained scan has asked for whatever can be reached.
theorem Inv.reachable_requested (h : x.Inv u listing start) (hp : x.pending = [])
    (hq : x.snapshot.queue = []) {directory : Text} (hd : Reachable u listing start directory) :
    directory ∈ x.requested := by
  have hmem : ∀ d, .folder d ∈ x.learned u listing start → d ∈ x.requested := by
    intro d hfact
    have hrequested := (h.frontier.mem d).mpr ((h.holds.directories d).mpr hfact)
    rwa [hq, List.append_nil] at hrequested
  induction hd with
  | start directory hstart => exact hmem directory (.inl hstart)
  | child directory inner known _ hl hfact ih =>
    have hread : x.Read directory := ⟨ih, by simp [hp]⟩
    exact hmem inner (.inr ⟨directory, known, hread, hl, hfact⟩)

theorem Inv.learned_eq_union (h : x.Inv u listing start) (hp : x.pending = [])
    (hq : x.snapshot.queue = []) : x.learned u listing start = union u listing start := by
  have hread : ∀ d, x.Read d ↔ Reachable u listing start d := by
    intro d
    refine ⟨fun hd => h.requested_reachable hd.1, fun hd => ?_⟩
    exact ⟨h.reachable_requested hp hq hd, by simp [hp]⟩
  simp only [learned, union, hread]

theorem Inv.learned_subset (h : x.Inv u listing start) :
    x.learned u listing start ⊆ union u listing start := by
  rintro fact (hstart | ⟨d, known, hread, hl, hmem⟩)
  · exact .inl hstart
  · exact .inr ⟨d, known, h.requested_reachable hread.1, hl, hmem⟩

theorem Inv.enumerable (h : x.Inv u listing start) (hp : x.pending = [])
    (hq : x.snapshot.queue = []) : Enumerable u listing start where
  readable d hd := h.readable d ⟨h.reachable_requested hp hq hd, by simp [hp]⟩
  consistent := h.learned_eq_union hp hq ▸ h.holds.consistent

theorem Inv.isUnion (h : x.Inv u listing start) (hp : x.pending = [])
    (hq : x.snapshot.queue = []) :
    IsUnion u listing start x.snapshot.files x.snapshot.directories := by
  have hs := h.learned_eq_union hp hq ▸ h.holds
  exact ⟨hs.filesOrdered, hs.directoriesOrdered, hs.files, hs.directories⟩

theorem Inv.not_rejected (h : x.Inv u listing start) (he : Enumerable u listing start)
    {directory : Text} {found : DirectoryListing} (hp : directory ∈ x.pending)
    (hl : listing directory = .ok found) : ∃ s', x.snapshot.accept u found = .ok s' := by
  have hreachable := h.pending_reachable hp
  obtain ⟨known, hlisted⟩ := he.readable directory hreachable
  obtain ⟨found', hfound', hfacts⟩ := id hlisted
  obtain rfl := Except.ok.inj (hl.symm.trans hfound')
  have hsubset : x.learned u listing start ∪ {fact | fact ∈ known} ⊆ union u listing start :=
    Set.union_subset h.learned_subset fun fact hf => .inr ⟨directory, known, hreachable, hlisted, hf⟩
  obtain ⟨s', hs'⟩ := h.holds.exists_learnAll (he.consistent.mono hsubset)
  exact ⟨s', (Snapshot.accept_learns found s').mpr ⟨known, hfacts, hs'⟩⟩

-- Each step asks once or reads once.
def weight (x : Scan) : Nat := 2 * x.requested.length - x.pending.length

theorem Inv.pending_le (h : x.Inv u listing start) : x.pending.length ≤ x.requested.length :=
  (List.subperm_of_subset h.pendingNodup h.pendingRequested).length_le

theorem Step.weight (h : x.Inv u listing start) (hs : Step u listPage concurrency x x') :
    x'.weight = x.weight + 1 := by
  have hle := h.pending_le
  cases hs with
  | request =>
    simp only [Scan.weight, List.length_append, List.length_singleton] at hle ⊢
    omega
  | complete =>
    simp only [Scan.weight, List.length_append, List.length_cons] at hle ⊢
    omega

theorem Inv.weight_le (h : x.Inv u listing start)
    (hfinite : {d | Reachable u listing start d}.Finite) :
    x.weight ≤ 2 * {d | Reachable u listing start d}.ncard := by
  have hsubset : {d | d ∈ x.requested} ⊆ {d | Reachable u listing start d} :=
    fun d hd => h.requested_reachable hd
  have hcard := Set.ncard_le_ncard hsubset hfinite
  have hlength : {d | d ∈ x.requested}.ncard = x.requested.length := by
    have hset : {d | d ∈ x.requested} = (x.requested.toFinset : Set Text) := by
      ext d
      simp
    rw [hset, Set.ncard_coe_finset, List.toFinset_card_of_nodup h.requested_nodup]
  rw [Scan.weight]
  omega

theorem Ends.drained_empty {s : Snapshot} (hc : 0 < concurrency)
    (he : Ends u listPage concurrency x (.ok s)) :
    x.snapshot = s ∧ x.pending = [] ∧ x.snapshot.queue = [] := by
  cases he with
  | drained s requested hfull =>
    refine ⟨rfl, rfl, hfull.resolve_left ?_⟩
    simp only [List.length_nil]
    omega

theorem Ends.not_enumerable {err : CliError} (h : x.Inv u listing start)
    (hlisting : ∀ d, Reachable u listing start d → Reads u listPage d (listing d))
    (he : Ends u listPage concurrency x (.error err)) : ¬ Enumerable u listing start := by
  intro hgood
  cases he with
  | unread s directory pending requested err _ hp hread =>
    obtain ⟨known, found, hfound, -⟩ := hgood.readable directory (h.pending_reachable hp)
    have herror := h.listing_eq hlisting hp hread
    cases hfound.symm.trans herror
  | rejected s directory pending requested found err _ hp hread haccept =>
    obtain ⟨s', hs'⟩ := h.not_rejected hgood hp (h.listing_eq hlisting hp hread)
    cases haccept.symm.trans hs'

theorem Inv.progress (h : x.Inv u listing start)
    (hlisting : ∀ d, Reachable u listing start d → Reads u listPage d (listing d)) :
    (∃ x', Step u listPage concurrency x x') ∨ ∃ r, Ends u listPage concurrency x r := by
  obtain ⟨s, pending, requested⟩ := x
  by_cases hfull : Full concurrency ⟨s, pending, requested⟩
  · cases pending with
    | nil => exact .inr ⟨_, .drained s requested hfull⟩
    | cons directory after =>
      have hread := hlisting directory (h.pending_reachable List.mem_cons_self)
      cases hl : listing directory with
      | error err =>
        rw [hl] at hread
        exact .inr ⟨_, .unread s directory _ requested err hfull List.mem_cons_self hread⟩
      | ok found =>
        rw [hl] at hread
        cases ha : s.accept u found with
        | error err =>
          exact .inr ⟨_, .rejected s directory _ requested found err hfull List.mem_cons_self hread ha⟩
        | ok s' => exact .inl ⟨_, .complete s s' directory [] after requested found hfull hread ha⟩
  · obtain ⟨hlt, hne⟩ := not_or.mp hfull
    obtain ⟨directory, rest, hq⟩ := List.exists_cons_of_ne_nil hne
    exact .inl ⟨_, .request s directory rest pending requested (Nat.lt_of_not_le hlt) hq⟩

-- A scan asks for no directory twice and for none that cannot be reached, ends, and what it
-- yields depends on the listings alone.
structure Confluent (u : Unicode) (listPage : ListPage) (concurrency : Nat)
    (listing : Text → Except CliError DirectoryListing) (start : Snapshot) : Prop where
  once : ∀ x, Runs u listPage concurrency start x →
    x.requested.Nodup ∧ ∀ d ∈ x.requested, Reachable u listing start d
  complete : ∀ x s, Runs u listPage concurrency start x → Ends u listPage concurrency x (.ok s) →
    ∀ d, Reachable u listing start d → d ∈ x.requested
  finite : ∀ run : Nat → Scan, run 0 = Scan.start start →
    ¬ ∀ n, Step u listPage concurrency (run n) (run (n + 1))
  progress : ∀ x, Runs u listPage concurrency start x →
    (∃ x', Step u listPage concurrency x x') ∨ ∃ r, Ends u listPage concurrency x r
  result : ∀ x r, Runs u listPage concurrency start x → Ends u listPage concurrency x r →
    ∀ m, (r >>= Snapshot.finish u) = .ok m ↔ Enumerable u listing start ∧
      ∃ files directories, IsUnion u listing start files directories ∧
        buildManifest u start.roots files directories start.policy = .ok m

theorem Inv.result {r : Except CliError Snapshot} {m : Manifest} (h : x.Inv u listing start)
    (hc : 0 < concurrency)
    (hlisting : ∀ d, Reachable u listing start d → Reads u listPage d (listing d))
    (he : Ends u listPage concurrency x r) :
    (r >>= Snapshot.finish u) = .ok m ↔ Enumerable u listing start ∧
      ∃ files directories, IsUnion u listing start files directories ∧
        buildManifest u start.roots files directories start.policy = .ok m := by
  cases r with
  | error err =>
    refine ⟨nofun, fun hgood => ?_⟩
    exact absurd hgood.1 (he.not_enumerable h hlisting)
  | ok s =>
    obtain ⟨rfl, hp, hq⟩ := he.drained_empty hc
    have hunion := h.isUnion hp hq
    obtain ⟨hroots, hpolicy⟩ := h.roots
    simp only [bind_eq_ok, Except.ok.injEq, Snapshot.finish, hroots, hpolicy, exists_eq_left']
    constructor
    · intro hm
      exact ⟨h.enumerable hp hq, _, _, hunion, hm⟩
    · rintro ⟨-, files, directories, hunion', hm⟩
      obtain ⟨rfl, rfl⟩ := hunion.unique hunion'
      exact hm

theorem scan_directories_confluent (hbuilt : start.Built u) (hc : 0 < concurrency)
    (hfinite : {d | Reachable u listing start d}.Finite)
    (hlisting : ∀ d, Reachable u listing start d → Reads u listPage d (listing d)) :
    Confluent u listPage concurrency listing start where
  once x hx :=
    have h := hx.inv hlisting hbuilt
    ⟨h.requested_nodup, fun _ hd => h.requested_reachable hd⟩
  complete x s hx he d hd := by
    obtain ⟨-, hp, hq⟩ := he.drained_empty hc
    exact (hx.inv hlisting hbuilt).reachable_requested hp hq hd
  finite run hstart hsteps := by
    have hruns : ∀ n, Runs u listPage concurrency start (run n) := by
      intro n
      induction n with
      | zero => exact hstart ▸ .refl
      | succ n ih => exact ih.tail (hsteps n)
    have hweight : ∀ n, n ≤ (run n).weight := by
      intro n
      induction n with
      | zero => exact Nat.zero_le _
      | succ n ih =>
        have hstep := (hsteps n).weight ((hruns n).inv hlisting hbuilt)
        omega
    have hbound : ∀ n, n ≤ 2 * {d | Reachable u listing start d}.ncard := fun n =>
      (hweight n).trans (((hruns n).inv hlisting hbuilt).weight_le hfinite)
    exact absurd (hbound _) (Nat.not_succ_le_self _)
  progress x hx := (hx.inv hlisting hbuilt).progress hlisting
  result x r hx he m := (hx.inv hlisting hbuilt).result hc hlisting he

section Example

def pagesOf (listing : Text → Except CliError DirectoryListing) : ListPage := fun scope _ =>
  (listing (scope.getD [])).map fun found => ⟨[], false, found.folders, found.files⟩

-- Two folders and a file below `a/`, of which the first folder reads as `inner`.
def treeListing (inner : Except CliError DirectoryListing) (directory : Text) :
    Except CliError DirectoryListing :=
  if directory = "a/".toList then
    .ok ⟨[⟨"a/x".toList, [], 7, "tag".toList, 5, 0⟩], [⟨"a/b/".toList, 3⟩, ⟨"a/c/".toList, 0⟩]⟩
  else if directory = "a/b/".toList then inner
  else .ok ⟨[], []⟩

def treeStart : Snapshot where
  roots := ["a/".toList]
  files := []
  directories := ["a/".toList]
  queue := ["a/".toList]
  directoryVersions := []
  policy := .legacy

def treeScanned : Snapshot where
  roots := ["a/".toList]
  files := [⟨"a/x".toList, 7, "tag".toList, 5, 0⟩]
  directories := ["a/".toList, "a/b/".toList, "a/c/".toList]
  queue := ["a/b/".toList, "a/c/".toList]
  directoryVersions := [("a/b/".toList, 3)]
  policy := .legacy

theorem treeStart_built : treeStart.Built asciiUnicode :=
  .addDirectory _ _ "a/".toList (.empty ["a/".toList] .legacy) rfl

theorem tree_reads {inner : Except CliError DirectoryListing}
    (hinner : Reads asciiUnicode (pagesOf (treeListing inner)) "a/b/".toList inner)
    (directory : Text) :
    Reads asciiUnicode (pagesOf (treeListing inner)) directory (treeListing inner directory) := by
  by_cases ha : directory = "a/".toList
  · subst ha
    exact ⟨1, rfl⟩
  · by_cases hb : directory = "a/b/".toList
    · subst hb
      exact hinner
    · have hempty : treeListing inner directory = .ok ⟨[], []⟩ := by
        rw [treeListing, if_neg ha, if_neg hb]
      refine ⟨1, ?_⟩
      have hpages : ∀ marker, pagesOf (treeListing inner) (some directory) marker =
          .ok ⟨[], false, [], []⟩ := by
        intro marker
        rw [pagesOf, Option.getD_some, hempty]
        rfl
      rw [readDirectory, readPage, hpages, hempty]
      rfl

theorem tree_reachable {directory : Text}
    (h : Reachable asciiUnicode (treeListing (.ok ⟨[], []⟩)) treeStart directory) :
    directory ∈ ["a/".toList, "a/b/".toList, "a/c/".toList] := by
  induction h with
  | start directory h =>
    rw [List.mem_singleton.mp h]
    exact List.mem_cons_self
  | child directory inner known _ hl hm ih =>
    have hlisted : ∀ other ∈ ["a/".toList, "a/b/".toList, "a/c/".toList], ∃ facts,
        Listed asciiUnicode (treeListing (.ok ⟨[], []⟩)) other facts ∧
          ∀ inner, .folder inner ∈ facts → inner ∈ ["a/b/".toList, "a/c/".toList] := by
      intro other hother
      simp only [List.mem_cons, List.not_mem_nil, or_false] at hother
      rcases hother with rfl | rfl | rfl
      · refine ⟨[.version "a/b/".toList 3, .folder "a/b/".toList, .folder "a/c/".toList,
          .file ⟨"a/x".toList, 7, "tag".toList, 5, 0⟩], ⟨_, rfl, rfl⟩, fun inner hi => ?_⟩
        simpa using hi
      · exact ⟨_, ⟨_, rfl, rfl⟩, nofun⟩
      · exact ⟨_, ⟨_, rfl, rfl⟩, nofun⟩
    obtain ⟨facts, hfacts, hinner⟩ := hlisted directory ih
    exact List.mem_cons_of_mem _ (hinner inner (hl.unique hfacts ▸ hm))

theorem tree_confluent : Confluent asciiUnicode (pagesOf (treeListing (.ok ⟨[], []⟩))) 4
    (treeListing (.ok ⟨[], []⟩)) treeStart := by
  refine scan_directories_confluent treeStart_built (by decide) ?_ fun d _ => tree_reads ⟨1, rfl⟩ d
  refine Set.Finite.subset (List.finite_toSet ["a/".toList, "a/b/".toList, "a/c/".toList]) ?_
  exact fun d hd => tree_reachable hd

-- A folder that fails to read ends the scan before the next one is asked for.
theorem failed_scan_leaves_folder :
    let pages := pagesOf (treeListing (.error .http))
    ∃ x err, Runs asciiUnicode pages 1 treeStart x ∧ Ends asciiUnicode pages 1 x (.error err) ∧
      (∀ d, Reads asciiUnicode pages d (treeListing (.error .http) d)) ∧
      Reachable asciiUnicode (treeListing (.error .http)) treeStart "a/c/".toList ∧
      "a/c/".toList ∉ x.requested := by
  intro pages
  have hreads : ∀ d, Reads asciiUnicode pages d (treeListing (.error .http) d) :=
    tree_reads ⟨1, rfl⟩
  have hroot : Step asciiUnicode pages 1 (Scan.start treeStart)
      ⟨{ treeStart with queue := [] }, ["a/".toList], ["a/".toList]⟩ :=
    .request treeStart _ [] [] [] Nat.zero_lt_one rfl
  have hread : Step asciiUnicode pages 1
      ⟨{ treeStart with queue := [] }, ["a/".toList], ["a/".toList]⟩
      ⟨treeScanned, [], ["a/".toList]⟩ :=
    .complete _ _ _ [] [] _ _ (.inl (Nat.le_refl 1)) (hreads "a/".toList) rfl
  have hinner : Step asciiUnicode pages 1 ⟨treeScanned, [], ["a/".toList]⟩
      ⟨{ treeScanned with queue := ["a/c/".toList] }, ["a/b/".toList],
        ["a/".toList, "a/b/".toList]⟩ :=
    .request treeScanned _ ["a/c/".toList] [] _ Nat.zero_lt_one rfl
  refine ⟨_, .http, ((Relation.ReflTransGen.single hroot).tail hread).tail hinner, ?_, hreads, ?_,
    by decide⟩
  · exact .unread _ "a/b/".toList _ _ .http (.inl (Nat.le_refl 1)) List.mem_cons_self
      (hreads "a/b/".toList)
  · exact .child "a/".toList _ [.version "a/b/".toList 3, .folder "a/b/".toList,
      .folder "a/c/".toList, .file ⟨"a/x".toList, 7, "tag".toList, 5, 0⟩]
      (.start _ List.mem_cons_self) ⟨_, rfl, rfl⟩ (by simp)

end Example

end Scan

end VeStorage.ADrive.Share
