import VeStorage.Tos.Plan
import VeStorage.Lib.Capped
import VeStorage.Lib.Sorted
import Mathlib.Data.List.Lex
import Mathlib.Data.Char

namespace VeStorage.Tos.Ls
open Lib
open Lib.Capped

def boundedListPageSize (returned maxKeys : Nat) : Nat := min (maxKeys - returned) 1000

-- What is read of the body of a ListObjects answer.
structure ListObjectsBody where
  contents : List ObjectEntry
  commonPrefixes : List Text
  isTruncated : Bool
  nextContinuationToken : Option Text

-- The objects of a page come before its common prefixes.
abbrev HeldObjects := HeldPair ObjectEntry Text

def HeldObjects.entries (held : HeldObjects) : List ObjectEntry := held.first

def HeldObjects.prefixes (held : HeldObjects) : List Text := held.second

def listing : Source HeldObjects ListObjectsBody Text CliError where
  limit := boundedListPageSize
  count held := held.returned
  absorb maxKeys held body := held.absorb maxKeys body.contents body.commonPrefixes
  next body :=
    if body.isTruncated = false then .ok none
    else match body.nextContinuationToken with
      | none => .error (.validationError
          "truncated ListObjects JSON response is missing a continuation token".toList)
      | some token => .ok (some token)

def listObjectEntriesWithPrefixesLimited (maxKeys : Nat) (initialContinuationToken : Option Text)
    (listObjects : Nat → Except CliError ListObjectsBody) (fuel : Nat) :
    List (Request Text) ×
      Option (Except CliError (List ObjectEntry × List Text × Option Text)) :=
  let listed := listing.list listObjects maxKeys initialContinuationToken .empty fuel
  (listed.1, listed.2.map (·.map fun out =>
    (dedupBy ObjectEntry.key (sortOn ObjectEntry.key (HeldObjects.entries out.held)),
      dedupBy id (sortOn id (HeldObjects.prefixes out.held)), out.nextMarker)))

structure Rows where
  objects : List ObjectEntry
  prefixes : List Text

def currentFolderMarker (rootPrefix : Option Text) : Option Text :=
  rootPrefix.filter fun root => ['/'] <:+ root

def Rows.push (rootPrefix : Option Text) (rows : Rows) (object : ObjectEntry) : Rows :=
  if currentFolderMarker rootPrefix = some object.key then rows
  else if object.key ∈ rows.prefixes then rows
  else if ['/'] <:+ object.key then { rows with prefixes := rows.prefixes ++ [object.key] }
  else { rows with objects := rows.objects ++ [object] }

-- `prefix_set` holds the names in `prefixes`.
def dedupeLsObjectsAndPrefixes (objects : List ObjectEntry) (commonPrefixes : List Text)
    (rootPrefix : Option Text) : Rows :=
  objects.foldl (Rows.push rootPrefix) ⟨[], commonPrefixes⟩

-- The listing of a path, as `execute_ls` shows it.
def executeLs (maxKeys : Nat) (key continuationToken : Option Text)
    (listObjects : Nat → Except CliError ListObjectsBody) (fuel : Nat) :
    List (Request Text) × Option (Except CliError (Rows × Option Text)) :=
  let listed := listObjectEntriesWithPrefixesLimited maxKeys continuationToken listObjects fuel
  (listed.1, listed.2.map (·.map fun (objects, prefixes, nextToken) =>
    (dedupeLsObjectsAndPrefixes objects prefixes key, nextToken)))

def entries (body : ListObjectsBody) : List (ObjectEntry ⊕ Text) :=
  HeldPair.items body.contents body.commonPrefixes

def entryName : ObjectEntry ⊕ Text → Text
  | .inl object => object.key
  | .inr name => name

theorem listing_represents : Represents listing entries HeldPair.Holds where
  count h := h.returned
  absorb maxKeys body h := h.absorb maxKeys body.contents body.commonPrefixes

section Rows

variable {root : Option Text} {rows : Rows} {os : List ObjectEntry}

theorem push_prefixes (root : Option Text) (rows : Rows) (o : ObjectEntry) (k : Text) :
    k ∈ (rows.push root o).prefixes ↔
      k ∈ rows.prefixes ∨ (o.key = k ∧ ['/'] <:+ k ∧ currentFolderMarker root ≠ some k) := by
  unfold Rows.push
  split
  · next hmarker =>
    refine (or_iff_left ?_).symm
    rintro ⟨rfl, -, hnot⟩
    exact hnot hmarker
  · next hmarker =>
    split
    · next hmem =>
      refine ⟨.inl, fun h => h.elim id ?_⟩
      rintro ⟨rfl, -⟩
      exact hmem
    · split
      · next hslash =>
        rw [List.mem_append, List.mem_singleton]
        refine or_congr_right ⟨?_, fun hk => hk.1.symm⟩
        rintro rfl
        exact ⟨rfl, hslash, hmarker⟩
      · next hslash =>
        refine (or_iff_left ?_).symm
        rintro ⟨rfl, hk, -⟩
        exact hslash hk

theorem push_objects (root : Option Text) (rows : Rows) (o x : ObjectEntry) :
    x ∈ (rows.push root o).objects ↔
      x ∈ rows.objects ∨ (x = o ∧ currentFolderMarker root ≠ some x.key ∧ x.key ∉ rows.prefixes ∧
        ¬ ['/'] <:+ x.key) := by
  unfold Rows.push
  split
  · next hmarker =>
    refine (or_iff_left ?_).symm
    rintro ⟨rfl, hnot, -⟩
    exact hnot hmarker
  · next hmarker =>
    split
    · next hmem =>
      refine (or_iff_left ?_).symm
      rintro ⟨rfl, -, hnot, -⟩
      exact hnot hmem
    · next hmem =>
      split
      · next hslash =>
        refine (or_iff_left ?_).symm
        rintro ⟨rfl, -, -, hnot⟩
        exact hnot hslash
      · next hslash =>
        rw [List.mem_append, List.mem_singleton]
        refine or_congr_right ⟨?_, fun hx => hx.1⟩
        rintro rfl
        exact ⟨rfl, hmarker, hmem, hslash⟩

theorem foldl_prefixes (os : List ObjectEntry) (rows : Rows) (k : Text) :
    k ∈ (os.foldl (Rows.push root) rows).prefixes ↔
      k ∈ rows.prefixes ∨ (k ∈ os.map ObjectEntry.key ∧ ['/'] <:+ k ∧
        currentFolderMarker root ≠ some k) := by
  induction os generalizing rows with
  | nil => simp
  | cons o rest ih =>
    rw [List.foldl_cons, ih, push_prefixes, List.map_cons, List.mem_cons]
    tauto

theorem foldl_objects (os : List ObjectEntry) (rows : Rows) (x : ObjectEntry) :
    x ∈ (os.foldl (Rows.push root) rows).objects ↔
      x ∈ rows.objects ∨ (x ∈ os ∧ currentFolderMarker root ≠ some x.key ∧ x.key ∉ rows.prefixes ∧
        ¬ ['/'] <:+ x.key) := by
  induction os generalizing rows with
  | nil => simp
  | cons o rest ih =>
    rw [List.foldl_cons, ih, push_objects, push_prefixes, List.mem_cons]
    tauto

-- Rows under distinct names, and the objects that are still to be added.
structure Rows.Inv (rows : Rows) (os : List ObjectEntry) : Prop where
  names : (rows.objects.map ObjectEntry.key ++ rows.prefixes).Nodup
  plain : ∀ x ∈ rows.objects, ¬ ['/'] <:+ x.key
  pending : (os.map ObjectEntry.key).Nodup
  fresh : ∀ o ∈ os, o.key ∉ rows.objects.map ObjectEntry.key

theorem Rows.Inv.push {o : ObjectEntry} (h : rows.Inv (o :: os)) : (rows.push root o).Inv os := by
  have hpending := List.nodup_cons.mp h.pending
  have hfresh : ∀ x ∈ os, x.key ∉ rows.objects.map ObjectEntry.key :=
    fun x hx => h.fresh x (List.mem_cons_of_mem _ hx)
  have ho := h.fresh o List.mem_cons_self
  unfold Rows.push
  split
  · exact ⟨h.names, h.plain, hpending.2, hfresh⟩
  · split
    · exact ⟨h.names, h.plain, hpending.2, hfresh⟩
    · next hmem =>
      split
      · refine ⟨?_, h.plain, hpending.2, hfresh⟩
        rw [← List.append_assoc]
        refine h.names.append (List.nodup_singleton _) ?_
        rw [List.disjoint_singleton]
        exact fun hin => (List.mem_append.mp hin).elim ho hmem
      · next hslash =>
        have hnames : ((rows.objects ++ [o]).map ObjectEntry.key ++ rows.prefixes).Perm
            (o.key :: (rows.objects.map ObjectEntry.key ++ rows.prefixes)) := by
          rw [List.map_append, List.append_assoc]
          exact List.perm_middle
        refine ⟨hnames.nodup_iff.mpr (List.nodup_cons.mpr ⟨?_, h.names⟩), ?_, hpending.2, ?_⟩
        · exact fun hin => (List.mem_append.mp hin).elim ho hmem
        · intro x hx
          rcases List.mem_append.mp hx with hx | hx
          · exact h.plain x hx
          · exact List.mem_singleton.mp hx ▸ hslash
        · intro x hx hin
          rw [List.map_append, List.mem_append] at hin
          rcases hin with hin | hin
          · exact hfresh x hx hin
          · exact hpending.1 (List.mem_singleton.mp hin ▸ List.mem_map_of_mem hx)

theorem Rows.Inv.foldl (h : rows.Inv os) : (os.foldl (Rows.push root) rows).Inv [] := by
  induction os generalizing rows with
  | nil => exact h
  | cons o rest ih => exact ih h.push

def Rows.size (rows : Rows) : Nat := rows.objects.length + rows.prefixes.length

theorem push_size (root : Option Text) (rows : Rows) (o : ObjectEntry) : (rows.push root o).size ≤ rows.size + 1 := by
  unfold Rows.push
  split
  · exact Nat.le_succ _
  · split
    · exact Nat.le_succ _
    · split
      · simp only [Rows.size, List.length_append, List.length_singleton]
        omega
      · simp only [Rows.size, List.length_append, List.length_singleton]
        omega

theorem foldl_size (root : Option Text) (os : List ObjectEntry) (rows : Rows) :
    (os.foldl (Rows.push root) rows).size ≤ rows.size + os.length := by
  induction os generalizing rows with
  | nil => exact Nat.le_refl _
  | cons o rest ih =>
    have hrest := ih (rows.push root o)
    have hone := push_size root rows o
    rw [List.foldl_cons, List.length_cons]
    omega

end Rows

section Shown

variable {root : Option Text} {held : HeldObjects} {acc : List (ObjectEntry ⊕ Text)}

-- An entry stands in the rows as itself, or as the directory of the same name.
def Rows.Shows (rows : Rows) : ObjectEntry ⊕ Text → Prop
  | .inl object => (∃ shown ∈ rows.objects, shown.key = object.key) ∨ object.key ∈ rows.prefixes
  | .inr name => name ∈ rows.prefixes

-- The marker object of the listed folder.
def IsListed (root : Option Text) : ObjectEntry ⊕ Text → Prop
  | .inl object => currentFolderMarker root = some object.key
  | .inr _ => False

-- `taken` is enough for `e` to be shown.
def Stands (root : Option Text) : ObjectEntry ⊕ Text → ObjectEntry ⊕ Text → Prop
  | .inl object, .inl taken =>
      taken.key = object.key ∧ currentFolderMarker root ≠ some object.key
  | .inl object, .inr taken => taken = object.key
  | .inr name, .inl taken =>
      taken.key = name ∧ ['/'] <:+ name ∧ currentFolderMarker root ≠ some name
  | .inr name, .inr taken => taken = name

theorem Stands.name {e taken : ObjectEntry ⊕ Text} (h : Stands root e taken) :
    entryName taken = entryName e := by
  cases e with
  | inl object =>
    cases taken with
    | inl taken => exact h.1
    | inr taken => exact h
  | inr name =>
    cases taken with
    | inl taken => exact h.1
    | inr taken => exact h

def rowsOf (root : Option Text) (held : HeldObjects) : Rows :=
  dedupeLsObjectsAndPrefixes
    (dedupBy ObjectEntry.key (sortOn ObjectEntry.key held.entries))
    (dedupBy id (sortOn id held.prefixes)) root

theorem mem_keys (h : held.Holds acc) (k : Text) :
    k ∈ (dedupBy ObjectEntry.key (sortOn ObjectEntry.key held.entries)).map ObjectEntry.key ↔
      ∃ object, .inl object ∈ acc ∧ object.key = k := by
  rw [List.mem_map]
  constructor
  · rintro ⟨object, hmem, rfl⟩
    exact ⟨object, (h.mem_first object).mp
      (mem_sortOn.mp ((dedupBy_sublist ObjectEntry.key _).subset hmem)), rfl⟩
  · rintro ⟨object, hmem, rfl⟩
    exact dedupBy_covers ObjectEntry.key _ (mem_sortOn.mpr ((h.mem_first object).mpr hmem))

theorem rows_prefixes (h : held.Holds acc) (k : Text) :
    k ∈ (rowsOf root held).prefixes ↔ .inr k ∈ acc ∨
      ((∃ object, .inl object ∈ acc ∧ object.key = k) ∧ ['/'] <:+ k ∧
        currentFolderMarker root ≠ some k) := by
  rw [rowsOf, dedupeLsObjectsAndPrefixes, foldl_prefixes, mem_keys h, mem_dedupBy_sortOn]
  exact or_congr_left (h.mem_second k)

theorem rows_objects (h : held.Holds acc) (k : Text) :
    (∃ shown ∈ (rowsOf root held).objects, shown.key = k) ↔
      (∃ object, .inl object ∈ acc ∧ object.key = k) ∧ currentFolderMarker root ≠ some k ∧
        .inr k ∉ acc ∧ ¬ ['/'] <:+ k := by
  have hprefix : k ∈ dedupBy id (sortOn id held.prefixes) ↔ .inr k ∈ acc :=
    mem_dedupBy_sortOn.trans (h.mem_second k)
  rw [← hprefix, ← mem_keys h, List.mem_map]
  constructor
  · rintro ⟨shown, hmem, rfl⟩
    rw [rowsOf, dedupeLsObjectsAndPrefixes, foldl_objects] at hmem
    obtain ⟨hmem, hrest⟩ := hmem.resolve_left nofun
    exact ⟨⟨shown, hmem, rfl⟩, hrest⟩
  · rintro ⟨⟨shown, hmem, rfl⟩, hrest⟩
    refine ⟨shown, ?_, rfl⟩
    rw [rowsOf, dedupeLsObjectsAndPrefixes, foldl_objects]
    exact .inr ⟨hmem, hrest⟩

theorem shows_iff (h : held.Holds acc) (e : ObjectEntry ⊕ Text) :
    (rowsOf root held).Shows e ↔ ∃ taken ∈ acc, Stands root e taken := by
  cases e with
  | inl object =>
    rw [Rows.Shows, rows_objects h, rows_prefixes h]
    constructor
    · rintro (⟨⟨taken, hmem, hkey⟩, hmarker, -⟩ | hmem | ⟨⟨taken, hmem, hkey⟩, -, hmarker⟩)
      · exact ⟨.inl taken, hmem, hkey, hmarker⟩
      · exact ⟨.inr object.key, hmem, rfl⟩
      · exact ⟨.inl taken, hmem, hkey, hmarker⟩
    · rintro ⟨taken | taken, hmem, hstands⟩
      · obtain ⟨hkey, hmarker⟩ := hstands
        by_cases hprefix : .inr object.key ∈ acc
        · exact .inr (.inl hprefix)
        · by_cases hslash : ['/'] <:+ object.key
          · exact .inr (.inr ⟨⟨taken, hmem, hkey⟩, hslash, hmarker⟩)
          · exact .inl ⟨⟨taken, hmem, hkey⟩, hmarker, hprefix, hslash⟩
      · have hname : taken = object.key := hstands
        exact .inr (.inl (hname ▸ hmem))
  | inr name =>
    rw [Rows.Shows, rows_prefixes h]
    constructor
    · rintro (hmem | ⟨⟨taken, hmem, hkey⟩, hslash, hmarker⟩)
      · exact ⟨.inr name, hmem, rfl⟩
      · exact ⟨.inl taken, hmem, hkey, hslash, hmarker⟩
    · rintro ⟨taken | taken, hmem, hstands⟩
      · obtain ⟨hkey, hslash, hmarker⟩ := hstands
        exact .inr ⟨⟨taken, hmem, hkey⟩, hslash, hmarker⟩
      · have hname : taken = name := hstands
        exact .inl (hname ▸ hmem)

theorem rows_inv (root : Option Text) (held : HeldObjects) : (rowsOf root held).Inv [] := by
  refine Rows.Inv.foldl ⟨?_, nofun, ?_, nofun⟩
  · exact dedupBy_sortOn_nodup Function.injective_id held.prefixes
  · exact dedupBy_nodup ObjectEntry.key (fun _ _ => Iff.rfl) _ (sortOn_pairwise _ _)

theorem rows_size (h : held.Holds acc) : (rowsOf root held).size ≤ acc.length := by
  have hrows := foldl_size root
    (dedupBy ObjectEntry.key (sortOn ObjectEntry.key held.entries))
    ⟨[], dedupBy id (sortOn id held.prefixes)⟩
  have hobjects := ((dedupBy_sublist ObjectEntry.key _).length_le).trans_eq
    (sortOn_perm ObjectEntry.key held.entries).length_eq
  have hprefixes := ((dedupBy_sublist id _).length_le).trans_eq
    (sortOn_perm id held.prefixes).length_eq
  have hsize := h.size
  unfold rowsOf dedupeLsObjectsAndPrefixes
  simp only [Rows.size, HeldObjects.entries, HeldObjects.prefixes, List.length_nil] at *
  omega

end Shown

def GoodSize (limit : Nat) : Prop := 1 ≤ limit ∧ limit ≤ 1000

-- What `ls` returns once it has read these pages, and when it hides nothing.
structure Listed (answers : Nat → Except CliError ListObjectsBody) (maxKeys : Nat)
    (key continuationToken : Option Text) (pages : List ListObjectsBody)
    (sent : List (Request Text)) (rows : Rows) (nextToken : Option Text) : Prop where
  tokens : sent.map (·.marker) = continuationToken :: pages.dropLast.map (nextOf listing.next)
  bounded : rows.objects.length + rows.prefixes.length ≤ maxKeys
  names : (rows.objects.map ObjectEntry.key ++ rows.prefixes).Nodup
  next : nextToken = pages.getLast?.bind (nextOf listing.next)
  hides : Covers listing.next entries answers pages (fun e => IsListed key e ∨ rows.Shows e)
      nextToken ↔
    ∀ e ∈ (pages.flatMap entries).drop maxKeys,
      (IsListed key e ∨ ∃ taken ∈ (pages.flatMap entries).take maxKeys, Stands key e taken) ∨
        Reached listing.next entries answers pages.length e
  fits : (pages.flatMap entries).length ≤ maxKeys →
    Covers listing.next entries answers pages (fun e => IsListed key e ∨ rows.Shows e) nextToken
  distinct : DistinctBy entries answers entryName →
    (∀ e ∈ (pages.flatMap entries).drop maxKeys, ¬ IsListed key e) →
    Covers listing.next entries answers pages (fun e => IsListed key e ∨ rows.Shows e) nextToken →
    (pages.flatMap entries).length ≤ maxKeys

section Run

variable {answers : Nat → Except CliError ListObjectsBody} {maxKeys : Nat}
  {key continuationToken : Option Text} {pages : List ListObjectsBody} {fuel : Nat}

theorem executeLs_eq (fuel : Nat) :
    executeLs maxKeys key continuationToken answers fuel =
      let run := (listing.loop maxKeys).run answers fuel 0 ⟨.empty, continuationToken, none⟩
      (run.1, run.2.map (·.map fun s => (rowsOf key s.held, s.next))) := by
  unfold executeLs listObjectEntriesWithPrefixesLimited Source.list
  dsimp only
  refine Prod.ext rfl ?_
  rw [Option.map_map, Option.map_map]
  refine congrArg (fun f => Option.map f _) (funext fun result => ?_)
  cases result <;> rfl

theorem boundedListPageSize_good (returned : Nat) (h : returned < maxKeys) :
    GoodSize (boundedListPageSize returned maxKeys) := by
  unfold GoodSize boundedListPageSize
  omega

theorem listed_of_reads (hmax : 0 < maxKeys)
    (h : Reads listing.next entries maxKeys answers 0 0 pages) (hfuel : pages.length ≤ fuel) :
    ∃ sent rows nextToken, executeLs maxKeys key continuationToken answers fuel =
        (sent, some (.ok (rows, nextToken))) ∧
      Listed answers maxKeys key continuationToken pages sent rows nextToken := by
  obtain ⟨sent, s, hrun, hresult⟩ := run_of_reads (s := ⟨.empty, continuationToken, none⟩)
    listing_represents h HeldPair.empty_holds rfl hmax hfuel
  have hheld := hresult.held
  rw [List.nil_append] at hheld
  have hshows : ∀ e, (IsListed key e ∨ (rowsOf key s.held).Shows e) ↔
      IsListed key e ∨ ∃ taken ∈ (pages.flatMap entries).take maxKeys, Stands key e taken :=
    fun e => or_congr_right (shows_iff hheld e)
  have hself : ∀ e ∈ (pages.flatMap entries).take maxKeys,
      IsListed key e ∨ (rowsOf key s.held).Shows e := by
    intro e he
    by_cases hlisted : IsListed key e
    · exact .inl hlisted
    · refine (hshows e).mpr (.inr ⟨e, he, ?_⟩)
      cases e with
      | inl object => exact ⟨rfl, hlisted⟩
      | inr name => rfl
  have hiff := covers_iff_cut h hresult.next hself
  refine ⟨sent, rowsOf key s.held, s.next, ?_, hresult.markers, ?_, (rows_inv key s.held).names,
    hresult.next, ?_, fun hfits => hiff.mpr ?_, fun hdistinct hlisted hcovers => ?_⟩
  · rw [executeLs_eq, hrun]
    rfl
  · exact (rows_size hheld).trans (List.length_take_le _ _)
  · exact hiff.trans (forall₂_congr fun e _ => or_congr_left (hshows e))
  · rw [List.drop_of_length_le hfits]
    exact nofun
  · refine fits_of_no_cut fun e he => ?_
    rcases hiff.mp hcovers e he with hshown | hreached
    · rcases (hshows e).mp hshown with hmarker | ⟨taken, htaken, hstands⟩
      · exact hlisted e he hmarker
      · exact cut_not_taken h hdistinct he htaken hstands.name
    · exact cut_not_reached h hdistinct he hreached

end Run

theorem ls_shows_all_iff (maxKeys : Nat) (hmax : 0 < maxKeys) (key continuationToken : Option Text)
    (answers : Nat → Except CliError ListObjectsBody) :
    (∀ fuel, ∀ q ∈ (executeLs maxKeys key continuationToken answers fuel).1, GoodSize q.limit) ∧
    (∀ fuel rows nextToken,
      (executeLs maxKeys key continuationToken answers fuel).2 = some (.ok (rows, nextToken)) →
      ∃ pages, Reads listing.next entries maxKeys answers 0 0 pages ∧ pages.length ≤ fuel) ∧
    ∀ pages, Reads listing.next entries maxKeys answers 0 0 pages →
      ∀ fuel, pages.length ≤ fuel →
        ∃ sent rows nextToken, executeLs maxKeys key continuationToken answers fuel =
            (sent, some (.ok (rows, nextToken))) ∧
          Listed answers maxKeys key continuationToken pages sent rows nextToken := by
  refine ⟨fun fuel => ?_, fun fuel rows nextToken h => ?_,
    fun pages h fuel hfuel => listed_of_reads hmax h hfuel⟩
  · rw [executeLs_eq]
    have hgood : ∀ returned, returned < maxKeys → GoodSize (listing.limit returned maxKeys) :=
      boundedListPageSize_good
    exact run_limits hgood fuel
  · rw [executeLs_eq] at h
    obtain ⟨result, hrun, hout⟩ := Option.map_eq_some_iff.mp h
    cases result with
    | error e => cases hout
    | ok s => exact reads_of_run listing_represents HeldPair.empty_holds rfl hmax hrun

-- Two objects on the only page of a listing that asks for one.
def overfullBody : ListObjectsBody :=
  ⟨[⟨['a'], 1, none, none⟩, ⟨['b'], 2, none, none⟩], [], false, none⟩

theorem ls_hides :
    ∃ rows, (executeLs 1 none none (fun _ => .ok overfullBody) 1).2 = some (.ok (rows, none)) ∧
      ∃ object ∈ overfullBody.contents,
        (∀ shown ∈ rows.objects, shown.key ≠ object.key) ∧ object.key ∉ rows.prefixes := by
  refine ⟨⟨[⟨['a'], 1, none, none⟩], []⟩, ?_, ⟨['b'], 2, none, none⟩, by decide, by decide,
    by decide⟩
  have hrun : ((listing.loop 1).run (fun _ => .ok overfullBody) 1 0 ⟨.empty, none, none⟩).2 =
      some (.ok ⟨⟨[⟨['a'], 1, none, none⟩], [], 1⟩, none, none⟩) := rfl
  rw [executeLs_eq]
  dsimp only
  rw [hrun]
  simp [rowsOf, sortOn, dedupBy, dedupFrom, HeldObjects.entries, HeldObjects.prefixes,
    dedupeLsObjectsAndPrefixes, Rows.push, currentFolderMarker, Except.map]
  decide

theorem ls_shows_all_iff_one :
    0 < 1 ∧ ∀ pages, Reads listing.next entries 1 (fun _ => .ok overfullBody) 0 0 pages →
      ∀ fuel, pages.length ≤ fuel →
        ∃ sent rows nextToken, executeLs 1 none none (fun _ => .ok overfullBody) fuel =
            (sent, some (.ok (rows, nextToken))) ∧
          Listed (fun _ => .ok overfullBody) 1 none none pages sent rows nextToken := by
  have hmax : 0 < 1 := by decide
  obtain ⟨-, -, hreturns⟩ := ls_shows_all_iff 1 hmax none none fun _ => .ok overfullBody
  exact ⟨hmax, hreturns⟩

end VeStorage.Tos.Ls
