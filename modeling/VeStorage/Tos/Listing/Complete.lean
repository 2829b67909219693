import VeStorage.Tos.Listing.Enumerate

namespace VeStorage.Tos.Listing
open Lib
open Rm (ObjectVersionRef MultipartUploadRef versionRank namedUploads)

section Queries

variable (pre delimiter : Option Text)

theorem objects_read (token : Option Text) :
    readMarker .listObjects (objectsQuery pre delimiter token) = ⟨token, none⟩ := by
  cases pre <;> cases delimiter <;> cases token <;> rfl

theorem objects_strip (token : Option Text) :
    stripMarker .listObjects (objectsQuery pre delimiter token) = objectsQuery pre delimiter none := by
  cases pre <;> cases delimiter <;> cases token <;> rfl

theorem versions_read (k v : Option Text) :
    readMarker .listObjectVersions (versionsQuery pre delimiter k v) = ⟨k, v⟩ := by
  cases pre <;> cases delimiter <;> cases k <;> cases v <;> rfl

theorem versions_strip (k v : Option Text) :
    stripMarker .listObjectVersions (versionsQuery pre delimiter k v) =
      versionsQuery pre delimiter none none := by
  cases pre <;> cases delimiter <;> cases k <;> cases v <;> rfl

theorem uploads_read (k u : Option Text) :
    readMarker .listMultipartUploads (uploadsQuery pre k u) = ⟨k, u⟩ := by
  cases pre <;> cases k <;> cases u <;> rfl

theorem uploads_strip (k u : Option Text) :
    stripMarker .listMultipartUploads (uploadsQuery pre k u) = uploadsQuery pre none none := by
  cases pre <;> cases k <;> cases u <;> rfl

variable (uploadId : Text) (marker : Option Text)

theorem parts_read : readMarker .listParts (listPartsQuery .veTos uploadId marker) = ⟨marker, none⟩ := by
  cases marker <;> rfl

theorem parts_strip : stripMarker .listParts (listPartsQuery .veTos uploadId marker) =
    listPartsQuery .veTos uploadId none := by
  cases marker <;> rfl

-- The marker has no place in the query of this binary.
theorem parts_read_tos : readMarker .listParts (listPartsQuery .tos uploadId marker) = .none := rfl

theorem parts_strip_tos : stripMarker .listParts (listPartsQuery .tos uploadId marker) =
    listPartsQuery .tos uploadId none := rfl

end Queries

section Markers

variable {api : Api} {α : Type} (S : ApiService api α)

theorem next_first (n : Nat) : (S.next n).first =
    if S.omitsFirst n then none else (S.token (S.after n)).first := by
  rw [S.next_eq]
  rfl

theorem next_second (n : Nat) : (S.next n).second =
    if S.omitsSecond n then none else (S.token (S.after n)).second := by
  rw [S.next_eq]
  rfl

theorem first_given {n : Nat} (h : (S.next n).first.isSome = true) :
    (S.next n).first = (S.token (S.after n)).first := by
  rw [next_first] at h ⊢
  split at h
  · cases h
  · rename_i ho
    rw [if_neg ho]

-- A page that gives its first marker never sends the loop back.
theorem first_given_forward {n : Nat} (h : (S.next n).first.isSome = true) :
    S.after n ≤ S.position (S.next n) := by
  have hfirst := first_given S h
  cases ho : S.omitsSecond n with
  | true =>
    have hsecond : (S.next n).second = none := by rw [next_second, ho, if_pos rfl]
    have hnext : S.next n = ⟨(S.token (S.after n)).first, none⟩ := Marker.ext hfirst hsecond
    rw [hnext]
    exact S.position_first_alone _
  | false =>
    have hsecond : (S.next n).second = (S.token (S.after n)).second := by
      rw [next_second, ho, if_neg Bool.false_ne_true]
    rw [Marker.ext hfirst hsecond, S.position_token]

theorem first_omitted_back {n : Nat} (h : (S.next n).first.isSome = false) :
    S.position (S.next n) = 0 := by
  have hnone : (S.next n).first = none := by simpa using h
  have hnext : S.next n = ⟨none, (S.next n).second⟩ := Marker.ext hnone rfl
  rw [hnext]
  exact S.position_second_alone _

theorem next_single (h : api.secondMarker = none) (n : Nat) : (S.next n).second = none := by
  rw [next_second, S.token_single h]
  split <;> rfl

theorem single_straight (h : api.secondMarker = none) {n : Nat} (hn : (S.next n).first.isSome = true) :
    S.position (S.next n) = S.after n := by
  have hsecond := (next_single S h n).trans (S.token_single h (S.after n)).symm
  rw [Marker.ext (first_given S hn) hsecond, S.position_token]

end Markers

section Faithful

variable (pre delimiter : Option Text)

theorem objects_faithful (S : Matching .listObjects (Row ObjectEntry)) :
    Faithful (S (objectsQuery pre delimiter none)).toService (fun next => next.first.isSome)
      fun m => S.send (objectsQuery pre delimiter m.first) where
  fetch_first := by
    rw [Matching.send, objects_strip, objects_read, (S _).first_eq]
    rfl
  fetch_next := fun n _ => by
    rw [Matching.send, objects_strip, objects_read]
    exact congrArg _ (Marker.ext rfl (next_single _ rfl n).symm)

theorem versions_faithful (S : Matching .listObjectVersions (Row ObjectVersionRef)) :
    Faithful (S (versionsQuery pre delimiter none none)).toService
      (fun next => next.first.isSome || next.second.isSome)
      fun m => S.send (versionsQuery pre delimiter m.first m.second) where
  fetch_first := by rw [Matching.send, versions_strip, versions_read]
  fetch_next := fun n _ => by rw [Matching.send, versions_strip, versions_read]

theorem uploads_faithful (S : Matching .listMultipartUploads MultipartUploadRef) :
    Faithful (S (uploadsQuery pre none none)).toService (fun next => next.first.isSome)
      fun m => S.send (uploadsQuery pre m.first m.second) where
  fetch_first := by rw [Matching.send, uploads_strip, uploads_read]
  fetch_next := fun n _ => by rw [Matching.send, uploads_strip, uploads_read]

theorem parts_faithful (S : Matching .listParts Nat) (uploadId : Text) :
    Faithful (S (listPartsQuery .veTos uploadId none)).toService (fun next => next.first.isSome)
      fun m => S.send (listPartsQuery .veTos uploadId m.first) where
  fetch_first := by
    rw [Matching.send, parts_strip, parts_read, (S _).first_eq]
    rfl
  fetch_next := fun n _ => by
    rw [Matching.send, parts_strip, parts_read]
    exact congrArg _ (Marker.ext rfl (next_single _ rfl n).symm)

end Faithful

-- Complete against a service that gives every marker; never a part of the set reported as all of it.
structure Enumerates {ρ : Type} (run : Nat → Outcome ρ) (marked : Prop) (complete : ρ → Prop) : Prop where
  ends : marked → ∃ fuel r, run fuel = some (.ok r)
  whole : ∀ fuel r, run fuel = some (.ok r) → complete r

section Loops

variable {api : Api} {α ρ : Type} {S : ApiService api α} {fetch : Marker → Page α Marker}
  {proceed : Marker → Bool} {complete : ρ → Prop}

-- A loop that goes on with every first marker.
theorem marked_goes (hm : S.Marked) (hp : ∀ m : Marker, m.first.isSome = true → proceed m = true)
    {n : Nat} (hn : S.Begins 0 n) (ht : S.truncated n = true) :
    Goes S.toService proceed n (S.after n) := by
  have hnext := hm n hn ht
  refine ⟨ht, ?_, ?_⟩
  · rw [hnext]
    exact hp _ (S.token_first _)
  · rw [hnext, S.position_token]

theorem marked_begins (hm : S.Marked) {n : Nat} (hn : Reads S.toService proceed 0 n) : S.Begins 0 n := by
  induction hn with
  | refl => exact .refl
  | @tail p q _ hgo ih =>
    refine ih.tail ⟨hgo.truncated, ?_⟩
    rw [hgo.position, hm p ih hgo.truncated, S.position_token]

theorem marked_straight (hm : S.Marked) {p q : Nat} (hp : Reads S.toService proceed 0 p)
    (hgo : Goes S.toService proceed p q) : q = S.after p := by
  rw [hgo.position, hm p (marked_begins hm hp) hgo.truncated, S.position_token]

theorem marked_way (hm : S.Marked) (hp : ∀ m : Marker, m.first.isSome = true → proceed m = true) {n : Nat}
    (hn : S.Begins 0 n) : ∃ k, Reads S.toService proceed n k ∧ S.truncated k = false := by
  cases ht : S.truncated n with
  | false => exact ⟨n, .refl, ht⟩
  | true =>
    have hlt := S.lt_after n
    have hafter := S.after_lt ht
    obtain ⟨k, hk, he⟩ := marked_way hm hp (hn.tail ⟨ht, rfl⟩)
    exact ⟨k, .head (marked_goes hm hp hn ht) hk, he⟩
termination_by S.items.length - n

theorem at_none (hf : Faithful S.toService proceed fetch) : At S.toService fetch 0 .none := by
  rw [← S.first_eq]
  exact hf.at_first

theorem loop_marked {done missing : List α → ρ} (hf : Faithful S.toService proceed fetch)
    (hm : S.Marked) (hp : ∀ m : Marker, m.first.isSome = true → proceed m = true) :
    ∃ fuel, paginate fetch proceed done missing fuel .none [] = some (done S.items) := by
  obtain ⟨k, hk, he⟩ := marked_way hm hp .refl
  obtain ⟨l, hl⟩ := Reads.collects hk
  refine paginate_collects hf hl (at_none hf) (.inl ⟨he, ?_⟩)
  rw [List.nil_append, collected_items hl he fun p q hp hgo _ => marked_straight hm hp hgo]

-- Whatever a loop that refuses returns comes from pages without a gap.
theorem refusing_enumerates (hf : Faithful S.toService proceed fetch)
    (hp : ∀ m : Marker, m.first.isSome = true → proceed m = true)
    (hs : ∀ k, S.truncated k = false → ∀ p q, Reads S.toService proceed 0 p →
      Goes S.toService proceed p q → Reads S.toService proceed q k → q = S.after p)
    (done : List α → ρ) (e : Text) (hc : complete (done S.items)) :
    Enumerates (fun fuel => paginate fetch proceed (fun l => .ok (done l)) (fun _ => .error e) fuel
      .none []) S.Marked complete where
  ends := fun hm => by
    obtain ⟨fuel, hr⟩ := loop_marked hf hm hp
    exact ⟨fuel, _, hr⟩
  whole := by
    intro fuel r hr
    obtain ⟨k, l, hl, ⟨hk, he⟩ | ⟨-, -, he⟩⟩ := paginate_reads hf (at_none hf) hr
    · rw [List.nil_append, collected_items hl hk (hs k hk)] at he
      obtain rfl := Except.ok.inj he
      exact hc
    · cases he

theorem single_enumerates (hsingle : api.secondMarker = none)
    (hf : Faithful S.toService (fun next => next.first.isSome) fetch) (done : List α → ρ) (e : Text)
    (hc : complete (done S.items)) :
    Enumerates (fun fuel => paginate fetch (fun next => next.first.isSome) (fun l => .ok (done l))
      (fun _ => .error e) fuel .none []) S.Marked complete := by
  refine refusing_enumerates hf (fun m h => h) (fun _ _ p q _ hgo _ => ?_) done e hc
  rw [hgo.position]
  exact single_straight S hsingle hgo.proceeds

end Loops

section Pages

variable (S : Matching .listObjects (Row ObjectEntry)) (pre delimiter : Option Text)

def pagesDone (rows : List (Row ObjectEntry)) : Except Text (List ObjectEntry × List Text) :=
  .ok (entriesOf rows, prefixesOf rows)

theorem entriesOf_append {I : Type} (rows rows' : List (Row I)) :
    entriesOf (rows ++ rows') = entriesOf rows ++ entriesOf rows' := List.filterMap_append ..

theorem prefixesOf_append {I : Type} (rows rows' : List (Row I)) :
    prefixesOf (rows ++ rows') = prefixesOf rows ++ prefixesOf rows' := List.filterMap_append ..

theorem forEachPage_eq (fuel : Nat) (m : Marker) (rows : List (Row ObjectEntry)) :
    forEachPage S pre delimiter fuel m.first (entriesOf rows) (prefixesOf rows) =
      paginate (fun m => S.send (objectsQuery pre delimiter m.first)) (fun next => next.first.isSome)
        pagesDone (fun _ => .error missingToken) fuel m rows := by
  induction fuel generalizing m rows with
  | zero => rfl
  | succ fuel ih =>
    rw [forEachPage, paginate, listObjectEntriesPage]
    cases ht : (S.send (objectsQuery pre delimiter m.first)).isTruncated with
    | false => simp [pagesDone, entriesOf_append, prefixesOf_append]
    | true =>
      cases hn : (S.send (objectsQuery pre delimiter m.first)).next.first with
      | none => simp
      | some token =>
        have hrest := ih (S.send (objectsQuery pre delimiter m.first)).next
          (rows ++ (S.send (objectsQuery pre delimiter m.first)).items)
        rw [hn, entriesOf_append, prefixesOf_append] at hrest
        simpa using hrest

theorem forEachPage_start : (fun fuel => forEachPage S pre delimiter fuel none [] []) = fun fuel =>
    paginate (fun m => S.send (objectsQuery pre delimiter m.first)) (fun next => next.first.isSome)
      pagesDone (fun _ => .error missingToken) fuel .none [] :=
  funext fun fuel => forEachPage_eq S pre delimiter fuel .none []

end Pages

structure Request where
  binary : Binary
  pre : Option Text
  delimiter : Option Text
  uploadId : Text

-- Versions and uploads are sets.
structure Services where
  objects : Matching .listObjects (Row ObjectEntry)
  versions : Matching .listObjectVersions (Row ObjectVersionRef)
  uploads : Matching .listMultipartUploads MultipartUploadRef
  parts : Matching .listParts Nat
  versions_nodup : ∀ q, (versions q).items.Nodup
  uploads_nodup : ∀ q, (uploads q).items.Nodup
  uploads_named : ∀ q, ∀ u ∈ (uploads q).items, u.key ≠ [] ∧ u.uploadId ≠ []

namespace Services

variable (srv : Services) (req : Request)

def objectRows : ApiService .listObjects (Row ObjectEntry) :=
  srv.objects (objectsQuery req.pre req.delimiter none)

def versionRows : ApiService .listObjectVersions (Row ObjectVersionRef) :=
  srv.versions (versionsQuery req.pre req.delimiter none none)

def uploadRefs : ApiService .listMultipartUploads MultipartUploadRef :=
  srv.uploads (uploadsQuery req.pre none none)

def partNumbers : ApiService .listParts Nat :=
  srv.parts (listPartsQuery req.binary req.uploadId none)

end Services

structure EnumerationsComplete (srv : Services) (req : Request) : Prop where
  entries : Enumerates (listObjectEntries srv.objects req.pre req.delimiter)
    (srv.objectRows req).Marked
    fun r => r = sortOn ObjectEntry.key (entriesOf (srv.objectRows req).items)
  withPrefixes : Enumerates (listObjectEntriesWithPrefixes srv.objects req.pre req.delimiter)
    (srv.objectRows req).Marked fun r => r.1.Perm (entriesOf (srv.objectRows req).items) ∧
      r.2.Perm (prefixesOf (srv.objectRows req).items)
  pages : Enumerates (fun fuel => forEachPage srv.objects req.pre req.delimiter fuel none [] [])
    (srv.objectRows req).Marked fun r => r.1 = entriesOf (srv.objectRows req).items ∧
      r.2 = prefixesOf (srv.objectRows req).items
  versions : Enumerates (listObjectVersionsWithPrefixes srv.versions req.pre req.delimiter)
    (srv.versionRows req).Marked
    fun r => r.1 = sortOn versionRank (entriesOf (srv.versionRows req).items) ∧ r.2.Nodup ∧
      ∀ q, q ∈ r.2 ↔ q ∈ prefixesOf (srv.versionRows req).items
  uploads : Enumerates (listMultipartUploadsForRm srv.uploads req.pre)
    (srv.uploadRefs req).Marked fun r => r.Perm (srv.uploadRefs req).items
  parts : Enumerates (listUploadedPartNumbers req.binary srv.parts req.uploadId)
    (srv.partNumbers req).Marked fun r => r = (srv.partNumbers req).items.toFinset

-- Every truncated page carries a first marker, and the service takes up there where the page ended.
def ApiService.TakesUp {api : Api} {α : Type} (S : ApiService api α) : Prop :=
  ∀ n, S.Begins 0 n → S.truncated n = true →
    (S.next n).first.isSome = true ∧ S.position (S.next n) = S.after n

-- On the way to the last page some key marker, without its version id marker, starts behind versions
-- that no page has brought yet.
def ApiService.StepsOver {api : Api} {α : Type} (S : ApiService api α) : Prop :=
  Lib.StepsOver S.toService fun next => next.first.isSome || next.second.isSome

section Rows

variable {I : Type} {rows : List (Row I)}

theorem mem_entriesOf {i : I} : i ∈ entriesOf rows ↔ .entry i ∈ rows := by
  simp only [entriesOf, List.mem_filterMap]
  constructor
  · rintro ⟨row, hrow, he⟩
    cases row with
    | entry j =>
      obtain rfl := Option.some.inj he
      exact hrow
    | commonPrefix q => cases he
  · exact fun h => ⟨_, h, rfl⟩

theorem mem_prefixesOf {q : Text} : q ∈ prefixesOf rows ↔ .commonPrefix q ∈ rows := by
  simp only [prefixesOf, List.mem_filterMap]
  constructor
  · rintro ⟨row, hrow, he⟩
    cases row with
    | entry j => cases he
    | commonPrefix q' =>
      obtain rfl := Option.some.inj he
      exact hrow
  · exact fun h => ⟨_, h, rfl⟩

end Rows

section Objects

variable (S : Matching .listObjects (Row ObjectEntry)) (pre delimiter : Option Text)

theorem entries_complete : Enumerates (listObjectEntries S pre delimiter)
    (S (objectsQuery pre delimiter none)).Marked
    fun r => r = sortOn ObjectEntry.key (entriesOf (S (objectsQuery pre delimiter none)).items) :=
  single_enumerates rfl (objects_faithful pre delimiter S) _ _ rfl

theorem withPrefixes_complete : Enumerates (listObjectEntriesWithPrefixes S pre delimiter)
    (S (objectsQuery pre delimiter none)).Marked
    fun r => r.1.Perm (entriesOf (S (objectsQuery pre delimiter none)).items) ∧
      r.2.Perm (prefixesOf (S (objectsQuery pre delimiter none)).items) :=
  single_enumerates rfl (objects_faithful pre delimiter S) _ _ ⟨sortOn_perm _ _, sortOn_perm _ _⟩

theorem pages_complete : Enumerates (fun fuel => forEachPage S pre delimiter fuel none [] [])
    (S (objectsQuery pre delimiter none)).Marked
    fun r => r.1 = entriesOf (S (objectsQuery pre delimiter none)).items ∧
      r.2 = prefixesOf (S (objectsQuery pre delimiter none)).items := by
  rw [forEachPage_start]
  exact single_enumerates rfl (objects_faithful pre delimiter S)
    (fun rows => (entriesOf rows, prefixesOf rows)) missingToken ⟨rfl, rfl⟩

end Objects

section Versions

variable {S : Matching .listObjectVersions (Row ObjectVersionRef)} {pre delimiter : Option Text}

-- A version id marker alone leads back to the first page, and so never to the last one.
theorem versions_forward {S : ApiService .listObjectVersions (Row ObjectVersionRef)} {k p q : Nat}
    (hk : S.truncated k = false)
    (hp : Reads S.toService (fun next => next.first.isSome || next.second.isSome) 0 p)
    (hgo : Goes S.toService (fun next => next.first.isSome || next.second.isSome) p q)
    (hq : Reads S.toService (fun next => next.first.isSome || next.second.isSome) q k) :
    S.after p ≤ q := by
  cases hfirst : (S.next p).first.isSome with
  | true =>
    rw [hgo.position]
    exact first_given_forward S hfirst
  | false =>
    have hback : q = 0 := hgo.position.trans (first_omitted_back S hfirst)
    subst hback
    exact (not_back hp hgo hq hk).elim

theorem versions_complete (h : ¬ (S (versionsQuery pre delimiter none none)).StepsOver) :
    Enumerates (listObjectVersionsWithPrefixes S pre delimiter)
      (S (versionsQuery pre delimiter none none)).Marked
      fun r => r.1 = sortOn versionRank (entriesOf (S (versionsQuery pre delimiter none none)).items) ∧
        r.2.Nodup ∧ ∀ q, q ∈ r.2 ↔ q ∈ prefixesOf (S (versionsQuery pre delimiter none none)).items := by
  refine refusing_enumerates (versions_faithful pre delimiter S) (fun m hm => by rw [hm, Bool.true_or])
    (fun k hk p q hp hgo hq => ?_) _ _
    ⟨rfl, dedupBy_sortOn_nodup Function.injective_id _, fun _ => mem_dedupBy_sortOn⟩
  have hle := versions_forward hk hp hgo hq
  have hover := mt (fun hlt => ⟨p, q, k, hp, hgo, hlt, hq, hk⟩) h
  exact (Nat.le_antisymm hle (Nat.le_of_not_lt hover)).symm

theorem marked_not_stepsOver {api : Api} {α : Type} {S : ApiService api α} (hm : S.Marked) :
    ¬ S.StepsOver := by
  rintro ⟨n, m, k, hn, hgo, hlt, -⟩
  have := marked_straight hm hn hgo
  omega

theorem versions_complete_iff
    (hnodup : (S (versionsQuery pre delimiter none none)).items.Nodup) :
    Enumerates (listObjectVersionsWithPrefixes S pre delimiter)
      (S (versionsQuery pre delimiter none none)).Marked
      (fun r => r.1 = sortOn versionRank (entriesOf (S (versionsQuery pre delimiter none none)).items) ∧
        r.2.Nodup ∧ ∀ q, q ∈ r.2 ↔ q ∈ prefixesOf (S (versionsQuery pre delimiter none none)).items) ↔
      ¬ (S (versionsQuery pre delimiter none none)).StepsOver := by
  refine ⟨?_, versions_complete⟩
  rintro h ⟨n, m, k, hn, hgo, hlt, hm, hk⟩
  obtain ⟨l, hl⟩ := Reads.collects hn
  obtain ⟨l', hl'⟩ := Reads.collects hm
  obtain ⟨x, hx, hout⟩ := stepped_leaves_out hnodup hl hgo hlt hl'
    fun p q hp hgo hq => versions_forward hk hp hgo hq
  have hf := versions_faithful pre delimiter S
  obtain ⟨fuel, hr⟩ := paginate_collects hf (hl.trans (.head hgo hl')) (at_none hf) (.inl ⟨hk, rfl⟩)
  obtain ⟨hentries, -, hprefixes⟩ := h.whole fuel _ hr
  cases x with
  | entry i =>
    have hi := (@mem_sortOn _ _ _ versionRank _ _).mpr (mem_entriesOf.mpr hx)
    rw [← hentries, mem_sortOn, mem_entriesOf] at hi
    exact hout hi
  | commonPrefix q =>
    have hq := (hprefixes q).mpr (mem_prefixesOf.mpr hx)
    rw [mem_dedupBy_sortOn, mem_prefixesOf] at hq
    exact hout hq

end Versions

section Uploads

variable {S : ApiService .listMultipartUploads MultipartUploadRef}

theorem uploads_forward {p q : Nat} (hgo : Goes S.toService (fun next => next.first.isSome) p q) :
    S.after p ≤ q := by
  rw [hgo.position]
  exact first_given_forward S hgo.proceeds

theorem takesUp_reads (h : S.TakesUp) {n : Nat}
    (hn : Reads S.toService (fun next => next.first.isSome) 0 n) : S.Begins 0 n := by
  induction hn with
  | refl => exact .refl
  | @tail p q _ hgo ih =>
    exact ih.tail ⟨hgo.truncated, hgo.position.trans (h p ih hgo.truncated).2⟩

theorem takesUp_of_reads (h : ∀ n, Reads S.toService (fun next => next.first.isSome) 0 n →
      S.truncated n = true → (S.next n).first.isSome = true ∧ S.position (S.next n) = S.after n) :
    S.TakesUp := by
  have hreads : ∀ n, S.Begins 0 n → Reads S.toService (fun next => next.first.isSome) 0 n := by
    intro n hn
    induction hn with
    | refl => exact .refl
    | tail _ hgo ih =>
      obtain ⟨ht, rfl⟩ := hgo
      obtain ⟨hp, hposition⟩ := h _ ih ht
      exact ih.tail ⟨ht, hp, hposition.symm⟩
  exact fun n hn => h n (hreads n hn)

end Uploads

section Complete

variable {srv : Services} {req : Request}

theorem named_all {l : List MultipartUploadRef} (h : ∀ u ∈ l, u ∈ (srv.uploadRefs req).items) :
    namedUploads l = l :=
  List.filter_eq_self.mpr fun u hu => decide_eq_true (srv.uploads_named _ u (h u hu))

theorem uploads_run (srv : Services) (req : Request) {k : Nat} {l : List MultipartUploadRef}
    (hc : Collects (srv.uploadRefs req).toService (fun next => next.first.isSome) 0 k l)
    (hk : Stops (srv.uploadRefs req).toService (fun next => next.first.isSome) k) :
    ∃ fuel, listMultipartUploadsForRm srv.uploads req.pre fuel =
      some (.ok (namedUploads (l ++ (srv.uploadRefs req).chunk k))) := by
  have hf : Faithful (srv.uploadRefs req).toService _ _ := uploads_faithful req.pre srv.uploads
  refine paginate_collects hf hc (at_none hf) ?_
  cases ht : (srv.uploadRefs req).truncated k with
  | false => exact .inl ⟨ht, rfl⟩
  | true => exact .inr ⟨ht, hk ht, rfl⟩

theorem uploads_left_out {k : Nat} {l : List MultipartUploadRef}
    (h : Enumerates (listMultipartUploadsForRm srv.uploads req.pre) (srv.uploadRefs req).Marked
      fun r => r.Perm (srv.uploadRefs req).items)
    (hc : Collects (srv.uploadRefs req).toService (fun next => next.first.isSome) 0 k l)
    (hk : Stops (srv.uploadRefs req).toService (fun next => next.first.isSome) k) :
    ¬ ∃ x ∈ (srv.uploadRefs req).items, x ∉ l ++ (srv.uploadRefs req).chunk k := by
  rintro ⟨x, hx, hout⟩
  obtain ⟨fuel, hr⟩ := uploads_run srv req hc hk
  have hmem := (h.whole fuel _ hr).mem_iff.mpr hx
  exact hout (List.mem_of_mem_filter hmem)

theorem uploads_complete (h : (srv.uploadRefs req).TakesUp) :
    Enumerates (listMultipartUploadsForRm srv.uploads req.pre) (srv.uploadRefs req).Marked
      fun r => r.Perm (srv.uploadRefs req).items := by
  have hf : Faithful (srv.uploadRefs req).toService _ _ := uploads_faithful req.pre srv.uploads
  have hend : ∀ {k l}, Collects (srv.uploadRefs req).toService (fun next => next.first.isSome) 0 k l →
      Stops (srv.uploadRefs req).toService (fun next => next.first.isSome) k →
      namedUploads (l ++ (srv.uploadRefs req).chunk k) = (srv.uploadRefs req).items := by
    intro k l hc hk
    have hlast : (srv.uploadRefs req).truncated k = false := by
      by_contra ht
      rw [Bool.not_eq_false] at ht
      exact absurd ((h k (takesUp_reads h hc.reads) ht).1.symm.trans (hk ht)) nofun
    rw [collected_items hc hlast fun p q hp hgo _ => ?_, named_all fun u hu => hu]
    exact hgo.position.trans (h p (takesUp_reads h hp) hgo.truncated).2
  constructor
  · intro _
    obtain ⟨k, hk, hstop⟩ := way_ends (S := (srv.uploadRefs req).toService)
      (fun p q => uploads_forward) 0
    obtain ⟨l, hl⟩ := Reads.collects hk
    obtain ⟨fuel, hr⟩ := uploads_run srv req hl hstop
    exact ⟨fuel, _, hr⟩
  · intro fuel r hr
    obtain ⟨k, l, hl, hlast⟩ := paginate_reads hf (at_none hf) hr
    have hstop : Stops (srv.uploadRefs req).toService (fun next => next.first.isSome) k := by
      intro ht
      rcases hlast with ⟨ht', -⟩ | ⟨-, hp, -⟩
      · exact absurd (ht'.symm.trans ht) nofun
      · exact hp
    have hok : (.ok r : Except Text _) = .ok (namedUploads (l ++ (srv.uploadRefs req).chunk k)) := by
      rcases hlast with ⟨-, he⟩ | ⟨-, -, he⟩ <;> exact he
    rw [Except.ok.inj hok, hend hl hstop]

-- The loop ends at a truncated page without a key marker as it does at the last one.
theorem uploads_complete_iff (srv : Services) (req : Request) :
    Enumerates (listMultipartUploadsForRm srv.uploads req.pre) (srv.uploadRefs req).Marked
      (fun r => r.Perm (srv.uploadRefs req).items) ↔ (srv.uploadRefs req).TakesUp := by
  refine ⟨fun h => takesUp_of_reads fun n hn ht => ?_, uploads_complete⟩
  obtain ⟨l, hl⟩ := Reads.collects hn
  have hfirst : ((srv.uploadRefs req).next n).first.isSome = true := by
    by_contra hno
    rw [Bool.not_eq_true] at hno
    refine uploads_left_out h hl (fun _ => hno) ?_
    exact stopped_leaves_out (srv.uploads_nodup _) hl ht fun p q _ hgo _ => uploads_forward hgo
  have hgo : Goes (srv.uploadRefs req).toService (fun next => next.first.isSome) n _ := ⟨ht, hfirst, rfl⟩
  refine ⟨hfirst, (Nat.le_antisymm (uploads_forward hgo) (Nat.le_of_not_lt fun hover => ?_)).symm⟩
  obtain ⟨k, hk, hstop⟩ := way_ends (S := (srv.uploadRefs req).toService)
    (fun p q => uploads_forward) _
  obtain ⟨l', hl'⟩ := Reads.collects hk
  refine uploads_left_out h (hl.trans (.head hgo hl')) hstop ?_
  exact stepped_leaves_out (srv.uploads_nodup _) hl hgo hover hl' fun p q _ hgo _ => uploads_forward hgo

section TosParts

variable (srv : Services) (uploadId : Text)

-- Under `.tos` every request for parts asks for the first page.
theorem tos_parts_fetch (m : Marker) : srv.parts.send (listPartsQuery .tos uploadId m.first) =
    (srv.parts (listPartsQuery .tos uploadId none)).answer (srv.parts (listPartsQuery .tos uploadId none)).first := by
  rw [Matching.send, parts_strip_tos, parts_read_tos, (srv.parts _).first_eq]

theorem tos_parts_stuck (ht : (srv.parts (listPartsQuery .tos uploadId none)).truncated 0 = true)
    (hp : ((srv.parts (listPartsQuery .tos uploadId none)).next 0).first.isSome = true) (fuel : Nat) :
    listUploadedPartNumbers .tos srv.parts uploadId fuel = none :=
  paginate_stuck (tos_parts_fetch srv uploadId) ht hp fuel .none []

theorem tos_parts_at : At (srv.parts (listPartsQuery .tos uploadId none)).toService
    (fun m => srv.parts.send (listPartsQuery .tos uploadId m.first)) 0 .none := by
  rw [At, tos_parts_fetch, Service.answer, (srv.parts _).position_first]

theorem tos_parts_one (ht : (srv.parts (listPartsQuery .tos uploadId none)).truncated 0 = false) (fuel : Nat) :
    listUploadedPartNumbers .tos srv.parts uploadId (fuel + 1) =
      some (.ok (srv.parts (listPartsQuery .tos uploadId none)).items.toFinset) := by
  rw [listUploadedPartNumbers, paginate_succ (tos_parts_at srv uploadId), if_neg (by simp [ht]), List.nil_append,
    ← (srv.parts _).take_last ht]
  simp [Listing.chunk, Listing.after]

theorem tos_parts_whole {fuel : Nat} {r : Finset Nat}
    (hr : listUploadedPartNumbers .tos srv.parts uploadId fuel = some (.ok r)) :
    r = (srv.parts (listPartsQuery .tos uploadId none)).items.toFinset := by
  cases fuel with
  | zero => cases hr
  | succ fuel =>
    cases ht : (srv.parts (listPartsQuery .tos uploadId none)).truncated 0 with
    | false =>
      rw [tos_parts_one srv uploadId ht] at hr
      exact (Except.ok.inj (Option.some.inj hr)).symm
    | true =>
      cases hp : ((srv.parts (listPartsQuery .tos uploadId none)).next 0).first.isSome with
      | true => exact absurd ((tos_parts_stuck srv uploadId ht hp _).symm.trans hr) nofun
      | false =>
        rw [listUploadedPartNumbers, paginate_succ (tos_parts_at srv uploadId), if_pos ht, hp,
          if_neg Bool.false_ne_true] at hr
        cases hr

end TosParts

theorem parts_complete_iff (srv : Services) (req : Request) :
    Enumerates (listUploadedPartNumbers req.binary srv.parts req.uploadId)
      (srv.partNumbers req).Marked (fun r => r = (srv.partNumbers req).items.toFinset) ↔
    (req.binary = .tos → (srv.partNumbers req).Marked → (srv.partNumbers req).truncated 0 = false) := by
  obtain ⟨binary, pre, delimiter, uploadId⟩ := req
  cases binary with
  | veTos =>
    refine ⟨fun _ => (by simp), fun _ => ?_⟩
    exact single_enumerates rfl (parts_faithful srv.parts uploadId) List.toFinset missingPartMarker rfl
  | tos =>
    constructor
    · intro h _ hm
      by_contra ht
      rw [Bool.not_eq_false] at ht
      obtain ⟨fuel, r, hr⟩ := h.ends hm
      let S := srv.parts (listPartsQuery .tos uploadId none)
      have hgiven : (S.next 0).first.isSome = true := by
        have hnext : S.next 0 = S.token (S.after 0) := hm 0 .refl ht
        rw [hnext]
        exact S.token_first _
      exact absurd ((tos_parts_stuck srv uploadId ht hgiven fuel).symm.trans hr) nofun
    · intro h
      exact ⟨fun hm => ⟨1, _, tos_parts_one srv uploadId (h rfl hm) 0⟩,
        fun fuel r hr => tos_parts_whole srv uploadId hr⟩

end Complete

theorem enumerations_complete_iff (srv : Services) (req : Request) :
    EnumerationsComplete srv req ↔ (srv.uploadRefs req).TakesUp ∧ ¬ (srv.versionRows req).StepsOver ∧
      (req.binary = .tos → (srv.partNumbers req).Marked →
        (srv.partNumbers req).truncated 0 = false) := by
  constructor
  · intro h
    exact ⟨(uploads_complete_iff srv req).mp h.uploads,
      (versions_complete_iff (srv.versions_nodup _)).mp h.versions, (parts_complete_iff srv req).mp h.parts⟩
  · rintro ⟨huploads, hversions, hparts⟩
    exact {
      entries := entries_complete srv.objects req.pre req.delimiter
      withPrefixes := withPrefixes_complete srv.objects req.pre req.delimiter
      pages := pages_complete srv.objects req.pre req.delimiter
      versions := versions_complete hversions
      uploads := (uploads_complete_iff srv req).mpr huploads
      parts := (parts_complete_iff srv req).mpr hparts }

-- One item on each page, and a marker that is the position written in unary.
def oneByOne {α : Type} (api : Api) (items : List α) (omitsFirst omitsSecond : Bool) : ApiService api α where
  items := items
  size := fun _ => 1
  size_pos := fun _ => Nat.one_pos
  first := .none
  token := fun n => ⟨some (List.replicate n 'x'), api.secondMarker.map fun _ => []⟩
  next := fun n => Marker.without ⟨some (List.replicate (n + 1) 'x'), api.secondMarker.map fun _ => []⟩
    omitsFirst omitsSecond
  position := fun m => (m.first.getD []).length
  omitsFirst := fun _ => omitsFirst
  omitsSecond := fun _ => omitsSecond
  position_first := rfl
  first_eq := rfl
  token_first := fun _ => rfl
  token_single := fun h _ => by rw [h]; rfl
  next_eq := fun _ => rfl
  position_token := fun _ => List.length_replicate
  position_first_alone := fun _ => List.length_replicate.ge
  position_second_alone := fun _ => rfl

def twoParts : Services where
  objects := fun _ => oneByOne .listObjects [] false false
  versions := fun _ => oneByOne .listObjectVersions [] false false
  uploads := fun _ => oneByOne .listMultipartUploads [] false false
  parts := fun _ => oneByOne .listParts [1, 2] false false
  versions_nodup := fun _ => List.nodup_nil
  uploads_nodup := fun _ => List.nodup_nil
  uploads_named := by simp [oneByOne]

def tosRequest : Request := ⟨.tos, none, none, "u".toList⟩

theorem tos_parts_never_listed : ¬ EnumerationsComplete twoParts tosRequest := by
  intro h
  have hmarked : (twoParts.partNumbers tosRequest).Marked := fun _ _ _ => rfl
  obtain ⟨fuel, r, hr⟩ := h.parts.ends hmarked
  exact absurd ((tos_parts_stuck twoParts tosRequest.uploadId rfl rfl fuel).symm.trans hr) nofun

end VeStorage.Tos.Listing
