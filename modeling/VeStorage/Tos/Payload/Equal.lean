import VeStorage.Tos.Payload.Agree

namespace VeStorage.Tos.Payload
open Lib

variable {xml : Bool} {value : Value} {g : Name → Option Value} {cases : CharCase}
  {parsers : Parsers} {layers : List Layer} {fuel : Nat} {body : Text}

def VersionPage.seen (xml : Bool) (page : VersionPage) : PageRead ObjectVersionRef where
  items := if xml then [] else page.versions ++ page.deleteMarkers
  prefixes := page.prefixes.map (Payload.seen xml)
  next := if page.isTruncated then
    some [page.nextKeyMarker.map (Payload.seen xml), page.nextVersionIdMarker.map (Payload.seen xml)]
    else none

def UploadPage.seen (xml : Bool) (page : UploadPage) : PageRead MultipartUploadRef where
  items := page.uploads.filterMap (MultipartUploadRef.seen xml)
  prefixes := []
  next := if page.isTruncated then
    some [page.nextKeyMarker.map (Payload.seen xml), page.nextUploadIdMarker.map (Payload.seen xml)]
    else none

def PartPage.seen (xml : Bool) (page : PartPage) : PageRead UInt32 where
  items := page.parts
  prefixes := []
  next := if page.isTruncated then some [page.nextPartNumberMarker.map (Payload.seen xml)] else none

theorem jsonArray_absent {names : List String} {name : Name} (h : Normal value g)
    (hn : namesOf names = [name]) (hnone : g name = none) : jsonArray value names = [] := by
  rw [jsonArray_normal h hn, hnone]
  rfl

theorem versionSeen_false (v : ObjectVersionRef) : v.seen false = v := rfl

theorem readVersions_items {page : VersionPage} (h : Normal value g)
    (hr : page.encoded.Reads xml g) : (readVersions value).items = (page.seen xml).items := by
  have hversions : namesOf ["versions", "Versions"] = [.versions] := namesOf_asked (by simp [asked])
  have hmarkers : namesOf ["delete_markers", "DeleteMarkers"] = [.deleteMarkers] :=
    namesOf_asked (by simp [asked])
  cases xml with
  | true =>
    have hnone : ∀ name, name = .versions ∨ name = .deleteMarkers → g name = none := by
      rintro name (rfl | rfl) <;> refine hr.absent _ ?_ <;>
        simp [VersionPage.encoded, Encoded.names, Listing.name, optional]
    rw [readVersions, jsonArray_absent h hversions (hnone _ (.inl rfl)),
      jsonArray_absent h hmarkers (hnone _ (.inr rfl))]
    rfl
  | false =>
    have hlive := list_reads hr List.mem_cons_self rfl (jsonArray_normal h hversions) rfl
      fun v item hv => parseVersion_reads hv
    have hdeleted := list_reads hr (List.mem_cons_of_mem _ List.mem_cons_self) rfl
      (jsonArray_normal h hmarkers) rfl fun v item hv => parseVersion_reads hv
    rw [readVersions, hlive, hdeleted]
    simp [VersionPage.seen, versionSeen_false]

theorem readVersions_reads {page : VersionPage} (h : Normal value g)
    (hr : page.encoded.Reads xml g) : readVersions value = page.seen xml := by
  have hkey : namesOf ["next_key_marker", "NextKeyMarker"] = [.nextKeyMarker] :=
    namesOf_asked (by simp [asked])
  have hversion : namesOf ["next_version_id_marker", "NextVersionIdMarker"] =
      [.nextVersionIdMarker] := namesOf_asked (by simp [asked])
  have hfirst := marker_reads .nextKeyMarker page.nextKeyMarker hr (by simp [VersionPage.encoded])
    fun hnone => by
      cases xml <;> simp [VersionPage.encoded, Encoded.names, Listing.name, optional, hnone]
  have hsecond := marker_reads .nextVersionIdMarker page.nextVersionIdMarker hr
    (by simp [VersionPage.encoded]) fun hnone => by
      cases xml <;> simp [VersionPage.encoded, Encoded.names, Listing.name, optional, hnone]
  have hitems := readVersions_items h hr
  simp only [readVersions] at hitems ⊢
  rw [hitems, prefixes_reads page.prefixes h hr (by simp [VersionPage.encoded]),
    markers_reads page.isTruncated h hr List.mem_cons_self]
  simp only [List.map_cons, List.map_nil, jsonString_normal h hkey, jsonString_normal h hversion,
    hfirst, hsecond]
  rfl

theorem readUploads_reads {page : UploadPage} (h : Normal value g)
    (hr : page.encoded.Reads xml g) : readUploads value = page.seen xml := by
  have hkey : namesOf ["next_key_marker", "NextKeyMarker"] = [.nextKeyMarker] :=
    namesOf_asked (by simp [asked])
  have hupload : namesOf ["next_upload_id_marker", "NextUploadIdMarker"] = [.nextUploadIdMarker] :=
    namesOf_asked (by simp [asked])
  have huploads : namesOf ["uploads", "upload", "Uploads", "Upload"] = [.uploads, .upload] :=
    namesOf_asked (by simp [asked])
  have hfirst := marker_reads .nextKeyMarker page.nextKeyMarker hr (by simp [UploadPage.encoded])
    fun hnone => by
      cases xml <;> simp [UploadPage.encoded, Encoded.names, Listing.name, optional, hnone]
  have hsecond := marker_reads .nextUploadIdMarker page.nextUploadIdMarker hr
    (by simp [UploadPage.encoded]) fun hnone => by
      cases xml <;> simp [UploadPage.encoded, Encoded.names, Listing.name, optional, hnone]
  have hitems : (jsonArray value ["uploads", "upload", "Uploads", "Upload"]).filterMap parseUpload =
      page.uploads.filterMap (MultipartUploadRef.seen xml) := by
    cases xml with
    | false =>
      have hnone : g .upload = none :=
        hr.absent _ (by simp [UploadPage.encoded, Encoded.names, Listing.name, optional])
      exact list_reads hr List.mem_cons_self rfl (jsonArray_first h huploads hnone) rfl
        fun u v hu => parseUpload_reads hu
    | true =>
      have hnone : g .uploads = none :=
        hr.absent _ (by simp [UploadPage.encoded, Encoded.names, Listing.name, optional])
      exact list_reads hr List.mem_cons_self rfl (jsonArray_second h huploads hnone) rfl
        fun u v hu => parseUpload_reads hu
  rw [readUploads, hitems, markers_reads page.isTruncated h hr List.mem_cons_self]
  simp only [List.map_cons, List.map_nil, jsonString_normal h hkey, jsonString_normal h hupload,
    hfirst, hsecond]
  rfl

theorem readParts_reads {page : PartPage} (h : Normal value g)
    (hr : page.encoded.Reads xml g) : readParts value = page.seen xml := by
  have hmarker : namesOf ["next_part_number_marker", "NextPartNumberMarker"] =
      [.nextPartNumberMarker] := namesOf_asked (by simp [asked])
  have hparts : namesOf ["parts", "part", "Parts", "Part"] = [.parts, .part] :=
    namesOf_asked (by simp [asked])
  have hfirst := marker_reads .nextPartNumberMarker page.nextPartNumberMarker hr
    (by simp [PartPage.encoded]) fun hnone => by
      cases xml <;> simp [PartPage.encoded, Encoded.names, Listing.name, optional, hnone]
  have hitems : ((jsonArray value ["parts", "part", "Parts", "Part"]).filterMap fun part =>
      jsonU32 part ["part_number", "part_id", "PartNumber"]) = page.parts.filterMap some := by
    cases xml with
    | false =>
      have hnone : g .part = none :=
        hr.absent _ (by simp [PartPage.encoded, Encoded.names, Listing.name, optional])
      exact list_reads hr List.mem_cons_self rfl (jsonArray_first h hparts hnone) rfl
        fun n v hn => parsePart_reads hn
    | true =>
      have hnone : g .parts = none :=
        hr.absent _ (by simp [PartPage.encoded, Encoded.names, Listing.name, optional])
      exact list_reads hr List.mem_cons_self rfl (jsonArray_second h hparts hnone) rfl
        fun n v hn => parsePart_reads hn
  rw [readParts, hitems, markers_reads page.isTruncated h hr List.mem_cons_self, List.filterMap_some]
  simp only [List.map_cons, List.map_nil, jsonString_normal h hmarker, hfirst]
  rfl

section Trimmed

def Trimmed (text : Text) : Prop := trimText text = text

structure ObjectEntry.Trimmed (o : ObjectEntry) : Prop where
  key : Payload.Trimmed o.key
  lastModified : ∀ t ∈ o.lastModified, Payload.Trimmed t
  etag : ∀ t ∈ o.etag, Payload.Trimmed t
  storageClass : ∀ t ∈ o.storageClass, Payload.Trimmed t

structure ObjectPage.Trimmed (page : ObjectPage) : Prop where
  objects : ∀ o ∈ page.objects, o.Trimmed
  prefixes : ∀ p ∈ page.prefixes, Payload.Trimmed p
  token : page.isTruncated = true → ∀ t ∈ page.nextContinuationToken.or page.nextMarker,
    Payload.Trimmed t

-- The readers of a version page know no name for its elements in a document.
structure VersionPage.Trimmed (page : VersionPage) : Prop where
  versions : page.versions = [] ∧ page.deleteMarkers = []
  prefixes : ∀ p ∈ page.prefixes, Payload.Trimmed p
  markers : page.isTruncated = true → (∀ t ∈ page.nextKeyMarker, Payload.Trimmed t) ∧
    ∀ t ∈ page.nextVersionIdMarker, Payload.Trimmed t

structure UploadPage.Trimmed (page : UploadPage) : Prop where
  uploads : ∀ u ∈ page.uploads, Payload.Trimmed u.key ∧ Payload.Trimmed u.uploadId
  markers : page.isTruncated = true → (∀ t ∈ page.nextKeyMarker, Payload.Trimmed t) ∧
    ∀ t ∈ page.nextUploadIdMarker, Payload.Trimmed t

def PartPage.Trimmed (page : PartPage) : Prop :=
  page.isTruncated = true → ∀ t ∈ page.nextPartNumberMarker, Payload.Trimmed t

theorem map_eq_self {α : Type} {f : α → α} {l : List α} : l.map f = l ↔ ∀ a ∈ l, f a = a := by
  induction l with
  | nil => simp
  | cons a l ih => simp [ih]

theorem option_map_eq_self {α : Type} {f : α → α} {o : Option α} : o.map f = o ↔ ∀ a ∈ o, f a = a := by
  cases o <;> simp

theorem filterMap_eq_self {α : Type} {f : α → Option α} {l : List α} :
    l.filterMap f = l ↔ ∀ a ∈ l, f a = some a := by
  induction l with
  | nil => simp
  | cons a l ih =>
    cases hf : f a with
    | none =>
      rw [List.filterMap_cons_none hf]
      refine ⟨fun h => ?_, fun h => absurd (h a List.mem_cons_self) (by simp [hf])⟩
      have hlength := List.length_filterMap_le f l
      rw [h, List.length_cons] at hlength
      exact absurd hlength (Nat.not_succ_le_self _)
    | some b =>
      rw [List.filterMap_cons_some hf, List.cons.injEq, ih, List.forall_mem_cons, hf, Option.some.injEq]

theorem seen_false : seen false = id := rfl

theorem seen_true (t : Text) : seen true t = t ↔ Trimmed t := Iff.rfl

theorem next_eq {b : Bool} {a c : List (Option Text)} :
    ((if b then some a else none) = if b then some c else none) ↔ (b = true → a = c) := by
  cases b <;> simp

theorem object_seen_true (o : ObjectEntry) : o.seen true = o ↔ o.Trimmed := by
  obtain ⟨key, size, lastModified, etag, storageClass⟩ := o
  rw [ObjectEntry.seen, ObjectEntry.mk.injEq]
  simp only [option_map_eq_self, seen_true, true_and]
  refine ⟨?_, fun h => ⟨h.key, h.lastModified, h.etag, h.storageClass⟩⟩
  rintro ⟨hk, hl, he, hc⟩
  exact ⟨hk, hl, he, hc⟩

theorem objects_seen (page : ObjectPage) : page.seen xml = page.read ↔ (xml = true → page.Trimmed) := by
  cases xml with
  | false =>
    have hobject : ObjectEntry.seen false = id := funext fun o => by
      simp [ObjectEntry.seen, seen_false]
    simp [ObjectPage.seen, ObjectPage.read, seen_false, hobject]
  | true =>
    simp only [ObjectPage.seen, ObjectPage.read, PageRead.mk.injEq, map_eq_self, next_eq,
      List.cons.injEq, and_true, option_map_eq_self, seen_true, object_seen_true, true_implies]
    refine ⟨?_, fun h => ⟨h.objects, h.prefixes, h.token⟩⟩
    rintro ⟨ho, hp, ht⟩
    exact ⟨ho, hp, ht⟩

theorem versions_seen (page : VersionPage) :
    page.seen xml = page.read ↔ (xml = true → page.Trimmed) := by
  cases xml with
  | false => simp [VersionPage.seen, VersionPage.read, seen_false]
  | true =>
    simp only [VersionPage.seen, VersionPage.read, PageRead.mk.injEq, map_eq_self, next_eq,
      List.cons.injEq, and_true, option_map_eq_self, seen_true, true_implies, if_true,
      List.nil_eq_append_iff]
    exact ⟨fun ⟨hv, hp, hm⟩ => ⟨hv, hp, hm⟩, fun h => ⟨h.versions, h.prefixes, h.markers⟩⟩

theorem upload_unaltered (u : MultipartUploadRef) :
    u.seen false = if u.key ≠ [] ∧ u.uploadId ≠ [] then some u else none := rfl

theorem upload_seen (u : MultipartUploadRef) : u.seen xml = some u ↔
    (u.key ≠ [] ∧ u.uploadId ≠ []) ∧ (xml = true → Trimmed u.key ∧ Trimmed u.uploadId) := by
  cases xml with
  | false =>
    simp only [upload_unaltered, Bool.false_eq_true, false_implies, and_true]
    split
    · rename_i h
      exact iff_of_true rfl h
    · rename_i h
      exact iff_of_false (fun he => nomatch he) h
  | true =>
    obtain ⟨key, uploadId⟩ := u
    simp only [MultipartUploadRef.seen, true_implies, ← seen_true]
    constructor
    · intro h
      split at h
      · rename_i hne
        obtain ⟨hkey, hid⟩ := MultipartUploadRef.mk.inj (Option.some.inj h)
        rw [hkey, hid] at hne
        exact ⟨hne, hkey, hid⟩
      · cases h
    · rintro ⟨hne, hkey, hid⟩
      rw [hkey, hid, if_pos hne]

theorem uploads_seen (page : UploadPage) : page.seen xml = page.read ↔
    (∀ u ∈ page.uploads, u.key ≠ [] ∧ u.uploadId ≠ []) ∧ (xml = true → page.Trimmed) := by
  have hnext : (UploadPage.seen xml page).next = page.read.next ↔ (xml = true → page.isTruncated = true →
      (∀ t ∈ page.nextKeyMarker, Trimmed t) ∧ ∀ t ∈ page.nextUploadIdMarker, Trimmed t) := by
    cases xml with
    | false => simp [UploadPage.seen, UploadPage.read, seen_false]
    | true =>
      simp only [UploadPage.seen, UploadPage.read, next_eq, List.cons.injEq, and_true,
        option_map_eq_self, seen_true, true_implies]
  simp only [UploadPage.seen, UploadPage.read] at hnext
  simp only [UploadPage.seen, UploadPage.read, PageRead.mk.injEq, filterMap_eq_self, upload_seen,
    true_and, hnext]
  constructor
  · rintro ⟨hu, hm⟩
    exact ⟨fun u hmem => (hu u hmem).1, fun hx => ⟨fun u hmem => (hu u hmem).2 hx, hm hx⟩⟩
  · rintro ⟨hne, ht⟩
    exact ⟨fun u hmem => ⟨hne u hmem, fun hx => (ht hx).uploads u hmem⟩, fun hx => (ht hx).markers⟩

theorem parts_seen (page : PartPage) : page.seen xml = page.read ↔ (xml = true → page.Trimmed) := by
  cases xml with
  | false => simp [PartPage.seen, PartPage.read, seen_false]
  | true =>
    simp only [PartPage.seen, PartPage.read, PageRead.mk.injEq, next_eq, List.cons.injEq, and_true,
      option_map_eq_self, seen_true, true_implies, true_and, PartPage.Trimmed]

end Trimmed

section Named

theorem objects_named (page : ObjectPage) : page.encoded.WellNamed where
  names xml := by
    cases xml <;> cases hc : page.nextContinuationToken <;> cases hm : page.nextMarker <;>
      simp [ObjectPage.encoded, Encoded.names, Listing.name, optional, hc, hm]
  records := by
    intro listing hl r hr
    simp only [ObjectPage.encoded, List.mem_cons, List.not_mem_nil, or_false] at hl
    rcases hl with rfl | rfl
    · obtain ⟨o, -, rfl⟩ := List.mem_map.mp hr
      cases hl : o.lastModified <;> cases he : o.etag <;> cases hc : o.storageClass <;>
        simp [ObjectEntry.record, optional, hl, he, hc]
    · obtain ⟨p, -, rfl⟩ := List.mem_map.mp hr
      simp [prefixRecord]

theorem versions_named (page : VersionPage) : page.encoded.WellNamed where
  names xml := by
    cases xml <;> cases hc : page.nextKeyMarker <;> cases hm : page.nextVersionIdMarker <;>
      simp [VersionPage.encoded, Encoded.names, Listing.name, optional, hc, hm]
  records := by
    intro listing hl r hr
    simp only [VersionPage.encoded, List.mem_cons, List.not_mem_nil, or_false] at hl
    rcases hl with rfl | rfl | rfl
    · obtain ⟨v, -, rfl⟩ := List.mem_map.mp hr
      simp [ObjectVersionRef.record]
    · obtain ⟨v, -, rfl⟩ := List.mem_map.mp hr
      simp [ObjectVersionRef.record]
    · obtain ⟨p, -, rfl⟩ := List.mem_map.mp hr
      simp [prefixRecord]

theorem uploads_named (page : UploadPage) : page.encoded.WellNamed where
  names xml := by
    cases xml <;> cases hc : page.nextKeyMarker <;> cases hm : page.nextUploadIdMarker <;>
      simp [UploadPage.encoded, Encoded.names, Listing.name, optional, hc, hm]
  records := by
    intro listing hl r hr
    obtain rfl := List.mem_singleton.mp hl
    obtain ⟨u, -, rfl⟩ := List.mem_map.mp hr
    simp [MultipartUploadRef.record]

theorem parts_named (page : PartPage) : page.encoded.WellNamed where
  names xml := by
    cases xml <;> cases hm : page.nextPartNumberMarker <;>
      simp [PartPage.encoded, Encoded.names, Listing.name, optional, hm]
  records := by
    intro listing hl r hr
    obtain rfl := List.mem_singleton.mp hl
    obtain ⟨n, -, rfl⟩ := List.mem_map.mp hr
    simp [partRecord]

end Named

section Main

-- A response body that holds a page in one of its encodings, below any of the wrappers.
def HoldsPage (parsers : Parsers) (e : Encoded) (xml : Bool) (layers : List Layer) (body : Text) : Prop :=
  Holds parsers (fun value => ∃ style, e.IsJson style value) e.IsXml xml layers body

theorem bare_reads {e : Encoded} (hw : e.WellNamed)
    (h : Bare cases (fun value => ∃ style, e.IsJson style value) e.IsXml xml value) :
    ∃ g, Normal value g ∧ e.Reads xml g := by
  rcases h with ⟨rfl, v, ⟨style, hv⟩, rfl⟩ | ⟨rfl, x, hx, rfl⟩
  · exact hv.reads hw
  · exact hx.reads hw

theorem truncated_listed {e : Encoded} {b : Bool} (h : Normal value g) (hr : e.Reads xml g)
    (hb : (.isTruncated, .flag b) ∈ e.scalars) : hasListResponseFields value = true := by
  refine List.any_eq_true.mpr ⟨"is_truncated".toList, by decide +kernel, ?_⟩
  have hname : ofSnake "is_truncated".toList = some .isTruncated := by decide +kernel
  rw [h, hname, Option.bind_some, hr.scalars _ hb]
  rfl

theorem page_parsed {e : Encoded} {b : Bool} (hw : e.WellNamed)
    (hb : (.isTruncated, .flag b) ∈ e.scalars) (h : HoldsPage parsers e xml layers body)
    (hlayers : layers.length ≤ 8) (hfuel : 8 < fuel) :
    ∃ value g, parseJsonBody cases parsers fuel body = some value ∧ Normal value g ∧ e.Reads xml g := by
  have hlisted : ∀ v, Bare cases (fun value => ∃ style, e.IsJson style value) e.IsXml xml v →
      hasListResponseFields v = true := fun v hv => by
    obtain ⟨g, hg, hr⟩ := bare_reads hw hv
    exact truncated_listed hg hr hb
  obtain ⟨value, hbare, hparse⟩ :=
    h.parsed hlisted hlayers (Nat.lt_of_le_of_lt hlayers hfuel)
  obtain ⟨g, hg, hr⟩ := bare_reads hw hbare
  exact ⟨value, g, hparse, hg, hr⟩

theorem listing_pages_agree (cases : CharCase) (parsers : Parsers) (fuel : Nat) (hfuel : 8 < fuel)
    (xml : Bool) (layers : List Layer) (hlayers : layers.length ≤ 8) (body : Text) :
    (∀ page : ObjectPage, HoldsPage parsers page.encoded xml layers body →
      ((parseJsonBody cases parsers fuel body).map readObjects = some page.read ↔
        (xml = true → page.Trimmed))) ∧
    (∀ page : VersionPage, HoldsPage parsers page.encoded xml layers body →
      ((parseJsonBody cases parsers fuel body).map readVersions = some page.read ↔
        (xml = true → page.Trimmed))) ∧
    (∀ page : UploadPage, HoldsPage parsers page.encoded xml layers body →
      ((parseJsonBody cases parsers fuel body).map readUploads = some page.read ↔
        (∀ u ∈ page.uploads, u.key ≠ [] ∧ u.uploadId ≠ []) ∧ (xml = true → page.Trimmed))) ∧
    ∀ page : PartPage, HoldsPage parsers page.encoded xml layers body →
      ((parseJsonBody cases parsers fuel body).map readParts = some page.read ↔
        (xml = true → page.Trimmed)) := by
  refine ⟨fun page h => ?_, fun page h => ?_, fun page h => ?_, fun page h => ?_⟩
  · obtain ⟨value, g, hparse, hg, hr⟩ :=
      page_parsed (objects_named page) List.mem_cons_self h hlayers hfuel
    rw [hparse, Option.map_some, Option.some.injEq, readObjects_reads hg hr]
    exact objects_seen page
  · obtain ⟨value, g, hparse, hg, hr⟩ :=
      page_parsed (versions_named page) List.mem_cons_self h hlayers hfuel
    rw [hparse, Option.map_some, Option.some.injEq, readVersions_reads hg hr]
    exact versions_seen page
  · obtain ⟨value, g, hparse, hg, hr⟩ :=
      page_parsed (uploads_named page) List.mem_cons_self h hlayers hfuel
    rw [hparse, Option.map_some, Option.some.injEq, readUploads_reads hg hr]
    exact uploads_seen page
  · obtain ⟨value, g, hparse, hg, hr⟩ :=
      page_parsed (parts_named page) List.mem_cons_self h hlayers hfuel
    rw [hparse, Option.map_some, Option.some.injEq, readParts_reads hg hr]
    exact parts_seen page

def Encoded.json (e : Encoded) (style : NameCase) : Value :=
  let object := fun entries : List (Name × Value) =>
    Value.object (entries.map fun entry => (style.spell entry.1, entry.2))
  object (e.lists.map (fun listing =>
    (listing.jsonName, Value.array (listing.records.map fun r => object r.entries))) ++
      Record.entries e.scalars)

theorem isJson_json (e : Encoded) (style : NameCase) : e.IsJson style (e.json style) := by
  refine ⟨e.lists.map fun listing => listing.records.map fun r =>
    .object (r.entries.map fun entry => (style.spell entry.1, entry.2)), ?_, _, rfl, ?_⟩
  · refine List.forall₂_map_right_iff.mpr (List.forall₂_same.mpr fun listing _ => ?_)
    refine List.forall₂_map_right_iff.mpr (List.forall₂_same.mpr fun r _ => ?_)
    exact ⟨_, rfl, List.Perm.refl _⟩
  · rw [List.zipWith_map_right, List.zipWith_self]

def singleParsers (body : Text) (value : Value) (x : Xml) : Parsers where
  fromStr text := if text = body then some value else none
  readEvents text := if text = body then x.events else []

def uploadPage : UploadPage := ⟨[⟨['k'], ['u']⟩, ⟨['k'], ['w']⟩], true, some ['k'], some ['w']⟩

def uploadElement (key uploadId : Text) : Xml := .node (NameCase.pascal.spell .upload)
  [.leaf (NameCase.pascal.spell .key) key, .leaf (NameCase.pascal.spell .uploadId) uploadId]

-- The uploads stand between the other elements.
def uploadXml : Xml := .node (NameCase.pascal.spell .result)
  [.leaf (NameCase.pascal.spell .isTruncated) "true".toList, uploadElement ['k'] ['u'],
    .leaf (NameCase.pascal.spell .nextKeyMarker) ['k'], uploadElement ['k'] ['w'],
    .leaf (NameCase.pascal.spell .nextUploadIdMarker) ['w']]

theorem uploadElement_record (u : MultipartUploadRef) :
    u.record.IsElement .upload (uploadElement u.key u.uploadId) := ⟨_, rfl, List.Perm.refl _⟩

theorem uploadXml_page : uploadPage.encoded.IsXml uploadXml := by
  refine ⟨_, _, rfl, ?_, ?_, ?_⟩
  · simp only [List.forall_mem_cons]
    exact ⟨⟨.isTruncated, by decide, rfl⟩, ⟨.upload, by decide, rfl⟩, ⟨.nextKeyMarker, by decide, rfl⟩,
      ⟨.upload, by decide, rfl⟩, ⟨.nextUploadIdMarker, by decide, rfl⟩, List.forall_mem_nil _⟩
  · exact List.forall_mem_singleton.mpr
      (.cons (uploadElement_record ⟨['k'], ['u']⟩) (.cons (uploadElement_record ⟨['k'], ['w']⟩) .nil))
  · exact List.forall_mem_cons.mpr ⟨rfl, List.forall_mem_cons.mpr ⟨rfl, List.forall_mem_singleton.mpr rfl⟩⟩

def wrappedParsers : Parsers :=
  singleParsers ['<'] .null (.node "Response".toList [uploadXml])

theorem listing_pages_agree_uploads :
    (parseJsonBody asciiCase (singleParsers ['j'] (uploadPage.encoded.json .camel) (.leaf [] []))
      9 ['j']).map readUploads = some uploadPage.read ∧
    (parseJsonBody asciiCase wrappedParsers 9 ['<']).map readUploads = some uploadPage.read := by
  have hnamed : ∀ u ∈ uploadPage.uploads, u.key ≠ [] ∧ u.uploadId ≠ [] := by decide
  have htrimmed : uploadPage.Trimmed := by
    refine ⟨?_, fun _ => ?_⟩ <;> simp only [Trimmed] <;> decide
  have hjson : HoldsPage (singleParsers ['j'] (uploadPage.encoded.json .camel) (.leaf [] [])) uploadPage.encoded
      false [] ['j'] :=
    ⟨List.forall_mem_nil _, .inl ⟨_, ⟨rfl, rfl⟩, rfl, _, isJson_json _ .camel⟩⟩
  have hxml : HoldsPage wrappedParsers uploadPage.encoded true [.nested .pascal .result] ['<'] :=
    ⟨by decide, .inr ⟨_, ⟨rfl, 0, 0, (List.append_nil _).symm⟩, _, _, _, rfl, rfl, uploadXml_page⟩⟩
  obtain ⟨-, -, hagree, -⟩ := listing_pages_agree asciiCase _ 9 (by decide) false [] (by decide) ['j']
  obtain ⟨-, -, hwrapped, -⟩ := listing_pages_agree asciiCase wrappedParsers 9 (by decide) true
    [.nested .pascal .result] (by decide) ['<']
  exact ⟨(hagree uploadPage hjson).mpr ⟨hnamed, nofun⟩, (hwrapped uploadPage hxml).mpr ⟨hnamed, fun _ => htrimmed⟩⟩

def versionPage : VersionPage := ⟨[⟨['k'], ['v']⟩], [], [], false, none, none⟩

def versionXml : Xml := .node (NameCase.pascal.spell .listObjectsResult)
  [.leaf (NameCase.pascal.spell .isTruncated) ['f', 'a', 'l', 's', 'e'],
    .node (NameCase.pascal.spell .version)
      [.leaf (NameCase.pascal.spell .key) ['k'], .leaf (NameCase.pascal.spell .versionId) ['v']]]

theorem versionXml_page : versionPage.encoded.IsXml versionXml := by
  refine ⟨_, _, rfl, ?_, ?_, ?_⟩
  · intro child hchild
    rcases List.mem_cons.mp hchild with rfl | hchild
    · exact ⟨.isTruncated, by decide, rfl⟩
    · obtain rfl := List.mem_singleton.mp hchild
      exact ⟨.version, by decide, rfl⟩
  · intro listing hlisting
    rcases List.mem_cons.mp hlisting with rfl | hlisting
    · exact .cons ⟨_, rfl, List.Perm.refl _⟩ .nil
    · rcases List.mem_cons.mp hlisting with rfl | hlisting
      · exact .nil
      · obtain rfl := List.mem_singleton.mp hlisting
        exact .nil
  · intro entry hentry
    obtain rfl := List.mem_singleton.mp hentry
    rfl

theorem xml_versions_missed :
    HoldsPage (singleParsers ['<'] .null versionXml) versionPage.encoded true [] ['<'] ∧
      (parseJsonBody asciiCase (singleParsers ['<'] .null versionXml) 9 ['<']).map readVersions ≠
        some versionPage.read := by
  have hpage : HoldsPage (singleParsers ['<'] .null versionXml) versionPage.encoded true [] ['<'] :=
    ⟨fun _ hl => absurd hl List.not_mem_nil,
      .inr ⟨versionXml, ⟨rfl, 0, 0, (List.append_nil _).symm⟩, rfl, versionXml_page⟩⟩
  refine ⟨hpage, fun he => ?_⟩
  obtain ⟨value, g, hparse, hg, hr⟩ : ∃ value g,
      parseJsonBody asciiCase (singleParsers ['<'] .null versionXml) 9 ['<'] = some value ∧
        Normal value g ∧ versionPage.encoded.Reads true g :=
    page_parsed (versions_named versionPage) List.mem_cons_self hpage (Nat.zero_le 8)
      (Nat.lt_succ_self 8)
  rw [hparse, Option.map_some, Option.some.injEq, readVersions_reads hg hr] at he
  exact nomatch congrArg PageRead.items he

end Main

end VeStorage.Tos.Payload
