import VeStorage.Tos.Payload.Pages

namespace VeStorage.Tos.Payload
open Lib
open RollingCsv (parseUsize_toDigits u64Max)

def optional (name : Name) (value : Option Text) : Record := value.toList.map fun text => (name, .text text)

def ObjectEntry.record (o : ObjectEntry) : Record :=
  [(.key, .text o.key), (.size, .number o.size)] ++ optional .lastModified o.lastModified ++
    optional .etag o.etag ++ optional .storageClass o.storageClass

def prefixRecord (commonPrefix : Text) : Record := [(.keyPrefix, .text commonPrefix)]

structure ObjectPage where
  objects : List ObjectEntry
  prefixes : List Text
  isTruncated : Bool
  nextContinuationToken : Option Text
  nextMarker : Option Text

def ObjectPage.encoded (page : ObjectPage) : Encoded where
  lists := [⟨.contents, .contents, page.objects.map ObjectEntry.record⟩,
    ⟨.commonPrefixes, .commonPrefixes, page.prefixes.map prefixRecord⟩]
  scalars := (.isTruncated, .flag page.isTruncated) ::
    (optional .nextContinuationToken page.nextContinuationToken ++ optional .nextMarker page.nextMarker)

def ObjectPage.read (page : ObjectPage) : PageRead ObjectEntry where
  items := page.objects
  prefixes := page.prefixes
  next := if page.isTruncated then some [page.nextContinuationToken.or page.nextMarker] else none

def ObjectVersionRef.record (v : ObjectVersionRef) : Record :=
  [(.key, .text v.key), (.versionId, .text v.versionId)]

structure VersionPage where
  versions : List ObjectVersionRef
  deleteMarkers : List ObjectVersionRef
  prefixes : List Text
  isTruncated : Bool
  nextKeyMarker : Option Text
  nextVersionIdMarker : Option Text

def VersionPage.encoded (page : VersionPage) : Encoded where
  lists := [⟨.versions, .version, page.versions.map ObjectVersionRef.record⟩,
    ⟨.deleteMarkers, .deleteMarker, page.deleteMarkers.map ObjectVersionRef.record⟩,
    ⟨.commonPrefixes, .commonPrefixes, page.prefixes.map prefixRecord⟩]
  scalars := (.isTruncated, .flag page.isTruncated) ::
    (optional .nextKeyMarker page.nextKeyMarker ++
      optional .nextVersionIdMarker page.nextVersionIdMarker)

def VersionPage.read (page : VersionPage) : PageRead ObjectVersionRef where
  items := page.versions ++ page.deleteMarkers
  prefixes := page.prefixes
  next := if page.isTruncated then some [page.nextKeyMarker, page.nextVersionIdMarker] else none

def MultipartUploadRef.record (u : MultipartUploadRef) : Record :=
  [(.key, .text u.key), (.uploadId, .text u.uploadId)]

structure UploadPage where
  uploads : List MultipartUploadRef
  isTruncated : Bool
  nextKeyMarker : Option Text
  nextUploadIdMarker : Option Text

def UploadPage.encoded (page : UploadPage) : Encoded where
  lists := [⟨.uploads, .upload, page.uploads.map MultipartUploadRef.record⟩]
  scalars := (.isTruncated, .flag page.isTruncated) ::
    (optional .nextKeyMarker page.nextKeyMarker ++
      optional .nextUploadIdMarker page.nextUploadIdMarker)

def UploadPage.read (page : UploadPage) : PageRead MultipartUploadRef where
  items := page.uploads
  prefixes := []
  next := if page.isTruncated then some [page.nextKeyMarker, page.nextUploadIdMarker] else none

structure PartPage where
  parts : List UInt32
  isTruncated : Bool
  nextPartNumberMarker : Option Text

def partRecord (number : UInt32) : Record := [(.partNumber, .number number.toUInt64)]

def PartPage.encoded (page : PartPage) : Encoded where
  lists := [⟨.parts, .part, page.parts.map partRecord⟩]
  scalars := (.isTruncated, .flag page.isTruncated) ::
    optional .nextPartNumberMarker page.nextPartNumberMarker

def PartPage.read (page : PartPage) : PageRead UInt32 where
  items := page.parts
  prefixes := []
  next := if page.isTruncated then some [page.nextPartNumberMarker] else none

-- What a text of the page is read as.
def seen (xml : Bool) (text : Text) : Text := if xml then trimText text else text

section Records

variable {xml : Bool} {r : Record} {value : Value} {name : Name} {g : Name → Option Value}
  {names : List String}

theorem jsonArray_normal (h : Normal value g) (hn : namesOf names = [name]) :
    jsonArray value names = ((g name).bind Value.listed).getD [] := by
  rw [jsonArray, findSome_normal h, hn, List.findSome?_cons, List.findSome?_nil]
  cases (g name).bind Value.listed <;> rfl

theorem jsonString_normal (h : Normal value g) (hn : namesOf names = [name]) :
    jsonString value names = (g name).bind Value.printed := by
  rw [jsonString, findSome_normal h, hn, List.findSome?_cons, List.findSome?_nil]
  cases (g name).bind Value.printed <;> rfl

theorem jsonU64_normal (h : Normal value g) (hn : namesOf names = [name]) :
    jsonU64 value names = (g name).bind Value.large := by
  rw [jsonU64, findSome_normal h, hn, List.findSome?_cons, List.findSome?_nil]
  cases (g name).bind Value.large <;> rfl

theorem jsonU32_normal (h : Normal value g) (hn : namesOf names = [name]) :
    jsonU32 value names = (g name).bind Value.small := by
  rw [jsonU32, findSome_normal h, hn, List.findSome?_cons, List.findSome?_nil]
  cases (g name).bind Value.small <;> rfl

theorem jsonBool_normal (h : Normal value g) (hn : namesOf names = [name]) :
    jsonBool value names = (g name).bind Value.switched := by
  rw [jsonBool, findSome_normal h, hn, List.findSome?_cons, List.findSome?_nil]
  cases (g name).bind Value.switched <;> rfl

theorem getStr_single (h : Normal value g) (hn : namesOf names = [name]) :
    getStr value names = (g name).bind Value.asStr := by
  rw [getStr_normal h, hn, List.findSome?_cons, List.findSome?_nil]
  cases g name <;> rfl

theorem trimText_eq_self {text : Text} (h : ∀ c ∈ text, isXmlSpace c = false) :
    trimText text = text := by
  have hdrop : text.dropWhile isXmlSpace = text := by
    cases text with
    | nil => rfl
    | cons c rest => rw [List.dropWhile_cons_of_neg (by simp [h c List.mem_cons_self])]
  rw [trimText, hdrop, List.rdropWhile_eq_self_iff]
  intro hne
  simp [h _ (List.getLast_mem hne)]

theorem printed_text (text : Text) : (Scalar.value xml (.text text)).printed = some (seen xml text) := by
  cases xml <;> rfl

theorem asStr_text (text : Text) : (Scalar.value xml (.text text)).asStr = some (seen xml text) := by
  cases xml <;> rfl

theorem trimText_digits (n : Nat) : trimText (Nat.toDigits 10 n) = Nat.toDigits 10 n := by
  refine trimText_eq_self fun c hc => ?_
  have hdigit := Nat.isDigit_of_mem_toDigits (by decide) (by decide) hc
  by_contra hspace
  rw [Bool.not_eq_false, isXmlSpace, List.contains_iff_mem] at hspace
  revert hdigit
  simp only [List.mem_cons, List.not_mem_nil, or_false] at hspace
  rcases hspace with rfl | rfl | rfl | rfl <;> decide

theorem large_number (n : UInt64) : (Scalar.value xml (.number n)).large = some n := by
  cases xml with
  | false => rfl
  | true =>
    have hmax : n.toNat ≤ u64Max := Nat.le_pred_of_lt n.toNat_lt
    simp [Scalar.value, Scalar.xml, Value.large, Value.asU64, Value.asStr, parseU64, trimText_digits,
      parseUsize_toDigits hmax]

theorem small_number (n : UInt32) : (Scalar.value xml (.number n.toUInt64)).small = some n := by
  have hlt : n.toNat ≤ u32Max := Nat.le_pred_of_lt n.toNat_lt
  have hmax : n.toNat ≤ u64Max := hlt.trans (by decide)
  cases xml with
  | false => simp [Scalar.value, Scalar.json, Value.small, Value.asU64, hlt]
  | true =>
    simp [Scalar.value, Scalar.xml, Value.small, Value.asU64, Value.asStr, parseU32, trimText_digits,
      parseUsize_toDigits hmax, hlt]

theorem switched_flag (b : Bool) : (Scalar.value xml (.flag b)).switched = some b := by
  cases xml <;> cases b <;> rfl

@[simp] theorem lookup_optional {other : Name} {text : Option Text} :
    (optional name text).lookup other = if other = name then text.map .text else none := by
  cases text with
  | none => simp [optional]
  | some text => rw [optional, Option.toList_some, List.map_singleton, lookup_entry, List.lookup_nil]; rfl

theorem printed_option (text : Option Text) :
    (text.map (Scalar.value xml ∘ Scalar.text)).bind Value.printed = text.map (seen xml) := by
  cases text with
  | none => rfl
  | some text => exact printed_text text

def ObjectEntry.seen (xml : Bool) (o : ObjectEntry) : ObjectEntry where
  key := Payload.seen xml o.key
  size := o.size
  lastModified := o.lastModified.map (Payload.seen xml)
  etag := o.etag.map (Payload.seen xml)
  storageClass := o.storageClass.map (Payload.seen xml)

theorem parseObjectEntry_reads {o : ObjectEntry} (h : o.record.Reads xml value) :
    parseObjectEntry value = some (o.seen xml) := by
  have hkey : namesOf ["key", "Key"] = [.key] := namesOf_asked (by simp [asked])
  have hsize : namesOf ["size", "Size", "content_length", "ContentLength"] = [.size] :=
    namesOf_asked (by simp [asked])
  have hmodified : namesOf ["last_modified", "LastModified"] = [.lastModified] :=
    namesOf_asked (by simp [asked])
  have hetag : namesOf ["etag", "e_tag", "ETag"] = [.etag] := namesOf_asked (by simp [asked])
  have hclass : namesOf ["storage_class", "StorageClass"] = [.storageClass] :=
    namesOf_asked (by simp [asked])
  rw [parseObjectEntry, jsonString_normal h.2 hkey, jsonString_normal h.2 hmodified,
    jsonString_normal h.2 hetag, jsonString_normal h.2 hclass, jsonU64_normal h.2 hsize]
  simp [ObjectEntry.record, ObjectEntry.seen, List.lookup_append, lookup_entry, printed_text,
    large_number, printed_option]

theorem parseCommonPrefixEntry_reads {p : Text} (h : (prefixRecord p).Reads xml value) :
    parseCommonPrefixEntry value = some (seen xml p) := by
  have hnames : namesOf ["Prefix", "prefix"] = [.keyPrefix] := namesOf_asked (by simp [asked])
  have hstr : value.asStr = none := by
    cases value with
    | object fields => rfl
    | _ => exact h.1.elim
  rw [parseCommonPrefixEntry, hstr, Option.none_or, getStr_single h.2 hnames]
  simp [prefixRecord, asStr_text]

def ObjectVersionRef.seen (xml : Bool) (v : ObjectVersionRef) : ObjectVersionRef :=
  ⟨Payload.seen xml v.key, Payload.seen xml v.versionId⟩

theorem parseVersion_reads {v : ObjectVersionRef} (h : v.record.Reads xml value) :
    parseVersion value = some (v.seen xml) := by
  have hkey : namesOf ["key", "Key"] = [.key] := namesOf_asked (by simp [asked])
  have hversion : namesOf ["version_id", "VersionId"] = [.versionId] :=
    namesOf_asked (by simp [asked])
  rw [parseVersion, jsonString_normal h.2 hkey, jsonString_normal h.2 hversion]
  simp [ObjectVersionRef.record, ObjectVersionRef.seen, lookup_entry, printed_text]

def MultipartUploadRef.seen (xml : Bool) (u : MultipartUploadRef) : Option MultipartUploadRef :=
  if Payload.seen xml u.key ≠ [] ∧ Payload.seen xml u.uploadId ≠ [] then
    some ⟨Payload.seen xml u.key, Payload.seen xml u.uploadId⟩
  else none

theorem parseUpload_reads {u : MultipartUploadRef} (h : u.record.Reads xml value) :
    parseUpload value = u.seen xml := by
  have hkey : namesOf ["Key", "key"] = [.key] := namesOf_asked (by simp [asked])
  have hupload : namesOf ["UploadId", "upload_id", "uploadId", "uploadID"] = [.uploadId] :=
    namesOf_asked (by simp [asked])
  rw [parseUpload, getStr_single h.2 hkey, getStr_single h.2 hupload]
  simp [MultipartUploadRef.record, MultipartUploadRef.seen, lookup_entry, asStr_text]

theorem parsePart_reads {n : UInt32} (h : (partRecord n).Reads xml value) :
    jsonU32 value ["part_number", "part_id", "PartNumber"] = some n := by
  have hnames : namesOf ["part_number", "part_id", "PartNumber"] = [.partNumber] :=
    namesOf_asked (by simp [asked])
  rw [jsonU32_normal h.2 hnames]
  simp [partRecord, small_number]

theorem filterMap_reads {α β : Type} {record : α → Record} {parse : Value → Option β}
    {f : α → Option β} {as : List α} {values : List Value}
    (h : List.Forall₂ (Record.Reads xml) (as.map record) values)
    (hp : ∀ a v, (record a).Reads xml v → parse v = f a) :
    values.filterMap parse = as.filterMap f := by
  induction as generalizing values with
  | nil =>
    cases h
    rfl
  | cons a as ih =>
    cases h with
    | cons ha hrest => rw [List.filterMap_cons, List.filterMap_cons, hp a _ ha, ih hrest]

end Records

section Pages

variable {xml : Bool} {value : Value} {g : Name → Option Value} {e : Encoded}

theorem markers_reads {names : List (List String)} (b : Bool) (h : Normal value g)
    (hr : e.Reads xml g) (hb : (.isTruncated, .flag b) ∈ e.scalars) :
    markers value names = if b then some (names.map (jsonString value)) else none := by
  have hnames : namesOf ["is_truncated", "IsTruncated"] = [.isTruncated] :=
    namesOf_asked (by simp [asked])
  have hflag := hr.scalars _ hb
  rw [markers, jsonBool_normal h hnames, hflag, Option.bind_some, switched_flag, Option.getD_some]

theorem marker_reads (name : Name) (text : Option Text) (hr : e.Reads xml g)
    (hs : optional name text ⊆ e.scalars) (ha : text = none → name ∉ e.names xml) :
    (g name).bind Value.printed = text.map (seen xml) := by
  cases text with
  | none => rw [hr.absent name (ha rfl)]; rfl
  | some text =>
    have hmem : (name, Scalar.text text) ∈ e.scalars := hs (by simp [optional])
    rw [hr.scalars _ hmem, Option.bind_some, printed_text]
    rfl

theorem jsonArray_first {names : List String} {first second : Name} (h : Normal value g)
    (hn : namesOf names = [first, second]) (hnone : g second = none) :
    jsonArray value names = ((g first).bind Value.listed).getD [] := by
  rw [jsonArray, findSome_normal h, hn, List.findSome?_cons, List.findSome?_cons,
    List.findSome?_nil, hnone]
  cases (g first).bind Value.listed <;> rfl

theorem jsonArray_second {names : List String} {first second : Name} (h : Normal value g)
    (hn : namesOf names = [first, second]) (hnone : g first = none) :
    jsonArray value names = ((g second).bind Value.listed).getD [] := by
  rw [jsonArray, findSome_normal h, hn, List.findSome?_cons, List.findSome?_cons,
    List.findSome?_nil, hnone]
  cases (g second).bind Value.listed <;> rfl

theorem list_reads {listing : Listing} {names : List String} {α β : Type} {as : List α}
    {record : α → Record} {parse : Value → Option β} {f : α → Option β}
    (hr : e.Reads xml g) (hl : listing ∈ e.lists)
    {name : Name} (hname : listing.name xml = name)
    (hn : jsonArray value names = ((g name).bind Value.listed).getD [])
    (has : listing.records = as.map record)
    (hp : ∀ a v, (record a).Reads xml v → parse v = f a) :
    (jsonArray value names).filterMap parse = as.filterMap f := by
  rw [hn, ← hname]
  exact filterMap_reads (has ▸ hr.lists listing hl) hp

theorem prefixes_reads (prefixes : List Text) (h : Normal value g) (hr : e.Reads xml g)
    (hl : ⟨.commonPrefixes, .commonPrefixes, prefixes.map prefixRecord⟩ ∈ e.lists) :
    (jsonArray value commonPrefixNames).filterMap parseCommonPrefixEntry =
      prefixes.map (seen xml) := by
  have hnames : namesOf commonPrefixNames = [.commonPrefixes] := namesOf_asked (by simp [asked])
  rw [list_reads hr hl (by cases xml <;> rfl) (jsonArray_normal h hnames) rfl
    fun p v hp => parseCommonPrefixEntry_reads hp]
  exact congrFun List.filterMap_eq_map prefixes

def ObjectPage.seen (xml : Bool) (page : ObjectPage) : PageRead ObjectEntry where
  items := page.objects.map (ObjectEntry.seen xml)
  prefixes := page.prefixes.map (Payload.seen xml)
  next := if page.isTruncated then
    some [(page.nextContinuationToken.or page.nextMarker).map (Payload.seen xml)] else none

theorem readObjects_reads {page : ObjectPage} (h : Normal value g) (hr : page.encoded.Reads xml g) :
    readObjects value = page.seen xml := by
  have hcontents : namesOf ["contents", "Contents", "objects"] = [.contents] :=
    namesOf_asked (by simp [asked])
  have htoken : namesOf ["next_continuation_token", "NextContinuationToken", "next_marker", "NextMarker"] =
      [.nextContinuationToken, .nextMarker] := namesOf_asked (by simp [asked])
  have hitems : (jsonArray value ["contents", "Contents", "objects"]).filterMap parseObjectEntry =
      page.objects.filterMap fun o => some (o.seen xml) :=
    list_reads hr List.mem_cons_self (by cases xml <;> rfl) (jsonArray_normal h hcontents) rfl
      fun o v ho => parseObjectEntry_reads ho
  have hfirst := marker_reads .nextContinuationToken page.nextContinuationToken hr
    (by simp [ObjectPage.encoded]) fun hnone => by
      cases xml <;> simp [ObjectPage.encoded, Encoded.names, Listing.name, optional, hnone]
  have hsecond := marker_reads .nextMarker page.nextMarker hr (by simp [ObjectPage.encoded])
    fun hnone => by
      cases xml <;> simp [ObjectPage.encoded, Encoded.names, Listing.name, optional, hnone]
  have hnext : jsonString value ["next_continuation_token", "NextContinuationToken", "next_marker",
      "NextMarker"] = (page.nextContinuationToken.or page.nextMarker).map (Payload.seen xml) := by
    rw [jsonString, findSome_normal h, htoken]
    simp only [List.findSome?_cons, List.findSome?_nil, hfirst, hsecond]
    cases page.nextContinuationToken <;> cases page.nextMarker <;> rfl
  rw [readObjects, hitems, prefixes_reads page.prefixes h hr (by simp [ObjectPage.encoded]),
    markers_reads page.isTruncated h hr List.mem_cons_self]
  simp only [List.map_cons, List.map_nil, hnext]
  rw [ObjectPage.seen]
  congr 1
  exact congrFun List.filterMap_eq_map page.objects

end Pages

end VeStorage.Tos.Payload
