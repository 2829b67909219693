import VeStorage.Tos.Payload.Xml

namespace VeStorage.Tos.Payload
open Lib

inductive Name
  | contents
  | key
  | size
  | lastModified
  | etag
  | storageClass
  | commonPrefixes
  | keyPrefix
  | isTruncated
  | nextContinuationToken
  | nextMarker
  | versions
  | version
  | versionId
  | deleteMarkers
  | deleteMarker
  | uploads
  | upload
  | uploadId
  | parts
  | part
  | partNumber
  | nextKeyMarker
  | nextVersionIdMarker
  | nextUploadIdMarker
  | nextPartNumberMarker
  | result
  | data
  | body
  | payload
  | response
  | listBucketResult
  | listObjectsResult
  deriving DecidableEq

def Name.words : Name → List String
  | .contents => ["contents"]
  | .key => ["key"]
  | .size => ["size"]
  | .lastModified => ["last", "modified"]
  | .etag => ["e", "tag"]
  | .storageClass => ["storage", "class"]
  | .commonPrefixes => ["common", "prefixes"]
  | .keyPrefix => ["prefix"]
  | .isTruncated => ["is", "truncated"]
  | .nextContinuationToken => ["next", "continuation", "token"]
  | .nextMarker => ["next", "marker"]
  | .versions => ["versions"]
  | .version => ["version"]
  | .versionId => ["version", "id"]
  | .deleteMarkers => ["delete", "markers"]
  | .deleteMarker => ["delete", "marker"]
  | .uploads => ["uploads"]
  | .upload => ["upload"]
  | .uploadId => ["upload", "id"]
  | .parts => ["parts"]
  | .part => ["part"]
  | .partNumber => ["part", "number"]
  | .nextKeyMarker => ["next", "key", "marker"]
  | .nextVersionIdMarker => ["next", "version", "id", "marker"]
  | .nextUploadIdMarker => ["next", "upload", "id", "marker"]
  | .nextPartNumberMarker => ["next", "part", "number", "marker"]
  | .result => ["result"]
  | .data => ["data"]
  | .body => ["body"]
  | .payload => ["payload"]
  | .response => ["response"]
  | .listBucketResult => ["list", "bucket", "result"]
  | .listObjectsResult => ["list", "objects", "result"]

def Name.all : List Name :=
  [.contents, .key, .size, .lastModified, .etag, .storageClass, .commonPrefixes, .keyPrefix,
    .isTruncated, .nextContinuationToken, .nextMarker, .versions, .version, .versionId,
    .deleteMarkers, .deleteMarker, .uploads, .upload, .uploadId, .parts, .part, .partNumber,
    .nextKeyMarker, .nextVersionIdMarker, .nextUploadIdMarker, .nextPartNumberMarker, .result,
    .data, .body, .payload, .response, .listBucketResult, .listObjectsResult]

inductive NameCase
  | pascal
  | camel
  | snake

def capitalize (word : String) : Text :=
  match word.toList with
  | [] => []
  | c :: rest => c.toUpper :: rest

def NameCase.spell (style : NameCase) (name : Name) : Text :=
  match style with
  | .pascal => name.words.flatMap capitalize
  | .camel => (name.words.take 1).flatMap String.toList ++ (name.words.drop 1).flatMap capitalize
  | .snake => List.intercalate ['_'] (name.words.map String.toList)

def ofSnake (text : Text) : Option Name := Name.all.find? fun name => NameCase.snake.spell name = text

theorem mem_all (name : Name) : name ∈ Name.all := by
  cases name <;> simp [Name.all]

theorem ofSnake_all : ∀ name ∈ Name.all, ofSnake (NameCase.snake.spell name) = some name := by
  decide +kernel

theorem ofSnake_spell (name : Name) : ofSnake (NameCase.snake.spell name) = some name :=
  ofSnake_all name (mem_all name)

theorem spell_ascii (style : NameCase) (name : Name) : ∀ c ∈ style.spell name, c.toNat < 128 := by
  have h : ∀ name ∈ Name.all, ((style.spell name).all fun c => decide (c.toNat < 128)) = true := by
    cases style <;> decide +kernel
  exact fun c hc => of_decide_eq_true (List.all_eq_true.mp (h name (mem_all name)) c hc)

theorem toSnakeCase_spell_ascii (style : NameCase) (name : Name) :
    toSnakeCase asciiCase (style.spell name) = NameCase.snake.spell name := by
  have h : ∀ name ∈ Name.all,
      toSnakeCase asciiCase (style.spell name) = NameCase.snake.spell name := by
    cases style <;> decide +kernel
  exact h name (mem_all name)

section Normal

variable {cases : CharCase} {style : NameCase} {name : Name} {text : Text} {fields : Map}
  {value : Value}

theorem toSnakeCase_spell : toSnakeCase cases (style.spell name) = NameCase.snake.spell name :=
  (toSnakeCase_ascii (spell_ascii style name)).trans (toSnakeCase_spell_ascii style name)

theorem ofSnake_eq_some (h : ofSnake text = some name) : NameCase.snake.spell name = text := by
  simpa using List.find?_some h

theorem spell_injective {other : Name} (h : style.spell name = style.spell other) : name = other := by
  have hsnake := congrArg (toSnakeCase asciiCase) h
  rw [toSnakeCase_spell, toSnakeCase_spell] at hsnake
  have hsome := ofSnake_spell name
  rw [hsnake, ofSnake_spell] at hsome
  exact (Option.some.inj hsome).symm

section Lookup

variable {κ α : Type} [BEq κ] [LawfulBEq κ] [DecidableEq κ] {key : κ} {value : α}
  {entries : List (κ × α)}

theorem lookup_of_mem (hnodup : (entries.map Prod.fst).Nodup) (hmem : (key, value) ∈ entries) :
    entries.lookup key = some value := by
  induction entries with
  | nil => cases hmem
  | cons entry rest ih =>
    obtain ⟨other, old⟩ := entry
    rw [List.map_cons, List.nodup_cons] at hnodup
    rw [lookup_entry]
    rcases List.mem_cons.mp hmem with he | hrest
    · obtain ⟨rfl, rfl⟩ := Prod.mk.inj he
      exact if_pos rfl
    · rw [if_neg, ih hnodup.2 hrest]
      rintro rfl
      exact hnodup.1 (List.mem_map.mpr ⟨_, hrest, rfl⟩)

theorem mem_of_lookup (h : entries.lookup key = some value) : (key, value) ∈ entries := by
  induction entries with
  | nil => cases h
  | cons entry rest ih =>
    obtain ⟨other, old⟩ := entry
    rw [lookup_entry] at h
    split at h
    · rename_i he
      obtain rfl := Option.some.inj h
      exact he ▸ List.mem_cons_self
    · exact List.mem_cons_of_mem _ (ih h)

end Lookup

-- The fields of a normalized value, by name; it has no others.
def Normal (value : Value) (g : Name → Option Value) : Prop :=
  ∀ text, value.get text = (ofSnake text).bind g

theorem normal_object (hnames : ∀ entry ∈ fields, ∃ name, entry.1 = style.spell name)
    (hnodup : (fields.map Prod.fst).Nodup) :
    Normal (normalizeKeys cases (.object fields)) fun name =>
      (fields.lookup (style.spell name)).map (normalizeKeys cases) := by
  intro text
  have hsnake : (fields.map fun entry => toSnakeCase cases entry.1).Nodup := by
    refine (List.pairwise_map.mp hnodup).imp_of_mem ?_ |> List.pairwise_map.mpr
    intro a b ha hb hne he
    obtain ⟨n, hn⟩ := hnames a ha
    obtain ⟨m, hm⟩ := hnames b hb
    rw [hn, hm, toSnakeCase_spell, toSnakeCase_spell] at he
    exact hne (by rw [hn, hm, spell_injective he])
  rw [normalizeKeys_object, Value.get]
  cases hfound : ofSnake text with
  | none =>
    rw [lookup_normalizeFields, Option.bind_none, List.lookup_nil]
    intro entry hentry hsame
    obtain ⟨n, hn⟩ := hnames entry hentry
    rw [hn, toSnakeCase_spell] at hsame
    rw [← hsame, ofSnake_spell] at hfound
    cases hfound
  | some name =>
    obtain rfl := ofSnake_eq_some hfound
    rw [Option.bind_some]
    cases hlookup : fields.lookup (style.spell name) with
    | some value =>
      have hname : toSnakeCase cases (style.spell name) = NameCase.snake.spell name :=
        toSnakeCase_spell
      rw [← hname, lookup_normalizeFields_of_mem hsnake (mem_of_lookup hlookup), Option.map_some]
    | none =>
      rw [lookup_normalizeFields, Option.map_none, List.lookup_nil]
      intro entry hentry hsame
      obtain ⟨n, hn⟩ := hnames entry hentry
      rw [hn, toSnakeCase_spell] at hsame
      obtain rfl := spell_injective hsame
      have hsome : fields.lookup (style.spell n) = some entry.2 :=
        lookup_of_mem hnodup (hn ▸ hentry)
      rw [hsome] at hlookup
      cases hlookup

-- An object with these fields, in any order.
def IsObject (style : NameCase) (entries : List (Name × Value)) (value : Value) : Prop :=
  ∃ fields : Map, value = .object fields ∧
    fields.Perm (entries.map fun entry => (style.spell entry.1, entry.2))

variable (cases) in
theorem IsObject.normal {entries : List (Name × Value)} (h : IsObject style entries value)
    (hnodup : (entries.map Prod.fst).Nodup) :
    Normal (normalizeKeys cases value) fun name =>
      (entries.lookup name).map (normalizeKeys cases) := by
  obtain ⟨fields, rfl, hperm⟩ := h
  have hspelled : ((entries.map fun entry => (style.spell entry.1, entry.2)).map Prod.fst).Nodup := by
    rw [List.map_map]
    refine List.pairwise_map.mpr ((List.pairwise_map.mp hnodup).imp ?_)
    exact fun hne he => hne (spell_injective he)
  have hfields : (fields.map Prod.fst).Nodup := (hperm.map _).nodup_iff.mpr hspelled
  have hmem : ∀ name value, (style.spell name, value) ∈ fields ↔ (name, value) ∈ entries := by
    intro name value
    rw [hperm.mem_iff, List.mem_map]
    constructor
    · rintro ⟨⟨n, v⟩, hv, he⟩
      obtain ⟨hn, rfl⟩ := Prod.mk.inj he
      exact spell_injective hn ▸ hv
    · exact fun hv => ⟨_, hv, rfl⟩
  have hlookup : ∀ name, fields.lookup (style.spell name) = entries.lookup name := by
    intro name
    cases hentry : entries.lookup name with
    | some value =>
      exact lookup_of_mem hfields ((hmem name value).mpr (mem_of_lookup hentry))
    | none =>
      cases hfield : fields.lookup (style.spell name) with
      | none => rfl
      | some value =>
        have hsome := (hmem name value).mp (mem_of_lookup hfield)
        rw [List.lookup_eq_none_iff] at hentry
        simpa using hentry _ hsome
  have h : ∀ entry ∈ fields, ∃ name, entry.1 = style.spell name := by
    intro entry hentry
    obtain ⟨⟨n, v⟩, -, rfl⟩ := List.mem_map.mp (hperm.mem_iff.mp hentry)
    exact ⟨n, rfl⟩
  simpa only [hlookup] using normal_object h hfields

-- The elements below a node with this name, in document order.
def named (children : List Xml) (name : Name) : List Xml :=
  children.filter (·.name = NameCase.pascal.spell name)

variable (cases) in
theorem normal_node (root : Text) {children : List Xml}
    (hnames : ∀ x ∈ children, ∃ name, x.name = NameCase.pascal.spell name) :
    Normal (normalizeKeys cases (Xml.node root children).value) fun name =>
      (collapse ((named children name).map Xml.value)).map (normalizeKeys cases) := by
  have hlookup : ∀ name, (collect [] children).lookup name =
      collapse ((children.filter (·.name = name)).map Xml.value) := by
    intro name
    have h : (collect [] children).lookup name =
        collapse ([] ++ (children.filter (·.name = name)).map Xml.value) :=
      lookup_collect (fun _ hv => absurd hv List.not_mem_nil) rfl
    exact h
  rw [Xml.value, XmlNode.value]
  split
  · rename_i hempty
    have hnone : ∀ name, collapse ((named children name).map Xml.value) = none := by
      intro name
      have hnil : collect [] children = [] := List.isEmpty_iff.mp hempty
      rw [named, ← hlookup, hnil, List.lookup_nil]
    simp only [hnone, normalizeKeys_string]
    intro text
    cases ofSnake text <;> rfl
  · have hsorted : ((collect [] children).map Prod.fst).Pairwise (· < ·) :=
      sorted_collect List.Pairwise.nil
    have hnodup : ((collect [] children).map Prod.fst).Nodup := hsorted.imp ne_of_lt
    have h : ∀ entry ∈ collect [] children, ∃ name, entry.1 = NameCase.pascal.spell name := by
      intro entry hentry
      rcases keys_collect (List.mem_map_of_mem hentry) with hnil | ⟨x, hx, hname⟩
      · cases hnil
      · exact hname ▸ hnames x hx
    simpa only [hlookup, named] using normal_object h hnodup

end Normal

end VeStorage.Tos.Payload
