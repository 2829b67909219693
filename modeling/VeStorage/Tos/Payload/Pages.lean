import VeStorage.Tos.Payload.Body
import VeStorage.Tos.Payload.Readers

namespace VeStorage.Tos.Payload
open Lib
open RollingCsv (parseUsize_toDigits u64Max)

inductive Scalar
  | text (value : Text)
  | number (value : UInt64)
  | flag (value : Bool)

def Scalar.json : Scalar → Value
  | .text value => .string value
  | .number value => .number (some value)
  | .flag value => .bool value

def Scalar.xml : Scalar → Text
  | .text value => value
  | .number value => Nat.toDigits 10 value.toNat
  | .flag value => if value then "true".toList else "false".toList

abbrev Record := List (Name × Scalar)

structure Listing where
  jsonName : Name
  xmlName : Name
  records : List Record

def Listing.name (listing : Listing) (xml : Bool) : Name :=
  if xml then listing.xmlName else listing.jsonName

-- A page, as the names and fields of its encodings.
structure Encoded where
  lists : List Listing
  scalars : Record

def Encoded.names (e : Encoded) (xml : Bool) : List Name :=
  e.lists.map (·.name xml) ++ e.scalars.map Prod.fst

def Record.entries (r : Record) : List (Name × Value) := r.map fun entry => (entry.1, entry.2.json)

def Record.leaves (r : Record) : List Xml :=
  r.map fun entry => .leaf (NameCase.pascal.spell entry.1) entry.2.xml

def Record.IsElement (r : Record) (name : Name) (x : Xml) : Prop :=
  ∃ children, x = .node (NameCase.pascal.spell name) children ∧ children.Perm r.leaves

-- The lists of an object page come as arrays of objects.
def Encoded.IsJson (e : Encoded) (style : NameCase) (value : Value) : Prop :=
  ∃ arrays : List (List Value),
    List.Forall₂ (fun listing items =>
      List.Forall₂ (fun r item => IsObject style r.entries item) listing.records items)
      e.lists arrays ∧
    IsObject style (e.lists.zipWith (fun listing items => (listing.jsonName, .array items)) arrays ++
      e.scalars.entries) value

-- The lists of a document come as repeated elements, in any order between one another.
def Encoded.IsXml (e : Encoded) (x : Xml) : Prop :=
  ∃ root children, x = .node root children ∧
    (∀ child ∈ children, ∃ name ∈ e.names true, child.name = NameCase.pascal.spell name) ∧
    (∀ listing ∈ e.lists, List.Forall₂ (fun r child => r.IsElement listing.xmlName child)
      listing.records (named children listing.xmlName)) ∧
    ∀ entry ∈ e.scalars, named children entry.1 = Record.leaves [entry]

def Scalar.value (xml : Bool) (s : Scalar) : Value :=
  if xml then .string (trimText s.xml) else s.json

def Record.Reads (xml : Bool) (r : Record) (value : Value) : Prop :=
  value.IsObject ∧ Normal value fun name => (r.lookup name).map (Scalar.value xml)

structure Encoded.Reads (e : Encoded) (xml : Bool) (g : Name → Option Value) : Prop where
  lists : ∀ listing ∈ e.lists, List.Forall₂ (Record.Reads xml) listing.records
    (((g (listing.name xml)).bind Value.listed).getD [])
  scalars : ∀ entry ∈ e.scalars, g entry.1 = some (entry.2.value xml)
  absent : ∀ name, name ∉ e.names xml → g name = none

variable {cases : CharCase} {style : NameCase} {r : Record} {value : Value} {name : Name} {x : Xml}
  {e : Encoded} {xml : Bool}

theorem lookup_map {α β : Type} (f : α → β) (entries : List (Name × α)) :
    (entries.map fun entry => (entry.1, f entry.2)).lookup name = (entries.lookup name).map f := by
  induction entries with
  | nil => rfl
  | cons entry rest ih =>
    obtain ⟨n, a⟩ := entry
    rw [List.map_cons, lookup_entry, lookup_entry, ih]
    split <;> rfl

theorem normalizeKeys_json (s : Scalar) : normalizeKeys cases s.json = s.json := by
  cases s <;> simp [Scalar.json]

theorem isObject_reads (h : IsObject style r.entries value) (hnodup : (r.map Prod.fst).Nodup) :
    r.Reads false (normalizeKeys cases value) := by
  have hnames : (r.entries.map Prod.fst).Nodup := by
    rwa [Record.entries, List.map_map, show Prod.fst ∘ (fun entry : Name × Scalar =>
      (entry.1, entry.2.json)) = Prod.fst from rfl]
  refine ⟨?_, ?_⟩
  · obtain ⟨fields, rfl, -⟩ := h
    rw [normalizeKeys_object]
    trivial
  · have hnormal := h.normal cases hnames
    simp only [Record.entries, lookup_map, Option.map_map] at hnormal
    have hscalar : normalizeKeys cases ∘ Scalar.json = Scalar.value false :=
      funext fun s => normalizeKeys_json s
    rwa [hscalar] at hnormal

theorem named_leaves (hnodup : (r.map Prod.fst).Nodup) :
    named r.leaves name = ((r.lookup name).map fun s =>
      Xml.leaf (NameCase.pascal.spell name) s.xml).toList := by
  induction r with
  | nil => rfl
  | cons entry rest ih =>
    obtain ⟨n, s⟩ := entry
    rw [List.map_cons, List.nodup_cons] at hnodup
    have hcons : Record.leaves ((n, s) :: rest) =
        .leaf (NameCase.pascal.spell n) s.xml :: Record.leaves rest := rfl
    rw [lookup_entry, hcons, named]
    by_cases h : name = n
    · subst h
      have hrest : named (Record.leaves rest) name = [] := by
        rw [ih hnodup.2]
        cases hlookup : List.lookup name rest with
        | none => rfl
        | some s' => exact absurd (List.mem_map.mpr ⟨_, mem_of_lookup hlookup, rfl⟩) hnodup.1
      rw [List.filter_cons_of_pos (by simp [Xml.name]), if_pos rfl]
      exact congrArg _ hrest
    · have hne : ¬ (Xml.leaf (NameCase.pascal.spell n) s.xml).name = NameCase.pascal.spell name :=
        fun (he : NameCase.pascal.spell n = NameCase.pascal.spell name) =>
          h (spell_injective he).symm
      rw [List.filter_cons_of_neg (by simpa using hne), if_neg h]
      exact ih hnodup.2

theorem isElement_reads (h : r.IsElement name x) (hnodup : (r.map Prod.fst).Nodup) (hne : r ≠ []) :
    r.Reads true (normalizeKeys cases x.value) := by
  obtain ⟨children, rfl, hperm⟩ := h
  have hnames : ∀ x ∈ children, ∃ n, x.name = NameCase.pascal.spell n := by
    intro x hx
    obtain ⟨entry, -, rfl⟩ := List.mem_map.mp (hperm.mem_iff.mp hx)
    exact ⟨entry.1, rfl⟩
  have hlookup : ∀ n, collapse ((named children n).map Xml.value) =
      (r.lookup n).map (Scalar.value true) := by
    intro n
    have hfilter : (named children n).Perm (named r.leaves n) := hperm.filter _
    rw [named_leaves hnodup] at hfilter
    cases hl : r.lookup n with
    | none =>
      rw [hl] at hfilter
      rw [List.perm_nil.mp hfilter]
      rfl
    | some s =>
      rw [hl] at hfilter
      rw [List.perm_singleton.mp hfilter]
      rfl
  have hnormal := normal_node cases (NameCase.pascal.spell name) hnames
  simp only [hlookup, Option.map_map] at hnormal
  have hscalar : normalizeKeys cases ∘ Scalar.value true = Scalar.value true :=
    funext fun s => normalizeKeys_string _
  rw [hscalar] at hnormal
  refine ⟨?_, hnormal⟩
  obtain ⟨⟨n, s⟩, rest, rfl⟩ := List.exists_cons_of_ne_nil hne
  have hget := hnormal (NameCase.snake.spell n)
  rw [ofSnake_spell, Option.bind_some, lookup_entry, if_pos rfl] at hget
  cases hv : normalizeKeys cases (Xml.node (NameCase.pascal.spell name) children).value with
  | object fields => trivial
  | _ => simp [hv, Value.get] at hget

structure Encoded.WellNamed (e : Encoded) : Prop where
  names : ∀ xml, (e.names xml).Nodup
  records : ∀ listing ∈ e.lists, ∀ r ∈ listing.records, (r.map Prod.fst).Nodup ∧ r ≠ []

theorem names_zip {lists : List Listing} {arrays : List (List Value)}
    {R : Listing → List Value → Prop} (h : List.Forall₂ R lists arrays) :
    (lists.zipWith (fun listing items => (listing.jsonName, Value.array items)) arrays).map Prod.fst =
      lists.map (·.name false) := by
  induction h with
  | nil => rfl
  | cons _ _ ih => rw [List.zipWith_cons_cons, List.map_cons, ih]; rfl

theorem mem_zip {lists : List Listing} {arrays : List (List Value)} {R : Listing → List Value → Prop}
    (h : List.Forall₂ R lists arrays) {listing : Listing} (hl : listing ∈ lists) :
    ∃ items, R listing items ∧ (listing.jsonName, Value.array items) ∈
      lists.zipWith (fun listing items => (listing.jsonName, .array items)) arrays := by
  induction h with
  | nil => cases hl
  | cons hr _ ih =>
    rw [List.zipWith_cons_cons]
    rcases List.mem_cons.mp hl with rfl | hl
    · exact ⟨_, hr, List.mem_cons_self⟩
    · obtain ⟨items, hitems, hmem⟩ := ih hl
      exact ⟨items, hitems, List.mem_cons_of_mem _ hmem⟩

theorem mem_records {R S : Record → Value → Prop} {records : List Record} {items : List Value}
    (h : List.Forall₂ R records items) (f : Value → Value)
    (hs : ∀ r ∈ records, ∀ item, R r item → S r (f item)) :
    List.Forall₂ S records (items.map f) := by
  induction h with
  | nil => exact .nil
  | cons hr _ ih =>
    exact .cons (hs _ List.mem_cons_self _ hr) (ih fun r hm => hs r (List.mem_cons_of_mem _ hm))

theorem exists_record {R : Record → Value → Prop} {records : List Record} {items : List Value}
    (h : List.Forall₂ R records items) (hv : value ∈ items) : ∃ r, R r value := by
  induction h with
  | nil => cases hv
  | cons hr _ ih =>
    rcases List.mem_cons.mp hv with rfl | hv
    · exact ⟨_, hr⟩
    · exact ih hv

theorem Encoded.IsJson.reads (h : e.IsJson style value) (hw : e.WellNamed) :
    ∃ g, Normal (normalizeKeys cases value) g ∧ e.Reads false g := by
  obtain ⟨arrays, harrays, hobject⟩ := h
  have hnames : (e.lists.zipWith (fun listing items => (listing.jsonName, Value.array items)) arrays ++
      Record.entries e.scalars).map Prod.fst = e.names false := by
    rw [List.map_append, names_zip harrays, Encoded.names, Record.entries, List.map_map]
    rfl
  have hnodup := hnames ▸ hw.names false
  refine ⟨_, hobject.normal cases hnodup, ?_, ?_, ?_⟩
  · intro listing hlisting
    obtain ⟨items, hitems, hmem⟩ := mem_zip harrays hlisting
    have hlookup := lookup_of_mem hnodup (List.mem_append_left _ hmem)
    have hname : listing.name false = listing.jsonName := rfl
    rw [hname, hlookup, Option.map_some, normalizeKeys_array]
    exact mem_records hitems _ fun r hr item hitem =>
      isObject_reads hitem (hw.records listing hlisting r hr).1
  · intro entry hentry
    have hmem : (entry.1, entry.2.json) ∈ Record.entries e.scalars := List.mem_map.mpr ⟨_, hentry, rfl⟩
    rw [lookup_of_mem hnodup (List.mem_append_right _ hmem), Option.map_some, normalizeKeys_json]
    rfl
  · intro name hname
    rw [Option.map_eq_none_iff]
    cases hlookup : List.lookup name (e.lists.zipWith (fun listing items =>
        (listing.jsonName, Value.array items)) arrays ++ Record.entries e.scalars) with
    | none => rfl
    | some value =>
      exact absurd (hnames ▸ List.mem_map.mpr ⟨_, mem_of_lookup hlookup, rfl⟩) hname

theorem listed_of_object (h : value.IsObject) : value.listed = some [value] := by
  cases value with
  | object fields => rfl
  | _ => exact h.elim

theorem listed_collapse {values : List Value}
    (h : ∀ v ∈ values, (normalizeKeys cases v).IsObject) :
    ((((collapse values).map (normalizeKeys cases)).bind Value.listed).getD []) =
      values.map (normalizeKeys cases) := by
  match values with
  | [] => rfl
  | [v] =>
    rw [collapse, Option.map_some, Option.bind_some, listed_of_object (h v List.mem_cons_self)]
    rfl
  | v :: w :: rest =>
    have hmany : collapse (v :: w :: rest) = some (.array (v :: w :: rest)) := rfl
    rw [hmany, Option.map_some, normalizeKeys_array]
    rfl

theorem Encoded.IsXml.reads (h : e.IsXml x) (hw : e.WellNamed) :
    ∃ g, Normal (normalizeKeys cases x.value) g ∧ e.Reads true g := by
  obtain ⟨root, children, rfl, hnames, hlists, hscalars⟩ := h
  refine ⟨_, normal_node cases root fun child hchild => ?_, ?_, ?_, ?_⟩
  · obtain ⟨name, -, hname⟩ := hnames child hchild
    exact ⟨name, hname⟩
  · intro listing hlisting
    have hname : listing.name true = listing.xmlName := rfl
    have hreads : List.Forall₂ (Record.Reads true) listing.records
        (((named children listing.xmlName).map Xml.value).map (normalizeKeys cases)) := by
      rw [List.map_map]
      have hall := hlists listing hlisting
      have hrecords := hw.records listing hlisting
      generalize named children listing.xmlName = xs at hall
      generalize listing.records = records at hall hrecords
      induction hall with
      | nil => exact .nil
      | cons hr _ ih =>
        have hfirst := hrecords _ List.mem_cons_self
        exact .cons (isElement_reads hr hfirst.1 hfirst.2)
          (ih fun r hm => hrecords r (List.mem_cons_of_mem _ hm))
    rw [hname, listed_collapse]
    · exact hreads
    · intro v hv
      obtain ⟨r, hr⟩ := exists_record hreads (List.mem_map_of_mem hv)
      exact hr.1
  · intro entry hentry
    rw [hscalars entry hentry]
    rfl
  · intro name hname
    have hnil : named children name = [] := by
      refine List.filter_eq_nil_iff.mpr fun child hchild => ?_
      obtain ⟨other, hother, hspell⟩ := hnames child hchild
      rw [decide_eq_true_eq, hspell]
      exact fun he => hname (spell_injective he ▸ hother)
    rw [hnil]
    rfl

end VeStorage.Tos.Payload
