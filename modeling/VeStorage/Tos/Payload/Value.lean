import VeStorage.Lib.Text
import Mathlib.Data.List.Lex
import Mathlib.Data.Char
import Mathlib.Tactic.Tauto

namespace VeStorage.Tos.Payload
open Lib

inductive Value
  | null
  | bool (value : Bool)
  | number (asU64 : Option UInt64)
  | string (text : Text)
  | array (items : List Value)
  | object (fields : List (Text × Value))

abbrev Map := List (Text × Value)

-- `serde_json::Map` keeps its keys sorted.
def Map.insert (name : Text) (value : Value) : Map → Map
  | [] => [(name, value)]
  | (other, old) :: rest =>
    if name = other then (name, value) :: rest
    else if name < other then (name, value) :: (other, old) :: rest
    else (other, old) :: insert name value rest

def Value.get (value : Value) (name : Text) : Option Value :=
  match value with
  | .object fields => fields.lookup name
  | _ => none

def Value.asStr : Value → Option Text
  | .string text => some text
  | _ => none

def Value.asU64 : Value → Option UInt64
  | .number asU64 => asU64
  | _ => none

def Value.asBool : Value → Option Bool
  | .bool value => some value
  | _ => none

-- `char::is_uppercase`, `is_lowercase` and `to_lowercase`.
structure CharCase where
  isUppercase : Char → Bool
  isLowercase : Char → Bool
  toLowercase : Char → Text
  upper_ascii : ∀ c, c.toNat < 128 → isUppercase c = c.isUpper
  lower_ascii : ∀ c, c.toNat < 128 → isLowercase c = c.isLower
  toLower_ascii : ∀ c, c.toNat < 128 → toLowercase c = [c.toLower]

variable (cases : CharCase)

def endsWithSeparator (out : Text) : Bool := out.getLast? = some '_'

def toSnakeCaseFrom (out : Text) (prevLowerOrDigit : Bool) : Text → Text
  | [] => out
  | c :: rest =>
    if c = '-' ∨ c = ' ' then
      toSnakeCaseFrom (if endsWithSeparator out then out else out ++ ['_']) false rest
    else if cases.isUppercase c then
      let nextIsLower := rest.head?.any cases.isLowercase
      let out := if !out.isEmpty && !endsWithSeparator out && (prevLowerOrDigit || nextIsLower) then
        out ++ ['_'] else out
      toSnakeCaseFrom (out ++ cases.toLowercase c) false rest
    else toSnakeCaseFrom (out ++ [c]) (cases.isLowercase c || c.isDigit) rest

def toSnakeCase (input : Text) : Text := toSnakeCaseFrom cases [] false input

mutual

def normalizeKeys : Value → Value
  | .object map => .object (normalizeFields [] map)
  | .array items => .array (normalizeItems items)
  | other => other

def normalizeFields (out : Map) : Map → Map
  | [] => out
  | (name, value) :: rest =>
    normalizeFields (Map.insert (toSnakeCase cases name) (normalizeKeys value) out) rest

def normalizeItems : List Value → List Value
  | [] => []
  | value :: rest => normalizeKeys value :: normalizeItems rest

end

section Case

variable {cases}

def asciiCase : CharCase where
  isUppercase := Char.isUpper
  isLowercase := Char.isLower
  toLowercase c := [c.toLower]
  upper_ascii _ _ := rfl
  lower_ascii _ _ := rfl
  toLower_ascii _ _ := rfl

theorem toSnakeCaseFrom_ascii {out : Text} {prev : Bool} {input : Text}
    (h : ∀ c ∈ input, c.toNat < 128) :
    toSnakeCaseFrom cases out prev input = toSnakeCaseFrom asciiCase out prev input := by
  induction input generalizing out prev with
  | nil => rfl
  | cons c rest ih =>
    have hc := h c List.mem_cons_self
    have hrest : ∀ d ∈ rest, d.toNat < 128 := fun d hd => h d (List.mem_cons_of_mem _ hd)
    have hnext : rest.head?.any cases.isLowercase = rest.head?.any Char.isLower := by
      cases rest with
      | nil => rfl
      | cons d rest => exact cases.lower_ascii d (hrest d List.mem_cons_self)
    simp only [toSnakeCaseFrom, cases.upper_ascii c hc, cases.lower_ascii c hc,
      cases.toLower_ascii c hc, hnext, ih hrest]
    rfl

theorem toSnakeCase_ascii {input : Text} (h : ∀ c ∈ input, c.toNat < 128) :
    toSnakeCase cases input = toSnakeCase asciiCase input :=
  toSnakeCaseFrom_ascii h

end Case

section Fields

theorem lookup_entry {κ α : Type} [BEq κ] [LawfulBEq κ] [DecidableEq κ] {name other : κ} {value : α}
    {entries : List (κ × α)} : List.lookup other ((name, value) :: entries) =
      if other = name then some value else entries.lookup other := by
  by_cases h : other = name
  · rw [if_pos h, h, List.lookup_cons_self]
  · rw [if_neg h, List.lookup_cons, beq_false_of_ne h]

variable {cases} {name other : Text} {value : Value} {fields out : Map}

@[simp] theorem lookup_insert : (Map.insert name value fields).lookup other =
    if other = name then some value else fields.lookup other := by
  induction fields with
  | nil => exact lookup_entry
  | cons entry rest ih =>
    obtain ⟨key, old⟩ := entry
    unfold Map.insert
    split
    · rename_i h
      rw [lookup_entry, lookup_entry, ← h]
      split <;> rfl
    · split
      · exact lookup_entry
      · rename_i hne _
        rw [lookup_entry, lookup_entry, ih]
        by_cases h : other = name
        · have hkey : other ≠ key := fun hk => hne (h.symm.trans hk)
          simp only [if_neg hkey, if_pos h]
        · simp only [if_neg h]

theorem lookup_normalizeFields (h : ∀ entry ∈ fields, toSnakeCase cases entry.1 ≠ other) :
    (normalizeFields cases out fields).lookup other = out.lookup other := by
  induction fields generalizing out with
  | nil => rfl
  | cons entry rest ih =>
    obtain ⟨key, old⟩ := entry
    rw [normalizeFields, ih fun e he => h e (List.mem_cons_of_mem _ he), lookup_insert,
      if_neg (Ne.symm (h _ List.mem_cons_self))]

theorem lookup_normalizeFields_of_mem
    (hnodup : (fields.map fun entry => toSnakeCase cases entry.1).Nodup)
    (hmem : (name, value) ∈ fields) :
    (normalizeFields cases out fields).lookup (toSnakeCase cases name) =
      some (normalizeKeys cases value) := by
  induction fields generalizing out with
  | nil => cases hmem
  | cons entry rest ih =>
    obtain ⟨key, old⟩ := entry
    rw [List.map_cons, List.nodup_cons] at hnodup
    rw [normalizeFields]
    rcases List.mem_cons.mp hmem with he | hrest
    · obtain ⟨rfl, rfl⟩ := Prod.mk.inj he
      rw [lookup_normalizeFields, lookup_insert, if_pos rfl]
      intro e he hsame
      exact hnodup.1 (List.mem_map.mpr ⟨e, he, hsame⟩)
    · exact ih hnodup.2 hrest

theorem normalizeItems_eq_map (items : List Value) :
    normalizeItems cases items = items.map (normalizeKeys cases) := by
  induction items with
  | nil => rw [normalizeItems, List.map_nil]
  | cons value rest ih => rw [normalizeItems, List.map_cons, ih]

@[simp] theorem normalizeKeys_string (text : Text) :
    normalizeKeys cases (.string text) = .string text := by rw [normalizeKeys] <;> simp

@[simp] theorem normalizeKeys_array (items : List Value) :
    normalizeKeys cases (.array items) = .array (items.map (normalizeKeys cases)) := by
  rw [normalizeKeys, normalizeItems_eq_map]

@[simp] theorem normalizeKeys_bool (value : Bool) :
    normalizeKeys cases (.bool value) = .bool value := by rw [normalizeKeys] <;> simp

@[simp] theorem normalizeKeys_number (asU64 : Option UInt64) :
    normalizeKeys cases (.number asU64) = .number asU64 := by rw [normalizeKeys] <;> simp

@[simp] theorem normalizeKeys_object (fields : Map) :
    normalizeKeys cases (.object fields) = .object (normalizeFields cases [] fields) := by
  rw [normalizeKeys]

end Fields

end VeStorage.Tos.Payload
