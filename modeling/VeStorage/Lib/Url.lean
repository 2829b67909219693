import VeStorage.Lib.Percent

namespace VeStorage.Lib.Url

open Percent

section Dots

def Dot (s : Bytes) : Prop := decode id s = ascii "."

def DotDot (s : Bytes) : Prop := decode id s = ascii ".."

instance (s : Bytes) : Decidable (Dot s) := inferInstanceAs (Decidable (_ = _))

instance (s : Bytes) : Decidable (DotDot s) := inferInstanceAs (Decidable (_ = _))

-- One segment of a path while it is parsed; the stack holds the segments kept so far.
def push (stack : List Bytes) (s : Bytes) : List Bytes :=
  if DotDot s then stack.tail else if Dot s then stack else s :: stack

def normalize (segments : List Bytes) : List Bytes := (segments.foldl push []).reverse

-- A path that ends in a dot segment ends in an empty one.
def resolve (segments : List Bytes) : List Bytes :=
  normalize segments ++ if segments.getLast?.any (fun s => Dot s ∨ DotDot s) then [[]] else []

def Plain (segments : List Bytes) : Prop := ∀ s ∈ segments, ¬ Dot s ∧ ¬ DotDot s

variable {base segments stack : List Bytes} {s : Bytes}

theorem push_of_plain (h : ¬ Dot s ∧ ¬ DotDot s) : push stack s = s :: stack := by
  rw [push, if_neg h.2, if_neg h.1]

theorem foldl_push_of_plain (h : Plain segments) :
    segments.foldl push stack = segments.reverse ++ stack := by
  induction segments generalizing stack with
  | nil => rfl
  | cons s segments ih =>
    rw [List.foldl_cons, push_of_plain (h s List.mem_cons_self),
      ih fun x hx => h x (List.mem_cons_of_mem s hx), List.reverse_cons, List.append_assoc]
    rfl

theorem resolve_of_plain (hne : segments ≠ []) (h : Plain segments) :
    resolve (base ++ segments) = normalize base ++ segments := by
  have hlast : ¬ (base ++ segments).getLast?.any (fun s => Dot s ∨ DotDot s) := by
    rw [List.getLast?_append_of_ne_nil base hne, List.getLast?_eq_some_getLast hne]
    obtain ⟨hdot, hdots⟩ := h _ (List.getLast_mem hne)
    simp [hdot, hdots]
  rw [resolve, if_neg hlast, normalize, List.foldl_append, foldl_push_of_plain h,
    List.reverse_append, List.reverse_reverse, List.append_nil, normalize]

theorem push_plain (h : Plain stack) : Plain (push stack s) := by
  intro x hx
  unfold push at hx
  split at hx
  next => exact h x (List.mem_of_mem_tail hx)
  next hdots =>
    split at hx
    next => exact h x hx
    next hdot =>
      rcases List.mem_cons.mp hx with rfl | hx
      · exact ⟨hdot, hdots⟩
      · exact h x hx

theorem foldl_push_plain (h : Plain stack) : Plain (segments.foldl push stack) := by
  induction segments generalizing stack with
  | nil => exact h
  | cons s segments ih => exact ih (push_plain h)

theorem resolve_plain (segments : List Bytes) : Plain (resolve segments) := by
  intro x hx
  rcases List.mem_append.mp hx with hx | hx
  · have hempty : Plain [] := fun _ h => absurd h List.not_mem_nil
    exact foldl_push_plain hempty x (List.mem_reverse.mp hx)
  · split at hx
    next =>
      rw [List.mem_singleton] at hx
      subst hx
      exact ⟨by decide, by decide⟩
    next => cases hx

theorem mem_of_mem_foldl_push (h : s ∈ segments.foldl push stack) : s ∈ segments ∨ s ∈ stack := by
  induction segments generalizing stack with
  | nil => exact .inr h
  | cons x segments ih =>
    rcases ih h with hs | hs
    · exact .inl (List.mem_cons_of_mem x hs)
    · unfold push at hs
      split at hs
      next => exact .inr (List.mem_of_mem_tail hs)
      next =>
        split at hs
        next => exact .inr hs
        next =>
          rcases List.mem_cons.mp hs with rfl | hs
          · exact .inl List.mem_cons_self
          · exact .inr hs

theorem mem_of_mem_resolve (h : s ∈ resolve segments) : s ∈ segments ∨ s = [] := by
  rcases List.mem_append.mp h with hs | hs
  · rcases mem_of_mem_foldl_push (List.mem_reverse.mp hs) with hs | hs
    · exact .inl hs
    · cases hs
  · split at hs
    next => exact .inr (List.mem_singleton.mp hs)
    next => cases hs

end Dots

section Segments

def slash : UInt8 := 47

def question : UInt8 := 63

def hash : UInt8 := 35

def pathCode : Code := uriCode [slash] (by decide)

def queryCode : Code := uriCode [] (by decide)

-- A segment of a path that stands before what is appended to it.
structure Segment where
  bytes : Bytes
  slash_not_mem : slash ∉ bytes
  question_not_mem : question ∉ bytes
  hash_not_mem : hash ∉ bytes
  slash_not_mem_decode : slash ∉ decode id bytes
deriving DecidableEq

def pathText (base : List Segment) : Bytes := base.flatMap fun segment => slash :: segment.bytes

def splitPath (path : Bytes) : List Bytes := (path.drop 1).splitOn slash

def Undotted (pieces : List Bytes) : Prop := ∀ s ∈ pieces, s ≠ ascii "." ∧ s ≠ ascii ".."

instance (pieces : List Bytes) : Decidable (Undotted pieces) :=
  inferInstanceAs (Decidable (∀ _ ∈ _, _))

-- What a receiver reads from a path.
def readSegments (path : List Bytes) : List Bytes := path.map (decode id)

variable {base : List Segment} {pieces : List Bytes} {s : Bytes}

theorem pathCode_componentwise : Componentwise slash pathCode.encode :=
  Code.componentwise (by decide) (by decide) (by decide)

@[simp] theorem decode_pathCode (t : Bytes) : decode id (pathCode.encode t) = t :=
  pathCode.decode_encode t

theorem dot_encode : Dot (pathCode.encode s) ↔ s = ascii "." := by
  rw [Dot, decode_pathCode]

theorem dotDot_encode : DotDot (pathCode.encode s) ↔ s = ascii ".." := by
  rw [DotDot, decode_pathCode]

theorem pathCode_of_not_mem (h : slash ∉ s) : pathCode.encode s = queryCode.encode s := by
  refine List.flatMap_congr fun b hb => ?_
  have hne : b ≠ slash := fun hs => h (hs ▸ hb)
  simp [pathCode, queryCode, uriCode, hne]

theorem splitPath_pathText (base : List Segment) (t : Bytes) :
    splitPath (pathText base ++ slash :: t) = base.map Segment.bytes ++ t.splitOn slash := by
  induction base with
  | nil => rfl
  | cons segment base ih =>
    cases hrest : pathText base ++ slash :: t with
    | nil => simp at hrest
    | cons x rest =>
      have hx : x = slash := by
        cases base with
        | nil => exact (List.cons.inj hrest).1.symm
        | cons next base => exact (List.cons.inj hrest).1.symm
      subst hx
      rw [hrest, splitPath, List.drop_one, List.tail_cons] at ih
      have htext : pathText (segment :: base) = slash :: segment.bytes ++ pathText base := rfl
      rw [htext, List.append_assoc, hrest, List.cons_append, splitPath, List.drop_one,
        List.tail_cons, List.splitOn_append_cons_self_of_not_mem segment.slash_not_mem, ih]
      rfl

theorem plain_encode (h : Undotted pieces) : Plain (pieces.map pathCode.encode) := by
  intro x hx
  obtain ⟨s, hs, rfl⟩ := List.mem_map.mp hx
  rw [dot_encode, dotDot_encode]
  exact h s hs

theorem readSegments_encode (pieces : List Bytes) :
    readSegments (pieces.map pathCode.encode) = pieces := by
  have hdecode : decode id ∘ pathCode.encode = id := funext decode_pathCode
  rw [readSegments, List.map_map, hdecode, List.map_id]

theorem trimEnd_pathText (base : List Segment) :
    trimEnd slash (pathText base) = pathText (base.rdropWhile (·.bytes = [])) := by
  induction base using List.reverseRecOn with
  | nil => rfl
  | append_singleton base segment ih =>
    have htext : pathText (base ++ [segment]) = pathText base ++ slash :: segment.bytes := by
      simp [pathText]
    by_cases hempty : segment.bytes = []
    · rw [htext, hempty, trimEnd_append_self, ih, List.rdropWhile_concat_pos _ _ _ (by simp [hempty])]
    · rw [List.rdropWhile_concat_neg _ _ _ (by simp [hempty])]
      refine trimEnd_of_getLast_ne fun rest hrest => segment.slash_not_mem ?_
      rw [htext] at hrest
      have hlast := congrArg List.getLast? hrest
      rw [List.getLast?_append_of_ne_nil _ (List.cons_ne_nil _ _), List.getLast?_cons_of_ne_nil hempty,
        List.getLast?_concat] at hlast
      exact List.mem_of_getLast? hlast

-- A resolved path is read without dot segments and without slashes inside a segment.
theorem mem_readSegments (hpieces : ∀ piece ∈ pieces, slash ∉ piece)
    (h : s ∈ readSegments (resolve (base.map Segment.bytes ++ pieces.map pathCode.encode))) :
    (s ≠ ascii "." ∧ s ≠ ascii "..") ∧ slash ∉ s := by
  obtain ⟨x, hx, rfl⟩ := List.mem_map.mp h
  refine ⟨resolve_plain _ x hx, ?_⟩
  rcases mem_of_mem_resolve hx with hx | rfl
  · rcases List.mem_append.mp hx with hx | hx
    · obtain ⟨segment, -, rfl⟩ := List.mem_map.mp hx
      exact segment.slash_not_mem_decode
    · obtain ⟨piece, hpiece, rfl⟩ := List.mem_map.mp hx
      rw [decode_pathCode]
      exact hpieces piece hpiece
  · simp [decode]

theorem resolve_encode (hne : pieces ≠ []) (hbase : normalize (base.map Segment.bytes) = [])
    (h : Undotted pieces) :
    resolve (base.map Segment.bytes ++ pieces.map pathCode.encode) =
      pieces.map pathCode.encode := by
  have hmap : pieces.map pathCode.encode ≠ [] := fun he => hne (List.map_eq_nil_iff.mp he)
  rw [resolve_of_plain hmap (plain_encode h), hbase, List.nil_append]

theorem readSegments_resolve (hne : pieces ≠ []) (hpieces : ∀ piece ∈ pieces, slash ∉ piece) :
    readSegments (resolve (base.map Segment.bytes ++ pieces.map pathCode.encode)) = pieces ↔
      normalize (base.map Segment.bytes) = [] ∧ Undotted pieces := by
  constructor
  · intro h
    have hundotted : Undotted pieces := fun s hs => (mem_readSegments hpieces (h ▸ hs)).1
    refine ⟨?_, hundotted⟩
    have hmap : pieces.map pathCode.encode ≠ [] := fun he => hne (List.map_eq_nil_iff.mp he)
    have hlength := congrArg List.length h
    rw [readSegments, resolve_of_plain hmap (plain_encode hundotted), List.length_map,
      List.length_append, List.length_map] at hlength
    exact List.length_eq_zero_iff.mp (by omega)
  · rintro ⟨hbase, hundotted⟩
    rw [resolve_encode hne hbase hundotted, readSegments_encode]

-- The path that is signed and the path that is received are the same text.
theorem pathCode_encode_cons {t : Bytes} :
    pathCode.encode (slash :: t) = (t.splitOn slash).flatMap fun s => slash :: queryCode.encode s := by
  have hcons : pathCode.encode (slash :: t) = slash :: pathCode.encode t :=
    pathCode_componentwise.map_append [] t
  have hsplit := pathCode_componentwise.splitOn_map t
  have hne : (t.splitOn slash).map pathCode.encode ≠ [] :=
    fun he => List.splitOn_ne_nil slash t (List.map_eq_nil_iff.mp he)
  rw [hcons, ← join_splitOn slash (pathCode.encode t), hsplit, cons_join hne, List.flatMap_map]
  refine List.flatMap_congr fun s hs => ?_
  rw [pathCode_of_not_mem (not_mem_splitOn slash t s hs)]

end Segments

section Pairs

def equals : UInt8 := 61

def ampersand : UInt8 := 38

def renderPair (encode : Bytes → Bytes) (pair : Bytes × Bytes) : Bytes :=
  encode pair.1 ++ equals :: encode pair.2

def render (encode : Bytes → Bytes) (pairs : List (Bytes × Bytes)) : Bytes :=
  join ampersand (pairs.map (renderPair encode))

def parsePair (decode : Bytes → Bytes) (part : Bytes) : Bytes × Bytes :=
  (decode (splitOnce equals part).1, decode ((splitOnce equals part).2.getD []))

def parse (decode : Bytes → Bytes) (query : Bytes) : List (Bytes × Bytes) :=
  ((query.splitOn ampersand).filter (· ≠ [])).map (parsePair decode)

variable {encode decode : Bytes → Bytes} {pairs : List (Bytes × Bytes)}

theorem parsePair_renderPair (pair : Bytes × Bytes)
    (he : ∀ t, equals ∉ encode t) (hkey : decode (encode pair.1) = pair.1)
    (hvalue : decode (encode pair.2) = pair.2) :
    parsePair decode (renderPair encode pair) = pair := by
  rw [renderPair, parsePair, splitOnce_append (he pair.1)]
  exact Prod.ext hkey hvalue

theorem parse_render (he : ∀ t, equals ∉ encode t) (ha : ∀ t, ampersand ∉ encode t)
    (hd : ∀ pair ∈ pairs, decode (encode pair.1) = pair.1 ∧ decode (encode pair.2) = pair.2) :
    parse decode (render encode pairs) = pairs := by
  cases hp : pairs with
  | nil => rfl
  | cons first rest =>
    rw [← hp]
    have hne : pairs.map (renderPair encode) ≠ [] := by simp [hp]
    have hparts : ∀ part ∈ pairs.map (renderPair encode), ampersand ∉ part := by
      intro part hpart
      obtain ⟨pair, -, rfl⟩ := List.mem_map.mp hpart
      simp [renderPair, ha, show ampersand ≠ equals by decide]
    have hfilter : (pairs.map (renderPair encode)).filter (· ≠ []) = pairs.map (renderPair encode) := by
      refine List.filter_eq_self.mpr fun part hpart => ?_
      obtain ⟨pair, -, rfl⟩ := List.mem_map.mp hpart
      simp [renderPair]
    rw [parse, render, join, List.splitOn_intercalate ampersand hparts hne, hfilter, List.map_map]
    conv_rhs => rw [← List.map_id pairs]
    refine List.map_congr_left fun pair hpair => ?_
    exact parsePair_renderPair pair he (hd pair hpair).1 (hd pair hpair).2

theorem mem_renderPair {c : UInt8} {pair : Bytes × Bytes} (h : c ∈ renderPair encode pair)
    (hc : c ≠ equals) : c ∈ encode pair.1 ∨ c ∈ encode pair.2 := by
  rcases List.mem_append.mp h with h | h
  · exact .inl h
  · rcases List.mem_cons.mp h with h | h
    · exact absurd h hc
    · exact .inr h

theorem mem_render {c : UInt8} (h : c ∈ render encode pairs) (hc : c ≠ ampersand) :
    ∃ pair ∈ pairs, c ∈ renderPair encode pair := by
  obtain ⟨part, hpart, hmem⟩ := mem_join h hc
  obtain ⟨pair, hpair, rfl⟩ := List.mem_map.mp hpart
  exact ⟨pair, hpair, hmem⟩

end Pairs

end VeStorage.Lib.Url
