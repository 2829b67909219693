import VeStorage.Lib.Strings
import VeStorage.ADrive.ShareAccess.Response
import VeStorage.ADrive.Token.Manager

namespace VeStorage.ADrive.ShareUrl
open Lib
open Lib.Crash (ensure)
open Lib.Percent (percent)
open Share (isControl)
open Token (trimWhitespace)

-- What the code uses of the `url` crate: a parsed URL, its readers and its path segments.
structure UrlCrate where
  Url : Type
  parse : Text → Option Url
  scheme : Url → Text
  username : Url → Text
  password : Url → Option Text
  hostStr : Url → Option Text
  path : Url → Text
  query : Url → Option Text
  fragment : Url → Option Text
  asciiOrigin : Url → Text
  cannotBeABase : Url → Bool
  push : Url → Text → Url
  text : Url → Text

-- An error is the message of an `Error::Client`.
abbrev Result := Except Text

structure ParsedShareUrl where
  safeUrl : Text
  origin : Text
  shareId : Text
  password : Option Text
deriving DecidableEq

def invalidShareUrl : Text :=
  ("share URL must use a safe HTTP(S) origin and /share/<id> with at most one trailing slash; " ++
    "select folders with --path").toList

def orInvalid {α : Type} (value : Option α) : Result α :=
  match value with
  | some value => .ok value
  | none => .error invalidShareUrl

section Decode

def hexDigit (byte : UInt8) : Option UInt8 :=
  if 48 ≤ byte ∧ byte ≤ 57 then some (byte - 48)
  else if 97 ≤ byte ∧ byte ≤ 102 then some (byte - 97 + 10)
  else if 65 ≤ byte ∧ byte ≤ 70 then some (byte - 65 + 10)
  else none

def decodeBytes (isQuery : Bool) : Bytes → Option Bytes
  | [] => some []
  | byte :: bytes =>
      if byte = percent then
        match bytes with
        | high :: low :: bytes => do
            let high ← hexDigit high
            let low ← hexDigit low
            let decoded ← decodeBytes isQuery bytes
            return (high * 16 + low) :: decoded
        | _ => none
      else do
        let decoded ← decodeBytes isQuery bytes
        return (if byte = Percent.plus ∧ isQuery then Percent.space else byte) :: decoded

def decodeComponent (input : Text) (isQuery : Bool) : Result Text :=
  orInvalid ((decodeBytes isQuery (utf8 input)).bind fromUtf8)

def decodePairs : List Text → Option Text → Result (Option Text)
  | [], password => .ok password
  | pair :: pairs, password => do
      let (key, value) := splitOnce '=' pair
      let key ← decodeComponent key true
      let value ← decodeComponent (value.getD []) true
      if key = "pwd".toList then
        ensure (password = none) invalidShareUrl
        decodePairs pairs (some value)
      else decodePairs pairs password

def parsePassword (query : Option Text) : Result (Option Text) :=
  decodePairs (((query.getD []).splitOn '&').filter fun pair => pair ≠ []) none

end Decode

section Raw

def schemeSeparator : Text := "://".toList

def eqIgnoreAsciiCase (a b : Text) : Prop := a.map Char.toLower = b.map Char.toLower

instance (a b : Text) : Decidable (eqIgnoreAsciiCase a b) := inferInstanceAs (Decidable (_ = _))

def rawAuthority (scheme input : Text) : Option Text :=
  ((splitOnceOf schemeSeparator input).filter fun cut => eqIgnoreAsciiCase cut.1 scheme).map
    fun cut => cut.2.takeWhile fun c => c ∉ ['/', '?', '#']

def rawUrlPath (input : Text) : Option Text :=
  (splitOnceOf schemeSeparator input).bind fun cut =>
    let authorityAndPath := cut.2.takeWhile fun c => c ∉ ['?', '#']
    if '/' ∈ authorityAndPath then some (authorityAndPath.dropWhile fun c => c ≠ '/') else none

end Raw

def validateRequired (value : Text) (name : String) : Result Unit :=
  ensure (trimWhitespace value ≠ [] ∧ value.any isControl = false)
    (name ++ " must be nonempty and contain no control characters").toList

def validateShareIdComponent (shareId : Text) : Result Unit := do
  validateRequired shareId "ShareID"
  ensure (shareId ≠ ['.'] ∧ shareId ≠ ['.', '.']) invalidShareUrl

variable (crate : UrlCrate)

def validateUrlSafety (url : crate.Url) (input : Text) : Result Unit := do
  let authority ← orInvalid (rawAuthority (crate.scheme url) input)
  ensure (trimWhitespace input = input ∧ '\\' ∉ input ∧ input.any isControl = false ∧
    crate.username url = [] ∧ crate.password url = none ∧ '@' ∉ authority ∧
    crate.fragment url = none ∧ crate.hostStr url ≠ none ∧
    (crate.scheme url = "https".toList ∨ crate.scheme url = "http".toList)) invalidShareUrl

def safeOrigin (input : Text) : Result crate.Url := do
  let url ← orInvalid (crate.parse input)
  validateUrlSafety crate url input
  ensure ((crate.path url = [] ∨ crate.path url = ['/']) ∧ crate.query url = none ∧
    ∀ path ∈ rawUrlPath input, path = ['/']) invalidShareUrl
  return url

def buildShareUrl (shareBaseOrigin shareId : Text) : Result Text := do
  let url ← safeOrigin crate shareBaseOrigin
  validateShareIdComponent shareId
  ensure (crate.cannotBeABase url = false) invalidShareUrl
  return crate.text (crate.push (crate.push url "share".toList) shareId)

def parseShareUrl (input : Text) : Result ParsedShareUrl := do
  let url ← orInvalid (crate.parse input)
  validateUrlSafety crate url input
  let rawPath ← orInvalid (rawUrlPath input)
  let encodedId ← orInvalid (stripPrefix "/share/".toList rawPath)
  -- one trailing slash of a copied page URL
  let encodedId := if ['/'] <:+ encodedId then encodedId.dropLast else encodedId
  ensure (encodedId ≠ [] ∧ '/' ∉ encodedId) invalidShareUrl
  let shareId ← decodeComponent encodedId false
  let origin := crate.asciiOrigin url
  let safeUrl ← buildShareUrl crate origin shareId
  let password ← parsePassword (crate.query url)
  return ⟨safeUrl, origin, shareId, password⟩

end VeStorage.ADrive.ShareUrl

namespace VeStorage.ADrive.ShareUrl
open Lib
open Token (trimWhitespace isWhitespace)

section Raw

variable {input s authority path tail scheme : Text}

def Tail (tail : Text) : Prop := tail = [] ∨ ∃ rest, tail = '?' :: rest ∨ tail = '#' :: rest

-- The parts of a raw text that has a path.
structure RawCut (input s authority path tail : Text) : Prop where
  cut : splitOnceOf schemeSeparator input = some (s, authority ++ '/' :: (path ++ tail))
  authority : ∀ c ∈ authority, c ∉ ['/', '?', '#']
  path : ∀ c ∈ path, c ∉ ['?', '#']
  tail : Tail tail

theorem takeWhile_tail {p : Char → Bool} {l : Text} (hl : ∀ c ∈ l, p c = true) (hq : p '?' = false)
    (hh : p '#' = false) (ht : Tail tail) :
    (l ++ tail).takeWhile p = l ∧ (l ++ tail).dropWhile p = tail := by
  rw [List.takeWhile_append_of_pos hl, List.dropWhile_append_of_pos hl]
  rcases ht with rfl | ⟨rest, rfl | rfl⟩
  · simp
  · simp [hq]
  · simp [hh]

theorem takeWhile_slash {p : Char → Bool} {l m : Text} (hl : ∀ c ∈ l, p c = true) (hp : p '/' = false) :
    (l ++ '/' :: m).takeWhile p = l ∧ (l ++ '/' :: m).dropWhile p = '/' :: m := by
  rw [List.takeWhile_append_of_pos hl, List.dropWhile_append_of_pos hl]
  simp [hp]

theorem RawCut.pathAndAuthority (h : RawCut input s authority path tail) :
    ∀ c ∈ authority ++ '/' :: path, decide (c ∉ ['?', '#']) = true := by
  intro c hc
  rw [decide_eq_true_iff]
  rcases List.mem_append.mp hc with hc | hc
  · have := h.authority c hc
    simp_all
  · rcases List.mem_cons.mp hc with rfl | hc
    · simp
    · exact h.path c hc

theorem RawCut.rawUrlPath_eq (h : RawCut input s authority path tail) :
    rawUrlPath input = some ('/' :: path) := by
  have hauthority : ∀ c ∈ authority, decide (c ≠ '/') = true := by
    intro c hc
    have := h.authority c hc
    simp_all
  have htake : (authority ++ '/' :: (path ++ tail)).takeWhile (fun c => c ∉ ['?', '#']) =
      authority ++ '/' :: path := by
    rw [← List.cons_append, ← List.append_assoc]
    exact (takeWhile_tail h.pathAndAuthority (by decide) (by decide) h.tail).1
  rw [rawUrlPath, h.cut, Option.bind_some]
  dsimp only
  rw [htake, if_pos (by simp), (takeWhile_slash hauthority (by decide)).2]

theorem RawCut.rawAuthority_eq (h : RawCut input s authority path tail) (hs : eqIgnoreAsciiCase s scheme) :
    rawAuthority scheme input = some authority := by
  have hauthority : ∀ c ∈ authority, decide (c ∉ ['/', '?', '#']) = true := by
    simpa using h.authority
  rw [rawAuthority, h.cut, Option.filter_some, if_pos (by simpa using hs), Option.map_some,
    (takeWhile_slash hauthority (by decide)).1]

theorem tail_dropWhile (t : Text) : Tail (t.dropWhile fun c => c ∉ ['?', '#']) := by
  have hhead := List.head?_dropWhile_not (fun c => decide (c ∉ ['?', '#'])) t
  cases hdrop : t.dropWhile fun c => c ∉ ['?', '#'] with
  | nil => exact .inl rfl
  | cons c rest =>
    rw [hdrop] at hhead
    have hc : c = '?' ∨ c = '#' := or_iff_not_imp_left.mpr (by simpa using hhead)
    rcases hc with rfl | rfl
    · exact .inr ⟨rest, .inl rfl⟩
    · exact .inr ⟨rest, .inr rfl⟩

theorem exists_rawCut {raw : Text} (h : rawUrlPath input = some raw) :
    ∃ s authority path tail, RawCut input s authority path tail ∧ raw = '/' :: path := by
  rw [rawUrlPath] at h
  obtain ⟨⟨s, rest⟩, hcut, h⟩ := Option.bind_eq_some_iff.mp h
  dsimp only at h
  split at h
  case isFalse => cases h
  next hslash =>
    obtain ⟨authority, path, hap, hauthority⟩ := List.eq_append_cons_of_mem hslash
    have hin : ∀ c ∈ authority ++ '/' :: path, c ∉ ['?', '#'] := by
      rw [← hap]
      intro c hc
      simpa using List.mem_takeWhile_imp hc
    have hne : ∀ c ∈ authority, decide (c ≠ '/') = true := fun c hc =>
      decide_eq_true fun heq => hauthority (heq ▸ hc)
    have hrest := List.takeWhile_append_dropWhile (p := fun c => decide (c ∉ ['?', '#'])) (l := rest)
    rw [hap, List.append_assoc, List.cons_append] at hrest
    rw [hap, (takeWhile_slash hne (by decide)).2] at h
    refine ⟨s, authority, path, rest.dropWhile fun c => c ∉ ['?', '#'], ⟨?_, fun c hc => ?_,
      fun c hc => hin c (by simp [hc]), tail_dropWhile rest⟩, (Option.some.inj h).symm⟩
    · rw [hrest]
      exact hcut
    · have hc' := hin c (by simp [hc])
      have hslash' : c ≠ '/' := fun heq => hauthority (heq ▸ hc)
      simp_all

end Raw

end VeStorage.ADrive.ShareUrl
