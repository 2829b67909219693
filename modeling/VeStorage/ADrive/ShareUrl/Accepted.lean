import VeStorage.ADrive.ShareUrl.Parse

namespace VeStorage.ADrive.ShareUrl
open Lib
open Lib.Crash (ensure_eq_ok bind_eq_ok pure_eq_ok)
open Share (isControl)
open Token (trimWhitespace isWhitespace)

section Documented

variable (crate : UrlCrate)

-- A URL of the schemes `http` and `https`; such a URL has a host.
structure UrlCrate.Web (url : crate.Url) : Prop where
  scheme : crate.scheme url = "https".toList ∨ crate.scheme url = "http".toList
  host : crate.hostStr url ≠ none

structure UrlCrate.Plain (url : crate.Url) : Prop extends UrlCrate.Web crate url where
  username : crate.username url = []
  password : crate.password url = none
  query : crate.query url = none
  fragment : crate.fragment url = none

structure UrlCrate.SameButPath (a b : crate.Url) : Prop where
  scheme : crate.scheme b = crate.scheme a
  username : crate.username b = crate.username a
  password : crate.password b = crate.password a
  host : crate.hostStr b = crate.hostStr a
  query : crate.query b = crate.query a
  fragment : crate.fragment b = crate.fragment a
  origin : crate.asciiOrigin b = crate.asciiOrigin a

def AuthorityChar (c : Char) : Prop :=
  c ∉ ['/', '?', '#', '\\', '@'] ∧ isControl c = false ∧ isWhitespace c = false

def SegmentChar (c : Char) : Prop :=
  c ∉ ['/', '?', '#', '\\'] ∧ isControl c = false ∧ isWhitespace c = false

-- The documented behaviour of the crate on URLs of these schemes.
structure UrlCrate.Documented (segment : Text → Text) : Prop where
  -- an origin is the scheme and the authority without credentials
  origin_eq : ∀ url, crate.Web url → ∃ authority, (∀ c ∈ authority, AuthorityChar c) ∧
    crate.asciiOrigin url = crate.scheme url ++ (schemeSeparator ++ authority)
  -- an origin is a URL text of its own, of that origin and the path `/`
  parse_origin : ∀ url, crate.Web url → ∃ base, crate.parse (crate.asciiOrigin url) = some base ∧
    crate.Plain base ∧ crate.path base = ['/'] ∧ crate.scheme base = crate.scheme url ∧
    crate.asciiOrigin base = crate.asciiOrigin url
  -- a URL is written as its components, and reads back as itself
  text_eq : ∀ url, crate.Plain url → crate.text url = crate.asciiOrigin url ++ crate.path url
  parse_text : ∀ url, crate.Plain url → crate.parse (crate.text url) = some url
  base : ∀ url, crate.Web url → crate.cannotBeABase url = false
  -- a pushed segment is percent-encoded behind the segments before it
  push_path : ∀ url s, crate.Web url → s ≠ ['.'] → s ≠ ['.', '.'] → s.any isControl = false →
    crate.path (crate.push url s) =
      (if crate.path url = [] ∨ crate.path url = ['/'] then [] else crate.path url) ++ '/' :: segment s
  push_rest : ∀ url s, crate.Web url → crate.SameButPath url (crate.push url s)
  segment_char : ∀ s, ∀ c ∈ segment s, SegmentChar c
  segment_alphanumeric : ∀ s, (∀ c ∈ s, c.isAlphanum) → segment s = s
  decode_segment : ∀ s, s.any isControl = false → decodeComponent (segment s) false = .ok s
  -- a slash at the end of the path changes the path only
  slash : ∀ before tail url, crate.parse (before ++ tail) = some url → crate.Web url →
    (splitOnceOf schemeSeparator before).isSome → (∀ c ∈ before, c ≠ '?' ∧ c ≠ '#') →
    before.any isControl = false → trimWhitespace (before ++ tail) = before ++ tail →
    (tail = [] ∨ ∃ rest, tail = '?' :: rest ∨ tail = '#' :: rest) →
    ∃ url', crate.parse (before ++ '/' :: tail) = some url' ∧ crate.SameButPath url url'

end Documented

section Accepted

variable {crate : UrlCrate} {url : crate.Url} {input : Text}

structure Safe (url : crate.Url) (input : Text) : Prop extends crate.Web url where
  authority : ∃ authority, rawAuthority (crate.scheme url) input = some authority ∧ '@' ∉ authority
  trimmed : trimWhitespace input = input
  backslash : '\\' ∉ input
  control : input.any isControl = false
  username : crate.username url = []
  password : crate.password url = none
  fragment : crate.fragment url = none

theorem orInvalid_eq_ok {α : Type} {value : Option α} {a : α} : orInvalid value = .ok a ↔ value = some a := by
  cases value <;> simp [orInvalid]

theorem validateUrlSafety_eq_ok : validateUrlSafety crate url input = .ok () ↔ Safe url input := by
  simp only [validateUrlSafety, bind_eq_ok, orInvalid_eq_ok, ensure_eq_ok]
  constructor
  · rintro ⟨authority, hauthority, htrim, hback, hcontrol, hname, hpassword, hat, hfragment, hhost, hscheme⟩
    exact ⟨⟨hscheme, hhost⟩, ⟨authority, hauthority, hat⟩, htrim, hback, hcontrol, hname, hpassword, hfragment⟩
  · rintro ⟨⟨hscheme, hhost⟩, ⟨authority, hauthority, hat⟩, htrim, hback, hcontrol, hname, hpassword, hfragment⟩
    exact ⟨authority, hauthority, htrim, hback, hcontrol, hname, hpassword, hat, hfragment, hhost, hscheme⟩

structure Origin (url : crate.Url) (input : Text) : Prop extends Safe url input where
  parsed : crate.parse input = some url
  path : crate.path url = [] ∨ crate.path url = ['/']
  query : crate.query url = none
  raw : ∀ path ∈ rawUrlPath input, path = ['/']

theorem Origin.plain (h : Origin url input) : crate.Plain url where
  toWeb := h.toWeb
  username := h.username
  password := h.password
  query := h.query
  fragment := h.fragment

theorem safeOrigin_eq_ok : safeOrigin crate input = .ok url ↔ Origin url input := by
  simp only [safeOrigin, bind_eq_ok, orInvalid_eq_ok, ensure_eq_ok, pure_eq_ok]
  constructor
  · rintro ⟨u, hparse, ⟨⟩, hsafe, ⟨⟩, ⟨hpath, hquery, hraw⟩, rfl⟩
    exact ⟨validateUrlSafety_eq_ok.mp hsafe, hparse, hpath, hquery, hraw⟩
  · intro h
    exact ⟨url, h.parsed, (), validateUrlSafety_eq_ok.mpr h.toSafe, (), ⟨h.path, h.query, h.raw⟩, rfl⟩

structure IdComponent (shareId : Text) : Prop where
  nonempty : trimWhitespace shareId ≠ []
  control : shareId.any isControl = false
  dot : shareId ≠ ['.']
  dots : shareId ≠ ['.', '.']

theorem validateShareIdComponent_eq_ok {shareId : Text} :
    validateShareIdComponent shareId = .ok () ↔ IdComponent shareId := by
  simp only [validateShareIdComponent, validateRequired, bind_eq_ok, ensure_eq_ok]
  constructor
  · rintro ⟨⟨⟩, ⟨hnonempty, hcontrol⟩, hdot, hdots⟩
    exact ⟨hnonempty, hcontrol, hdot, hdots⟩
  · rintro ⟨hnonempty, hcontrol, hdot, hdots⟩
    exact ⟨(), ⟨hnonempty, hcontrol⟩, hdot, hdots⟩

def pushed (url : crate.Url) (shareId : Text) : crate.Url :=
  crate.push (crate.push url "share".toList) shareId

theorem buildShareUrl_eq_ok {shareId built : Text} :
    buildShareUrl crate input shareId = .ok built ↔ ∃ url : crate.Url, Origin url input ∧
      IdComponent shareId ∧ crate.cannotBeABase url = false ∧ built = crate.text (pushed url shareId) := by
  simp only [buildShareUrl, bind_eq_ok, safeOrigin_eq_ok, ensure_eq_ok, pure_eq_ok]
  constructor
  · rintro ⟨url, horigin, ⟨⟩, hid, ⟨⟩, hbase, rfl⟩
    exact ⟨url, horigin, validateShareIdComponent_eq_ok.mp hid, hbase, rfl⟩
  · rintro ⟨url, horigin, hid, hbase, rfl⟩
    exact ⟨url, horigin, (), validateShareIdComponent_eq_ok.mpr hid, (), hbase, rfl⟩

def cutSlash (encodedId : Text) : Text :=
  if ['/'] <:+ encodedId then encodedId.dropLast else encodedId

structure Accepted (url : crate.Url) (input encodedId : Text) (share : ParsedShareUrl) : Prop
    extends Safe url input where
  read : crate.parse input = some url
  raw : rawUrlPath input = some ("/share/".toList ++ encodedId)
  nonempty : cutSlash encodedId ≠ []
  single : '/' ∉ cutSlash encodedId
  decoded : decodeComponent (cutSlash encodedId) false = .ok share.shareId
  origin : share.origin = crate.asciiOrigin url
  built : buildShareUrl crate share.origin share.shareId = .ok share.safeUrl
  secret : parsePassword (crate.query url) = .ok share.password

theorem parseShareUrl_eq_ok {share : ParsedShareUrl} : parseShareUrl crate input = .ok share ↔
    ∃ (url : crate.Url) (encodedId : Text), Accepted url input encodedId share := by
  simp only [parseShareUrl, bind_eq_ok, orInvalid_eq_ok, ensure_eq_ok, pure_eq_ok, stripPrefix_eq_some]
  constructor
  · rintro ⟨url, hparse, ⟨⟩, hsafe, raw, hraw, encodedId, rfl, ⟨⟩, ⟨hnonempty, hsingle⟩, shareId, hdecoded,
      safeUrl, hbuilt, password, hsecret, rfl⟩
    exact ⟨url, encodedId, validateUrlSafety_eq_ok.mp hsafe, hparse, hraw, hnonempty, hsingle, hdecoded, rfl,
      hbuilt, hsecret⟩
  · rintro ⟨url, encodedId, h⟩
    obtain ⟨safeUrl, origin, shareId, password⟩ := share
    obtain rfl : origin = crate.asciiOrigin url := h.origin
    exact ⟨url, h.read, (), validateUrlSafety_eq_ok.mpr h.toSafe, _, h.raw, encodedId, rfl, (),
      ⟨h.nonempty, h.single⟩, shareId, h.decoded, safeUrl, h.built, password, h.secret, rfl⟩

end Accepted

end VeStorage.ADrive.ShareUrl
