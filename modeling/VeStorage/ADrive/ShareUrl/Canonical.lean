import VeStorage.ADrive.ShareUrl.Accepted

namespace VeStorage.ADrive.ShareUrl
open Lib
open Share (isControl)
open Token (isWhitespace trimmed_of_forall trimmed_slash)

section Build

variable {crate : UrlCrate} {segment : Text → Text} {url url' : crate.Url} {shareId : Text}

theorem UrlCrate.SameButPath.web (h : crate.SameButPath url url') (hw : crate.Web url) : crate.Web url' :=
  ⟨by rw [h.scheme]; exact hw.scheme, by rw [h.host]; exact hw.host⟩

theorem UrlCrate.SameButPath.plain (h : crate.SameButPath url url') (hp : crate.Plain url) :
    crate.Plain url' where
  toWeb := h.web hp.toWeb
  username := h.username.trans hp.username
  password := h.password.trans hp.password
  query := h.query.trans hp.query
  fragment := h.fragment.trans hp.fragment

theorem UrlCrate.SameButPath.trans {a b c : crate.Url} (h : crate.SameButPath a b)
    (h' : crate.SameButPath b c) : crate.SameButPath a c where
  scheme := h'.scheme.trans h.scheme
  username := h'.username.trans h.username
  password := h'.password.trans h.password
  host := h'.host.trans h.host
  query := h'.query.trans h.query
  fragment := h'.fragment.trans h.fragment
  origin := h'.origin.trans h.origin

variable (hc : crate.Documented segment)
include hc

theorem pushed_rest (hw : crate.Web url) (shareId : Text) : crate.SameButPath url (pushed url shareId) := by
  have hshare := hc.push_rest url "share".toList hw
  exact hshare.trans (hc.push_rest _ shareId (hshare.web hw))

theorem pushed_path (hw : crate.Web url) (hpath : crate.path url = [] ∨ crate.path url = ['/'])
    (hid : IdComponent shareId) : crate.path (pushed url shareId) = "/share/".toList ++ segment shareId := by
  have hshare : crate.path (crate.push url "share".toList) = "/share".toList := by
    rw [hc.push_path url _ hw (by decide) (by decide) (by decide), if_pos hpath,
      hc.segment_alphanumeric _ (forall_mem_of_all (by decide))]
    rfl
  have hrest := (hc.push_rest url "share".toList hw).web hw
  rw [pushed, hc.push_path _ shareId hrest hid.dot hid.dots hid.control, hshare, if_neg (by decide)]
  rfl

theorem text_pushed (hp : crate.Plain url) (hpath : crate.path url = [] ∨ crate.path url = ['/'])
    (hid : IdComponent shareId) :
    crate.text (pushed url shareId) = crate.asciiOrigin url ++ ("/share/".toList ++ segment shareId) := by
  have hrest := pushed_rest hc hp.toWeb shareId
  rw [hc.text_eq _ (hrest.plain hp), hrest.origin, pushed_path hc hp.toWeb hpath hid]

end Build

section Reparse

variable {crate : UrlCrate} {segment : Text → Text} {url : crate.Url} {shareId scheme authority : Text}

theorem scheme_char (h : scheme = "https".toList ∨ scheme = "http".toList) :
    ∀ c ∈ scheme, c ≠ ':' ∧ AuthorityChar c := by
  rcases h with rfl | rfl
  · exact forall_mem_of_all (p := fun c => c ≠ ':' ∧ c ∉ ['/', '?', '#', '\\', '@'] ∧
      isControl c = false ∧ isWhitespace c = false) (by decide)
  · exact forall_mem_of_all (p := fun c => c ≠ ':' ∧ c ∉ ['/', '?', '#', '\\', '@'] ∧
      isControl c = false ∧ isWhitespace c = false) (by decide)

theorem separator_char : ∀ c ∈ schemeSeparator, c ≠ '\\' ∧ isControl c = false ∧ isWhitespace c = false :=
  forall_mem_of_all (by decide)

theorem share_char : ∀ c ∈ "/share/".toList, c ≠ '\\' ∧ isControl c = false ∧ isWhitespace c = false :=
  forall_mem_of_all (by decide)

def CleanChar (c : Char) : Prop := c ≠ '\\' ∧ isControl c = false ∧ isWhitespace c = false

theorem AuthorityChar.clean {c : Char} (h : AuthorityChar c) : CleanChar c :=
  ⟨fun heq => h.1 (by simp [heq]), h.2⟩

theorem SegmentChar.clean {c : Char} (h : SegmentChar c) : CleanChar c :=
  ⟨fun heq => h.1 (by simp [heq]), h.2⟩

theorem safe_of_clean {input : Text} (hp : crate.Plain url) (hclean : ∀ c ∈ input, CleanChar c)
    (hraw : rawAuthority (crate.scheme url) input = some authority)
    (hauthority : ∀ c ∈ authority, AuthorityChar c) : Safe url input where
  toWeb := hp.toWeb
  authority := ⟨authority, hraw, fun hat => (hauthority _ hat).1 (by simp)⟩
  trimmed := trimmed_of_forall fun c hc => (hclean c hc).2.2
  backslash := fun hback => (hclean _ hback).1 rfl
  control := List.any_eq_false.mpr fun c hc => by simpa using (hclean c hc).2.1
  username := hp.username
  password := hp.password
  fragment := hp.fragment

theorem splitOnceOf_origin (h : scheme = "https".toList ∨ scheme = "http".toList) (rest : Text) :
    splitOnceOf schemeSeparator (scheme ++ (schemeSeparator ++ rest)) = some (scheme, rest) :=
  splitOnceOf_append (fun hcolon => (scheme_char h _ hcolon).1 rfl) rest

theorem rawUrlPath_origin (h : scheme = "https".toList ∨ scheme = "http".toList)
    (hauthority : ∀ c ∈ authority, AuthorityChar c) :
    rawUrlPath (scheme ++ (schemeSeparator ++ authority)) = none := by
  rw [rawUrlPath, splitOnceOf_origin h, Option.bind_some]
  refine if_neg fun hslash => ?_
  exact (hauthority _ (List.takeWhile_sublist _ |>.subset hslash)).1 (by simp)

theorem rawAuthority_origin (h : scheme = "https".toList ∨ scheme = "http".toList)
    (hauthority : ∀ c ∈ authority, AuthorityChar c) :
    rawAuthority scheme (scheme ++ (schemeSeparator ++ authority)) = some authority := by
  have hall : authority.takeWhile (fun c => c ∉ ['/', '?', '#']) = authority := by
    refine List.takeWhile_eq_self_iff.mpr fun c hc => ?_
    have := (hauthority c hc).1
    simp_all
  rw [rawAuthority, splitOnceOf_origin h, Option.filter_some, if_pos (by simp [eqIgnoreAsciiCase]),
    Option.map_some, hall]

theorem rawCut_built (h : scheme = "https".toList ∨ scheme = "http".toList)
    (hauthority : ∀ c ∈ authority, AuthorityChar c) {path : Text} (hpath : ∀ c ∈ path, c ∉ ['?', '#']) :
    RawCut (scheme ++ (schemeSeparator ++ (authority ++ '/' :: path))) scheme authority path [] where
  cut := by rw [splitOnceOf_origin h, List.append_nil]
  authority c hc := by
    have := (hauthority c hc).1
    simp_all
  path := hpath
  tail := .inl rfl

variable (hc : crate.Documented segment)
include hc

theorem origin_of_web (hw : crate.Web url) : ∃ base : crate.Url,
    Origin base (crate.asciiOrigin url) ∧ crate.asciiOrigin base = crate.asciiOrigin url := by
  obtain ⟨base, hparse, hplain, hpath, hscheme, hsame⟩ := hc.parse_origin url hw
  obtain ⟨authority, hauthority, horigin⟩ := hc.origin_eq url hw
  have hraw : rawAuthority (crate.scheme base) (crate.asciiOrigin url) = some authority := by
    rw [horigin, hscheme]
    exact rawAuthority_origin hw.scheme hauthority
  have hclean : ∀ c ∈ crate.asciiOrigin url, CleanChar c := by
    rw [horigin]
    simp only [List.forall_mem_append]
    exact ⟨fun c hc => (scheme_char hw.scheme c hc).2.clean, separator_char,
      fun c hc => (hauthority c hc).clean⟩
  refine ⟨base, ⟨safe_of_clean hplain hclean hraw hauthority, hparse, .inr hpath, hplain.query, ?_⟩, hsame⟩
  rw [horigin, rawUrlPath_origin hw.scheme hauthority]
  simp

theorem build_of_web (hw : crate.Web url) (hid : IdComponent shareId) :
    buildShareUrl crate (crate.asciiOrigin url) shareId =
      .ok (crate.asciiOrigin url ++ ("/share/".toList ++ segment shareId)) := by
  obtain ⟨base, horigin, hsame⟩ := origin_of_web hc hw
  refine buildShareUrl_eq_ok.mpr ⟨base, horigin, hid, hc.base base horigin.toWeb, ?_⟩
  rw [text_pushed hc horigin.plain horigin.path hid, hsame]

theorem segment_ne_nil (hid : IdComponent shareId) : segment shareId ≠ [] := by
  intro hnil
  have hdecode := hc.decode_segment shareId hid.control
  rw [hnil] at hdecode
  have hempty : decodeComponent [] false = .ok [] := by decide
  rw [hempty] at hdecode
  have hid' := Except.ok.inj hdecode
  exact hid.nonempty (by rw [← hid']; rfl)

-- The built URL of an id reads back as that id, and as itself.
theorem parse_pushed (hp : crate.Plain url) (hpath : crate.path url = [] ∨ crate.path url = ['/'])
    (hid : IdComponent shareId) : parseShareUrl crate (crate.text (pushed url shareId)) =
      .ok ⟨crate.text (pushed url shareId), crate.asciiOrigin url, shareId, none⟩ := by
  have hrest := pushed_rest hc hp.toWeb shareId
  have hplain := hrest.plain hp
  have htext := text_pushed hc hp hpath hid
  obtain ⟨authority, hauthority, horigin⟩ := hc.origin_eq url hp.toWeb
  have hshape : crate.text (pushed url shareId) = crate.scheme url ++ (schemeSeparator ++
      (authority ++ '/' :: ("share/".toList ++ segment shareId))) := by
    rw [htext, horigin, List.append_assoc, List.append_assoc]
    rfl
  have hsegment : ∀ c ∈ "share/".toList ++ segment shareId, c ∉ ['?', '#'] := by
    refine List.forall_mem_append.mpr ⟨forall_mem_of_all (by decide), fun c hmem => ?_⟩
    have := (hc.segment_char shareId c hmem).1
    simp_all
  have hcut := rawCut_built hp.toWeb.scheme hauthority hsegment
  rw [← hshape] at hcut
  have hnoslash : '/' ∉ segment shareId := fun hslash => (hc.segment_char shareId _ hslash).1 (by simp)
  have hcutSlash : cutSlash (segment shareId) = segment shareId :=
    if_neg fun hlast => hnoslash (hlast.subset (by simp))
  have hclean : ∀ c ∈ crate.text (pushed url shareId), CleanChar c := by
    rw [htext, horigin]
    simp only [List.forall_mem_append]
    exact ⟨⟨fun c hmem => (scheme_char hp.scheme c hmem).2.clean, separator_char,
      fun c hmem => (hauthority c hmem).clean⟩, share_char,
      fun c hmem => (hc.segment_char shareId c hmem).clean⟩
  refine parseShareUrl_eq_ok.mpr ⟨pushed url shareId, segment shareId, ?_⟩
  exact {
    toSafe := safe_of_clean hplain hclean (by rw [hrest.scheme]; exact hcut.rawAuthority_eq rfl) hauthority
    read := hc.parse_text _ hplain
    raw := hcut.rawUrlPath_eq
    nonempty := by rw [hcutSlash]; exact segment_ne_nil hc hid
    single := by rwa [hcutSlash]
    decoded := by rw [hcutSlash]; exact hc.decode_segment shareId hid.control
    origin := hrest.origin.symm
    built := by rw [htext]; exact build_of_web hc hp.toWeb hid
    secret := by rw [hplain.query]; rfl }

end Reparse

section Slashed

variable {crate : UrlCrate} {segment : Text → Text} {url : crate.Url} {input s authority path tail : Text}

-- The text with one slash more at the end of its path.
def withSlash (input : Text) : Text :=
  input.takeWhile (fun c => c ∉ ['?', '#']) ++ '/' :: input.dropWhile fun c => c ∉ ['?', '#']

theorem scheme_of_rawAuthority (h : RawCut input s authority path tail) {scheme found : Text}
    (hraw : rawAuthority scheme input = some found) : eqIgnoreAsciiCase s scheme ∧ found = authority := by
  by_cases hs : eqIgnoreAsciiCase s scheme
  · rw [h.rawAuthority_eq hs] at hraw
    exact ⟨hs, (Option.some.inj hraw).symm⟩
  · rw [rawAuthority, h.cut, Option.filter_some, if_neg (by simpa using hs)] at hraw
    cases hraw

theorem char_of_eqIgnoreAsciiCase {scheme : Text} (h : eqIgnoreAsciiCase s scheme)
    (hs : scheme = "https".toList ∨ scheme = "http".toList) : ∀ c ∈ s, c ∉ [':', '/', '?', '#'] := by
  intro c hc hbad
  have hmem : c.toLower ∈ scheme.map Char.toLower := h ▸ List.mem_map_of_mem hc
  simp only [List.mem_cons, List.not_mem_nil, or_false] at hbad
  rcases hs with rfl | rfl
  · rcases hbad with rfl | rfl | rfl | rfl <;> revert hmem <;> decide
  · rcases hbad with rfl | rfl | rfl | rfl <;> revert hmem <;> decide

theorem RawCut.before_char (h : RawCut input s authority path tail) (hs : ∀ c ∈ s, c ∉ [':', '/', '?', '#']) :
    ∀ c ∈ s ++ (schemeSeparator ++ (authority ++ '/' :: path)), decide (c ∉ ['?', '#']) = true := by
  refine List.forall_mem_append.mpr ⟨fun c hc => ?_,
    List.forall_mem_append.mpr ⟨forall_mem_of_all (by decide), ?_⟩⟩
  · have := hs c hc
    simp_all
  · exact h.pathAndAuthority

theorem RawCut.eq_before (h : RawCut input s authority path tail) :
    input = s ++ (schemeSeparator ++ (authority ++ '/' :: path)) ++ tail := by
  have heq := eq_of_splitOnceOf h.cut
  simpa using heq

theorem RawCut.withSlash_eq (h : RawCut input s authority path tail) (hs : ∀ c ∈ s, c ∉ [':', '/', '?', '#']) :
    withSlash input = s ++ (schemeSeparator ++ (authority ++ '/' :: path)) ++ '/' :: tail := by
  obtain ⟨htake, hdrop⟩ := takeWhile_tail (h.before_char hs) (by decide) (by decide) h.tail
  rw [withSlash, h.eq_before, htake, hdrop]

theorem RawCut.slashed (h : RawCut input s authority path tail) (hs : ∀ c ∈ s, c ∉ [':', '/', '?', '#']) :
    RawCut (withSlash input) s authority (path ++ ['/']) tail where
  cut := by
    have hcolon : ':' ∉ s := fun hc => hs _ hc (by simp)
    have hcut := splitOnceOf_append (p := "//".toList) hcolon (authority ++ '/' :: (path ++ '/' :: tail))
    rw [h.withSlash_eq hs]
    simpa [schemeSeparator] using hcut
  authority := h.authority
  path := List.forall_mem_append.mpr ⟨h.path, forall_mem_of_all (by decide)⟩
  tail := h.tail

theorem cutSlash_append {encodedId : Text} : cutSlash (encodedId ++ ['/']) = encodedId := by
  rw [cutSlash, if_pos (List.suffix_append _ _), List.dropLast_concat]

theorem cutSlash_of_not_mem {encodedId : Text} (h : '/' ∉ encodedId) : cutSlash encodedId = encodedId :=
  if_neg fun hlast => h (hlast.subset (by simp))

-- One slash more at the end of the path is the same share.
theorem parse_withSlash (hc : crate.Documented segment) {share : ParsedShareUrl} {encodedId : Text}
    (h : Accepted url input encodedId share) (hsingle : '/' ∉ encodedId) :
    parseShareUrl crate (withSlash input) = .ok share := by
  obtain ⟨s, authority, path, tail, hcut, hraw⟩ := exists_rawCut h.raw
  obtain ⟨found, hfound, hat⟩ := h.authority
  obtain ⟨hs, heq⟩ := scheme_of_rawAuthority hcut hfound
  rw [heq] at hat
  have hchar := char_of_eqIgnoreAsciiCase hs h.scheme
  have hslashed := hcut.slashed hchar
  have hbefore := hcut.eq_before
  have hafter := hcut.withSlash_eq hchar
  have hcolon : ':' ∉ s := fun hmem => hchar _ hmem (by simp)
  have hsome : (splitOnceOf schemeSeparator (s ++ (schemeSeparator ++ (authority ++ '/' :: path)))).isSome := by
    have := splitOnceOf_append (p := "//".toList) hcolon (authority ++ '/' :: path)
    exact Option.isSome_of_eq_some this
  have hnone : ∀ c ∈ s ++ (schemeSeparator ++ (authority ++ '/' :: path)), c ≠ '?' ∧ c ≠ '#' := by
    intro c hmem
    simpa using hcut.before_char hchar c hmem
  have hread := h.read
  have htrim := h.trimmed
  have hback := h.backslash
  have hcontrol := h.control
  rw [hbefore] at hread htrim hback hcontrol
  rw [List.any_append, Bool.or_eq_false_iff] at hcontrol
  obtain ⟨url', hparse, hsame⟩ := hc.slash _ tail url hread h.toWeb hsome hnone hcontrol.1 htrim hcut.tail
  have hpath : '/' :: (path ++ ['/']) = "/share/".toList ++ (encodedId ++ ['/']) := by
    rw [← List.cons_append, ← hraw, List.append_assoc]
  have hcutSlash := cutSlash_of_not_mem hsingle
  refine parseShareUrl_eq_ok.mpr ⟨url', encodedId ++ ['/'], ?_⟩
  exact {
    toWeb := hsame.web h.toWeb
    authority := ⟨authority, by rw [hsame.scheme]; exact hslashed.rawAuthority_eq hs, hat⟩
    trimmed := by rw [hafter]; exact trimmed_slash (by simp) htrim
    backslash := by
      rw [hafter]
      rw [List.mem_append, not_or] at hback
      refine fun hmem => (List.mem_append.mp hmem).elim hback.1 fun hmem => ?_
      exact (List.mem_cons.mp hmem).elim (by decide) hback.2
    control := by
      rw [hafter, List.any_append, List.any_cons, hcontrol.1, hcontrol.2]
      decide
    username := hsame.username.trans h.username
    password := hsame.password.trans h.password
    fragment := hsame.fragment.trans h.fragment
    read := by rw [hafter]; exact hparse
    raw := by rw [hslashed.rawUrlPath_eq, hpath]
    nonempty := by
      rw [cutSlash_append, ← hcutSlash]
      exact h.nonempty
    single := by rwa [cutSlash_append]
    decoded := by
      rw [cutSlash_append, ← hcutSlash]
      exact h.decoded
    origin := h.origin.trans hsame.origin.symm
    built := h.built
    secret := by
      rw [hsame.query]
      exact h.secret }

end Slashed

section Canonical

variable (crate : UrlCrate) (segment : Text → Text)

theorem share_url_canonical (hc : crate.Documented segment) :
    (∀ input share, parseShareUrl crate input = .ok share →
      (∃ url, crate.parse share.safeUrl = some url ∧ crate.query url = none ∧
        crate.username url = [] ∧ crate.password url = none) ∧
      parseShareUrl crate share.safeUrl = .ok { share with password := none } ∧
      ∀ encodedId, rawUrlPath input = some ("/share/".toList ++ encodedId) → '/' ∉ encodedId →
        parseShareUrl crate (withSlash input) = .ok share) ∧
    ∀ origin shareId built, buildShareUrl crate origin shareId = .ok built →
      ∃ share, parseShareUrl crate built = .ok share ∧ share.shareId = shareId ∧ share.safeUrl = built := by
  refine ⟨fun input share h => ?_, fun origin shareId built h => ?_⟩
  · obtain ⟨url, encodedId, haccepted⟩ := parseShareUrl_eq_ok.mp h
    obtain ⟨base, horigin, hid, -, hbuilt⟩ := buildShareUrl_eq_ok.mp haccepted.built
    obtain ⟨base', hbase', -, -, -, hsame⟩ := hc.parse_origin url haccepted.toWeb
    have hbase : base = base' := by
      have hparsed := horigin.parsed
      rw [haccepted.origin, hbase'] at hparsed
      exact (Option.some.inj hparsed).symm
    have hshare : crate.asciiOrigin base = share.origin := by rw [hbase, hsame, haccepted.origin]
    have hplain := (pushed_rest hc horigin.toWeb share.shareId).plain horigin.plain
    refine ⟨⟨_, by rw [hbuilt]; exact hc.parse_text _ hplain, hplain.query, hplain.username,
      hplain.password⟩, ?_, fun encodedId' hraw hsingle => ?_⟩
    · have hparse := parse_pushed hc horigin.plain horigin.path hid
      rw [← hbuilt, hshare] at hparse
      exact hparse
    · have hsame' : encodedId' = encodedId :=
        List.append_cancel_left (Option.some.inj (hraw.symm.trans haccepted.raw))
      exact parse_withSlash hc haccepted (hsame' ▸ hsingle)
  · obtain ⟨url, horigin, hid, -, rfl⟩ := buildShareUrl_eq_ok.mp h
    exact ⟨_, parse_pushed hc horigin.plain horigin.path hid, rfl, rfl⟩

end Canonical

end VeStorage.ADrive.ShareUrl
