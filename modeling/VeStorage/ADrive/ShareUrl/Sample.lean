import VeStorage.ADrive.ShareUrl.Canonical

namespace VeStorage.ADrive.ShareUrl
open Lib
open Lib.Percent (percent uriCode unreserved hexValue escape alphanumeric Code)
open Share (isControl)
open Token (trimWhitespace isWhitespace)

section Segment

theorem percent_not_kept : percent ∉ ([] : Bytes) := List.not_mem_nil

def segmentCode : Code := uriCode [] percent_not_kept

def segmentText (s : Text) : Text := ofAscii (segmentCode.encode (utf8 s))

theorem encoded_byte : ∀ n < 256,
    n = 37 ∨ hexValue (UInt8.ofNat n) ≠ none ∨ unreserved (UInt8.ofNat n) = true →
      n < 128 ∧ Char.ofNat n ∉ ['/', '?', '#', '\\'] ∧ isControl (Char.ofNat n) = false ∧
        isWhitespace (Char.ofNat n) = false := by
  decide +kernel

theorem mem_encode {b : UInt8} {bytes : Bytes} (h : b ∈ segmentCode.encode bytes) :
    b.toNat < 128 ∧ SegmentChar (Char.ofNat b.toNat) := by
  refine encoded_byte b.toNat b.toNat_lt ?_
  rw [UInt8.ofNat_toNat]
  by_contra hnone
  push Not at hnone
  refine Percent.not_mem_uri (fun heq => hnone.1 ?_) hnone.2.1 (by simp) ?_ h
  · rw [heq]
    rfl
  · simpa using hnone.2.2

theorem hexDigit_hexDigit : ∀ n < 16, hexDigit (Percent.hexDigit n) = some (UInt8.ofNat n) := by
  decide

theorem decodeBytes_escape (b : UInt8) (rest : Bytes) :
    decodeBytes false (escape b ++ rest) = (decodeBytes false rest).map (b :: ·) := by
  have hhigh : b.toNat / 16 < 16 := by
    have := b.toNat_lt
    omega
  have hlow : b.toNat % 16 < 16 := Nat.mod_lt _ (by decide)
  have hbyte : UInt8.ofNat (b.toNat / 16) * 16 + UInt8.ofNat (b.toNat % 16) = b := by
    refine UInt8.toNat_inj.mp ?_
    rw [UInt8.toNat_add, UInt8.toNat_mul, UInt8.toNat_ofNat', UInt8.toNat_ofNat']
    have := b.toNat_lt
    change (b.toNat / 16 % 256 * 16 % 256 + b.toNat % 16 % 256) % 256 = b.toNat
    omega
  simp only [escape, List.cons_append, List.nil_append, decodeBytes, if_true, hexDigit_hexDigit _ hhigh,
    hexDigit_hexDigit _ hlow]
  cases decodeBytes false rest with
  | none => rfl
  | some decoded => exact congrArg (fun byte => some (byte :: decoded)) hbyte

theorem decodeBytes_cons {b : UInt8} (h : b ≠ percent) (rest : Bytes) :
    decodeBytes false (b :: rest) = (decodeBytes false rest).map (b :: ·) := by
  conv_lhs => unfold decodeBytes
  rw [if_neg h]
  cases decodeBytes false rest <;> simp

theorem decodeBytes_encode (bytes : Bytes) : decodeBytes false (segmentCode.encode bytes) = some bytes := by
  induction bytes with
  | nil => rfl
  | cons b bytes ih =>
    rw [Code.encode_cons]
    cases hw : segmentCode.write b with
    | some c =>
      obtain rfl : c = b := segmentCode.read_write b c hw
      have hone : segmentCode.encode [c] = [c] := by simp [Code.encode, hw]
      rw [hone, List.singleton_append, decodeBytes_cons (segmentCode.write_ne c c hw), ih]
      rfl
    | none =>
      have hone : segmentCode.encode [b] = escape b := by simp [Code.encode, hw]
      rw [hone, decodeBytes_escape, ih]
      rfl

theorem decode_segmentText (s : Text) : decodeComponent (segmentText s) false = .ok s := by
  rw [decodeComponent, segmentText, utf8_ofAscii fun b hb => (mem_encode hb).1, decodeBytes_encode,
    Option.bind_some, fromUtf8_utf8]
  rfl

theorem segmentText_char (s : Text) : ∀ c ∈ segmentText s, SegmentChar c := by
  intro c hc
  obtain ⟨b, hb, rfl⟩ := List.mem_map.mp hc
  exact (mem_encode hb).2

theorem kept_byte : ∀ n < 123, (Char.ofNat n).isAlphanum = true →
    segmentCode.encode [UInt8.ofNat n] = [UInt8.ofNat n] := by
  decide +kernel

theorem isAlphanum_lt {c : Char} (h : c.isAlphanum = true) : c.toNat < 123 := by
  have hcases : (c.isUpper || c.isLower || c.isDigit) = true := h
  rw [Bool.or_eq_true, Bool.or_eq_true] at hcases
  change c.val.toNat < 123
  rcases hcases with (hupper | hlower) | hdigit
  · have hle : c.val ≤ 'Z'.val := (of_decide_eq_true hupper).2
    exact Nat.lt_of_le_of_lt hle (by decide)
  · have hle : c.val ≤ 'z'.val := of_decide_eq_true (Bool.and_eq_true_iff.mp hlower).2
    exact Nat.lt_of_le_of_lt hle (by decide)
  · have hle : c.val ≤ '9'.val := of_decide_eq_true (Bool.and_eq_true_iff.mp hdigit).2
    exact Nat.lt_of_le_of_lt hle (by decide)

theorem segmentText_alphanumeric {s : Text} (h : ∀ c ∈ s, c.isAlphanum = true) : segmentText s = s := by
  induction s with
  | nil => rfl
  | cons c s ih =>
    rw [List.forall_mem_cons] at h
    have hlt := isAlphanum_lt h.1
    have hself : Char.ofNat c.toNat = c := Char.ofNat_toNat c
    have hbytes : String.utf8EncodeChar c = [UInt8.ofNat c.toNat] := by
      have := utf8EncodeChar_ascii c.toNat (hlt.trans (by decide))
      rwa [hself] at this
    have hkept := kept_byte c.toNat hlt (by rw [hself]; exact h.1)
    have hback : (UInt8.ofNat c.toNat).toNat = c.toNat := by
      rw [UInt8.toNat_ofNat']
      omega
    rw [segmentText, utf8_cons, hbytes, List.singleton_append, Code.encode_cons, hkept]
    change Char.ofNat (UInt8.ofNat c.toNat).toNat :: segmentText s = c :: s
    rw [hback, hself, ih h.2]

end Segment

section Crate

def sampleOrigin : Text := "https://h.test".toList

structure SampleUrl where
  path : Text
  query : Option Text
  rooted : ['/'] <+: path
  plain : ∀ c ∈ path, c ≠ '?' ∧ c ≠ '#'

def SampleUrl.push (url : SampleUrl) (s : Text) : SampleUrl where
  path := (if url.path = [] ∨ url.path = ['/'] then [] else url.path) ++ '/' :: segmentText s
  query := url.query
  rooted := by
    split
    · exact ⟨segmentText s, rfl⟩
    · exact url.rooted.trans (List.prefix_append _ _)
  plain := by
    refine List.forall_mem_append.mpr ⟨?_, List.forall_mem_cons.mpr ⟨by decide, fun c hc => ?_⟩⟩
    · split
      · simp
      · exact url.plain
    · have := (segmentText_char s c hc).1
      simp_all

def SampleUrl.text (url : SampleUrl) : Text :=
  sampleOrigin ++ (url.path ++ (url.query.map ('?' :: ·)).getD [])

def samplePath (rest : Text) : Text :=
  if rest.takeWhile (· ≠ '?') = [] then ['/'] else rest.takeWhile (· ≠ '?')

theorem rooted_sample {rest : Text} (h : rest.takeWhile (· ≠ '?') = [] ∨ ['/'] <+: rest) :
    ['/'] <+: samplePath rest := by
  rw [samplePath]
  split
  · exact List.prefix_rfl
  next hne =>
    obtain ⟨tail, rfl⟩ := h.resolve_left hne
    rw [List.singleton_append, List.takeWhile_cons_of_pos (by decide)]
    exact ⟨_, rfl⟩

theorem plain_sample {rest : Text} (h : '#' ∉ rest) : ∀ c ∈ samplePath rest, c ≠ '?' ∧ c ≠ '#' := by
  intro c hc
  rw [samplePath] at hc
  split at hc
  · rw [List.mem_singleton.mp hc]
    decide
  · refine ⟨by simpa using List.mem_takeWhile_imp hc, fun heq => h ?_⟩
    rw [← heq]
    exact (List.takeWhile_sublist _).subset hc

-- The texts below one origin, without a fragment.
def sampleParse (t : Text) : Option SampleUrl :=
  (stripPrefix sampleOrigin t).bind fun rest =>
    if h : '#' ∉ rest ∧ (rest.takeWhile (· ≠ '?') = [] ∨ ['/'] <+: rest) then
      some {
        path := samplePath rest
        query := (splitOnce '?' rest).2
        rooted := rooted_sample h.2
        plain := plain_sample h.1 }
    else none

def sampleCrate : UrlCrate where
  Url := SampleUrl
  parse := sampleParse
  scheme _ := "https".toList
  username _ := []
  password _ := none
  hostStr _ := some "h.test".toList
  path := SampleUrl.path
  query := SampleUrl.query
  fragment _ := none
  asciiOrigin _ := sampleOrigin
  cannotBeABase _ := false
  push := SampleUrl.push
  text := SampleUrl.text

theorem sameButPath {a b : SampleUrl} (h : b.query = a.query) : sampleCrate.SameButPath a b :=
  ⟨rfl, rfl, rfl, rfl, h, rfl, rfl⟩

theorem sampleParse_origin (url : SampleUrl) (h : url.query = none) :
    sampleParse (sampleOrigin ++ url.path) = some url := by
  obtain ⟨path, query, hrooted, hplain⟩ := url
  obtain rfl : query = none := h
  have htake : path.takeWhile (· ≠ '?') = path :=
    List.takeWhile_eq_self_iff.mpr fun c hc => by simpa using (hplain c hc).1
  have hne : path ≠ [] := by
    rintro rfl
    simp at hrooted
  have hpath : samplePath path = path := by rw [samplePath, htake, if_neg hne]
  have hquery : (splitOnce '?' path).2 = none := by
    rw [splitOnce_of_not_mem fun hc => (hplain _ hc).1 rfl]
  have hin : '#' ∉ path ∧ (path.takeWhile (· ≠ '?') = [] ∨ ['/'] <+: path) :=
    ⟨fun hc => (hplain _ hc).2 rfl, .inr hrooted⟩
  rw [sampleParse, stripPrefix_append, Option.bind_some, dif_pos hin]
  simp only [hpath, hquery]

theorem sampleParse_some {t : Text} {url : SampleUrl} (h : sampleParse t = some url) :
    ∃ rest, t = sampleOrigin ++ rest ∧ '#' ∉ rest ∧ (rest.takeWhile (· ≠ '?') = [] ∨ ['/'] <+: rest) ∧
      url.query = (splitOnce '?' rest).2 := by
  obtain ⟨rest, hstrip, h⟩ := Option.bind_eq_some_iff.mp h
  split at h
  case isFalse => cases h
  next hin =>
    obtain rfl := Option.some.inj h
    exact ⟨rest, stripPrefix_eq_some.mp hstrip, hin.1, hin.2, rfl⟩

theorem before_sample {before tail rest : Text} (h : before ++ tail = sampleOrigin ++ rest)
    (htail : tail = [] ∨ ∃ rest, tail = '?' :: rest ∨ tail = '#' :: rest) :
    ∃ rest', before = sampleOrigin ++ rest' ∧ rest = rest' ++ tail := by
  rcases List.append_eq_append_iff.mp h with ⟨missing, horigin, hmissing⟩ | ⟨rest', hbefore, hrest⟩
  · cases missing with
    | nil => exact ⟨[], by simpa using horigin.symm, by simpa using hmissing.symm⟩
    | cons c missing =>
      have hmem : c ∈ sampleOrigin := by simp [horigin]
      rcases htail with rfl | ⟨_, rfl | rfl⟩
      · cases hmissing
      · obtain rfl := (List.cons.inj hmissing).1
        exact absurd hmem (by decide)
      · obtain rfl := (List.cons.inj hmissing).1
        exact absurd hmem (by decide)
  · exact ⟨rest', hbefore, hrest⟩

theorem rooted_slash {before tail : Text} (hbefore : ∀ c ∈ before, c ≠ '?' ∧ c ≠ '#')
    (h : (before ++ tail).takeWhile (· ≠ '?') = [] ∨ ['/'] <+: before ++ tail) :
    ['/'] <+: before ++ '/' :: tail := by
  cases before with
  | nil => exact ⟨tail, rfl⟩
  | cons c before =>
    have hc : c ≠ '?' := (hbefore c List.mem_cons_self).1
    have hrooted := h.resolve_left (by simp [hc])
    obtain rfl : '/' = c := by simpa using hrooted
    exact ⟨before ++ '/' :: tail, rfl⟩

theorem query_slash {before tail : Text} (hbefore : ∀ c ∈ before, c ≠ '?' ∧ c ≠ '#')
    (htail : tail = [] ∨ ∃ rest, tail = '?' :: rest) :
    (splitOnce '?' (before ++ '/' :: tail)).2 = (splitOnce '?' (before ++ tail)).2 := by
  have hnone : '?' ∉ before := fun hc => (hbefore _ hc).1 rfl
  have hslash : '?' ∉ before ++ ['/'] := by simp [hnone]
  rcases htail with rfl | ⟨rest, rfl⟩
  · rw [splitOnce_of_not_mem hslash, List.append_nil, splitOnce_of_not_mem hnone]
  · have hcut := splitOnce_append hslash rest
    rw [List.append_assoc, List.singleton_append] at hcut
    rw [hcut, splitOnce_append hnone]

theorem sampleCrate_slash (before tail : Text) (url : SampleUrl)
    (hparse : sampleParse (before ++ tail) = some url) (hbefore : ∀ c ∈ before, c ≠ '?' ∧ c ≠ '#')
    (htail : tail = [] ∨ ∃ rest, tail = '?' :: rest ∨ tail = '#' :: rest) :
    ∃ url' : SampleUrl, sampleParse (before ++ '/' :: tail) = some url' ∧ url'.query = url.query := by
  obtain ⟨rest, htext, hhash, hrooted, hquery⟩ := sampleParse_some hparse
  obtain ⟨before', rfl, rfl⟩ := before_sample htext htail
  have hbefore' : ∀ c ∈ before', c ≠ '?' ∧ c ≠ '#' := fun c hc => hbefore c (by simp [hc])
  have htail' : tail = [] ∨ ∃ rest, tail = '?' :: rest := by
    rcases htail with hnil | ⟨rest, hmark | rfl⟩
    · exact .inl hnil
    · exact .inr ⟨rest, hmark⟩
    · simp at hhash
  have hin : '#' ∉ before' ++ '/' :: tail ∧ ((before' ++ '/' :: tail).takeWhile (· ≠ '?') = [] ∨
      ['/'] <+: before' ++ '/' :: tail) := by
    refine ⟨?_, .inr (rooted_slash hbefore' hrooted)⟩
    simpa using hhash
  rw [List.append_assoc, sampleParse, stripPrefix_append, Option.bind_some, dif_pos hin]
  exact ⟨_, rfl, (query_slash hbefore' htail').trans hquery.symm⟩

theorem host_char : ∀ c ∈ "h.test".toList, AuthorityChar c :=
  forall_mem_of_all (p := fun c => c ∉ ['/', '?', '#', '\\', '@'] ∧ isControl c = false ∧
    isWhitespace c = false) (by decide)

theorem sampleCrate_documented : sampleCrate.Documented segmentText where
  origin_eq _ _ := ⟨"h.test".toList, host_char, rfl⟩
  parse_origin _ _ := by
    refine ⟨(⟨['/'], none, List.prefix_rfl, forall_mem_of_all (by decide)⟩ : SampleUrl), by rfl, ?_, rfl, rfl, rfl⟩
    exact ⟨⟨.inl rfl, by simp [sampleCrate]⟩, rfl, rfl, rfl, rfl⟩
  text_eq url hp := by
    change sampleOrigin ++ (url.path ++ (url.query.map ('?' :: ·)).getD []) = sampleOrigin ++ url.path
    rw [show url.query = none from hp.query]
    simp
  parse_text url hp := by
    have hquery : url.query = none := hp.query
    change sampleParse (sampleOrigin ++ (url.path ++ (url.query.map ('?' :: ·)).getD [])) = some url
    rw [hquery, Option.map_none, Option.getD_none, List.append_nil]
    exact sampleParse_origin url hquery
  base _ _ := rfl
  push_path _ _ _ _ _ _ := rfl
  push_rest _ _ _ := sameButPath rfl
  segment_char := segmentText_char
  segment_alphanumeric _ h := segmentText_alphanumeric h
  decode_segment s _ := decode_segmentText s
  slash before tail url hparse _ _ hbefore _ _ htail := by
    obtain ⟨url', hparse', hquery⟩ := sampleCrate_slash before tail url hparse hbefore htail
    exact ⟨url', hparse', sameButPath hquery⟩

def copiedUrl : Text := "https://h.test/share/ab%20c?pwd=p%26w".toList

def copiedShare : ParsedShareUrl where
  safeUrl := "https://h.test/share/ab%20c".toList
  origin := "https://h.test".toList
  shareId := "ab c".toList
  password := some "p&w".toList

theorem parse_copiedUrl : parseShareUrl sampleCrate copiedUrl = .ok copiedShare := by
  decide +kernel

theorem share_url_canonical_sample :
    parseShareUrl sampleCrate copiedUrl = .ok copiedShare ∧
    parseShareUrl sampleCrate copiedShare.safeUrl = .ok { copiedShare with password := none } ∧
    parseShareUrl sampleCrate "https://h.test/share/ab%20c/?pwd=p%26w".toList = .ok copiedShare ∧
    ∃ share, parseShareUrl sampleCrate "https://h.test/share/a%2Fb".toList = .ok share ∧
      share.shareId = "a/b".toList ∧ share.safeUrl = "https://h.test/share/a%2Fb".toList := by
  obtain ⟨hparse, hbuild⟩ := share_url_canonical sampleCrate segmentText sampleCrate_documented
  obtain ⟨-, hsafe, hslash⟩ := hparse copiedUrl copiedShare parse_copiedUrl
  have hpath : rawUrlPath copiedUrl = some ("/share/".toList ++ "ab%20c".toList) := by decide
  have hbuilt : buildShareUrl sampleCrate sampleOrigin "a/b".toList =
      .ok "https://h.test/share/a%2Fb".toList := by decide +kernel
  have hcopied := hslash _ hpath (by decide)
  exact ⟨parse_copiedUrl, hsafe, hcopied, hbuild _ _ _ hbuilt⟩

end Crate

end VeStorage.ADrive.ShareUrl
