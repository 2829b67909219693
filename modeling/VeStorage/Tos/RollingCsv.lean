import VeStorage.Lib.Csv
import Mathlib.Logic.Function.Basic

namespace VeStorage.Tos.RollingCsv
open Lib

def u64Max : Nat := 2 ^ 64 - 1

def saturatingAdd (a b : Nat) : Nat := min (a + b) u64Max

-- The last component of a path that can be opened as a file.
structure FileName where
  text : Text
  nonempty : text ≠ []
  plain : '/' ∉ text
  entry : text ≠ ".".toList ∧ text ≠ "..".toList

def fileStem (name : Text) : Text :=
  match (splitOnce '.' name.reverse).2 with
  | some before => if before = [] then name else before.reverse
  | none => name

def FileName.stem (base : FileName) : Text :=
  if fileStem base.text = [] then "report".toList else fileStem base.text

section Number

def padded (part : Nat) : Text :=
  List.replicate (4 - (Nat.toDigits 10 part).length) '0' ++ Nat.toDigits 10 part

def parseUsize (text : Text) : Option Nat :=
  let digits := match text with
    | '+' :: rest => rest
    | _ => text
  if digits = [] ∨ !digits.all Char.isDigit then none
  else (some (Nat.ofDigitChars 10 digits 0)).filter (· ≤ u64Max)

theorem padded_isDigit (part : Nat) : ∀ c ∈ padded part, c.isDigit = true := by
  intro c hc
  rcases List.mem_append.mp hc with hc | hc
  · obtain rfl := List.eq_of_mem_replicate hc
    rfl
  · exact Nat.isDigit_of_mem_toDigits (by decide) (by decide) hc

theorem padded_value (part : Nat) : Nat.ofDigitChars 10 (padded part) 0 = part := by
  rw [padded, Nat.ofDigitChars_append, Nat.ofDigitChars_replicate_zero, Nat.mul_zero,
    Nat.ofDigitChars_ten_toDigits]

theorem padded_injective : Function.Injective padded := fun a b h => by
  rw [← padded_value a, h, padded_value b]

theorem padded_ne_nil (part : Nat) : padded part ≠ [] := by
  simp [padded, Nat.toDigits_ne_nil]

theorem parseUsize_digits {digits : Text} (hne : digits ≠ []) (hdigit : ∀ c ∈ digits, c.isDigit = true)
    (hmax : Nat.ofDigitChars 10 digits 0 ≤ u64Max) :
    parseUsize digits = some (Nat.ofDigitChars 10 digits 0) := by
  obtain ⟨c, rest, rfl⟩ := List.exists_cons_of_ne_nil hne
  have hplus : c ≠ '+' := by
    rintro rfl
    have := hdigit '+' List.mem_cons_self
    revert this
    decide
  have hall : (c :: rest).all Char.isDigit = true := List.all_eq_true.mpr hdigit
  unfold parseUsize
  split
  · rename_i he
    exact absurd (List.cons.inj he).1 hplus
  · simp only [hall]
    simp [hmax]

theorem parseUsize_padded {part : Nat} (h : part ≤ u64Max) :
    parseUsize (padded part) = some part := by
  have hvalue := padded_value part
  have hparse := parseUsize_digits (padded_ne_nil part) (padded_isDigit part)
  rw [hvalue] at hparse
  exact hparse h

theorem parseUsize_toDigits {n : Nat} (h : n ≤ u64Max) :
    parseUsize (Nat.toDigits 10 n) = some n := by
  have hvalue : Nat.ofDigitChars 10 (Nat.toDigits 10 n) 0 = n := Nat.ofDigitChars_ten_toDigits
  have hdigit : ∀ c ∈ Nat.toDigits 10 n, c.isDigit = true :=
    fun c hc => Nat.isDigit_of_mem_toDigits (by decide) (by decide) hc
  have hparse := parseUsize_digits Nat.toDigits_ne_nil hdigit
  rw [hvalue] at hparse
  exact hparse h

end Number

section Paths

def rolledCsvPath (base : FileName) (part : Nat) : Text :=
  if part = 1 then base.text
  else base.stem ++ ".part-".toList ++ padded part ++ ".csv".toList

def stripSuffix (suffix text : Text) : Option Text :=
  (stripPrefix suffix.reverse text.reverse).map List.reverse

def isGeneratedPart (base : FileName) (fileName : Text) : Bool :=
  match (stripPrefix (base.stem ++ ".part-".toList) fileName).bind (stripSuffix ".csv".toList) with
  | none => false
  | some number => (parseUsize number).any fun part => 2 ≤ part ∧ number = padded part

theorem stripSuffix_append (t suffix : Text) : stripSuffix suffix (t ++ suffix) = some t := by
  rw [stripSuffix, List.reverse_append, stripPrefix_append]
  simp

theorem stripSuffix_eq_some {suffix t r : Text} (h : stripSuffix suffix t = some r) :
    t = r ++ suffix := by
  obtain ⟨s, hs, rfl⟩ := Option.map_eq_some_iff.mp h
  have := congrArg List.reverse (stripPrefix_eq_some.mp hs)
  simpa using this

theorem rolledCsvPath_later (base : FileName) {part : Nat} (h : part ≠ 1) :
    rolledCsvPath base part =
      (base.stem ++ ".part-".toList) ++ (padded part ++ ".csv".toList) := by
  rw [rolledCsvPath, if_neg h, List.append_assoc]

theorem isGeneratedPart_iff (base : FileName) (fileName : Text) :
    isGeneratedPart base fileName = true ↔
      ∃ part, 2 ≤ part ∧ part ≤ u64Max ∧ fileName = rolledCsvPath base part := by
  unfold isGeneratedPart
  constructor
  · intro h
    split at h
    · cases h
    · rename_i number hstrip
      obtain ⟨t, hpre, hsuf⟩ := Option.bind_eq_some_iff.mp hstrip
      rw [Option.any_eq_true_iff_get] at h
      obtain ⟨hsome, h⟩ := h
      obtain ⟨part, hparse⟩ := Option.isSome_iff_exists.mp hsome
      simp only [hparse, Option.get_some, decide_eq_true_eq] at h
      refine ⟨part, h.1, ?_, ?_⟩
      · unfold parseUsize at hparse
        dsimp only at hparse
        split at hparse <;> simp_all [Option.filter_eq_some_iff]
      · rw [stripPrefix_eq_some.mp hpre, stripSuffix_eq_some hsuf, h.2,
          rolledCsvPath_later base (by omega)]
  · rintro ⟨part, hle, hmax, rfl⟩
    rw [rolledCsvPath_later base (by omega), stripPrefix_append, Option.bind_some,
      stripSuffix_append]
    simp [parseUsize_padded hmax, hle]

theorem fileStem_eq (name : Text) :
    fileStem name = name ∨ ∃ ext, name = fileStem name ++ '.' :: ext ∧ '.' ∉ ext := by
  unfold fileStem
  split
  · rename_i before h
    split
    · exact .inl rfl
    · have hsplit := splitOnce_eq h
      have hfree := splitOnce_fst_not_mem '.' name.reverse
      refine .inr ⟨(splitOnce '.' name.reverse).1.reverse, ?_, by simpa using hfree⟩
      have := congrArg List.reverse hsplit
      simpa using this
  · exact .inl rfl

theorem fileStem_ne_nil {name : Text} (h : name ≠ []) : fileStem name ≠ [] := by
  unfold fileStem
  split
  · split
    · exact h
    · rename_i hne
      simpa using hne
  · exact h

theorem FileName.stem_eq (base : FileName) : base.stem = fileStem base.text :=
  if_neg (fileStem_ne_nil base.nonempty)

theorem rolledCsvPath_ne_base (base : FileName) {part : Nat} (h : part ≠ 1) :
    rolledCsvPath base part ≠ base.text := by
  rw [rolledCsvPath_later base h, List.append_assoc, base.stem_eq]
  intro he
  rcases fileStem_eq base.text with hs | ⟨ext, hs, hfree⟩
  · rw [hs] at he
    simp at he
  · have hcancel := List.append_cancel_left (he.trans hs)
    have hext : "part-".toList ++ (padded part ++ ".csv".toList) = ext :=
      (List.cons.inj hcancel).2
    apply hfree
    rw [← hext]
    simp

theorem rolledCsvPath_injective (base : FileName) : Function.Injective (rolledCsvPath base) := by
  intro a b h
  rcases eq_or_ne a 1 with rfl | ha
  · by_contra hb
    exact rolledCsvPath_ne_base base (Ne.symm hb) h.symm
  · rcases eq_or_ne b 1 with rfl | hb
    · exact absurd h (rolledCsvPath_ne_base base ha)
    · rw [rolledCsvPath_later base ha, rolledCsvPath_later base hb] at h
      exact padded_injective (List.append_cancel_right (List.append_cancel_left h))

end Paths

section Writer

-- The files of the base path's directory.
abbrev Dir := Text → Option Text

structure Record where
  fields : List Text
  wide : 2 ≤ fields.length

structure RollingCsvWriter where
  basePath : FileName
  headerLine : Text
  currentFile : Text
  currentPart : Nat
  currentBytes : Nat
  maxBytes : Nat

def defaultBatchFileRolloverBytes : Nat := 50 * 1024 * 1024

-- A file cannot hold more bytes than a `u64` counts.
def writeAll (dir : Dir) (file bytes : Text) : Option Dir :=
  let content := (dir file).getD [] ++ bytes
  if byteCount content ≤ u64Max then some (Function.update dir file (some content)) else none

def openPart (base : FileName) (part : Nat) (headerLine : Text) (truncate : Bool) (dir : Dir) :
    Option (Dir × Text × Nat) := do
  let path := rolledCsvPath base part
  let content := if truncate then [] else (dir path).getD []
  let opened := Function.update dir path (some content)
  if byteCount content = 0 then
    let written ← writeAll opened path headerLine
    some (written, path, byteCount headerLine)
  else some (opened, path, byteCount content)

def removeStaleRolledCsvParts (base : FileName) (dir : Dir) : Dir :=
  fun file => if isGeneratedPart base file then none else dir file

def RollingCsvWriter.new (base : FileName) (headers : List Text) (dir : Dir) :
    Option (Dir × RollingCsvWriter) := do
  let headerLine := Csv.record headers
  let (dir, file, bytes) ← openPart base 1 headerLine true (removeStaleRolledCsvParts base dir)
  some (dir, ⟨base, headerLine, file, 1, bytes, defaultBatchFileRolloverBytes⟩)

def RollingCsvWriter.roll (w : RollingCsvWriter) (lineBytes : Nat) (dir : Dir) :
    Option (Dir × RollingCsvWriter) :=
  if byteCount w.headerLine < w.currentBytes ∧ w.maxBytes < saturatingAdd w.currentBytes lineBytes then
    if w.currentPart < u64Max then do
      let (dir, file, bytes) ← openPart w.basePath (w.currentPart + 1) w.headerLine true dir
      some (dir, { w with currentFile := file, currentPart := w.currentPart + 1, currentBytes := bytes })
    else none
  else some (dir, w)

def RollingCsvWriter.writeRecord (w : RollingCsvWriter) (fields : List Text) (dir : Dir) :
    Option (Dir × RollingCsvWriter) := do
  let line := Csv.record fields
  let (dir, w) ← w.roll (byteCount line) dir
  let dir ← writeAll dir w.currentFile line
  some (dir, { w with currentBytes := w.currentBytes + byteCount line })

def writeRecords (dir : Dir) (w : RollingCsvWriter) (records : List Record) :
    Option (Dir × RollingCsvWriter) :=
  records.foldlM (fun s r => s.2.writeRecord r.fields s.1) (dir, w)

def writeArtifact (base : FileName) (headers : Record) (limit : Nat) (records : List Record)
    (dir : Dir) : Option (Dir × RollingCsvWriter) := do
  let (dir, w) ← RollingCsvWriter.new base headers.fields dir
  writeRecords dir { w with maxBytes := limit } records

end Writer

section Volumes

def volume (headers : Record) (records : List Record) : Text :=
  Csv.record headers.fields ++ records.flatMap fun r => Csv.record r.fields

structure Volumes (base : FileName) (headers : Record) (limit : Nat) (full : List (List Record))
    (cur : List Record) (dir : Dir) (w : RollingCsvWriter) : Prop where
  basePath : w.basePath = base
  headerLine : w.headerLine = Csv.record headers.fields
  maxBytes : w.maxBytes = limit
  currentPart : w.currentPart = full.length + 1
  currentFile : w.currentFile = rolledCsvPath base (full.length + 1)
  currentBytes : w.currentBytes = byteCount (volume headers cur)
  counted : full.length + 1 ≤ u64Max
  files : ∀ i, i + 1 ≤ u64Max →
    dir (rolledCsvPath base (i + 1)) = ((full ++ [cur])[i]?).map (volume headers)
  bounded : ∀ recs ∈ full ++ [cur], byteCount (volume headers recs) ≤ limit ∨ recs.length ≤ 1
  filled : ∀ recs ∈ full, recs ≠ []

theorem volume_nil (headers : Record) : volume headers [] = Csv.record headers.fields := by
  simp [volume]

theorem volume_snoc (headers : Record) (recs : List Record) (r : Record) :
    volume headers (recs ++ [r]) = volume headers recs ++ Csv.record r.fields := by
  simp [volume]

theorem record_bytes_pos (fields : List Text) : 0 < byteCount (Csv.record fields) :=
  byteCount_pos (by simp [Csv.record])

theorem volume_bytes {headers : Record} {recs : List Record} :
    byteCount (Csv.record headers.fields) < byteCount (volume headers recs) ↔ recs ≠ [] := by
  rcases recs with - | ⟨r, recs⟩
  · simp [volume_nil]
  · have := record_bytes_pos r.fields
    simp only [volume, List.flatMap_cons, byteCount_append]
    simp only [ne_eq, reduceCtorEq, not_false_eq_true, iff_true]
    omega

theorem readRows_volume (headers : Record) (recs : List Record) :
    Csv.readRows (volume headers recs) = some (headers.fields :: recs.map Record.fields) := by
  have hne : ∀ r : Record, r.fields ≠ [] := fun r h => by
    have := r.wide
    simp [h] at this
  have hflat : volume headers recs = (headers.fields :: recs.map Record.fields).flatMap Csv.record := by
    simp [volume, List.flatMap_map]
  rw [hflat]
  apply Csv.readRows_records
  intro fields hf
  rcases List.mem_cons.mp hf with rfl | hf
  · exact hne headers
  · obtain ⟨r, -, rfl⟩ := List.mem_map.mp hf
    exact hne r

theorem openPart_truncate (base : FileName) (part : Nat) (headerLine : Text) (dir : Dir) :
    openPart base part headerLine true dir = if byteCount headerLine ≤ u64Max then
      some (Function.update dir (rolledCsvPath base part) (some headerLine),
        rolledCsvPath base part, byteCount headerLine) else none := by
  simp only [openPart, writeAll, if_true, byteCount_nil, Function.update_self, Option.getD_some,
    List.nil_append, Function.update_idem]
  split <;> rfl

theorem removeStale_parts (base : FileName) (dir : Dir) {i : Nat} (hpos : 0 < i)
    (h : i + 1 ≤ u64Max) : removeStaleRolledCsvParts base dir (rolledCsvPath base (i + 1)) = none :=
  if_pos ((isGeneratedPart_iff base _).mpr ⟨i + 1, by omega, h, rfl⟩)

variable {base : FileName} {headers : Record} {limit : Nat}

theorem new_volumes {dir dir' : Dir} {w : RollingCsvWriter}
    (h : RollingCsvWriter.new base headers.fields dir = some (dir', w)) :
    Volumes base headers limit [] [] dir' { w with maxBytes := limit } := by
  rw [RollingCsvWriter.new, openPart_truncate] at h
  split at h
  · obtain ⟨rfl, rfl⟩ : _ ∧ _ := by simpa using h
    refine ⟨rfl, rfl, rfl, rfl, rfl, ?_, by decide, fun i hi => ?_, ?_, by simp⟩
    · rw [volume_nil]
    · rcases Nat.eq_zero_or_pos i with rfl | hpos
      · simp [volume_nil]
      · have hne : rolledCsvPath base (i + 1) ≠ rolledCsvPath base 1 := fun he => by
          have := rolledCsvPath_injective base he
          omega
        rw [Function.update_of_ne hne, removeStale_parts base dir hpos hi]
        simp [List.getElem?_eq_none (show [([] : List Record)].length ≤ i from hpos)]
    · intro recs hr
      obtain rfl : recs = [] := by simpa using hr
      exact .inr (Nat.zero_le 1)
  · cases h

theorem files_update {dir : Dir} {parts parts' : List (List Record)} {k : Nat} {recs : List Record}
    (h : ∀ i, i + 1 ≤ u64Max → dir (rolledCsvPath base (i + 1)) = parts[i]?.map (volume headers))
    (hk : parts'[k]? = some recs) (hother : ∀ i, i ≠ k → parts'[i]? = parts[i]?) {i : Nat}
    (hi : i + 1 ≤ u64Max) :
    Function.update dir (rolledCsvPath base (k + 1)) (some (volume headers recs))
      (rolledCsvPath base (i + 1)) = parts'[i]?.map (volume headers) := by
  rcases eq_or_ne i k with rfl | hne
  · rw [Function.update_self, hk, Option.map_some]
  · have hpath : rolledCsvPath base (i + 1) ≠ rolledCsvPath base (k + 1) := fun he => by
      have := rolledCsvPath_injective base he
      omega
    rw [Function.update_of_ne hpath, h i hi, hother i hne]

theorem getElem?_snoc_ne {α : Type} {l : List α} {a b : α} {i : Nat} (h : i ≠ l.length) :
    (l ++ [a])[i]? = (l ++ [b])[i]? := by
  rcases Nat.lt_or_ge i l.length with hlt | hge
  · rw [List.getElem?_append_left hlt, List.getElem?_append_left hlt]
  · rw [List.getElem?_eq_none (by simp; omega), List.getElem?_eq_none (by simp; omega)]

theorem getElem?_snoc_of_ne {α : Type} {l : List α} {a : α} {i : Nat} (h : i ≠ l.length) :
    (l ++ [a])[i]? = l[i]? := by
  rcases Nat.lt_or_ge i l.length with hlt | hge
  · rw [List.getElem?_append_left hlt]
  · rw [List.getElem?_eq_none (by simp; omega), List.getElem?_eq_none hge]

-- A record goes to the open volume, whose file is the last one.
theorem Volumes.append {full : List (List Record)} {cur : List Record} {dir dir' : Dir}
    {w : RollingCsvWriter} (h : Volumes base headers limit full cur dir w) (r : Record)
    (hw : writeAll dir w.currentFile (Csv.record r.fields) = some dir')
    (hfit : saturatingAdd (byteCount (volume headers cur)) (byteCount (Csv.record r.fields)) ≤ limit ∨
      cur = []) :
    Volumes base headers limit full (cur ++ [r]) dir'
      { w with currentBytes := w.currentBytes + byteCount (Csv.record r.fields) } := by
  have hlast := h.files full.length h.counted
  rw [List.getElem?_concat_length, Option.map_some] at hlast
  rw [writeAll, h.currentFile, hlast, Option.getD_some, ← volume_snoc] at hw
  split at hw
  · rename_i hsize
    obtain rfl := Option.some.inj hw
    refine ⟨h.basePath, h.headerLine, h.maxBytes, h.currentPart, h.currentFile, ?_, h.counted,
      fun i => files_update h.files (List.getElem?_concat_length ..) fun i => getElem?_snoc_ne, ?_,
      h.filled⟩
    · rw [volume_snoc, byteCount_append, ← h.currentBytes]
    · intro recs hr
      rcases List.mem_append.mp hr with hr | hr
      · exact h.bounded recs (List.mem_append_left _ hr)
      · obtain rfl := List.mem_singleton.mp hr
        rcases hfit with hfit | rfl
        · left
          rw [volume_snoc, byteCount_append] at hsize ⊢
          rwa [saturatingAdd, Nat.min_eq_left hsize] at hfit
        · exact .inr le_rfl
  · cases hw

theorem Volumes.next {full : List (List Record)} {cur : List Record} {dir : Dir}
    {w : RollingCsvWriter} (h : Volumes base headers limit full cur dir w) (hcur : cur ≠ [])
    (hpart : w.currentPart < u64Max) :
    Volumes base headers limit (full ++ [cur]) []
      (Function.update dir (rolledCsvPath w.basePath (w.currentPart + 1)) (some w.headerLine))
      { w with
        currentFile := rolledCsvPath w.basePath (w.currentPart + 1)
        currentPart := w.currentPart + 1
        currentBytes := byteCount w.headerLine } := by
  have hlen : (full ++ [cur]).length = w.currentPart := by simp [h.currentPart]
  refine ⟨h.basePath, h.headerLine, h.maxBytes, ?_, ?_, ?_, ?_, fun i hi => ?_, ?_, ?_⟩
  · rw [hlen]
  · rw [hlen, h.basePath]
  · rw [volume_nil, h.headerLine]
  · rw [hlen]
    exact hpart
  · rw [h.basePath, h.headerLine, ← volume_nil, ← hlen]
    exact files_update h.files (List.getElem?_concat_length ..) (fun i => getElem?_snoc_of_ne) hi
  · intro recs hr
    rcases List.mem_append.mp hr with hr | hr
    · exact h.bounded recs hr
    · obtain rfl := List.mem_singleton.mp hr
      exact .inr (Nat.zero_le 1)
  · intro recs hr
    rcases List.mem_append.mp hr with hr | hr
    · exact h.filled recs hr
    · obtain rfl := List.mem_singleton.mp hr
      exact hcur

theorem Volumes.roll {full : List (List Record)} {cur : List Record} {dir dir' : Dir}
    {w w' : RollingCsvWriter} {lineBytes : Nat} (h : Volumes base headers limit full cur dir w)
    (hr : w.roll lineBytes dir = some (dir', w')) :
    Volumes base headers limit (full ++ [cur]) [] dir' w' ∨
      (dir' = dir ∧ w' = w ∧
        (saturatingAdd (byteCount (volume headers cur)) lineBytes ≤ limit ∨ cur = [])) := by
  unfold RollingCsvWriter.roll at hr
  split at hr
  · rename_i hover
    split at hr
    · rename_i hpart
      rw [openPart_truncate] at hr
      split at hr
      · left
        obtain ⟨rfl, rfl⟩ : _ ∧ _ := by simpa using hr
        refine h.next ?_ hpart
        rw [← @volume_bytes headers, ← h.headerLine, ← h.currentBytes]
        exact hover.1
      · cases hr
    · cases hr
  · rename_i hkeep
    right
    obtain ⟨rfl, rfl⟩ : dir = dir' ∧ w = w' := by simpa using hr
    refine ⟨rfl, rfl, ?_⟩
    rw [h.headerLine, h.currentBytes, h.maxBytes, volume_bytes, not_and_or, not_not,
      Nat.not_lt] at hkeep
    exact hkeep.symm

theorem Volumes.write {full : List (List Record)} {cur : List Record} {dir dir' : Dir}
    {w w' : RollingCsvWriter} (h : Volumes base headers limit full cur dir w) (r : Record)
    (hw : w.writeRecord r.fields dir = some (dir', w')) :
    ∃ full' cur', Volumes base headers limit full' cur' dir' w' ∧
      (full' ++ [cur']).flatten = (full ++ [cur]).flatten ++ [r] ∧ cur' ≠ [] := by
  obtain ⟨⟨mid, wmid⟩, hroll, hrest⟩ := Option.bind_eq_some_iff.mp hw
  obtain ⟨out, hout, he⟩ := Option.bind_eq_some_iff.mp hrest
  obtain ⟨rfl, rfl⟩ : out = dir' ∧ _ = w' := by simpa using he
  rcases h.roll hroll with hnew | ⟨rfl, rfl, hfit⟩
  · exact ⟨_, _, hnew.append r hout (.inr rfl), by simp, by simp⟩
  · exact ⟨_, _, h.append r hout hfit, by simp, by simp⟩

theorem writeRecords_volumes {records : List Record} {full : List (List Record)}
    {cur : List Record} {dir dir' : Dir} {w w' : RollingCsvWriter}
    (h : Volumes base headers limit full cur dir w)
    (hw : writeRecords dir w records = some (dir', w')) :
    ∃ full' cur', Volumes base headers limit full' cur' dir' w' ∧
      (full' ++ [cur']).flatten = (full ++ [cur]).flatten ++ records ∧
      (cur ≠ [] ∨ records ≠ [] → cur' ≠ []) := by
  induction records generalizing full cur dir w with
  | nil =>
    obtain ⟨rfl, rfl⟩ : dir = dir' ∧ w = w' := by simpa [writeRecords] using hw
    exact ⟨full, cur, h, by simp, by simp⟩
  | cons r records ih =>
    rw [writeRecords, List.foldlM_cons] at hw
    obtain ⟨⟨mid, wmid⟩, hr, hrest⟩ := Option.bind_eq_some_iff.mp hw
    obtain ⟨full1, cur1, h1, hflat1, hne1⟩ := h.write r hr
    obtain ⟨full2, cur2, h2, hflat2, hne2⟩ := ih h1 hrest
    refine ⟨full2, cur2, h2, ?_, fun _ => ?_⟩
    · rw [hflat2, hflat1]
      simp
    · exact hne2 (.inl hne1)

theorem writeAll_fits {dir : Dir} {file content bytes : Text} (h : dir file = some content)
    (hfit : byteCount (content ++ bytes) ≤ u64Max) : (writeAll dir file bytes).isSome := by
  rw [writeAll, h, Option.getD_some, if_pos hfit]
  rfl

theorem Volumes.roll_runs {full : List (List Record)} {cur : List Record} {dir : Dir}
    {w : RollingCsvWriter} (h : Volumes base headers limit full cur dir w) (lineBytes : Nat)
    (hpart : full.length + 1 < u64Max) (hsize : byteCount (volume headers cur) ≤ u64Max) :
    (w.roll lineBytes dir).isSome := by
  have hheader : byteCount w.headerLine ≤ u64Max := by
    rw [h.headerLine]
    rw [volume, byteCount_append] at hsize
    omega
  unfold RollingCsvWriter.roll
  split
  · rw [if_pos (h.currentPart ▸ hpart), openPart_truncate, if_pos hheader]
    rfl
  · rfl

theorem volume_bytes_mono {pre recs post : List Record} :
    byteCount (volume headers recs) ≤ byteCount (volume headers (pre ++ recs ++ post)) := by
  simp only [volume, List.flatMap_append, byteCount_append]
  omega

theorem Volumes.write_runs {full : List (List Record)} {cur : List Record} {dir : Dir}
    {w : RollingCsvWriter} (h : Volumes base headers limit full cur dir w) (r : Record)
    (hpart : full.length + 1 < u64Max) (hsize : byteCount (volume headers (cur ++ [r])) ≤ u64Max) :
    ∃ dir' w', w.writeRecord r.fields dir = some (dir', w') := by
  have hcur : byteCount (volume headers cur) ≤ u64Max := by
    rw [volume_snoc, byteCount_append] at hsize
    omega
  have hone : byteCount (volume headers [r]) ≤ u64Max := by
    have := @volume_bytes_mono headers cur [r] []
    rw [List.append_nil] at this
    omega
  obtain ⟨⟨mid, wmid⟩, hroll⟩ := Option.isSome_iff_exists.mp
    (h.roll_runs (byteCount (Csv.record r.fields)) hpart hcur)
  have hwrite : (writeAll mid wmid.currentFile (Csv.record r.fields)).isSome := by
    rcases h.roll hroll with hnew | ⟨rfl, rfl, -⟩
    · have hfile := hnew.files _ hnew.counted
      rw [List.getElem?_concat_length, Option.map_some, ← hnew.currentFile] at hfile
      exact writeAll_fits hfile (by rwa [← volume_snoc])
    · have hfile := h.files _ h.counted
      rw [List.getElem?_concat_length, Option.map_some, ← h.currentFile] at hfile
      exact writeAll_fits hfile (by rwa [← volume_snoc])
  obtain ⟨out, hout⟩ := Option.isSome_iff_exists.mp hwrite
  refine ⟨out, _, Option.bind_eq_some_iff.mpr ⟨_, hroll, Option.bind_eq_some_iff.mpr ⟨out, hout, rfl⟩⟩⟩

theorem writeRecords_runs {records : List Record} {full : List (List Record)} {cur : List Record}
    {dir : Dir} {w : RollingCsvWriter} (h : Volumes base headers limit full cur dir w)
    (hpart : full.length + 1 + records.length ≤ u64Max)
    (hsize : byteCount (volume headers (cur ++ records)) ≤ u64Max) :
    ∃ dir' w', writeRecords dir w records = some (dir', w') := by
  induction records generalizing full cur dir w with
  | nil => exact ⟨dir, w, rfl⟩
  | cons r records ih =>
    rw [List.length_cons] at hpart
    have hone : byteCount (volume headers (cur ++ [r])) ≤ u64Max := by
      have := @volume_bytes_mono headers [] (cur ++ [r]) records
      simp only [List.nil_append, List.append_assoc, List.singleton_append] at this
      omega
    obtain ⟨mid, wmid, hr⟩ := h.write_runs r (by omega) hone
    obtain ⟨⟨mid', wmid'⟩, hroll, hrest⟩ := Option.bind_eq_some_iff.mp hr
    obtain ⟨out, hout, he⟩ := Option.bind_eq_some_iff.mp hrest
    obtain ⟨rfl, rfl⟩ : out = mid ∧ _ = wmid := by simpa using he
    rcases h.roll hroll with hnew | ⟨rfl, rfl, hfit⟩
    · have hlast : byteCount (volume headers ([r] ++ records)) ≤ u64Max := by
        have := @volume_bytes_mono headers cur ([r] ++ records) []
        simp only [List.append_nil, List.singleton_append] at this ⊢
        omega
      obtain ⟨dir', w', hall⟩ := ih (hnew.append r hout (.inr rfl)) (by simp; omega) hlast
      exact ⟨dir', w', Option.bind_eq_some_iff.mpr ⟨_, hr, hall⟩⟩
    · obtain ⟨dir', w', hall⟩ := ih (h.append r hout hfit) (by omega)
        (by simpa using hsize)
      exact ⟨dir', w', Option.bind_eq_some_iff.mpr ⟨_, hr, hall⟩⟩

theorem new_runs (dir : Dir) (h : byteCount (Csv.record headers.fields) ≤ u64Max) :
    ∃ dir' w, RollingCsvWriter.new base headers.fields dir = some (dir', w) := by
  rw [RollingCsvWriter.new, openPart_truncate, if_pos h]
  exact ⟨_, _, rfl⟩

theorem writeArtifact_runs (dir : Dir) (records : List Record) (hcount : records.length < u64Max)
    (hsize : byteCount (volume headers records) ≤ u64Max) :
    ∃ out, writeArtifact base headers limit records dir = some out := by
  have hheader : byteCount (Csv.record headers.fields) ≤ u64Max := by
    rw [volume, byteCount_append] at hsize
    omega
  obtain ⟨mid, w, hnew⟩ := @new_runs base headers dir hheader
  have hrun : ∃ dir' w', writeRecords mid { w with maxBytes := limit } records = some (dir', w') :=
    writeRecords_runs (new_volumes hnew) (by simp; omega) hsize
  obtain ⟨dir', w', hall⟩ := hrun
  exact ⟨(dir', w'), Option.bind_eq_some_iff.mpr ⟨_, hnew, hall⟩⟩

end Volumes

section Artifacts

variable (base : FileName) (headers : Record) (limit : Nat) (records : List Record) (dir : Dir)

theorem artifacts_read_back :
    (records.length < u64Max → byteCount (volume headers records) ≤ u64Max →
      ∃ out, writeArtifact base headers limit records dir = some out) ∧
    (∀ out w, writeArtifact base headers limit records dir = some (out, w) →
      ∃ parts : List (List Record), parts.flatten = records ∧
        (∀ part, 1 ≤ part → part ≤ u64Max →
          out (rolledCsvPath base part) = parts[part - 1]?.map (volume headers)) ∧
        (∀ recs ∈ parts, Csv.readRows (volume headers recs) =
          some (headers.fields :: recs.map Record.fields)) ∧
        ∀ recs ∈ parts, byteCount (volume headers recs) ≤ limit ∨ (∃ r, recs = [r]) ∨
          (recs = [] ∧ records = [])) ∧
    Function.Injective (rolledCsvPath base) := by
  refine ⟨writeArtifact_runs dir records, fun out w h => ?_, rolledCsvPath_injective base⟩
  obtain ⟨⟨mid, wmid⟩, hnew, hall⟩ := Option.bind_eq_some_iff.mp h
  obtain ⟨full, cur, hv, hflat, hne⟩ := writeRecords_volumes (@new_volumes base headers limit _ _ _ hnew) hall
  refine ⟨full ++ [cur], by simpa using hflat, ?_, fun recs _ => readRows_volume headers recs, ?_⟩
  · intro part hpos hmax
    have hfile := hv.files (part - 1) (by omega)
    rwa [Nat.sub_add_cancel hpos] at hfile
  · intro recs hr
    refine (hv.bounded recs hr).imp_right fun hlen => ?_
    rcases recs with - | ⟨r, rest⟩
    · right
      refine ⟨rfl, by_contra fun hrecords => ?_⟩
      rcases List.mem_append.mp hr with hr | hr
      · exact hv.filled [] hr rfl
      · exact hne (.inr hrecords) (List.mem_singleton.mp hr).symm
    · obtain rfl : rest = [] := by simpa using hlen
      exact .inl ⟨r, rfl⟩

end Artifacts

def reportName : FileName := ⟨"report.csv".toList, by decide, by decide, by decide⟩

def twoColumns : Record := ⟨["status".toList, "message".toList], by decide⟩

theorem header_exceeds_limit :
    ∃ out w, writeArtifact reportName twoColumns 0 [] (fun _ => none) = some (out, w) ∧
      out (rolledCsvPath reportName 1) = some (volume twoColumns []) ∧
      0 < byteCount (volume twoColumns []) :=
  ⟨_, _, rfl, by decide, by decide⟩

example : (fun s => (s.1 (rolledCsvPath reportName 1), s.1 (rolledCsvPath reportName 2))) <$>
    writeArtifact reportName twoColumns 25 (List.replicate 2 ⟨["é".toList, "é".toList], by decide⟩)
      (fun _ => none) =
    some (some "status,message\né,é\n".toList, some "status,message\né,é\n".toList) := by
  decide

end VeStorage.Tos.RollingCsv
