import VeStorage.ADrive.ShareArtifacts.Folded

namespace VeStorage.ADrive.ShareArtifacts
open Lib
open Lib.Crash (ensure ensure_eq_ok bind_eq_ok seq_eq_ok pure_eq_ok)
open ADrive.Share (CliError Unicode Manifest)
open Tos.RollingCsv (FileName padded parseUsize stripSuffix u64Max)

-- What the code relies on of NFD and of upper case: a text in ASCII is left to upper case alone.
structure AsciiStable (u : Unicode) : Prop where
  nfd_append : ∀ a t : Text, (∀ c ∈ t, c.toNat < 128) → u.nfd (a ++ t) = u.nfd a ++ t
  upper : ∀ c : Char, c.toNat < 128 → u.toUppercase c = [c.toUpper]

variable {disk : Disk} {u : Unicode} {path other : Path} {part : Nat}

section Names

theorem isDigit_ascii {c : Char} (h : c.isDigit = true) : c.toNat < 128 ∧ c.toUpper = c := by
  simp only [Char.isDigit, Bool.and_eq_true, decide_eq_true_eq] at h
  have hle : c.val.toNat ≤ 57 := UInt32.le_iff_toNat_le.mp h.2
  refine ⟨by simp only [Char.toNat]; omega, ?_⟩
  refine dif_neg ?_
  rintro ⟨hlow, -⟩
  have hlow : 97 ≤ c.val.toNat := UInt32.le_iff_toNat_le.mp hlow
  omega

theorem AsciiStable.fold_append (hu : AsciiStable u) (a : Text) {t : Text}
    (ht : ∀ c ∈ t, c.toNat < 128) : u.fold (a ++ t) = u.fold a ++ t.map Char.toUpper := by
  rw [Unicode.fold, Unicode.fold, hu.nfd_append a t ht, Unicode.uppercase, Unicode.uppercase,
    List.flatMap_append]
  congr 1
  induction t with
  | nil => rfl
  | cons c t ih =>
    rw [List.forall_mem_cons] at ht
    rw [List.flatMap_cons, hu.upper c ht.1, ih ht.2]
    rfl

def partPrefix (u : Unicode) (path : Path) : Text := u.fold path.stem ++ ".PART-".toList

def volumeTail (part : Nat) : Text := padded part ++ ".CSV".toList

theorem fold_volume (hu : AsciiStable u) (path : Path) (part : Nat) :
    u.fold (volumeText path.stem part) = partPrefix u path ++ volumeTail part := by
  have hdigit := Tos.RollingCsv.padded_isDigit part
  have hascii : ∀ c ∈ ".part-".toList ++ (padded part ++ ".csv".toList), c.toNat < 128 := by
    have hpart : ∀ c ∈ ".part-".toList, c.toNat < 128 := by simp
    have hcsv : ∀ c ∈ ".csv".toList, c.toNat < 128 := by simp
    intro c hc
    rcases List.mem_append.mp hc with hc | hc
    · exact hpart c hc
    · rcases List.mem_append.mp hc with hc | hc
      · exact (isDigit_ascii (hdigit c hc)).1
      · exact hcsv c hc
  have hkept : (padded part).map Char.toUpper = padded part := by
    conv_rhs => rw [← List.map_id (padded part)]
    exact List.map_congr_left fun c hc => (isDigit_ascii (hdigit c hc)).2
  rw [volumeText, hu.fold_append _ hascii, List.map_append, List.map_append, hkept, partPrefix,
    volumeTail, List.append_assoc]
  rfl

theorem stem_clean (h : ∀ name, .normal name ∈ path.components → '\\' ∉ name.text) :
    '\\' ∉ path.stem := by
  unfold Path.stem
  split
  next name hname =>
    have hmem : .normal name ∈ path.components := by
      unfold Path.fileName at hname
      split at hname
      next last hlast =>
        obtain rfl := Option.some.inj hname
        exact List.mem_of_getLast? hlast
      next => cases hname
    rw [name.stem_eq]
    rcases Tos.RollingCsv.fileStem_eq name.text with he | ⟨ext, he, -⟩
    · rw [he]
      exact h name hmem
    · intro hc
      apply h name hmem
      rw [he]
      exact List.mem_append_left _ hc
  next => simp

theorem volumeText_clean {stem : Text} (h : '\\' ∉ stem) (part : Nat) :
    '\\' ∉ volumeText stem part := by
  intro hmem
  simp only [volumeText, List.mem_append] at hmem
  rcases hmem with hmem | hmem | hmem | hmem
  · exact h hmem
  · simp at hmem
  · simpa using Tos.RollingCsv.padded_isDigit part '\\' hmem
  · simp at hmem

end Names

section Volumes

def volume (disk : Disk) (path : Path) (part : Nat) : Resolved :=
  disk.resolve (rolledCsvPath path part)

-- The directory of the volumes after the first.
def volumeParent (disk : Disk) (path : Path) : Resolved :=
  if path.fileName.isSome then disk.resolve path.parentOrDot else disk.resolve path

theorem fileName_some {name : FileName} (h : path.fileName = some name) :
    ∃ components, path = ⟨path.isAbsolute, components ++ [.normal name]⟩ ∧
      path.parentOrDot = ⟨path.isAbsolute, components⟩ := by
  obtain ⟨absolute, components⟩ := path
  unfold Path.fileName at h
  split at h
  next last hlast =>
    obtain rfl := Option.some.inj h
    obtain ⟨init, rfl⟩ := List.getLast?_eq_some_iff.mp hlast
    exact ⟨init, rfl, by simp [Path.parentOrDot]⟩
  next => cases h

theorem resolve_fileName {name : FileName} (h : path.fileName = some name) :
    disk.resolve path = disk.resolve path.parentOrDot ++ [name] := by
  obtain ⟨components, hpath, hparent⟩ := fileName_some h
  rw [hparent]
  conv_lhs => rw [hpath]
  exact resolve_append path.isAbsolute components name

theorem volume_later (disk : Disk) (path : Path) (h : part ≠ 1) :
    volume disk path part =
      volumeParent disk path ++ [volumeName path.stem path.stem_plain part] := by
  rw [volume, rolledCsvPath, if_neg h, volumeParent, Path.withFileName]
  cases hname : path.fileName with
  | none =>
    simp only [Option.isSome_none, Bool.false_eq_true, if_false]
    exact resolve_append path.isAbsolute path.components _
  | some name =>
    obtain ⟨components, hpath, hparent⟩ := fileName_some hname
    simp only [Option.isSome_some, if_true, hparent]
    rw [hpath, List.dropLast_concat]
    exact resolve_append path.isAbsolute components _

theorem volumeParent_above (disk : Disk) (path : Path) :
    foldNames u (volumeParent disk path) <+: foldNames u (disk.resolve path) := by
  rw [volumeParent]
  cases hname : path.fileName with
  | none => exact List.prefix_rfl
  | some name =>
    rw [resolve_fileName hname]
    exact foldNames_above

theorem volume_ne_nil (hroot : disk.resolve path ≠ []) (part : Nat) : volume disk path part ≠ [] := by
  by_cases hpart : part = 1
  · rw [hpart, volume, rolledCsvPath, if_pos rfl]
    exact hroot
  · rw [volume_later disk path hpart]
    simp

structure CleanPath (disk : Disk) (path : Path) : Prop where
  names : ∀ name, .normal name ∈ path.components → '\\' ∉ name.text
  currentDir : path.isAbsolute = false → Clean disk.currentDir

theorem CleanPath.resolve (h : CleanPath disk path) : Clean (disk.resolve path) := by
  intro name hname
  have hmem := mem_resolve hname
  rw [Disk.absolute] at hmem
  split at hmem
  · exact h.names name hmem
  · rename_i habsolute
    rcases List.mem_append.mp hmem with hmem | hmem
    · obtain ⟨entry, hentry, he⟩ := List.mem_map.mp hmem
      obtain rfl := Component.normal.inj he
      exact h.currentDir (by simpa using habsolute) entry hentry
    · exact h.names name hmem

theorem CleanPath.volumeParent (h : CleanPath disk path) : Clean (volumeParent disk path) := by
  rw [ShareArtifacts.volumeParent]
  cases hname : path.fileName with
  | none => exact h.resolve
  | some name =>
    have hclean := h.resolve
    rw [resolve_fileName hname] at hclean
    exact hclean.of_append_left

theorem CleanPath.volume (h : CleanPath disk path) (part : Nat) : Clean (volume disk path part) := by
  by_cases hpart : part = 1
  · rw [hpart, ShareArtifacts.volume, rolledCsvPath, if_pos rfl]
    exact h.resolve
  · rw [volume_later disk path hpart]
    refine h.volumeParent.append fun name hn => ?_
    obtain rfl := List.mem_singleton.mp hn
    exact volumeText_clean (stem_clean h.names) part

end Volumes

section Family

def familyOf (disk : Disk) (u : Unicode) (path : Path) : VolumeFamily where
  base := disk.resolve path
  parent := folded u (pathText (disk.resolve path.parentOrDot))
  partPrefix := partPrefix u path

theorem new_eq (hu : AsciiStable u) (hclean : CleanPath disk path) {family : VolumeFamily}
    (h : VolumeFamily.new disk u path = .ok family) : family = familyOf disk u path := by
  rw [VolumeFamily.new, seq_eq_ok, bind_eq_ok] at h
  obtain ⟨-, base, hbase, h⟩ := h
  split at h
  next => cases h
  next filename hname =>
    split at h
    next => cases h
    next strip hstrip =>
      rw [bind_eq_ok] at h
      obtain ⟨parent, hparent, h⟩ := h
      dsimp only at h
      rw [seq_eq_ok, pure_eq_ok] at h
      rw [← h.2, familyOf, normalizePath_eq hbase, normalizePath_eq hparent]
      congr 1
      have htext : filename.text = volumeText path.stem 2 := by
        rw [rolledCsvPath, if_neg (by decide), Path.withFileName] at hname
        split at hname <;> simp [Path.fileName] at hname <;> rw [← hname] <;> rfl
      have hfold := Tos.RollingCsv.stripSuffix_eq_some hstrip
      rw [htext, folded_clean (volumeText_clean (stem_clean hclean.names) 2), fold_volume hu] at hfold
      exact (List.append_cancel_right hfold).symm

theorem containsVolume_later (hu : AsciiStable u) (hclean : CleanPath disk path)
    (hname : path.fileName.isSome) (hpart : 2 ≤ part) (hmax : part ≤ u64Max) {p : Resolved}
    (hp : Clean p) (h : foldNames u p = foldNames u (volume disk path part)) :
    (familyOf disk u path).containsVolume u p = true := by
  rw [volume_later disk path (by omega), foldNames_append] at h
  obtain ⟨init, last, rfl⟩ : ∃ init last, p = init ++ [last] := by
    rcases List.eq_nil_or_concat p with rfl | ⟨init, last, hp⟩
    · simp [foldNames] at h
    · exact ⟨init, last, by simpa using hp⟩
  rw [foldNames_append] at h
  obtain ⟨hinit, hlast⟩ := List.append_inj' h rfl
  have hlast : u.fold last.text = partPrefix u path ++ volumeTail part := by
    rw [← fold_volume hu]
    exact List.head_eq_of_cons_eq hlast
  have hparent : folded u (pathText init) = folded u (pathText (disk.resolve path.parentOrDot)) := by
    have hvolumes := hclean.volumeParent
    rw [volumeParent, if_pos hname] at hinit hvolumes
    exact folded_pathText_congr hp.of_append_left hvolumes hinit
  have hdigit := Tos.RollingCsv.padded_isDigit part
  have hlong : 4 ≤ (padded part).length := by
    rw [padded, List.length_append, List.length_replicate]
    omega
  rw [VolumeFamily.containsVolume]
  simp only [List.getLast?_concat, List.dropLast_concat, familyOf, hparent, ne_eq, not_true_eq_false,
    if_false]
  rw [folded_clean (hp last (by simp)), hlast, stripPrefix_append, Option.bind_some, volumeTail,
    Tos.RollingCsv.stripSuffix_append]
  simp only [Tos.RollingCsv.parseUsize_padded hmax, Bool.and_eq_true, decide_eq_true_iff,
    Option.any_some, List.all_eq_true]
  exact ⟨⟨hlong, hdigit⟩, by omega⟩

theorem overlaps_base {target : Resolved} (hclean : CleanPath disk path) (htarget : Clean target)
    (hroot : disk.resolve path ≠ []) (hne : target ≠ [])
    (h : Comparable u (disk.resolve path) target) : (familyOf disk u path).overlaps u target = true := by
  rw [VolumeFamily.overlaps, Bool.or_eq_true]
  exact .inl ((pathsOverlap_iff hclean.resolve htarget hroot hne).mpr h)

theorem overlaps_below (hu : AsciiStable u) {target : Resolved} (hclean : CleanPath disk path)
    (htarget : Clean target) (hroot : disk.resolve path ≠ []) (hne : target ≠ []) (hpart : 2 ≤ part)
    (hmax : part ≤ u64Max) (h : foldNames u (volume disk path part) <+: foldNames u target) :
    (familyOf disk u path).overlaps u target = true := by
  by_cases hname : path.fileName.isSome
  · rw [VolumeFamily.overlaps, Bool.or_eq_true]
    refine .inr (List.any_eq_true.mpr ⟨target.take (volume disk path part).length, ?_, ?_⟩)
    · exact (List.mem_inits _ _).mpr (List.take_prefix _ _)
    · refine containsVolume_later hu hclean hname hpart hmax
        (fun name hn => htarget name (List.mem_of_mem_take hn)) ?_
      have htake := List.prefix_iff_eq_take.mp h
      rw [htake]
      simp [foldNames]
  · refine overlaps_base hclean htarget hroot hne (.inl (List.IsPrefix.trans ?_ h))
    rw [volume_later disk path (by omega), volumeParent, if_neg hname]
    exact foldNames_above

-- What is comparable with a volume of a family overlaps the family.
theorem overlaps_of_comparable (hu : AsciiStable u) {target : Resolved} (hclean : CleanPath disk path)
    (htarget : Clean target) (hroot : disk.resolve path ≠ []) (hne : target ≠ []) (hpart : 1 ≤ part)
    (hmax : part ≤ u64Max) (h : Comparable u (volume disk path part) target) :
    (familyOf disk u path).overlaps u target = true := by
  rcases eq_or_ne part 1 with rfl | hlater
  · exact overlaps_base hclean htarget hroot hne h
  · rcases h with hbelow | hover
    · exact overlaps_below hu hclean htarget hroot hne (by omega) hmax hbelow
    · have hconcat := hover
      rw [volume_later disk path hlater, foldNames_append] at hconcat
      rcases List.prefix_concat_iff.mp hconcat with heq | habove
      · refine overlaps_below hu hclean htarget hroot hne (by omega) hmax ?_
        rw [volume_later disk path hlater, foldNames_append, heq]
        exact List.prefix_rfl
      · exact overlaps_base hclean htarget hroot hne
          (.inr (habove.trans (volumeParent_above disk path)))

end Family

section Pair

theorem partPrefix_inj {i j : Nat}
    (h : partPrefix u path ++ volumeTail i = partPrefix u other ++ volumeTail j) :
    partPrefix u path = partPrefix u other := by
  have hdash : ∀ part, '-' ∉ (volumeTail part).reverse := by
    intro part hmem
    rw [List.mem_reverse, volumeTail, List.mem_append] at hmem
    rcases hmem with hmem | hmem
    · simpa using Tos.RollingCsv.padded_isDigit part '-' hmem
    · simp at hmem
  have hsplit : ∀ (path : Path) part, splitOnce '-' (partPrefix u path ++ volumeTail part).reverse =
      ((volumeTail part).reverse, some ((u.fold path.stem ++ ".PART".toList).reverse)) := by
    intro path part
    have htext : (partPrefix u path ++ volumeTail part).reverse =
        (volumeTail part).reverse ++ '-' :: (u.fold path.stem ++ ".PART".toList).reverse := by
      simp [partPrefix]
    rw [htext]
    exact splitOnce_append (hdash part) _
  have hcut := congrArg (fun text => (splitOnce '-' (List.reverse text)).2) h
  simp only [hsplit, Option.some.injEq, List.reverse_inj] at hcut
  rw [partPrefix, partPrefix, List.append_cancel_right hcut]

-- Volumes of two families that do not overlap each other's bases have different names.
theorem volumes_apart (hu : AsciiStable u) (hclean : CleanPath disk path)
    (hclean' : CleanPath disk other) (hroot : disk.resolve path ≠ []) (hroot' : disk.resolve other ≠ [])
    (hshared : ¬ ((familyOf disk u path).parent = (familyOf disk u other).parent ∧
      (familyOf disk u path).partPrefix = (familyOf disk u other).partPrefix))
    (hbase : (familyOf disk u path).overlaps u (disk.resolve other) = false)
    (hbase' : (familyOf disk u other).overlaps u (disk.resolve path) = false) {i j : Nat}
    (hi : 1 ≤ i) (hj : 1 ≤ j) (himax : i ≤ u64Max) (hjmax : j ≤ u64Max) :
    foldNames u (volume disk path i) ≠ foldNames u (volume disk other j) := by
  intro heq
  have hapart : ∀ part, 1 ≤ part → part ≤ u64Max →
      ¬ Comparable u (volume disk path part) (disk.resolve other) := by
    intro part hpart hmax hc
    rw [overlaps_of_comparable hu hclean hclean'.resolve hroot hroot' hpart hmax hc] at hbase
    cases hbase
  have hapart' : ∀ part, 1 ≤ part → part ≤ u64Max →
      ¬ Comparable u (volume disk other part) (disk.resolve path) := by
    intro part hpart hmax hc
    rw [overlaps_of_comparable hu hclean' hclean.resolve hroot' hroot hpart hmax hc] at hbase'
    cases hbase'
  rcases eq_or_ne i 1 with rfl | hi'
  · exact hapart' j hj hjmax (.inr (heq ▸ List.prefix_rfl))
  · rcases eq_or_ne j 1 with rfl | hj'
    · exact hapart i hi himax (.inl (heq ▸ List.prefix_rfl))
    · rw [volume_later disk path hi', volume_later disk other hj', foldNames_append,
        foldNames_append] at heq
      obtain ⟨hparent, hlast⟩ := List.append_inj' heq rfl
      by_cases hname : path.fileName.isSome
      · by_cases hname' : other.fileName.isSome
        · refine hshared ⟨?_, ?_⟩
          · have hvolumes := hclean.volumeParent
            have hvolumes' := hclean'.volumeParent
            rw [volumeParent, if_pos hname] at hparent hvolumes
            rw [volumeParent, if_pos hname'] at hparent hvolumes'
            exact folded_pathText_congr hvolumes hvolumes' hparent
          · have htext := List.head_eq_of_cons_eq hlast
            change u.fold (volumeText path.stem i) = u.fold (volumeText other.stem j) at htext
            rw [fold_volume hu, fold_volume hu] at htext
            exact partPrefix_inj htext
        · have hbare : volumeParent disk other = disk.resolve other := if_neg hname'
          refine hapart' 1 le_rfl (by decide) (.inl ?_)
          change foldNames u (disk.resolve other) <+: foldNames u (disk.resolve path)
          rw [← hbare, ← hparent]
          exact volumeParent_above disk path
      · have hbare : volumeParent disk path = disk.resolve path := if_neg hname
        refine hapart 1 le_rfl (by decide) (.inl ?_)
        change foldNames u (disk.resolve path) <+: foldNames u (disk.resolve other)
        rw [← hbare, hparent]
        exact volumeParent_above disk other

end Pair

end VeStorage.ADrive.ShareArtifacts
