import VeStorage.ADrive.Share.Climb

namespace VeStorage.ADrive.Share
open Lib
open Lib.Crash (ensure ensure_eq_ok bind_eq_ok seq_eq_ok pure_eq_ok ensure_eq_error bind_eq_error
  pure_eq_error)

variable {u : Unicode} {mapping : MappingIndex} {p q l v : Text} {isDirectory : Bool}
  {retained : List (Text × Text)}

section Retain

-- What `retain_parents` has collected: folders and their own local paths.
structure Retained (u : Unicode) (mapping : MappingIndex) (retained : List (Text × Text)) : Prop where
  ordered : Ordered Prod.fst retained
  folder : ∀ pair ∈ retained, ['/'] <:+ pair.1
  nonempty : ∀ pair ∈ retained, pair.2 ≠ []
  mapped : ∀ pair ∈ retained, mapping.localPath u pair.1 = .ok pair.2

theorem retained_nil : Retained u mapping [] := ⟨ordered_nil, by simp, by simp, by simp⟩

def localsOf (retained : List (Text × Text)) : List Text := retained.map Prod.snd

theorem Retained.mem_insert (h : Retained u mapping retained)
    (hlocal : mapping.localPath u (q ++ ['/']) = .ok l) (pair : Text × Text) :
    pair ∈ insertBy Prod.fst (q ++ ['/'], l) retained ↔ pair = (q ++ ['/'], l) ∨ pair ∈ retained := by
  refine mem_insertBy_same h.ordered fun other hother hsame => Prod.ext hsame ?_
  have hmapped := h.mapped other hother
  rw [hsame, hlocal] at hmapped
  exact (Except.ok.inj hmapped).symm

theorem Retained.insert (h : Retained u mapping retained)
    (hlocal : mapping.localPath u (q ++ ['/']) = .ok l) (hl : l ≠ []) :
    Retained u mapping (insertBy Prod.fst (q ++ ['/'], l) retained) where
  ordered := ordered_insertBy h.ordered
  folder pair hpair := by
    rcases (h.mem_insert hlocal pair).mp hpair with rfl | hpair
    · exact List.suffix_append _ _
    · exact h.folder pair hpair
  nonempty pair hpair := by
    rcases (h.mem_insert hlocal pair).mp hpair with rfl | hpair
    · exact hl
    · exact h.nonempty pair hpair
  mapped pair hpair := by
    rcases (h.mem_insert hlocal pair).mp hpair with rfl | hpair
    · exact hlocal
    · exact h.mapped pair hpair

theorem Retained.localsOf_insert (h : Retained u mapping retained)
    (hlocal : mapping.localPath u (q ++ ['/']) = .ok l) :
    v ∈ localsOf (insertBy Prod.fst (q ++ ['/'], l) retained) ↔ v = l ∨ v ∈ localsOf retained := by
  simp only [localsOf, List.mem_map, h.mem_insert hlocal]
  constructor
  · rintro ⟨pair, rfl | hpair, rfl⟩
    · exact .inl rfl
    · exact .inr ⟨pair, hpair, rfl⟩
  · rintro (rfl | ⟨pair, hpair, rfl⟩)
    · exact ⟨_, .inl rfl, rfl⟩
    · exact ⟨pair, .inr hpair, rfl⟩

theorem retainFrom_climb {cs locals : List Text} (hc : Climb u mapping cs locals)
    (h : Retained u mapping retained) :
    ∃ retained', retainFrom u mapping retained cs = .ok retained' ∧ Retained u mapping retained' ∧
      ∀ v, v ∈ localsOf retained' ↔ v ∈ localsOf retained ∨ v ∈ locals := by
  induction hc generalizing retained with
  | top => exact ⟨retained, rfl, h, by simp⟩
  | stop current rest hroot => exact ⟨retained, by rw [retainFrom, if_pos hroot], h, by simp⟩
  | skip current rest locals hroot hlocal hc ih =>
    obtain ⟨retained', hrun, hkept, hmem⟩ := ih h
    refine ⟨retained', ?_, hkept, hmem⟩
    rw [retainFrom, if_neg hroot, hlocal, ← hrun]
    rfl
  | keep current rest mapped locals hroot hlocal hne hc ih =>
    obtain ⟨retained', hrun, hkept, hmem⟩ := ih (h.insert hlocal hne)
    refine ⟨retained', ?_, hkept, fun v => ?_⟩
    · rw [retainFrom, if_neg hroot, hlocal, ← hrun]
      simp [bind, Except.bind, hne]
    · rw [hmem, h.localsOf_insert hlocal, List.mem_cons]
      tauto

theorem retainParents_local (hd : mapping.Declared) (h : Retained u mapping retained)
    (hlocal : mapping.localPath u p = .ok l) (hl : isDirectory = true → l ≠ []) :
    ∃ retained', retainParents u mapping p isDirectory retained = .ok retained' ∧
      Retained u mapping retained' ∧
      ((∀ v, v ∈ localsOf retained' ↔ v ∈ localsOf retained ∨ v ∈ localParents l isDirectory) ∨
        (isDirectory = true ∧ ∀ v, v ∈ localsOf retained' ↔ v ∈ localsOf retained)) := by
  obtain ⟨locals, hclimb, hlocals⟩ := climbs_local hd hl hlocal
  obtain ⟨retained', hrun, hkept, hmem⟩ := retainFrom_climb hclimb h
  refine ⟨retained', hrun, hkept, ?_⟩
  rcases hlocals with rfl | ⟨hdirectory, rfl⟩
  · exact .inl hmem
  · exact .inr ⟨hdirectory, fun v => by simp [hmem v]⟩

end Retain

section Keep

-- The files whose local path passes the filters.
def passing (u : Unicode) (mapping : MappingIndex) (files : List RemoteFile) : List Entry :=
  files.filterMap fun remote =>
    match mapping.localPath u remote.path with
    | .ok mapped => if mapping.policy.matchesPath mapped = true then some ⟨mapped, remote⟩ else none
    | .error _ => none

theorem passing_mapped {files : List RemoteFile} {entry : Entry} (h : entry ∈ passing u mapping files) :
    entry.remote ∈ files ∧ mapping.localPath u entry.remote.path = .ok entry.localPath ∧
      mapping.policy.matchesPath entry.localPath = true := by
  obtain ⟨remote, hremote, hentry⟩ := List.mem_filterMap.mp h
  split at hentry
  next mapped hmapped =>
    split at hentry
    next hmatches =>
      obtain rfl := Option.some.inj hentry
      exact ⟨hremote, hmapped, hmatches⟩
    next => cases hentry
  next => cases hentry

theorem keepFiles_local (hd : mapping.Declared) {files : List RemoteFile} (kept : List Entry)
    (hlocal : ∀ remote ∈ files, ∃ l, mapping.localPath u remote.path = .ok l)
    (h : Retained u mapping retained) :
    ∃ retained', keepFiles u mapping kept retained files =
        .ok (kept ++ passing u mapping files, retained') ∧ Retained u mapping retained' ∧
      ∀ v, v ∈ localsOf retained' ↔ v ∈ localsOf retained ∨
        ∃ entry ∈ passing u mapping files, v ∈ localParents entry.localPath false := by
  induction files generalizing kept retained with
  | nil => exact ⟨retained, by simp [keepFiles, passing], h, by simp [passing]⟩
  | cons remote rest ih =>
    rw [List.forall_mem_cons] at hlocal
    obtain ⟨⟨l, hl⟩, hrest⟩ := hlocal
    by_cases hmatches : mapping.policy.matchesPath l = true
    · have hcons : passing u mapping (remote :: rest) = ⟨l, remote⟩ :: passing u mapping rest := by
        simp [passing, hl, hmatches]
      have hfile : false = true → l ≠ [] := nofun
      obtain ⟨middle, hparents, hmiddle, hmem⟩ := retainParents_local hd h hl hfile
      have hmem := hmem.resolve_right (by simp)
      obtain ⟨retained', hrun, hkept, hmem'⟩ := ih (kept ++ [⟨l, remote⟩]) hrest hmiddle
      refine ⟨retained', ?_, hkept, fun v => ?_⟩
      · rw [keepFiles, hl, hcons]
        simp only [bind, Except.bind, hmatches, if_true, hparents]
        rw [hrun, List.append_assoc]
        rfl
      · rw [hmem', hmem, hcons, or_assoc]
        simp
    · have hcons : passing u mapping (remote :: rest) = passing u mapping rest := by
        simp [passing, hl, hmatches]
      obtain ⟨retained', hrun, hkept, hmem⟩ := ih kept hrest h
      refine ⟨retained', ?_, hkept, by rwa [hcons]⟩
      rw [keepFiles, hl, hcons]
      simp only [bind, Except.bind, if_neg hmatches]
      exact hrun

theorem keepDirectories_local (hd : mapping.Declared) {directories : List Text}
    (hlocal : ∀ directory ∈ directories, ∃ l, mapping.localPath u directory = .ok l)
    (h : Retained u mapping retained) :
    ∃ (retained' : List (Text × Text)) (sources : List Text),
      keepDirectories u mapping retained directories = .ok retained' ∧
      Retained u mapping retained' ∧
      (∀ l ∈ sources, mapping.policy.matchesPath l = true ∧
        ∃ directory ∈ directories, mapping.localPath u directory = .ok l) ∧
      ∀ v, v ∈ localsOf retained' ↔ v ∈ localsOf retained ∨ ∃ l ∈ sources, v ∈ localParents l true := by
  induction directories generalizing retained with
  | nil => exact ⟨retained, [], rfl, h, by simp, by simp⟩
  | cons directory rest ih =>
    rw [List.forall_mem_cons] at hlocal
    obtain ⟨⟨l, hl⟩, hrest⟩ := hlocal
    by_cases hkeep : l ≠ [] ∧ mapping.policy.matchesPath l = true
    · have hfolder : true = true → l ≠ [] := fun _ => hkeep.1
      obtain ⟨middle, hparents, hmiddle, hmem⟩ := retainParents_local hd h hl hfolder
      obtain ⟨retained', sources, hrun, hkept, hsources, hmem'⟩ := ih hrest hmiddle
      have hstep : keepDirectories u mapping retained (directory :: rest) = .ok retained' := by
        rw [keepDirectories, hl]
        simp only [bind, Except.bind, if_pos hkeep, hparents]
        exact hrun
      have hlift : ∀ k ∈ sources, mapping.policy.matchesPath k = true ∧
          ∃ d ∈ directory :: rest, mapping.localPath u d = .ok k := by
        intro k hk
        obtain ⟨hmatches, d, hdir, hmapped⟩ := hsources k hk
        exact ⟨hmatches, d, List.mem_cons_of_mem _ hdir, hmapped⟩
      rcases hmem with hmem | ⟨-, hmem⟩
      · refine ⟨retained', l :: sources, hstep, hkept, ?_, fun v => ?_⟩
        · exact List.forall_mem_cons.mpr ⟨⟨hkeep.2, directory, List.mem_cons_self, hl⟩, hlift⟩
        · rw [hmem', hmem, or_assoc]
          simp
      · exact ⟨retained', sources, hstep, hkept, hlift, fun v => by rw [hmem', hmem]⟩
    · obtain ⟨retained', sources, hrun, hkept, hsources, hmem⟩ := ih hrest h
      refine ⟨retained', sources, ?_, hkept, fun k hk => ?_, hmem⟩
      · rw [keepDirectories, hl]
        simp only [bind, Except.bind, if_neg hkeep]
        exact hrun
      · obtain ⟨hmatches, d, hdir, hmapped⟩ := hsources k hk
        exact ⟨hmatches, d, List.mem_cons_of_mem _ hdir, hmapped⟩

end Keep

section Closed

theorem localPath_valid (h : mapping.localPath u p = .ok l) :
    l = [] ∨ validateRelative u l = .ok () := by
  rw [MappingIndex.localPath] at h
  split at h
  next => cases h
  next r hroot =>
    split at h
    next =>
      split at h
      next => exact .inl (Except.ok.inj h).symm
      next =>
        rw [seq_eq_ok, pure_eq_ok] at h
        exact .inr (h.2 ▸ h.1)
    next =>
      dsimp only at h
      have hc := checked_eq_ok.mp h
      exact hc.1 ▸ hc.2

-- Ancestors of an ancestor are ancestors.
theorem localParents_trans (hl : l = [] ∨ validateRelative u l = .ok ())
    (hp : p ∈ localParents l isDirectory) (hq : q ∈ localParents p true) :
    q ∈ localParents l isDirectory := by
  rcases hl with rfl | hl
  · rw [localParents_nil] at hp
    cases hp
  · rw [localParents_valid hl] at hp ⊢
    rw [localParents_valid (valid_ancestor hl hp)] at hq
    have hqp := mem_ancestors_true.mp hq
    cases isDirectory with
    | true =>
      refine mem_ancestors_true.mpr ?_
      rcases mem_ancestors_true.mp hp with rfl | ⟨rest, rfl⟩
      · exact hqp
      · rcases hqp with rfl | ⟨more, rfl⟩
        · exact .inr ⟨rest, rfl⟩
        · exact .inr ⟨more ++ '/' :: rest, by simp⟩
    | false =>
      refine mem_ancestors_false.mpr ?_
      obtain ⟨rest, rfl⟩ := mem_ancestors_false.mp hp
      rcases hqp with rfl | ⟨more, rfl⟩
      · exact ⟨rest, rfl⟩
      · exact ⟨more ++ '/' :: rest, by simp⟩

theorem self_mem_localParents (hl : l ≠ []) : l ∈ localParents l true := by
  rw [localParents_self hl]
  exact List.mem_cons_self

end Closed

end VeStorage.ADrive.Share
