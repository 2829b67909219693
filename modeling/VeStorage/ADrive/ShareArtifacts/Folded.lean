import VeStorage.ADrive.ShareArtifacts.Paths

namespace VeStorage.ADrive.ShareArtifacts
open Lib
open ADrive.Share (CliError Unicode)
open Tos.RollingCsv (FileName)

variable {disk : Disk} {u : Unicode} {p q : Resolved} {path : Path}

section Resolve

def lexical (resolved : Resolved) (components : List Component) : Resolved :=
  components.foldl step resolved

def Disk.resolve (disk : Disk) (path : Path) : Resolved := lexical [] (disk.absolute path)

theorem normalizeFrom_eq {resolved r : Resolved} {components : List Component}
    (h : normalizeFrom disk resolved components = .ok r) : r = lexical resolved components := by
  induction components generalizing resolved with
  | nil => exact (Except.ok.inj h).symm
  | cons component rest ih =>
    rw [normalizeFrom, Crash.seq_eq_ok] at h
    exact ih h.2

theorem normalizePath_eq (h : normalizePath disk path = .ok p) : p = disk.resolve path :=
  normalizeFrom_eq h

theorem absolute_append (absolute : Bool) (a b : List Component) :
    disk.absolute ⟨absolute, a ++ b⟩ = disk.absolute ⟨absolute, a⟩ ++ b := by
  cases absolute <;> simp [Disk.absolute]

theorem resolve_append (absolute : Bool) (a : List Component) (name : FileName) :
    disk.resolve ⟨absolute, a ++ [.normal name]⟩ = disk.resolve ⟨absolute, a⟩ ++ [name] := by
  rw [Disk.resolve, absolute_append, lexical, List.foldl_append]
  rfl

theorem mem_lexical {name : FileName} {resolved : Resolved} {components : List Component}
    (h : name ∈ lexical resolved components) : name ∈ resolved ∨ .normal name ∈ components := by
  induction components generalizing resolved with
  | nil => exact .inl h
  | cons component rest ih =>
    rcases ih h with hmem | hmem
    · cases component with
      | parentDir => exact .inl (List.mem_of_mem_dropLast hmem)
      | normal other =>
        rcases List.mem_append.mp hmem with hmem | hmem
        · exact .inl hmem
        · obtain rfl := List.mem_singleton.mp hmem
          exact .inr List.mem_cons_self
    · exact .inr (List.mem_cons_of_mem _ hmem)

theorem mem_resolve {name : FileName} (h : name ∈ disk.resolve path) :
    .normal name ∈ disk.absolute path :=
  (mem_lexical h).resolve_left List.not_mem_nil

end Resolve

section Fold

-- No name holds a backslash.
def Clean (p : Resolved) : Prop := ∀ name ∈ p, '\\' ∉ name.text

theorem Clean.append (hp : Clean p) (hq : Clean q) : Clean (p ++ q) := fun name h =>
  (List.mem_append.mp h).elim (hp name) (hq name)

theorem Clean.of_append_left (h : Clean (p ++ q)) : Clean p := fun name hn =>
  h name (List.mem_append_left _ hn)

def foldNames (u : Unicode) (p : Resolved) : List Text := p.map fun name => u.fold name.text

theorem folded_clean {text : Text} (h : '\\' ∉ text) : folded u text = u.fold text := by
  rw [folded]
  congr 1
  conv_rhs => rw [← List.map_id text]
  refine List.map_congr_left fun c hc => if_neg ?_
  rintro rfl
  exact h hc

theorem Clean.pathText (h : Clean p) : '\\' ∉ pathText p := by
  intro hmem
  rcases List.mem_cons.mp hmem with he | hmem
  · simp at he
  · obtain ⟨text, ht, hc⟩ := mem_join hmem (by simp)
    obtain ⟨name, hn, rfl⟩ := List.mem_map.mp ht
    exact h name hn hc

theorem folded_pathText (h : Clean p) (hne : p ≠ []) :
    folded u (pathText p) = join '/' (u.fold [] :: foldNames u p) := by
  have htext : pathText p = join '/' ([] :: p.map FileName.text) := by
    have hcons := join_append (c := '/') (a := [[]]) (List.cons_ne_nil _ _)
      (mt List.map_eq_nil_iff.mp hne : p.map FileName.text ≠ [])
    simpa [join, List.intercalate_singleton, pathText] using hcons.symm
  rw [folded_clean h.pathText, htext, u.fold_componentwise.map_join (List.cons_ne_nil _ _)]
  simp [foldNames, Function.comp_def]

theorem folded_pathText_congr (hp : Clean p) (hq : Clean q) (h : foldNames u p = foldNames u q) :
    folded u (pathText p) = folded u (pathText q) := by
  by_cases hne : p = []
  · subst hne
    obtain rfl := List.map_eq_nil_iff.mp h.symm
    rfl
  · have hne' : q ≠ [] := by
      rintro rfl
      exact hne (List.map_eq_nil_iff.mp h)
    rw [folded_pathText hp hne, folded_pathText hq hne', h]

theorem foldNames_plain : ∀ name ∈ u.fold [] :: foldNames u p, '/' ∉ name := by
  rw [List.forall_mem_cons]
  refine ⟨u.fold_componentwise.not_mem [] List.not_mem_nil, fun name hn => ?_⟩
  obtain ⟨file, -, rfl⟩ := List.mem_map.mp hn
  exact u.fold_componentwise.not_mem _ file.plain

theorem folded_eq_iff (hp : Clean p) (hq : Clean q) (hne : p ≠ []) (hne' : q ≠ []) :
    folded u (pathText p) = folded u (pathText q) ↔ foldNames u p = foldNames u q := by
  rw [folded_pathText hp hne, folded_pathText hq hne',
    join_inj foldNames_plain foldNames_plain (List.cons_ne_nil _ _) (List.cons_ne_nil _ _),
    List.cons_inj_right]

theorem folded_below_iff (hp : Clean p) (hq : Clean q) (hne : p ≠ []) (hne' : q ≠ []) :
    folded u (pathText p) ++ ['/'] <+: folded u (pathText q) ↔
      foldNames u p <+: foldNames u q ∧ foldNames u p ≠ foldNames u q := by
  rw [folded_pathText hp hne, folded_pathText hq hne',
    join_below_iff foldNames_plain foldNames_plain (List.cons_ne_nil _ _) (List.cons_ne_nil _ _),
    List.prefix_cons_inj, ne_eq, List.cons_inj_right]

-- One of the two is at or below the other.
def Comparable (u : Unicode) (p q : Resolved) : Prop :=
  foldNames u p <+: foldNames u q ∨ foldNames u q <+: foldNames u p

theorem pathsOverlap_iff (hp : Clean p) (hq : Clean q) (hne : p ≠ []) (hne' : q ≠ []) :
    pathsOverlap (folded u (pathText p)) (folded u (pathText q)) = true ↔ Comparable u p q := by
  rw [pathsOverlap, Bool.or_eq_true, Bool.or_eq_true, decide_eq_true_iff, decide_eq_true_iff,
    decide_eq_true_iff, folded_eq_iff hp hq hne hne', folded_below_iff hq hp hne' hne,
    folded_below_iff hp hq hne hne', Comparable]
  constructor
  · rintro ((heq | ⟨hbelow, -⟩) | ⟨habove, -⟩)
    · exact .inl (heq ▸ List.prefix_rfl)
    · exact .inr hbelow
    · exact .inl habove
  · intro h
    by_cases heq : foldNames u p = foldNames u q
    · exact .inl (.inl heq)
    · rcases h with habove | hbelow
      · exact .inr ⟨habove, heq⟩
      · exact .inl (.inr ⟨hbelow, Ne.symm heq⟩)

theorem Comparable.symm (h : Comparable u p q) : Comparable u q p := Or.symm h

theorem foldNames_append : foldNames u (p ++ q) = foldNames u p ++ foldNames u q := List.map_append

theorem foldNames_above : foldNames u p <+: foldNames u (p ++ q) := by
  rw [foldNames_append]
  exact List.prefix_append _ _

end Fold

end VeStorage.ADrive.ShareArtifacts
