import VeStorage.Tos.Plan

namespace VeStorage.Tos
open Lib

def FileName (name : Text) : Prop :=
  name ≠ [] ∧ '/' ∉ name ∧ name ≠ ".".toList ∧ name ≠ "..".toList

instance (name : Text) : Decidable (FileName name) :=
  inferInstanceAs (Decidable (_ ∧ _))

-- A path below some root, as `strip_prefix` leaves it.
structure RelPath where
  names : List Text
  names_ok : ∀ name ∈ names, FileName name
deriving DecidableEq

def RelPath.text (rel : RelPath) : Text := ['/'].intercalate rel.names

def slashed (t : Text) : Text := t.map fun c => if c = '\\' then '/' else c

def applyComponent (place : List Text) (component : Text) : List Text :=
  if component = ".".toList then place
  else if component = "..".toList then place.dropLast
  else place ++ [component]

def resolvePath (base : List Text) (path : Text) : List Text :=
  (segments '/' path).foldl applyComponent (if ['/'] <+: path then [] else base)

-- `Path::components`: only a leading `.` is kept.
def pathComponents (path : Text) : Bool × List Text :=
  (decide (['/'] <+: path),
    (if (path.splitOn '/').head? = some ".".toList then [".".toList] else []) ++
      (segments '/' path).filter (· ≠ ".".toList))

theorem intercalate_append {names rest : List Text} (hn : names ≠ []) (hr : rest ≠ []) :
    ['/'].intercalate (names ++ rest) =
      ['/'].intercalate names ++ '/' :: ['/'].intercalate rest := by
  induction names with
  | nil => exact absurd rfl hn
  | cons n names ih =>
    by_cases he : names = []
    · subst he
      rw [List.singleton_append, List.intercalate_cons_of_ne_nil hr]
      simp
    · rw [List.cons_append, List.intercalate_cons_of_ne_nil (by simp [he]), ih he,
        List.intercalate_cons_of_ne_nil he]
      simp

theorem slashed_append (a b : Text) : slashed (a ++ b) = slashed a ++ slashed b := List.map_append

theorem RelPath.segments_text (rel : RelPath) : segments '/' rel.text = rel.names := by
  by_cases hn : rel.names = []
  · simp [RelPath.text, hn]
  · have hsplit : rel.text.splitOn '/' = rel.names :=
      List.splitOn_intercalate '/' (fun n hm => (rel.names_ok n hm).2.1) hn
    rw [segments, hsplit, List.filter_eq_self]
    intro n hm
    simpa using (rel.names_ok n hm).1

theorem RelPath.text_relative (rel : RelPath) : ¬ ['/'] <+: rel.text := by
  rintro ⟨r, hr⟩
  have hcons : rel.text = '/' :: r := hr.symm
  by_cases hn : rel.names = []
  · rw [RelPath.text, hn] at hcons
    simp at hcons
  · have hsplit : rel.text.splitOn '/' = rel.names :=
      List.splitOn_intercalate '/' (fun n hm => (rel.names_ok n hm).2.1) hn
    rw [hcons, List.splitOn_cons_eq_if_modifyHead] at hsplit
    simp only [beq_self_eq_true, if_true] at hsplit
    exact (rel.names_ok [] (hsplit ▸ List.mem_cons_self ..)).1 rfl

theorem RelPath.components (rel : RelPath) : pathComponents rel.text = (false, rel.names) := by
  have hfilter : rel.names.filter (· ≠ ".".toList) = rel.names := by
    rw [List.filter_eq_self]
    intro n hm
    simpa using (rel.names_ok n hm).2.2.1
  have hhead : (rel.text.splitOn '/').head? ≠ some ".".toList := by
    by_cases hn : rel.names = []
    · rw [RelPath.text, hn]
      decide
    · have hsplit : rel.text.splitOn '/' = rel.names :=
        List.splitOn_intercalate '/' (fun n hm => (rel.names_ok n hm).2.1) hn
      rw [hsplit]
      intro h
      exact (rel.names_ok _ (List.mem_of_mem_head? h)).2.2.1 rfl
  simp only [pathComponents, rel.segments_text, hfilter, if_neg hhead, List.nil_append,
    decide_eq_false rel.text_relative]

theorem foldl_applyComponent (base names : List Text) (h : ∀ name ∈ names, FileName name) :
    names.foldl applyComponent base = base ++ names := by
  induction names generalizing base with
  | nil => simp
  | cons n names ih =>
    have hn := h n (List.mem_cons_self ..)
    rw [List.foldl_cons, applyComponent, if_neg hn.2.2.1, if_neg hn.2.2.2,
      ih _ fun m hm => h m (List.mem_cons_of_mem _ hm)]
    simp

theorem RelPath.resolve (rel : RelPath) (base : List Text) :
    resolvePath base rel.text = base ++ rel.names := by
  rw [resolvePath, if_neg rel.text_relative, rel.segments_text]
  exact foldl_applyComponent base rel.names rel.names_ok

theorem resolvePath_pathJoin {rel : Text} (h : ¬ ['/'] <+: rel) (cwd : List Text) (base : Text) :
    resolvePath cwd (pathJoin base rel) = resolvePath (resolvePath cwd base) rel := by
  unfold pathJoin
  rw [if_neg h]
  split
  · rename_i hb
    rcases hb with rfl | ⟨b, rfl⟩
    · simp [resolvePath]
    · have hsplit : segments '/' (b ++ ['/'] ++ rel) =
          segments '/' (b ++ ['/']) ++ segments '/' rel := by
        have h1 := segments_append '/' b rel
        have h2 := segments_append '/' b []
        rw [segments_nil, List.append_nil] at h2
        rw [List.append_assoc, List.singleton_append, h1, h2]
      have hroot : (['/'] <+: b ++ ['/'] ++ rel) ↔ (['/'] <+: b ++ ['/']) := by
        cases b <;> simp
      rw [resolvePath, hsplit, List.foldl_append]
      simp only [resolvePath, hroot, if_neg h]
  · rename_i hb
    have hne : base ≠ [] := fun he => hb (.inl he)
    have hroot : (['/'] <+: base ++ '/' :: rel) ↔ (['/'] <+: base) := by
      cases base with
      | nil => exact absurd rfl hne
      | cons c cs => simp
    rw [resolvePath, segments_append, List.foldl_append]
    simp only [resolvePath, hroot, if_neg h]

theorem RelPath.resolve_join (rel : RelPath) (cwd : List Text) (base : Text) :
    resolvePath cwd (pathJoin base rel.text) = resolvePath cwd base ++ rel.names := by
  rw [resolvePath_pathJoin rel.text_relative, rel.resolve]

end VeStorage.Tos
