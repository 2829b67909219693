import VeStorage.ADrive.Share.Roots

namespace VeStorage.ADrive.Share
open Lib
open Lib.Crash (seq_eq_ok pure_eq_ok)

variable {u : Unicode} {mapping : MappingIndex} {p q r x l : Text} {isDirectory : Bool}

-- What `retain_parents` keeps of the folders it climbs: their local paths.
inductive Climb (u : Unicode) (mapping : MappingIndex) : List Text → List Text → Prop
  | top : Climb u mapping [] []
  | stop (current : Text) (rest : List Text) (hroot : mapping.root u (current ++ ['/']) = none) :
      Climb u mapping (current :: rest) []
  | skip (current : Text) (rest locals : List Text) (hroot : mapping.root u (current ++ ['/']) ≠ none)
      (hlocal : mapping.localPath u (current ++ ['/']) = .ok []) (h : Climb u mapping rest locals) :
      Climb u mapping (current :: rest) locals
  | keep (current : Text) (rest : List Text) (mapped : Text) (locals : List Text)
      (hroot : mapping.root u (current ++ ['/']) ≠ none)
      (hlocal : mapping.localPath u (current ++ ['/']) = .ok mapped) (hne : mapped ≠ [])
      (h : Climb u mapping rest locals) : Climb u mapping (current :: rest) (mapped :: locals)

namespace Climb

theorem stopped {cs : List Text} (h : ∀ c ∈ cs, mapping.root u (c ++ ['/']) = none) :
    Climb u mapping cs [] := by
  cases cs with
  | nil => exact .top
  | cons c rest => exact .stop c rest (h c List.mem_cons_self)

theorem through {cs rest locals : List Text} {g f : Text → Text}
    (h : ∀ c ∈ cs, mapping.root u (g c ++ ['/']) ≠ none ∧
      mapping.localPath u (g c ++ ['/']) = .ok (f c) ∧ f c ≠ [])
    (hr : Climb u mapping rest locals) : Climb u mapping (cs.map g ++ rest) (cs.map f ++ locals) := by
  induction cs with
  | nil => exact hr
  | cons c cs ih =>
    rw [List.forall_mem_cons] at h
    obtain ⟨⟨hroot, hlocal, hne⟩, hcs⟩ := h
    exact .keep _ _ _ _ hroot hlocal hne (ih hcs)

theorem above (h : ∀ c rest, p = c ++ '/' :: rest → mapping.root u (c ++ ['/']) = none) :
    Climb u mapping (localParents p false) [] := by
  refine stopped fun c hc => ?_
  obtain ⟨rest, hrest⟩ := mem_ancestors_false.mp ((List.takeWhile_sublist _).subset hc)
  exact h c rest hrest

-- At the root itself; what lies above it is not climbed.
theorem atRoot (ho : mapping.Ordinary) (h : mapping.Highest (q ++ ['/'])) (hq : q ≠ [])
    (hlocal : mapping.localPath u (q ++ ['/']) = .ok l) :
    Climb u mapping (localParents q true) (if l = [] then [] else [l]) := by
  have hroot : mapping.root u (q ++ ['/']) ≠ none := by
    rw [root_highest ho h List.prefix_rfl]
    exact Option.some_ne_none _
  have habove : Climb u mapping (localParents q false) [] := by
    refine above fun c rest hrest => root_above ho h ⟨rest ++ ['/'], by simp [hrest]⟩ fun heq => ?_
    have hlength := congrArg List.length heq
    simp [hrest] at hlength
  rw [localParents_self hq]
  split
  next hl =>
    subst hl
    exact .skip _ _ _ hroot hlocal habove
  next hl => exact .keep _ _ _ _ hroot hlocal hl habove

end Climb

-- The folders that one path keeps: all local ancestors, or none when only a bare root is listed.
def Climbs (u : Unicode) (mapping : MappingIndex) (p l : Text) (isDirectory : Bool) : Prop :=
  ∃ locals, Climb u mapping (localParents (trimEnd '/' p) isDirectory) locals ∧
    (locals = localParents l isDirectory ∨ (isDirectory = true ∧ locals = []))

theorem localParents_plain (h : '/' ∉ l) (hne : l ≠ []) : localParents l true = [l] ∧
    localParents l false = [] := by
  have hself := localParents_self hne
  have hfalse : localParents l false = [] := by
    rw [localParents_eq, (ancestors_plain h).2]
    rfl
  exact ⟨by rw [hself, hfalse], hfalse⟩

theorem under_valid (h : validateRelative u (mapping.under r x) = .ok ()) (hx : x ≠ []) :
    validateRelative u x = .ok () ∧
      (mapping.under r [] = [] ∨ validateRelative u (mapping.under r []) = .ok ()) := by
  rw [MappingIndex.under] at h ⊢
  split at h
  next hinclude =>
    rw [if_pos hinclude, if_pos rfl]
    exact ⟨(valid_split h).2, .inr (valid_split h).1⟩
  next hexclude =>
    rw [if_neg hexclude]
    exact ⟨h, .inl rfl⟩

theorem under_ancestor (h : validateRelative u (mapping.under r x) = .ok ()) (hx : x ≠ [])
    {y : Text} (hy : y ∈ ancestors x isDirectory) : validateRelative u (mapping.under r y) = .ok () := by
  have hvalid := (under_valid h hx).1
  have hne := valid_ne_nil (valid_ancestor hvalid hy)
  have hmem : y = x ∨ ∃ rest, x = y ++ '/' :: rest := by
    cases isDirectory with
    | true => exact mem_ancestors_true.mp hy
    | false => exact .inr (mem_ancestors_false.mp hy)
  rcases hmem with rfl | ⟨rest, rfl⟩
  · exact h
  · rw [MappingIndex.under] at h ⊢
    split at h
    next hinclude =>
      rw [if_pos hinclude, if_neg hne]
      have hshift : rootName r ++ '/' :: (y ++ '/' :: rest) = (rootName r ++ '/' :: y) ++ '/' :: rest := by
        simp
      rw [hshift] at h
      exact (valid_split h).1
    next hexclude =>
      rw [if_neg hexclude]
      exact (valid_split h).1

theorem localParents_under (h : validateRelative u (mapping.under r x) = .ok ()) (hx : x ≠ []) :
    localParents (mapping.under r x) isDirectory = (ancestors x isDirectory).map (mapping.under r) ++
      (if mapping.under r [] = [] then [] else [mapping.under r []]) := by
  have hvalid := (under_valid h hx).1
  have hne : ∀ y ∈ ancestors x isDirectory, y ≠ [] :=
    fun y hy => valid_ne_nil (valid_ancestor hvalid hy)
  rw [MappingIndex.under] at h
  split at h
  next hinclude =>
    have hname := valid_ne_nil (valid_split h).1
    have hunder : mapping.under r [] = rootName r := by simp [MappingIndex.under, hinclude]
    have htext : mapping.under r x = rootName r ++ '/' :: x := by
      simp [MappingIndex.under, hinclude, hx]
    rw [hunder, if_neg hname, htext, localParents_append,
      (localParents_plain (rootName_plain r) hname).1]
    congr 1
    refine List.map_congr_left fun y hy => ?_
    simp [MappingIndex.under, hinclude, hne y hy]
  next hexclude =>
    have hunder : mapping.under r = id := by
      funext y
      simp [MappingIndex.under, hexclude]
    rw [hunder, id_eq, id_eq, if_pos rfl, List.map_id, List.append_nil, localParents_valid hvalid]

theorem climbs_inside (ho : mapping.Ordinary) (h : mapping.Highest r) (hr : r ≠ ['/'])
    (hx : trimEnd '/' x ≠ []) (hlocal : mapping.localPath u (r ++ x) = .ok l) :
    Climbs u mapping (r ++ x) l isDirectory := by
  rw [localPath_under ho h hr, checked_eq_ok] at hlocal
  obtain ⟨rfl, hvalid⟩ := hlocal
  have hvalid : validateRelative u (mapping.under r (trimEnd '/' x)) = .ok () := by
    refine hvalid.resolve_left fun he => ?_
    rw [MappingIndex.under] at he
    split at he
    · simp at he
    · exact hx he
  obtain ⟨hx', hroot⟩ := under_valid hvalid hx
  obtain ⟨q, rfl⟩ := h.folder
  have hq : q ≠ [] := by
    rintro rfl
    exact hr rfl
  have htrim : trimEnd '/' (q ++ ['/'] ++ x) = q ++ '/' :: trimEnd '/' x := by
    rw [trimEnd_append hx]
    simp
  refine ⟨_, ?_, .inl (localParents_under hvalid hx).symm⟩
  rw [htrim, localParents_append]
  refine Climb.through (fun y hy => ⟨?_, ?_, valid_ne_nil (under_ancestor hvalid hx hy)⟩) ?_
  · rw [root_highest ho h ⟨y ++ ['/'], by simp⟩]
    exact Option.some_ne_none _
  · have htext : q ++ '/' :: y ++ ['/'] = q ++ ['/'] ++ (y ++ ['/']) := by simp
    have hy' := valid_ancestor hx' hy
    rw [htext, localPath_under ho h hr, trimEnd_append_self, valid_trimEnd hy', checked_eq_ok]
    exact ⟨rfl, .inr (under_ancestor hvalid hx hy)⟩
  · refine Climb.atRoot ho h hq ?_
    have hself := localPath_under (u := u) ho h hr []
    rw [List.append_nil] at hself
    rw [hself, checked_eq_ok]
    exact ⟨rfl, hroot⟩

theorem localParents_name (h : '/' ∉ l) : localParents l false = [] := by
  by_cases hl : l = []
  · rw [hl, localParents_nil]
  · exact (localParents_plain h hl).2

theorem climbs_bare (ho : mapping.Ordinary) (h : mapping.Highest r) (hr : r ≠ ['/'])
    (hx : trimEnd '/' x = []) (hd : isDirectory = true → l ≠ [])
    (hlocal : mapping.localPath u (r ++ x) = .ok l) : Climbs u mapping (r ++ x) l isDirectory := by
  rw [localPath_under ho h hr, hx, checked_eq_ok] at hlocal
  obtain ⟨hunder, hvalid⟩ := hlocal
  have hplain : '/' ∉ l := by
    rw [← hunder, MappingIndex.under]
    split
    · rw [if_pos rfl]
      exact rootName_plain r
    · exact List.not_mem_nil
  obtain ⟨n, hn⟩ := exists_trimEnd '/' r
  obtain ⟨k, rfl⟩ : ∃ k, n = k + 1 := by
    refine Nat.exists_eq_succ_of_ne_zero fun hzero => ?_
    obtain ⟨init, hinit⟩ := h.folder
    rw [hzero, List.replicate_zero, List.append_nil, ← hinit] at hn
    exact trimEnd_ne_append '/' (init ++ ['/']) init hn.symm
  have hbelow : trimEnd '/' r ++ ['/'] <+: r := ⟨List.replicate k '/', by
    conv_rhs => rw [hn]
    simp [List.replicate_succ]⟩
  rw [Climbs, trimEnd_append_nil hx]
  cases isDirectory with
  | false =>
    refine ⟨[], Climb.above fun c rest hrest => ?_, .inl (localParents_name hplain).symm⟩
    refine root_above ho h ⟨rest ++ List.replicate (k + 1) '/', ?_⟩ fun heq => ?_
    · conv_rhs => rw [hn, hrest]
      simp
    · have hshort := congrArg List.length heq
      have hlong := congrArg List.length hn
      rw [hrest] at hlong
      simp only [List.length_append, List.length_cons, List.length_nil, List.length_replicate]
        at hshort hlong
      omega
  | true =>
    have hl := hd rfl
    have ht : trimEnd '/' r ≠ [] := by
      intro he
      apply hl
      rw [← hunder, MappingIndex.under, if_pos rfl, rootName, he]
      simp
    by_cases hone : trimEnd '/' r ++ ['/'] = r
    · have hself := localPath_under (u := u) ho h hr []
      rw [List.append_nil] at hself
      have hroot : mapping.localPath u (trimEnd '/' r ++ ['/']) = .ok l := by
        rw [hone, hself, checked_eq_ok]
        exact ⟨hunder, hvalid⟩
      refine ⟨_, Climb.atRoot ho (hone.symm ▸ h) ht hroot, .inl ?_⟩
      rw [if_neg hl, (localParents_plain hplain hl).1]
    · refine ⟨[], ?_, .inr ⟨rfl, rfl⟩⟩
      rw [localParents_self ht]
      exact .stop _ _ (root_above ho h hbelow hone)

theorem climbs_exact (ho : mapping.Ordinary) (hmem : p ∈ mapping.roots)
    (hroot : mapping.root u p = some p)
    (hfree : ∀ q, q <+: p → ['/'] <:+ q → q ∉ mapping.roots) (hd : isDirectory = true → l ≠ [])
    (hlocal : mapping.localPath u p = .ok l) : Climbs u mapping p l isDirectory := by
  have hfolder : ¬ ['/'] <:+ p := fun hf => hfree p List.prefix_rfl hf hmem
  rw [localPath_exact hroot hfolder, checked_eq_ok] at hlocal
  obtain ⟨rfl, hvalid⟩ := hlocal
  have htrim : trimEnd '/' p = p := trimEnd_of_getLast_ne fun rest he => hfolder ⟨rest, he.symm⟩
  have habove : Climb u mapping (localParents p false) [] := by
    refine Climb.above fun c rest hrest => root_none ho fun q hq => hfree q (hq.trans ?_)
    exact ⟨rest, by simp [hrest]⟩
  rw [Climbs, htrim]
  cases isDirectory with
  | false => exact ⟨[], habove, .inl (localParents_name (rootName_plain p)).symm⟩
  | true =>
    have hl := hd rfl
    have hp : p ≠ [] := by
      rintro rfl
      exact hl rfl
    by_cases hsame : p ++ ['/'] ∈ mapping.roots
    · have hhigh : mapping.Highest (p ++ ['/']) := by
        refine ⟨List.suffix_append _ _, hsame, fun q hq hqp hqmem => ?_⟩
        rcases List.prefix_concat_iff.mp hqp with heq | hqp
        · exact heq
        · exact absurd hqmem (hfree q hqp hq)
      have hne : p ++ ['/'] ≠ ['/'] := by simpa using hp
      have hself := localPath_under (u := u) ho hhigh hne []
      rw [List.append_nil] at hself
      have hname : rootName (p ++ ['/']) = rootName p := by
        rw [rootName, trimEnd_append_self, ← rootName]
      by_cases hinclude : mapping.policy.includesParent = true
      · refine ⟨_, Climb.atRoot (l := rootName p) ho hhigh hp ?_, .inl ?_⟩
        · rw [hself, checked_eq_ok]
          simpa [MappingIndex.under, hinclude, hname] using hvalid
        · rw [if_neg hl, (localParents_plain (rootName_plain p) hl).1]
      · refine ⟨_, Climb.atRoot (l := []) ho hhigh hp ?_, .inr ⟨rfl, rfl⟩⟩
        rw [hself, checked_eq_ok]
        simp [MappingIndex.under, hinclude]
    · refine ⟨[], ?_, .inr ⟨rfl, rfl⟩⟩
      rw [localParents_self hp]
      refine .stop _ _ (root_none ho fun q hqp hq hqmem => ?_)
      rcases List.prefix_concat_iff.mp hqp with rfl | hqp
      · exact hsame hqmem
      · exact hfree q hqp hq hqmem

-- A mapping of the whole Space.
structure MappingIndex.WholeSpace (mapping : MappingIndex) : Prop where
  policy : mapping.policy.isSpaceRoot = true
  mem : ['/'] ∈ mapping.roots
  only : ∀ r ∈ mapping.roots, r = ['/']

theorem space_root (h : mapping.WholeSpace) (hp : validateRelative u (stripSlash p) = .ok ()) :
    mapping.root u p = some ['/'] := by
  rw [MappingIndex.root, if_pos]
  simp [h.policy, h.mem, hp, isOk]

theorem space_localPath (h : mapping.WholeSpace) (hp : validateRelative u (stripSlash p) = .ok ()) :
    mapping.localPath u p = .ok (stripSlash p) := by
  have hne : p ≠ ['/'] := by
    rintro rfl
    exact valid_ne_nil hp rfl
  rw [MappingIndex.localPath, space_root h hp]
  dsimp only
  rw [if_pos rfl, if_neg hne, seq_eq_ok]
  exact ⟨hp, rfl⟩

theorem root_mem (h : mapping.root u p = some r) : r ∈ mapping.roots := by
  rw [MappingIndex.root] at h
  split at h
  next hspace =>
    simp only [Bool.and_eq_true, decide_eq_true_eq] at hspace
    exact Option.some.inj h ▸ hspace.1.2
  next =>
    change (mapping.search p).or _ = some r at h
    cases hs : mapping.search p with
    | some r' =>
      rw [hs, Option.some_or] at h
      exact Option.some.inj h ▸ (search_eq_some hs).1.mem
    | none =>
      rw [hs, Option.none_or] at h
      split at h
      next hmem => exact Option.some.inj h ▸ hmem
      next => cases h

theorem slash_local_cases (hroot : mapping.root u p = some ['/'])
    (hlocal : mapping.localPath u p = .ok l) :
    (p = ['/'] ∧ l = []) ∨ (validateRelative u (stripSlash p) = .ok () ∧ l = stripSlash p) := by
  rw [MappingIndex.localPath, hroot] at hlocal
  dsimp only at hlocal
  rw [if_pos rfl] at hlocal
  split at hlocal
  next hp => exact .inl ⟨hp, (Except.ok.inj hlocal).symm⟩
  next =>
    rw [seq_eq_ok, pure_eq_ok] at hlocal
    exact .inr ⟨hlocal.1, hlocal.2.symm⟩

theorem climbs_slash : Climbs u mapping ['/'] [] isDirectory := by
  have htrim : trimEnd '/' ['/'] = [] := by simp [trimEnd]
  refine ⟨[], ?_, .inl (localParents_nil _).symm⟩
  rw [htrim, localParents_nil]
  exact .top

theorem stripSlash_append (p : Text) : stripSlash (p ++ ['/']) = p := by
  rw [stripSlash, if_pos (List.suffix_append _ _), List.dropLast_concat]

theorem climbs_space (h : mapping.WholeSpace) (hlocal : mapping.localPath u p = .ok l) :
    Climbs u mapping p l isDirectory := by
  have hroot : mapping.root u p = some ['/'] := by
    cases hroot : mapping.root u p with
    | none => simp [MappingIndex.localPath, hroot] at hlocal
    | some r => rw [h.only r (root_mem hroot)]
  rcases slash_local_cases hroot hlocal with ⟨rfl, rfl⟩ | ⟨hvalid, rfl⟩
  · exact climbs_slash
  · have htrim : trimEnd '/' p = stripSlash p := by
      rw [stripSlash]
      split
      next hs =>
        obtain ⟨init, rfl⟩ := hs
        rw [stripSlash_append] at hvalid
        rw [trimEnd_append_self, List.dropLast_concat, valid_trimEnd hvalid]
      next hs => exact trimEnd_of_getLast_ne fun rest he => hs ⟨rest, he.symm⟩
    refine ⟨localParents (stripSlash p) isDirectory, ?_, .inl rfl⟩
    rw [htrim, localParents_valid hvalid]
    have hrooted : ∀ c ∈ ancestors (stripSlash p) isDirectory,
        mapping.root u (id c ++ ['/']) ≠ none ∧
          mapping.localPath u (id c ++ ['/']) = .ok (id c) ∧ id c ≠ [] := by
      intro c hc
      have hc' := valid_ancestor hvalid hc
      have hfolder := hc'
      rw [← stripSlash_append c] at hfolder
      refine ⟨?_, ?_, valid_ne_nil hc'⟩
      · rw [id_eq, space_root h hfolder]
        exact Option.some_ne_none _
      · rw [id_eq, space_localPath h hfolder, stripSlash_append]
    simpa using Climb.through hrooted .top

theorem slash_invalid (x : Text) : validateRelative u ('/' :: x) ≠ .ok () := fun h =>
  valid_ne_nil (valid_split (p := []) h).1 rfl

theorem stripSlash_invalid (x : Text) : validateRelative u (stripSlash (['/'] ++ x)) ≠ .ok () := by
  rcases List.eq_nil_or_concat x with rfl | ⟨init, last, rfl⟩
  · exact fun h => valid_ne_nil h rfl
  · rw [stripSlash, List.concat_eq_append, ← List.append_assoc]
    split
    · rw [List.dropLast_concat]
      exact slash_invalid init
    · exact slash_invalid (init ++ [last])

-- Where the projection and its check agree: the Space root is the only root that has it.
def MappingIndex.Declared (mapping : MappingIndex) : Prop :=
  mapping.policy.isSpaceRoot = true → ['/'] ∈ mapping.roots → ∀ r ∈ mapping.roots, r = ['/']

theorem climbs_local (h : mapping.Declared) (hd : isDirectory = true → l ≠ [])
    (hlocal : mapping.localPath u p = .ok l) : Climbs u mapping p l isDirectory := by
  by_cases ho : mapping.Ordinary
  · cases hroot : mapping.root u p with
    | none => simp [MappingIndex.localPath, hroot] at hlocal
    | some r =>
      rcases root_cases ho hroot with ⟨hhigh, x, rfl⟩ | ⟨rfl, hmem, hfree⟩
      · by_cases hr : r = ['/']
        · subst hr
          rcases slash_local_cases hroot hlocal with ⟨hp, rfl⟩ | ⟨hvalid, -⟩
          · rw [hp]
            exact climbs_slash
          · exact absurd hvalid (stripSlash_invalid x)
        · by_cases hx : trimEnd '/' x = []
          · exact climbs_bare ho hhigh hr hx hd hlocal
          · exact climbs_inside ho hhigh hr hx hlocal
      · exact climbs_exact ho hmem hroot hfree hd hlocal
  · rw [MappingIndex.Ordinary, Classical.not_imp, not_not] at ho
    exact climbs_space ⟨ho.1, ho.2, h ho.1 ho.2⟩ hlocal

end VeStorage.ADrive.Share
