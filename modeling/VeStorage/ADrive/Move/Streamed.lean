import VeStorage.ADrive.Move.Safe

namespace VeStorage.ADrive.Move
open Lib CopyDelete
open Lib.Folders (Asked found_of_asked)
open Tos (CliError)

variable {C : Type}

section Streaming

variable {j : Job} {s0 : Store C} {copied copied' : Set (Transfer Place)} {limit : Nat} {b b' : Stream C}
  {path dest : Text}

def Heard (seen pending : List Text) : Set Text := {dir | dir ∈ seen ∨ dir ∈ pending}

def Moved (j : Job) (copied : Set (Transfer Place)) (w : Store C) (path dest : Text) : Prop :=
  transfer j path dest ∈ copied ∧ w (j.source.place path) = none

def PhaseInv (j : Job) (copied : Set (Transfer Place)) (w : Store C) (x : (Text × Text) × Phase) : Prop :=
  match x.2 with
  | .copying => True
  | .copied => transfer j x.1.1 x.1.2 ∈ copied
  | .done copyOk deleteOk => copyOk = true → deleteOk = true → Moved j copied w x.1.1 x.1.2

def Accounted (j : Job) (copied : Set (Transfer Place)) (b : Stream C) : Prop :=
  ∀ path ∈ b.found, path ∈ b.fetched ∨ ∀ dest, j.target path = some dest → b.failed = 0 →
    Moved j copied b.world path dest ∨ (path, dest) ∈ b.running.map Prod.fst

-- A prefix that is still being scanned is asked only once its last page is there.
structure Walked (j : Job) (b : Stream C) : Prop where
  root : j.root ∈ Heard b.seen b.pending
  scan : ∀ scan, b.scan = some scan → scan.dir ∈ b.seen ∧ ∀ page ∈ scan.pages,
    (∀ path ∈ pageFiles page, path ∈ b.found) ∧ ∀ sub ∈ pageFolders page, sub ∈ Heard b.seen b.pending
  asked : ∀ dir ∈ b.seen, (∀ scan, b.scan = some scan → scan.dir ≠ dir) →
    Asked '/' b.steady {path | path ∈ b.found} (Heard b.seen b.pending) dir

def StreamStageInv (j : Job) (s0 : Store C) (copied : Set (Transfer Place)) (b : Stream C) : Prop :=
  match b.stage with
  | .listing => Walked j b ∧ Accounted j copied b
  | .draining ok => b.fetched = [] ∧ (ok = true → Accounted j copied b ∧
      ∀ path dest, Planned j s0 path dest → path ∈ b.found)
  | _ => False

structure StreamInv (j : Job) (s0 : Store C) (copied : Set (Transfer Place)) (b : Stream C) : Prop where
  store : CopyDelete.Inv (Selected j s0) s0 b.world copied
  steady : ∀ path ∈ b.steady, b.world (j.source.place path) ≠ none
  cover : ∀ path, s0 (j.source.place path) ≠ none → path ∈ b.steady ∨ path ∈ b.found
  below : ∀ dir ∈ Heard b.seen b.pending, j.root <+: dir
  found : ∀ path ∈ b.found, j.listed path ∧ s0 (j.source.place path) ≠ none
  fetched : b.fetched ⊆ b.found
  running : ∀ x ∈ b.running, Planned j s0 x.1.1 x.1.2 ∧ x.1.1 ∈ b.found ∧ PhaseInv j copied b.world x
  stage : StreamStageInv j s0 copied b

structure Settled (j : Job) (s0 : Store C) (copied : Set (Transfer Place)) (b : Stream C) : Prop where
  store : CopyDelete.Inv (Selected j s0) s0 b.world copied
  stage : match b.stage with
    | .removing => Selected j s0 ⊆ copied ∧ j.filtered = false
    | .finished code => code = some 0 → Selected j s0 ⊆ copied ∧ Gone j s0 b.world
    | _ => False

theorem StreamInv.init (j : Job) (s0 : Store C) : StreamInv j s0 ∅ (Stream.init j s0) where
  store := CopyDelete.Inv.start _ _
  steady _ hpath := hpath
  cover _ h := .inl h
  below := by
    rintro dir (hdir | hdir)
    · cases hdir
    · rw [List.mem_singleton.mp hdir]
  found := List.forall_mem_nil _
  fetched := List.nil_subset _
  running := List.forall_mem_nil _
  stage := by
    refine ⟨⟨.inr (List.mem_singleton_self _), fun scan hscan => (by cases hscan), List.forall_mem_nil _⟩,
      List.forall_mem_nil _⟩

theorem listing_stage (h : StreamInv j s0 copied b) (hs : b.stage = .listing) :
    Walked j b ∧ Accounted j copied b := by
  have hstage := h.stage
  rwa [StreamStageInv, hs] at hstage

theorem listing_stage_of (hs : b.stage = .listing) (hwalk : Walked j b) (hacc : Accounted j copied b) :
    StreamStageInv j s0 copied b := by
  rw [StreamStageInv, hs]
  exact ⟨hwalk, hacc⟩

theorem skip_inv (h : StreamInv j s0 copied b) {dir : Text} {rest : List Text} (hs : b.stage = .listing)
    (hp : b.pending = rest ++ [dir]) (hseen : dir ∈ b.seen) :
    StreamInv j s0 copied { b with pending := rest } := by
  obtain ⟨hwalk, hacc⟩ := listing_stage h hs
  have hheard : Heard b.seen rest = Heard b.seen b.pending := by
    ext d
    simp only [Heard, Set.mem_ofPred_eq, hp, List.mem_append, List.mem_singleton]
    constructor
    · rintro (hd | hd)
      · exact .inl hd
      · exact .inr (.inl hd)
    · rintro (hd | hd | rfl)
      · exact .inl hd
      · exact .inr hd
      · exact .inl hseen
  refine ⟨h.store, h.steady, h.cover, hheard ▸ h.below, h.found, h.fetched, h.running,
    listing_stage_of hs ⟨?_, ?_, ?_⟩ hacc⟩
  · rw [hheard]
    exact hwalk.root
  · rw [hheard]
    exact hwalk.scan
  · rw [hheard]
    exact hwalk.asked

theorem visit_inv (h : StreamInv j s0 copied b) {dir : Text} {rest : List Text} (hs : b.stage = .listing)
    (hscan : b.scan = none) (hp : b.pending = rest ++ [dir]) :
    StreamInv j s0 copied { b with pending := rest, seen := dir :: b.seen, scan := some ⟨dir, []⟩ } := by
  obtain ⟨hwalk, hacc⟩ := listing_stage h hs
  have hheard : Heard (dir :: b.seen) rest = Heard b.seen b.pending := by
    ext d
    simp only [Heard, Set.mem_ofPred_eq, hp, List.mem_append, List.mem_cons, List.not_mem_nil, or_false]
    tauto
  refine ⟨h.store, h.steady, h.cover, hheard ▸ h.below, h.found, h.fetched, h.running,
    listing_stage_of hs ⟨?_, ?_, ?_⟩ hacc⟩
  · rw [hheard]
    exact hwalk.root
  · rintro scan ⟨⟩
    exact ⟨List.mem_cons_self, List.forall_mem_nil _⟩
  · intro d hd hne
    rw [hheard]
    rcases List.mem_cons.mp hd with rfl | hd
    · exact absurd rfl (hne _ rfl)
    · exact hwalk.asked d hd fun scan hscan' => by rw [hscan] at hscan'; cases hscan'

theorem page_inv (hk : KeepsApart j s0) (h : StreamInv j s0 copied b) {scan : Scan} {page : ListFilesPage}
    {last : Bool} (hs : b.stage = .listing) (hscan : b.scan = some scan) (hf : b.fetched = [])
    (hpage : OnPage j b.world scan.dir page)
    (hlast : last = true → Complete b.steady scan.dir (scan.pages ++ [page])) :
    StreamInv j s0 copied { b with
      pending := b.pending ++ pageFolders page
      scan := if last then none else some ⟨scan.dir, scan.pages ++ [page]⟩
      fetched := pageFiles page, found := b.found ++ pageFiles page } := by
  obtain ⟨hwalk, hacc⟩ := listing_stage h hs
  obtain ⟨hdir, hpages⟩ := hwalk.scan scan hscan
  have hroot := h.below scan.dir (.inl hdir)
  have hmore : ∀ d ∈ Heard b.seen b.pending, d ∈ b.seen ∨ d ∈ b.pending ++ pageFolders page :=
    fun d hd => hd.imp id (List.mem_append_left _)
  have hall : ∀ page' ∈ scan.pages ++ [page], (∀ path ∈ pageFiles page', path ∈ b.found ++ pageFiles page) ∧
      ∀ sub ∈ pageFolders page', sub ∈ b.seen ∨ sub ∈ b.pending ++ pageFolders page := by
    intro page' hpage'
    rcases List.mem_append.mp hpage' with hpage' | hpage'
    · obtain ⟨hfiles, hfolders⟩ := hpages page' hpage'
      exact ⟨fun path hpath => List.mem_append_left _ (hfiles path hpath),
        fun sub hsub => hmore sub (hfolders sub hsub)⟩
    · rw [List.mem_singleton.mp hpage']
      exact ⟨fun path hpath => List.mem_append_right _ hpath, fun sub hsub => .inr (List.mem_append_right _ hsub)⟩
  refine ⟨h.store, h.steady, fun path hpath => (h.cover path hpath).imp id (List.mem_append_left _), ?_, ?_,
    List.subset_append_right _ _, fun x hx => ?_, ?_⟩
  · rintro d (hd | hd)
    · exact h.below d (.inl hd)
    · rcases List.mem_append.mp hd with hd | hd
      · exact h.below d (.inr hd)
      · exact hroot.trans (hpage.folders d hd)
  · intro path hpath
    rcases List.mem_append.mp hpath with hpath | hpath
    · exact h.found path hpath
    · obtain ⟨hpresent, hpre, hne, hend⟩ := hpage.files path hpath
      have hlisted : j.listed path := ⟨rfl, rfl, hroot.trans hpre, hne, hend⟩
      exact ⟨hlisted, h.store.present_start hpresent (hk.fresh hlisted)⟩
  · obtain ⟨hp, hfound, hphase⟩ := h.running x hx
    exact ⟨hp, List.mem_append_left _ hfound, hphase⟩
  · refine listing_stage_of hs ⟨hmore _ hwalk.root, ?_, ?_⟩ ?_
    · intro scan' hscan'
      cases last with
      | true => cases hscan'
      | false =>
        cases hscan'
        exact ⟨hdir, hall⟩
    · intro d hd hne
      by_cases he : d = scan.dir
      · subst he
        cases last with
        | true =>
          refine (hlast rfl).mono subset_rfl ?_ ?_
          · intro path hpath
            obtain ⟨page', hpage', hpath⟩ := List.mem_flatMap.mp hpath
            exact (hall page' hpage').1 path hpath
          · intro sub hsub
            obtain ⟨page', hpage', hsub⟩ := List.mem_flatMap.mp hsub
            exact (hall page' hpage').2 sub hsub
        | false => exact absurd rfl (hne ⟨scan.dir, scan.pages ++ [page]⟩ rfl)
      · refine (hwalk.asked d hd fun scan' hscan' => ?_).mono subset_rfl (fun path => List.mem_append_left _) hmore
        rw [hscan] at hscan'
        cases hscan'
        exact Ne.symm he
    · intro path hpath
      rcases List.mem_append.mp hpath with hpath | hpath
      · rcases hacc path hpath with hfetched | hdone
        · rw [hf] at hfetched
          cases hfetched
        · exact .inr hdone
      · exact .inl hpath

theorem leave_inv (h : StreamInv j s0 copied b) {rest : List Text} (hs : b.stage = .listing)
    (hf : b.fetched = path :: rest) (ht : j.target path = none) :
    StreamInv j s0 copied { b with fetched := rest } := by
  obtain ⟨⟨hroot, hscan, hasked⟩, hacc⟩ := listing_stage h hs
  refine ⟨h.store, h.steady, h.cover, h.below, h.found, fun p hp => h.fetched (hf ▸ List.mem_cons_of_mem _ hp),
    h.running, ?_⟩
  refine listing_stage_of hs ⟨hroot, hscan, hasked⟩ fun p hp => ?_
  rcases hacc p hp with hfetched | hdone
  · rw [hf] at hfetched
    rcases List.mem_cons.mp hfetched with rfl | hrest
    · exact .inr fun dest hdest => by rw [ht] at hdest; cases hdest
    · exact .inl hrest
  · exact .inr hdone

theorem queue_inv (h : StreamInv j s0 copied b) {rest : List Text} (hs : b.stage = .listing)
    (hf : b.fetched = path :: rest) (ht : j.target path = some dest) :
    StreamInv j s0 copied { b with fetched := rest, running := b.running ++ [((path, dest), .copying)] } := by
  obtain ⟨⟨hroot, hscan, hasked⟩, hacc⟩ := listing_stage h hs
  have hpath : path ∈ b.found := h.fetched (hf ▸ List.mem_cons_self)
  obtain ⟨hlisted, hpresent⟩ := h.found path hpath
  refine ⟨h.store, h.steady, h.cover, h.below, h.found, fun p hp => h.fetched (hf ▸ List.mem_cons_of_mem _ hp),
    fun x hx => ?_, ?_⟩
  · rcases List.mem_append.mp hx with hx | hx
    · exact h.running x hx
    · rw [List.mem_singleton.mp hx]
      exact ⟨⟨hlisted, hpresent, ht⟩, hpath, trivial⟩
  · refine listing_stage_of hs ⟨hroot, hscan, hasked⟩ fun p hp => ?_
    simp only [List.map_append, List.map_singleton, List.mem_append, List.mem_singleton]
    rcases hacc p hp with hfetched | hdone
    · rw [hf] at hfetched
      rcases List.mem_cons.mp hfetched with rfl | hrest
      · refine .inr fun dest' hdest' _ => .inr (.inr ?_)
        rw [Option.some.inj (ht.symm.trans hdest')]
      · exact .inl hrest
    · exact .inr fun dest' hdest' hf0 => (hdone dest' hdest' hf0).imp id .inl

theorem listEnds_inv (h : StreamInv j s0 copied b) (hs : b.stage = .listing) (hscan : b.scan = none)
    (hf : b.fetched = []) (hp : b.pending = []) : StreamInv j s0 copied { b with stage := .draining true } := by
  obtain ⟨hwalk, hacc⟩ := listing_stage h hs
  refine ⟨h.store, h.steady, h.cover, h.below, h.found, h.fetched, h.running, hf, fun _ => ⟨hacc, ?_⟩⟩
  have hheard : Heard b.seen b.pending ⊆ {dir | dir ∈ b.seen} := by
    rintro dir (hdir | hdir)
    · exact hdir
    · rw [hp] at hdir
      cases hdir
  intro path dest hplanned
  rcases h.cover path hplanned.present with hsteady | hfound
  · refine @found_of_asked '/' j.root path b.steady {path | path ∈ b.found} {dir | dir ∈ b.seen}
      (hheard hwalk.root) (fun dir hdir => ?_) hsteady hplanned.listed.2.2.1
    refine (hwalk.asked dir hdir fun scan hscan' => ?_).mono subset_rfl subset_rfl hheard
    rw [hscan] at hscan'
    cases hscan'
  · exact hfound

theorem Moved.mono {w w' : Store C} (hsub : copied ⊆ copied') (hnone : ∀ p, w p = none → w' p = none)
    (h : Moved j copied w path dest) : Moved j copied' w' path dest := ⟨hsub h.1, hnone _ h.2⟩

-- The places where a request can undo nothing that counts as moved.
structure Carried (j : Job) (s0 : Store C) (copied copied' : Set (Transfer Place)) (b : Stream C) (w' : Store C)
    (running' : List ((Text × Text) × Phase)) : Prop where
  subset : copied ⊆ copied'
  store : CopyDelete.Inv (Selected j s0) s0 w' copied'
  moved : ∀ path dest, Planned j s0 path dest → Moved j copied b.world path dest → Moved j copied' w' path dest
  steady : ∀ path ∈ b.steady, w' (j.source.place path) ≠ none ∨ path ∈ b.found
  items : running'.map Prod.fst = b.running.map Prod.fst
  running : ∀ x ∈ running', Planned j s0 x.1.1 x.1.2 ∧ x.1.1 ∈ b.found ∧ PhaseInv j copied' w' x

theorem Carried.inv {w' : Store C} {running' : List ((Text × Text) × Phase)}
    (hc : Carried j s0 copied copied' b w' running') (hlive : b.live) (h : StreamInv j s0 copied b) :
    StreamInv j s0 copied' { b with world := w', steady := b.steady ∩ Present j w', running := running' } := by
  have hacc : Accounted j copied b → Accounted j copied'
      { b with world := w', steady := b.steady ∩ Present j w', running := running' } := by
    intro hacc path hpath
    refine (hacc path hpath).imp id fun hdone dest hdest hf => ?_
    obtain ⟨hlisted, hpresent⟩ := h.found path hpath
    refine (hdone dest hdest hf).imp (hc.moved path dest ⟨hlisted, hpresent, hdest⟩) fun hr => ?_
    rw [hc.items]
    exact hr
  refine ⟨hc.store, fun path hpath => hpath.2, fun path hpath => ?_, h.below, h.found, h.fetched, hc.running, ?_⟩
  · rcases h.cover path hpath with hsteady | hfound
    · exact (hc.steady path hsteady).imp (fun hne => ⟨hsteady, hne⟩) id
    · exact .inr hfound
  · rcases hlive with hs | ⟨ok, hs⟩
    · obtain ⟨⟨hroot, hscan, hasked⟩, hall⟩ := listing_stage h hs
      refine listing_stage_of hs ⟨hroot, hscan, fun dir hdir hne => ?_⟩ (hacc hall)
      exact (hasked dir hdir hne).mono Set.inter_subset_left subset_rfl subset_rfl
    · have hstage := h.stage
      rw [StreamStageInv, hs] at hstage
      rw [StreamStageInv]
      simp only [hs]
      exact ⟨hstage.1, fun hok => (hstage.2 hok).imp (fun ha => by simpa only [hs] using hacc ha) id⟩

theorem phaseInv_mono {w w' : Store C} (hsub : copied ⊆ copied') {x : (Text × Text) × Phase}
    (hmoved : Moved j copied w x.1.1 x.1.2 → Moved j copied' w' x.1.1 x.1.2) (h : PhaseInv j copied w x) :
    PhaseInv j copied' w' x := by
  obtain ⟨item, phase⟩ := x
  cases phase with
  | copying => trivial
  | copied => exact hsub h
  | done copyOk deleteOk => exact fun hc hd => hmoved (h hc hd)

theorem running_replaced {pre post : List ((Text × Text) × Phase)} {phase phase' : Phase} {w' : Store C}
    (h : StreamInv j s0 copied b) (hr : b.running = pre ++ ((path, dest), phase) :: post) (hsub : copied ⊆ copied')
    (hmoved : ∀ path dest, Planned j s0 path dest → Moved j copied b.world path dest → Moved j copied' w' path dest)
    (hphase : PhaseInv j copied' w' ((path, dest), phase')) :
    ∀ x ∈ pre ++ ((path, dest), phase') :: post,
      Planned j s0 x.1.1 x.1.2 ∧ x.1.1 ∈ b.found ∧ PhaseInv j copied' w' x := by
  have hkept : ∀ x ∈ b.running, Planned j s0 x.1.1 x.1.2 ∧ x.1.1 ∈ b.found ∧ PhaseInv j copied' w' x := by
    intro x hx
    obtain ⟨hp, hfound, hold⟩ := h.running x hx
    exact ⟨hp, hfound, phaseInv_mono hsub (hmoved _ _ hp) hold⟩
  rw [hr] at hkept
  intro x hx
  rcases List.mem_append.mp hx with hx | hx
  · exact hkept x (List.mem_append_left _ hx)
  · rcases List.mem_cons.mp hx with rfl | hx
    · obtain ⟨hp, hfound, -⟩ := hkept ((path, dest), phase) (by simp)
      exact ⟨hp, hfound, hphase⟩
    · exact hkept x (List.mem_append_right _ (List.mem_cons_of_mem _ hx))

theorem copy_inv (hk : KeepsApart j s0) (h : StreamInv j s0 copied b) {w' : Store C} {ok : Bool}
    {pre post : List ((Text × Text) × Phase)} (hlive : b.live)
    (hr : b.running = pre ++ ((path, dest), .copying) :: post) (hcopy : CopyFile j path dest b.world w' ok) :
    ∃ copied', StreamInv j s0 copied' { b with
      world := w', steady := b.steady ∩ Present j w'
      running := pre ++ ((path, dest), if ok then .copied else .done false false) :: post } := by
  obtain ⟨hp, -, -⟩ := h.running ((path, dest), .copying) (by simp [hr])
  obtain ⟨copied', hsub, hstore, hok, hsrc, hpresent⟩ := copyFile_inv hk h.store hp hcopy
  have hmoved : ∀ path dest, Planned j s0 path dest → Moved j copied b.world path dest →
      Moved j copied' w' path dest :=
    fun path dest hp' hm => ⟨hsub hm.1, (hsrc _ hp'.selected).trans hm.2⟩
  refine ⟨copied', Carried.inv ⟨hsub, hstore, hmoved, fun p hsteady => .inl (hpresent _ (h.steady p hsteady)),
    by simp [hr], running_replaced h hr hsub hmoved ?_⟩ hlive h⟩
  cases ok with
  | true => exact hok rfl
  | false => exact fun hc => absurd hc Bool.false_ne_true

theorem delete_inv (hk : KeepsApart j s0) (h : StreamInv j s0 copied b) {w' : Store C} {ok : Bool}
    {pre post : List ((Text × Text) × Phase)} (hlive : b.live)
    (hr : b.running = pre ++ ((path, dest), .copied) :: post)
    (hdelete : DeleteFile (j.source.place path) b.world w' ok) :
    ∃ copied', StreamInv j s0 copied' { b with
      world := w', steady := b.steady ∩ Present j w'
      running := pre ++ ((path, dest), .done true ok) :: post } := by
  obtain ⟨-, hfound, hc⟩ := h.running ((path, dest), .copied) (by simp [hr])
  obtain ⟨copied', hsub, hstore, hok, hnone, hother⟩ := deleteFile_inv hk h.store hc hdelete
  have hmoved : ∀ path dest, Planned j s0 path dest → Moved j copied b.world path dest →
      Moved j copied' w' path dest :=
    fun _ _ _ hm => hm.mono hsub hnone
  refine ⟨copied', Carried.inv ⟨hsub, hstore, hmoved, fun p hsteady => ?_, by simp [hr],
    running_replaced h hr hsub hmoved fun _ hd => ⟨hsub hc, hok hd⟩⟩ hlive h⟩
  by_cases he : p = path
  · exact .inr (he ▸ hfound)
  · rw [hother _ fun hplace => he (place_inj j.source hplace)]
    exact .inl (h.steady p hsteady)

theorem record_inv (h : StreamInv j s0 copied b) {item : Text × Text} {phase : Phase} {ok : Bool}
    {pre post : List ((Text × Text) × Phase)} (hs : b.waiting limit) (hr : b.running = pre ++ (item, phase) :: post)
    (ho : phase.outcome = some ok) :
    StreamInv j s0 copied { b with running := pre ++ post, failed := b.failed + failedRow ok } := by
  obtain ⟨-, -, hphase⟩ := h.running (item, phase) (by simp [hr])
  have hmoved : ok = true → Moved j copied b.world item.1 item.2 := by
    intro hok
    cases phase with
    | copying => cases ho
    | copied => cases ho
    | done copyOk deleteOk =>
      have hboth : (copyOk && deleteOk) = true := (Option.some.inj ho).trans hok
      obtain ⟨hc, hd⟩ := Bool.and_eq_true_iff.mp hboth
      exact hphase hc hd
  have hacc : Accounted j copied b →
      Accounted j copied { b with running := pre ++ post, failed := b.failed + failedRow ok } := by
    intro hacc path hpath
    refine (hacc path hpath).imp id fun hdone dest hdest hf => ?_
    obtain ⟨hf, hrow⟩ := Nat.add_eq_zero_iff.mp hf
    rcases hdone dest hdest hf with hm | hrunning
    · exact .inl hm
    · rw [hr] at hrunning
      simp only [List.map_append, List.map_cons, List.mem_append, List.mem_cons] at hrunning ⊢
      rcases hrunning with hpre | rfl | hpost
      · exact .inr (.inl hpre)
      · exact .inl (hmoved (failedRow_zero hrow))
      · exact .inr (.inr hpost)
  refine ⟨h.store, h.steady, h.cover, h.below, h.found, h.fetched, fun x hx => h.running x ?_, ?_⟩
  · rw [hr]
    rcases List.mem_append.mp hx with hx | hx
    · exact List.mem_append_left _ hx
    · exact List.mem_append_right _ (List.mem_cons_of_mem _ hx)
  · rcases hs with ⟨done, hs⟩ | ⟨hs, -⟩
    · have hstage := h.stage
      rw [StreamStageInv, hs] at hstage
      rw [StreamStageInv]
      simp only [hs]
      exact ⟨hstage.1, fun hok => (hstage.2 hok).imp (fun ha => by simpa only [hs] using hacc ha) id⟩
    · obtain ⟨⟨hroot, hscan, hasked⟩, hall⟩ := listing_stage h hs
      exact listing_stage_of hs ⟨hroot, hscan, hasked⟩ (hacc hall)

theorem drained (h : StreamInv j s0 copied b) (hs : b.stage = .draining true) (hr : b.running = [])
    (hf : b.failed = 0) : ∀ path dest, Planned j s0 path dest → Moved j copied b.world path dest := by
  have hstage := h.stage
  rw [StreamStageInv, hs] at hstage
  obtain ⟨hfetched, hall⟩ := hstage
  obtain ⟨hacc, hfound⟩ := hall rfl
  intro path dest hp
  rcases hacc path (hfound path dest hp) with hwaiting | hdone
  · rw [hfetched] at hwaiting
    cases hwaiting
  · rcases hdone dest hp.target hf with hm | hrunning
    · exact hm
    · rw [hr] at hrunning
      cases hrunning

theorem Settled.not_live (h : Settled j s0 copied b) : ¬ b.live := by
  have hstage := h.stage
  rintro (hs | ⟨ok, hs⟩) <;> rw [hs] at hstage <;> exact hstage

theorem Stream.waiting.live (h : b.waiting limit) : b.live := h.symm.imp And.left id

theorem live_step_inv (hk : KeepsApart j s0) (h : StreamInv j s0 copied b) (hstep : StreamStep j limit b b') :
    ∃ copied', StreamInv j s0 copied' b' ∨ Settled j s0 copied' b' := by
  cases hstep with
  | skip dir rest hs hscan hf hp hseen => exact ⟨copied, .inl (skip_inv h hs hp hseen)⟩
  | visit dir rest hs hscan hf hp hnew => exact ⟨copied, .inl (visit_inv h hs hscan hp)⟩
  | page scan page last hs hscan hf hpage hlast => exact ⟨copied, .inl (page_inv hk h hs hscan hf hpage hlast)⟩
  | leave path rest hs hf ht => exact ⟨copied, .inl (leave_inv h hs hf ht)⟩
  | queue path rest dest hs hf ht hl => exact ⟨copied, .inl (queue_inv h hs hf ht)⟩
  | listError hs hf =>
    exact ⟨copied, .inl ⟨h.store, h.steady, h.cover, h.below, h.found, h.fetched, h.running, hf,
      fun hok => absurd hok Bool.false_ne_true⟩⟩
  | listEnds hs hscan hf hp => exact ⟨copied, .inl (listEnds_inv h hs hscan hf hp)⟩
  | copy w' path dest ok pre post hs hr hcopy => exact (copy_inv hk h hs hr hcopy).imp fun _ => .inl
  | delete w' path dest ok pre post hs hr hdelete => exact (delete_inv hk h hs hr hdelete).imp fun _ => .inl
  | record item phase ok pre post hs hr ho => exact ⟨copied, .inl (record_inv h hs hr ho)⟩
  | beginCleanup hs hr hf hfiltered =>
    have hmoved := drained h hs hr hf
    refine ⟨copied, .inr ⟨h.store, ?_, hfiltered⟩⟩
    rintro i ⟨path, dest, hp, rfl⟩
    exact (hmoved path dest hp).1
  | finish ok lost hs hr hwhy =>
    refine ⟨copied, .inr ⟨h.store, fun hcode => ?_⟩⟩
    obtain ⟨rfl, hf⟩ := exitCode_zero hcode
    have hmoved := drained h hs hr hf
    constructor
    · rintro i ⟨path, dest, hp, rfl⟩
      exact (hmoved path dest hp).1
    · rintro i ⟨path, dest, hp, rfl⟩
      exact (hmoved path dest hp).2
  | cleanup w' ok lost hs hfolder =>
    have hstage := h.stage
    rw [StreamStageInv, hs] at hstage
    exact hstage.elim

theorem settled_step_inv (hk : KeepsApart j s0) (ha : Accepted j) (h : Settled j s0 copied b)
    (hstep : StreamStep j limit b b') : Settled j s0 copied b' := by
  have hdead := h.not_live
  cases hstep with
  | skip dir rest hs => exact absurd (.inl hs) hdead
  | visit dir rest hs => exact absurd (.inl hs) hdead
  | page scan page last hs => exact absurd (.inl hs) hdead
  | leave path rest hs => exact absurd (.inl hs) hdead
  | queue path rest dest hs => exact absurd (.inl hs) hdead
  | listError hs => exact absurd (.inl hs) hdead
  | listEnds hs => exact absurd (.inl hs) hdead
  | copy w' path dest ok pre post hs => exact absurd hs hdead
  | delete w' path dest ok pre post hs => exact absurd hs hdead
  | record item phase ok pre post hs => exact absurd hs.live hdead
  | beginCleanup hs => exact absurd (.inr ⟨_, hs⟩) hdead
  | finish ok lost hs => exact absurd (.inr ⟨_, hs⟩) hdead
  | cleanup w' ok lost hs hfolder =>
    have hstage := h.stage
    rw [hs] at hstage
    obtain ⟨hall, hfiltered⟩ := hstage
    obtain ⟨hstore, hgone⟩ := deleteFolder_inv hk ha hfiltered h.store hall hfolder
    exact ⟨hstore, fun hcode => ⟨hall, hgone (exitCode_zero hcode).1⟩⟩

theorem streamRun_inv (hk : KeepsApart j s0) (ha : Accepted j) (h : StreamRun j limit (Stream.init j s0) b) :
    ∃ copied, StreamInv j s0 copied b ∨ Settled j s0 copied b := by
  induction h with
  | refl => exact ⟨∅, .inl (StreamInv.init j s0)⟩
  | tail _ hstep ih =>
    obtain ⟨copied, hlive | hsettled⟩ := ih
    · exact live_step_inv hk hlive hstep
    · exact ⟨copied, .inr (settled_step_inv hk ha hsettled hstep)⟩

def StreamStage.code : StreamStage → Option (Option Nat)
  | .finished code => some code
  | _ => none

theorem stream_safe (h : StreamInv j s0 copied b ∨ Settled j s0 copied b) :
    MoveSafe j s0 true b.world b.stage.code := by
  have hstore : CopyDelete.Inv (Selected j s0) s0 b.world copied := h.elim StreamInv.store Settled.store
  refine ⟨hstore.kept, hstore.frame, fun hm => absurd hm.symm Bool.false_ne_true, fun hcode i hi => ?_⟩
  cases hs : b.stage with
  | finished code =>
    rw [hs] at hcode
    obtain rfl : code = some 0 := Option.some.inj hcode
    rcases h with h | h
    · have hstage := h.stage
      rw [StreamStageInv, hs] at hstage
      exact hstage.elim
    · have hstage := h.stage
      rw [hs] at hstage
      obtain ⟨hall, hgone⟩ := hstage rfl
      exact ⟨hstore.delivered hall i hi, hgone i hi⟩
  | _ =>
    rw [hs] at hcode
    cases hcode

end Streaming

section Run

variable {args : MvArgs} {j : Job} {limit : Nat} {s0 s : Store C} {code : Option (Option Nat)}

inductive MvReaches (args : MvArgs) (limit : Nat) (s0 : Store C) : Store C → Option (Option Nat) → Prop
  | rejected (e) (h : executeRecursiveMv args = .error e) : MvReaches args limit s0 s0 (some none)
  | unlisted (job) (h : executeRecursiveMv args = .ok (.copyDelete job)) (hm : args.noManifest = false) :
      MvReaches args limit s0 s0 (some none)
  | manifest (job files b) (h : executeRecursiveMv args = .ok (.copyDelete job)) (hm : args.noManifest = false)
      (hl : ListedFiles job s0 files) (hr : Run job limit files (Batch.init job files s0) b) :
      MvReaches args limit s0 b.world b.stage.code
  | streaming (job b) (h : executeRecursiveMv args = .ok (.copyDelete job)) (hm : args.noManifest = true)
      (hr : StreamRun job limit (Stream.init job s0) b) : MvReaches args limit s0 b.world b.stage.code

theorem MoveSafe.start (noManifest : Bool) (s0 : Store C) : MoveSafe j s0 noManifest s0 (some none) where
  kept _ _ := .inl rfl
  framed _ _ := rfl
  staged _ := .inl fun _ _ => rfl
  moved h := (by cases h)

theorem recursive_moves_lose_nothing (h : executeRecursiveMv args = .ok (.copyDelete j)) (hk : KeepsApart j s0)
    (hr : MvReaches args limit s0 s code) : MoveSafe j s0 args.noManifest s code := by
  have ha := executeRecursiveMv_accepted h
  cases hr with
  | rejected e he => exact MoveSafe.start _ s0
  | unlisted => exact MoveSafe.start _ s0
  | manifest j' files b h' hm hl hr =>
    obtain rfl : j' = j := MvPlan.copyDelete.inj (Except.ok.inj (h'.symm.trans h))
    obtain ⟨copied, hinv⟩ := run_inv hk ha hl hr
    rw [hm]
    exact hinv.safe
  | streaming j' b h' hm hr =>
    obtain rfl : j' = j := MvPlan.copyDelete.inj (Except.ok.inj (h'.symm.trans h))
    obtain ⟨copied, hinv⟩ := streamRun_inv hk ha hr
    rw [hm]
    exact stream_safe hinv

def sampleArgs : MvArgs := ⟨⟨"adrive://i/a/p/".toList, "adrive://i/b".toList, false, none, none⟩, false, false⟩

def sampleJob : Job where
  source := ⟨⟨"i".toList, "a".toList, "p/".toList⟩, by decide⟩
  destination := ⟨⟨"i".toList, "b".toList, []⟩, by decide⟩
  task := ⟨[], .remoteCopy ⟨⟨"i".toList, "a".toList, "p/".toList⟩, by decide⟩
    ⟨⟨"i".toList, "b".toList, []⟩, by decide⟩, none, none, none⟩

def streamedArgs : MvArgs := { sampleArgs with noManifest := true }

def firstPath : Text := "p/x".toList

def secondPath : Text := "p/y".toList

def sampleStore : Store Nat := Function.update (Function.update (fun _ => none)
  (sampleJob.source.place firstPath) (some 1)) (sampleJob.source.place secondPath) (some 2)

def sampleCopied : Store Nat := Function.update (Function.update sampleStore
  (sampleJob.destination.place "y".toList) (some 2)) (sampleJob.destination.place "x".toList) (some 1)

def sampleMoved : Store Nat := Function.update (Function.update sampleCopied
  (sampleJob.source.place firstPath) none) (sampleJob.source.place secondPath) none

theorem sample_plan : executeRecursiveMv sampleArgs = .ok (.copyDelete sampleJob) := rfl

theorem streamed_plan : executeRecursiveMv streamedArgs = .ok (.copyDelete sampleJob) := rfl

theorem sample_present {path : Text} (h : sampleStore (sampleJob.source.place path) ≠ none) :
    path = firstPath ∨ path = secondPath := by
  by_contra hne
  obtain ⟨hfirst, hsecond⟩ := not_or.mp hne
  refine h ((Function.update_of_ne (fun he => hsecond (place_inj sampleJob.source he)) _ _).trans ?_)
  exact Function.update_of_ne (fun he => hfirst (place_inj sampleJob.source he)) _ _

theorem sample_target {path dest : Text} (h : Planned sampleJob sampleStore path dest) :
    (path = firstPath ∧ dest = "x".toList) ∨ path = secondPath ∧ dest = "y".toList := by
  have htarget := h.target
  rcases sample_present h.present with rfl | rfl
  · exact .inl ⟨rfl, Option.some.inj (htarget.symm.trans (by decide))⟩
  · exact .inr ⟨rfl, Option.some.inj (htarget.symm.trans (by decide))⟩

theorem free_of_spaces (h : j.source.space ≠ j.destination.space) (dest : Text) :
    ¬ j.source.lists j.destination.inst j.destination.space dest := fun hl => h hl.2.1.symm

theorem sample_apart : KeepsApart sampleJob sampleStore where
  agree path path' dest hp hp' := by
    rcases sample_target hp with ⟨rfl, rfl⟩ | ⟨rfl, rfl⟩ <;> rcases sample_target hp' with ⟨rfl, hd⟩ | ⟨rfl, hd⟩
    · rfl
    · exact absurd hd (by decide)
    · exact absurd hd (by decide)
    · rfl
  free _ dest _ := free_of_spaces (by decide) dest
  regular path h := by
    rcases sample_present h with rfl | rfl <;> decide
  folder _ := by decide

theorem sample_listed : ListedFiles sampleJob sampleStore [firstPath, secondPath] := by
  intro path
  rw [List.mem_pair]
  constructor
  · rintro (rfl | rfl)
    · exact ⟨(by decide : sampleJob.source.lists "i".toList "a".toList firstPath), by decide⟩
    · exact ⟨(by decide : sampleJob.source.lists "i".toList "a".toList secondPath), by decide⟩
  · exact fun h => sample_present h.2

theorem sampleMoved_none {p : Place} (h : InFolder sampleJob sampleJob.cleanupFolder p) : sampleMoved p = none := by
  obtain ⟨path, rfl, -⟩ := h
  by_cases hsecond : path = secondPath
  · exact hsecond ▸ Function.update_self _ _ _
  by_cases hfirst : path = firstPath
  · rw [hfirst]
    decide
  · have hnone : sampleStore (sampleJob.source.place path) = none := by
      by_contra hp
      exact (sample_present hp).elim hfirst hsecond
    have hne : ∀ dest, sampleJob.source.place path ≠ sampleJob.destination.place dest := by
      simp [SpaceTarget.place, sampleJob]
    rw [sampleMoved, Function.update_of_ne fun he => hsecond (place_inj sampleJob.source he),
      Function.update_of_ne fun he => hfirst (place_inj sampleJob.source he), sampleCopied,
      Function.update_of_ne (hne _), Function.update_of_ne (hne _), hnone]

theorem sample_removed : DeleteFolder sampleJob sampleJob.cleanupFolder sampleCopied sampleMoved true where
  kept p := by
    by_cases hsecond : p = sampleJob.source.place secondPath
    · exact .inr ⟨hsecond ▸ Function.update_self _ _ _, hsecond ▸ ⟨secondPath, rfl, by decide⟩⟩
    by_cases hfirst : p = sampleJob.source.place firstPath
    · exact .inr ⟨by rw [hfirst]; decide, hfirst ▸ ⟨firstPath, rfl, by decide⟩⟩
    · exact .inl ((Function.update_of_ne hsecond _ _).trans (Function.update_of_ne hfirst _ _))
  removed _ _ hp := sampleMoved_none hp

-- The copies run at once, and the folder is deleted after them.
theorem sample_reaches : MvReaches sampleArgs 2 sampleStore sampleMoved (some (some 0)) := by
  refine .manifest sampleJob [firstPath, secondPath] ⟨sampleMoved, [], [], 0, .finished (some 0)⟩ sample_plan rfl
    sample_listed ?_
  refine .head (.launch _ _ _ _ _ (by decide)) ?_
  refine .head (.launch _ _ _ _ _ (by decide)) ?_
  refine .head (.copy _ _ secondPath "y".toList true _ [_] [] _ (.copied _ 2 true (by decide))) ?_
  refine .head (.copy _ _ firstPath "x".toList true _ [] [_] _ (.copied _ 1 true (by decide))) ?_
  refine .head (.record _ _ true _ [] [_] _ (.inl rfl)) ?_
  refine .head (.record _ _ true _ [] [] _ (.inl rfl)) ?_
  refine .head (.beginCleanup _ (by decide)) ?_
  exact .single (.cleanup _ _ true false sample_removed)

def samplePage : ListFilesPage := ⟨[⟨firstPath, []⟩, ⟨secondPath, []⟩], []⟩

theorem sample_onPage : OnPage sampleJob sampleStore sampleJob.root samplePage where
  files := by decide
  folders := by decide

theorem sample_complete : Complete (Present sampleJob sampleStore) sampleJob.root [samplePage] := by
  intro path hpath _
  rcases sample_present hpath with rfl | rfl
  · exact ⟨fun _ => by decide, fun hdirect => absurd hdirect (by decide)⟩
  · exact ⟨fun _ => by decide, fun hdirect => absurd hdirect (by decide)⟩

theorem streamed_reaches : MvReaches streamedArgs 2 sampleStore sampleMoved (some (some 0)) := by
  have hvisit : StreamRun sampleJob 2 (Stream.init sampleJob sampleStore) _ :=
    .single (.visit _ sampleJob.root [] rfl rfl rfl rfl List.not_mem_nil)
  have hpage := hvisit.tail (.page _ ⟨sampleJob.root, []⟩ samplePage true rfl rfl rfl sample_onPage
    fun _ => sample_complete)
  have hqueued := (hpage.tail (.queue _ firstPath [secondPath] "x".toList rfl rfl (by decide) (by decide))).tail
    (.queue _ secondPath [] "y".toList rfl rfl (by decide) (by decide))
  have hcopied := (hqueued.tail (.copy _ _ secondPath "y".toList true [_] [] (.inl rfl) rfl
    (.copied _ 2 true (by decide)))).tail
    (.copy _ _ firstPath "x".toList true [] [_] (.inl rfl) rfl (.copied _ 1 true (by decide)))
  have hdeleted := (hcopied.tail (.delete _ _ firstPath "x".toList true [] [_] (.inl rfl) rfl (.removed _ true))).tail
    (.delete _ _ secondPath "y".toList true [_] [] (.inl rfl) rfl (.removed _ true))
  have hlisted := hdeleted.tail (.listEnds _ rfl rfl rfl rfl)
  have hrecorded := (hlisted.tail (.record _ _ _ true [_] [] (.inl ⟨true, rfl⟩) rfl rfl)).tail
    (.record _ _ _ true [] [] (.inl ⟨true, rfl⟩) rfl rfl)
  have hcleaned := (hrecorded.tail (.beginCleanup _ rfl rfl rfl (by decide))).tail
    (.cleanup _ sampleMoved true false rfl ⟨fun _ => .inl rfl, fun _ _ => sampleMoved_none⟩)
  exact .streaming sampleJob _ streamed_plan rfl hcleaned

theorem recursive_moves_lose_nothing_sample :
    MoveSafe sampleJob sampleStore false sampleMoved (some (some 0)) ∧
      MoveSafe sampleJob sampleStore true sampleMoved (some (some 0)) :=
  ⟨recursive_moves_lose_nothing sample_plan sample_apart sample_reaches,
    recursive_moves_lose_nothing streamed_plan sample_apart streamed_reaches⟩

end Run

end VeStorage.ADrive.Move
