import VeStorage.Tos.Move.Machine
import VeStorage.Tos.Move.ManifestSafe

namespace VeStorage.Tos.Move
open Lib CopyDelete

variable {W L E P C : Type} [DecidableEq P]

structure StreamRefines (ops : StreamOps W L E P) (view : W → P → Option C)
    (place : TransferPlanItem → Transfer P) (items : Set (Transfer P)) (s0 : P → Option C)
    (good : W → Prop) : Prop extends Refines ops.toOps view place items s0 good where
  present_iff : ∀ {w p}, good w → (ops.present w p ↔ view w p ≠ none)
  listed_present : ∀ {w e}, good w → ops.listed w e → ops.present w (ops.listedPlace e)
  select_src : ∀ {e item}, ops.select e = .ok (some item) → ops.inScope (ops.listedPlace e) →
    (place item).src = ops.listedPlace e
  select_items : ∀ {e item}, ops.select e = .ok (some item) → ops.inScope (ops.listedPlace e) →
    s0 (ops.listedPlace e) ≠ none → place item ∈ items
  items_scope : ∀ {t}, t ∈ items → s0 t.src ≠ none ∧ ops.inScope t.src
  items_select : ∀ {t e r}, t ∈ items → ops.listedPlace e = t.src → ops.select e = .ok r →
    ∃ item, r = some item ∧ place item = t
  fresh : ∀ {t e item}, t ∈ items → ops.inScope (ops.listedPlace e) →
    ops.select e = .ok (some item) → t.dst ≠ some (ops.listedPlace e)
  arrange_mem : ∀ {xs x}, x ∈ ops.arrange xs → x ∈ xs
  root : ∀ {uri act w w' ok copied}, ops.root = some (uri, act) → good w →
    CopyDelete.Inv items s0 (view w) copied → items ⊆ copied → act w w' ok →
    good w' ∧ ∃ copied', copied ⊆ copied' ∧ CopyDelete.Inv items s0 (view w') copied'
  prune : ∀ {act w w' ok}, ops.prune = some act → good w → act w w' ok →
    good w' ∧ view w' = view w

section Invariant

variable (ops : StreamOps W L E P) (view : W → P → Option C)
  (place : TransferPlanItem → Transfer P) (items : Set (Transfer P)) (s0 : P → Option C)
  (good : W → Prop)

def Found (seen : List E) (p : P) : Prop := ∃ e ∈ seen, ops.listedPlace e = p

def Accounted (copied : Set (Transfer P)) (b : Stream W L E P) (e : E) : Prop :=
  e ∈ b.fetched ∨ ∃ r, ops.select e = .ok r ∧ ∀ item, r = some item → b.failed = 0 →
    place item ∈ copied ∨ b.queued = some item ∨ item ∈ b.running.map Prod.fst

def StreamStageInv (copied : Set (Transfer P)) (b : Stream W L E P) : Prop :=
  match b.stage with
  | .streaming => ∀ e ∈ b.seen, Accounted ops place copied b e
  | .draining ok => b.queued = none ∧ b.fetched = [] ∧ (ok = true →
      (∀ e ∈ b.seen, Accounted ops place copied b e) ∧ ∀ t ∈ items, Found ops b.seen t.src)
  | .directories ok _ pending _ => (∀ x ∈ pending, x.2 = true → place x.1 ∈ copied) ∧
      (ok = true → b.failed = 0 → items ⊆ copied)
  | .closing ok => ok = true → b.failed = 0 → items ⊆ copied
  | .finished code => code = some 0 → items ⊆ copied

structure StreamInv (copied : Set (Transfer P)) (b : Stream W L E P) : Prop where
  store : CopyDelete.Inv items s0 (view b.world) copied
  good : good b.world
  found : ∀ t ∈ copied, Found ops b.seen t.src
  steady : ∀ p ∈ b.steady, view b.world p ≠ none
  cover : ∀ t ∈ items, t.src ∈ b.steady ∨ Found ops b.seen t.src
  seen : ∀ e ∈ b.seen, ops.inScope (ops.listedPlace e) ∧
    ∀ item, ops.select e = .ok (some item) → place item ∈ items
  fetched : b.fetched ⊆ b.seen
  queued : ∀ item, b.queued = some item → place item ∈ items ∧ Found ops b.seen (place item).src
  running : ∀ x ∈ b.running, place x.1 ∈ items ∧ Found ops b.seen (place x.1).src ∧
    (ops.outcome x.2 = some true → place x.1 ∈ copied)
  deleting : ∀ item, b.deleting = some item → place item ∈ copied
  deferred : ∀ x ∈ b.deferred, x.2 = true → place x.1 ∈ copied
  stage : StreamStageInv ops place items copied b

structure Settled (copied : Set (Transfer P)) (b : Stream W L E P) : Prop where
  store : CopyDelete.Inv items s0 (view b.world) copied
  good : good b.world
  settled : ¬ b.live
  stage : StreamStageInv ops place items copied b

end Invariant

section Steps

variable {ops : StreamOps W L E P} {view : W → P → Option C}
  {place : TransferPlanItem → Transfer P} {items : Set (Transfer P)} {s0 : P → Option C}
  {good : W → Prop} {copied copied' : Set (Transfer P)} {b : Stream W L E P}

omit [DecidableEq P] in
theorem Found.append {seen : List E} {p : P} (h : Found ops seen p) (more : List E) :
    Found ops (seen ++ more) p := by
  obtain ⟨e, he, hp⟩ := h
  exact ⟨e, List.mem_append_left _ he, hp⟩

omit [DecidableEq P] in
theorem Accounted.mono {b' : Stream W L E P} (hc : copied ⊆ copied')
    (hf : b'.fetched = b.fetched) (hq : b'.queued = b.queued)
    (hr : b'.running.map Prod.fst = b.running.map Prod.fst)
    (hfail : b'.failed = 0 → b.failed = 0) {e : E} (h : Accounted ops place copied b e) :
    Accounted ops place copied' b' e := by
  unfold Accounted at h ⊢
  rw [hf, hq, hr]
  refine h.imp id ?_
  rintro ⟨r, hr, ha⟩
  exact ⟨r, hr, fun item hi h0 => (ha item hi (hfail h0)).imp (@hc _) id⟩

omit [DecidableEq P] in
theorem StreamStageInv.live_mono {b' : Stream W L E P} (hc : copied ⊆ copied') (hl : b.live)
    (hst : b'.stage = b.stage) (hs : b'.seen = b.seen) (hf : b'.fetched = b.fetched)
    (hq : b'.queued = b.queued) (hr : b'.running.map Prod.fst = b.running.map Prod.fst)
    (hfail : b'.failed = 0 → b.failed = 0) (h : StreamStageInv ops place items copied b) :
    StreamStageInv ops place items copied' b' := by
  rcases hl with hl | ⟨ok, hl⟩
  · simp only [StreamStageInv, hst, hl, hs] at h ⊢
    exact fun e he => (h e he).mono hc hf hq hr hfail
  · simp only [StreamStageInv, hst, hl, hs, hq, hf] at h ⊢
    obtain ⟨hqn, hfn, hall⟩ := h
    refine ⟨hqn, hfn, fun hok => ?_⟩
    obtain ⟨hacc, hfound⟩ := hall hok
    exact ⟨fun e he => (hacc e he).mono hc hf hq hr hfail, hfound⟩

omit [DecidableEq P] in
theorem Accounted.retire {b' : Stream W L E P} {item : TransferPlanItem}
    {pre post : List (TransferPlanItem × L)} {l : L} {ok : Bool}
    (hf : b'.fetched = b.fetched) (hq : b'.queued = b.queued)
    (hr : b.running = pre ++ (item, l) :: post) (hr' : b'.running = pre ++ post)
    (hfail : b'.failed = b.failed + failedRow ok) (hc : ok = true → place item ∈ copied) {e : E}
    (h : Accounted ops place copied b e) : Accounted ops place copied b' e := by
  unfold Accounted at h ⊢
  rw [hf, hq]
  refine h.imp id ?_
  rintro ⟨r, hsel, ha⟩
  refine ⟨r, hsel, fun i hi h0 => ?_⟩
  have hok : ok = true := by
    cases ok
    · simp [failedRow, hfail] at h0
    · rfl
  have h0 : b.failed = 0 := by omega
  have hin := ha i hi h0
  rw [hr] at hin
  simp only [hr', List.map_append, List.map_cons, List.mem_append, List.mem_cons] at hin ⊢
  have hcopied : i = item → place i ∈ copied := fun he => he ▸ hc hok
  tauto

omit [DecidableEq P] in
theorem StreamStageInv.retire {b' : Stream W L E P} {item : TransferPlanItem}
    {pre post : List (TransferPlanItem × L)} {l : L} {ok : Bool} (hl : b.live)
    (hst : b'.stage = b.stage) (hs : b'.seen = b.seen)
    (hf : b'.fetched = b.fetched) (hq : b'.queued = b.queued)
    (hr : b.running = pre ++ (item, l) :: post) (hr' : b'.running = pre ++ post)
    (hfail : b'.failed = b.failed + failedRow ok) (hc : ok = true → place item ∈ copied)
    (h : StreamStageInv ops place items copied b) :
    StreamStageInv ops place items copied b' := by
  rcases hl with hl | ⟨done, hl⟩
  · simp only [StreamStageInv, hst, hl, hs] at h ⊢
    exact fun e he => (h e he).retire hf hq hr hr' hfail hc
  · simp only [StreamStageInv, hst, hl, hs, hq, hf] at h ⊢
    obtain ⟨hqn, hfn, hall⟩ := h
    refine ⟨hqn, hfn, fun hok => ?_⟩
    obtain ⟨hacc, hfound⟩ := hall hok
    exact ⟨fun e he => (hacc e he).retire hf hq hr hr' hfail hc, hfound⟩

omit [DecidableEq P] in
theorem Stream.waiting.live {limit : Nat} (h : b.waiting limit) : b.live := by
  rcases h with h | ⟨h, -⟩
  · exact .inr h
  · exact .inl h

theorem streamExitCode_zero {ok : Bool} {failed : Nat} {rf : Bool}
    (h : streamExitCode ok failed rf = some 0) : ok = true ∧ failed = 0 := by
  unfold streamExitCode exitCode at h
  split at h
  · split at h
    · cases h
    · split at h
      · exact ⟨‹_›, ‹_›⟩
      · simp at h
  · cases h

theorem drained_items (hr : StreamRefines ops view place items s0 good)
    (hinv : StreamInv ops view place items s0 good copied b) (hs : b.stage = .draining true)
    (hrun : b.running = []) (hf : b.failed = 0) : items ⊆ copied := by
  intro t ht
  have hstage := hinv.stage
  simp only [StreamStageInv, hs] at hstage
  obtain ⟨hq, hfetched, hall⟩ := hstage
  obtain ⟨hacc, hfound⟩ := hall trivial
  obtain ⟨e, he, hsrc⟩ := hfound t ht
  rcases hacc e he with h | ⟨r, hsel, h⟩
  · rw [hfetched] at h
    cases h
  · obtain ⟨item, rfl, rfl⟩ := hr.items_select ht hsrc hsel
    have := h item rfl hf
    simpa [hq, hrun] using this

theorem StreamInv.init (hr : StreamRefines ops view place items s0 good) {w0 : W}
    (hw : view w0 = s0) (hg : good w0) :
    StreamInv ops view place items s0 good ∅ (Stream.init ops.present w0) where
  store := by
    simp only [Stream.init, hw]
    exact CopyDelete.Inv.start items s0
  good := hg
  found := fun _ h => h.elim
  steady := fun p hp => (hr.present_iff hg).mp hp
  cover := fun t ht => .inl ((hr.present_iff hg).mpr (hw ▸ (hr.items_scope ht).1))
  seen := by simp [Stream.init]
  fetched := by simp [Stream.init]
  queued := by simp [Stream.init]
  running := by simp [Stream.init]
  deleting := by simp [Stream.init]
  deferred := by simp [Stream.init]
  stage := by simp [StreamStageInv, Stream.init]

theorem fetch_inv (hr : StreamRefines ops view place items s0 good)
    (hinv : StreamInv ops view place items s0 good copied b) {entries : List E}
    (hs : b.stage = .streaming) (hf : b.fetched = [])
    (h : ∀ e ∈ entries, ops.listed b.world e ∧ ops.inScope (ops.listedPlace e)) :
    StreamInv ops view place items s0 good copied
      { b with fetched := entries, seen := b.seen ++ entries } where
  store := hinv.store
  good := hinv.good
  found := fun t ht => (hinv.found t ht).append entries
  steady := hinv.steady
  cover := fun t ht => (hinv.cover t ht).imp id fun h => h.append entries
  seen := by
    intro e he
    rcases List.mem_append.mp he with he | he
    · exact hinv.seen e he
    · obtain ⟨hlisted, hscope⟩ := h e he
      refine ⟨hscope, fun item hsel => ?_⟩
      have hpres := (hr.present_iff hinv.good).mp (hr.listed_present hinv.good hlisted)
      refine hr.select_items hsel hscope (hinv.store.present_start hpres fun t ht => ?_)
      exact hr.fresh ht hscope hsel
  fetched := List.subset_append_right _ _
  queued := fun item hq => (hinv.queued item hq).imp id fun h => h.append entries
  running := fun x hx => ⟨(hinv.running x hx).1, (hinv.running x hx).2.1.append entries,
    (hinv.running x hx).2.2⟩
  deleting := hinv.deleting
  deferred := hinv.deferred
  stage := by
    have hstage := hinv.stage
    simp only [StreamStageInv, hs] at hstage ⊢
    intro e he
    rcases List.mem_append.mp he with he | he
    · rcases hstage e he with h | h
      · rw [hf] at h
        cases h
      · exact .inr h
    · exact .inl he

theorem world_inv (hinv : StreamInv ops view place items s0 good copied b) {w' : W}
    (hr : StreamRefines ops view place items s0 good) {item : TransferPlanItem}
    (hfound : Found ops b.seen (place item).src) (hsub : copied ⊆ copied')
    (hnew : ∀ t ∈ copied', t ∈ copied ∨ t.src = (place item).src) (hg : good w')
    (hst : CopyDelete.Inv items s0 (view w') copied')
    (hpres : ∀ p, p ≠ (place item).src → view b.world p ≠ none → view w' p ≠ none)
    {running : List (TransferPlanItem × L)} {deleting : Option TransferPlanItem} {failed : Nat}
    {rf : Bool}
    (hrun : ∀ x ∈ running, place x.1 ∈ items ∧ Found ops b.seen (place x.1).src ∧
      (ops.outcome x.2 = some true → place x.1 ∈ copied'))
    (hdel : ∀ item, deleting = some item → place item ∈ copied')
    (hstage : StreamStageInv ops place items copied' { b with
      world := w', steady := b.steady ∩ {p | ops.present w' p}, running := running
      deleting := deleting, failed := failed, reportingFailed := rf }) :
    StreamInv ops view place items s0 good copied' { b with
      world := w', steady := b.steady ∩ {p | ops.present w' p}, running := running
      deleting := deleting, failed := failed, reportingFailed := rf } where
  store := hst
  good := hg
  found := by
    intro t ht
    rcases hnew t ht with ht | ht
    · exact hinv.found t ht
    · exact ht ▸ hfound
  steady := fun p hp => (hr.present_iff hg).mp hp.2
  cover := by
    intro t ht
    rcases hinv.cover t ht with hs | hs
    · by_cases he : t.src = (place item).src
      · exact .inr (he ▸ hfound)
      · exact .inl ⟨hs, (hr.present_iff hg).mpr (hpres _ he (hinv.steady _ hs))⟩
    · exact .inr hs
  seen := hinv.seen
  fetched := hinv.fetched
  queued := hinv.queued
  running := hrun
  deleting := hdel
  deferred := fun x hx hf => hsub (hinv.deferred x hx hf)
  stage := hstage

theorem queue_inv (hr : StreamRefines ops view place items s0 good)
    (hinv : StreamInv ops view place items s0 good copied b) {e : E} {rest : List E}
    {item : TransferPlanItem} (hs : b.stage = .streaming) (hf : b.fetched = e :: rest)
    (hq : b.queued = none) (h : ops.select e = .ok (some item)) :
    StreamInv ops view place items s0 good copied
      { b with fetched := rest, queued := some item } where
  store := hinv.store
  good := hinv.good
  found := hinv.found
  steady := hinv.steady
  cover := hinv.cover
  seen := hinv.seen
  fetched := fun x hx => hinv.fetched (by simp [hf, hx])
  queued := by
    rintro i ⟨⟩
    have he : e ∈ b.seen := hinv.fetched (by simp [hf])
    obtain ⟨hscope, hitem⟩ := hinv.seen e he
    exact ⟨hitem item h, e, he, (hr.select_src h hscope).symm⟩
  running := hinv.running
  deleting := hinv.deleting
  deferred := hinv.deferred
  stage := by
    have hstage := hinv.stage
    simp only [StreamStageInv, hs] at hstage ⊢
    intro e' he'
    rcases hstage e' he' with hm | ⟨r, hsel, ha⟩
    · rw [hf] at hm
      rcases List.mem_cons.mp hm with rfl | hm
      · refine .inr ⟨some item, h, ?_⟩
        rintro i ⟨⟩ -
        exact .inr (.inl rfl)
      · exact .inl hm
    · refine .inr ⟨r, hsel, fun i hi h0 => ?_⟩
      have := ha i hi h0
      rw [hq] at this
      tauto

omit [DecidableEq P] in
theorem skip_inv (hinv : StreamInv ops view place items s0 good copied b) {e : E} {rest : List E}
    (hs : b.stage = .streaming) (hf : b.fetched = e :: rest) (h : ops.select e = .ok none) :
    StreamInv ops view place items s0 good copied { b with fetched := rest } := by
  refine { hinv with fetched := fun x hx => hinv.fetched (by simp [hf, hx]), stage := ?_ }
  have hstage := hinv.stage
  simp only [StreamStageInv, hs] at hstage ⊢
  intro e' he'
  rcases hstage e' he' with hm | hm
  · rw [hf] at hm
    rcases List.mem_cons.mp hm with rfl | hm
    · exact .inr ⟨none, h, by simp⟩
    · exact .inl hm
  · exact .inr hm

theorem launch_inv (hr : StreamRefines ops view place items s0 good)
    (hinv : StreamInv ops view place items s0 good copied b) {item : TransferPlanItem}
    (hs : b.stage = .streaming) (hq : b.queued = some item) :
    StreamInv ops view place items s0 good copied
      { b with queued := none, running := b.running ++ [(item, ops.start)] } := by
  refine { hinv with queued := by simp, running := ?_, stage := ?_ }
  · intro x hx
    rcases List.mem_append.mp hx with hx | hx
    · exact hinv.running x hx
    · obtain rfl := List.mem_singleton.mp hx
      obtain ⟨hi, hf⟩ := hinv.queued item hq
      exact ⟨hi, hf, fun h => absurd h hr.start⟩
  · have hstage := hinv.stage
    simp only [StreamStageInv, hs] at hstage ⊢
    intro e he
    refine (hstage e he).imp id ?_
    rintro ⟨r, hsel, ha⟩
    refine ⟨r, hsel, fun i hi h0 => ?_⟩
    have := ha i hi h0
    simp only [hq, Option.some.injEq, List.map_append, List.mem_append, List.map_cons,
      List.mem_cons] at this ⊢
    tauto

theorem work_inv (hr : StreamRefines ops view place items s0 good) (hsep : Separated items s0)
    (hinv : StreamInv ops view place items s0 good copied b) {w' : W} {item : TransferPlanItem}
    {l l' : L} {pre post : List (TransferPlanItem × L)} (hs : b.live)
    (hrun : b.running = pre ++ (item, l) :: post) (h : ops.work item b.world l w' l') :
    ∃ copied', StreamInv ops view place items s0 good copied' { b with
      world := w', steady := b.steady ∩ {p | ops.present w' p}
      running := pre ++ (item, l') :: post } := by
  obtain ⟨hi, hfound, hdone⟩ := hinv.running (item, l) (by simp [hrun])
  obtain ⟨copied', hsub, hnew, hg', hst, hpres, ho⟩ :=
    hr.work_inv hsep hi hinv.good hinv.store hdone h
  refine ⟨copied', world_inv hinv hr hfound hsub hnew hg' hst (fun p _ => hpres p) ?_ ?_ ?_⟩
  · intro x hx
    simp only [List.mem_append, List.mem_cons] at hx
    have hold : x ∈ b.running → place x.1 ∈ items ∧ Found ops b.seen (place x.1).src ∧
        (ops.outcome x.2 = some true → place x.1 ∈ copied') := fun hm =>
      ⟨(hinv.running x hm).1, (hinv.running x hm).2.1, fun h => hsub ((hinv.running x hm).2.2 h)⟩
    rcases hx with hx | rfl | hx
    · exact hold (by simp [hrun, hx])
    · exact ⟨hi, hfound, ho⟩
    · exact hold (by simp [hrun, hx])
  · exact fun i hd => hsub (hinv.deleting i hd)
  · exact hinv.stage.live_mono hsub hs rfl rfl rfl rfl (by simp [hrun]) id

theorem remove_inv (hr : StreamRefines ops view place items s0 good) (hsep : Separated items s0)
    (hinv : StreamInv ops view place items s0 good copied b) {w' : W} {item : TransferPlanItem}
    {ok lost : Bool} (hs : b.live) (hd : b.deleting = some item)
    (h : ops.remove item b.world w' ok) :
    ∃ copied', StreamInv ops view place items s0 good copied' { b with
      world := w', steady := b.steady ∩ {p | ops.present w' p}, deleting := none
      failed := b.failed + failedRow ok, reportingFailed := b.reportingFailed || lost } := by
  have hc := hinv.deleting item hd
  obtain ⟨copied', hsub, hnew, hg', hst, hpres⟩ := hr.remove_inv hsep hinv.good hinv.store hc h
  refine ⟨copied', world_inv hinv hr (hinv.found _ hc) hsub hnew hg' hst hpres ?_ (by simp) ?_⟩
  · exact fun x hx => ⟨(hinv.running x hx).1, (hinv.running x hx).2.1,
      fun h => hsub ((hinv.running x hx).2.2 h)⟩
  · exact hinv.stage.live_mono hsub hs rfl rfl rfl rfl rfl fun h => (Nat.add_eq_zero_iff.mp h).1

omit [DecidableEq P] in
theorem retire_inv (hinv : StreamInv ops view place items s0 good copied b)
    {item : TransferPlanItem} {l : L} {ok rf : Bool} {pre post : List (TransferPlanItem × L)}
    {deleting : Option TransferPlanItem} {deferred : List (TransferPlanItem × Bool)}
    (hs : b.live) (hrun : b.running = pre ++ (item, l) :: post) (ho : ops.outcome l = some ok)
    (hdel : ∀ i, deleting = some i → place i ∈ copied)
    (hdef : ∀ x ∈ deferred, x.2 = true → place x.1 ∈ copied) :
    StreamInv ops view place items s0 good copied { b with
      running := pre ++ post, deleting := deleting, deferred := deferred
      failed := b.failed + failedRow ok, reportingFailed := rf } := by
  refine { hinv with running := ?_, deleting := hdel, deferred := hdef, stage := ?_ }
  · intro x hx
    refine hinv.running x ?_
    simp only [hrun, List.mem_append, List.mem_cons] at hx ⊢
    tauto
  · refine hinv.stage.retire hs rfl rfl rfl rfl hrun rfl rfl ?_
    rintro rfl
    exact (hinv.running (item, l) (by simp [hrun])).2.2 ho

theorem drained_inv (hr : StreamRefines ops view place items s0 good)
    (hinv : StreamInv ops view place items s0 good copied b) {ok can : Bool} {root : Option Text}
    (hs : b.stage = .draining ok) (hrun : b.running = []) :
    Settled ops view place items s0 good copied
      { b with stage := .directories ok can (ops.arrange b.deferred) root } where
  store := hinv.store
  good := hinv.good
  settled := by simp [Stream.live]
  stage := by
    simp only [StreamStageInv]
    refine ⟨fun x hx => hinv.deferred x (hr.arrange_mem hx), ?_⟩
    rintro rfl h0
    exact drained_items hr hinv hs hrun h0

theorem stream_step_inv (hr : StreamRefines ops view place items s0 good)
    (hsep : Separated items s0) {limit : Nat} {b' : Stream W L E P}
    (h : StreamStep ops limit b b')
    (hinv : StreamInv ops view place items s0 good copied b ∨
      Settled ops view place items s0 good copied b) :
    ∃ copied', StreamInv ops view place items s0 good copied' b' ∨
      Settled ops view place items s0 good copied' b' := by
  have live : b.live → StreamInv ops view place items s0 good copied b := fun hl =>
    hinv.resolve_right fun h => h.settled hl
  have settled : ¬ b.live → CopyDelete.Inv items s0 (view b.world) copied ∧ good b.world ∧
      StreamStageInv ops place items copied b := by
    intro _
    rcases hinv with hi | hi
    · exact ⟨hi.store, hi.good, hi.stage⟩
    · exact ⟨hi.store, hi.good, hi.stage⟩
  cases h with
  | fetch entries hs hf hq h => exact ⟨copied, .inl (fetch_inv hr (live (.inl hs)) hs hf h)⟩
  | skip e rest hs hf hq h => exact ⟨copied, .inl (skip_inv (live (.inl hs)) hs hf h)⟩
  | queue e rest item hs hf hq h =>
    exact ⟨copied, .inl (queue_inv hr (live (.inl hs)) hs hf hq h)⟩
  | launch item hs hd hq hl => exact ⟨copied, .inl (launch_inv hr (live (.inl hs)) hs hq)⟩
  | discoveryError hs hd hq =>
    refine ⟨copied, .inl { live (.inl hs) with fetched := by simp, stage := ?_ }⟩
    exact ⟨hq, rfl, by simp⟩
  | listEnds hs hf hq hall =>
    have hi := live (.inl hs)
    refine ⟨copied, .inl { hi with stage := ?_ }⟩
    have hstage := hi.stage
    simp only [StreamStageInv, hs] at hstage ⊢
    refine ⟨hq, hf, fun _ => ⟨hstage, fun t ht => ?_⟩⟩
    rcases hi.cover t ht with h | h
    · exact hall _ h (hr.items_scope ht).2
    · exact h
  | work w' item l l' pre post hs hrun h =>
    obtain ⟨copied', hi⟩ := work_inv hr hsep (live hs) hs hrun h
    exact ⟨copied', .inl hi⟩
  | recordDeferred item l ok pre post lost hs hd hrun ho hf =>
    have hi := live hs.live
    refine ⟨copied, .inl (retire_inv hi hs.live hrun ho hi.deleting ?_)⟩
    intro x hx hok
    rcases List.mem_append.mp hx with hx | hx
    · exact hi.deferred x hx hok
    · obtain rfl := List.mem_singleton.mp hx
      exact (hi.running (item, l) (by simp [hrun])).2.2 (hok ▸ ho)
  | recordCopied item l pre post hs hd hrun ho hf hrf =>
    have hi := live hs.live
    refine ⟨copied, .inl (retire_inv hi hs.live hrun ho ?_ hi.deferred)⟩
    rintro i ⟨⟩
    exact (hi.running (item, l) (by simp [hrun])).2.2 ho
  | recordKept item l ok pre post lost hs hd hrun ho hf hrf =>
    have hi := live hs.live
    exact ⟨copied, .inl (retire_inv hi hs.live hrun ho hi.deleting hi.deferred)⟩
  | remove w' item ok lost hs hd h =>
    obtain ⟨copied', hi⟩ := remove_inv hr hsep (live hs) hs hd h
    exact ⟨copied', .inl hi⟩
  | drained ok hs hd hrun =>
    exact ⟨copied, .inr (drained_inv hr (live (.inr ⟨ok, hs⟩)) hs hrun)⟩
  | directory w' ok can item rest root done lost hs hc hrf h =>
    obtain ⟨hst, hg, hstage⟩ := settled (by simp [Stream.live, hs])
    simp only [StreamStageInv, hs] at hstage
    obtain ⟨hflag, hall⟩ := hstage
    obtain ⟨copied', hsub, -, hg', hst', -⟩ :=
      hr.remove_inv hsep hg hst (hflag _ (List.mem_cons_self ..) rfl) h
    refine ⟨copied', .inr ⟨hst', hg', by simp [Stream.live], ?_, ?_⟩⟩
    · exact fun x hx hx2 => hsub (hflag x (List.mem_cons_of_mem _ hx) hx2)
    · exact fun hok h0 => (hall hok (Nat.add_eq_zero_iff.mp h0).1).trans hsub
  | keepDirectory ok can x rest root lost hs hc =>
    obtain ⟨hst, hg, hstage⟩ := settled (by simp [Stream.live, hs])
    simp only [StreamStageInv, hs] at hstage
    refine ⟨copied, .inr ⟨hst, hg, by simp [Stream.live], ?_, hstage.2⟩⟩
    exact fun y hy => hstage.1 y (List.mem_cons_of_mem _ hy)
  | root w' ok uri act done lost hs ho hf hrf ha h =>
    obtain ⟨hst, hg, hstage⟩ := settled (by simp [Stream.live, hs])
    simp only [StreamStageInv, hs] at hstage
    obtain ⟨hg', copied', hsub, hst'⟩ := hr.root ha hg hst (hstage.2 ho hf) h
    refine ⟨copied', .inr ⟨hst', hg', by simp [Stream.live], ?_⟩⟩
    exact fun hok h0 => (hstage.2 ho hf).trans hsub
  | keepRoot ok can root lost hs hr' =>
    obtain ⟨hst, hg, hstage⟩ := settled (by simp [Stream.live, hs])
    simp only [StreamStageInv, hs] at hstage
    exact ⟨copied, .inr ⟨hst, hg, by simp [Stream.live], hstage.2⟩⟩
  | prune w' ok act done lost hs ho hrf ha h =>
    obtain ⟨hst, hg, hstage⟩ := settled (by simp [Stream.live, hs])
    simp only [StreamStageInv, hs] at hstage
    obtain ⟨hg', hv⟩ := hr.prune ha hg h
    refine ⟨copied, .inr ⟨hv ▸ hst, hg', by simp [Stream.live], fun hc => ?_⟩⟩
    exact hstage ho (streamExitCode_zero hc).2
  | finish ok lost hs hp =>
    obtain ⟨hst, hg, hstage⟩ := settled (by simp [Stream.live, hs])
    simp only [StreamStageInv, hs] at hstage
    refine ⟨copied, .inr ⟨hst, hg, by simp [Stream.live], fun hc => ?_⟩⟩
    exact hstage (streamExitCode_zero hc).1 (streamExitCode_zero hc).2

theorem stream_run_inv (hr : StreamRefines ops view place items s0 good)
    (hsep : Separated items s0) {limit : Nat} {w0 : W} (hw : view w0 = s0) (hg : good w0)
    (h : StreamRun ops limit (Stream.init ops.present w0) b) :
    ∃ copied, StreamInv ops view place items s0 good copied b ∨
      Settled ops view place items s0 good copied b := by
  induction h with
  | refl => exact ⟨∅, .inl (StreamInv.init hr hw hg)⟩
  | tail _ hs ih =>
    obtain ⟨copied, hinv⟩ := ih
    exact stream_step_inv hr hsep hs hinv

theorem stream_run_safe (hr : StreamRefines ops view place items s0 good)
    (hsep : Separated items s0) {limit : Nat} {w0 : W} (hw : view w0 = s0) (hg : good w0)
    (h : StreamRun ops limit (Stream.init ops.present w0) b) :
    Kept items s0 (view b.world) ∧ Framed items s0 (view b.world) ∧ good b.world ∧
      (b.stage = .finished (some 0) → Delivered items s0 (view b.world)) := by
  obtain ⟨copied, hinv⟩ := stream_run_inv hr hsep hw hg h
  have hst : CopyDelete.Inv items s0 (view b.world) copied := hinv.elim (·.store) (·.store)
  have hstage : StreamStageInv ops place items copied b := hinv.elim (·.stage) (·.stage)
  refine ⟨hst.kept, hst.frame, hinv.elim (·.good) (·.good), fun hfin => hst.delivered ?_⟩
  simp only [StreamStageInv, hfin] at hstage
  exact hstage trivial

end Steps

end VeStorage.Tos.Move
