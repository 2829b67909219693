import VeStorage.Tos.Download.Machine

namespace VeStorage.Tos.Download
open Lib Transfer

variable {S : Service}

def Files.Sound (S : Service) (f : Files) : Prop :=
  ∀ base : RangeBase, ∀ r ∈ partRanges base.fileSize, ∀ b, f.parts (base, r.number) = some b →
    b <+: r.slice (S.content base.etag)

def Unlinks (d : DownloadCall S) (start : Node) : Prop :=
  d.shouldSkip start = false ∧ ∃ old, start = .file old

structure Fetching (d : DownloadCall S) (start : Node) (f : Files) : Prop where
  kept : f.destination = start
  wanted : d.shouldSkip start = false

structure RangesInv (d : DownloadCall S) (f : Files) (pending : List PartRange)
    (inFlight : List (PartRange × Bool)) : Prop where
  ranged : d.useRange = true
  nodup : (pending ++ inFlight.map Prod.fst).Nodup
  planned : ∀ r ∈ pending ++ inFlight.map Prod.fst, r ∈ d.ranges
  fetched : ∀ r ∈ d.ranges, r ∉ pending → r ∉ inFlight.map Prod.fst →
    f.parts (d.part r) = some (r.slice d.content)

structure AssembleInv (d : DownloadCall S) (f : Files) (rest : List PartRange) : Prop where
  ranged : d.useRange = true
  fetched : ∀ r ∈ d.ranges, f.parts (d.part r) = some (r.slice d.content)
  assembled : ∃ copied, d.ranges = copied ++ rest ∧
    f.assembled d.base = some (copied.flatMap (·.slice d.content))

def StageInv (d : DownloadCall S) (start : Node) (x : State) : Prop :=
  match x.stage with
  | .head => x.files.destination = start
  | .get => Fetching d start x.files
  | .body => Fetching d start x.files ∧ ∃ b, x.files.partials d.pid = some b ∧ b <+: d.content
  | .ranges pending inFlight => Fetching d start x.files ∧ RangesInv d x.files pending inFlight
  | .assemble rest => Fetching d start x.files ∧ AssembleInv d x.files rest
  | .discard _ => Fetching d start x.files
  | .publish t => Fetching d start x.files ∧ x.files.temp d t = some d.content
  | .rename t => x.files.destination = .absent ∧ (start = .absent ∨ Unlinks d start) ∧
      x.files.temp d t = some d.content
  | .cleanup _ => x.files.destination = .file d.content
  | .done .ok => x.files.destination = .file d.content
  | .done .skipped => x.files.destination = start
  | .done .failed => x.files.destination = start ∨ x.files.destination = .file d.content ∨
      x.files.destination = .absent ∧ Unlinks d start

structure Inv (d : DownloadCall S) (start : Node) (x : State) : Prop where
  sound : x.files.Sound S
  stage : StageInv d start x

def AllOrNothing (d : DownloadCall S) (start : Node) (x : State) : Prop :=
  (x.files.destination = start ∨ x.files.destination = .file d.content) ∧
    (x.stage = .done .ok → x.files.destination = .file d.content)

section Facts

variable {d : DownloadCall S} {f : Files} {r : PartRange}

theorem Files.Sound.setPart (h : f.Sound S) {v : Option Bytes}
    (hv : ∀ r' ∈ d.ranges, r'.number = r.number → ∀ b, v = some b → b <+: r'.slice d.content) :
    (f.setPart d r v).Sound S := by
  intro base r' hr' b hb
  by_cases he : (base, r'.number) = d.part r
  · rw [he, setPart_parts] at hb
    simp only [DownloadCall.part, Prod.mk.injEq] at he
    obtain ⟨rfl, hnum⟩ := he
    exact hv r' hr' hnum b hb
  · rw [setPart_parts_ne _ _ _ _ he] at hb
    exact h base r' hr' b hb

theorem Files.Sound.removePart (h : f.Sound S) : (f.setPart d r none).Sound S :=
  h.setPart fun _ _ _ _ hb => nomatch hb

theorem Files.Sound.openPart (h : f.Sound S) : (f.setPart d r (some [])).Sound S := by
  refine h.setPart ?_
  rintro r' - - b ⟨⟩
  exact List.nil_prefix

theorem Files.Sound.writePart (h : f.Sound S) (hr : r ∈ d.ranges) {b : Bytes}
    (hb : b <+: r.slice d.content) : (f.setPart d r (some b)).Sound S := by
  refine h.setPart ?_
  rintro r' hr' hnum b' ⟨⟩
  rw [partRanges_number_inj hr' hr hnum]
  exact hb

theorem useRange_length (h : d.useRange = true) : d.content.length = d.expectedLength := by
  simp only [DownloadCall.useRange, Bool.and_eq_true, Option.any_eq_true] at h
  obtain ⟨-, n, hn, -⟩ := h
  simp only [DownloadCall.expectedLength, hn, Option.getD_some]
  exact (d.length_ok n hn).symm

theorem received_content {b : Bytes} (hpre : b <+: d.content)
    (hframed : d.contentLength = none → b = d.content)
    (hlength : ∀ n, d.contentLength = some n → b.length = n) : b = d.content := by
  cases hn : d.contentLength with
  | none => exact hframed hn
  | some n => exact hpre.eq_of_length ((hlength n hn).trans (d.length_ok n hn))

theorem slice_length (h : d.useRange = true) (hr : r ∈ d.ranges) :
    (r.slice d.content).length = r.size := partRange_slice_length (useRange_length h) hr

theorem Files.Sound.part_eq (h : f.Sound S) (hu : d.useRange = true) (hr : r ∈ d.ranges) {b : Bytes}
    (hb : f.parts (d.part r) = some b) (hsize : b.length = r.size) : b = r.slice d.content :=
  (h d.base r hr b hb).eq_of_length (hsize.trans (slice_length hu hr).symm)

theorem ranges_slices (h : d.useRange = true) : d.ranges.flatMap (·.slice d.content) = d.content :=
  partRanges_slices (useRange_length h)

theorem isComplete_iff {f : Files} : f.isComplete d r = true ↔
    ∃ b, f.parts (d.part r) = some b ∧ b.length = r.size := by
  simp [Files.isComplete, Option.any_eq_true]

theorem part_ne {r' : PartRange} (hr : r ∈ d.ranges) (hr' : r' ∈ d.ranges) (hne : r' ≠ r) :
    d.part r' ≠ d.part r := by
  intro he
  exact hne (partRanges_number_inj hr' hr (congrArg Prod.snd he))

end Facts

section Steps

variable {d : DownloadCall S} {start : Node} {x x' : State}

theorem StageInv.failed (h : StageInv d start x) (hd : ∀ o, x.stage ≠ .done o) :
    StageInv d start ⟨x.files, .done .failed⟩ := by
  obtain ⟨f, stage⟩ := x
  cases stage with
  | head => exact .inl h
  | get => exact .inl h.kept
  | body => exact .inl h.1.kept
  | ranges => exact .inl h.1.kept
  | assemble => exact .inl h.1.kept
  | discard => exact .inl h.kept
  | publish => exact .inl h.1.kept
  | rename =>
    obtain ⟨ha, hs, -⟩ := h
    rcases hs with rfl | hs
    · exact .inl ha
    · exact .inr (.inr ⟨ha, hs⟩)
  | cleanup => exact .inr (.inl h)
  | done o => exact absurd rfl (hd o)

theorem Fetching.congr {f f' : Files} (h : Fetching d start f)
    (hf : f'.destination = f.destination) : Fetching d start f' := ⟨hf.trans h.kept, h.wanted⟩

theorem RangesInv.skip {f : Files} {r : PartRange} {pending : List PartRange}
    {inFlight : List (PartRange × Bool)} (h : RangesInv d f (r :: pending) inFlight)
    (hr : f.parts (d.part r) = some (r.slice d.content)) : RangesInv d f pending inFlight where
  ranged := h.ranged
  nodup := (List.nodup_cons.mp h.nodup).2
  planned := fun r' hr' => h.planned r' (List.mem_cons_of_mem _ hr')
  fetched := by
    intro r' hr' hp hf
    by_cases he : r' = r
    · exact he ▸ hr
    · exact h.fetched r' hr' (by simp [he, hp]) hf

theorem RangesInv.launch {f : Files} {r : PartRange} {pending : List PartRange}
    {inFlight : List (PartRange × Bool)} (h : RangesInv d f (r :: pending) inFlight) (opened : Bool) :
    RangesInv d f pending (inFlight ++ [(r, opened)]) := by
  have hperm : (pending ++ (inFlight ++ [(r, opened)]).map Prod.fst).Perm
      (r :: pending ++ inFlight.map Prod.fst) := by
    simp only [List.map_append, List.map_cons, List.map_nil, List.cons_append]
    rw [← List.append_assoc]
    exact List.perm_append_singleton r _
  exact {
    ranged := h.ranged
    nodup := hperm.nodup_iff.mpr h.nodup
    planned := fun r' hr' => h.planned r' (hperm.mem_iff.mp hr')
    fetched := by
      intro r' hr' hp hf
      simp only [List.map_append, List.map_cons, List.map_nil, List.mem_append,
        List.mem_singleton, not_or] at hf
      exact h.fetched r' hr' (by simp [hf.2, hp]) hf.1 }

theorem RangesInv.setPart {f : Files} {r : PartRange} {pending : List PartRange}
    {before after : List (PartRange × Bool)} {opened opened' : Bool}
    (h : RangesInv d f pending (before ++ (r, opened) :: after)) (v : Option Bytes) :
    RangesInv d (f.setPart d r v) pending (before ++ (r, opened') :: after) := by
  have hmap : (before ++ (r, opened') :: after).map Prod.fst =
      (before ++ (r, opened) :: after).map Prod.fst := by simp
  have hr : r ∈ d.ranges := h.planned r (by simp)
  exact {
    ranged := h.ranged
    nodup := by rw [hmap]; exact h.nodup
    planned := by rw [hmap]; exact h.planned
    fetched := by
      rw [hmap]
      intro r' hr' hp hf
      have hne : r' ≠ r := by
        rintro rfl
        exact hf (by simp)
      rw [setPart_parts_ne _ _ _ _ (part_ne hr hr' hne)]
      exact h.fetched r' hr' hp hf }

theorem RangesInv.received {f : Files} {r : PartRange} {pending : List PartRange}
    {before after : List (PartRange × Bool)}
    (h : RangesInv d f pending (before ++ (r, true) :: after))
    (hr : f.parts (d.part r) = some (r.slice d.content)) :
    RangesInv d f pending (before ++ after) := by
  have hsub : (pending ++ (before ++ after).map Prod.fst).Sublist
      (pending ++ (before ++ (r, true) :: after).map Prod.fst) :=
    (((List.sublist_cons_self (r, true) after).append_left before).map Prod.fst).append_left pending
  exact {
    ranged := h.ranged
    nodup := h.nodup.sublist hsub
    planned := fun r' hr' => h.planned r' (hsub.subset hr')
    fetched := by
      intro r' hr' hp hf
      by_cases he : r' = r
      · exact he ▸ hr
      · refine h.fetched r' hr' hp ?_
        simp only [List.map_append, List.map_cons, List.mem_append, List.mem_cons] at hf ⊢
        tauto }

theorem step_inv (hs : Step d x x') (h : Inv d start x) : Inv d start x' := by
  obtain ⟨hsound, hst⟩ := h
  cases hs with
  | fail f stage hd => exact ⟨hsound, hst.failed hd⟩
  | skip f hskip => exact ⟨hsound, hst⟩
  | simple f hskip _ =>
    obtain rfl : f.destination = start := hst
    exact ⟨hsound, rfl, hskip⟩
  | «open» f => exact ⟨hsound, hst.congr rfl, [], setPartial_partials f d _, List.nil_prefix⟩
  | write f b chunk _ hc =>
    exact ⟨hsound, hst.1.congr rfl, b ++ chunk, setPartial_partials f d _, hc⟩
  | retry f => exact ⟨hsound, hst.1⟩
  | giveUp f stage hstage =>
    refine ⟨hsound, .inl ?_⟩
    rcases hstage with rfl | rfl
    · exact hst.kept
    · exact hst.1.kept
  | received f b hb hframed hlength _ =>
    obtain ⟨b', hb', hpre⟩ := hst.2
    obtain rfl : b' = b := Option.some.inj (hb'.symm.trans hb)
    exact ⟨hsound, hst.1, hb.trans (congrArg some (received_content hpre hframed hlength))⟩
  | ranged f f' hskip hr hstale =>
    obtain rfl : f.destination = start := hst
    have hrest : RangesInv d f' d.ranges [] := by
      refine ⟨hr, by simpa [DownloadCall.ranges] using partRanges_nodup _, by simp, ?_⟩
      exact fun r hr hp _ => absurd hr hp
    rcases hstale with rfl | ⟨b, -, -, rfl⟩
    · exact ⟨hsound, ⟨rfl, hskip⟩, hrest⟩
    · exact ⟨hsound, ⟨rfl, hskip⟩, hrest⟩
  | present f r pending inFlight _ hcomplete =>
    obtain ⟨b, hb, hsize⟩ := isComplete_iff.mp hcomplete
    have hr : r ∈ d.ranges := hst.2.planned r (by simp)
    have hbe := hsound.part_eq hst.2.ranged hr hb hsize
    exact ⟨hsound, hst.1, hst.2.skip (hbe ▸ hb)⟩
  | launch f r pending inFlight _ _ => exact ⟨hsound, hst.1, hst.2.launch false⟩
  | openPart f pending before r opened after =>
    exact ⟨hsound.openPart, hst.1.congr rfl, hst.2.setPart _⟩
  | writePart f pending before r after b chunk _ hc =>
    have hr : r ∈ d.ranges := hst.2.planned r (by simp)
    exact ⟨hsound.writePart hr hc, hst.1.congr rfl, hst.2.setPart _⟩
  | partReceived f pending before r after b hb hsize =>
    have hr : r ∈ d.ranges := hst.2.planned r (by simp)
    have hbe := hsound.part_eq hst.2.ranged hr hb hsize
    exact ⟨hsound, hst.1, hst.2.received (hbe ▸ hb)⟩
  | partFailed f pending before r opened after => exact ⟨hsound.removePart, .inl hst.1.kept⟩
  | create f =>
    refine ⟨hsound, hst.1.congr rfl, hst.2.ranged, ?_, [], rfl, by simp⟩
    exact fun r hr => hst.2.fetched r hr (by simp) (by simp)
  | append f r rest acc b ha hb =>
    obtain ⟨hfetch, hu, hfetched, copied, hsplit, hacc⟩ := hst
    have hr : r ∈ d.ranges := by simp [hsplit]
    obtain rfl := Option.some.inj (ha.symm.trans hacc)
    obtain rfl := Option.some.inj (hb.symm.trans (hfetched r hr))
    refine ⟨hsound, hfetch.congr rfl, hu, hfetched, copied ++ [r], by simp [hsplit], ?_⟩
    rw [setAssembled_assembled, List.flatMap_append, List.flatMap_singleton]
  | appendFailed f r rest acc b b' _ _ _ => exact ⟨hsound, .inl hst.1.kept⟩
  | verified f b hb _ =>
    obtain ⟨hfetch, hu, -, copied, hsplit, hacc⟩ := hst
    rw [List.append_nil] at hsplit
    rw [← hsplit, ranges_slices hu] at hacc
    exact ⟨hsound, hfetch, hacc⟩
  | mismatch f b c _ _ _ => exact ⟨hsound, hst.1⟩
  | discardPart f r rest => exact ⟨hsound.removePart, hst.congr rfl⟩
  | discarded f => exact ⟨hsound, .inl hst.kept⟩
  | unlink f temp old hold =>
    obtain ⟨hfetch, htemp⟩ := hst
    exact ⟨hsound, rfl, .inr ⟨hfetch.wanted, old, hfetch.kept.symm.trans hold⟩,
      (setDestination_temp f d _ temp).trans htemp⟩
  | vacant f temp habsent =>
    obtain ⟨hfetch, htemp⟩ := hst
    exact ⟨hsound, habsent, .inl (hfetch.kept.symm.trans habsent), htemp⟩
  | rename f temp b hb =>
    obtain rfl := Option.some.inj (hb.symm.trans hst.2.2)
    refine ⟨fun base r hr b' hb' => hsound base r hr b' (by simpa using hb'), ?_⟩
    cases temp with
    | partialFile => exact rfl
    | assembledFile => exact rfl
  | removePart f r rest => exact ⟨hsound.removePart, hst⟩
  | cleaned f => exact ⟨hsound, hst⟩

theorem run_inv {f : Files} (hf : f.Sound S) (h : Run d ⟨f, .head⟩ x) : Inv d f.destination x := by
  induction h with
  | refl => exact ⟨hf, rfl⟩
  | tail _ hs ih => exact step_inv hs ih

theorem Inv.allOrNothing (h : Inv d start x) (hg : ¬ Unlinks d start) : AllOrNothing d start x := by
  obtain ⟨f, stage⟩ := x
  have hst := h.stage
  cases stage with
  | head => exact ⟨.inl hst, nofun⟩
  | get => exact ⟨.inl hst.kept, nofun⟩
  | body => exact ⟨.inl hst.1.kept, nofun⟩
  | ranges => exact ⟨.inl hst.1.kept, nofun⟩
  | assemble => exact ⟨.inl hst.1.kept, nofun⟩
  | discard => exact ⟨.inl hst.kept, nofun⟩
  | publish => exact ⟨.inl hst.1.kept, nofun⟩
  | rename => exact ⟨.inl (hst.1.trans (hst.2.1.resolve_right hg).symm), nofun⟩
  | cleanup => exact ⟨.inr hst, nofun⟩
  | done outcome =>
    cases outcome with
    | ok => exact ⟨.inr hst, fun _ => hst⟩
    | skipped => exact ⟨.inl hst, nofun⟩
    | failed =>
      refine ⟨?_, nofun⟩
      rcases hst with hst | hst | ⟨-, hu⟩
      · exact .inl hst
      · exact .inr hst
      · exact absurd hu hg

end Steps

theorem LeftBehind.sound {f : Files} (h : LeftBehind S f) : f.Sound S := by
  induction h with
  | clean destination =>
    intro base r _ b hb
    cases hb
  | download f d x _ hr ih => exact (run_inv ih hr).sound

section Reach

variable {d : DownloadCall S} {f : Files}

-- The requests are answered and nothing fails: every call then reaches the publication.
theorem ranges_reach (pending : List PartRange) (hf : f.Sound S)
    (hinv : RangesInv d f pending []) :
    ∃ f', Run d ⟨f, .ranges pending []⟩ ⟨f', .ranges [] []⟩ ∧ f'.destination = f.destination := by
  induction pending generalizing f with
  | nil => exact ⟨f, .refl, rfl⟩
  | cons r pending ih =>
    have hr : r ∈ d.ranges := hinv.planned r (by simp)
    cases hc : f.isComplete d r with
    | true =>
      obtain ⟨b, hb, hsize⟩ := isComplete_iff.mp hc
      have hbe := hf.part_eq hinv.ranged hr hb hsize
      obtain ⟨f', hrun, hdest⟩ := ih hf (hinv.skip (hbe ▸ hb))
      exact ⟨f', .head (.present f r pending [] d.concurrency_pos hc) hrun, hdest⟩
    | false =>
      let opened := f.setPart d r (some [])
      let written := opened.setPart d r (some (r.slice d.content))
      have hlaunch : Step d ⟨f, .ranges (r :: pending) []⟩ ⟨f, .ranges pending [(r, false)]⟩ :=
        .launch f r pending [] d.concurrency_pos hc
      have hopen : Step d ⟨f, .ranges pending [(r, false)]⟩ ⟨opened, .ranges pending [(r, true)]⟩ :=
        .openPart f pending [] r false []
      have hwrite : Step d ⟨opened, .ranges pending [(r, true)]⟩
          ⟨written, .ranges pending [(r, true)]⟩ :=
        .writePart opened pending [] r [] [] (r.slice d.content) (setPart_parts f d r _)
          List.prefix_rfl
      have hparts : written.parts (d.part r) = some (r.slice d.content) := setPart_parts opened d r _
      have hdone : Step d ⟨written, .ranges pending [(r, true)]⟩ ⟨written, .ranges pending []⟩ :=
        .partReceived written pending [] r [] _ hparts (slice_length hinv.ranged hr)
      have hinv' : RangesInv d written pending [] := by
        have h0 : RangesInv d f pending ([] ++ (r, false) :: []) := hinv.launch false
        have h1 : RangesInv d opened pending ([] ++ (r, true) :: []) := h0.setPart _
        have h2 : RangesInv d written pending ([] ++ (r, true) :: []) := h1.setPart _
        exact h2.received hparts
      obtain ⟨f', hrun, hdest⟩ := ih (hf.openPart.writePart hr List.prefix_rfl) hinv'
      exact ⟨f', .head hlaunch (.head hopen (.head hwrite (.head hdone hrun))), hdest⟩

theorem assemble_reach (rest : List PartRange) (hinv : AssembleInv d f rest) :
    ∃ f', Run d ⟨f, .assemble rest⟩ ⟨f', .assemble []⟩ ∧ AssembleInv d f' [] ∧
      f'.destination = f.destination := by
  induction rest generalizing f with
  | nil => exact ⟨f, .refl, hinv, rfl⟩
  | cons r rest ih =>
    obtain ⟨hu, hfetched, copied, hsplit, hacc⟩ := hinv
    have hr : r ∈ d.ranges := by simp [hsplit]
    have happend := Step.append (d := d) f r rest _ _ hacc (hfetched r hr)
    obtain ⟨f', hrun, hinv', hdest⟩ := ih (f := f.setAssembled d
      (some (copied.flatMap (·.slice d.content) ++ r.slice d.content)))
      ⟨hu, hfetched, copied ++ [r], by simp [hsplit], by simp⟩
    exact ⟨f', .head happend hrun, hinv', hdest⟩

theorem crc_content (d : DownloadCall S) (c : Nat) (h : d.expectedCrc64 = some c) :
    S.crc64 d.content = c := (d.crc_ok c h).symm

theorem publish_reach (hf : f.Sound S) (hskip : d.shouldSkip f.destination = false) :
    ∃ f' t, Run d ⟨f, .head⟩ ⟨f', .publish t⟩ ∧ f'.destination = f.destination := by
  cases hu : d.useRange with
  | false =>
    let opened := f.setPartial d (some [])
    let written := opened.setPartial d (some d.content)
    have hopen : Step d ⟨f, .get⟩ ⟨opened, .body⟩ := .open f
    have hwrite : Step d ⟨opened, .body⟩ ⟨written, .body⟩ :=
      .write opened [] d.content (setPartial_partials f d _) List.prefix_rfl
    have hreceived : Step d ⟨written, .body⟩ ⟨written, .publish .partialFile⟩ :=
      .received written d.content (setPartial_partials opened d _) (fun _ => rfl)
        (fun n hn => (d.length_ok n hn).symm) (crc_content d)
    exact ⟨written, .partialFile,
      .head (.simple f hskip hu) (.head hopen (.head hwrite (.single hreceived))), rfl⟩
  | true =>
    have hstart : Step d ⟨f, .head⟩ ⟨f, .ranges d.ranges []⟩ := .ranged f f hskip hu (.inl rfl)
    have hinv : Inv d f.destination ⟨f, .ranges d.ranges []⟩ := step_inv hstart ⟨hf, rfl⟩
    obtain ⟨f1, hrun1, hdest1⟩ := ranges_reach d.ranges hf hinv.stage.2
    have hcreate : Step d ⟨f1, .ranges [] []⟩ ⟨f1.setAssembled d (some []), .assemble d.ranges⟩ :=
      .create f1
    have hinv1 := run_inv hf ((hrun1.head hstart).tail hcreate)
    obtain ⟨f2, hrun2, hinv2, hdest2⟩ := assemble_reach d.ranges hinv1.stage.2
    obtain ⟨hu, -, copied, hsplit, hacc⟩ := hinv2
    rw [List.append_nil] at hsplit
    rw [← hsplit, ranges_slices hu] at hacc
    have hverified : Step d ⟨f2, .assemble []⟩ ⟨f2, .publish .assembledFile⟩ :=
      .verified f2 d.content hacc (crc_content d)
    exact ⟨f2, .assembledFile, ((hrun1.head hstart).tail hcreate).trans (hrun2.tail hverified),
      hdest2.trans hdest1⟩

theorem unlinks_reach (hf : f.Sound S) (h : Unlinks d f.destination) :
    ∃ x, Run d ⟨f, .head⟩ x ∧ ¬ AllOrNothing d f.destination x := by
  obtain ⟨hskip, old, hold⟩ := h
  obtain ⟨f', t, hrun, hdest⟩ := publish_reach hf hskip
  refine ⟨_, hrun.tail (.unlink f' t old (hdest.trans hold)), fun ha => ?_⟩
  rcases ha.1 with h | h
  · rw [hold] at h
    cases h
  · cases h

end Reach

theorem download_all_or_nothing_iff {f : Files} (h : LeftBehind S f) (d : DownloadCall S) :
    (∀ x, Run d ⟨f, .head⟩ x → AllOrNothing d f.destination x) ↔ ¬ Unlinks d f.destination := by
  constructor
  · intro hall hu
    obtain ⟨x, hrun, hnot⟩ := unlinks_reach h.sound hu
    exact hnot (hall x hrun)
  · exact fun hg x hrun => (run_inv h.sound hrun).allOrNothing hg

def oneByte : Service := ⟨fun _ => [1], fun _ => 0⟩

def forceCall : DownloadCall oneByte where
  etag := "e".toList
  contentLength := some 1
  expectedCrc64 := none
  lastModified := none
  destinationModified := 0
  overwriteStrategy := .force
  checkpointEnabled := true
  checkpointThreshold := 0
  multipartConcurrency := 4
  pid := 7
  length_ok := by
    rintro n ⟨⟩
    rfl
  crc_ok := nofun
  concurrency_pos := by decide

theorem download_drops_old : ∃ x, Run forceCall ⟨Files.clean (.file [0]), .head⟩ x ∧
    ¬ AllOrNothing forceCall (.file [0]) x :=
  unlinks_reach (LeftBehind.clean (S := oneByte) (.file [0])).sound ⟨rfl, [0], rfl⟩

def twoPartSize : Nat := 20 * mebibyte + 1

def twoPartService : Service := ⟨fun _ => List.replicate twoPartSize 1, fun _ => 0⟩

theorem twoPart_length (n : Nat) (h : some twoPartSize = some n) :
    n = (twoPartService.content "e".toList).length := by
  rw [← Option.some.inj h]
  exact List.length_replicate.symm

def rangedCall : DownloadCall twoPartService where
  etag := "e".toList
  contentLength := some twoPartSize
  expectedCrc64 := none
  lastModified := none
  destinationModified := 0
  overwriteStrategy := .force
  checkpointEnabled := true
  checkpointThreshold := 1
  multipartConcurrency := 2
  pid := 7
  length_ok := twoPart_length
  crc_ok := fun c h => absurd h.symm (Option.some_ne_none c)
  concurrency_pos := Nat.two_pos

def firstRange : PartRange := ⟨1, 0, 20 * mebibyte⟩

def lastRange : PartRange := ⟨2, 20 * mebibyte, 1⟩

theorem rangedCall_ranges : rangedCall.ranges = [firstRange, lastRange] := by
  change partRanges twoPartSize = _
  decide

def emptyFiles : Files := Files.clean .absent

def firstFiles : Files := (emptyFiles.setPart rangedCall firstRange (some [])).setPart rangedCall firstRange
  (some (firstRange.slice rangedCall.content))

-- One range is there, the other has only been opened.
def leftFiles : Files := firstFiles.setPart rangedCall lastRange (some [])

theorem firstFiles_first :
    firstFiles.parts (rangedCall.part firstRange) = some (firstRange.slice rangedCall.content) :=
  setPart_parts _ _ _ _

theorem range_parts_ne : rangedCall.part firstRange ≠ rangedCall.part lastRange := fun h =>
  absurd (congrArg Prod.snd h) (by decide)

theorem firstFiles_last : firstFiles.isComplete rangedCall lastRange = false := by
  rw [Files.isComplete, firstFiles, setPart_parts_ne _ _ _ _ range_parts_ne.symm,
    setPart_parts_ne _ _ _ _ range_parts_ne.symm]
  rfl

theorem leftFiles_behind : LeftBehind twoPartService leftFiles := by
  have hfirst : firstRange ∈ rangedCall.ranges := by
    rw [rangedCall_ranges]
    exact List.mem_cons_self
  have hranged : Run rangedCall ⟨emptyFiles, .head⟩ ⟨emptyFiles, .ranges rangedCall.ranges []⟩ :=
    .single (.ranged _ _ rfl rfl (.inl rfl))
  rw [rangedCall_ranges] at hranged
  have hopened := (hranged.tail (.launch _ firstRange [lastRange] [] (by decide) rfl)).tail
    (.openPart _ [lastRange] [] firstRange false [])
  have hwritten := hopened.tail (.writePart _ [lastRange] [] firstRange [] [] _ (setPart_parts _ _ _ _)
    List.prefix_rfl)
  have hreceived := hwritten.tail (.partReceived _ [lastRange] [] firstRange [] _ firstFiles_first
    (slice_length rfl hfirst))
  have hlast := (hreceived.tail (.launch _ lastRange [] [] (by decide) firstFiles_last)).tail
    (.openPart _ [] [] lastRange false [])
  exact .download _ _ _ (.clean .absent) hlast

theorem download_all_or_nothing_resumed :
    leftFiles.parts (rangedCall.part firstRange) = some (firstRange.slice rangedCall.content) ∧
    leftFiles.parts (rangedCall.part lastRange) = some [] ∧ ¬ Unlinks rangedCall leftFiles.destination ∧
    ∀ x, Run rangedCall ⟨leftFiles, .head⟩ x → AllOrNothing rangedCall leftFiles.destination x := by
  have hvacant : ¬ Unlinks rangedCall leftFiles.destination := by
    rintro ⟨-, old, hold⟩
    cases hold
  refine ⟨?_, setPart_parts _ _ _ _, hvacant, (download_all_or_nothing_iff leftFiles_behind rangedCall).mpr hvacant⟩
  rw [leftFiles, setPart_parts_ne _ _ _ _ range_parts_ne]
  exact firstFiles_first

end VeStorage.Tos.Download
