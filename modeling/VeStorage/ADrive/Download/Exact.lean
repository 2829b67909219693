import VeStorage.ADrive.Download.Trusted

namespace VeStorage.ADrive.Download
open Lib
open Tos.Transfer (PartRange)

section Idle

variable {R : Remote} {a : Args} {w w1 : World} {x x' : State}

-- A run that skips, or whose range plan is refused.
def Idle (R : Remote) (a : Args) (w : World) : Prop :=
  a.shouldSkipLocalDestination R w.destination = true ∨
    (a.records = true ∧ w.completed = true) ∨ ¬ a.Writes R

def Untouched (w1 : World) (x : State) : Prop :=
  x.world.destination = w1.destination ∧ x.world.completed = w1.completed ∧
    (x.stage = .start ∨ ∃ ok, x.stage = .done ok)

theorem Idle.not_proceeds (h : Idle R a w) (hp : a.Proceeds R w) : ¬ a.Writes R := by
  rcases h with h | h | h
  · exact absurd (hp.1.symm.trans h) nofun
  · exact absurd h hp.2
  · exact h

theorem Idle.congr (h : Idle R a w1) (hd : w.destination = w1.destination)
    (hc : w.completed = w1.completed) : Idle R a w := by
  unfold Idle
  rw [hd, hc]
  exact h

theorem idle_step (hidle : Idle R a w1) (hs : Step R a x x') (h : Untouched w1 x) :
    Untouched w1 x' := by
  obtain ⟨hd, hc, hst⟩ := h
  cases hs with
  | tick w stage n _ => exact ⟨hd, hc, hst⟩
  | fail w stage _ => exact ⟨hd, hc, .inr ⟨false, rfl⟩⟩
  | skip w _ => exact ⟨hd, hc, .inr ⟨true, rfl⟩⟩
  | skipCompleted w _ _ _ => exact ⟨hd, hc, .inr ⟨true, rfl⟩⟩
  | stream w hp hr _ => exact absurd (fun hu => by simp [hr] at hu) ((hidle.congr hd hc).not_proceeds hp)
  | simple w hp hr _ => exact absurd (fun hu => by simp [hr] at hu) ((hidle.congr hd hc).not_proceeds hp)
  | ranged w plan hp _ hplan =>
    exact absurd (fun _ => by simp [hplan]) ((hidle.congr hd hc).not_proceeds hp)
  | _ => simp at hst

theorem idle_run (hidle : Idle R a w1) (h : Run R a ⟨w1, .start⟩ x) : Untouched w1 x := by
  induction h with
  | refl => exact ⟨rfl, rfl, .inl rfl⟩
  | tail _ hs ih => exact idle_step hidle hs ih

variable {admitted : Args → Prop} {w0 : World}

theorem before_idle (h0 : ∀ a, admitted a → Idle R a w0) (h : Before R admitted w0 w) :
    w.destination = w0.destination ∧ w.completed = w0.completed := by
  induction h with
  | fresh => exact ⟨rfl, rfl⟩
  | run w a x _ ha hr ih =>
    obtain ⟨hd, hc, -⟩ := idle_run ((h0 a ha).congr ih.1 ih.2) hr
    exact ⟨hd.trans ih.1, hc.trans ih.2⟩

end Idle

section Safe

variable {R : Remote} {a : Args} {admitted : Args → Prop} {w w1 w0 : World} {x : State}
  {old : Option LocalFile}

theorem Inv.completed (h : Inv R a old w1 x) :
    x.world.completed = w1.completed ∨ (a.records = true ∧ x.world.holds R.content) := by
  obtain ⟨w, stage⟩ := x
  cases stage with
  | start => exact .inl h.begun.2
  | done ok =>
    cases ok with
    | true =>
      rcases h.ended rfl with ⟨hholds, hc | hr⟩ | ⟨-, hc, -⟩
      · exact .inl hc
      · exact .inr ⟨hr, hholds⟩
      · exact .inl hc
    | false => exact .inl h.begun
  | _ => exact .inl h.begun

theorem recorded_holds (h0 : WorldInv R old w0) (hc0 : w0.completed = false)
    (hrec : ∀ a, admitted a → a.Writes R → a.records = true) (h : Before R admitted w0 w) :
    w.completed = true → w.holds R.content := by
  induction h with
  | fresh => exact fun hc => by simp [hc0] at hc
  | run w a x hb ha hr ih =>
    intro hx
    cases hc : w.completed with
    | true =>
      have hidle : Idle R a w := by
        by_cases hwrites : a.Writes R
        · exact .inr (.inl ⟨hrec a ha hwrites, hc⟩)
        · exact .inr (.inr hwrites)
      exact holds_congr (idle_run hidle hr).1 (ih hc)
    | false =>
      rcases (run_inv (hb.inv h0) hr).completed with he | ⟨-, hholds⟩
      · simp [he, hc] at hx
      · exact hholds

theorem never_recorded (h0 : WorldInv R old w0) (hc0 : w0.completed = false)
    (hrec : ∀ a, admitted a → a.Writes R → a.records = false) (h : Before R admitted w0 w) :
    w.completed = false := by
  induction h with
  | fresh => exact hc0
  | run w a x hb ha hr ih =>
    by_cases hwrites : a.Writes R
    · rcases (run_inv (hb.inv h0) hr).completed with he | ⟨hrecords, -⟩
      · exact he.trans ih
      · simp [hrec a ha hwrites] at hrecords
    · exact ((idle_run (.inr (.inr hwrites)) hr).2.1).trans ih

theorem skip_present {d : Option LocalFile} (h : a.shouldSkipLocalDestination R d = true) :
    d ≠ none := by
  rintro rfl
  simp [Args.shouldSkipLocalDestination] at h

theorem force_not_skip (h : a.overwriteStrategy = .force) (d : Option LocalFile) :
    a.shouldSkipLocalDestination R d = false := by
  cases d with
  | none => rfl
  | some f => simp [Args.shouldSkipLocalDestination, h]

theorem holds_empty (hw : WorldInv R none w) (hR : R.content = []) (hd : w.destination ≠ none) :
    w.holds R.content := by
  obtain ⟨f, hf⟩ := Option.ne_none_iff_exists'.mp hd
  rcases hw.destination f hf with hpre | ⟨f0, h0, -⟩
  · rw [hR, List.prefix_nil] at hpre
    exact ⟨f.modified, by rw [hR, ← hpre]; exact hf⟩
  · cases h0

theorem success_of_trusted {clock : Nat} (hcond : Trusted R admitted none) {w' : World}
    (hb : Before R admitted (World.fresh none clock) w) (ha : admitted a)
    (hr : Run R a ⟨w, .start⟩ ⟨w', .done true⟩) : w'.holds R.content := by
  have h0 := fresh_inv R none clock
  have hw := hb.inv h0
  have hend : Ended R a w w' := (run_inv hw hr).ended rfl
  rcases hend with ⟨hholds, -⟩ | ⟨hd, -, hskip⟩
  · exact hholds
  rcases hcond with hempty | hwrites | ⟨hforce, hrec⟩
  · refine holds_congr hd (holds_empty hw hempty ?_)
    rcases hskip with hskip | ⟨-, hc⟩
    · exact skip_present hskip
    · exact hw.marked hc
  · obtain ⟨hdest, hcomp⟩ := before_idle (fun a ha => .inr (.inr (hwrites a ha))) hb
    rcases hskip with hskip | ⟨-, hc⟩
    · exact absurd hdest (skip_present hskip)
    · exact absurd (hcomp.symm.trans hc) nofun
  · rcases hskip with hskip | ⟨-, hc⟩
    · rw [force_not_skip (hforce a ha)] at hskip
      cases hskip
    · rcases hrec with hrec | hrec
      · exact holds_congr hd (recorded_holds h0 rfl hrec hb hc)
      · exact absurd ((never_recorded h0 rfl hrec hb).symm.trans hc) nofun

theorem existing_of_trusted {f : LocalFile} {clock : Nat} (hcond : Trusted R admitted (some f))
    (hb : Before R admitted (World.fresh (some f) clock) w) :
    w.holds f.bytes ∨ w.holds R.content := by
  rcases hcond with hskip | hpre
  · have hidle : ∀ a, admitted a → Idle R a (World.fresh (some f) clock) := by
      intro a ha
      by_cases hwrites : a.Writes R
      · exact .inl (hskip a ha hwrites)
      · exact .inr (.inr hwrites)
    exact .inl ⟨f.modified, (before_idle hidle hb).1⟩
  · have hw := hb.inv (fresh_inv R (some f) clock)
    obtain ⟨g, hg⟩ := Option.ne_none_iff_exists'.mp (hw.kept (Option.some_ne_none f))
    rcases hw.destination g hg with h | ⟨f0, hf0, he⟩
    · rcases hpre g.bytes h with he | he
      · exact .inl ⟨g.modified, he ▸ hg⟩
      · exact .inr ⟨g.modified, he ▸ hg⟩
    · obtain rfl := Option.some.inj hf0
      exact .inl ⟨g.modified, he ▸ hg⟩

end Safe

section Reach

variable {R : Remote} {a : Args} {old : Option LocalFile} {w w1 : World}

structure Same (w w' : World) : Prop where
  destination : w'.destination = w.destination
  completed : w'.completed = w.completed
  clock : w'.clock = w.clock

theorem Same.trans {w w' w'' : World} (h : Same w w') (h' : Same w' w'') : Same w w'' :=
  ⟨h'.destination.trans h.destination, h'.completed.trans h.completed, h'.clock.trans h.clock⟩

theorem ranges_reach (pending : List PartRange) (hr : ∀ r ∈ pending, r ∈ R.ranges) (w : World) :
    ∃ w', Run R a ⟨w, .ranges pending []⟩ ⟨w', .ranges [] []⟩ ∧ Same w w' := by
  induction pending generalizing w with
  | nil => exact ⟨w, .refl, rfl, rfl, rfl⟩
  | cons r pending ih =>
    have hrest : ∀ r' ∈ pending, r' ∈ R.ranges := fun r' h => hr r' (List.mem_cons_of_mem _ h)
    cases hp : isPresent w r with
    | true =>
      obtain ⟨w', hrun, hsame⟩ := ih hrest w
      exact ⟨w', .head (.present w r pending [] a.concurrency_pos hp) hrun, hsame⟩
    | false =>
      let w2 := w.setPart r (some [])
      let w3 := w2.setPart r (some ([] ++ r.slice R.content))
      have hlaunch : Step R a ⟨w, .ranges (r :: pending) []⟩ ⟨w, .ranges pending ([] ++ (r, false) :: [])⟩ :=
        .launch w r pending [] a.concurrency_pos hp
      have hopen : Step R a ⟨w, .ranges pending ([] ++ (r, false) :: [])⟩
          ⟨w2, .ranges pending ([] ++ (r, true) :: [])⟩ := .openPart w pending [] r false []
      have hwrite : Step R a ⟨w2, .ranges pending ([] ++ (r, true) :: [])⟩
          ⟨w3, .ranges pending ([] ++ (r, true) :: [])⟩ :=
        .writePart w2 pending [] r [] [] (r.slice R.content) (setPart_self w r (some [])) (List.prefix_refl _)
      have hreceive : Step R a ⟨w3, .ranges pending ([] ++ (r, true) :: [])⟩ ⟨w3, .ranges pending []⟩ :=
        .partReceived w3 pending [] r [] (r.slice R.content) (setPart_self w2 r _)
          (slice_length (hr r (List.mem_cons_self ..)))
      obtain ⟨w', hrun, hsame⟩ := ih hrest w3
      have hsame3 : Same w w3 := ⟨rfl, rfl, rfl⟩
      exact ⟨w', .head hlaunch (.head hopen (.head hwrite (.head hreceive hrun))), hsame3.trans hsame⟩

-- Whatever prefix of the remaining parts is wanted, the copy passes through it.
theorem copy_reach (rest : List PartRange) (w : World) (acc b : Bytes)
    (hparts : ∀ r ∈ rest, PartDone R w r) (hd : w.destination = some ⟨acc, w.clock⟩)
    (hb : b <+: rest.flatMap (·.slice R.content)) :
    ∃ x, Run R a ⟨w, .assemble rest⟩ x ∧ x.world.destination = some ⟨acc ++ b, w.clock⟩ ∧
      x.world.completed = w.completed := by
  induction rest generalizing w acc b with
  | nil =>
    rw [List.flatMap_nil, List.prefix_nil] at hb
    subst hb
    exact ⟨_, .refl, by rw [List.append_nil]; exact hd, rfl⟩
  | cons r rest ih =>
    rw [List.flatMap_cons] at hb
    have hopen : Step R a ⟨w, .assemble (r :: rest)⟩ ⟨w, .copying (r.slice R.content) rest⟩ :=
      .openInput w r rest _ (hparts r (List.mem_cons_self ..))
    rcases List.prefix_or_prefix_of_prefix hb (List.prefix_append _ _) with ⟨left, hleft⟩ | ⟨b', rfl⟩
    · rw [← hleft] at hopen
      exact ⟨_, .head hopen (.single (.copy w acc b left rest ⟨_, hd⟩)), rfl, rfl⟩
    · have hcopy : Step R a ⟨w, .copying (r.slice R.content ++ []) rest⟩
          ⟨w.append acc (r.slice R.content), .copying [] rest⟩ := .copy w acc _ [] rest ⟨_, hd⟩
      rw [List.append_nil] at hcopy
      obtain ⟨x, hrun, hdest, hcomp⟩ := ih (w.append acc (r.slice R.content)) _ b'
        (fun r' h => hparts r' (List.mem_cons_of_mem _ h)) rfl ((List.prefix_append_right_inj _).mp hb)
      refine ⟨x, .head hopen (.head hcopy (.head (.copied _ rest) hrun)), ?_, hcomp⟩
      rw [hdest, List.append_assoc]
      rfl

theorem hash_content (R : Remote) : R.HashOk R.content := R.hash_ok.imp_right Eq.symm

theorem writes_plan (hw : a.Writes R) (hu : a.useRange R = true) : rangePlan R.size = some R.ranges := by
  obtain ⟨plan, hplan⟩ := Option.isSome_iff_exists.mp (hw hu)
  rw [hplan, rangePlan_eq hplan]

theorem assemble_start (hw : WorldInv R old w1) (hp : a.Proceeds R w1) (hwrites : a.Writes R)
    (hu : a.useRange R = true) :
    ∃ w, Run R a ⟨w1, .start⟩ ⟨w.create, .assemble R.ranges⟩ ∧ Same w1 w ∧
      ∀ r ∈ R.ranges, PartDone R w.create r := by
  have hbegin : Run R a ⟨w1, .start⟩ ⟨w1, .ranges R.ranges []⟩ :=
    .single (.ranged w1 R.ranges hp hu (writes_plan hwrites hu))
  obtain ⟨w, hranges, hsame⟩ := ranges_reach R.ranges (fun _ h => h) w1
  have hrun := (hbegin.trans hranges).tail (.create w)
  have hprogress : Progress R w.create (.assemble R.ranges) := (run_inv hw hrun).progress
  exact ⟨w, hrun, hsame, hprogress.1⟩

-- A run that proceeds can be stopped with any prefix of the content at the destination.
theorem prefix_reach (hw : WorldInv R old w1) (hp : a.Proceeds R w1) (hwrites : a.Writes R)
    {b : Bytes} (hb : b <+: R.content) :
    ∃ x, Run R a ⟨w1, .start⟩ x ∧ x.world.destination = some ⟨b, w1.clock⟩ ∧
      x.world.completed = w1.completed := by
  cases hu : a.useRange R with
  | true =>
    obtain ⟨w, hrun, hsame, hparts⟩ := assemble_start hw hp hwrites hu
    rw [← flatMap_slices R] at hb
    obtain ⟨x, hcopy, hdest, hcomp⟩ := copy_reach R.ranges w.create [] b hparts rfl hb
    refine ⟨x, hrun.trans hcopy, ?_, hcomp.trans hsame.completed⟩
    rw [hdest, List.nil_append, ← hsame.clock]
    rfl
  | false =>
    cases hbatch : a.batch with
    | false =>
      have hstart : Run R a ⟨w1, .start⟩ ⟨w1, .get⟩ := .single (.stream w1 hp hu hbatch)
      have hwrite := (hstart.tail (.open w1)).tail (.write w1.create [] b (create_holds w1) hb)
      exact ⟨_, hwrite, rfl, rfl⟩
    | true =>
      obtain ⟨left, hleft⟩ := hb
      have hstart : Run R a ⟨w1, .start⟩ ⟨w1, .fetch⟩ := .single (.simple w1 hp hu hbatch)
      have hcreate := hstart.tail (.buffered w1 R.content (List.prefix_refl _) rfl (hash_content R))
      rw [← hleft] at hcreate
      exact ⟨_, hcreate.tail (.writeBuffer w1.create [] b left (create_holds w1)), rfl, rfl⟩

theorem assemble_reach (rest : List PartRange) (w : World) (acc : Bytes)
    (hparts : ∀ r ∈ rest, PartDone R w r) (hd : w.holds acc) :
    ∃ w', Run R a ⟨w, .assemble rest⟩ ⟨w', .assemble []⟩ ∧ w'.completed = w.completed := by
  induction rest generalizing w acc with
  | nil => exact ⟨w, .refl, rfl⟩
  | cons r rest ih =>
    have hopen : Step R a ⟨w, .assemble (r :: rest)⟩ ⟨w, .copying (r.slice R.content ++ []) rest⟩ := by
      rw [List.append_nil]
      exact .openInput w r rest _ (hparts r (List.mem_cons_self ..))
    have hcopy := Step.copy (R := R) (a := a) w acc (r.slice R.content) [] rest hd
    obtain ⟨w', hrun, hcomp⟩ := ih (w.append acc (r.slice R.content)) _
      (fun r' h => hparts r' (List.mem_cons_of_mem _ h)) (append_holds w acc _)
    exact ⟨w', .head hopen (.head hcopy (.head (.copied _ rest) hrun)), hcomp⟩

theorem cleanup_reach (rest : List PartRange) (w : World) :
    ∃ w', Run R a ⟨w, .cleanup rest⟩ ⟨w', .cleanup []⟩ := by
  induction rest generalizing w with
  | nil => exact ⟨w, .refl⟩
  | cons r rest ih =>
    obtain ⟨w', hrun⟩ := ih (w.setPart r none)
    exact ⟨w', .head (.removePart w r rest) hrun⟩

theorem finished_reach (hw : WorldInv R old w1) (hp : a.Proceeds R w1) (hwrites : a.Writes R) :
    ∃ w, Run R a ⟨w1, .start⟩ ⟨w, .finished⟩ := by
  cases hu : a.useRange R with
  | true =>
    obtain ⟨w, hrun, -, hparts⟩ := assemble_start hw hp hwrites hu
    obtain ⟨w2, hassemble, -⟩ := assemble_reach (a := a) R.ranges w.create [] hparts (create_holds w)
    obtain ⟨w3, hcleanup⟩ := cleanup_reach (R := R) (a := a) R.ranges w2
    have hverify := (((hrun.trans hassemble).tail (.assembled w2)).trans hcleanup).tail (.cleaned w3)
    have hholds : w3.holds R.content := (run_inv hw hverify).progress
    exact ⟨w3, hverify.tail (.verified w3 _ hholds (hash_content R))⟩
  | false =>
    cases hbatch : a.batch with
    | false =>
      have hstart : Run R a ⟨w1, .start⟩ ⟨w1, .get⟩ := .single (.stream w1 hp hu hbatch)
      have hwrite := (hstart.tail (.open w1)).tail
        (.write w1.create [] R.content (create_holds w1) (List.prefix_refl _))
      exact ⟨_, hwrite.tail (.received _ R.content ⟨w1.clock, rfl⟩ rfl (hash_content R))⟩
    | true =>
      have hstart : Run R a ⟨w1, .start⟩ ⟨w1, .fetch⟩ := .single (.simple w1 hp hu hbatch)
      have hcreate := hstart.tail (.buffered w1 R.content (List.prefix_refl _) rfl (hash_content R))
      rw [← List.append_nil R.content] at hcreate
      have hwrite := hcreate.tail (.writeBuffer w1.create [] R.content [] (create_holds w1))
      exact ⟨_, hwrite.tail (.written _)⟩

end Reach

section Mistaken

variable {R : Remote} {admitted : Args → Prop} {clock : Nat} {a b : Args}

theorem fresh_proceeds (h : a.shouldSkipLocalDestination R d = false) (clock : Nat) :
    a.Proceeds R (World.fresh d clock) := ⟨h, fun hc => absurd hc.2 nofun⟩

theorem not_force_skips {f : LocalFile} (h : a.overwriteStrategy ≠ .force)
    (hm : R.updatedAt ≤ f.modified) : a.shouldSkipLocalDestination R (some f) = true := by
  unfold Args.shouldSkipLocalDestination
  cases hs : a.overwriteStrategy with
  | force => exact absurd hs h
  | noClobber => rfl
  | newer =>
    have hmax := R.updated_le
    exact decide_eq_true (by omega)

-- A first run is stopped after it created the file; the next one keeps what is there.
theorem force_of_success (hne : R.content ≠ [])
    (h : NeverMistaken R admitted (World.fresh none clock)) (ha : admitted a) (hwrites : a.Writes R)
    (hb : admitted b) : b.overwriteStrategy = .force := by
  by_contra hforce
  let w0 := World.fresh none clock
  let w1 : World := { w0 with clock := max clock R.updatedAt.toNat }
  have htick : Run R a ⟨w0, .start⟩ ⟨w1, .start⟩ := .single (.tick w0 .start _ (Nat.le_max_left _ _))
  have hbefore : Before R admitted w0 w1 := .run w0 a _ .fresh ha htick
  obtain ⟨x, hrun, hdest, -⟩ := prefix_reach (a := a) (b := []) (hbefore.inv (fresh_inv R none clock))
    ⟨rfl, fun hc => absurd hc.2 nofun⟩ hwrites List.nil_prefix
  have hskip : b.shouldSkipLocalDestination R x.world.destination = true := by
    rw [hdest]
    refine not_force_skips hforce ?_
    change R.updatedAt ≤ ((max clock R.updatedAt.toNat : Nat) : Int)
    omega
  have hholds := h.success rfl x.world b x.world (.run w1 a x hbefore ha hrun) hb
    (.single (.skip x.world hskip))
  exact hne (holds_inj hholds ⟨_, hdest⟩)

-- A run without the batch mark empties a file that the mark already counts as complete.
theorem records_of_success (hne : R.content ≠ [])
    (h : NeverMistaken R admitted (World.fresh none clock)) (ha : admitted a) (hwa : a.Writes R)
    (hb : admitted b) (hwb : b.Writes R) (hfa : a.overwriteStrategy = .force)
    (hfb : b.overwriteStrategy = .force) (hrb : b.records = true) : a.records = true := by
  by_contra hra
  have h0 := fresh_inv R none clock
  obtain ⟨w, hfinished⟩ := finished_reach h0 (fresh_proceeds (force_not_skip hfb none) clock) hwb
  have hbefore := Before.run _ b _ .fresh hb (hfinished.tail (.record w hrb))
  obtain ⟨x, hrun, hdest, hcomp⟩ := prefix_reach (a := a) (b := []) (hbefore.inv h0)
    ⟨force_not_skip hfa _, fun hc => absurd hc.1 hra⟩ hwa List.nil_prefix
  have hholds := h.success rfl x.world b x.world (.run _ a x hbefore ha hrun) hb
    (.single (.skipCompleted x.world (force_not_skip hfb _) hrb hcomp))
  exact hne (holds_inj hholds ⟨_, hdest⟩)

theorem trusted_absent (h : NeverMistaken R admitted (World.fresh none clock)) :
    Trusted R admitted none := by
  by_cases hne : R.content = []
  · exact .inl hne
  by_cases hactive : ∃ a, admitted a ∧ a.Writes R
  · obtain ⟨a, ha, hwrites⟩ := hactive
    have hforce : ∀ b, admitted b → b.overwriteStrategy = .force := fun b hb =>
      force_of_success hne h ha hwrites hb
    refine .inr (.inr ⟨hforce, ?_⟩)
    by_cases hrec : ∃ b, admitted b ∧ b.Writes R ∧ b.records = true
    · obtain ⟨b, hb, hwb, hrb⟩ := hrec
      exact .inl fun c hc hwc =>
        records_of_success hne h hc hwc hb hwb (hforce c hc) (hforce b hb) hrb
    · push Not at hrec
      exact .inr fun c hc hwc => Bool.eq_false_iff.mpr (hrec c hc hwc)
  · push Not at hactive
    exact .inr (.inl hactive)

theorem trusted_present {f : LocalFile} (h : NeverMistaken R admitted (World.fresh (some f) clock)) :
    Trusted R admitted (some f) := by
  by_contra hcond
  unfold Trusted at hcond
  push Not at hcond
  obtain ⟨⟨a, ha, hwrites, hskip⟩, p, hpre, hold, hnew⟩ := hcond
  obtain ⟨x, hrun, hdest, -⟩ := prefix_reach (fresh_inv R (some f) clock)
    (fresh_proceeds (Bool.eq_false_iff.mpr hskip) clock) hwrites hpre
  rcases h.existing f rfl x.world (.run _ a x .fresh ha hrun) with hholds | hholds
  · exact hold (holds_inj ⟨_, hdest⟩ hholds)
  · exact hnew (holds_inj ⟨_, hdest⟩ hholds)

end Mistaken

theorem never_mistaken_iff (R : Remote) (admitted : Args → Prop) (destination : Option LocalFile)
    (clock : Nat) : NeverMistaken R admitted (World.fresh destination clock) ↔
      Trusted R admitted destination := by
  cases destination with
  | none =>
    refine ⟨trusted_absent, fun hcond => ⟨fun _ w a w' hb ha hr => ?_, nofun⟩⟩
    exact success_of_trusted hcond hb ha hr
  | some f =>
    refine ⟨trusted_present, fun hcond => ⟨nofun, fun g hg w hb => ?_⟩⟩
    obtain rfl := Option.some.inj hg
    exact existing_of_trusted hcond hb

def oneByteRemote : Remote where
  content := [1]
  updatedAt := 0
  crc64 := fun _ => 0
  hashCrc64 := 0
  updated_le := by decide
  hash_ok := .inl rfl

def noClobberArgs : Args where
  batch := false
  checkpoint := false
  checkpointThreshold := 0
  multipartConcurrency := 1
  overwriteStrategy := .noClobber
  concurrency_pos := by decide

def Args.only (a b : Args) : Prop := b = a

theorem killed_download_kept :
    ¬ NeverMistaken oneByteRemote noClobberArgs.only (World.fresh none 0) := by
  intro h
  let w0 := World.fresh none 0
  have hstart : Run oneByteRemote noClobberArgs ⟨w0, .start⟩ ⟨w0, .get⟩ :=
    .single (.stream w0 ⟨rfl, by decide⟩ rfl rfl)
  have hargs : noClobberArgs.only noClobberArgs := rfl
  have hbefore : Before oneByteRemote noClobberArgs.only w0 w0.create :=
    .run w0 _ _ .fresh hargs (hstart.tail (.open w0))
  have hholds := h.success rfl w0.create _ w0.create hbefore hargs (.single (.skip w0.create rfl))
  exact absurd (holds_inj hholds (create_holds w0)) (by decide)

end VeStorage.ADrive.Download
