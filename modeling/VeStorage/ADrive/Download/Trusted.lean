import VeStorage.ADrive.Download.Machine

namespace VeStorage.ADrive.Download
open Lib
open Tos.Transfer (PartRange)

section Frames

variable (w : World) (r : PartRange) (v : Option Bytes) (b chunk : Bytes)

@[simp] theorem create_parts : w.create.parts = w.parts := rfl
@[simp] theorem create_completed : w.create.completed = w.completed := rfl
@[simp] theorem append_parts : (w.append b chunk).parts = w.parts := rfl
@[simp] theorem append_completed : (w.append b chunk).completed = w.completed := rfl
@[simp] theorem setPart_destination : (w.setPart r v).destination = w.destination := rfl
@[simp] theorem setPart_completed : (w.setPart r v).completed = w.completed := rfl

theorem create_holds : w.create.holds [] := ⟨w.clock, rfl⟩

theorem append_holds : (w.append b chunk).holds (b ++ chunk) := ⟨w.clock, rfl⟩

@[simp] theorem setPart_self : (w.setPart r v).parts r.number = v := by simp [World.setPart]

theorem setPart_ne {n : Nat} (h : n ≠ r.number) : (w.setPart r v).parts n = w.parts n := by
  simp [World.setPart, h]

theorem holds_congr {w w' : World} {b : Bytes} (h : w'.destination = w.destination)
    (hb : w.holds b) : w'.holds b := by
  obtain ⟨m, hm⟩ := hb
  exact ⟨m, h.trans hm⟩

theorem holds_inj {w : World} {b b' : Bytes} (h : w.holds b) (h' : w.holds b') : b = b' := by
  obtain ⟨m, hm⟩ := h
  obtain ⟨m', hm'⟩ := h'
  rw [hm] at hm'
  exact congrArg LocalFile.bytes (Option.some.inj hm')

end Frames

section Ranges

variable {R : Remote} {r r' : PartRange}

theorem ranges_nodup (R : Remote) : R.ranges.Nodup :=
  List.Nodup.of_map _ (Tos.Transfer.partRangesFrom_numbers_nodup _ _ _)

theorem rangePlan_eq {plan : List PartRange} (h : rangePlan R.size = some plan) : plan = R.ranges := by
  unfold rangePlan at h
  split at h
  · cases h
  · exact (Option.some.inj h).symm

theorem number_ne (hr : r ∈ R.ranges) (hr' : r' ∈ R.ranges) (h : r' ≠ r) : r'.number ≠ r.number :=
  fun he => h (Checkpoint.ranges_number_inj hr' hr he)

theorem slice_length (hr : r ∈ R.ranges) : (r.slice R.content).length = r.size :=
  Tos.Transfer.slice_length rfl hr

theorem flatMap_slices (R : Remote) : R.ranges.flatMap (·.slice R.content) = R.content :=
  Checkpoint.ranges_slices rfl

end Ranges

structure WorldInv (R : Remote) (old : Option LocalFile) (w : World) : Prop where
  parts : ∀ r ∈ R.ranges, ∀ b, w.parts r.number = some b → b <+: r.slice R.content
  destination : ∀ f, w.destination = some f →
    f.bytes <+: R.content ∨ ∃ f0, old = some f0 ∧ f.bytes = f0.bytes
  kept : old ≠ none → w.destination ≠ none
  marked : w.completed = true → w.destination ≠ none

def PartDone (R : Remote) (w : World) (r : PartRange) : Prop :=
  w.parts r.number = some (r.slice R.content)

def Progress (R : Remote) (w : World) : Stage → Prop
  | .body => ∃ b, w.holds b ∧ b <+: R.content
  | .writing left => ∃ b, w.holds b ∧ b ++ left = R.content
  | .ranges pending inFlight => PoolInv R.ranges (PartDone R w) pending inFlight
  | .assemble rest => (∀ r ∈ R.ranges, PartDone R w r) ∧ ∃ before, before ++ rest = R.ranges ∧
      w.holds (before.flatMap (·.slice R.content))
  | .copying left rest => (∀ r ∈ R.ranges, PartDone R w r) ∧ ∃ before r b, before ++ r :: rest = R.ranges ∧
      b ++ left = r.slice R.content ∧ w.holds (before.flatMap (·.slice R.content) ++ b)
  | .cleanup _ => w.holds R.content
  | .verify => w.holds R.content
  | .finished => w.holds R.content
  | _ => True

def Ended (R : Remote) (a : Args) (w1 w : World) : Prop :=
  (w.holds R.content ∧ (w.completed = w1.completed ∨ a.records = true)) ∨
    (w.destination = w1.destination ∧ w.completed = w1.completed ∧
      (a.shouldSkipLocalDestination R w1.destination = true ∨ (a.records = true ∧ w1.completed = true)))

def Begun (w1 : World) (x : State) : Prop :=
  match x.stage with
  | .start => x.world.destination = w1.destination ∧ x.world.completed = w1.completed
  | .done true => True
  | _ => x.world.completed = w1.completed

structure Inv (R : Remote) (a : Args) (old : Option LocalFile) (w1 : World) (x : State) : Prop where
  world : WorldInv R old x.world
  progress : Progress R x.world x.stage
  begun : Begun w1 x
  ended : x.stage = .done true → Ended R a w1 x.world

section World

variable {R : Remote} {old : Option LocalFile} {w w' : World} {r : PartRange} {b : Bytes}

theorem WorldInv.congr (h : WorldInv R old w) (hd : w'.destination = w.destination)
    (hp : w'.parts = w.parts) (hc : w'.completed = w.completed) : WorldInv R old w' where
  parts := by
    rw [hp]
    exact h.parts
  destination := by
    rw [hd]
    exact h.destination
  kept := by
    rw [hd]
    exact h.kept
  marked := by
    rw [hd, hc]
    exact h.marked

theorem WorldInv.put (h : WorldInv R old w) (hp : w'.parts = w.parts) (hb : w'.holds b)
    (hpre : b <+: R.content) : WorldInv R old w' := by
  obtain ⟨m, hm⟩ := hb
  refine ⟨by rw [hp]; exact h.parts, fun f hf => ?_, by simp [hm], by simp [hm]⟩
  obtain rfl := Option.some.inj (hm.symm.trans hf)
  exact .inl hpre

theorem WorldInv.setPart (h : WorldInv R old w) (hr : r ∈ R.ranges) {v : Option Bytes}
    (hv : ∀ b, v = some b → b <+: r.slice R.content) : WorldInv R old (w.setPart r v) where
  parts := by
    intro r' hr' b hb
    by_cases he : r' = r
    · subst he
      rw [setPart_self] at hb
      exact hv b hb
    · rw [setPart_ne _ _ _ (number_ne hr hr' he)] at hb
      exact h.parts r' hr' b hb
  destination := h.destination
  kept := h.kept
  marked := h.marked

theorem WorldInv.dropPart (h : WorldInv R old w) (r : PartRange) : WorldInv R old (w.setPart r none) where
  parts := by
    intro r' hr' b hb
    by_cases he : r'.number = r.number
    · simp [World.setPart, he] at hb
    · rw [setPart_ne _ _ _ he] at hb
      exact h.parts r' hr' b hb
  destination := h.destination
  kept := h.kept
  marked := h.marked

theorem WorldInv.part_done (h : WorldInv R old w) (hr : r ∈ R.ranges)
    (hb : w.parts r.number = some b) (hlen : b.length = r.size) : PartDone R w r := by
  rw [PartDone, hb, (h.parts r hr b hb).eq_of_length (hlen.trans (slice_length hr).symm)]

theorem isPresent_iff : isPresent w r = true ↔ ∃ b, w.parts r.number = some b ∧ b.length = r.size := by
  simp [isPresent, Option.any_eq_true]

theorem setPart_done {v : Option Bytes} (hr : r ∈ R.ranges) :
    ∀ r' ∈ R.ranges, r' ≠ r → PartDone R w r' → PartDone R (w.setPart r v) r' := by
  intro r' hr' hne hd
  rw [PartDone, setPart_ne _ _ _ (number_ne hr hr' hne)]
  exact hd

theorem fresh_inv (R : Remote) (old : Option LocalFile) (clock : Nat) :
    WorldInv R old (World.fresh old clock) where
  parts := by simp [World.fresh]
  destination := fun f hf => .inr ⟨f, hf, rfl⟩
  kept := id
  marked := by simp [World.fresh]

end World

section Steps

variable {R : Remote} {a : Args} {old : Option LocalFile} {w w1 : World} {x x' : State}

theorem Progress.congr {w' : World} {stage : Stage} (h : Progress R w stage)
    (hd : w'.destination = w.destination) (hp : w'.parts = w.parts) : Progress R w' stage := by
  have hholds : ∀ b, w.holds b → w'.holds b := fun b => holds_congr hd
  have hdone : ∀ r, PartDone R w r → PartDone R w' r := by
    intro r hr
    rw [PartDone, hp]
    exact hr
  cases stage with
  | body =>
    obtain ⟨b, hb, hpre⟩ := h
    exact ⟨b, hholds b hb, hpre⟩
  | writing left =>
    obtain ⟨b, hb, hpre⟩ := h
    exact ⟨b, hholds b hb, hpre⟩
  | ranges pending inFlight =>
    exact ⟨h.nodup, h.planned, fun r hr hn => hdone r (h.finished r hr hn)⟩
  | assemble rest =>
    obtain ⟨hall, before, hsplit, hb⟩ := h
    exact ⟨fun r hr => hdone r (hall r hr), before, hsplit, hholds _ hb⟩
  | copying left rest =>
    obtain ⟨hall, before, r, b, hsplit, hslice, hb⟩ := h
    exact ⟨fun r hr => hdone r (hall r hr), before, r, b, hsplit, hslice, hholds _ hb⟩
  | cleanup rest => exact hholds _ h
  | verify => exact hholds _ h
  | finished => exact hholds _ h
  | _ => trivial

theorem Progress.failed {stage : Stage} (h : Begun w1 ⟨w, stage⟩) (hs : ∀ ok, stage ≠ .done ok) :
    w.completed = w1.completed := by
  cases stage with
  | start => exact h.2
  | done ok => exact absurd rfl (hs ok)
  | _ => exact h

theorem prefix_of_split {before rest : List PartRange} {r : PartRange} {b left : Bytes}
    (hsplit : before ++ r :: rest = R.ranges) (hb : b ++ left = r.slice R.content) :
    before.flatMap (·.slice R.content) ++ b <+: R.content := by
  have hall := flatMap_slices R
  rw [← hsplit, List.flatMap_append, List.flatMap_cons, ← hb] at hall
  refine ⟨left ++ rest.flatMap (·.slice R.content), ?_⟩
  simpa only [List.append_assoc] using hall

theorem Inv.moved {stage : Stage} (hw : WorldInv R old w) (hp : Progress R w stage)
    (hb : w.completed = w1.completed) (hs : stage ≠ .start) (hd : ∀ ok, stage ≠ .done ok) :
    Inv R a old w1 ⟨w, stage⟩ where
  world := hw
  progress := hp
  begun := by
    cases stage with
    | start => exact absurd rfl hs
    | done ok => exact absurd rfl (hd ok)
    | _ => exact hb
  ended := fun h => absurd h (hd true)

theorem step_inv (hs : Step R a x x') (h : Inv R a old w1 x) : Inv R a old w1 x' := by
  obtain ⟨hw, hp, hb, he⟩ := h
  cases hs with
  | tick w stage n _ =>
    refine ⟨hw.congr rfl rfl rfl, hp.congr rfl rfl, ?_, he⟩
    cases stage <;> exact hb
  | fail w stage hd => exact ⟨hw, trivial, Progress.failed hb hd, nofun⟩
  | skip w hskip =>
    refine ⟨hw, trivial, trivial, fun _ => .inr ⟨hb.1, hb.2, .inl ?_⟩⟩
    rw [← hb.1]
    exact hskip
  | skipCompleted w _ hr hc => exact ⟨hw, trivial, trivial, fun _ => .inr ⟨hb.1, hb.2, .inr ⟨hr, hb.2 ▸ hc⟩⟩⟩
  | stream w _ _ _ => exact .moved hw trivial hb.2 nofun nofun
  | simple w _ _ _ => exact .moved hw trivial hb.2 nofun nofun
  | ranged w plan _ _ hplan =>
    obtain rfl := rangePlan_eq hplan
    exact .moved hw (PoolInv.all_pending (ranges_nodup R)) hb.2 nofun nofun
  | «open» w =>
    exact .moved (hw.put rfl (create_holds w) List.nil_prefix)
      ⟨[], create_holds w, List.nil_prefix⟩ hb nofun nofun
  | write w b chunk _ hc =>
    exact .moved (hw.put rfl (append_holds w b chunk) hc) ⟨_, append_holds w b chunk, hc⟩ hb nofun nofun
  | retry w => exact .moved hw trivial hb nofun nofun
  | received w b hh hlength _ =>
    obtain ⟨b', hb', hpre⟩ := hp
    obtain rfl := holds_inj hb' hh
    rw [hpre.eq_of_length hlength] at hb'
    exact .moved hw hb' hb nofun nofun
  | buffered w b hpre hlength _ =>
    refine .moved (hw.put rfl (create_holds w) List.nil_prefix) ⟨[], create_holds w, ?_⟩ hb nofun nofun
    exact hpre.eq_of_length hlength
  | writeBuffer w b chunk left hh =>
    obtain ⟨b', hb', hsplit⟩ := hp
    obtain rfl := holds_inj hb' hh
    have hall : (b' ++ chunk) ++ left = R.content := by rw [List.append_assoc]; exact hsplit
    exact .moved (hw.put rfl (append_holds w b' chunk) ⟨left, hall⟩)
      ⟨_, append_holds w b' chunk, hall⟩ hb nofun nofun
  | retryBuffer w left => exact .moved hw trivial hb nofun nofun
  | written w =>
    obtain ⟨b', hb', hsplit⟩ := hp
    rw [List.append_nil] at hsplit
    rw [hsplit] at hb'
    exact .moved hw hb' hb nofun nofun
  | present w r pending inFlight _ hpresent =>
    obtain ⟨b, hpart, hlen⟩ := isPresent_iff.mp hpresent
    have hr : r ∈ R.ranges := hp.planned r (by simp)
    exact .moved hw (hp.skip (hw.part_done hr hpart hlen)) hb nofun nofun
  | launch w r pending inFlight _ _ => exact .moved hw (hp.launch false) hb nofun nofun
  | openPart w pending before r opened after =>
    have hr := hp.running_mem
    exact .moved (hw.setPart hr (by rintro b ⟨rfl⟩; exact List.nil_prefix))
      (hp.progress (setPart_done hr)) hb nofun nofun
  | writePart w pending before r after b chunk _ hc =>
    have hr := hp.running_mem
    exact .moved (hw.setPart hr (by rintro b' ⟨rfl⟩; exact hc)) (hp.progress (setPart_done hr)) hb
      nofun nofun
  | partReceived w pending before r after b hpart hlen =>
    exact .moved hw (hp.finish (hw.part_done hp.running_mem hpart hlen)) hb nofun nofun
  | partFailed w pending before r opened after => exact ⟨hw.dropPart r, trivial, hb, nofun⟩
  | create w =>
    exact .moved (hw.put rfl (create_holds w) List.nil_prefix)
      ⟨hp.all_done, [], rfl, create_holds w⟩ hb nofun nofun
  | openInput w r rest b hpart =>
    obtain ⟨hall, before, hsplit, hh⟩ := hp
    have hr : r ∈ R.ranges := by simp [← hsplit]
    obtain rfl := Option.some.inj ((hall r hr).symm.trans hpart)
    exact .moved hw ⟨hall, before, r, [], hsplit, rfl, by simpa using hh⟩ hb nofun nofun
  | copy w b chunk left rest hh =>
    obtain ⟨hall, before, r, b', hsplit, hslice, hh'⟩ := hp
    obtain rfl := holds_inj hh' hh
    have hslice' : (b' ++ chunk) ++ left = r.slice R.content := by rw [List.append_assoc]; exact hslice
    have happend := append_holds w (before.flatMap (·.slice R.content) ++ b') chunk
    rw [List.append_assoc] at happend
    exact .moved (hw.put rfl happend (prefix_of_split hsplit hslice'))
      ⟨hall, before, r, b' ++ chunk, hsplit, hslice', happend⟩ hb nofun nofun
  | copied w rest =>
    obtain ⟨hall, before, r, b, hsplit, hslice, hh⟩ := hp
    rw [List.append_nil] at hslice
    refine .moved hw ⟨hall, before ++ [r], by simpa using hsplit, ?_⟩ hb nofun nofun
    rw [List.flatMap_append, List.flatMap_singleton, ← hslice]
    exact hh
  | assembled w =>
    obtain ⟨-, before, hsplit, hh⟩ := hp
    rw [List.append_nil] at hsplit
    rw [hsplit, flatMap_slices] at hh
    exact .moved hw hh hb nofun nofun
  | removePart w r rest => exact .moved (hw.dropPart r) hp hb nofun nofun
  | cleaned w => exact .moved hw hp hb nofun nofun
  | verified w b _ _ => exact .moved hw hp hb nofun nofun
  | mismatch w b hh hcrc =>
    obtain rfl := holds_inj hp hh
    exact absurd (R.hash_ok.imp_right Eq.symm) hcrc
  | record w hr =>
    have hholds : w.holds R.content := hp
    refine ⟨⟨hw.parts, hw.destination, hw.kept, fun _ => ?_⟩, trivial, trivial,
      fun _ => .inl ⟨hp, .inr hr⟩⟩
    obtain ⟨m, hm⟩ := hholds
    exact hm ▸ Option.some_ne_none _
  | exit w _ => exact ⟨hw, trivial, trivial, fun _ => .inl ⟨hp, .inl hb⟩⟩

theorem run_inv (hw : WorldInv R old w) (h : Run R a ⟨w, .start⟩ x) : Inv R a old w x := by
  induction h with
  | refl => exact ⟨hw, trivial, ⟨rfl, rfl⟩, nofun⟩
  | tail _ hs ih => exact step_inv hs ih

theorem Before.inv {admitted : Args → Prop} {w0 : World} (h0 : WorldInv R old w0)
    (h : Before R admitted w0 w) : WorldInv R old w := by
  induction h with
  | fresh => exact h0
  | run w a x _ _ hr ih => exact (run_inv ih hr).world

end Steps

end VeStorage.ADrive.Download
