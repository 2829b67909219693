import VeStorage.ADrive.Checkpoint.Store

namespace VeStorage.ADrive.Checkpoint
open Lib
open Tos.Transfer

def Agrees (tree : Tree) (i : Item) : Prop := ∀ c, tree i.src = some c → tree i.dst = some c

def Converged (t : Task) (tree : Tree) : Prop := ∀ p i, t.item p = some i → Agrees tree i

structure Separated (t : Task) (tree : Tree) : Prop where
  distinct : ∀ p q i j, t.item p = some i → t.item q = some j → tree p ≠ none → tree q ≠ none →
    i.dst = j.dst → p = q
  outside : ∀ p i, t.item p = some i → tree p ≠ none → t.item i.dst = none

structure WorldInv (S : Service) (t : Task) (tree : Tree) (w : World) : Prop where
  sources : ∀ p i, t.item p = some i → w.tree p = tree p
  store : StoreInv S t w

structure Frame (j : Job) (w w' : World) : Prop where
  tree : ∀ p, p ≠ j.dst → w'.tree p = w.tree p
  sessions : ∀ i, i ≠ j.item → w'.sessions i = w.sessions i
  parts : ∀ k, k.destination ≠ j.dst → w'.parts k = w.parts k

def FineAt (w : World) (j : Job) (c : Bytes) : Stage → Prop
  | .start => True
  | .uploading s outstanding => w.sessions j.item = some (some s) ∧ s.fileSize = c.length ∧
      (∀ r ∈ ranges c.length, r ∈ outstanding ∨ r.number ∈ s.numbers) ∧
      ∀ r ∈ outstanding, r ∈ ranges c.length ∧ r.number ∉ s.numbers
  | .completed => w.tree j.dst = some c
  | .writing body => body = c
  | .ranges outstanding => (∀ r ∈ outstanding, r ∈ ranges j.size) ∧
      ∀ r ∈ ranges j.size, r ∈ outstanding ∨ w.parts (j.part r) = some (r.slice c)
  | .assemble rest written => w.tree j.dst = some written ∧ written ++ rest.flatMap (·.slice c) = c ∧
      ∀ r ∈ rest, w.parts (j.part r) = some (r.slice c)
  | .cleanup _ => w.tree j.dst = some c
  | .done ok => ok = true → w.tree j.dst = some c

section Steps

variable {S : Service} {t : Task} {cfg : TransferRuntimeConfig} {tree : Tree} {w w' : World} {j : Job}
  {c : Bytes} {u u' : Stage}

theorem part_ne {k : RangePart} (h : k.destination ≠ j.dst) (r : PartRange) : k ≠ j.part r := by
  rintro rfl
  exact h rfl

theorem part_inj {r r' : PartRange} (h : r ≠ r') (hr : r ∈ ranges j.size) (hr' : r' ∈ ranges j.size) :
    j.part r ≠ j.part r' := fun he => h (ranges_number_inj hr hr' (congrArg RangePart.number he))

theorem Frame.refl (j : Job) (w : World) : Frame j w w := ⟨fun _ _ => rfl, fun _ _ => rfl, fun _ _ => rfl⟩

theorem Frame.setFile (j : Job) (w : World) (v : Option Bytes) : Frame j w (w.setFile j.dst v) :=
  ⟨fun _ hp => setFile_ne _ _ _ hp, fun _ _ => rfl, fun _ _ => rfl⟩

theorem Frame.setPart (j : Job) (w : World) (r : PartRange) (v : Option Bytes) :
    Frame j w (w.setPart (j.part r) v) :=
  ⟨fun _ _ => rfl, fun _ _ => rfl, fun _ hk => setPart_ne _ _ _ (part_ne hk r)⟩

theorem Frame.setSession (j : Job) (w : World) (v : Option (Option UploadCheckpoint)) :
    Frame j w (w.setSession j.item v) :=
  ⟨fun _ _ => rfl, fun _ hi => setSession_ne _ _ _ hi, fun _ _ => rfl⟩

theorem transfer_frame (h : Transfer S cfg j (w, u) (w', u')) : Frame j w w' := by
  cases h with
  | fail => exact .refl j w
  | put => exact .setFile j w _
  | initiate => exact ⟨fun _ _ => rfl, fun _ hi => setSession_ne _ _ _ hi, fun _ _ => rfl⟩
  | initiateLost => exact ⟨fun _ _ => rfl, fun _ _ => rfl, fun _ _ => rfl⟩
  | resume => exact .refl j w
  | tear => exact .setSession j w _
  | storePart => exact ⟨fun _ _ => rfl, fun _ _ => rfl, fun _ _ => rfl⟩
  | recordPart => exact ⟨fun _ _ => rfl, fun _ hi => setSession_ne _ _ _ hi, fun _ _ => rfl⟩
  | complete => exact ⟨fun _ hp => setFile_ne _ _ _ hp, fun _ _ => rfl, fun _ _ => rfl⟩
  | completeLost => exact ⟨fun _ hp => setFile_ne _ _ _ hp, fun _ _ => rfl, fun _ _ => rfl⟩
  | removeSession => exact .setSession j w _
  | get => exact .refl j w
  | write => exact .setFile j w _
  | written => exact .setFile j w _
  | plan => exact .refl j w
  | present => exact .refl j w
  | fetch => exact .setPart j w _ _
  | fetched => exact .setPart j w _ _
  | discard => exact .setPart j w _ _
  | create => exact .setFile j w _
  | append => exact .setFile j w _
  | appendFailed => exact .setFile j w _
  | assembled => exact .refl j w
  | removePart => exact .setPart j w _ _
  | verified => exact .refl j w
  | mismatch => exact .setFile j w _
  | copy => exact .setFile j w _

theorem WorldInv.setFile (h : WorldInv S t tree w) {p : Place} (hp : t.item p = none)
    (v : Option Bytes) : WorldInv S t tree (w.setFile p v) where
  sources := by
    intro q i hi
    have hne : q ≠ p := by
      rintro rfl
      rw [hp] at hi
      cases hi
    rw [setFile_ne _ _ _ hne]
    exact h.sources q i hi
  store := h.store.setFile hp v

theorem WorldInv.content (h : WorldInv S t tree w) (hj : Found S t tree j c) :
    w.tree j.src = some c := (h.sources _ _ hj.item).trans hj.content

theorem partInv_slice (hj : Found S t tree j c) {r : PartRange} (hr : r ∈ ranges j.size) {b : Bytes}
    (hb : b <+: r.slice c) : PartInv S (j.part r) b :=
  ⟨c, r, hj.etag.symm, hj.size.symm, hr, rfl, hb⟩

theorem transfer_world (hsep : Separated t tree) (hw : WorldInv S t tree w) (hj : Found S t tree j c)
    (hu : FineAt w j c u) (h : Transfer S cfg j (w, u) (w', u')) : WorldInv S t tree w' := by
  have hsrc := hw.content hj
  have hdst : t.item j.dst = none := by
    refine hsep.outside j.src j.item hj.item ?_
    rw [hj.content]
    exact Option.some_ne_none c
  have hpart : ∀ r v, (∀ b, v = some b → PartInv S (j.part r) b) →
      WorldInv S t tree (w.setPart (j.part r) v) := fun r v hv => ⟨hw.sources, hw.store.setPart hv⟩
  cases h with
  | fail => exact hw
  | put => exact hw.setFile hdst _
  | initiate => exact ⟨hw.sources, hw.store.create hj.item _⟩
  | initiateLost => exact ⟨hw.sources, hw.store.initiate⟩
  | resume => exact hw
  | tear => exact ⟨hw.sources, hw.store.dropSession (.inr rfl)⟩
  | storePart w s outstanding r c' stored hr hc hl =>
    obtain ⟨hs, -, -, hout⟩ := hu
    exact ⟨hw.sources, hw.store.store hs hl (hout r hr).2 _⟩
  | recordPart w s s' outstanding r c' stored hr hc hl hs' =>
    obtain ⟨hs, hlen, -, hout⟩ := hu
    obtain rfl : c' = c := by simpa [hc] using hsrc
    subst hs'
    exact ⟨hw.sources, hw.store.record hs hc hlen hl (hout r hr).1 (hout r hr).2 _⟩
  | complete w s =>
    have hretired : WorldInv S t tree (w.putUpload s.uploadId none) :=
      ⟨hw.sources, hw.store.retire _⟩
    exact hretired.setFile hdst _
  | completeLost w s =>
    have hretired : WorldInv S t tree (w.putUpload s.uploadId none) :=
      ⟨hw.sources, hw.store.retire _⟩
    exact hretired.setFile hdst _
  | removeSession => exact ⟨hw.sources, hw.store.dropSession (.inl rfl)⟩
  | get => exact hw
  | write => exact hw.setFile hdst _
  | written => exact hw.setFile hdst _
  | plan => exact hw
  | present => exact hw
  | fetch w outstanding r c' b hr hm hb =>
    obtain rfl : c' = c := by simpa [hm.1] using hsrc
    refine hpart r _ ?_
    rintro b' ⟨⟩
    exact partInv_slice hj (hu.1 r hr) hb
  | fetched w outstanding r c' hr hm hsize =>
    obtain rfl : c' = c := by simpa [hm.1] using hsrc
    refine hpart r _ ?_
    rintro b' ⟨⟩
    exact partInv_slice hj (hu.1 r hr) (List.prefix_refl _)
  | discard => exact hpart _ _ nofun
  | create => exact hw.setFile hdst _
  | append => exact hw.setFile hdst _
  | appendFailed => exact hw.setFile hdst _
  | assembled => exact hw
  | removePart => exact hpart _ _ nofun
  | verified => exact hw
  | mismatch => exact hw.setFile hdst _
  | copy => exact hw.setFile hdst _

theorem fits_assembled {s : UploadCheckpoint} {stored : Nat → Option Bytes} (hw : WorldInv S t tree w)
    (hj : Found S t tree j c) (hu : FineAt w j c (.uploading s []))
    (hl : w.uploads s.uploadId = some stored) : assembled stored s.completedParts = c := by
  obtain ⟨hs, hlen, hall, -⟩ := hu
  have hown := hw.store.sessions _ _ hs
  have hnumber : ∀ r ∈ ranges c.length, r.number ∈ s.numbers :=
    fun r hr => (hall r hr).resolve_left List.not_mem_nil
  refine assembled_content hown.nodup (fun n => ⟨fun hn => ?_, fun hn => ?_⟩) fun r hr => ?_
  · obtain ⟨r, hr, rfl⟩ := hown.numbers n hn
    exact List.mem_map_of_mem (hlen ▸ hr)
  · obtain ⟨r, hr, rfl⟩ := List.mem_map.mp hn
    exact hnumber r hr
  · exact hw.store.fits _ _ hs c (hw.content hj) hlen.symm stored hl r (hlen ▸ hr) (hnumber r hr)

theorem present_slice (hinj : Function.Injective S.etag) (hw : WorldInv S t tree w)
    (hj : Found S t tree j c) {r : PartRange} (hr : r ∈ ranges j.size) {b : Bytes}
    (hb : w.parts (j.part r) = some b) (hsize : b.length = r.size) : b = r.slice c := by
  obtain ⟨c', r', he, hlen, hr', hn, hpre⟩ := hw.store.parts _ _ hb
  obtain rfl : c' = c := hinj (he.trans hj.etag)
  obtain rfl : r' = r := ranges_number_inj hr' hr hn
  refine hpre.eq_of_length ?_
  rw [hsize, slice_length hlen hr]

theorem filter_cover {outstanding : List PartRange} {r r' : PartRange} {Q : Prop}
    (h : r' ∈ outstanding ∨ Q) (hne : r' ≠ r) : r' ∈ outstanding.filter (· ≠ r) ∨ Q :=
  h.imp_left fun hm => List.mem_filter.mpr ⟨hm, by simpa using hne⟩

theorem transfer_fine (hinj : Function.Injective S.etag) (hw : WorldInv S t tree w)
    (hj : Found S t tree j c) (hu : FineAt w j c u) (h : Transfer S cfg j (w, u) (w', u')) :
    FineAt w' j c u' := by
  have hsrc := hw.content hj
  cases h with
  | fail => exact nofun
  | put w c' ok ho hc hs =>
    obtain rfl : c' = c := by simpa [hc] using hsrc
    exact fun _ => setFile_self ..
  | initiate w c' ho hc hs hn =>
    obtain rfl : c' = c := by simpa [hc] using hsrc
    exact ⟨setSession_self .., rfl, fun r hr => .inl hr,
      fun r hr => ⟨hr, by simp [UploadCheckpoint.numbers]⟩⟩
  | initiateLost => exact nofun
  | resume w c' s ho hc hs hn hv =>
    obtain rfl : c' = c := by simpa [hc] using hsrc
    refine ⟨hn, hv, fun r hr => ?_, fun r hr => ?_⟩
    · rw [UploadCheckpoint.outstanding, List.mem_filter, decide_eq_true_eq]
      by_cases hm : r.number ∈ s.numbers
      · exact .inr hm
      · exact .inl ⟨hr, hm⟩
    · rw [UploadCheckpoint.outstanding, List.mem_filter, decide_eq_true_eq] at hr
      exact hr
  | tear => exact nofun
  | storePart => exact hu
  | recordPart w s s' outstanding r c' stored hr hc hl hs' =>
    obtain ⟨hs, hlen, hall, hout⟩ := hu
    subst hs'
    refine ⟨setSession_self .., hlen, fun r' hr' => ?_, fun r' hr' => ?_⟩
    · rw [pushPart_numbers, List.mem_append, List.mem_singleton]
      by_cases he : r' = r
      · exact .inr (.inr (congrArg PartRange.number he))
      · exact (filter_cover (hall r' hr') he).imp_right .inl
    · obtain ⟨hr', hne⟩ := List.mem_filter.mp hr'
      refine ⟨(hout r' hr').1, ?_⟩
      rw [pushPart_numbers, List.mem_append, List.mem_singleton, not_or]
      refine ⟨(hout r' hr').2, fun he => ?_⟩
      have := ranges_number_inj (hout r' hr').1 (hout r hr).1 he
      simp [this] at hne
  | complete w s c' stored hash hc hl hlisted hhash hcrc =>
    have hcontent := fits_assembled hw hj hu hl
    rw [hcontent]
    exact setFile_self ..
  | completeLost => exact nofun
  | removeSession => exact fun _ => hu
  | get w c' ho hs hm hlength hcrc =>
    obtain rfl : c' = c := by simpa [hm.1] using hsrc
    rfl
  | write => exact hu
  | written w body =>
    obtain rfl : body = c := hu
    exact fun _ => setFile_self ..
  | plan => exact ⟨fun r hr => hr, fun r hr => .inl hr⟩
  | present w outstanding r b hr hb hsize =>
    obtain ⟨hsub, hall⟩ := hu
    refine ⟨fun r' hr' => hsub r' (List.mem_filter.mp hr').1, fun r' hr' => ?_⟩
    by_cases he : r' = r
    · subst he
      right
      rw [hb, present_slice hinj hw hj hr' hb hsize]
    · exact filter_cover (hall r' hr') he
  | fetch w outstanding r c' b hr hm hb =>
    obtain ⟨hsub, hall⟩ := hu
    refine ⟨hsub, fun r' hr' => ?_⟩
    by_cases he : r' = r
    · exact .inl (he ▸ hr)
    · rw [setPart_ne _ _ _ (part_inj he hr' (hsub r hr))]
      exact hall r' hr'
  | fetched w outstanding r c' hr hm hsize =>
    obtain ⟨hsub, hall⟩ := hu
    obtain rfl : c' = c := by simpa [hm.1] using hsrc
    refine ⟨fun r' hr' => hsub r' (List.mem_filter.mp hr').1, fun r' hr' => ?_⟩
    by_cases he : r' = r
    · subst he
      exact .inr (setPart_self ..)
    · rw [setPart_ne _ _ _ (part_inj he hr' (hsub r hr))]
      exact filter_cover (hall r' hr') he
  | discard => exact nofun
  | create w =>
    refine ⟨setFile_self .., ?_, fun r hr => (hu.2 r hr).resolve_left List.not_mem_nil⟩
    exact ranges_slices hj.size.symm
  | append w r rest written b hb =>
    obtain ⟨-, hcontent, hparts⟩ := hu
    have hslice := hparts r (List.mem_cons_self ..)
    rw [hb, Option.some.injEq] at hslice
    subst hslice
    refine ⟨setFile_self .., ?_, fun r' hr' => hparts r' (List.mem_cons_of_mem _ hr')⟩
    simpa [List.append_assoc] using hcontent
  | appendFailed => exact nofun
  | assembled w written =>
    obtain ⟨hdst, hcontent, -⟩ := hu
    rw [List.flatMap_nil, List.append_nil] at hcontent
    subst hcontent
    exact hdst
  | removePart => exact hu
  | verified => exact fun _ => hu
  | mismatch => exact nofun
  | copy w c' ok ho hm =>
    obtain rfl : c' = c := by simpa [hm.1] using hsrc
    exact fun _ => setFile_self ..

-- What one job has reached does not depend on the files of another.
theorem fineAt_frame {other : Job} (hf : Frame j w w') (hdst : other.dst ≠ j.dst)
    (hitem : other.item ≠ j.item) (h : FineAt w other c u) : FineAt w' other c u := by
  have htree := hf.tree _ hdst
  have hsession := hf.sessions _ hitem
  have hparts : ∀ r, w'.parts (other.part r) = w.parts (other.part r) := fun r => hf.parts _ hdst
  cases u with
  | start => trivial
  | uploading s outstanding =>
    unfold FineAt
    rw [hsession]
    exact h
  | completed => exact htree.trans h
  | writing body => exact h
  | ranges outstanding => exact ⟨h.1, fun r hr => (h.2 r hr).imp_right (hparts r).trans⟩
  | assemble rest written => exact ⟨htree.trans h.1, h.2.1, fun r hr => (hparts r).trans (h.2.2 r hr)⟩
  | cleanup rest => exact htree.trans h
  | done ok => exact fun hok => htree.trans (h hok)

end Steps

end VeStorage.ADrive.Checkpoint
