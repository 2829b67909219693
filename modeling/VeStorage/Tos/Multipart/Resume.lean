import VeStorage.Tos.Multipart.Checkpoint

namespace VeStorage.Tos.Multipart
open Lib Transfer

def Live (w : World) : Prop :=
  ∀ c id, w.checkpoint = some c → c.uploadId = some id → w.uploads id ≠ none

def Fits (j : Job) : Prop := ∀ r ∈ j.ranges, r.number + 1 < 2 ^ 32

structure Resumable (j : Job) (w : World) : Prop where
  unlocked : w.lock = false
  live : Live w
  not_empty : j.fileSize ≠ 0
  fits : Fits j

structure Sound (j : Job) (x : State) : Prop where
  request : ∀ c id, x.stage = .complete c id → c.numbers = List.range' 1 j.ranges.length ∧
    ∃ stored, x.world.uploads id = some stored ∧ ∀ p ∈ c.completedParts, Listed j stored p
  object : ∀ parts, x.stage = .done (.ok parts) →
    parts.map CompletedPart.partNumber = List.range' 1 j.ranges.length ∧
      x.world.object = some j.content
  offsets : ∀ c id, x.stage = .saved c id →
    ∀ p ∈ c.completedParts, 1 ≤ p.partNumber ∧ (p.partNumber - 1) * j.partSize ≤ j.fileSize
  ends : ∀ c id pending inFlight, x.stage = .parts c id pending inFlight →
    ∀ r ∈ pending ++ inFlight.map Prod.fst, r.offset ≤ j.fileSize ∧ 1 ≤ r.offset + r.size

def MultipartCorrect (j : Job) (w : World) : Prop :=
  (∀ x, Run j ⟨w, .start⟩ x → Sound j x) ∧
    ∃ w' parts, Run j ⟨w, .start⟩ ⟨w', .done (.ok parts)⟩

structure Same (w0 w : World) : Prop where
  checkpoint : w.checkpoint = w0.checkpoint
  live : ∀ id, w.uploads id = none ↔ w0.uploads id = none

structure Owned (j : Job) (w : World) (c : Checkpoint) (id : Nat) : Prop where
  inv : CheckpointInv j c
  upload_id : c.uploadId = some id
  known : id < w.nextId

structure Backed (j : Job) (w : World) (c : Checkpoint) (id : Nat) : Prop extends Owned j w c id where
  stored : ∃ stored, w.uploads id = some stored ∧ ∀ n ∈ c.numbers, (stored n).isSome = true

structure PartsInv (j : Job) (w : World) (c : Checkpoint) (id : Nat) (pending : List PartRange)
    (inFlight : List (PartRange × Option Text)) : Prop extends Backed j w c id where
  fits : Fits j
  nodup : (pending ++ inFlight.map Prod.fst).Nodup
  planned : ∀ r ∈ pending ++ inFlight.map Prod.fst, r ∈ j.ranges ∧ r.number ∉ c.numbers
  covered : ∀ r ∈ j.ranges, r.number ∈ c.numbers ∨ r ∈ pending ++ inFlight.map Prod.fst
  answered : ∀ r etag, (r, some etag) ∈ inFlight → etag = j.uploadPartEtag (r.slice j.content) ∧
    ∀ stored, w.uploads id = some stored → (stored r.number).isSome = true

structure Finished (j : Job) (w : World) (parts : List CompletedPart) : Prop where
  parts : parts = j.ranges.map j.completedPart
  object : w.object = some j.content
  fits : Fits j
  not_empty : j.fileSize ≠ 0

def Begun (w0 : World) : Prop := w0.lock = false ∧ Live w0

def StageInv (j : Job) (w0 : World) (x : State) : Prop :=
  match x.stage with
  | .start => x.world.lock = w0.lock ∧ Same w0 x.world
  | .locked => w0.lock = false ∧ Same w0 x.world
  | .loaded c => w0.lock = false ∧ CheckpointInv j c ∧
      (c.uploadId = none → Live w0) ∧
      ∀ id, c.uploadId = some id → id < x.world.nextId ∧ (x.world.uploads id ≠ none → Live w0)
  | .created c id => Begun w0 ∧ Owned j x.world c id
  | .ready c id => w0.lock = false ∧ Owned j x.world c id ∧ (x.world.uploads id ≠ none → Live w0)
  | .listed c id => Begun w0 ∧ Backed j x.world c id
  | .saved c id => Begun w0 ∧ Backed j x.world c id
  | .parts c id pending inFlight => Begun w0 ∧ PartsInv j x.world c id pending inFlight
  | .complete c id => Begun w0 ∧ PartsInv j x.world c id [] [] ∧ j.fileSize ≠ 0
  | .completed c => Begun w0 ∧ Finished j x.world c.completedParts
  | .removed c => Begun w0 ∧ Finished j x.world c.completedParts
  | .done (.ok parts) => Begun w0 ∧ Finished j x.world parts
  | .done .failed => True
  | .killed => True

structure Inv (j : Job) (w0 : World) (x : State) : Prop where
  world : WorldInv j x.world
  stage : StageInv j w0 x

section Parts

variable {j : Job} {w : World} {c : Checkpoint} {id : Nat} {r : PartRange}
  {pending : List PartRange} {before after inFlight : List (PartRange × Option Text)}

theorem ranges_ne_nil_iff (j : Job) : j.ranges ≠ [] ↔ j.fileSize ≠ 0 := by
  have hslices : j.ranges.flatMap (·.slice j.content) = j.content := partRanges_slices rfl
  constructor
  · rintro hne h0
    have : j.ranges = partRanges 0 := congrArg partRanges h0
    exact hne this
  · rintro h0 hnil
    rw [hnil] at hslices
    exact h0 (congrArg List.length hslices.symm)

theorem Backed.congr {w' : World} (h : Backed j w c id) (hid : w.nextId ≤ w'.nextId)
    (hst : ∀ stored, w.uploads id = some stored → ∃ stored', w'.uploads id = some stored' ∧
      ∀ n, (stored n).isSome = true → (stored' n).isSome = true) : Backed j w' c id where
  toOwned := ⟨h.inv, h.upload_id, Nat.lt_of_lt_of_le h.known hid⟩
  stored := by
    obtain ⟨stored, hs, hall⟩ := h.stored
    obtain ⟨stored', hs', hmono⟩ := hst stored hs
    exact ⟨stored', hs', fun n hn => hmono n (hall n hn)⟩

theorem Backed.sameUploads {w' : World} (h : Backed j w c id) (hid : w'.nextId = w.nextId)
    (hu : w'.uploads = w.uploads) : Backed j w' c id :=
  h.congr hid.ge fun stored hs => ⟨stored, by rw [hu]; exact hs, fun _ h => h⟩

theorem putUpload_store (w : World) (id id' : Nat) {stored stored' : Nat → Option Bytes}
    (hl : w.uploads id' = some stored') (r : PartRange) (b : Bytes)
    (hs : w.uploads id = some stored) :
    ∃ stored'', (w.putUpload id' (some (storePart stored' r b))).uploads id = some stored'' ∧
      ∀ n, (stored n).isSome = true → (stored'' n).isSome = true := by
  by_cases he : id = id'
  · subst he
    obtain rfl := Option.some.inj (hl.symm.trans hs)
    exact ⟨storePart stored' r b, by simp [World.putUpload], fun n hn => storePart_isSome hn⟩
  · exact ⟨stored, by simpa [World.putUpload, he] using hs, fun _ h => h⟩

theorem Backed.put (h : Backed j w c id) {id' : Nat} {stored' : Nat → Option Bytes}
    (hl : w.uploads id' = some stored') (r : PartRange) (b : Bytes) :
    Backed j (w.putUpload id' (some (storePart stored' r b))) c id :=
  h.congr le_rfl fun _ hs => putUpload_store w id id' hl r b hs

theorem PartsInv.put (h : PartsInv j w c id pending inFlight) {id' : Nat}
    {stored' : Nat → Option Bytes} (hl : w.uploads id' = some stored') (r : PartRange) (b : Bytes) :
    PartsInv j (w.putUpload id' (some (storePart stored' r b))) c id pending inFlight :=
  { h with
    toBacked := h.toBacked.put hl r b
    answered := by
      intro r' etag hm
      refine ⟨(h.answered r' etag hm).1, fun stored hs => ?_⟩
      obtain ⟨st, hst, -⟩ := h.stored
      obtain ⟨st', hst', hmono⟩ := putUpload_store w id id' hl r b hst
      obtain rfl := Option.some.inj (hst'.symm.trans hs)
      exact hmono _ ((h.answered r' etag hm).2 st hst) }

theorem PartsInv.sameUploads {w' : World} (h : PartsInv j w c id pending inFlight)
    (hid : w'.nextId = w.nextId) (hu : w'.uploads = w.uploads) :
    PartsInv j w' c id pending inFlight :=
  { h with
    toBacked := h.toBacked.sameUploads hid hu
    answered := by rw [hu]; exact h.answered }

theorem plan_inv (h : Backed j w c id) (hp : pendingParts j c = some pending) :
    PartsInv j w c id pending [] := by
  unfold pendingParts at hp
  split at hp
  · rename_i hfits
    obtain rfl := Option.some.inj hp
    exact {
      toBacked := h
      fits := hfits
      nodup := by simpa [Job.ranges] using (partRanges_nodup j.fileSize).filter _
      planned := by
        intro r hr
        simpa using hr
      covered := by
        intro r hr
        by_cases hn : r.number ∈ c.numbers
        · exact .inl hn
        · exact .inr (by simp [hr, hn])
      answered := by simp }
  · cases hp

theorem PartsInv.launch (h : PartsInv j w c id (r :: pending) inFlight) :
    PartsInv j w c id pending (inFlight ++ [(r, none)]) := by
  have hperm : (pending ++ (inFlight ++ [(r, none)]).map Prod.fst).Perm
      (r :: pending ++ inFlight.map Prod.fst) := by
    simp only [List.map_append, List.map_cons, List.map_nil, List.cons_append]
    rw [← List.append_assoc]
    exact List.perm_append_singleton r _
  exact { h with
    nodup := hperm.nodup_iff.mpr h.nodup
    planned := fun r' hr' => h.planned r' (hperm.mem_iff.mp hr')
    covered := fun r' hr' => (h.covered r' hr').imp_right hperm.mem_iff.mpr
    answered := by
      intro r' etag hm
      rcases List.mem_append.mp hm with hm | hm
      · exact h.answered r' etag hm
      · simp at hm }

theorem PartsInv.store (h : PartsInv j w c id pending (before ++ (r, none) :: after))
    {stored : Nat → Option Bytes} (hl : w.uploads id = some stored) :
    PartsInv j (w.putUpload id (some (storePart stored r (r.slice j.content)))) c id pending
      (before ++ (r, some (j.uploadPartEtag (r.slice j.content))) :: after) := by
  have hput := h.put hl r (r.slice j.content)
  have hmap : (before ++ (r, some (j.uploadPartEtag (r.slice j.content))) :: after).map Prod.fst =
      (before ++ (r, none) :: after).map Prod.fst := by simp
  exact { hput with
    nodup := by rw [hmap]; exact h.nodup
    planned := by rw [hmap]; exact h.planned
    covered := by rw [hmap]; exact h.covered
    answered := by
      intro r' etag hm
      simp only [List.mem_append, List.mem_cons, Prod.mk.injEq, Option.some.injEq] at hm
      rcases hm with hm | ⟨rfl, rfl⟩ | hm
      · exact hput.answered r' etag (by simp [hm])
      · refine ⟨rfl, fun stored' hs => ?_⟩
        simp only [World.putUpload, Function.update_self, Option.some.injEq] at hs
        simp [← hs, storePart]
      · exact hput.answered r' etag (by simp [hm]) }

theorem PartsInv.record {etag : Text}
    (h : PartsInv j w c id pending (before ++ (r, some etag) :: after)) :
    etag = j.uploadPartEtag (r.slice j.content) ∧
      PartsInv j w (c.pushPart ⟨r.number, etag⟩) id pending (before ++ after) := by
  obtain ⟨hetag, hsome⟩ := h.answered r etag (by simp)
  obtain ⟨hr, hnew⟩ := h.planned r (by simp)
  refine ⟨hetag, ?_⟩
  have hsub : (pending ++ (before ++ after).map Prod.fst).Sublist
      (pending ++ (before ++ (r, some etag) :: after).map Prod.fst) :=
    (((List.sublist_cons_self (r, some etag) after).append_left before).map
      Prod.fst).append_left pending
  have hmem : ∀ r', r' ∈ pending ++ (before ++ (r, some etag) :: after).map Prod.fst →
      r' = r ∨ r' ∈ pending ++ (before ++ after).map Prod.fst := by
    intro r' hr'
    simp only [List.map_append, List.map_cons, List.mem_append, List.mem_cons] at hr' ⊢
    tauto
  have hperm : (pending ++ (before ++ (r, some etag) :: after).map Prod.fst).Perm
      (r :: (pending ++ (before ++ after).map Prod.fst)) := by
    simp only [List.map_append, List.map_cons, ← List.append_assoc]
    exact List.perm_middle
  have hnodup := List.nodup_cons.mp (hperm.nodup_iff.mp h.nodup)
  exact {
    inv := by
      rw [hetag]
      exact h.inv.pushPart hr hnew
    upload_id := h.upload_id
    known := h.known
    stored := by
      obtain ⟨stored, hs, hall⟩ := h.stored
      refine ⟨stored, hs, fun n hn => ?_⟩
      rcases mem_pushPart_numbers.mp hn with rfl | hn
      · exact hsome stored hs
      · exact hall n hn
    fits := h.fits
    nodup := hnodup.2
    planned := by
      intro r' hr'
      obtain ⟨hr0, hn⟩ := h.planned r' (hsub.subset hr')
      refine ⟨hr0, fun hm => ?_⟩
      rcases mem_pushPart_numbers.mp hm with he | hm
      · exact hnodup.1 (partRanges_number_inj hr hr0 he.symm ▸ hr')
      · exact hn hm
    covered := by
      intro r' hr'
      rcases h.covered r' hr' with hn | hm
      · exact .inl (mem_pushPart_numbers.mpr (.inr hn))
      · rcases hmem r' hm with rfl | hm
        · exact .inl (mem_pushPart_numbers.mpr (.inl rfl))
        · exact .inr hm
    answered := fun r' e hm => h.answered r' e (by
      simp only [List.mem_append, List.mem_cons] at hm ⊢
      tauto) }

theorem PartsInv.all_parts (h : PartsInv j w c id [] []) :
    c.completedParts = j.ranges.map j.completedPart :=
  h.inv.all_parts fun r hr => (h.covered r hr).resolve_right (by simp)

theorem complete_finished {w' : World} (hw : WorldInv j w) (h : PartsInv j w c id [] [])
    (h0 : j.fileSize ≠ 0) (hc : CompleteUpload j id c.completedParts w w') :
    Finished j w' c.completedParts := by
  cases hc with
  | accepted stored hl _ _ _ =>
    refine ⟨h.all_parts, ?_, h.fits, h0⟩
    obtain ⟨st, hst, hall⟩ := h.stored
    obtain rfl := Option.some.inj (hst.symm.trans hl)
    rw [h.all_parts, assembled_content (hw.stored id st hst)]
    exact fun r hr => hall _ ((h.covered r hr).resolve_right (by simp))

theorem complete_world {w' : World} (hw : WorldInv j w)
    (hc : CompleteUpload j id c.completedParts w w') : WorldInv j w' := by
  cases hc with
  | accepted => exact hw.retire id _

end Parts

section Steps

variable {j : Job} {w0 : World} {x x' : State}

theorem putUpload_live (w : World) {id' : Nat} {stored' u : Nat → Option Bytes}
    (hl : w.uploads id' = some stored') (id : Nat) :
    (w.putUpload id' (some u)).uploads id = none ↔ w.uploads id = none := by
  by_cases he : id = id'
  · subst he
    simp [World.putUpload, hl]
  · simp [World.putUpload, he]

theorem Same.put {w : World} (h : Same w0 w) {id' : Nat} {stored' u : Nat → Option Bytes}
    (hl : w.uploads id' = some stored') : Same w0 (w.putUpload id' (some u)) :=
  ⟨h.checkpoint, fun id => (putUpload_live w hl id).trans (h.live id)⟩

theorem StageInv.late {w : World} {stage : Stage} (h : StageInv j w0 ⟨w, stage⟩) {id' : Nat}
    {stored' : Nat → Option Bytes} (hl : w.uploads id' = some stored') (r : PartRange) (b : Bytes) :
    StageInv j w0 ⟨w.putUpload id' (some (storePart stored' r b)), stage⟩ := by
  have hlive : ∀ id, (w.putUpload id' (some (storePart stored' r b))).uploads id ≠ none →
      w.uploads id ≠ none := fun id hne he => hne ((putUpload_live w hl id).mpr he)
  cases stage with
  | start => exact ⟨h.1, h.2.put hl⟩
  | locked => exact ⟨h.1, h.2.put hl⟩
  | loaded c =>
    obtain ⟨h1, h2, h3, h4⟩ := h
    exact ⟨h1, h2, h3, fun id hid => ⟨(h4 id hid).1, fun hne => (h4 id hid).2 (hlive id hne)⟩⟩
  | created c id => exact ⟨h.1, h.2.inv, h.2.upload_id, h.2.known⟩
  | ready c id =>
    obtain ⟨h1, h2, h3⟩ := h
    exact ⟨h1, ⟨h2.inv, h2.upload_id, h2.known⟩, fun hne => h3 (hlive id hne)⟩
  | listed c id => exact ⟨h.1, h.2.put hl r b⟩
  | saved c id => exact ⟨h.1, h.2.put hl r b⟩
  | parts c id pending inFlight => exact ⟨h.1, h.2.put hl r b⟩
  | complete c id => exact ⟨h.1, h.2.1.put hl r b, h.2.2⟩
  | completed c => exact ⟨h.1, h.2.parts, h.2.object, h.2.fits, h.2.not_empty⟩
  | removed c => exact ⟨h.1, h.2.parts, h.2.object, h.2.fits, h.2.not_empty⟩
  | done outcome =>
    cases outcome with
    | ok parts => exact ⟨h.1, h.2.parts, h.2.object, h.2.fits, h.2.not_empty⟩
    | failed => trivial
  | killed => trivial

theorem Begun.of_checkpoint_none (hlock : w0.lock = false) (hc : w0.checkpoint = none) :
    Begun w0 := ⟨hlock, fun c id h => by simp [hc] at h⟩

theorem Owned.known_id {w : World} {c : Checkpoint} {id : Nat} (h : Owned j w c id) :
    ∀ id', c.uploadId = some id' → id' < w.nextId := by
  intro id' hid
  obtain rfl := Option.some.inj (h.upload_id.symm.trans hid)
  exact h.known

theorem step_inv (hs : Step j x x') (h : Inv j w0 x) : Inv j w0 x' := by
  obtain ⟨hw, hst⟩ := h
  cases hs with
  | fail w stage lock _ _ => exact ⟨hw.setLock lock, trivial⟩
  | kill w stage _ => exact ⟨hw, trivial⟩
  | late w stage id stored r hl hr => exact ⟨hw.store hl hr, hst.late hl r _⟩
  | acquire w hlock =>
    exact ⟨hw.setLock true, hst.1.symm.trans hlock, hst.2.checkpoint, hst.2.live⟩
  | acquireLeak w _ => exact ⟨hw.setLock true, trivial⟩
  | loadNone w hc =>
    have hnone := hst.2.checkpoint.symm.trans hc
    exact ⟨hw, hst.1, freshCheckpoint_inv j, fun _ => (Begun.of_checkpoint_none hst.1 hnone).2, nofun⟩
  | load w c hc _ =>
    have h0 := hst.2.checkpoint.symm.trans hc
    refine ⟨hw, hst.1, (hw.checkpoint c hc).1, ?_, fun id hid => ⟨(hw.checkpoint c hc).2 id hid, ?_⟩⟩
    · intro hid c' id' hc' hid'
      obtain rfl := Option.some.inj (h0.symm.trans hc')
      simp [hid] at hid'
    · intro hne c' id' hc' hid'
      obtain rfl := Option.some.inj (h0.symm.trans hc')
      obtain rfl := Option.some.inj (hid.symm.trans hid')
      exact fun he => hne ((hst.2.live id).mpr he)
  | create w c hid =>
    obtain ⟨hlock, hc, hlive, -⟩ := hst
    exact ⟨hw.create, ⟨hlock, hlive hid⟩, hc.withId _, rfl, Nat.lt_succ_self _⟩
  | createLost w c lock _ => exact ⟨hw.create.setLock lock, trivial⟩
  | saveCreated w c id =>
    obtain ⟨hb, howned⟩ := hst
    refine ⟨hw.setCheckpoint howned.inv howned.known_id, hb.1, ?_, fun _ => hb.2⟩
    exact ⟨howned.inv, howned.upload_id, howned.known⟩
  | resume w c id hid =>
    obtain ⟨hlock, hc, -, hlive⟩ := hst
    exact ⟨hw, hlock, ⟨hc, hid, (hlive id hid).1⟩, (hlive id hid).2⟩
  | listParts w c id stored hl =>
    obtain ⟨hlock, howned, hlive⟩ := hst
    refine ⟨hw, ⟨hlock, hlive (by simp [hl])⟩, ⟨howned.inv.retainParts stored, howned.upload_id,
      howned.known⟩, stored, hl, ?_⟩
    intro n hn
    obtain ⟨p, hp, rfl⟩ := List.mem_map.mp hn
    exact (List.mem_filter.mp hp).2
  | saveListed w c id =>
    obtain ⟨hb, hback⟩ := hst
    exact ⟨hw.setCheckpoint hback.inv hback.known_id, hb, hback.sameUploads rfl rfl⟩
  | plan w c id pending hp => exact ⟨hw, hst.1, plan_inv hst.2 hp⟩
  | launch w c id r pending inFlight _ => exact ⟨hw, hst.1, hst.2.launch⟩
  | store w c id pending before r after stored hl =>
    exact ⟨hw.store hl (hst.2.planned r (by simp)).1, hst.1, hst.2.store hl⟩
  | record w c id pending before r etag after =>
    have hrec := hst.2.record.2
    exact ⟨hw.setCheckpoint hrec.inv hrec.toOwned.known_id, hst.1, hrec.sameUploads rfl rfl⟩
  | finish w c id hne =>
    refine ⟨hw, hst.1, hst.2, (ranges_ne_nil_iff j).mp fun hnil => hne ?_⟩
    rw [hst.2.all_parts, hnil, List.map_nil]
  | complete w c id w' hc =>
    exact ⟨complete_world hw hc, hst.1, complete_finished hw hst.2.1 hst.2.2 hc⟩
  | completeLost w c id w' lock hc => exact ⟨(complete_world hw hc).setLock lock, trivial⟩
  | removeCheckpoint w c =>
    exact ⟨hw.removeCheckpoint, hst.1, hst.2.parts, hst.2.object, hst.2.fits, hst.2.not_empty⟩
  | exit w c lock =>
    exact ⟨hw.setLock lock, hst.1, hst.2.parts, hst.2.object, hst.2.fits, hst.2.not_empty⟩

theorem run_inv {w : World} (hw : WorldInv j w) (h : Run j ⟨w, .start⟩ x) : Inv j w x := by
  induction h with
  | refl => exact ⟨hw, rfl, rfl, fun _ => Iff.rfl⟩
  | tail _ hs ih => exact step_inv hs ih

theorem Reachable.inv {w : World} (h : Reachable j w) : WorldInv j w := by
  induction h with
  | initial nextId object => exact initial_inv j nextId object
  | run w x _ hr ih => exact (run_inv ih hr).world

theorem Finished.numbers {w : World} {parts : List CompletedPart} (h : Finished j w parts) :
    parts.map CompletedPart.partNumber = List.range' 1 j.ranges.length := by
  rw [h.parts]
  exact completed_sorted j

theorem Inv.sound (h : Inv j w0 x) : Sound j x where
  request := by
    obtain ⟨w, stage⟩ := x
    rintro c id rfl
    have hst := h.stage.2.1
    refine ⟨by rw [Checkpoint.numbers, hst.all_parts, completed_sorted], ?_⟩
    obtain ⟨stored, hs, hall⟩ := hst.stored
    exact ⟨stored, hs, fun p hp => hst.inv.listed (h.world.stored id stored hs) hall hp⟩
  object := by
    obtain ⟨w, stage⟩ := x
    rintro parts rfl
    exact ⟨h.stage.2.numbers, h.stage.2.object⟩
  offsets := by
    obtain ⟨w, stage⟩ := x
    rintro c id rfl p hp
    obtain ⟨r, hr, hn⟩ := h.stage.2.inv.number_mem hp
    obtain ⟨h1, ho, hl, -⟩ := mem_partRangesFrom hr
    rw [← hn]
    refine ⟨h1, ?_⟩
    have hoff : (r.number - 1) * j.partSize = r.offset := by rw [ho, Nat.zero_add]; rfl
    rw [hoff]
    exact hl.le
  ends := by
    obtain ⟨w, stage⟩ := x
    rintro c id pending inFlight rfl r hr
    obtain ⟨-, -, hl, hs⟩ := mem_partRangesFrom (h.stage.2.planned r hr).1
    have hpos := multipartPartSize_pos j.fileSize
    refine ⟨hl.le, ?_⟩
    have : 0 < r.size := by rw [hs]; exact lt_min (by omega) hpos
    omega

end Steps

section Reach

variable {j : Job} {w : World}

theorem parts_reach (c : Checkpoint) (id : Nat) (pending : List PartRange)
    (h : PartsInv j w c id pending []) :
    ∃ w' c', Run j ⟨w, .parts c id pending []⟩ ⟨w', .parts c' id [] []⟩ := by
  induction pending generalizing w c with
  | nil => exact ⟨w, c, .refl⟩
  | cons r pending ih =>
    obtain ⟨stored, hl, -⟩ := h.stored
    let etag := j.uploadPartEtag (r.slice j.content)
    let w1 := w.putUpload id (some (storePart stored r (r.slice j.content)))
    let c1 := c.pushPart ⟨r.number, etag⟩
    let w2 : World := { w1 with checkpoint := some c1 }
    have hlaunch : Step j ⟨w, .parts c id (r :: pending) []⟩
        ⟨w, .parts c id pending ([] ++ (r, none) :: [])⟩ := .launch w c id r pending [] j.concurrency_pos
    have hstore : Step j ⟨w, .parts c id pending ([] ++ (r, none) :: [])⟩
        ⟨w1, .parts c id pending ([] ++ (r, some etag) :: [])⟩ := .store w c id pending [] r [] stored hl
    have hrecord : Step j ⟨w1, .parts c id pending ([] ++ (r, some etag) :: [])⟩
        ⟨w2, .parts c1 id pending []⟩ := .record w1 c id pending [] r etag []
    have hlaunched : PartsInv j w c id pending ([] ++ (r, none) :: []) := h.launch
    have hinv : PartsInv j w2 c1 id pending [] := (hlaunched.store hl).record.2.sameUploads rfl rfl
    obtain ⟨w', c', hrun⟩ := ih c1 hinv
    exact ⟨w', c', .head hlaunch (.head hstore (.head hrecord hrun))⟩

theorem ready_reach {x0 : World} {c : Checkpoint} {id : Nat}
    (hr : Resumable j x0) (hrun : Run j ⟨x0, .start⟩ ⟨w, .ready c id⟩) (hw0 : WorldInv j x0)
    (hlive : w.uploads id ≠ none) : ∃ w' parts, Run j ⟨x0, .start⟩ ⟨w', .done (.ok parts)⟩ := by
  obtain ⟨stored, hl⟩ := Option.ne_none_iff_exists'.mp hlive
  have hlist := hrun.tail (.listParts w c id stored hl)
  have hsaved := hlist.tail (.saveListed w (c.retainParts stored) id)
  have hpending : pendingParts j (c.retainParts stored) =
      some (j.ranges.filter fun r => decide (r.number ∉ (c.retainParts stored).numbers)) :=
    if_pos hr.fits
  have hplanned := hsaved.tail (.plan _ _ id _ hpending)
  obtain ⟨w1, c1, hparts⟩ := parts_reach _ _ _ (run_inv hw0 hplanned).stage.2
  have hall := hplanned.trans hparts
  have hinv := run_inv hw0 hall
  have hp : PartsInv j w1 c1 id [] [] := hinv.stage.2
  have hne : c1.completedParts ≠ [] := by
    rw [hp.all_parts]
    exact fun h => (ranges_ne_nil_iff j).mpr hr.not_empty (List.map_eq_nil_iff.mp h)
  obtain ⟨st, hst, hsome⟩ := hp.stored
  have hcomplete : CompleteUpload j id c1.completedParts w1 _ := .accepted st hst hne
    (fun p hm => hp.inv.listed (hinv.world.stored id st hst) hsome hm) hp.inv.sorted
  have hfinish := hall.tail (.finish w1 c1 id hne)
  have hdone := ((hfinish.tail (.complete w1 c1 id _ hcomplete)).tail (.removeCheckpoint _ c1)).tail
    (.exit _ c1 false)
  exact ⟨_, _, hdone⟩

theorem resumable_reach (hw : WorldInv j w) (h : Resumable j w) :
    ∃ w' parts, Run j ⟨w, .start⟩ ⟨w', .done (.ok parts)⟩ := by
  let w1 : World := { w with lock := true }
  have hacquire : Run j ⟨w, .start⟩ ⟨w1, .locked⟩ := .single (.acquire w h.unlocked)
  have hcreate : ∀ c, Run j ⟨w, .start⟩ ⟨w1, .loaded c⟩ → c.uploadId = none →
      ∃ w' parts, Run j ⟨w, .start⟩ ⟨w', .done (.ok parts)⟩ := by
    intro c hrun hid
    have hready := (hrun.tail (.create w1 c hid)).tail (.saveCreated _ _ _)
    exact ready_reach h hready hw (by simp [World.putUpload])
  cases hc : w.checkpoint with
  | none => exact hcreate _ (hacquire.tail (.loadNone w1 hc)) rfl
  | some c =>
    have hload := hacquire.tail (.load w1 c hc (hw.checkpoint c hc).1.accepted)
    cases hid : c.uploadId with
    | none => exact hcreate c hload hid
    | some id =>
      have hready := hload.tail (.resume w1 c id hid)
      exact ready_reach h hready hw (h.live c id hc hid)

end Reach

theorem four_pos_workers : 0 < 4 := by decide

def oneByteJob : Job where
  kind := .upload
  source := "f".toList
  bucket := "b".toList
  key := "k".toList
  content := [1]
  checkpointEnabled := true
  checkpointThreshold := 1
  multipartConcurrency := 4
  etagHeader := fun _ => "\"e\"".toList
  selected := by decide
  concurrency_pos := four_pos_workers

-- Two parts, the first of them already stored and recorded.
def twoPartSize : Nat := 20 * mebibyte + 1

theorem twoPart_selected :
    shouldUseMultipart (List.replicate twoPartSize (1 : UInt8)).length true 1 = true := by
  rw [List.length_replicate]
  decide

def twoPartJob : Job :=
  { oneByteJob with
    content := List.replicate twoPartSize 1
    selected := twoPart_selected }

def firstRange : PartRange := ⟨1, 0, 20 * mebibyte⟩

def lastRange : PartRange := ⟨2, 20 * mebibyte, 1⟩

theorem twoPartJob_size : twoPartJob.fileSize = twoPartSize := List.length_replicate

theorem twoPartJob_ranges : twoPartJob.ranges = [firstRange, lastRange] := by
  rw [Job.ranges, twoPartJob_size]
  decide

theorem twoPartJob_fits : Fits twoPartJob := by
  unfold Fits
  rw [twoPartJob_ranges]
  decide

def createdCheckpoint : Checkpoint := { twoPartJob.freshCheckpoint with uploadId := some 0 }

def listedCheckpoint : Checkpoint := createdCheckpoint.retainParts fun _ => none

def recordedCheckpoint : Checkpoint := listedCheckpoint.pushPart (twoPartJob.completedPart firstRange)

def cutUpload : Nat → Option Bytes :=
  storePart (fun _ => none) firstRange (firstRange.slice twoPartJob.content)

-- The lock is dropped with the failed run.
def cutWorld : World :=
  { ((World.initial 0 none).putUpload 0 (some fun _ => none)).putUpload 0 (some cutUpload) with
    checkpoint := some recordedCheckpoint
    nextId := 1 }

theorem twoPartJob_pending : pendingParts twoPartJob listedCheckpoint = some [firstRange, lastRange] := by
  have hnumbers : listedCheckpoint.numbers = [] := rfl
  refine (if_pos twoPartJob_fits).trans ?_
  rw [twoPartJob_ranges, hnumbers]
  rfl

theorem runs_cut : Run twoPartJob ⟨World.initial 0 none, .start⟩ ⟨cutWorld, .done .failed⟩ := by
  have hlocked : Run twoPartJob ⟨World.initial 0 none, .start⟩ _ := .single (.acquire _ rfl)
  have hcreated := (hlocked.tail (.loadNone _ rfl)).tail (.create _ twoPartJob.freshCheckpoint rfl)
  have hlisted := (hcreated.tail (.saveCreated _ _ _)).tail (.listParts _ createdCheckpoint 0 (fun _ => none) rfl)
  have hplanned := (hlisted.tail (.saveListed _ _ _)).tail (.plan _ listedCheckpoint 0 _ twoPartJob_pending)
  have hlaunched := hplanned.tail (.launch _ _ 0 firstRange [lastRange] [] four_pos_workers)
  have hstored := hlaunched.tail (.store _ _ 0 [lastRange] [] firstRange [] (fun _ => none) rfl)
  have hrecorded := hstored.tail (.record _ _ 0 [lastRange] [] firstRange _ [])
  exact hrecorded.tail (.fail _ _ false rfl (.inr ⟨rfl, rfl⟩))

end VeStorage.Tos.Multipart
