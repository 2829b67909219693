import VeStorage.Tos.Multipart.Machine
import Mathlib.Data.List.Perm.Basic

namespace VeStorage.Tos.Multipart
open Lib Transfer

structure CheckpointInv (j : Job) (c : Checkpoint) : Prop where
  accepted : j.accepts c = true
  parts : ∀ p ∈ c.completedParts, ∃ r ∈ j.ranges, p = j.completedPart r
  sorted : c.numbers.Pairwise (· < ·)

def StoredInv (j : Job) (stored : Nat → Option Bytes) : Prop :=
  ∀ r ∈ j.ranges, ∀ b, stored r.number = some b → b = r.slice j.content

structure WorldInv (j : Job) (w : World) : Prop where
  checkpoint : ∀ c, w.checkpoint = some c → CheckpointInv j c ∧ ∀ id, c.uploadId = some id → id < w.nextId
  stored : ∀ id stored, w.uploads id = some stored → StoredInv j stored
  fresh : ∀ id, w.nextId ≤ id → w.uploads id = none

section Checkpoints

variable {j : Job} {c : Checkpoint} {r : PartRange}

theorem freshCheckpoint_inv (j : Job) : CheckpointInv j j.freshCheckpoint where
  accepted := by
    unfold Job.accepts Job.freshCheckpoint
    cases j.kind <;> simp
  parts := by simp [Job.freshCheckpoint]
  sorted := by simp [Checkpoint.numbers, Job.freshCheckpoint]

theorem CheckpointInv.withId (h : CheckpointInv j c) (id : Nat) :
    CheckpointInv j { c with uploadId := some id } := ⟨h.accepted, h.parts, h.sorted⟩

theorem CheckpointInv.retainParts (h : CheckpointInv j c) (stored : Nat → Option Bytes) :
    CheckpointInv j (c.retainParts stored) where
  accepted := h.accepted
  parts := fun p hp => h.parts p (List.mem_filter.mp hp).1
  sorted := h.sorted.sublist (List.filter_sublist.map _)

theorem pushPart_numbers (c : Checkpoint) (p : CompletedPart) :
    (c.pushPart p).numbers.Perm (p.partNumber :: c.numbers) := by
  have hperm : (c.pushPart p).completedParts.Perm (c.completedParts ++ [p]) := List.mergeSort_perm _ _
  have := hperm.map CompletedPart.partNumber
  rw [List.map_append] at this
  exact this.trans (List.perm_append_singleton _ _)

theorem mem_pushPart_numbers {p : CompletedPart} {n : Nat} :
    n ∈ (c.pushPart p).numbers ↔ n = p.partNumber ∨ n ∈ c.numbers := by
  rw [(pushPart_numbers c p).mem_iff, List.mem_cons]

theorem CheckpointInv.pushPart (h : CheckpointInv j c) (hr : r ∈ j.ranges)
    (hnew : r.number ∉ c.numbers) : CheckpointInv j (c.pushPart (j.completedPart r)) where
  accepted := h.accepted
  parts := by
    intro p hp
    rcases List.mem_append.mp (mem_sortOn.mp hp) with hp | hp
    · exact h.parts p hp
    · exact ⟨r, hr, List.mem_singleton.mp hp⟩
  sorted := by
    have hnodup : (c.pushPart (j.completedPart r)).numbers.Nodup :=
      (pushPart_numbers c _).nodup_iff.mpr
        (List.nodup_cons.mpr ⟨hnew, h.sorted.imp fun hlt => Nat.ne_of_lt hlt⟩)
    have hle : (c.pushPart (j.completedPart r)).numbers.Pairwise (· ≤ ·) :=
      List.pairwise_map.mpr (sortOn_pairwise CompletedPart.partNumber _)
    exact hle.imp₂ (fun _ _ hab hne => lt_of_le_of_ne hab hne) hnodup

theorem CheckpointInv.number_mem (h : CheckpointInv j c) {p : CompletedPart}
    (hp : p ∈ c.completedParts) : ∃ r ∈ j.ranges, r.number = p.partNumber := by
  obtain ⟨r, hr, rfl⟩ := h.parts p hp
  exact ⟨r, hr, rfl⟩

theorem completed_sorted (j : Job) :
    ((j.ranges.map j.completedPart).map CompletedPart.partNumber) = List.range' 1 j.ranges.length := by
  rw [List.map_map]
  exact partRanges_numbers j.fileSize

-- Every range recorded once and nothing else: the list sent with the completion.
theorem CheckpointInv.all_parts (h : CheckpointInv j c) (hall : ∀ r ∈ j.ranges, r.number ∈ c.numbers) :
    c.completedParts = j.ranges.map j.completedPart := by
  have hsorted : (j.ranges.map j.completedPart).Pairwise fun p q => p.partNumber < q.partNumber := by
    rw [← List.pairwise_map (f := CompletedPart.partNumber), completed_sorted]
    exact List.pairwise_lt_range'
  have hc : c.completedParts.Pairwise fun p q => p.partNumber < q.partNumber :=
    List.pairwise_map.mp h.sorted
  have hmem : ∀ p, p ∈ c.completedParts ↔ p ∈ j.ranges.map j.completedPart := by
    intro p
    constructor
    · intro hp
      obtain ⟨r, hr, rfl⟩ := h.parts p hp
      exact List.mem_map_of_mem hr
    · intro hp
      obtain ⟨r, hr, rfl⟩ := List.mem_map.mp hp
      obtain ⟨q, hq, hn⟩ := List.mem_map.mp (hall r hr)
      obtain ⟨r', hr', rfl⟩ := h.parts q hq
      rwa [partRanges_number_inj hr' hr hn] at hq
  have hne : ∀ {l : List CompletedPart}, (l.Pairwise fun p q => p.partNumber < q.partNumber) →
      l.Nodup := fun hl => hl.imp fun hlt he => by simp [he] at hlt
  have hperm := (List.perm_ext_iff_of_nodup (hne hc) (hne hsorted)).mpr hmem
  refine hperm.eq_of_pairwise ?_ hc hsorted
  intro p q _ _ hpq hqp
  omega

theorem StoredInv.storePart {stored : Nat → Option Bytes} (h : StoredInv j stored)
    (hr : r ∈ j.ranges) : StoredInv j (storePart stored r (r.slice j.content)) := by
  intro r' hr' b hb
  by_cases he : r'.number = r.number
  · obtain rfl := partRanges_number_inj hr' hr he
    simpa [Multipart.storePart] using hb.symm
  · exact h r' hr' b (by simpa [Multipart.storePart, he] using hb)

theorem storePart_isSome {stored : Nat → Option Bytes} {n : Nat} {b : Bytes}
    (h : (stored n).isSome = true) : ((storePart stored r b) n).isSome = true := by
  by_cases he : n = r.number
  · simp [storePart, he]
  · simpa [storePart, he] using h

theorem CheckpointInv.listed {stored : Nat → Option Bytes} (h : CheckpointInv j c)
    (hs : StoredInv j stored) (hsome : ∀ n ∈ c.numbers, (stored n).isSome = true)
    {p : CompletedPart} (hp : p ∈ c.completedParts) : Listed j stored p := by
  obtain ⟨b, hb⟩ := Option.isSome_iff_exists.mp (hsome _ (List.mem_map_of_mem hp))
  obtain ⟨r, hr, rfl⟩ := h.parts p hp
  obtain rfl := hs r hr b hb
  exact ⟨_, hb, rfl⟩

theorem assembled_content {stored : Nat → Option Bytes} (hs : StoredInv j stored)
    (hsome : ∀ r ∈ j.ranges, (stored r.number).isSome = true) :
    assembled stored (j.ranges.map j.completedPart) = j.content := by
  have hslice : ∀ r ∈ j.ranges, (stored r.number).getD [] = r.slice j.content := by
    intro r hr
    obtain ⟨b, hb⟩ := Option.isSome_iff_exists.mp (hsome r hr)
    rw [hb, Option.getD_some]
    exact hs r hr b hb
  calc assembled stored (j.ranges.map j.completedPart)
      = j.ranges.flatMap fun r => (stored r.number).getD [] := List.flatMap_map ..
    _ = j.ranges.flatMap (·.slice j.content) := List.flatMap_congr hslice
    _ = j.content := partRanges_slices rfl

end Checkpoints

section Worlds

variable {j : Job} {w : World}

theorem initial_inv (j : Job) (nextId : Nat) (object : Option Bytes) :
    WorldInv j (World.initial nextId object) where
  checkpoint := nofun
  stored := nofun
  fresh := fun _ _ => rfl

theorem WorldInv.setLock (h : WorldInv j w) (lock : Bool) : WorldInv j { w with lock := lock } :=
  ⟨h.checkpoint, h.stored, h.fresh⟩

theorem WorldInv.setCheckpoint (h : WorldInv j w) {c : Checkpoint} (hc : CheckpointInv j c)
    (hid : ∀ id, c.uploadId = some id → id < w.nextId) :
    WorldInv j { w with checkpoint := some c } where
  checkpoint := by
    rintro c' ⟨⟩
    exact ⟨hc, hid⟩
  stored := h.stored
  fresh := h.fresh

theorem WorldInv.removeCheckpoint (h : WorldInv j w) : WorldInv j { w with checkpoint := none } :=
  ⟨nofun, h.stored, h.fresh⟩

theorem WorldInv.live_lt (h : WorldInv j w) {id : Nat} {stored : Nat → Option Bytes}
    (hl : w.uploads id = some stored) : id < w.nextId := by
  by_contra hge
  have := h.fresh id (by omega)
  simp [hl] at this

theorem WorldInv.create (h : WorldInv j w) : WorldInv j
    { w.putUpload w.nextId (some fun _ => none) with nextId := w.nextId + 1 } where
  checkpoint := fun c hc => ⟨(h.checkpoint c hc).1, fun id hid =>
    Nat.lt_succ_of_lt ((h.checkpoint c hc).2 id hid)⟩
  stored := by
    intro id stored hs
    by_cases he : id = w.nextId
    · simp only [World.putUpload, he, Function.update_self, Option.some.injEq] at hs
      subst hs
      nofun
    · exact h.stored id stored (by simpa [World.putUpload, he] using hs)
  fresh := by
    intro id hid
    have hid : w.nextId + 1 ≤ id := hid
    have hne : id ≠ w.nextId := by omega
    simpa [World.putUpload, hne] using h.fresh id (by omega)

theorem WorldInv.store (h : WorldInv j w) {id : Nat} {stored : Nat → Option Bytes}
    (hl : w.uploads id = some stored) {r : PartRange} (hr : r ∈ j.ranges) :
    WorldInv j (w.putUpload id (some (storePart stored r (r.slice j.content)))) where
  checkpoint := h.checkpoint
  stored := by
    intro id' stored' hs
    by_cases he : id' = id
    · simp only [World.putUpload, he, Function.update_self, Option.some.injEq] at hs
      subst hs
      exact (h.stored id stored hl).storePart hr
    · exact h.stored id' stored' (by simpa [World.putUpload, he] using hs)
  fresh := by
    intro id' hid
    have hlt := h.live_lt hl
    have hid : w.nextId ≤ id' := hid
    have hne : id' ≠ id := by omega
    simpa [World.putUpload, hne] using h.fresh id' hid

theorem WorldInv.retire (h : WorldInv j w) (id : Nat) (object : Option Bytes) :
    WorldInv j { w.putUpload id none with object := object } where
  checkpoint := h.checkpoint
  stored := by
    intro id' stored' hs
    by_cases he : id' = id
    · simp [World.putUpload, he] at hs
    · exact h.stored id' stored' (by simpa [World.putUpload, he] using hs)
  fresh := by
    intro id' hid
    by_cases he : id' = id
    · simp [World.putUpload, he]
    · simpa [World.putUpload, he] using h.fresh id' hid

end Worlds

end VeStorage.Tos.Multipart
