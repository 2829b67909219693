import VeStorage.ADrive.ShareRange.Machine
import VeStorage.Lib.Regions

namespace VeStorage.ADrive.ShareRange
open Lib
open Lib.Crash (Ensures Stop ensures_atomic ensures_forEach ensures_observe ensures_pure ensures_raise
  ensures_require forEach)
open Lib.Regions (Region patch)
open ADrive.Share (CliError Hash hexEncode)
open Tos.Transfer (PartRange)

section Plan

variable {size : UInt64} {ranges : List DownloadRange} {range other : DownloadRange} {r : PartRange}

theorem mem_plan {plan : List PartRange} (hplan : Download.rangePlan size.toNat = some plan) (hr : r ∈ plan) :
    (ofPart r).number.toNat = r.number ∧ (ofPart r).offset.toNat = r.offset ∧
      (ofPart r).size.toNat = r.size ∧ r.offset + r.size ≤ size.toNat := by
  unfold Download.rangePlan at hplan
  split at hplan
  · cases hplan
  next hcount =>
    cases hplan
    obtain ⟨hnumber, hoffset, hlt, hsize⟩ := Tos.Transfer.mem_partRangesFrom hr
    have hbound := size.toNat_lt
    have hpos : 0 < Checkpoint.adriveMultipartPartSize := by decide
    have hparts : size.toNat ≤ Checkpoint.adriveMultipartPartSize * Download.u32Max := by
      rw [not_lt, Nat.div_le_iff_le_mul_add_pred hpos] at hcount
      omega
    have hlast : r.number - 1 < Download.u32Max := by
      refine Nat.lt_of_mul_lt_mul_right (a := Checkpoint.adriveMultipartPartSize) ?_
      rw [Nat.mul_comm Download.u32Max]
      omega
    have hend : r.offset + r.size ≤ size.toNat := by omega
    unfold Download.u32Max at hlast
    refine ⟨UInt32.toNat_ofNat_of_lt' ?_, UInt64.toNat_ofNat_of_lt' ?_, UInt64.toNat_ofNat_of_lt' ?_, hend⟩
    · rw [UInt32.size]
      omega
    · rw [UInt64.size]
      omega
    · rw [UInt64.size]
      omega

-- The ranges are apart from each other and cover the file in their order.
structure Planned (size : UInt64) (ranges : List DownloadRange) : Prop where
  nodup : ranges.Nodup
  within : ∀ r ∈ ranges, r.offset.toNat + r.size.toNat ≤ size.toNat
  apart : ∀ r ∈ ranges, ∀ r' ∈ ranges, r ≠ r' → r.offset.toNat + r.size.toNat ≤ r'.offset.toNat ∨
    r'.offset.toNat + r'.size.toNat ≤ r.offset.toNat
  slices : ∀ bytes : List UInt8, bytes.length = size.toNat → ranges.flatMap (·.slice bytes) = bytes

theorem planned (h : rangePlan size = some ranges) : Planned size ranges := by
  obtain ⟨plan, hplan, rfl⟩ := Option.map_eq_some_iff.mp h
  have heq : plan = Checkpoint.ranges size.toNat := by
    unfold Download.rangePlan at hplan
    split at hplan
    · cases hplan
    · exact (Option.some.inj hplan).symm
  have hapart : ∀ r ∈ plan, ∀ r' ∈ plan, r.number < r'.number → r.offset + r.size ≤ r'.offset := by
    intro r hr r' hr' hlt
    rw [heq] at hr hr'
    obtain ⟨hnumber, hoffset, -, hsize⟩ := Tos.Transfer.mem_partRangesFrom hr
    obtain ⟨-, hoffset', -⟩ := Tos.Transfer.mem_partRangesFrom hr'
    have hmul : (r.number - 1 + 1) * Checkpoint.adriveMultipartPartSize ≤
        (r'.number - 1) * Checkpoint.adriveMultipartPartSize := Nat.mul_le_mul_right _ (by omega)
    rw [Nat.succ_mul] at hmul
    omega
  refine ⟨?_, fun range hrange => ?_, fun range hrange other hother hne => ?_, fun bytes hbytes => ?_⟩
  · refine List.Nodup.map_on (fun r hr r' hr' he => ?_) ?_
    · obtain ⟨hnumber, -⟩ := mem_plan hplan hr
      obtain ⟨hnumber', -⟩ := mem_plan hplan hr'
      rw [he, hnumber'] at hnumber
      subst heq
      exact Checkpoint.ranges_number_inj hr hr' hnumber.symm
    · rw [heq]
      exact List.Nodup.of_map _ (Tos.Transfer.partRangesFrom_numbers_nodup _ _ _)
  · obtain ⟨r, hr, rfl⟩ := List.mem_map.mp hrange
    obtain ⟨-, hoffset, hsize, hend⟩ := mem_plan hplan hr
    rwa [hoffset, hsize]
  · obtain ⟨r, hr, rfl⟩ := List.mem_map.mp hrange
    obtain ⟨r', hr', rfl⟩ := List.mem_map.mp hother
    obtain ⟨-, hoffset, hsize, -⟩ := mem_plan hplan hr
    obtain ⟨-, hoffset', hsize', -⟩ := mem_plan hplan hr'
    rw [hoffset, hsize, hoffset', hsize']
    rcases Nat.lt_trichotomy r.number r'.number with hlt | he | hgt
    · exact .inl (hapart r hr r' hr' hlt)
    · subst heq
      exact absurd (congrArg ofPart (Checkpoint.ranges_number_inj hr hr' he)) hne
    · exact .inr (hapart r' hr' r hr hgt)
  · rw [List.flatMap_map]
    have hslices : plan.flatMap (·.slice bytes) = bytes := by
      rw [heq]
      exact Checkpoint.ranges_slices hbytes
    refine (List.flatMap_congr fun r hr => ?_).trans hslices
    obtain ⟨-, hoffset, hsize, -⟩ := mem_plan hplan hr
    rw [DownloadRange.slice, hoffset, hsize]
    rfl

theorem Planned.slice_length (h : Planned size ranges) (hr : range ∈ ranges) {bytes : List UInt8}
    (hb : bytes.length = size.toNat) : (range.slice bytes).length = range.size.toNat := by
  have hwithin := h.within range hr
  rw [DownloadRange.slice, List.length_take, List.length_drop]
  omega

end Plan

section Honest

-- A receipt that a run would believe speaks of the remote bytes.
def Honest (env : Env) (remote : Remote) (dir : Directory) : Prop :=
  ∀ range bytes receipt, dir (receiptName range) = some (.ordinary bytes) →
    env.fromSlice bytes = some receipt → receipt.isValid range = true →
      receipt.sha256 = hexEncode (env.sha256 (range.slice remote.content)).bytes

variable {env : Env} {remote : Remote} {dir dir' : Directory} {range : DownloadRange}

theorem honest_fresh : Honest env remote fun _ => none := by
  intro range bytes receipt h
  cases h

theorem Honest.torn (h : Honest env remote dir) (ht : Torn env dir dir') : Honest env remote dir' := by
  intro range bytes receipt hbytes hread hvalid
  rcases ht (receiptName range) with heq | hnone | ⟨other, file, hname, -⟩ | ⟨bytes', hbytes', hbad⟩
  · exact h range bytes receipt (heq ▸ hbytes) hread hvalid
  · rw [hnone] at hbytes
    cases hbytes
  · exact absurd hname.symm (partName_ne_receiptName other range)
  · rw [hbytes'] at hbytes
    cases hbytes
    rw [hbad] at hread
    cases hread

theorem Honest.set_none (h : Honest env remote dir) (name : Text) : Honest env remote (dir.set name none) :=
  h.torn fun other => by
    by_cases ho : other = name
    · exact .inr (.inl (by rw [ho, set_self]))
    · exact .inl (set_other ho)

theorem Honest.set_part (h : Honest env remote dir) (range : DownloadRange) (file : List UInt8) :
    Honest env remote (dir.set (partName range) (some (.ordinary file))) :=
  h.torn fun other => by
    by_cases ho : other = partName range
    · exact .inr (.inr (.inl ⟨range, file, ho, by rw [ho, set_self]⟩))
    · exact .inl (set_other ho)

theorem eq_of_isValid {digest : Text} {other : DownloadRange}
    (h : (receiptOf range digest).isValid other = true) : range = other := by
  rw [Receipt.isValid, Bool.and_eq_true, Bool.and_eq_true, Bool.and_eq_true, Bool.and_eq_true,
    Bool.and_eq_true] at h
  obtain ⟨⟨⟨⟨⟨-, hnumber⟩, hoffset⟩, hsize⟩, -⟩, -⟩ := h
  cases range with
  | mk number offset size =>
    cases other with
    | mk number' offset' size' =>
      rw [DownloadRange.mk.injEq]
      exact ⟨of_decide_eq_true hnumber, of_decide_eq_true hoffset, of_decide_eq_true hsize⟩

theorem Honest.set_receipt (h : Honest env remote dir) {digest : Text}
    (hread : env.Reads (receiptOf range digest))
    (hdigest : digest = hexEncode (env.sha256 (range.slice remote.content)).bytes) :
    Honest env remote (dir.set (receiptName range) (some (.ordinary (receiptOf range digest).toVec))) := by
  intro other bytes receipt hbytes hreceipt hvalid
  by_cases ho : receiptName other = receiptName range
  · rw [ho, set_self] at hbytes
    cases hbytes
    rw [hread] at hreceipt
    cases hreceipt
    rw [← eq_of_isValid hvalid]
    exact hdigest
  · rw [set_other ho] at hbytes
    exact h other bytes receipt hbytes hreceipt hvalid

end Honest

section Store

variable {env : Env} {remote : Remote} {dir : Directory} {range : DownloadRange} {name : Text}
  {α : Type}

-- A call that only looks, with what its answer says of the directory.
def Looks (m : Io α) (dir : Directory) (Q : α → Prop) : Prop :=
  Ensures m dir (fun out dir' => dir' = dir ∧ Q out) fun _ dir' => dir' = dir

theorem ordinary_looks (name : Text) (dir : Directory) : Looks (ordinary name) dir fun _ => True := by
  refine ensures_observe ?_
  split
  · exact ensures_pure ⟨rfl, trivial⟩
  · exact ensures_raise rfl
  · exact ensures_pure ⟨rfl, trivial⟩

theorem read_looks (name : Text) (dir : Directory) :
    Looks (read name) dir fun bytes => dir name = some (.ordinary bytes) := by
  refine ensures_observe ?_
  split
  next bytes h => exact ensures_pure ⟨rfl, h⟩
  · exact ensures_raise rfl
  · exact ensures_raise rfl

theorem Looks.bind {β : Type} {m : Io α} {f : α → Io β} {Q : α → Prop} {R : β → Directory → Prop}
    {E : Stop CliError → Directory → Prop} (h : Looks m dir Q) (he : ∀ stop, E stop dir)
    (hf : ∀ a, Q a → Ensures (f a) dir R E) : Ensures (m >>= f) dir R E := by
  refine Ensures.bind (h.mono (fun _ _ hout => hout) fun stop dir' hstop => ?_) fun a dir' ha => ?_
  · rw [hstop]
    exact he stop
  · rw [ha.1]
    exact hf a ha.2

def Believed (env : Env) (remote : Remote) (range : DownloadRange) (digest : Text) : Prop :=
  digest = hexEncode (env.sha256 (range.slice remote.content)).bytes

theorem readReceipt_looks (h : Honest env remote dir) (range : DownloadRange) :
    Looks (readReceipt env range) dir fun out =>
      ∀ receipt, out = some receipt → Believed env remote range receipt.sha256 := by
  refine (ordinary_looks _ dir).bind (fun _ => rfl) fun hasPart _ => ?_
  refine (ordinary_looks _ dir).bind (fun _ => rfl) fun hasReceipt _ => ?_
  split
  · refine (read_looks _ dir).bind (fun _ => rfl) fun bytes hbytes => ?_
    split
    · exact ensures_pure ⟨rfl, fun receipt hreceipt => by cases hreceipt⟩
    · refine ensures_pure ⟨rfl, fun receipt hreceipt => ?_⟩
      obtain ⟨hread, hvalid⟩ := Option.filter_eq_some_iff.mp hreceipt
      exact h range bytes receipt hbytes hread hvalid
  · exact ensures_pure ⟨rfl, fun receipt hreceipt => by cases hreceipt⟩

theorem discard_honest (h : Honest env remote dir) (range : DownloadRange) :
    Ensures (discard range) dir (fun _ => Honest env remote) fun _ => Honest env remote := by
  refine ensures_forEach discardFile (I := fun _ => Honest env remote) (fun _ name dir h => ?_) _ [] h
  refine (ordinary_looks _ dir).bind (fun _ => h) fun isPresent _ => ?_
  split
  · refine ensures_observe (ensures_require (fun _ => h) fun _ => ?_)
    exact ensures_atomic (h.set_none name) (fun _ => h) fun _ => h.set_none name
  · exact ensures_pure h

theorem discards_honest (h : Honest env remote dir) (ranges : List DownloadRange) :
    Ensures (forEach ranges discard) dir (fun _ => Honest env remote) fun _ => Honest env remote :=
  ensures_forEach discard (I := fun _ => Honest env remote) (fun _ range _ h => discard_honest h range)
    ranges [] h

theorem openCompleted_honest (h : Honest env remote dir) (range : DownloadRange) :
    Ensures (openCompleted env range) dir
      (fun out dir' => Honest env remote dir' ∧
        ∀ found, out = some found → Believed env remote range found.2)
      fun _ => Honest env remote := by
  have hdiscard : Ensures (do discard range; return none : Io (Option (List UInt8 × Text))) dir
      (fun out dir' => Honest env remote dir' ∧
        ∀ found, out = some found → Believed env remote range found.2)
      fun _ => Honest env remote := by
    refine (discard_honest h range).bind fun _ dir' hdir => ?_
    exact ensures_pure ⟨hdir, fun found hfound => by cases hfound⟩
  refine (readReceipt_looks h range).bind (fun _ => h) fun receipt hreceipt => ?_
  cases receipt with
  | none => exact hdiscard
  | some receipt =>
    refine (read_looks _ dir).bind (fun _ => h) fun file _ => ?_
    split
    · exact hdiscard
    · refine ensures_pure ⟨h, fun found hfound => ?_⟩
      cases hfound
      exact hreceipt receipt rfl

theorem restore_honest (h : Honest env remote dir) (range : DownloadRange) :
    Ensures (restore env range) dir (fun _ => Honest env remote) fun _ => Honest env remote := by
  refine (openCompleted_honest h range).bind fun completed dir' hdir => ?_
  cases completed with
  | none => exact ensures_pure hdir.1
  | some found =>
    dsimp only
    split
    · exact (discard_honest hdir.1 range).bind fun _ dir'' hdir => ensures_pure hdir
    · exact ensures_pure hdir.1

theorem complete_honest (h : Honest env remote dir) (part : List UInt8) {digest : Text}
    (hread : env.Reads (receiptOf range digest)) (hdigest : Believed env remote range digest) :
    Ensures (complete range part digest) dir (fun _ => Honest env remote) fun _ => Honest env remote := by
  refine Ensures.bind (Q := fun _ => Honest env remote) ?_ fun _ dir' hdir => ?_
  · refine (ordinary_looks _ dir).bind (fun _ => h) fun isPresent _ => ?_
    refine ensures_require (fun _ => h) fun _ => ?_
    exact ensures_atomic (h.set_part range part) (fun _ => h) fun _ => h.set_part range part
  · refine (ordinary_looks _ dir').bind (fun _ => hdir) fun isPresent _ => ?_
    refine ensures_require (fun _ => hdir) fun _ => ?_
    have hset := hdir.set_receipt hread hdigest
    exact ensures_atomic hset (fun _ => hdir) fun _ => hset

end Store

end VeStorage.ADrive.ShareRange
