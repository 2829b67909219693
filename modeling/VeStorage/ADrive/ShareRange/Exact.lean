import VeStorage.ADrive.ShareRange.Recover

namespace VeStorage.ADrive.ShareRange
open Lib
open Lib.Crash (bind_run observe_run)
open Lib.Regions (Region patch length_patch region_nil)
open ADrive.Share (Hash hexEncode)

-- What is assumed of the receipts' JSON and of SHA-256.
structure Sound (env : Env) (remote : Remote) : Prop where
  reads : ∀ ranges, rangePlan remote.size = some ranges → ∀ range ∈ ranges,
    env.Reads (receiptOf range (hexEncode (env.sha256 (range.slice remote.content)).bytes))
  collisionFree : ∀ ranges, rangePlan remote.size = some ranges → ∀ range ∈ ranges, ∀ bytes : List UInt8,
    bytes.length = range.size.toNat →
      hexEncode (env.sha256 bytes).bytes = hexEncode (env.sha256 (range.slice remote.content)).bytes →
        bytes = range.slice remote.content

section Jobs

def Fetched (remote : Remote) (args : Args) (staged : List UInt8) (range : DownloadRange) : Prop :=
  args.hasCheckpoint = true ∨ Region staged range.offset.toNat (range.slice remote.content)

def JobInv (remote : Remote) (args : Args) (staged : List UInt8) (range : DownloadRange) : Job → Prop
  | .restoring => args.hasCheckpoint = true
  | .requesting _ part => part.length ≤ range.size.toNat
  | .receiving _ part body => part.length ≤ range.size.toNat ∧ body <+: range.slice remote.content ∧
      (args.hasCheckpoint = false → Region staged range.offset.toNat body) ∧
      (args.hasCheckpoint = true → part.take body.length = body)

structure Transferring (remote : Remote) (args : Args) (staged : List UInt8)
    (ranges pending : List DownloadRange) (inFlight : List (DownloadRange × Job)) : Prop where
  plan : rangePlan remote.size = some ranges
  length : staged.length = remote.size.toNat
  pool : PoolInv ranges (Fetched remote args staged) pending inFlight
  jobs : ∀ e ∈ inFlight, JobInv remote args staged e.1 e.2

variable {remote : Remote} {args : Args} {staged chunk : List UInt8} {ranges pending : List DownloadRange}
  {before after inFlight : List (DownloadRange × Job)} {range : DownloadRange} {job job' : Job}

theorem Transferring.planned (h : Transferring remote args staged ranges pending inFlight) :
    Planned remote.size ranges := ShareRange.planned h.plan

theorem Transferring.running (h : Transferring remote args staged ranges pending (before ++ (range, job) :: after)) :
    JobInv remote args staged range job :=
  h.jobs (range, job) (by simp)

theorem Transferring.launch (h : Transferring remote args staged ranges (range :: pending) inFlight)
    (hjob : JobInv remote args staged range job) :
    Transferring remote args staged ranges pending (inFlight ++ [(range, job)]) where
  plan := h.plan
  length := h.length
  pool := h.pool.launch job
  jobs e he := by
    rcases List.mem_append.mp he with he | he
    · exact h.jobs e he
    · rw [List.mem_singleton.mp he]
      exact hjob

theorem Transferring.finish (h : Transferring remote args staged ranges pending (before ++ (range, job) :: after))
    (hdone : Fetched remote args staged range) :
    Transferring remote args staged ranges pending (before ++ after) where
  plan := h.plan
  length := h.length
  pool := h.pool.finish hdone
  jobs e he := by
    refine h.jobs e ?_
    rcases List.mem_append.mp he with he | he
    · exact List.mem_append_left _ he
    · exact List.mem_append_right _ (List.mem_cons_of_mem _ he)

theorem others_ne (h : (pending ++ (before ++ (range, job) :: after).map Prod.fst).Nodup) :
    ∀ e ∈ before ++ after, e.1 ≠ range := by
  have hnodup := (finish_perm pending before after range job).nodup_iff.mp h
  intro e he heq
  refine (List.nodup_cons.mp hnodup).1 (List.mem_append_right _ ?_)
  exact heq ▸ List.mem_map_of_mem he

-- A job moves on, and with it the part of the staged file that is its own.
theorem Transferring.progress {staged' : List UInt8}
    (h : Transferring remote args staged ranges pending (before ++ (range, job) :: after))
    (hlength : staged'.length = staged.length) (hjob : JobInv remote args staged' range job')
    (hfetched : ∀ other ∈ ranges, other ≠ range → Fetched remote args staged other →
      Fetched remote args staged' other)
    (hothers : ∀ other ∈ ranges, other ≠ range → ∀ job, JobInv remote args staged other job →
      JobInv remote args staged' other job) :
    Transferring remote args staged' ranges pending (before ++ (range, job') :: after) where
  plan := h.plan
  length := hlength.trans h.length
  pool := h.pool.progress hfetched
  jobs e he := by
    by_cases hsame : e = (range, job')
    · rw [hsame]
      exact hjob
    · have he : e ∈ before ++ after := by
        rcases List.mem_append.mp he with he | he
        · exact List.mem_append_left _ he
        · exact List.mem_append_right _ ((List.mem_cons.mp he).resolve_left hsame)
      have hin : e ∈ before ++ (range, job) :: after := by
        rcases List.mem_append.mp he with he | he
        · exact List.mem_append_left _ he
        · exact List.mem_append_right _ (List.mem_cons_of_mem _ he)
      have hplanned : e.1 ∈ ranges := h.pool.planned e.1 (List.mem_append_right _ (List.mem_map_of_mem hin))
      exact hothers e.1 hplanned (others_ne h.pool.nodup e he) e.2 (h.jobs e hin)

theorem Transferring.change (h : Transferring remote args staged ranges pending (before ++ (range, job) :: after))
    (hjob : JobInv remote args staged range job') :
    Transferring remote args staged ranges pending (before ++ (range, job') :: after) :=
  h.progress rfl hjob (fun _ _ _ hf => hf) fun _ _ _ _ hj => hj

theorem slice_bound (h : Planned remote.size ranges) (hr : range ∈ ranges) {body : List UInt8}
    (hbody : body <+: range.slice remote.content) : body.length ≤ range.size.toNat :=
  hbody.length_le.trans_eq (h.slice_length hr remote.size_eq)

theorem Transferring.write {attempt : Nat} {part body : List UInt8} (hc : args.hasCheckpoint = false)
    (h : Transferring remote args staged ranges pending (before ++ (range, .receiving attempt part body) :: after))
    (hchunk : body ++ chunk <+: range.slice remote.content) :
    Transferring remote args (writeAt staged chunk (range.offset.toNat + body.length)) ranges pending
      (before ++ (range, .receiving attempt part (body ++ chunk)) :: after) := by
  obtain ⟨hpart, hbody, hregion, -⟩ := h.running
  have hr : range ∈ ranges := h.pool.running_mem
  have hsize := slice_bound h.planned hr hchunk
  rw [List.length_append] at hsize
  have hwithin := h.planned.within range hr
  have hlength := h.length
  have hnew : range.offset.toNat + body.length + chunk.length ≤ staged.length := by omega
  have hkeep : ∀ other ∈ ranges, other ≠ range → ∀ bytes : List UInt8,
      bytes <+: other.slice remote.content → Region staged other.offset.toNat bytes →
        Region (writeAt staged chunk (range.offset.toNat + body.length)) other.offset.toNat bytes := by
    intro other hother hne bytes hbytes hold
    have hle := slice_bound h.planned hother hbytes
    have happart := h.planned.apart other hother range hr hne
    exact hold.other hnew (by omega)
  refine h.progress (length_patch hnew) ⟨hpart, hchunk, fun _ => ?_, fun hyes => ?_⟩ ?_ ?_
  · exact (hregion hc).extend (by omega) chunk
  · rw [hc] at hyes
    cases hyes
  · intro other hother hne hf
    exact hf.imp_right (hkeep other hother hne _ (List.prefix_refl _))
  · intro other hother hne job hj
    cases job with
    | restoring => exact hj
    | requesting attempt part => exact hj
    | receiving attempt part body =>
      obtain ⟨hp, hb, hregion, htake⟩ := hj
      exact ⟨hp, hb, fun hc => hkeep other hother hne body hb (hregion hc), htake⟩

theorem Transferring.writePart {attempt : Nat} {part body : List UInt8} (hc : args.hasCheckpoint = true)
    (h : Transferring remote args staged ranges pending (before ++ (range, .receiving attempt part body) :: after))
    (hchunk : body ++ chunk <+: range.slice remote.content) :
    Transferring remote args staged ranges pending
      (before ++ (range, .receiving attempt (writeAt part chunk body.length) (body ++ chunk)) :: after) := by
  obtain ⟨hpart, hbody, -, htake⟩ := h.running
  have htake := htake hc
  have hle : body.length ≤ part.length := by
    have hlength := congrArg List.length htake
    rw [List.length_take] at hlength
    omega
  have hsize := slice_bound h.planned h.pool.running_mem hchunk
  rw [List.length_append] at hsize
  refine h.change ⟨?_, hchunk, fun hno => ?_, fun _ => take_writeAt htake⟩
  · rw [writeAt_length chunk hle]
    omega
  · rw [hc] at hno
    cases hno

theorem eq_slice {body : List UInt8} (h : Planned remote.size ranges) (hr : range ∈ ranges)
    (hbody : body <+: range.slice remote.content) (hsize : body.length = range.size.toNat) :
    body = range.slice remote.content :=
  hbody.eq_of_length (hsize.trans (h.slice_length hr remote.size_eq).symm)

-- Every range is in its place, and the ranges are the file.
theorem Transferring.staged_eq (hc : args.hasCheckpoint = false)
    (h : Transferring remote args staged ranges [] []) : staged = remote.content := by
  have hslices : ∀ range ∈ ranges, range.slice staged = range.slice remote.content := by
    intro range hr
    rcases h.pool.all_done range hr with hyes | hregion
    · rw [hc] at hyes
      cases hyes
    · have htake := hregion.take
      rwa [h.planned.slice_length hr remote.size_eq] at htake
  calc staged = ranges.flatMap (·.slice staged) := (h.planned.slices staged h.length).symm
    _ = ranges.flatMap (·.slice remote.content) := List.flatMap_congr hslices
    _ = remote.content := h.planned.slices remote.content remote.size_eq

end Jobs

section Assembly

structure Assembling (remote : Remote) (staged : List UInt8) (rest : List DownloadRange) (written : Nat) :
    Prop where
  split : ∃ ranges copied, rangePlan remote.size = some ranges ∧ ranges = copied ++ rest ∧
    written = (copied.flatMap (·.slice remote.content)).length ∧
    Region staged 0 (copied.flatMap (·.slice remote.content))
  length : staged.length = remote.size.toNat

variable {env : Env} {remote : Remote} {staged part : List UInt8} {range : DownloadRange}
  {ranges rest : List DownloadRange} {written : Nat}

theorem assembling_start (hplan : rangePlan remote.size = some ranges) (hlength : staged.length = remote.size.toNat) :
    Assembling remote staged ranges 0 where
  split := ⟨ranges, [], hplan, rfl, rfl, region_nil staged 0⟩
  length := hlength

theorem Assembling.copy (h : Assembling remote staged (range :: rest) written) (hs : Sound env remote)
    {expected : Text} (hsize : part.length = range.size.toNat)
    (hdigest : hexEncode (env.sha256 part).bytes = expected) (hbelieved : Believed env remote range expected) :
    Assembling remote (writeAt staged part written) rest (written + part.length) := by
  obtain ⟨ranges, copied, hplan, hranges, rfl, hregion⟩ := h.split
  have hr : range ∈ ranges := by simp [hranges]
  have hpart : part = range.slice remote.content :=
    hs.collisionFree ranges hplan range hr part hsize (hdigest.trans hbelieved)
  have hcopied : (copied ++ [range]).flatMap (·.slice remote.content) =
      copied.flatMap (·.slice remote.content) ++ part := by
    rw [List.flatMap_append, List.flatMap_singleton, hpart]
  have hwhole := (planned hplan).slices remote.content remote.size_eq
  have hfits : (copied.flatMap (·.slice remote.content)).length + part.length ≤ staged.length := by
    have hlength := congrArg List.length hwhole
    rw [hranges, List.append_cons, List.flatMap_append, hcopied, List.length_append, List.length_append,
      remote.size_eq] at hlength
    have hstaged := h.length
    omega
  have hextended := hregion.extend (by omega) part
  rw [Nat.zero_add, ← hcopied] at hextended
  refine ⟨⟨ranges, copied ++ [range], hplan, ?_, ?_, hextended⟩, ?_⟩
  · rw [hranges, List.append_cons]
  · rw [hcopied, List.length_append]
  · exact (length_patch hfits).trans h.length

theorem Assembling.staged_eq (h : Assembling remote staged [] written) : staged = remote.content := by
  obtain ⟨ranges, copied, hplan, hranges, -, hregion⟩ := h.split
  rw [List.append_nil] at hranges
  rw [← hranges, (planned hplan).slices remote.content remote.size_eq, Region, List.drop_zero] at hregion
  exact (hregion.eq_of_length (remote.size_eq.trans h.length.symm)).symm

end Assembly

section Machine

variable (env : Env) (remote : Remote) (args : Args)

def StageInv (staged : List UInt8) : Stage → Prop
  | .start => True
  | .transfer pending inFlight => ∃ ranges, Transferring remote args staged ranges pending inFlight
  | .assemble rest written => Assembling remote staged rest written
  | .verify => staged = remote.content
  | .done digest => ∀ d, digest = some d →
      staged = remote.content ∧ d = hexEncode (env.sha256 remote.content).bytes

structure Inv (s : State) : Prop where
  honest : Honest env remote s.directory
  stage : StageInv env remote args s.staged s.stage

variable {env remote args} {s s' x : State} {dir : Directory} {staged : List UInt8}

theorem stopped (h : Honest env remote dir) : Inv env remote args ⟨dir, staged, .done none⟩ :=
  ⟨h, fun d hd => by cases hd⟩

theorem Inv.step (hs : Sound env remote) (hi : Inv env remote args s) (h : Step env remote args s s') :
    Inv env remote args s' := by
  cases h with
  | fail dir staged stage h => exact stopped hi.honest
  | plan dir staged ranges h hc =>
    refine ⟨hi.honest, ranges, h, List.length_replicate, PoolInv.all_pending (planned h).nodup, ?_⟩
    intro e he
    cases he
  | launch dir staged range pending inFlight hroom =>
    obtain ⟨ranges, ht⟩ := hi.stage
    refine ⟨hi.honest, ranges, ht.launch ?_⟩
    unfold Job.first
    split
    next hc => exact hc
    next hc => exact Nat.zero_le _
  | restored dir staged pending before range after faults found left h =>
    obtain ⟨ranges, ht⟩ := hi.stage
    have hrestored := restore_honest hi.honest range faults
    rw [h] at hrestored
    exact ⟨hrestored, ranges, ht.finish (.inl ht.running)⟩
  | stage dir staged pending before range after faults left h =>
    obtain ⟨ranges, ht⟩ := hi.stage
    have hrestored := restore_honest hi.honest range faults
    rw [h] at hrestored
    exact ⟨hrestored, ranges, ht.change (Nat.zero_le _)⟩
  | restoreStopped dir staged pending before range after faults stop left h =>
    have hrestored := restore_honest hi.honest range faults
    rw [h] at hrestored
    exact stopped hrestored
  | refused dir staged pending before range after attempt part hleft =>
    obtain ⟨ranges, ht⟩ := hi.stage
    exact ⟨hi.honest, ranges, ht.change ht.running⟩
  | respond dir staged pending before range after attempt part =>
    obtain ⟨ranges, ht⟩ := hi.stage
    exact ⟨hi.honest, ranges, ht.change ⟨ht.running, List.nil_prefix, fun _ => region_nil _ _, fun _ => rfl⟩⟩
  | chunk dir staged pending before range after attempt part body chunk h hchunk =>
    obtain ⟨ranges, ht⟩ := hi.stage
    exact ⟨hi.honest, ranges, ht.write h hchunk⟩
  | chunkPart dir staged pending before range after attempt part body chunk h hchunk =>
    obtain ⟨ranges, ht⟩ := hi.stage
    exact ⟨hi.honest, ranges, ht.writePart h hchunk⟩
  | interrupted dir staged pending before range after attempt part body hleft =>
    obtain ⟨ranges, ht⟩ := hi.stage
    exact ⟨hi.honest, ranges, ht.change ht.running.1⟩
  | received dir staged pending before range after attempt part body h hsize =>
    obtain ⟨ranges, ht⟩ := hi.stage
    obtain ⟨-, hbody, hregion, -⟩ := ht.running
    have hwhole := eq_slice ht.planned ht.pool.running_mem hbody hsize
    exact ⟨hi.honest, ranges, ht.finish (.inr (hwhole ▸ hregion h))⟩
  | completed dir staged pending before range after attempt part body faults left hc hsize h =>
    obtain ⟨ranges, ht⟩ := hi.stage
    obtain ⟨-, hbody, -, -⟩ := ht.running
    have hwhole := eq_slice ht.planned ht.pool.running_mem hbody hsize
    have hreads := hs.reads ranges ht.plan range ht.pool.running_mem
    rw [hwhole] at h
    have hcompleted := complete_honest hi.honest part hreads rfl faults
    rw [h] at hcompleted
    exact ⟨hcompleted, ranges, ht.finish (.inl hc)⟩
  | completeStopped dir staged pending before range after attempt part body faults stop left hc hsize h =>
    obtain ⟨ranges, ht⟩ := hi.stage
    obtain ⟨-, hbody, -, -⟩ := ht.running
    have hwhole := eq_slice ht.planned ht.pool.running_mem hbody hsize
    have hreads := hs.reads ranges ht.plan range ht.pool.running_mem
    rw [hwhole] at h
    have hcompleted := complete_honest hi.honest part hreads rfl faults
    rw [h] at hcompleted
    exact stopped hcompleted
  | transferred dir staged h =>
    obtain ⟨ranges, ht⟩ := hi.stage
    exact ⟨hi.honest, ht.staged_eq h⟩
  | assemble dir staged ranges hc h =>
    obtain ⟨ranges, ht⟩ := hi.stage
    exact ⟨hi.honest, assembling_start h ht.length⟩
  | copy dir staged range rest written faults part expected left h hsize hdigest =>
    have hopened := openCompleted_honest hi.honest range faults
    rw [h] at hopened
    have ha : Assembling remote staged (range :: rest) written := hi.stage
    exact ⟨hopened.1, ha.copy hs hsize hdigest (hopened.2 _ rfl)⟩
  | missing dir staged range rest written faults left h =>
    have hopened := openCompleted_honest hi.honest range faults
    rw [h] at hopened
    exact stopped hopened.1
  | openStopped dir staged range rest written faults stop left h =>
    have hopened := openCompleted_honest hi.honest range faults
    rw [h] at hopened
    exact stopped hopened
  | assembled dir staged written =>
    have ha : Assembling remote staged [] written := hi.stage
    exact ⟨hi.honest, ha.staged_eq⟩
  | verified dir staged hsize hcrc =>
    have heq : staged = remote.content := hi.stage
    refine ⟨hi.honest, fun d hd => ⟨heq, ?_⟩⟩
    rw [← Option.some.inj hd, heq]
  | cleared dir staged ranges faults left hbad hc hplan h =>
    have hcleared := discards_honest hi.honest ranges faults
    rw [h] at hcleared
    exact stopped hcleared
  | clearStopped dir staged ranges faults stop left hbad hc hplan h =>
    have hcleared := discards_honest hi.honest ranges faults
    rw [h] at hcleared
    exact stopped hcleared

theorem Inv.run (hs : Sound env remote) (hi : Inv env remote args s) (h : Run env remote args s x) :
    Inv env remote args x := by
  induction h with
  | refl => exact hi
  | tail _ hstep ih => exact ih.step hs hstep

theorem Left.honest (hs : Sound env remote) (h : Left env remote dir) : Honest env remote dir := by
  induction h with
  | fresh => exact honest_fresh
  | @run dir args x h hr ih =>
    have hstart : Inv env remote args ⟨dir, [], .start⟩ := ⟨ih, trivial⟩
    exact (hstart.run hs hr).honest
  | torn h ht ih => exact ih.torn ht

end Machine

theorem recovered_download_exact (env : Env) (remote : Remote) (hs : Sound env remote) (dir : Directory)
    (hl : Left env remote dir) (args : Args) (x : State) (hr : Run env remote args ⟨dir, [], .start⟩ x)
    (digest : Text) (hok : x.stage = .done (some digest)) :
    x.staged = remote.content ∧ digest = hexEncode (env.sha256 remote.content).bytes ∧
    ∀ dir' args' x' digest', Left env remote dir' → Run env remote args' ⟨dir', [], .start⟩ x' →
      x'.stage = .done (some digest') → x'.staged = x.staged ∧ digest' = digest := by
  have hexact : ∀ dir args x digest, Left env remote dir → Run env remote args ⟨dir, [], .start⟩ x →
      x.stage = .done (some digest) →
        x.staged = remote.content ∧ digest = hexEncode (env.sha256 remote.content).bytes := by
    intro dir args x digest hl hr hok
    have hstart : Inv env remote args ⟨dir, [], .start⟩ := ⟨hl.honest hs, trivial⟩
    have hend := (hstart.run hs hr).stage
    rw [hok] at hend
    exact hend digest rfl
  obtain ⟨hstaged, hdigest⟩ := hexact dir args x digest hl hr hok
  refine ⟨hstaged, hdigest, fun dir' args' x' digest' hl' hr' hok' => ?_⟩
  obtain ⟨hstaged', hdigest'⟩ := hexact dir' args' x' digest' hl' hr' hok'
  exact ⟨hstaged'.trans hstaged.symm, hdigest'.trans hdigest.symm⟩

section Sample

def onlyRange : DownloadRange := ⟨1, 0, 2⟩

def onlyHash (bytes : List UInt8) : Hash := if bytes = sampleStaged then .ofBytes [1] else .ofBytes []

def onlyDigest : Text := hexEncode (onlyHash sampleStaged).bytes

def onlyEnv : Env where
  sha256 := onlyHash
  fromSlice bytes :=
    if bytes = (receiptOf onlyRange onlyDigest).toVec then some (receiptOf onlyRange onlyDigest) else none

def twoBytes : Remote := ⟨sampleStaged, 2, fun _ => 0, 0, rfl⟩

theorem twoBytes_plan : rangePlan twoBytes.size = some [onlyRange] := by decide

theorem twoBytes_reads : onlyEnv.Reads (receiptOf onlyRange onlyDigest) := by
  simp [Env.Reads, onlyEnv]

theorem twoBytes_sound : Sound onlyEnv twoBytes := by
  constructor
  · intro ranges hplan range hr
    cases twoBytes_plan.symm.trans hplan
    rw [List.mem_singleton.mp hr]
    exact twoBytes_reads
  · intro ranges hplan range hr bytes hsize hhash
    cases twoBytes_plan.symm.trans hplan
    rw [List.mem_singleton.mp hr] at hhash ⊢
    by_contra hne
    have hother : onlyEnv.sha256 bytes = .ofBytes [] := if_neg hne
    rw [hother] at hhash
    revert hhash
    decide

def withCheckpoint : Args := ⟨1, true⟩

-- A run that is killed after its range file and before the receipt of it.
def halfStored : Directory := Directory.set (fun _ => none) (partName onlyRange) (some (.ordinary sampleStaged))

theorem complete_killed : complete onlyRange sampleStaged onlyDigest ⟨fun _ => none, [.none, .crash 0]⟩ =
    .error .killed ⟨halfStored, []⟩ := by
  have hpart : publish (partName onlyRange) sampleStaged false ⟨fun _ => none, [.none, .crash 0]⟩ =
      .ok () ⟨halfStored, [.crash 0]⟩ := rfl
  have hreceipt : halfStored (receiptName onlyRange) = none :=
    set_other (partName_ne_receiptName onlyRange onlyRange).symm
  have hordinary : ordinary (receiptName onlyRange) ⟨halfStored, [.crash 0]⟩ =
      .ok false ⟨halfStored, [.crash 0]⟩ := by
    rw [ordinary, bind_run observe_run]
    dsimp only
    rw [hreceipt]
    rfl
  rw [complete, bind_run hpart, publish, bind_run hordinary]
  rfl

theorem restore_fresh : restore onlyEnv onlyRange ⟨fun _ => none, []⟩ = .ok none ⟨fun _ => none, []⟩ := by
  have hplain : Plain (fun _ => none) onlyRange := by
    constructor
    · simp
    · simp
  have hcleared : cleared (fun _ => none) onlyRange = fun _ => none := by
    rw [cleared, set_none_of_absent rfl, set_none_of_absent rfl]
  have hrun := @restore_discards onlyEnv _ _ hplain fun file digest hs => by cases hs.part
  rwa [hcleared] at hrun

theorem received_digest : hexEncode (onlyEnv.sha256 ([] ++ sampleStaged)).bytes = onlyDigest := by
  rw [List.nil_append, onlyDigest, onlyEnv]

theorem received_part : writeAt [] sampleStaged ([] : List UInt8).length = sampleStaged := rfl

theorem halfStored_left : Left onlyEnv twoBytes halfStored := by
  have hrun : Run onlyEnv twoBytes withCheckpoint ⟨fun _ => none, [], .start⟩
      ⟨halfStored, [0, 0], .done none⟩ := by
    refine .head (.plan _ _ _ twoBytes_plan (by decide)) ?_
    refine .head (.launch _ _ _ _ _ (by decide)) ?_
    refine .head (.stage _ _ _ [] _ [] [] _ restore_fresh) ?_
    refine .head (.respond _ _ _ [] _ [] _ _) ?_
    refine .head (.chunkPart _ _ _ [] _ [] _ _ _ sampleStaged rfl (List.prefix_refl _)) ?_
    refine .single (.completeStopped _ _ _ [] _ [] _ _ _ [.none, .crash 0] .killed ⟨halfStored, []⟩ rfl rfl ?_)
    rw [received_digest, received_part]
    exact complete_killed
  exact Left.run .fresh hrun

theorem halfStored_receipt : halfStored (receiptName onlyRange) = none :=
  set_other (partName_ne_receiptName onlyRange onlyRange).symm

theorem restore_halfStored : restore onlyEnv onlyRange ⟨halfStored, []⟩ = .ok none ⟨fun _ => none, []⟩ := by
  have hplain : Plain halfStored onlyRange := by
    constructor
    · rw [halfStored, set_self]
      simp
    · rw [halfStored_receipt]
      simp
  have hcleared : cleared halfStored onlyRange = fun _ => none := by
    funext name
    by_cases hp : name = partName onlyRange
    · rw [hp, cleared_part]
    · by_cases hr : name = receiptName onlyRange
      · rw [hr, cleared_receipt]
      · rw [cleared_other hp hr, halfStored, set_other hp]
  have hnone : ∀ file digest, ¬ Stored onlyEnv halfStored onlyRange file digest := by
    intro file digest hs
    obtain ⟨bytes, receipt, hr, -⟩ := hs.receipt
    rw [halfStored_receipt] at hr
    cases hr
  have hrun := restore_discards hplain hnone
  rwa [hcleared] at hrun

theorem recovered_download_exact_killed : ∃ x : State, Left onlyEnv twoBytes halfStored ∧
    Run onlyEnv twoBytes withCheckpoint ⟨halfStored, [], .start⟩ x ∧
    x.staged = sampleStaged ∧ x.stage = .done (some onlyDigest) := by
  have hplain : Plain (fun _ => none) onlyRange := by
    constructor
    · simp
    · simp
  obtain ⟨after, hcomplete, hafter, hpart, hreceipt⟩ := complete_run sampleStaged onlyDigest hplain rfl
  have hstored : storedReceipt onlyEnv after onlyRange = some (receiptOf onlyRange onlyDigest) :=
    storedReceipt_of hpart hreceipt (toVec_length_le _) twoBytes_reads (receiptOf_isValid _)
  have hopen := openCompleted_opens hafter hstored hpart rfl
  have hrun : Run onlyEnv twoBytes withCheckpoint ⟨halfStored, [], .start⟩
      ⟨after, sampleStaged, .done (some onlyDigest)⟩ := by
    refine .head (.plan _ _ _ twoBytes_plan (by decide)) ?_
    refine .head (.launch _ _ _ _ _ (by decide)) ?_
    refine .head (.stage _ _ _ [] _ [] [] _ restore_halfStored) ?_
    refine .head (.respond _ _ _ [] _ [] _ _) ?_
    refine .head (.chunkPart _ _ _ [] _ [] _ _ _ sampleStaged rfl (List.prefix_refl _)) ?_
    refine .head (.completed _ _ _ [] _ [] _ _ _ [] ⟨after, []⟩ rfl rfl ?_) ?_
    · rw [received_digest, received_part]
      exact hcomplete
    refine .head (.assemble _ _ _ rfl twoBytes_plan) ?_
    refine .head (.copy _ _ _ _ _ _ _ _ _ hopen rfl rfl) ?_
    refine .head (.assembled _ _ _) ?_
    exact .single (.verified _ _ rfl (.inl rfl))
  obtain ⟨hstaged, -⟩ := recovered_download_exact onlyEnv twoBytes twoBytes_sound halfStored halfStored_left
    withCheckpoint _ hrun onlyDigest rfl
  exact ⟨_, halfStored_left, hrun, hstaged, rfl⟩

end Sample

end VeStorage.ADrive.ShareRange
