import VeStorage.ADrive.Share.Checkpoint
import Mathlib.Data.Set.Insert

namespace VeStorage.ADrive.Share
open Lib
open Lib.Crash
open Lib.RecordLog

-- The completions of a journal, digests as bytes.
def Vouches (journal : Journal) : Set (Nat × Hash) :=
  {x | ∃ text, journal.completed[x.1]? = some (some text) ∧ digestBytes text = .ok x.2}

variable (env : Env) (journal : Journal)

def savedSnapshot : SavedJournal :=
  { journal with completionLedger := some (hexEncode (fingerprint env journal).bytes) }

-- What the memory of a process says of the completions `R` that are on the disk.
structure Backed (R : Set (Nat × Hash)) (tail : List UInt8) (node : Nat) (state : State) :
    Prop where
  saved : state.isSnapshotPending = false
  binding : state.binding = fingerprint env journal
  counted : state.durableCompletions.length = journal.completed.length
  writer : ∀ w ∈ state.writer, w.binding = fingerprint env journal ∧ w.file = node
  durable : (∀ w ∈ state.writer, w.isPoisoned = false) →
    ∀ x, state.durableCompletions[x.1]? = some (some x.2) ↔ x ∈ R
  usable : ∀ w ∈ state.writer, w.isPoisoned = false → tail = []

structure Image (R : Set (Nat × Hash)) (records : List (Nat × Hash)) (tail : List UInt8)
    (node : Nat) (machine : Machine) : Prop where
  accepted : journal.Accepted env journal.identity
  snapshot : machine.disk.snapshot = some (savedSnapshot env journal)
  ledger : machine.disk.ledger =
    some ⟨node, ledgerBytes env (fingerprint env journal) records ++ tail⟩
  wellFormed : Records journal.completed.length records
  torn : tail.length < recordSize
  mem : ∀ x, x ∈ records ↔ x ∈ R
  base : Vouches journal ⊆ R
  hasSaved : machine.checkpoint.persistence = none → machine.checkpoint.hasSaved = true
  memory : ∀ state ∈ machine.checkpoint.persistence, Backed env journal R tail node state

def Sound (R : Set (Nat × Hash)) (machine : Machine) : Prop :=
  ∃ records tail node, Image env journal R records tail node machine

variable {env} {journal} {R : Set (Nat × Hash)} {records : List (Nat × Hash)}
  {tail : List UInt8} {node : Nat} {machine : Machine}

@[simp] theorem normalizeIdentity_completed (j : Journal) (expected : Identity) :
    (normalizeIdentity j expected).completed = j.completed := by
  unfold normalizeIdentity
  split
  · rfl
  · split <;> rfl

@[simp] theorem normalizeIdentity_manifest (j : Journal) (expected : Identity) :
    (normalizeIdentity j expected).manifest = j.manifest := by
  unfold normalizeIdentity
  split
  · rfl
  · split <;> rfl

theorem durableRecords_mem {durable : List (Option Hash)} {x : Nat × Hash} :
    x ∈ durableRecords durable ↔ durable[x.1]? = some (some x.2) := by
  obtain ⟨i, d⟩ := x
  simp [durableRecords, List.mem_zipIdx_iff_getElem?]

theorem durableRecords_wellFormed (durable : List (Option Hash)) :
    Records durable.length (durableRecords durable) := by
  constructor
  · have hnodup : (durable.zipIdx.map Prod.snd).Nodup := by
      rw [List.zipIdx_map_snd]
      exact List.nodup_range'
    rw [List.Nodup, List.pairwise_map] at hnodup
    rw [durableRecords, List.Nodup, List.pairwise_map, List.pairwise_filterMap]
    apply hnodup.imp
    intro a b hne x hx y hy
    obtain ⟨d, -, rfl⟩ := Option.map_eq_some_iff.mp hx
    obtain ⟨d', -, rfl⟩ := Option.map_eq_some_iff.mp hy
    exact hne
  · intro r hr
    obtain ⟨hlt, -⟩ := List.getElem?_eq_some_iff.mp (durableRecords_mem.mp hr)
    exact hlt

-- The merged completions are exactly the records.
theorem overlay_exact (h : Records journal.completed.length records)
    (hbase : ∀ x ∈ Vouches journal, x ∈ records)
    (hvalid : ∀ digest, some digest ∈ journal.completed → isCompletionRecord digest = true)
    (i : Nat) (text : Text) :
    (overlay journal.completed records)[i]? = some (some text) ↔
      ∃ digest, (i, digest) ∈ records ∧ text = hexEncode digest.bytes := by
  constructor
  · intro htext
    rcases overlay_cases h rfl i with ⟨digest, hmem, heq⟩ | ⟨hnone, heq⟩
    · rw [heq] at htext
      cases htext
      exact ⟨digest, hmem, rfl⟩
    · rw [heq] at htext
      obtain ⟨hash, hhash⟩ := digestBytes_of_record (hvalid text (List.mem_of_getElem? htext))
      exact absurd (hbase (i, hash) ⟨text, htext, hhash⟩) (hnone hash)
  · rintro ⟨digest, hmem, rfl⟩
    exact overlay_mem h rfl hmem

variable (env) in
theorem State.new_eq_ok {j : Journal} (b : Hash) (isPending : Bool)
    (h : ∀ digest, some digest ∈ j.completed → isCompletionRecord digest = true) :
    ∃ state, State.new env j b isPending = .ok state ∧
      completions j = .ok state.durableCompletions ∧ state.binding = b ∧
      state.isSnapshotPending = isPending ∧ state.writer = none := by
  obtain ⟨durable, hdurable⟩ := completions_of_records h
  refine ⟨_, bind_eq_ok.mpr ⟨durable, hdurable, rfl⟩, hdurable, rfl, rfl, rfl⟩

theorem Image.openLedger (h : Image env journal R records tail node machine)
    {writer : Option LedgerWriter} (hw : ∀ w ∈ writer, w.file = node) :
    openLedger machine.disk writer =
      .ok (some ⟨node, ledgerBytes env (fingerprint env journal) records ++ tail⟩) := by
  cases writer with
  | none =>
    rw [Share.openLedger, readLedger, h.ledger]
    rfl
  | some w =>
    have hfile : w.file = node := hw w rfl
    simp [Share.openLedger, LedgerWriter.verifyOpenFile, h.ledger, hfile]

theorem Image.counted (h : Image env journal R records tail node machine) :
    journal.completed.length ≤ maxEntries := h.accepted.counted ▸ journal.manifest.sized

theorem Image.agrees (h : Image env journal R records tail node machine) :
    Agrees journal.completed records := by
  intro r hr saved hsaved
  obtain ⟨hash, hhash⟩ := digestBytes_of_record
    (h.accepted.digests saved (List.mem_of_getElem? hsaved))
  have hmem : (r.1, hash) ∈ records := (h.mem _).mpr (h.base ⟨saved, hsaved, hhash⟩)
  rw [h.wellFormed.unique hr hmem]
  exact (hexEncode_hexDecode (digestBytes_eq_ok.mp hhash)).symm

theorem Image.load (h : Image env journal R records tail node machine) {identity : Identity}
    (ha : journal.Accepted env identity) {writer : Option LedgerWriter}
    (hw : ∀ w ∈ writer, w.file = node) :
    ∃ loaded state, Share.load env machine.disk identity writer = .ok (loaded, state) ∧
      loaded.completed = overlay journal.completed records ∧ state.writer = none ∧
      Backed env journal R tail node state := by
  have hbase : ∀ x ∈ Vouches journal, x ∈ records := fun x hx => (h.mem x).mpr (h.base hx)
  have hexact := overlay_exact h.wellFormed hbase ha.digests
  have hmerge : merge env (ledgerBytes env (fingerprint env journal) records ++ tail)
      (fingerprint env journal) none journal.completed =
        .ok (overlay journal.completed records) :=
    merge_log env h.wellFormed h.counted rfl h.agrees h.torn (.inl rfl)
  have hvalid : ∀ digest, some digest ∈ overlay journal.completed records →
      isCompletionRecord digest = true := by
    intro digest hdigest
    obtain ⟨i, hi⟩ := List.mem_iff_getElem?.mp hdigest
    obtain ⟨hash, -, rfl⟩ := (hexact i digest).mp hi
    exact isCompletionRecord_hexEncode hash
  obtain ⟨state, hstate, hdurable, hbinding, hpending, hwriter⟩ := State.new_eq_ok env
    (j := { normalizeIdentity journal identity with
      completed := overlay journal.completed records }) (fingerprint env journal) false hvalid
  refine ⟨{ normalizeIdentity journal identity with
    completed := overlay journal.completed records }, state, ?_, rfl, hwriter, ?_⟩
  · simp only [Share.load, readSnapshot, h.snapshot, bind_eq_ok, ensure_eq_ok]
    refine ⟨_, rfl, (), (Journal.validate_eq_ok env).mpr ha, (), ?_, _, h.openLedger hw, _, ?_, _,
      hstate, rfl⟩
    · intro text htext
      exact (Option.some.inj htext).symm
    · rw [normalizeIdentity_completed]
      exact hmerge
  · refine ⟨hpending, hbinding, ?_, ?_, ?_, ?_⟩
    · rw [completions_length hdurable, overlay_length]
    · rw [hwriter]
      exact fun w hw => absurd hw (Option.not_mem_none w)
    · intro _ x
      rw [completions_getElem? hdurable, ← h.mem]
      constructor
      · rintro ⟨text, htext, hok⟩
        obtain ⟨hash, hmem, rfl⟩ := (hexact x.1 text).mp htext
        rw [digestBytes_hexEncode] at hok
        cases hok
        exact hmem
      · intro hx
        exact ⟨_, (hexact x.1 _).mpr ⟨x.2, hx, rfl⟩, digestBytes_hexEncode x.2⟩
    · rw [hwriter]
      exact fun w hw => absurd hw (Option.not_mem_none w)

theorem ensures_currentState {ρ : Type} {k : State → Io ρ} {Q : ρ → Machine → Prop}
    {E : Stop CliError → Machine → Prop}
    (hn : machine.checkpoint.persistence = none → E .killed machine)
    (hs : ∀ state, machine.checkpoint.persistence = some state → Ensures (k state) machine Q E) :
    Ensures (currentState >>= k) machine Q E := by
  have hstate : Ensures currentState machine
      (fun state m => m = machine ∧ machine.checkpoint.persistence = some state) E := by
    apply ensures_observe
    cases hp : machine.checkpoint.persistence with
    | none => exact fun _ => hn hp
    | some state => exact ensures_pure ⟨rfl, rfl⟩
  apply hstate.bind
  rintro state _ ⟨rfl, hp⟩
  exact hs state hp

-- Whatever stops a call, the disk and the memory still fit, and no completion is gone.
def Grown (env : Env) (journal : Journal) (R : Set (Nat × Hash)) (_ : Stop CliError)
    (machine : Machine) : Prop := ∃ R', R ⊆ R' ∧ Sound env journal R' machine

theorem Sound.grown (h : Sound env journal R machine) (stop : Stop CliError) :
    Grown env journal R stop machine := ⟨R, Set.Subset.rfl, h⟩

theorem Image.onState (h : Image env journal R records tail node machine)
    {f : State → State} (hf : ∀ state ∈ machine.checkpoint.persistence,
      Backed env journal R tail node (f state)) :
    Image env journal R records tail node (machine.onState f) := by
  refine { h with hasSaved := fun hn => h.hasSaved (Option.map_eq_none_iff.mp hn), memory := ?_ }
  intro state hstate
  obtain ⟨state, hs, rfl⟩ := Option.map_eq_some_iff.mp hstate
  exact hf state hs

theorem Image.install (h : Image env journal R records tail node machine) {state : State}
    (hs : Backed env journal R tail node state) :
    Image env journal R records tail node (machine.install state) := by
  refine { h with hasSaved := (nomatch ·), memory := ?_ }
  intro state' hstate
  cases hstate
  exact hs

-- A writer that failed says nothing of the disk until the checkpoint is loaded again.
theorem Backed.poisoned {state : State} {writer : LedgerWriter}
    (h : Backed env journal R tail node state) (hw : state.writer = some writer)
    (R' : Set (Nat × Hash)) (tail' : List UInt8) :
    Backed env journal R' tail' node (state.setPoisoned true) := by
  have hwriter : (state.setPoisoned true).writer = some { writer with isPoisoned := true } := by
    rw [State.setPoisoned, hw]
    rfl
  refine ⟨h.saved, h.binding, h.counted, ?_, ?_, ?_⟩
  · intro w hmem
    rw [hwriter] at hmem
    cases hmem
    exact h.writer writer hw
  · intro hclean
    exact absurd (hclean _ hwriter) (by simp)
  · intro w hmem hclean
    rw [hwriter] at hmem
    cases hmem
    cases hclean

theorem Image.torn_append (h : Image env journal R records [] node machine) {state : State}
    {writer : LedgerWriter} (hp : machine.checkpoint.persistence = some state)
    (hw : state.writer = some writer) {index : Nat} (digest : Hash)
    (hlt : index < journal.completed.length) (hnew : ∀ d, (index, d) ∉ R) (kept : Nat) :
    ∃ R', R ⊆ R' ∧ Sound env journal R' ((machine.onState (State.setPoisoned true)).onDisk
      (Disk.appendLedger ((record env (fingerprint env journal) index digest).take kept))) := by
  obtain ⟨records', tail', hbytes, htail, hcases⟩ := RecordLog.torn_append
    (fun r : Nat × Hash => record env (fingerprint env journal) r.1 r.2)
    (fun r => record_length r.1 r.2) (by decide) records (index, digest) kept
  have hledger : ((machine.onState (State.setPoisoned true)).onDisk
      (Disk.appendLedger ((record env (fingerprint env journal) index digest).take kept))).disk.ledger
      = some ⟨node, ledgerBytes env (fingerprint env journal) records' ++ tail'⟩ := by
    simp only [Machine.onDisk, Machine.onState, Disk.appendLedger, h.ledger, Option.map_some,
      List.append_nil]
    rw [ledgerBytes, List.append_assoc, hbytes, ← List.append_assoc, ← ledgerBytes]
  have hmemory : ∀ R' : Set (Nat × Hash), ∀ s ∈ (machine.onState
      (State.setPoisoned true)).checkpoint.persistence, Backed env journal R' tail' node s := by
    intro R' s hs
    obtain ⟨s, hmem, rfl⟩ := Option.map_eq_some_iff.mp hs
    cases hp.symm.trans hmem
    exact (h.memory state hp).poisoned hw R' tail'
  have hsaved : ∀ {b : Bool}, machine.checkpoint.persistence.map (State.setPoisoned true) = none →
      b = true := by
    intro b hn
    rw [hp] at hn
    cases hn
  rcases hcases with rfl | rfl
  · exact ⟨R, Set.Subset.rfl, records', tail', node, h.accepted, h.snapshot, hledger,
      h.wellFormed, htail, h.mem, h.base, hsaved, hmemory R⟩
  · have hfresh : ∀ d, (index, d) ∉ records := fun d hd => hnew d ((h.mem _).mp hd)
    refine ⟨insert (index, digest) R, Set.subset_insert _ _, _, tail', node, h.accepted, h.snapshot, hledger,
      h.wellFormed.append hlt hfresh, htail, ?_, ?_, hsaved, hmemory _⟩
    · intro x
      rw [List.mem_append, List.mem_singleton, h.mem, Set.mem_insert_iff, or_comm]
    · exact h.base.trans (Set.subset_insert _ _)

theorem State.setPoisoned_back {state : State} {writer : LedgerWriter}
    (hw : state.writer = some writer) (hclean : writer.isPoisoned = false) :
    (state.setPoisoned true).setPoisoned false = state := by
  obtain ⟨file, b, isPoisoned⟩ := writer
  cases hclean
  simp only [State.setPoisoned, hw, Option.map_some]
  rw [← hw]

theorem append_ensures (h : Image env journal R records [] node machine) {state : State}
    {writer : LedgerWriter} (hp : machine.checkpoint.persistence = some state)
    (hw : state.writer = some writer) {index : Nat} {digest : Hash}
    (hlt : index < journal.completed.length) (hnew : ∀ d, (index, d) ∉ R) :
    Ensures (LedgerWriter.append env index digest) machine
      (fun _ m => m = machine.onDisk
        (Disk.appendLedger (record env (fingerprint env journal) index digest)))
      (Grown env journal R) := by
  have hback := h.memory state hp
  obtain ⟨hbinding, hfile⟩ := hback.writer writer hw
  have hsound : Sound env journal R machine := ⟨records, [], node, h⟩
  have htorn := h.torn_append hp hw digest hlt hnew
  apply ensures_currentState (fun _ => hsound.grown _)
  intro state' hp'
  cases hp.symm.trans hp'
  apply ensures_orRaise (fun _ => hsound.grown _)
  intro w hw'
  cases hw.symm.trans hw'
  apply ensures_ofExcept (fun _ _ => hsound.grown _)
  intro _ husable
  have hclean : writer.isPoisoned = false := ensure_eq_ok.mp husable
  apply ensures_change
  apply ensures_observe
  apply ensures_ofExcept
  · intro e he
    obtain ⟨R', hR', hs⟩ := htorn 0
    refine ⟨R', hR', ?_⟩
    simpa [Machine.onDisk, Disk.appendLedger, Option.map_id'] using hs
  intro _ _
  rw [hbinding]
  apply Ensures.bind (Q := fun _ m => m = (machine.onState (State.setPoisoned true)).onDisk
    (Disk.appendLedger (record env (fingerprint env journal) index digest)))
  · exact ensures_effect rfl fun kept stop => htorn kept
  · rintro _ _ rfl
    apply ensures_change_last
    have hstate := State.setPoisoned_back hw hclean
    obtain ⟨disk, hasSaved, persistence⟩ := machine
    cases hp
    simp only [Machine.onState, Machine.onDisk, Option.map_some, hstate]

theorem Image.recorded (h : Image env journal R records [] node machine) {state : State}
    {writer : LedgerWriter} (hp : machine.checkpoint.persistence = some state)
    (hw : state.writer = some writer) (hclean : writer.isPoisoned = false) {index : Nat}
    {digest : Hash} (hlt : index < journal.completed.length) (hnew : ∀ d, (index, d) ∉ R) :
    Image env journal (insert (index, digest) R) (records ++ [(index, digest)]) [] node
      ((machine.onDisk
        (Disk.appendLedger (record env (fingerprint env journal) index digest))).onState
        fun state =>
          { state with durableCompletions := state.durableCompletions.set index (some digest) }) := by
  have hback := h.memory state hp
  have hdurable := hback.durable (fun w hmem => by cases hw.symm.trans hmem; exact hclean)
  refine ⟨h.accepted, h.snapshot, ?_, h.wellFormed.append hlt fun d hd => hnew d ((h.mem _).mp hd), h.torn,
    ?_, h.base.trans (Set.subset_insert _ _),
    fun hn => h.hasSaved (Option.map_eq_none_iff.mp hn), ?_⟩
  · simp [Machine.onState, Machine.onDisk, Disk.appendLedger, h.ledger, ledgerBytes]
  · intro x
    rw [List.mem_append, List.mem_singleton, h.mem, Set.mem_insert_iff, or_comm]
  · intro s hs
    obtain ⟨s, hmem, rfl⟩ := Option.map_eq_some_iff.mp hs
    cases hp.symm.trans hmem
    refine ⟨hback.saved, hback.binding, ?_, hback.writer, ?_, hback.usable⟩
    · rw [List.length_set]
      exact hback.counted
    · rintro - ⟨i, d⟩
      rw [Set.mem_insert_iff, ← hdurable, List.getElem?_set, hback.counted, if_pos hlt]
      split
      · next heq =>
        subst heq
        have hfree : ¬ state.durableCompletions[index]? = some (some d) := fun hd =>
          hnew d ((hdurable (index, d)).mp hd)
        simp [hfree, eq_comm]
      · next hne => simp [Ne.symm hne]

theorem saveCompletion_ensures (h : Sound env journal R machine) (j : Journal) (index : Nat) :
    Ensures (State.saveCompletion env j index) machine
      (fun _ m => ∃ digest, (index, digest) ∈ Vouches j ∧
        Sound env journal (insert (index, digest) R) m)
      (Grown env journal R) := by
  have hstop := h.grown
  obtain ⟨records, tail, node, himage⟩ := h
  apply ensures_currentState (fun _ => hstop _)
  intro state hp
  have hback := himage.memory state hp
  apply ensures_require (fun _ => hstop _)
  intro _
  apply ensures_orRaise (fun _ => hstop _)
  intro writer hw
  apply ensures_ofExcept (fun _ _ => hstop _)
  intro _ husable
  have hclean : writer.isPoisoned = false := ensure_eq_ok.mp husable
  apply ensures_require (fun _ => hstop _)
  rintro ⟨-, -, hcount, -⟩
  apply ensures_orRaise (fun _ => hstop _)
  intro entry _
  apply ensures_require (fun _ => hstop _)
  intro _
  apply ensures_orPanic (fun _ => hstop _)
  intro completion hcompletion
  apply ensures_orRaise (fun _ => hstop _)
  rintro text rfl
  apply ensures_ofExcept (fun _ _ => hstop _)
  intro digest hdigest
  apply ensures_orPanic (fun _ => hstop _)
  intro saved hsaved
  have hvouch : (index, digest) ∈ Vouches j := ⟨text, hcompletion, hdigest⟩
  have hdurable := hback.durable (fun w hmem => by cases hw.symm.trans hmem; exact hclean)
  cases saved with
  | some saved =>
    apply ensures_require_last (fun _ => hstop _)
    rintro rfl
    have hmem : (index, saved) ∈ R := (hdurable (index, saved)).mp hsaved
    refine ⟨saved, hvouch, records, tail, node, ?_⟩
    rwa [Set.insert_eq_of_mem hmem]
  | none =>
    cases hback.usable writer hw hclean
    have hlt : index < journal.completed.length := by
      rw [← hback.counted]
      exact (List.getElem?_eq_some_iff.mp hsaved).1
    have hnew : ∀ d, (index, d) ∉ R := by
      intro d hd
      rw [(hdurable (index, d)).mpr hd] at hsaved
      cases hsaved
    apply (append_ensures himage hp hw hlt hnew).bind
    rintro _ _ rfl
    apply ensures_change_last
    exact ⟨digest, hvouch, _, [], node, himage.recorded hp hw hclean hlt hnew⟩

theorem Vouches.unique {j : Journal} {i : Nat} {d d' : Hash} (hd : (i, d) ∈ Vouches j)
    (hd' : (i, d') ∈ Vouches j) : d = d' := by
  obtain ⟨text, htext, hok⟩ := hd
  obtain ⟨text', htext', hok'⟩ := hd'
  rw [htext] at htext'
  cases htext'
  rw [hok] at hok'
  exact Except.ok.inj hok'

theorem Grown.of_subset {R' : Set (Nat × Hash)} {stop : Stop CliError} (hR : R ⊆ R')
    (h : Grown env journal R' stop machine) : Grown env journal R stop machine := by
  obtain ⟨R'', hR'', hs⟩ := h
  exact ⟨R'', hR.trans hR'', hs⟩

-- What the loop over the completions of `j` has made durable when the files of `done` are through.
def SavedUpTo (env : Env) (journal : Journal) (R : Set (Nat × Hash)) (j : Journal)
    (done : List Nat) (machine : Machine) : Prop :=
  ∃ R', Sound env journal R' machine ∧ R ⊆ R' ∧ R' ⊆ R ∪ Vouches j ∧
    ∀ x ∈ Vouches j, x.1 ∈ done → x ∈ R'

theorem SavedUpTo.skip {j : Journal} {done : List Nat} {index : Nat}
    (h : SavedUpTo env journal R j done machine) (hnone : ∀ d, (index, d) ∉ Vouches j) :
    SavedUpTo env journal R j (done ++ [index]) machine := by
  obtain ⟨R', hs, hsub, hsup, hall⟩ := h
  refine ⟨R', hs, hsub, hsup, ?_⟩
  rintro ⟨i, d⟩ hx hi
  rcases List.mem_append.mp hi with hi | hi
  · exact hall _ hx hi
  · cases List.mem_singleton.mp hi
    exact absurd hx (hnone d)

theorem saveCompletion_savedUpTo {j : Journal} {done : List Nat}
    (h : SavedUpTo env journal R j done machine) (index : Nat) :
    Ensures (State.saveCompletion env j index) machine
      (fun _ => SavedUpTo env journal R j (done ++ [index])) (Grown env journal R) := by
  obtain ⟨R', hs, hsub, hsup, hall⟩ := h
  apply (saveCompletion_ensures hs j index).mono
  · rintro _ m ⟨digest, hvouch, hm⟩
    refine ⟨_, hm, hsub.trans (Set.subset_insert _ _), ?_, ?_⟩
    · exact Set.insert_subset (.inr hvouch) hsup
    · rintro ⟨i, d⟩ hx hi
      rcases List.mem_append.mp hi with hi | hi
      · exact .inr (hall _ hx hi)
      · cases List.mem_singleton.mp hi
        cases Vouches.unique hx hvouch
        exact .inl rfl
  · intro stop m hm
    exact hm.of_subset hsub

theorem SavedUpTo.sound {j : Journal}
    (h : SavedUpTo env journal R j (List.range j.completed.length) machine) :
    Sound env journal (R ∪ Vouches j) machine := by
  obtain ⟨R', hs, hsub, hsup, hall⟩ := h
  have hrange : Vouches j ⊆ R' := by
    rintro ⟨i, d⟩ hx
    have ⟨text, htext, _⟩ := hx
    exact hall _ hx (List.mem_range.mpr (List.getElem?_eq_some_iff.mp htext).1)
  rwa [← hsup.antisymm (Set.union_subset hsub hrange)]

theorem saveCompletions_ensures (h : Sound env journal R machine) (j : Journal) :
    Ensures (saveCompletions env j) machine
      (fun _ => Sound env journal (R ∪ Vouches j)) (Grown env journal R) := by
  have hstart : SavedUpTo env journal R j [] machine :=
    ⟨R, h, Set.Subset.rfl, Set.subset_union_left, fun _ _ hi => absurd hi List.not_mem_nil⟩
  have hloop := ensures_forEach (I := SavedUpTo env journal R j) (E := Grown env journal R)
    (fun index => if (j.completed[index]?.join).isSome
      then State.saveCompletion env j index else pure ()) (s := machine) (by
    intro done index t ht
    cases hjoin : j.completed[index]?.join with
    | none =>
      apply ensures_pure
      apply ht.skip
      rintro d ⟨text, htext, -⟩
      rw [htext] at hjoin
      cases hjoin
    | some text => exact saveCompletion_savedUpTo ht index)
    (List.range j.completed.length) [] hstart
  exact hloop.mono (fun _ _ hm => hm.sound) (fun _ _ hm => hm)

theorem Image.created (h : Image env journal R records tail node machine) {state : State}
    (hp : machine.checkpoint.persistence = some state) (hw : state.writer = none) :
    Image env journal R (durableRecords state.durableCompletions) [] machine.disk.nextNode
      (machine.onDisk (Disk.publishLedger
        (ledgerBytes env state.binding (durableRecords state.durableCompletions)))) := by
  have hback := h.memory state hp
  have hnone : ∀ w, w ∉ state.writer := fun w hmem => by rw [hw] at hmem; cases hmem
  have hdurable := hback.durable (fun w hmem => absurd hmem (hnone w))
  refine ⟨h.accepted, h.snapshot, ?_, hback.counted ▸ durableRecords_wellFormed _, by decide, ?_, h.base,
    h.hasSaved, ?_⟩
  · simp [Machine.onDisk, Disk.publishLedger, hback.binding]
  · intro x
    rw [durableRecords_mem]
    exact hdurable x
  · intro s hs
    cases hp.symm.trans hs
    exact ⟨hback.saved, hback.binding, hback.counted, fun w hmem => absurd hmem (hnone w),
      hback.durable, fun w hmem => absurd hmem (hnone w)⟩

theorem create_ensures (h : Image env journal R records tail node machine) {state : State}
    (hp : machine.checkpoint.persistence = some state) (hw : state.writer = none)
    (isFresh : Bool) :
    Ensures (LedgerWriter.create env isFresh) machine
      (fun writer m => writer = ⟨machine.disk.nextNode, state.binding, false⟩ ∧
        m = machine.onDisk (Disk.publishLedger
          (ledgerBytes env state.binding (durableRecords state.durableCompletions))))
      (Grown env journal R) := by
  have hsound : Sound env journal R machine := ⟨_, _, _, h⟩
  have hcreated : Sound env journal R (machine.onDisk (Disk.publishLedger
      (ledgerBytes env state.binding (durableRecords state.durableCompletions)))) :=
    ⟨_, _, _, h.created hp hw⟩
  apply ensures_currentState (fun _ => hsound.grown _)
  intro state' hp'
  cases hp.symm.trans hp'
  apply ensures_observe
  apply ensures_require (fun _ => hsound.grown _)
  intro _
  apply (ensures_atomic (U := fun _ m => m = machine.onDisk (Disk.publishLedger
    (ledgerBytes env state.binding (durableRecords state.durableCompletions)))) rfl
    hsound.grown hcreated.grown).bind
  rintro _ _ rfl
  exact ensures_pure ⟨rfl, rfl⟩

theorem prepareWriter_ensures (h : Sound env journal R machine) (j : Journal) (isFresh : Bool) :
    Ensures (State.prepareWriter env j isFresh) machine (fun _ => Sound env journal R)
      (Grown env journal R) := by
  have hstop := h.grown
  obtain ⟨records, tail, node, himage⟩ := h
  apply ensures_currentState (fun _ => hstop _)
  intro state hp
  have hback := himage.memory state hp
  cases hw : state.writer with
  | some writer =>
    apply ensures_ofExcept (fun _ _ => hstop _)
    intro _ _
    apply ensures_require_last (fun _ => hstop _)
    intro _
    exact ⟨records, tail, node, himage⟩
  | none =>
    have hbind : Ensures (bindPending env j) machine (fun _ m => m = machine)
        (Grown env journal R) := by
      apply ensures_currentState (fun _ => hstop _)
      intro state' hp'
      cases hp.symm.trans hp'
      rw [hback.saved]
      exact ensures_pure rfl
    apply hbind.bind
    rintro _ _ rfl
    apply (create_ensures himage hp hw isFresh).bind
    rintro _ _ ⟨rfl, rfl⟩
    apply ensures_change_last
    have hcreated := himage.created hp hw
    refine ⟨_, _, _, hcreated.onState ?_⟩
    intro s hs
    have hnew := hcreated.memory s hs
    cases hp.symm.trans hs
    refine ⟨hnew.saved, hnew.binding, hnew.counted, ?_, ?_, fun _ _ _ => rfl⟩
    · rintro w ⟨rfl⟩
      exact ⟨hback.binding, rfl⟩
    · intro _
      apply hnew.durable
      rw [hw]
      rintro w ⟨⟩

theorem state_save_ensures (h : Sound env journal R machine) (j : Journal) (isFresh : Bool) :
    Ensures (State.save env j isFresh) machine
      (fun _ => Sound env journal (R ∪ Vouches j)) (Grown env journal R) := by
  apply ensures_currentState (fun _ => h.grown _)
  intro state hp
  apply ensures_require (fun _ => h.grown _)
  intro _
  apply ensures_ofExcept (fun _ _ => h.grown _)
  intro _ _
  apply (prepareWriter_ensures h j isFresh).bind
  intro _ m hm
  have hsnapshot : Ensures (saveSnapshot j isFresh) m (fun _ m' => m' = m)
      (Grown env journal R) := by
    apply ensures_currentState (fun _ => hm.grown _)
    intro state hp
    obtain ⟨records, tail, node, himage⟩ := hm
    rw [(himage.memory state hp).saved]
    exact ensures_pure rfl
  apply hsnapshot.bind
  rintro _ _ rfl
  exact saveCompletions_ensures hm j

end VeStorage.ADrive.Share
