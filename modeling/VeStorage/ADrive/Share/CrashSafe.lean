import VeStorage.ADrive.Share.Durable

namespace VeStorage.ADrive.Share
open Lib
open Lib.Crash
open Lib.RecordLog

-- The complete records of a ledger.
def readRecords : Nat → List UInt8 → List (Nat × Hash)
  | 0, _ => []
  | fuel + 1, file =>
      match nextRecord recordSize file with
      | none => []
      | some (bytes, rest) =>
          (ofLeBytes (bytes.take 8), Hash.ofBytes ((bytes.take 40).drop 8)) ::
            readRecords fuel rest

def Disk.records (disk : Disk) : List (Nat × Hash) :=
  match disk.ledger with
  | none => []
  | some file => readRecords file.bytes.length (file.bytes.drop headerSize)

-- The completions that a call vouches for when it returns; without a writer `save_completion`
-- first saves the whole journal.
def Call.promises (before : Machine) : Call → Set (Nat × Hash)
  | .save journal => Vouches journal
  | .saveCompletion journal index =>
      if hasWriter before then {x | x ∈ Vouches journal ∧ x.1 = index} else Vouches journal
  | .load _ => ∅

-- The records that a call wrote in full.
def Event.wrote (event : Event) : Set (Nat × Hash) :=
  {x | x ∉ event.before.disk.records ∧ x ∈ event.after.disk.records}

def Event.contributes (event : Event) : Set (Nat × Hash) :=
  if event.outcome = .returned then event.call.promises event.before else event.wrote

def contributed (events : List Event) : Set (Nat × Hash) :=
  {x | ∃ event ∈ events, x ∈ event.contributes}

def WellFormedLedger (env : Env) (binding : Hash) (count : Nat) (bytes : List UInt8) : Prop :=
  ∃ records tail, bytes = ledgerBytes env binding records ++ tail ∧ Records count records ∧
    tail.length < recordSize

variable {env : Env} {journal : Journal} {R : Set (Nat × Hash)} {records : List (Nat × Hash)}
  {tail : List UInt8} {node : Nat} {machine : Machine}

theorem readRecords_log {b : Hash} {fuel : Nat} (hr : ∀ r ∈ records, r.1 < 2 ^ 64)
    (htail : tail.length < recordSize) (hfuel : records.length < fuel) :
    readRecords fuel ((records.flatMap fun r => record env b r.1 r.2) ++ tail) = records := by
  induction records generalizing fuel with
  | nil =>
    cases fuel with
    | zero => rfl
    | succ fuel =>
      rw [List.flatMap_nil, List.nil_append, readRecords, nextRecord_tail htail]
  | cons r records ih =>
    obtain ⟨fuel, rfl⟩ : ∃ n, fuel = n + 1 := ⟨fuel - 1, by rw [List.length_cons] at hfuel; omega⟩
    rw [List.length_cons] at hfuel
    rw [List.flatMap_cons, List.append_assoc, readRecords,
      nextRecord_append (record_length r.1 r.2)]
    simp only [record_index (hr r List.mem_cons_self), record_digest]
    rw [ih (fun x hx => hr x (List.mem_cons_of_mem r hx)) (by omega)]

theorem Image.records_eq (h : Image env journal R records tail node machine) :
    machine.disk.records = records := by
  have hsized : ∀ r ∈ records, r.1 < 2 ^ 64 := by
    intro r hr
    have hlt := h.wellFormed.bound r hr
    have hcount := h.counted
    unfold maxEntries at hcount
    omega
  rw [Disk.records, h.ledger]
  simp only
  rw [(ledgerBytes_header env (fingerprint env journal) records tail).2]
  apply readRecords_log hsized h.torn
  rw [List.length_append, ledgerBytes_length]
  simp only [headerSize, recordSize]
  omega

theorem Sound.mem_records (h : Sound env journal R machine) (x : Nat × Hash) :
    x ∈ machine.disk.records ↔ x ∈ R := by
  obtain ⟨records, tail, node, himage⟩ := h
  rw [himage.records_eq]
  exact himage.mem x

theorem load_accepted {disk : Disk} {saved : SavedJournal} {identity : Identity}
    {writer : Option LedgerWriter} {result : Journal × State} (hs : disk.snapshot = some saved)
    (h : load env disk identity writer = .ok result) : saved.toJournal.Accepted env identity := by
  simp only [load, readSnapshot, hs, bind_eq_ok] at h
  obtain ⟨saved', hsaved, ⟨⟩, hvalid, -⟩ := h
  cases hsaved
  exact (Journal.validate_eq_ok env).mp hvalid

theorem Image.load_backed (h : Image env journal R records tail node machine)
    {identity : Identity} {writer : Option LedgerWriter} (hw : ∀ w ∈ writer, w.file = node)
    {result : Journal × State} (hload : Share.load env machine.disk identity writer = .ok result) :
    result.1.completed = overlay journal.completed records ∧
      Backed env journal R tail node result.2 := by
  obtain ⟨loaded, state, hok, hcompleted, -, hback⟩ :=
    h.load (load_accepted h.snapshot hload) hw
  rw [hload] at hok
  cases hok
  exact ⟨hcompleted, hback⟩

theorem Image.held (h : Image env journal R records tail node machine) :
    ∀ w ∈ machine.checkpoint.persistence.bind State.writer, w.file = node := by
  intro w hw
  obtain ⟨state, hp, hwriter⟩ := Option.bind_eq_some_iff.mp hw
  exact ((h.memory state hp).writer w hwriter).2

theorem load_ensures (h : Sound env journal R machine) (identity : Identity) :
    Ensures (Checkpoint.load env identity) machine (fun _ => Sound env journal R)
      (Grown env journal R) := by
  have hstop := h.grown
  obtain ⟨records, tail, node, himage⟩ := h
  apply ensures_observe
  apply ensures_ofExcept (fun _ _ => hstop _)
  rintro ⟨loaded, state⟩ hload
  apply ensures_change
  have hback := (himage.load_backed himage.held hload).2
  exact ensures_pure ⟨records, tail, node, himage.install hback⟩

theorem openPersistence_ensures (h : Sound env journal R machine) (j : Journal) :
    Ensures (openPersistence env j) machine (fun _ => Sound env journal R)
      (Grown env journal R) := by
  have hstop := h.grown
  have hsound := h
  obtain ⟨records, tail, node, himage⟩ := h
  apply ensures_observe
  cases hp : machine.checkpoint.persistence with
  | some state => exact ensures_pure hsound
  | none =>
    rw [himage.hasSaved hp]
    apply ensures_ofExcept (fun _ _ => hstop _)
    intro state hload
    apply ensures_change_last
    obtain ⟨result, hresult, rfl⟩ : ∃ result,
        load env machine.disk j.identity none = .ok result ∧ result.2 = state := by
      cases hl : load env machine.disk j.identity none with
      | error e =>
        rw [if_pos rfl, hl] at hload
        cases hload
      | ok result =>
        rw [if_pos rfl, hl] at hload
        exact ⟨result, rfl, Except.ok.inj hload⟩
    have hnone : ∀ w ∈ (none : Option LedgerWriter), w.file = node := by
      rintro w ⟨⟩
    have hback := (himage.load_backed hnone hresult).2
    exact ⟨records, tail, node, himage.install hback⟩

theorem Sound.markSaved (h : Sound env journal R machine) :
    Sound env journal R machine.markSaved := by
  obtain ⟨records, tail, node, himage⟩ := h
  exact ⟨records, tail, node, { himage with hasSaved := fun _ => rfl }⟩

theorem save_ensures (h : Sound env journal R machine) (j : Journal) :
    Ensures (Checkpoint.save env j) machine (fun _ => Sound env journal (R ∪ Vouches j))
      (Grown env journal R) := by
  apply (openPersistence_ensures h j).bind
  intro _ m hm
  apply ensures_observe
  apply (state_save_ensures hm j _).bind
  intro _ m' hm'
  exact ensures_change_last hm'.markSaved

theorem ensureWriter_held (hw : hasWriter machine = true) (j : Journal)
    {E : Stop CliError → Machine → Prop} :
    Ensures (ensureWriter env j) machine (fun _ m => m = machine) E := by
  apply ensures_observe
  rw [hw]
  exact ensures_pure rfl

theorem checkpoint_saveCompletion_ensures (h : Sound env journal R machine) (j : Journal)
    (index : Nat) :
    Ensures (Checkpoint.saveCompletion env j index) machine
      (fun _ => Sound env journal (R ∪ (Call.saveCompletion j index).promises machine))
      (Grown env journal R) := by
  cases hw : hasWriter machine with
  | true =>
    apply (ensureWriter_held hw j).bind
    intro _ m heq
    rw [heq]
    apply (saveCompletion_ensures h j index).mono
    · rintro _ m ⟨digest, hvouch, hm⟩
      have hset : (Call.saveCompletion j index).promises machine = {(index, digest)} := by
        rw [Call.promises, if_pos hw]
        ext ⟨i, d⟩
        constructor
        · rintro ⟨hx, rfl⟩
          rw [Vouches.unique hx hvouch]
          rfl
        · intro hx
          cases Set.mem_singleton_iff.mp hx
          exact ⟨hvouch, rfl⟩
      rwa [hset, Set.union_singleton]
    · exact fun _ _ hm => hm
  | false =>
    have hset : (Call.saveCompletion j index).promises machine = Vouches j := by
      simp [Call.promises, hw]
    have hwriter : Ensures (ensureWriter env j) machine
        (fun _ => Sound env journal (R ∪ Vouches j)) (Grown env journal R) := by
      apply ensures_observe
      rw [hw]
      exact save_ensures h j
    rw [hset]
    apply hwriter.bind
    intro _ m hm
    apply (saveCompletion_ensures hm j index).mono
    · rintro _ m' ⟨digest, hvouch, hm'⟩
      have hmem : (index, digest) ∈ R ∪ Vouches j := .inr hvouch
      rwa [Set.insert_eq_of_mem hmem] at hm'
    · exact fun _ _ hm' => hm'.of_subset Set.subset_union_left

theorem call_ensures (h : Sound env journal R machine) (call : Call) :
    Ensures (call.run env) machine
      (fun _ => Sound env journal (R ∪ call.promises machine)) (Grown env journal R) := by
  cases call with
  | save j => exact save_ensures h j
  | saveCompletion j index => exact checkpoint_saveCompletion_ensures h j index
  | load identity =>
    apply (load_ensures h identity).bind
    intro _ m hm
    rw [Call.promises, Set.union_empty]
    exact ensures_pure hm

theorem Machine.reopened_eq {saved : SavedJournal} (h : machine.disk.snapshot = some saved) :
    machine.reopened = { machine with checkpoint := ⟨true, none⟩ } := by
  simp [Machine.reopened, Checkpoint.open, h, ensure]

theorem Sound.reopened (h : Sound env journal R machine) :
    Sound env journal R machine.reopened := by
  obtain ⟨records, tail, node, himage⟩ := h
  rw [Machine.reopened_eq himage.snapshot]
  exact ⟨records, tail, node, { himage with hasSaved := fun _ => rfl, memory := fun _ h => by cases h }⟩

theorem Grown.wrote {stop : Stop CliError} {after : Machine} (hb : Sound env journal R machine)
    (h : Grown env journal R stop after) (event : Event) (hbefore : event.before = machine)
    (hafter : event.after = after) : Sound env journal (R ∪ event.wrote) after := by
  obtain ⟨R', hR', hs⟩ := h
  have hset : R ∪ event.wrote = R' := by
    ext x
    simp only [Set.mem_union, Event.wrote, Set.mem_ofPred_eq, hbefore, hafter, hb.mem_records,
      hs.mem_records]
    constructor
    · rintro (hx | ⟨-, hx⟩)
      · exact hR' hx
      · exact hx
    · intro hx
      by_cases hmem : x ∈ R
      · exact .inl hmem
      · exact .inr ⟨hmem, hx⟩
  rwa [hset]

@[simp] theorem contributed_nil : contributed [] = ∅ := by
  ext x
  simp [contributed]

theorem contributed_singleton (event : Event) : contributed [event] = event.contributes := by
  ext x
  simp [contributed]

theorem contributed_append (events events' : List Event) :
    contributed (events ++ events') = contributed events ∪ contributed events' := by
  ext x
  simp [contributed, or_and_right, exists_or]

-- One action of a run adds what its event contributes and nothing else.
theorem perform_sound (h : Sound env journal R machine) (action : Action) :
    Sound env journal (R ∪ contributed (action.perform env machine).1)
      (action.perform env machine).2 := by
  cases action with
  | reopen =>
    rw [Action.perform, contributed_nil, Set.union_empty]
    exact h.reopened
  | call request faults =>
    have hcall := call_ensures h request faults
    rw [Action.perform]
    cases hrun : request.run env ⟨machine, faults⟩ with
    | ok r w =>
      rw [hrun] at hcall
      rw [settle, contributed_singleton]
      exact hcall
    | error stop w =>
      rw [hrun] at hcall
      cases stop with
      | raised e =>
        rw [settle, contributed_singleton]
        exact hcall.wrote h ⟨request, machine, .failed e, w.state⟩ rfl rfl
      | killed =>
        rw [settle, contributed_singleton]
        exact (hcall.wrote h ⟨request, machine, .killed, w.state⟩ rfl rfl).reopened

theorem execute_sound (h : Sound env journal R machine) (actions : List Action) :
    Sound env journal (R ∪ contributed (execute env machine actions).1)
      (execute env machine actions).2 := by
  induction actions generalizing R machine with
  | nil =>
    rw [execute, contributed_nil, Set.union_empty]
    exact h
  | cons action actions ih =>
    rw [execute, contributed_append, ← Set.union_assoc]
    exact ih (perform_sound h action)

theorem execute_append (actions later : List Action) :
    execute env machine (actions ++ later) =
      ((execute env machine actions).1 ++
        (execute env (execute env machine actions).2 later).1,
      (execute env (execute env machine actions).2 later).2) := by
  induction actions generalizing machine with
  | nil => simp [execute]
  | cons action actions ih => simp [execute, ih]

theorem vouches_completions {durable : List (Option Hash)}
    (h : completions journal = .ok durable) (x : Nat × Hash) :
    durable[x.1]? = some (some x.2) ↔ x ∈ Vouches journal :=
  completions_getElem? h x.1 x.2

-- The machine after `prepare_writer` and the snapshot of a first save.
def firstImage (env : Env) (journal : Journal) (disk : Disk) (state : State)
    (durable : List (Option Hash)) : Machine where
  disk := (disk.publishLedger
    (ledgerBytes env (fingerprint env journal) (durableRecords durable))).publishSnapshot
      (savedSnapshot env journal)
  checkpoint := ⟨false, some { state with
    binding := fingerprint env journal
    durableCompletions := durable
    isSnapshotPending := false
    writer := some ⟨disk.nextNode, fingerprint env journal, false⟩ }⟩

theorem firstImage_sound (ha : journal.Accepted env journal.identity) (disk : Disk)
    (state : State) {durable : List (Option Hash)} (hd : completions journal = .ok durable) :
    Sound env journal (Vouches journal) (firstImage env journal disk state durable) := by
  refine ⟨durableRecords durable, [], disk.nextNode, ha, rfl, ?_, ?_, by decide, ?_,
    Set.Subset.rfl, (nomatch ·), ?_⟩
  · simp [firstImage, Disk.publishLedger, Disk.publishSnapshot]
  · rw [← completions_length hd]
    exact durableRecords_wellFormed durable
  · intro x
    rw [durableRecords_mem, vouches_completions hd]
  · rintro s ⟨⟩
    refine ⟨rfl, rfl, completions_length hd, ?_, fun _ => vouches_completions hd,
      fun _ _ _ => rfl⟩
    rintro w ⟨⟩
    exact ⟨rfl, rfl⟩

section FirstSave

variable {disk : Disk} {state : State} {E : Stop CliError → Machine → Prop}

theorem bindPending_pending (hE : ∀ stop m, E stop m) (hp : state.isSnapshotPending = true) :
    Ensures (bindPending env journal) ⟨disk, ⟨false, some state⟩⟩
      (fun _ m => ∃ durable, completions journal = .ok durable ∧
        m = ⟨disk, ⟨false, some { state with
          binding := fingerprint env journal
          durableCompletions := durable }⟩⟩) E := by
  apply ensures_currentState (fun _ => hE _ _)
  rintro _ ⟨⟩
  rw [if_pos hp]
  apply ensures_change
  apply ensures_ofExcept (fun _ _ => hE _ _)
  intro durable hdurable
  apply ensures_change_last
  exact ⟨durable, hdurable, rfl⟩

theorem prepareWriter_pending (hE : ∀ stop m, E stop m) (hp : state.isSnapshotPending = true)
    (hw : state.writer = none) :
    Ensures (State.prepareWriter env journal true) ⟨disk, ⟨false, some state⟩⟩
      (fun _ m => ∃ durable, completions journal = .ok durable ∧
        m = ⟨disk.publishLedger
            (ledgerBytes env (fingerprint env journal) (durableRecords durable)),
          ⟨false, some { state with
            binding := fingerprint env journal
            durableCompletions := durable
            writer := some ⟨disk.nextNode, fingerprint env journal, false⟩ }⟩⟩) E := by
  apply ensures_currentState (fun _ => hE _ _)
  rintro _ ⟨⟩
  rw [hw]
  apply (bindPending_pending hE hp).bind
  rintro _ _ ⟨durable, hdurable, rfl⟩
  apply Ensures.bind (Q := fun writer m =>
    writer = ⟨disk.nextNode, fingerprint env journal, false⟩ ∧
    m = ⟨disk.publishLedger
        (ledgerBytes env (fingerprint env journal) (durableRecords durable)),
      ⟨false, some { state with
        binding := fingerprint env journal
        durableCompletions := durable }⟩⟩)
  · apply ensures_currentState (fun _ => hE _ _)
    rintro _ ⟨⟩
    apply ensures_observe
    apply ensures_require (fun _ => hE _ _)
    intro _
    apply (ensures_atomic (U := fun _ m => m = ⟨disk.publishLedger
        (ledgerBytes env (fingerprint env journal) (durableRecords durable)),
      ⟨false, some { state with
        binding := fingerprint env journal
        durableCompletions := durable }⟩⟩) rfl (fun _ => hE _ _) (fun _ => hE _ _)).bind
    rintro _ _ rfl
    exact ensures_pure ⟨rfl, rfl⟩
  · rintro _ _ ⟨rfl, rfl⟩
    apply ensures_change_last
    exact ⟨durable, hdurable, rfl⟩

variable (state) in
theorem saveSnapshot_pending (hE : ∀ stop m, E stop m) (hp : state.isSnapshotPending = true) :
    Ensures (saveSnapshot journal true) ⟨disk, ⟨false, some state⟩⟩
      (fun _ m => m = ⟨disk.publishSnapshot
          { journal with completionLedger := some (hexEncode state.binding.bytes) },
        ⟨false, some { state with isSnapshotPending := false }⟩⟩) E := by
  apply ensures_currentState (fun _ => hE _ _)
  rintro _ ⟨⟩
  rw [if_pos hp]
  apply ensures_observe
  apply ensures_require (fun _ => hE _ _)
  intro _
  apply (ensures_atomic (U := fun _ m => m = ⟨disk.publishSnapshot
      { journal with completionLedger := some (hexEncode state.binding.bytes) },
    ⟨false, some state⟩⟩) rfl (fun _ => hE _ _) (fun _ => hE _ _)).bind
  rintro _ _ rfl
  exact ensures_change_last rfl

theorem openPersistence_fresh (hE : ∀ stop m, E stop m) :
    Ensures (openPersistence env journal) ⟨disk, ⟨false, none⟩⟩
      (fun _ m => journal.Accepted env journal.identity ∧ ∃ state, state.isSnapshotPending = true ∧
        state.writer = none ∧ m = ⟨disk, ⟨false, some state⟩⟩) E := by
  apply ensures_observe
  apply ensures_ofExcept (fun _ _ => hE _ _)
  intro state hstate
  apply ensures_change_last
  obtain ⟨⟨⟩, hvalid, hnew⟩ := bind_eq_ok.mp hstate
  obtain ⟨durable, -, hnew⟩ := bind_eq_ok.mp hnew
  cases hnew
  exact ⟨(Journal.validate_eq_ok env).mp hvalid, _, rfl, rfl, rfl⟩

variable (env journal disk) in
theorem first_save_ensures :
    Ensures (Checkpoint.save env journal) ⟨disk, ⟨false, none⟩⟩
      (fun _ => Sound env journal (Vouches journal)) (fun _ _ => True) := by
  have hE : ∀ (stop : Stop CliError) (m : Machine), True := fun _ _ => trivial
  apply (openPersistence_fresh hE).bind
  rintro _ _ ⟨ha, state, hpending, hwriter, rfl⟩
  apply ensures_observe
  change Ensures (State.save env journal true >>= _) _ _ _
  apply Ensures.bind (Q := fun _ => Sound env journal (Vouches journal))
  · apply ensures_currentState (fun _ => trivial)
    rintro _ ⟨⟩
    apply ensures_require (fun _ => trivial)
    intro _
    apply ensures_ofExcept (fun _ _ => trivial)
    intro _ _
    apply (prepareWriter_pending hE hpending hwriter).bind
    rintro _ _ ⟨durable, hdurable, rfl⟩
    apply (saveSnapshot_pending { state with
      binding := fingerprint env journal
      durableCompletions := durable
      writer := some ⟨disk.nextNode, fingerprint env journal, false⟩ } hE hpending).bind
    rintro _ _ rfl
    have hfirst := firstImage_sound ha disk state hdurable
    apply (saveCompletions_ensures hfirst journal).mono
    · intro _ m hm
      rwa [Set.union_self] at hm
    · exact fun _ _ _ => trivial
  · intro _ m hm
    exact ensures_change_last hm.markSaved

end FirstSave

-- What a load gives, whatever the outside does to the effects it does not have.
def Loads (env : Env) (identity : Identity) (machine : Machine) (loaded : Journal) : Prop :=
  ∀ faults, ∃ after, Checkpoint.load env identity ⟨machine, faults⟩ = .ok loaded ⟨after, faults⟩

theorem Loads.unique {identity : Identity} {loaded loaded' : Journal}
    (h : Loads env identity machine loaded) (h' : Loads env identity machine loaded') :
    loaded = loaded' := by
  obtain ⟨after, hok⟩ := h []
  obtain ⟨after', hok'⟩ := h' []
  rw [hok] at hok'
  cases hok'
  rfl

theorem Sound.loads (h : Sound env journal R machine) :
    ∃ loaded, Loads env journal.identity machine loaded ∧
      loaded.completed.length = journal.completed.length ∧
      ∀ i text, loaded.completed[i]? = some (some text) ↔
        ∃ digest, (i, digest) ∈ R ∧ text = hexEncode digest.bytes := by
  obtain ⟨records, tail, node, himage⟩ := h
  obtain ⟨loaded, state, hload, hcompleted, -, -⟩ := himage.load himage.accepted himage.held
  refine ⟨loaded, ?_, by rw [hcompleted, overlay_length], ?_⟩
  · intro faults
    refine ⟨machine.install state, ?_⟩
    simp only [Checkpoint.load, observe, bind, EStateM.bind, hload]
    rfl
  · intro i text
    rw [hcompleted, overlay_exact himage.wellFormed
      (fun x hx => (himage.mem x).mpr (himage.base hx)) himage.accepted.digests]
    simp only [himage.mem]

theorem Sound.ledger (h : Sound env journal R machine) :
    ∃ file, machine.disk.ledger = some file ∧
      WellFormedLedger env (fingerprint env journal) journal.completed.length file.bytes := by
  obtain ⟨records, tail, node, himage⟩ := h
  exact ⟨_, himage.ledger, records, tail, rfl, himage.wellFormed, himage.torn⟩

theorem share_ledger_crash_safe {disk : Disk} {checkpoint : Checkpoint} {faults : List Fault}
    {first : World Machine} (hopen : Checkpoint.open disk false = .ok checkpoint)
    (hsave : Checkpoint.save env journal ⟨⟨disk, checkpoint⟩, faults⟩ = .ok () first)
    (actions : List Action) :
    (∃ file, (execute env first.state actions).2.disk.ledger = some file ∧
      WellFormedLedger env (fingerprint env journal) journal.completed.length file.bytes) ∧
    ∃ loaded, Loads env journal.identity (execute env first.state actions).2 loaded ∧
      loaded.completed.length = journal.completed.length ∧
      (∀ (i : Nat) (text : Text), loaded.completed[i]? = some (some text) ↔
        ∃ digest, text = hexEncode digest.bytes ∧ ((i, digest) ∈ Vouches journal ∨
          ∃ event ∈ (execute env first.state actions).1, (i, digest) ∈ event.contributes)) ∧
      ∀ earlier later loaded', actions = earlier ++ later →
        Loads env journal.identity (execute env first.state earlier).2 loaded' →
        ∀ (i : Nat) (text : Text), loaded'.completed[i]? = some (some text) →
          loaded.completed[i]? = some (some text) := by
  obtain ⟨-, -, hcheckpoint⟩ := bind_eq_ok.mp hopen
  cases hcheckpoint
  have hfirst : Sound env journal (Vouches journal) first.state := by
    have hrun := first_save_ensures env journal disk faults
    rwa [hsave] at hrun
  have hrun := execute_sound hfirst actions
  obtain ⟨loaded, hloads, hlength, hloaded⟩ := hrun.loads
  refine ⟨hrun.ledger, loaded, hloads, hlength, ?_, ?_⟩
  · intro i text
    rw [hloaded]
    simp only [Set.mem_union, contributed, Set.mem_ofPred_eq, and_comm]
  · intro earlier later loaded' heq hloads' i text htext
    obtain ⟨loaded'', hloads'', -, hloaded''⟩ := (execute_sound hfirst earlier).loads
    rw [hloads'.unique hloads''] at htext
    obtain ⟨digest, hmem, rfl⟩ := (hloaded'' i text).mp htext
    refine (hloaded i _).mpr ⟨digest, ?_, rfl⟩
    rw [heq, execute_append, contributed_append, ← Set.union_assoc]
    exact .inl hmem

section Example

-- An environment whose hash keeps the first 32 bytes and whose checks accept everything.
def sampleEnv : Env where
  sha256 := Hash.ofBytes
  journalJson j := j.completed.flatMap fun digest =>
    (digest.getD "null".toList).map fun c => UInt8.ofNat c.toNat
  taskJson version _ _ := [UInt8.ofNat version]
  entryJson entry := entry.localPath.map fun c => UInt8.ofNat c.toNat
  deriveShareApiOrigin origin := .ok origin
  validateManifest _ := .ok ()
  validateSelection _ _ _ := .ok ()
  validateOptions _ _ _ _ := .ok ()
  shortRead left := left / 2

def sampleIdentity : Identity where
  origin := "https://example.test".toList
  shareId := "s".toList
  selection := none
  destination := "/dest".toList
  isRecursive := true
  isOverwrite := false
  selectionPolicy := none
  apiOrigin := none
  recipient := none

def sampleJournal (digest : Option Text) : Journal where
  version := 1
  identity := sampleIdentity
  manifest := {
    roots := []
    files := [⟨"a".toList, ⟨"a".toList, 1, "tag".toList, 0, 1⟩⟩]
    directories := []
    remoteDirectories := []
    policy := .legacy
    sized := by decide }
  completed := [digest]

def sampleDigest : Text := List.replicate 64 'a'

def emptyDisk : Disk := ⟨none, none, 0⟩

def firstSaved : World Machine :=
  match Checkpoint.save sampleEnv (sampleJournal none) ⟨⟨emptyDisk, ⟨false, none⟩⟩, []⟩ with
  | .ok _ w => w
  | .error _ w => w

-- An append torn after ten bytes, a failed call, a new process and a completion that returns.
def tornActions : List Action :=
  [.call (.saveCompletion (sampleJournal (some sampleDigest)) 0) [.fail 10],
    .call (.saveCompletion (sampleJournal (some sampleDigest)) 0) [],
    .reopen,
    .call (.load sampleIdentity) [],
    .call (.saveCompletion (sampleJournal (some sampleDigest)) 0) []]

def completedOf : EStateM.Result (Stop CliError) (World Machine) Journal →
    Option (List (Option Text))
  | .ok loaded _ => some loaded.completed
  | .error _ _ => none

theorem torn_append_loads :
    ∃ loaded, Loads sampleEnv sampleIdentity (execute sampleEnv firstSaved.state tornActions).2
      loaded ∧ loaded.completed = [some sampleDigest] := by
  obtain ⟨-, loaded, hloads, -⟩ := @share_ledger_crash_safe sampleEnv (sampleJournal none)
    emptyDisk ⟨false, none⟩ [] firstSaved rfl rfl tornActions
  obtain ⟨after, hload⟩ := hloads []
  have hcompleted : completedOf (Checkpoint.load sampleEnv sampleIdentity
      ⟨(execute sampleEnv firstSaved.state tornActions).2, []⟩) = some [some sampleDigest] := by
    decide +kernel
  exact ⟨loaded, hloads, Option.some.inj ((congrArg completedOf hload).symm.trans hcompleted)⟩

end Example

end VeStorage.ADrive.Share
