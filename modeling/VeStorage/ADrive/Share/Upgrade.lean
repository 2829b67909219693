import VeStorage.ADrive.Share.CrashSafe

namespace VeStorage.ADrive.Share
open Lib
open Lib.Crash
open Lib.RecordLog

-- How a round ends between the new ledger and the marked snapshot: the process dies, or the
-- publication fails and the same process goes on.
inductive Cut where
  | killed
  | failed

def Cut.faults : Cut → List Fault
  | .killed => [.none, .crash 0]
  | .failed => [.none, .fail 0]

def roundFaults : Option Cut → List Fault
  | none => []
  | some cut => cut.faults

variable (env : Env) (expected : Identity)

-- The machine after a call, with a new process where the old one died.
def settled {ρ : Type} : EStateM.Result (Stop CliError) (World Machine) ρ → Machine
  | .ok _ w => w.state
  | .error (.raised _) w => w.state
  | .error .killed w => w.state.reopened

-- Load with `expected`, then save the unchanged loaded journal.
def round (machine : Machine) (cut : Option Cut) : Option (Journal × Machine) :=
  match Checkpoint.load env expected ⟨machine, []⟩ with
  | .ok journal w =>
      some (journal, settled (Checkpoint.save env journal ⟨w.state, roundFaults cut⟩))
  | .error _ _ => none

-- The journals that the loads of the rounds return.
def rounds (machine : Machine) : List (Option Cut) → Option (List Journal × Machine)
  | [] => some ([], machine)
  | cut :: cuts => do
      let (journal, next) ← round env expected machine cut
      let (journals, last) ← rounds next cuts
      return (journal :: journals, last)

def legacySnapshot (journal : Journal) : SavedJournal := { journal with completionLedger := none }

-- A checkpoint opened to resume, before it had a ledger.
def legacyMachine (journal : Journal) (node : Nat) : Machine :=
  ⟨⟨some (legacySnapshot journal), none, node⟩, ⟨true, none⟩⟩

def Machine.IsMarked (machine : Machine) : Prop :=
  ∃ saved, machine.disk.snapshot = some saved ∧ saved.completionLedger.isSome = true

-- Every load of the rounds returns the completions of `journal`, and the last round leaves a
-- marked snapshot that loads again.
def Completes (journal : Journal) (machine : Machine) (cuts : List (Option Cut)) : Prop :=
  ∃ journals last again,
    rounds env expected machine cuts = some (journals, last) ∧
    (∀ loaded ∈ journals, Vouches loaded = Vouches journal) ∧ last.IsMarked ∧
    Loads env expected last again ∧ Vouches again = Vouches journal

-- Any rounds, each cut or not, and a last one that is not.
def Upgrades (journal : Journal) (node : Nat) (cuts : List (Option Cut)) : Prop :=
  Completes env expected journal (legacyMachine journal node) (cuts ++ [none])

def lowered (journal : Journal) : Journal :=
  { journal with completed := journal.completed.map fun digest => digest.map toAsciiLowercase }

variable {env expected} {journal : Journal}

theorem effectivePolicy_of_some {identity : Identity} {policy : SelectionPolicy}
    (h : identity.selectionPolicy = some policy) :
    identity.effectivePolicy expected = some policy := by
  unfold Identity.effectivePolicy
  rw [h]

theorem withPolicy_self : expected.withPolicy expected = expected := by
  have hpolicy : expected.effectivePolicy expected = expected.selectionPolicy := by
    cases hp : expected.selectionPolicy with
    | none =>
      unfold Identity.effectivePolicy
      rw [hp]
    | some policy => exact effectivePolicy_of_some hp
  rw [Identity.withPolicy, hpolicy]

theorem withPolicy_apiOrigin (identity : Identity) (origin : Option Text) :
    Identity.withPolicy { identity with apiOrigin := origin } expected =
      { identity.withPolicy expected with apiOrigin := origin } := rfl

theorem matchesExpected_true {identity : Identity} :
    identity.matchesExpected env expected = .ok true ↔
      if identity.apiOrigin = none ∧ identity.recipient = none ∧ expected.apiOrigin ≠ none then
        ∃ origin, env.deriveShareApiOrigin identity.origin = .ok origin ∧
          { identity.withPolicy expected with apiOrigin := some origin } = expected
      else identity.withPolicy expected = expected := by
  have hfields : (identity.withPolicy expected).apiOrigin = identity.apiOrigin ∧
      (identity.withPolicy expected).recipient = identity.recipient ∧
      (identity.withPolicy expected).origin = identity.origin := ⟨rfl, rfl, rfl⟩
  simp only [Identity.matchesExpected, hfields]
  by_cases hderive : identity.apiOrigin = none ∧ identity.recipient = none ∧
      expected.apiOrigin ≠ none
  · have hcond : (identity.apiOrigin.isNone && identity.recipient.isNone &&
        expected.apiOrigin.isSome) = true := by
      simp [hderive, Option.isSome_iff_ne_none]
    rw [if_pos hderive, if_pos hcond]
    simp only [bind_eq_ok, pure_eq_ok, decide_eq_true_eq]
  · have hcond : ¬ (identity.apiOrigin.isNone && identity.recipient.isNone &&
        expected.apiOrigin.isSome) = true := by
      simpa [Option.isSome_iff_ne_none, and_assoc] using hderive
    rw [if_neg hderive, if_neg hcond]
    simp only [pure_eq_ok, decide_eq_true_eq]

-- A journal that was accepted is still accepted under the identity that a load gives it.
theorem matchesExpected_normalized
    (h : journal.identity.matchesExpected env expected = .ok true) :
    (normalizeIdentity journal expected).identity.matchesExpected env expected = .ok true := by
  unfold normalizeIdentity
  split
  · rw [matchesExpected_true, if_neg fun hc => hc.2.2 hc.1]
    exact withPolicy_self
  · split
    · next hnone =>
      have hapi : journal.identity.apiOrigin = none := Option.isNone_iff_eq_none.mp hnone
      rw [matchesExpected_true] at h ⊢
      rw [if_neg fun hc => hc.2.2 hc.1, withPolicy_apiOrigin]
      split at h
      · obtain ⟨origin, -, heq⟩ := h
        have horigin : expected.apiOrigin = some origin := by rw [← heq]
        rw [horigin]
        exact heq
      · have horigin : expected.apiOrigin = none := by
          rw [← h]
          exact hapi
        have hsame : { journal.identity.withPolicy expected with apiOrigin := none } =
            journal.identity.withPolicy expected := by
          rw [← hapi]
          rfl
        rw [horigin, hsame]
        exact h
    · exact h

theorem normalized_policy (h : journal.identity.matchesExpected env expected = .ok true) :
    (normalizeIdentity journal expected).identity.selectionPolicy =
      journal.identity.selectionPolicy := by
  unfold normalizeIdentity
  split
  · next hsome =>
    obtain ⟨policy, hpolicy⟩ := Option.isSome_iff_exists.mp hsome
    have heffective : (journal.identity.withPolicy expected).selectionPolicy = some policy :=
      effectivePolicy_of_some hpolicy
    rw [hpolicy]
    rw [matchesExpected_true] at h
    split at h
    · obtain ⟨origin, -, heq⟩ := h
      exact (congrArg Identity.selectionPolicy heq).symm.trans heffective
    · exact (congrArg Identity.selectionPolicy h).symm.trans heffective
  · split <;> rfl

theorem accepted_normalized (h : journal.Accepted env expected) :
    (normalizeIdentity journal expected).Accepted env expected where
  version := by
    unfold normalizeIdentity
    split
    · exact h.version
    · split <;> exact h.version
  task := matchesExpected_normalized h.task
  manifest := by
    rw [normalizeIdentity_manifest]
    exact h.manifest
  counted := by
    rw [normalizeIdentity_manifest, normalizeIdentity_completed]
    exact h.counted
  digests := by
    rw [normalizeIdentity_completed]
    exact h.digests
  selected := by
    rw [normalizeIdentity_manifest]
    exact h.selected
  options := by
    rw [normalized_policy h.task, normalizeIdentity_manifest]
    exact h.options

theorem accepted_lowered (h : journal.Accepted env expected) :
    (lowered journal).Accepted env expected where
  version := h.version
  task := h.task
  manifest := h.manifest
  counted := by
    rw [lowered, List.length_map]
    exact h.counted
  digests := by
    intro digest hdigest
    obtain ⟨text, htext, heq⟩ := List.mem_map.mp hdigest
    obtain ⟨value, rfl, rfl⟩ := Option.map_eq_some_iff.mp heq
    exact isCompletionRecord_lowercase (h.digests value htext)
  selected := h.selected
  options := h.options

theorem normalizeIdentity_idem :
    normalizeIdentity (normalizeIdentity journal expected) expected =
      normalizeIdentity journal expected := by
  by_cases hpolicy : journal.identity.selectionPolicy.isSome = true
  · have hfirst : normalizeIdentity journal expected = { journal with identity := expected } :=
      if_pos hpolicy
    rw [hfirst]
    unfold normalizeIdentity
    split
    · rfl
    · split <;> rfl
  · by_cases hapi : journal.identity.apiOrigin.isNone = true
    · have hfirst : normalizeIdentity journal expected = { journal with identity :=
          { journal.identity with apiOrigin := expected.apiOrigin } } := by
        rw [normalizeIdentity, if_neg hpolicy, if_pos hapi]
      rw [hfirst, normalizeIdentity, if_neg hpolicy]
      split <;> rfl
    · have hfirst : normalizeIdentity journal expected = journal := by
        rw [normalizeIdentity, if_neg hpolicy, if_neg hapi]
      rw [hfirst, hfirst]

theorem normalizeIdentity_lowered :
    normalizeIdentity (lowered journal) expected = lowered (normalizeIdentity journal expected) := by
  unfold normalizeIdentity
  by_cases hpolicy : journal.identity.selectionPolicy.isSome = true
  · rw [if_pos hpolicy, if_pos (by exact hpolicy)]
    rfl
  · rw [if_neg hpolicy, if_neg (by exact hpolicy)]
    by_cases hapi : journal.identity.apiOrigin.isNone = true
    · rw [if_pos hapi, if_pos (by exact hapi)]
      rfl
    · rw [if_neg hapi, if_neg (by exact hapi)]

-- The memory after a load of a journal without a writer.
def loadedState (env : Env) (j : Journal) (binding : Hash) (isPending : Bool)
    (durable : List (Option Hash)) : State where
  identity := j.identity
  immutableTask := fingerprintTask env j
  entryFingerprints := j.manifest.files.map (fingerprintEntry env)
  durableCompletions := durable
  binding := binding
  isSnapshotPending := isPending
  writer := none

theorem openLedger_held {disk : Disk} {file : LedgerFile} {writer : Option LedgerWriter}
    (hledger : disk.ledger = some file)
    (hheld : ∀ w ∈ writer, w.file = file.node) : openLedger disk writer = .ok (some file) := by
  cases writer with
  | none =>
    rw [openLedger, readLedger, hledger]
    rfl
  | some w =>
    have hfile : w.file = file.node := hheld w rfl
    simp [openLedger, LedgerWriter.verifyOpenFile, hledger, hfile]

section Durable

variable {durable : List (Option Hash)} (hd : completions journal = .ok durable)
include hd

theorem completions_lowered : completions (lowered journal) = .ok durable := by
  rw [completions, mapM_eq_ok, lowered, List.forall₂_map_left_iff]
  apply (mapM_eq_ok.mp hd).imp
  intro text hash hdecode
  cases text with
  | none => exact hdecode
  | some value =>
    obtain ⟨digest, rfl, hok⟩ := decodeDigest_some hdecode
    refine decodeDigest_eq_some.mpr ⟨_, rfl, ?_⟩
    exact digestBytes_eq_ok.mpr (hexDecode_lowercase (digestBytes_eq_ok.mp hok))

theorem durable_wellFormed : Records journal.completed.length (durableRecords durable) :=
  completions_length hd ▸ durableRecords_wellFormed durable

theorem durable_agrees : Agrees journal.completed (durableRecords durable) := by
  intro r hr saved hsaved
  obtain ⟨value, hvalue, hok⟩ := (completions_getElem? hd r.1 r.2).mp (durableRecords_mem.mp hr)
  rw [hsaved] at hvalue
  cases hvalue
  exact (hexEncode_hexDecode (digestBytes_eq_ok.mp hok)).symm

theorem overlay_durable :
    overlay journal.completed (durableRecords durable) = (lowered journal).completed := by
  apply List.ext_getElem?
  intro i
  rw [lowered, List.getElem?_map]
  rcases overlay_cases (durable_wellFormed hd) rfl i with ⟨digest, hmem, heq⟩ | ⟨hnone, heq⟩
  · obtain ⟨value, hvalue, hok⟩ := (completions_getElem? hd i digest).mp (durableRecords_mem.mp hmem)
    rw [heq, hvalue, hexEncode_hexDecode (digestBytes_eq_ok.mp hok)]
    rfl
  · rw [heq]
    cases hi : journal.completed[i]? with
    | none => rfl
    | some text =>
      cases text with
      | none => rfl
      | some value =>
        obtain ⟨digest, hok⟩ := completions_digest hd hi
        have hdurable := (completions_getElem? hd i digest).mpr ⟨value, hi, hok⟩
        exact absurd (durableRecords_mem.mpr hdurable) (hnone digest)

theorem State.new_run (binding : Hash) (isPending : Bool) :
    State.new env journal binding isPending =
      .ok (loadedState env journal binding isPending durable) := by
  rw [State.new, hd]
  rfl

variable {node : Nat} {b : Hash} {marker : Option Text} {disk : Disk}
  {writer : Option LedgerWriter}

-- A snapshot with a ledger that the load recognises, its own or, unmarked, the one of an upgrade.
theorem load_run (ha : journal.Accepted env expected)
    (hsnapshot : disk.snapshot = some { journal with completionLedger := marker })
    (hledger : disk.ledger = some ⟨node, ledgerBytes env b (durableRecords durable)⟩)
    (hheld : ∀ w ∈ writer, w.file = node)
    (hmarker : ∀ text ∈ marker, text = hexEncode (fingerprint env journal).bytes)
    (hbinding : b = fingerprint env journal ∨
      marker = none ∧ b = fingerprint env (normalizeIdentity journal expected)) :
    Share.load env disk expected writer =
      .ok (lowered (normalizeIdentity journal expected),
        loadedState env (lowered (normalizeIdentity journal expected)) (fingerprint env journal)
          marker.isNone durable) := by
  have hjournal : lowered (normalizeIdentity journal expected) =
      { normalizeIdentity journal expected with completed := (lowered journal).completed } := by
    rw [lowered, lowered, normalizeIdentity_completed]
  have hlowered : completions { normalizeIdentity journal expected with
      completed := (lowered journal).completed } = .ok durable := completions_lowered hd
  have hcount : journal.completed.length ≤ maxEntries := ha.counted ▸ journal.manifest.sized
  have hmigration : b = fingerprint env journal ∨
      (if marker.isNone = true then
        some (fingerprint env (normalizeIdentity journal expected)) else none) = some b := by
    rcases hbinding with h | ⟨rfl, rfl⟩
    · exact .inl h
    · exact .inr rfl
  have hmerge := merge_log env (durable_wellFormed hd) hcount rfl (durable_agrees hd)
    (by decide : ([] : List UInt8).length < recordSize) hmigration
  rw [List.append_nil, overlay_durable hd] at hmerge
  rw [hjournal]
  simp only [Share.load, readSnapshot, hsnapshot, bind_eq_ok, ensure_eq_ok]
  refine ⟨_, rfl, (), (Journal.validate_eq_ok env).mpr ha, (), hmarker, _,
    openLedger_held hledger hheld, (lowered journal).completed, ?_, _,
    State.new_run hlowered (fingerprint env journal) marker.isNone, rfl⟩
  rw [normalizeIdentity_completed]
  exact hmerge

variable (disk) in
-- The first load of a legacy snapshot, before any ledger.
theorem load_run_bare (ha : journal.Accepted env expected)
    (hsnapshot : disk.snapshot = some (legacySnapshot journal)) (hledger : disk.ledger = none) :
    Share.load env disk expected none =
      .ok (normalizeIdentity journal expected,
        loadedState env (normalizeIdentity journal expected) (fingerprint env journal) true
          durable) := by
  have hnormal : completions { normalizeIdentity journal expected with
      completed := journal.completed } = .ok durable := hd
  have hjournal : { normalizeIdentity journal expected with completed := journal.completed } =
      normalizeIdentity journal expected := by
    rw [← normalizeIdentity_completed journal expected]
  rw [← hjournal]
  simp only [Share.load, readSnapshot, hsnapshot, bind_eq_ok, ensure_eq_ok]
  refine ⟨_, rfl, (), (Journal.validate_eq_ok env).mpr ha, (), ?_, none, ?_, journal.completed,
    ?_, _, State.new_run hnormal (fingerprint env journal) true, rfl⟩
  · rintro text ⟨⟩
  · rw [openLedger, readLedger, hledger]
    rfl
  · refine bind_eq_ok.mpr ⟨(), ensure_eq_ok.mpr rfl, ?_⟩
    rw [normalizeIdentity_completed]
    rfl

omit hd in
-- A ledger bound to neither the snapshot nor its normalised form is refused.
theorem load_foreign {result : Journal × State}
    (hsnapshot : disk.snapshot = some (legacySnapshot journal))
    (hledger : disk.ledger = some ⟨node, ledgerBytes env b (durableRecords durable)⟩)
    (hheld : ∀ w ∈ writer, w.file = node) (hown : b ≠ fingerprint env journal)
    (hmigration : b ≠ fingerprint env (normalizeIdentity journal expected)) :
    Share.load env disk expected writer ≠ .ok result := by
  intro hload
  simp only [Share.load, readSnapshot, hsnapshot, bind_eq_ok] at hload
  obtain ⟨_, hsaved, _, -, _, -, file, hfile, completed, hmerge, -⟩ := hload
  cases hsaved
  rw [openLedger_held hledger hheld] at hfile
  cases hfile
  have hbytes : ledgerBytes env b (durableRecords durable) =
      ledgerBytes env b (durableRecords durable) ++ [] := (List.append_nil _).symm
  rw [mergeLedger, hbytes] at hmerge
  exact merge_foreign hown (fun h => hmigration (Option.some.inj h).symm) hmerge

theorem checkCompletions_run (b : Hash) (isPending : Bool) :
    (loadedState env journal b isPending durable).checkCompletions journal = .ok () := by
  have hall := mapM_eq_ok.mp hd
  have hpairs : ∀ (texts : List (Option Text)) (hashes : List (Option Hash)),
      List.Forall₂ (fun a b => decodeDigest a = .ok b) texts hashes →
      ((hashes.zip texts).forM fun pair => do
        let current ← decodeDigest pair.2
        ensure (pair.1.isSome = true → pair.1 = current)
          (.validation "a durable completion cannot be cleared or changed")) = .ok () := by
    intro texts hashes h
    induction h with
    | nil => rfl
    | cons hdecode _ ih =>
      simp only [List.zip_cons_cons, List.forM_eq_forM, List.forM_cons, bind_eq_ok]
      exact ⟨(), ⟨_, hdecode, ensure_eq_ok.mpr fun _ => rfl⟩, ih⟩
  refine bind_eq_ok.mpr ⟨(), ensure_eq_ok.mpr hall.length_eq, hpairs _ _ hall⟩

-- The machine after `prepare_writer`: the new ledger is published and held.
def preparedMachine (env : Env) (j : Journal) (disk : Disk) (b : Hash) (isPending : Bool)
    (durable : List (Option Hash)) : Machine where
  disk := disk.publishLedger (ledgerBytes env b (durableRecords durable))
  checkpoint := ⟨true, some { loadedState env j b isPending durable with
    writer := some ⟨disk.nextNode, b, false⟩ }⟩

omit hd in
theorem currentState_run {machine : Machine} {state : State} {faults : List Fault}
    (hp : machine.checkpoint.persistence = some state) :
    currentState ⟨machine, faults⟩ = .ok state ⟨machine, faults⟩ := by
  rw [currentState, bind_run observe_run, hp]
  rfl

omit hd in
theorem create_run {machine : Machine} {state : State} {faults : List Fault}
    (hp : machine.checkpoint.persistence = some state) (hf : faults.head?.getD .none = .none) :
    LedgerWriter.create env false ⟨machine, faults⟩ =
      .ok ⟨machine.disk.nextNode, state.binding, false⟩
        ⟨machine.onDisk (Disk.publishLedger
          (ledgerBytes env state.binding (durableRecords state.durableCompletions))),
        faults.tail⟩ := by
  rw [LedgerWriter.create, bind_run (currentState_run hp), bind_run observe_run,
    bind_run (require_run (by simp)), bind_run (atomic_run hf)]
  rfl

theorem prepareWriter_run {isPending : Bool} {faults : List Fault}
    (hf : faults.head?.getD .none = .none) :
    State.prepareWriter env journal false
        ⟨⟨disk, ⟨true, some (loadedState env journal b isPending durable)⟩⟩, faults⟩ =
      .ok () ⟨preparedMachine env journal disk
        (if isPending then fingerprint env journal else b) isPending durable, faults.tail⟩ := by
  have hbind : bindPending env journal
      ⟨⟨disk, ⟨true, some (loadedState env journal b isPending durable)⟩⟩, faults⟩ =
      .ok () ⟨⟨disk, ⟨true, some (loadedState env journal
        (if isPending then fingerprint env journal else b) isPending durable)⟩⟩, faults⟩ := by
    rw [bindPending, bind_run (currentState_run rfl)]
    cases isPending with
    | false => rfl
    | true =>
      simp only [loadedState, if_true]
      rw [hd]
      rfl
  rw [State.prepareWriter, bind_run (currentState_run rfl)]
  change (bindPending env journal >>= fun _ => LedgerWriter.create env false >>= fun writer =>
    modifyState fun state => { state with writer := some writer }) _ = _
  rw [bind_run hbind, bind_run (create_run rfl hf)]
  rfl

-- Every completion is already durable, so the loop writes nothing.
theorem saveCompletions_run (ha : journal.Accepted env expected) {machine : Machine}
    {state : State} {held : LedgerWriter} (hp : machine.checkpoint.persistence = some state)
    (hw : state.writer = some held) (hsaved : state.isSnapshotPending = false)
    (hclean : held.isPoisoned = false) (hidentity : state.identity = journal.identity)
    (hentries : state.entryFingerprints = journal.manifest.files.map (fingerprintEntry env))
    (hdurable : state.durableCompletions = durable) (faults : List Fault) :
    saveCompletions env journal ⟨machine, faults⟩ = .ok () ⟨machine, faults⟩ := by
  apply forEach_run
  intro index hindex
  have hlt := List.mem_range.mp hindex
  cases hi : journal.completed[index]? with
  | none => rfl
  | some text =>
    cases text with
    | none => rfl
    | some value =>
      obtain ⟨digest, hok⟩ := completions_digest hd hi
      have husable : held.ensureUsable = .ok () := ensure_eq_ok.mpr hclean
      have hget : durable[index]? = some (some digest) :=
        (completions_getElem? hd index digest).mpr ⟨value, hi, hok⟩
      have hfile : index < journal.manifest.files.length := ha.counted ▸ hlt
      have hentry := List.getElem?_eq_getElem hfile
      change State.saveCompletion env journal index ⟨machine, faults⟩ = _
      rw [State.saveCompletion, bind_run (currentState_run hp), bind_run (require_run hsaved), hw,
        bind_run orRaise_run, bind_run (ofExcept_run husable)]
      have hsame : journal.version = 1 ∧ journal.identity = state.identity ∧
          journal.completed.length = state.durableCompletions.length ∧
          journal.manifest.files.length = state.entryFingerprints.length := by
        rw [hdurable, completions_length hd, hentries, List.length_map]
        exact ⟨ha.version, hidentity.symm, rfl, rfl⟩
      have hfingerprint : state.entryFingerprints[index]? =
          some (fingerprintEntry env journal.manifest.files[index]) := by
        rw [hentries, List.getElem?_map, hentry]
        rfl
      simp only [hdurable, hentry, hi, hget]
      rw [bind_run (require_run hsame), bind_run orRaise_run,
        bind_run (require_run hfingerprint), bind_run orPanic_run, bind_run orRaise_run,
        bind_run (ofExcept_run hok), bind_run orPanic_run]
      exact require_run rfl

variable (env b disk) in
theorem state_save_run (isPending : Bool) {faults : List Fault}
    (hf : faults.head?.getD .none = .none) :
    State.save env journal false
        ⟨⟨disk, ⟨true, some (loadedState env journal b isPending durable)⟩⟩, faults⟩ =
      (saveSnapshot journal false >>= fun _ => saveCompletions env journal)
        ⟨preparedMachine env journal disk
          (if isPending then fingerprint env journal else b) isPending durable, faults.tail⟩ := by
  have htask : (loadedState env journal b isPending durable).immutableTask =
      fingerprintTask env journal := rfl
  rw [State.save, bind_run (currentState_run rfl), bind_run (require_run htask),
    bind_run (ofExcept_run (checkCompletions_run hd b isPending)),
    bind_run (prepareWriter_run hd hf)]

omit hd in
theorem save_run {state : State} {faults : List Fault} :
    Checkpoint.save env journal ⟨⟨disk, ⟨true, some state⟩⟩, faults⟩ =
      (State.save env journal false >>= fun _ => change Machine.markSaved)
        ⟨⟨disk, ⟨true, some state⟩⟩, faults⟩ := rfl

-- What a round leaves: a snapshot, a ledger bound to `b`, and a process that holds this ledger.
structure Stands (env : Env) (saved : SavedJournal) (b : Hash) (durable : List (Option Hash))
    (machine : Machine) : Prop where
  snapshot : machine.disk.snapshot = some saved
  ledger : ∃ node, machine.disk.ledger =
      some ⟨node, ledgerBytes env b (durableRecords durable)⟩ ∧
    ∀ w ∈ machine.checkpoint.persistence.bind State.writer, w.file = node
  hasSaved : machine.checkpoint.hasSaved = true

variable (env journal b durable) in
omit hd in
theorem prepared_stands {saved : SavedJournal} (hs : disk.snapshot = some saved)
    (isPending : Bool) :
    Stands env saved b durable (preparedMachine env journal disk b isPending durable) := by
  refine ⟨hs, ⟨disk.nextNode, rfl, ?_⟩, rfl⟩
  rintro w ⟨⟩
  rfl

theorem save_stands_cut {saved : SavedJournal} (hs : disk.snapshot = some saved) (cut : Cut) :
    Stands env saved (fingerprint env journal) durable (settled (Checkpoint.save env journal
      ⟨⟨disk, ⟨true, some (loadedState env journal b true durable)⟩⟩, cut.faults⟩)) := by
  have hprepared := prepared_stands env journal durable (fingerprint env journal) hs true
  cases cut with
  | failed =>
    have hstop : State.save env journal false
        ⟨⟨disk, ⟨true, some (loadedState env journal b true durable)⟩⟩, Cut.failed.faults⟩ =
        .error (.raised .io) ⟨preparedMachine env journal disk (fingerprint env journal) true
          durable, []⟩ := by
      rw [state_save_run env hd b disk true rfl]
      rfl
    rw [save_run, bind_stop hstop]
    exact hprepared
  | killed =>
    have hstop : State.save env journal false
        ⟨⟨disk, ⟨true, some (loadedState env journal b true durable)⟩⟩, Cut.killed.faults⟩ =
        .error .killed ⟨preparedMachine env journal disk (fingerprint env journal) true
          durable, []⟩ := by
      rw [state_save_run env hd b disk true rfl]
      rfl
    rw [save_run, bind_stop hstop, settled, Machine.reopened_eq hprepared.snapshot]
    obtain ⟨node, hledger, -⟩ := hprepared.ledger
    exact ⟨hprepared.snapshot, ⟨node, hledger, nofun⟩, rfl⟩

theorem save_stands_complete (ha : journal.Accepted env expected) :
    Stands env (savedSnapshot env journal) (fingerprint env journal) durable
      (settled (Checkpoint.save env journal
        ⟨⟨disk, ⟨true, some (loadedState env journal b true durable)⟩⟩, []⟩)) := by
  have hsnapshot : saveSnapshot journal false
      ⟨preparedMachine env journal disk (fingerprint env journal) true durable, []⟩ =
      .ok () ⟨⟨(disk.publishLedger (ledgerBytes env (fingerprint env journal)
          (durableRecords durable))).publishSnapshot (savedSnapshot env journal),
        ⟨true, some { loadedState env journal (fingerprint env journal) false durable with
          writer := some ⟨disk.nextNode, fingerprint env journal, false⟩ }⟩⟩, []⟩ := rfl
  have hempty : ([] : List Fault).head?.getD .none = .none := rfl
  have hsave := state_save_run env hd b disk true hempty
  rw [if_pos rfl, List.tail_nil, bind_run hsnapshot,
    saveCompletions_run hd ha rfl rfl rfl rfl rfl rfl rfl] at hsave
  rw [save_run, bind_run hsave]
  refine ⟨rfl, ⟨disk.nextNode, rfl, ?_⟩, rfl⟩
  rintro w ⟨⟩
  rfl

theorem save_stands_marked (ha : journal.Accepted env expected) {saved : SavedJournal}
    (hs : disk.snapshot = some saved) (cut : Option Cut) :
    Stands env saved b durable (settled (Checkpoint.save env journal
      ⟨⟨disk, ⟨true, some (loadedState env journal b false durable)⟩⟩, roundFaults cut⟩)) := by
  have hhead : (roundFaults cut).head?.getD .none = .none := by
    rcases cut with _ | _ | _ <;> rfl
  have hsnapshot : saveSnapshot journal false
      ⟨preparedMachine env journal disk b false durable, (roundFaults cut).tail⟩ =
      .ok () ⟨preparedMachine env journal disk b false durable, (roundFaults cut).tail⟩ := rfl
  have hsave := state_save_run env hd b disk false hhead
  rw [if_neg Bool.false_ne_true, bind_run hsnapshot,
    saveCompletions_run hd ha rfl rfl rfl rfl rfl rfl rfl] at hsave
  rw [save_run, bind_run hsave]
  obtain ⟨hsaved, hledger, -⟩ := prepared_stands env journal durable b hs false
  exact ⟨hsaved, hledger, rfl⟩

omit hd in
theorem load_machine_run {machine : Machine} {loaded : Journal} {state : State}
    (h : Share.load env machine.disk expected
      (machine.checkpoint.persistence.bind State.writer) = .ok (loaded, state))
    (hs : machine.checkpoint.hasSaved = true) (faults : List Fault) :
    Checkpoint.load env expected ⟨machine, faults⟩ =
      .ok loaded ⟨⟨machine.disk, ⟨true, some state⟩⟩, faults⟩ := by
  rw [Checkpoint.load, bind_run observe_run, bind_run (ofExcept_run h)]
  obtain ⟨disk, hasSaved, persistence⟩ := machine
  cases hs
  rfl

omit hd in
theorem round_run {machine : Machine} {loaded : Journal} {state : State}
    (h : Share.load env machine.disk expected
      (machine.checkpoint.persistence.bind State.writer) = .ok (loaded, state))
    (hs : machine.checkpoint.hasSaved = true) (cut : Option Cut) :
    round env expected machine cut = some (loaded, settled (Checkpoint.save env loaded
      ⟨⟨machine.disk, ⟨true, some state⟩⟩, roundFaults cut⟩)) := by
  rw [round, load_machine_run h hs]

variable (expected) in
theorem completions_normalized : completions (normalizeIdentity journal expected) = .ok durable := by
  rw [completions, normalizeIdentity_completed]
  exact hd

variable (node) in
theorem round_bare (ha : journal.Accepted env expected) (cut : Option Cut) :
    ∃ next, round env expected (legacyMachine journal node) cut =
        some (normalizeIdentity journal expected, next) ∧
      Stands env (if cut.isSome then legacySnapshot journal
          else savedSnapshot env (normalizeIdentity journal expected))
        (fingerprint env (normalizeIdentity journal expected)) durable next := by
  have hload := load_run_bare hd (legacyMachine journal node).disk ha rfl rfl
  have hnormal := completions_normalized expected hd
  refine ⟨_, round_run hload rfl cut, ?_⟩
  cases cut with
  | none => exact save_stands_complete hnormal (accepted_normalized ha)
  | some cut => exact save_stands_cut hnormal rfl cut

theorem round_legacy (ha : journal.Accepted env expected) {machine : Machine}
    (h : Stands env (legacySnapshot journal) b durable machine)
    (hb : b = fingerprint env journal ∨
      b = fingerprint env (normalizeIdentity journal expected)) (cut : Option Cut) :
    ∃ next, round env expected machine cut =
        some (lowered (normalizeIdentity journal expected), next) ∧
      Stands env (if cut.isSome then legacySnapshot journal
          else savedSnapshot env (lowered (normalizeIdentity journal expected)))
        (fingerprint env (lowered (normalizeIdentity journal expected))) durable next := by
  obtain ⟨node, hledger, hheld⟩ := h.ledger
  have hload := load_run hd ha h.snapshot hledger hheld nofun (hb.imp_right fun h => ⟨rfl, h⟩)
  have hlowered := completions_lowered (completions_normalized expected hd)
  refine ⟨_, round_run hload h.hasSaved cut, ?_⟩
  cases cut with
  | none => exact save_stands_complete hlowered (accepted_lowered (accepted_normalized ha))
  | some cut => exact save_stands_cut hlowered h.snapshot cut

omit hd in
theorem round_foreign {machine : Machine} (h : Stands env (legacySnapshot journal) b durable machine)
    (hown : b ≠ fingerprint env journal)
    (hmigration : b ≠ fingerprint env (normalizeIdentity journal expected)) (cut : Option Cut) :
    round env expected machine cut = none := by
  obtain ⟨node, hledger, hheld⟩ := h.ledger
  cases hload : Share.load env machine.disk expected
      (machine.checkpoint.persistence.bind State.writer) with
  | ok result => exact absurd hload (load_foreign h.snapshot hledger hheld hown hmigration)
  | error e =>
    have hstop : Checkpoint.load env expected ⟨machine, []⟩ =
        .error (.raised e) ⟨machine, []⟩ := by
      rw [Checkpoint.load, bind_run observe_run]
      apply bind_stop
      rw [hload]
      rfl
    rw [round, hstop]

theorem load_marked (ha : journal.Accepted env expected)
    (hn : normalizeIdentity journal expected = journal) {machine : Machine}
    (h : Stands env (savedSnapshot env journal) (fingerprint env journal) durable machine) :
    Share.load env machine.disk expected
      (machine.checkpoint.persistence.bind State.writer) =
        .ok (lowered journal,
          loadedState env (lowered journal) (fingerprint env journal) false durable) := by
  obtain ⟨node, hledger, hheld⟩ := h.ledger
  have hload := load_run hd ha h.snapshot hledger hheld
    (fun text htext => (Option.some.inj htext).symm) (.inl rfl)
  rwa [hn] at hload

theorem round_marked (ha : journal.Accepted env expected)
    (hn : normalizeIdentity journal expected = journal) {machine : Machine}
    (h : Stands env (savedSnapshot env journal) (fingerprint env journal) durable machine)
    (cut : Option Cut) :
    ∃ next, round env expected machine cut = some (lowered journal, next) ∧
      Stands env (savedSnapshot env journal) (fingerprint env journal) durable next :=
  ⟨_, round_run (load_marked hd ha hn h) h.hasSaved cut,
    save_stands_marked (completions_lowered hd) (accepted_lowered ha) h.snapshot cut⟩

theorem vouches_eq {j : Journal} (hj : completions j = .ok durable) :
    Vouches j = Vouches journal := by
  ext x
  rw [← vouches_completions hj, ← vouches_completions hd]

end Durable

theorem Completes.cons {machine next : Machine} {loaded : Journal} {cut : Option Cut}
    {cuts : List (Option Cut)} (hround : round env expected machine cut = some (loaded, next))
    (hloaded : Vouches loaded = Vouches journal) (h : Completes env expected journal next cuts) :
    Completes env expected journal machine (cut :: cuts) := by
  obtain ⟨journals, last, again, hrounds, hall, hrest⟩ := h
  refine ⟨loaded :: journals, last, again, ?_, ?_, hrest⟩
  · rw [rounds, hround]
    simp [hrounds]
  · intro l hl
    rcases List.mem_cons.mp hl with rfl | hl
    · exact hloaded
    · exact hall l hl

-- Once the snapshot is marked with `j`, no cut changes it.
theorem completes_marked {durable : List (Option Hash)} (hd : completions journal = .ok durable)
    {j : Journal} (hj : completions j = .ok durable) (ha : j.Accepted env expected)
    (hn : normalizeIdentity j expected = j) (cuts : List (Option Cut)) {machine : Machine}
    (h : Stands env (savedSnapshot env j) (fingerprint env j) durable machine) :
    Completes env expected journal machine cuts := by
  induction cuts generalizing machine with
  | nil =>
    refine ⟨[], machine, lowered j, rfl, List.forall_mem_nil _, ⟨_, h.snapshot, rfl⟩, ?_,
      vouches_eq hd (completions_lowered hj)⟩
    intro faults
    exact ⟨_, load_machine_run (load_marked hj ha hn h) h.hasSaved faults⟩
  | cons cut cuts ih =>
    obtain ⟨next, hround, hnext⟩ := round_marked hj ha hn h cut
    exact .cons hround (vouches_eq hd (completions_lowered hj)) (ih hnext)

-- Rounds over an unmarked snapshot whose ledger stays recognisable whatever is cut.
theorem completes_stable {durable : List (Option Hash)} (hd : completions journal = .ok durable)
    (ha : journal.Accepted env expected)
    (hstable : lowered (normalizeIdentity journal expected) = normalizeIdentity journal expected)
    (cuts : List (Option Cut)) {machine : Machine}
    (h : Stands env (legacySnapshot journal)
      (fingerprint env (normalizeIdentity journal expected)) durable machine) :
    Completes env expected journal machine (cuts ++ [none]) := by
  have hnormal := completions_normalized expected hd
  have hmarked : ∀ (rest : List (Option Cut)) {next : Machine},
      Stands env (savedSnapshot env (normalizeIdentity journal expected))
        (fingerprint env (normalizeIdentity journal expected)) durable next →
      Completes env expected journal next rest := fun rest _ hnext =>
    completes_marked hd hnormal (accepted_normalized ha) normalizeIdentity_idem rest hnext
  induction cuts generalizing machine with
  | nil =>
    obtain ⟨next, hround, hnext⟩ := round_legacy hd ha h (.inr rfl) none
    rw [hstable] at hround hnext
    exact .cons hround (vouches_eq hd hnormal) (hmarked [] hnext)
  | cons cut cuts ih =>
    obtain ⟨next, hround, hnext⟩ := round_legacy hd ha h (.inr rfl) cut
    rw [hstable] at hround hnext
    apply Completes.cons hround (vouches_eq hd hnormal)
    cases cut with
    | none => exact hmarked _ hnext
    | some cut => exact ih hnext

def CollisionFree (env : Env) (journals : List Journal) : Prop :=
  ∀ a ∈ journals, ∀ b ∈ journals, fingerprint env a = fingerprint env b → a = b

theorem lowered_completed_iff :
    (lowered journal).completed = journal.completed ↔
      ∀ digest, some digest ∈ journal.completed → toAsciiLowercase digest = digest := by
  have hid : journal.completed = journal.completed.map id := (List.map_id _).symm
  constructor
  · intro h digest hdigest
    have heach := List.map_inj_left.mp (h.trans hid) (some digest) hdigest
    exact Option.some.inj heach
  · intro h
    refine (List.map_inj_left.mpr ?_).trans hid.symm
    intro digest hdigest
    cases digest with
    | none => rfl
    | some digest => exact congrArg some (h digest hdigest)

theorem lowered_eq_self
    (h : ∀ digest, some digest ∈ journal.completed → toAsciiLowercase digest = digest) :
    lowered journal = journal := by
  have hcompleted := lowered_completed_iff.mpr h
  obtain ⟨version, identity, manifest, completed⟩ := journal
  exact congrArg (Journal.mk version identity manifest) hcompleted

-- Two cuts in a row leave a ledger that no load recognises, unless the digests were lower-case.
theorem not_completes_after_two {durable : List (Option Hash)}
    (hd : completions journal = .ok durable) (ha : journal.Accepted env expected)
    (hfree : CollisionFree env [journal, normalizeIdentity journal expected,
      lowered (normalizeIdentity journal expected)])
    (hupper : ¬ ∀ digest, some digest ∈ journal.completed → toAsciiLowercase digest = digest)
    (first second : Cut) (node : Nat) (cuts : List (Option Cut)) :
    ¬ Upgrades env expected journal node (some first :: some second :: cuts) := by
  have hne : lowered (normalizeIdentity journal expected) ≠ normalizeIdentity journal expected := by
    intro heq
    apply hupper
    have hall := lowered_completed_iff.mp (congrArg Journal.completed heq)
    rwa [normalizeIdentity_completed] at hall
  have hne' : lowered (normalizeIdentity journal expected) ≠ journal := by
    intro heq
    apply hne
    apply lowered_eq_self
    have hcompleted := congrArg Journal.completed heq
    rw [← normalizeIdentity_completed journal expected] at hcompleted
    exact lowered_completed_iff.mp hcompleted
  obtain ⟨next, hround, hnext⟩ := round_bare hd node ha (some first)
  obtain ⟨next', hround', hnext'⟩ := round_legacy hd ha hnext (.inr rfl) (some second)
  have hown : fingerprint env (lowered (normalizeIdentity journal expected)) ≠
      fingerprint env journal := fun h => hne' (hfree _ (by simp) _ (by simp) h)
  have hmigration : fingerprint env (lowered (normalizeIdentity journal expected)) ≠
      fingerprint env (normalizeIdentity journal expected) :=
    fun h => hne (hfree _ (by simp) _ (by simp) h)
  have hthird := round_foreign hnext' hown hmigration
  rintro ⟨journals, last, again, hrounds, -⟩
  have hstop : rounds env expected next' (cuts ++ [none]) = none := by
    cases cuts with
    | nil => simp [rounds, hthird]
    | cons cut cuts => simp [rounds, hthird]
  simp [rounds, hround, hround', hstop] at hrounds

theorem upgrade_survives_iff (ha : journal.Accepted env expected)
    (hfree : CollisionFree env [journal, normalizeIdentity journal expected,
      lowered (normalizeIdentity journal expected)])
    (node : Nat) (cuts : List (Option Cut)) :
    Upgrades env expected journal node cuts ↔
      (∀ digest, some digest ∈ journal.completed → toAsciiLowercase digest = digest) ∨
      (cuts.takeWhile Option.isSome).length ≤ 1 := by
  obtain ⟨durable, hd⟩ := completions_of_records ha.digests
  have hnormal := completions_normalized expected hd
  have hlowered := completions_lowered hnormal
  have hmarked : ∀ (rest : List (Option Cut)) {next : Machine},
      Stands env (savedSnapshot env (normalizeIdentity journal expected))
        (fingerprint env (normalizeIdentity journal expected)) durable next →
      Completes env expected journal next rest := fun rest _ hnext =>
    completes_marked hd hnormal (accepted_normalized ha) normalizeIdentity_idem rest hnext
  have hmarked' : ∀ (rest : List (Option Cut)) {next : Machine},
      Stands env (savedSnapshot env (lowered (normalizeIdentity journal expected)))
        (fingerprint env (lowered (normalizeIdentity journal expected))) durable next →
      Completes env expected journal next rest := fun rest _ hnext =>
    completes_marked hd hlowered (accepted_lowered (accepted_normalized ha))
      (by rw [normalizeIdentity_lowered, normalizeIdentity_idem]) rest hnext
  constructor
  · intro h
    by_contra hnot
    obtain ⟨hupper, hcuts⟩ := not_or.mp hnot
    rcases cuts with _ | ⟨_ | first, cuts⟩
    · exact hcuts (Nat.zero_le 1)
    · exact hcuts (Nat.zero_le 1)
    · rcases cuts with _ | ⟨_ | second, cuts⟩
      · exact hcuts (Nat.le_refl 1)
      · exact hcuts (Nat.le_refl 1)
      · exact not_completes_after_two hd ha hfree hupper first second node cuts h
  · rintro (hlower | hcuts)
    · have hstable : lowered (normalizeIdentity journal expected) =
          normalizeIdentity journal expected := by
        apply lowered_eq_self
        rwa [normalizeIdentity_completed]
      rcases cuts with _ | ⟨cut, cuts⟩
      · obtain ⟨next, hround, hnext⟩ := round_bare hd node ha none
        exact .cons hround (vouches_eq hd hnormal) (hmarked [] hnext)
      · obtain ⟨next, hround, hnext⟩ := round_bare hd node ha cut
        apply Completes.cons hround (vouches_eq hd hnormal)
        cases cut with
        | none => exact hmarked _ hnext
        | some cut => exact completes_stable hd ha hstable cuts hnext
    · rcases cuts with _ | ⟨_ | first, cuts⟩
      · obtain ⟨next, hround, hnext⟩ := round_bare hd node ha none
        exact .cons hround (vouches_eq hd hnormal) (hmarked [] hnext)
      · obtain ⟨next, hround, hnext⟩ := round_bare hd node ha none
        exact .cons hround (vouches_eq hd hnormal) (hmarked _ hnext)
      · obtain ⟨next, hround, hnext⟩ := round_bare hd node ha (some first)
        apply Completes.cons hround (vouches_eq hd hnormal)
        obtain ⟨last, hround', hlast⟩ := round_legacy hd ha hnext (.inr rfl) none
        rcases cuts with _ | ⟨_ | second, cuts⟩
        · exact .cons hround' (vouches_eq hd hlowered) (hmarked' [] hlast)
        · exact .cons hround' (vouches_eq hd hlowered) (hmarked' _ hlast)
        · simp at hcuts

section Example

def upperDigest : Text := List.replicate 64 'A'

theorem upper_accepted :
    (sampleJournal (some upperDigest)).validate sampleEnv sampleIdentity = .ok () := by
  decide +kernel

theorem one_cut_survives :
    Upgrades sampleEnv sampleIdentity (sampleJournal (some upperDigest)) 0 [some .killed] := by
  have ha := (Journal.validate_eq_ok sampleEnv).mp upper_accepted
  have hfree : CollisionFree sampleEnv [sampleJournal (some upperDigest),
      normalizeIdentity (sampleJournal (some upperDigest)) sampleIdentity,
      lowered (normalizeIdentity (sampleJournal (some upperDigest)) sampleIdentity)] := by
    unfold CollisionFree
    decide +kernel
  exact (upgrade_survives_iff ha hfree 0 [some .killed]).mpr (.inr (by decide))

-- A snapshot whose digest has upper-case letters does not survive two interruptions.
theorem two_cuts_lose :
    (sampleJournal (some upperDigest)).validate sampleEnv sampleIdentity = .ok () ∧
    ¬ Upgrades sampleEnv sampleIdentity (sampleJournal (some upperDigest)) 0
      [some .killed, some .killed] := by
  refine ⟨upper_accepted, ?_⟩
  rintro ⟨journals, last, again, hrounds, -⟩
  have hnone : (rounds sampleEnv sampleIdentity
      (legacyMachine (sampleJournal (some upperDigest)) 0)
      [some .killed, some .killed, none]).isNone = true := by
    decide +kernel
  rw [List.cons_append, List.cons_append, List.nil_append] at hrounds
  rw [hrounds] at hnone
  cases hnone

end Example

end VeStorage.ADrive.Share
