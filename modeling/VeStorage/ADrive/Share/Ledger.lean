import VeStorage.ADrive.Share.Journal
import Mathlib.Data.List.Nodup
import Mathlib.Data.List.Perm.Subperm

namespace VeStorage.ADrive.Share
open Lib
open Lib.Crash (ensure ensure_eq_ok bind_eq_ok pure_eq_ok mapM_eq_ok)
open Lib.RecordLog

def magic : List UInt8 := "ADRCMP01".toList.map fun c => UInt8.ofNat c.toNat

def headerSize : Nat := 40

def recordSize : Nat := 72

def saturatingAdd (a b : Nat) : Nat := min (a + b) u64Max

def saturatingMul (a b : Nat) : Nat := min (a * b) u64Max

structure SavedJournal extends Journal where
  completionLedger : Option Text
deriving DecidableEq

structure LedgerFile where
  node : Nat
  bytes : List UInt8
deriving DecidableEq

-- `nextNode` is the inode of the next file that is made.
structure Disk where
  snapshot : Option SavedJournal
  ledger : Option LedgerFile
  nextNode : Nat
deriving DecidableEq

structure LedgerWriter where
  file : Nat
  binding : Hash
  isPoisoned : Bool
deriving DecidableEq

structure State where
  identity : Identity
  immutableTask : Hash
  entryFingerprints : List Hash
  durableCompletions : List (Option Hash)
  binding : Hash
  isSnapshotPending : Bool
  writer : Option LedgerWriter
deriving DecidableEq

variable (env : Env)

def fingerprint (journal : Journal) : Hash := env.sha256 (env.journalJson journal)

def fingerprintTask (journal : Journal) : Hash :=
  env.sha256 (env.taskJson journal.version journal.identity journal.manifest)

def fingerprintEntry (entry : Entry) : Hash := env.sha256 (env.entryJson entry)

def State.new (journal : Journal) (binding : Hash) (isSnapshotPending : Bool) :
    Except CliError State := do
  let durable ← completions journal
  return {
    identity := journal.identity
    immutableTask := fingerprintTask env journal
    entryFingerprints := journal.manifest.files.map (fingerprintEntry env)
    durableCompletions := durable
    binding := binding
    isSnapshotPending := isSnapshotPending
    writer := none }

def State.fresh (journal : Journal) : Except CliError State := do
  journal.validate env journal.identity
  State.new env journal (fingerprint env journal) true

def record (binding : Hash) (index : Nat) (digest : Hash) : List UInt8 :=
  let body := leBytes 8 index ++ digest.bytes
  body ++ (env.sha256 (binding.bytes ++ body)).bytes

def LedgerWriter.verifyOpenFile (writer : LedgerWriter) (disk : Disk) :
    Except CliError LedgerFile :=
  match disk.ledger with
  | none => .error .io
  | some current =>
      if writer.file = current.node then .ok current
      else .error (.validation "completion ledger was removed, replaced or hard-linked")

-- `read_record`: a read gives one byte or more of what is left, as the system pleases.
def fillRecord : Nat → List UInt8 → List UInt8 → Option (List UInt8 × List UInt8)
  | 0, bytes, file => some (bytes, file)
  | wanted + 1, bytes, file =>
      match file with
      | [] => none
      | b :: rest =>
          let count := min wanted (min (env.shortRead file.length) rest.length)
          fillRecord (wanted - count) (bytes ++ b :: rest.take count) (rest.drop count)
termination_by wanted => wanted

def readRecord (file : List UInt8) : Option (List UInt8 × List UInt8) :=
  fillRecord env recordSize [] file

def mergeRecord (bytes : List UInt8) (binding : Hash) (completed : List (Option Text))
    (seen : List Bool) : Except CliError (List (Option Text) × List Bool) := do
  let index := ofLeBytes (bytes.take 8)
  let digest := Hash.ofBytes ((bytes.take 40).drop 8)
  ensure (index < completed.length ∧ seen[index]? = some false ∧
    record env binding index digest = bytes) (.validation "invalid completion ledger record")
  let text := hexEncode digest.bytes
  ensure (∀ saved ∈ completed[index]?.join, toAsciiLowercase saved = text)
    (.validation "completion ledger conflicts with base snapshot")
  return (completed.set index (some text), seen.set index true)

-- The loop of `merge`; every record takes `recordSize` bytes, so the length of the file bounds it.
def mergeRecords : Nat → List UInt8 → Hash → List (Option Text) → List Bool →
    Except CliError (List (Option Text))
  | 0, _, _, completed, _ => .ok completed
  | fuel + 1, file, binding, completed, seen =>
      match readRecord env file with
      | none => .ok completed
      | some (bytes, rest) => do
          let (completed, seen) ← mergeRecord env bytes binding completed seen
          mergeRecords fuel rest binding completed seen

def merge (file : List UInt8) (binding : Hash) (migrationBinding : Option Hash)
    (completed : List (Option Text)) : Except CliError (List (Option Text)) := do
  let maximum := saturatingAdd
    (saturatingAdd headerSize (saturatingMul completed.length recordSize)) (recordSize - 1)
  ensure (file.length ≤ maximum)
    (.validation "completion ledger exceeds its snapshot record bound")
  ensure (headerSize ≤ file.length) (.validation "incomplete completion ledger header")
  let header := file.take headerSize
  let recordedBinding := Hash.ofBytes (header.drop 8)
  ensure (header.take 8 = magic ∧
      (recordedBinding = binding ∨ migrationBinding = some recordedBinding))
    (.validation "completion ledger belongs to a different snapshot")
  mergeRecords env file.length (file.drop headerSize) recordedBinding completed
    (List.replicate completed.length false)

def normalizeIdentity (journal : Journal) (expected : Identity) : Journal :=
  if journal.identity.selectionPolicy.isSome then { journal with identity := expected }
  else if journal.identity.apiOrigin.isNone then
    { journal with identity := { journal.identity with apiOrigin := expected.apiOrigin } }
  else journal

def readLedger (disk : Disk) : Option LedgerFile := disk.ledger

def openLedger (disk : Disk) : Option LedgerWriter → Except CliError (Option LedgerFile)
  | some writer => do
      let file ← writer.verifyOpenFile disk
      return some file
  | none => return readLedger disk

def mergeLedger (file : Option LedgerFile) (binding : Hash) (migrationBinding : Option Hash)
    (marker : Option Text) (completed : List (Option Text)) :
    Except CliError (List (Option Text)) :=
  match file with
  | some file => merge env file.bytes binding migrationBinding completed
  | none => do
      ensure (marker.isNone = true) (.validation "checkpoint completion ledger is missing")
      return completed

def readSnapshot (disk : Disk) : Except CliError SavedJournal :=
  match disk.snapshot with
  | none => .error .io
  | some saved => .ok saved

def load (disk : Disk) (identity : Identity) (writer : Option LedgerWriter) :
    Except CliError (Journal × State) := do
  let saved ← readSnapshot disk
  let marker := saved.completionLedger
  saved.toJournal.validate env identity
  let binding := fingerprint env saved.toJournal
  ensure (∀ text ∈ marker, text = hexEncode binding.bytes)
    (.validation "completion ledger snapshot binding differs")
  let journal := normalizeIdentity saved.toJournal identity
  let migrationBinding := if marker.isNone then some (fingerprint env journal) else none
  let file ← openLedger disk writer
  let completed ← mergeLedger env file binding migrationBinding marker journal.completed
  let journal := { journal with completed := completed }
  let state ← State.new env journal binding marker.isNone
  return (journal, state)

-- What a ledger of `records` holds before an incomplete last record.
def ledgerBytes (binding : Hash) (records : List (Nat × Hash)) : List UInt8 :=
  magic ++ binding.bytes ++ records.flatMap fun r => record env binding r.1 r.2

structure Records (count : Nat) (records : List (Nat × Hash)) : Prop where
  nodup : (records.map Prod.fst).Nodup
  bound : ∀ r ∈ records, r.1 < count

def overlay (completed : List (Option Text)) (records : List (Nat × Hash)) : List (Option Text) :=
  records.foldl (fun completed r => completed.set r.1 (some (hexEncode r.2.bytes))) completed

variable {env} {binding : Hash} {count : Nat} {records : List (Nat × Hash)}
  {completed : List (Option Text)}

theorem record_length (index : Nat) (digest : Hash) :
    (record env binding index digest).length = recordSize := by
  simp [record, recordSize, digest.size, Hash.size]

theorem record_index {index : Nat} (h : index < 2 ^ 64) (digest : Hash) :
    ofLeBytes ((record env binding index digest).take 8) = index := by
  rw [record, List.append_assoc, List.take_left' (leBytes_length 8 index)]
  exact ofLeBytes_leBytes h

theorem record_digest (index : Nat) (digest : Hash) :
    Hash.ofBytes (((record env binding index digest).take 40).drop 8) = digest := by
  rw [record, List.take_left' (by simp [digest.size]), List.drop_left' (leBytes_length 8 index)]
  exact digest.ofBytes_bytes

theorem Records.tail {r : Nat × Hash} (h : Records count (r :: records)) :
    Records count records :=
  ⟨(List.nodup_cons.mp h.nodup).2, fun x hx => h.bound x (List.mem_cons_of_mem r hx)⟩

theorem Records.fresh {r : Nat × Hash} (h : Records count (r :: records)) (digest : Hash) :
    (r.1, digest) ∉ records := fun hmem =>
  (List.nodup_cons.mp h.nodup).1 (List.mem_map.mpr ⟨_, hmem, rfl⟩)

theorem Records.length_le (h : Records count records) : records.length ≤ count := by
  have hsub : records.map Prod.fst ⊆ List.range count := by
    intro i hi
    obtain ⟨r, hr, rfl⟩ := List.mem_map.mp hi
    exact List.mem_range.mpr (h.bound r hr)
  have hle := (List.subperm_of_subset h.nodup hsub).length_le
  rwa [List.length_map, List.length_range] at hle

theorem Records.unique (h : Records count records) {index : Nat} {d d' : Hash}
    (hd : (index, d) ∈ records) (hd' : (index, d') ∈ records) : d = d' := by
  induction records with
  | nil => cases hd
  | cons r records ih =>
    rcases List.mem_cons.mp hd with rfl | hrest
    · rcases List.mem_cons.mp hd' with heq | hrest'
      · exact (Prod.mk.inj heq).2.symm
      · exact absurd hrest' (h.fresh d')
    · rcases List.mem_cons.mp hd' with rfl | hrest'
      · exact absurd hrest (h.fresh d)
      · exact ih h.tail hrest hrest'

theorem Records.append (h : Records count records) {index : Nat} {digest : Hash}
    (hlt : index < count) (hnew : ∀ d, (index, d) ∉ records) :
    Records count (records ++ [(index, digest)]) := by
  constructor
  · rw [List.map_append, List.nodup_append]
    refine ⟨h.nodup, List.nodup_singleton index, ?_⟩
    intro i hi j hj heq
    obtain ⟨⟨i, d⟩, hr, rfl⟩ := List.mem_map.mp hi
    rw [List.mem_singleton.mp hj] at heq
    cases heq
    exact hnew d hr
  · intro r hr
    rcases List.mem_append.mp hr with hr | hr
    · exact h.bound r hr
    · rw [List.mem_singleton.mp hr]
      exact hlt

@[simp] theorem overlay_length : (overlay completed records).length = completed.length := by
  induction records generalizing completed with
  | nil => rfl
  | cons r records ih =>
    rw [overlay, List.foldl_cons, ← overlay, ih, List.length_set]

theorem overlay_other {index : Nat} (h : ∀ d, (index, d) ∉ records) :
    (overlay completed records)[index]? = completed[index]? := by
  induction records generalizing completed with
  | nil => rfl
  | cons r records ih =>
    have hne : r.1 ≠ index := by
      rintro rfl
      exact h r.2 List.mem_cons_self
    rw [overlay, List.foldl_cons, ← overlay, ih fun d hd => h d (List.mem_cons_of_mem r hd),
      List.getElem?_set_ne hne]

theorem overlay_mem (h : Records count records) (hl : completed.length = count) {index : Nat}
    {digest : Hash} (hmem : (index, digest) ∈ records) :
    (overlay completed records)[index]? = some (some (hexEncode digest.bytes)) := by
  induction records generalizing completed with
  | nil => cases hmem
  | cons r records ih =>
    rw [overlay, List.foldl_cons, ← overlay]
    rcases List.mem_cons.mp hmem with rfl | hmem
    · rw [overlay_other h.fresh, List.getElem?_set_self]
      rw [hl]
      exact h.bound _ List.mem_cons_self
    · exact ih h.tail (by rw [List.length_set, hl]) hmem

theorem overlay_cases (h : Records count records) (hl : completed.length = count) (index : Nat) :
    (∃ digest, (index, digest) ∈ records ∧
      (overlay completed records)[index]? = some (some (hexEncode digest.bytes))) ∨
    ((∀ digest, (index, digest) ∉ records) ∧
      (overlay completed records)[index]? = completed[index]?) := by
  by_cases hmem : ∃ digest, (index, digest) ∈ records
  · obtain ⟨digest, hdigest⟩ := hmem
    exact .inl ⟨digest, hdigest, overlay_mem h hl hdigest⟩
  · have hnone : ∀ digest, (index, digest) ∉ records := not_exists.mp hmem
    exact .inr ⟨hnone, overlay_other hnone⟩

-- Where the base snapshot and the records speak of one file they give one digest.
def Agrees (completed : List (Option Text)) (records : List (Nat × Hash)) : Prop :=
  ∀ r ∈ records, ∀ saved, completed[r.1]? = some (some saved) →
    toAsciiLowercase saved = hexEncode r.2.bytes

variable (env binding) in
theorem mergeRecord_record {index : Nat} (digest : Hash) {seen : List Bool}
    (hbound : index < 2 ^ 64) (hlt : index < completed.length) (hseen : seen[index]? = some false)
    (hagree : ∀ saved, completed[index]? = some (some saved) →
      toAsciiLowercase saved = hexEncode digest.bytes) :
    mergeRecord env (record env binding index digest) binding completed seen =
      .ok (completed.set index (some (hexEncode digest.bytes)), seen.set index true) := by
  have hsaved : ∀ saved ∈ completed[index]?.join, toAsciiLowercase saved =
      hexEncode digest.bytes := by
    intro saved hs
    exact hagree saved (Option.join_eq_some_iff.mp hs)
  simp only [mergeRecord, record_index hbound, record_digest, bind_eq_ok, ensure_eq_ok]
  exact ⟨(), ⟨hlt, hseen, trivial⟩, (), hsaved, rfl⟩

theorem fillRecord_eq (wanted : Nat) (bytes file : List UInt8) :
    fillRecord env wanted bytes file =
      (nextRecord wanted file).map fun next => (bytes ++ next.1, next.2) := by
  induction wanted, bytes, file using fillRecord.induct env with
  | case1 bytes file => simp [fillRecord, nextRecord]
  | case2 wanted bytes => simp [fillRecord, nextRecord]
  | case3 wanted bytes b rest count ih =>
    rw [fillRecord, ih]
    have hcount : count ≤ wanted ∧ count ≤ rest.length := by omega
    simp only [nextRecord, List.length_drop, List.length_cons]
    by_cases h : wanted + 1 ≤ rest.length + 1
    · have hrest : wanted = count + (wanted - count) := by omega
      have htake : rest.take wanted = rest.take count ++ (rest.drop count).take (wanted - count) := by
        rw [← List.take_add, ← hrest]
      have hdrop : rest.drop wanted = (rest.drop count).drop (wanted - count) := by
        rw [List.drop_drop, ← hrest]
      rw [if_pos h, if_pos (by omega), List.take_succ_cons, List.drop_succ_cons, htake, hdrop]
      simp
    · rw [if_neg h, if_neg (by omega)]
      rfl

theorem readRecord_eq (file : List UInt8) : readRecord env file = nextRecord recordSize file := by
  simp [readRecord, fillRecord_eq]

theorem mergeRecords_log {seen : List Bool} {tail : List UInt8} {fuel : Nat}
    (h : Records count records) (hcount : count ≤ 2 ^ 64) (hl : completed.length = count)
    (hs : seen.length = count) (hseen : ∀ r ∈ records, seen[r.1]? = some false)
    (hagree : Agrees completed records) (htail : tail.length < recordSize)
    (hfuel : records.length < fuel) :
    mergeRecords env fuel ((records.flatMap fun r => record env binding r.1 r.2) ++ tail) binding
      completed seen = .ok (overlay completed records) := by
  induction records generalizing completed seen fuel with
  | nil =>
    cases fuel with
    | zero => rfl
    | succ fuel =>
      rw [List.flatMap_nil, List.nil_append, mergeRecords, readRecord_eq, nextRecord_tail htail]
      rfl
  | cons r records ih =>
    obtain ⟨fuel, rfl⟩ : ∃ n, fuel = n + 1 := ⟨fuel - 1, by rw [List.length_cons] at hfuel; omega⟩
    have hr := h.bound r List.mem_cons_self
    have hmerge := mergeRecord_record env binding r.2
      (Nat.lt_of_lt_of_le hr hcount) (hl ▸ hr) (hseen r List.mem_cons_self)
      (hagree r List.mem_cons_self)
    rw [List.flatMap_cons, List.append_assoc, mergeRecords, readRecord_eq,
      nextRecord_append (record_length r.1 r.2)]
    simp only [bind_eq_ok]
    refine ⟨_, hmerge, ?_⟩
    have hne : ∀ x ∈ records, r.1 ≠ x.1 := by
      intro x hx heq
      exact h.fresh x.2 (heq ▸ hx)
    apply ih h.tail (by rw [List.length_set, hl]) (by rw [List.length_set, hs])
    · intro x hx
      rw [List.getElem?_set_ne (hne x hx)]
      exact hseen x (List.mem_cons_of_mem r hx)
    · intro x hx saved hsaved
      rw [List.getElem?_set_ne (hne x hx)] at hsaved
      exact hagree x (List.mem_cons_of_mem r hx) saved hsaved
    · rw [List.length_cons] at hfuel
      omega

theorem ledgerBytes_length :
    (ledgerBytes env binding records).length = headerSize + records.length * recordSize := by
  rw [ledgerBytes, List.length_append, List.length_append, binding.size,
    flatMap_length (fun r : Nat × Hash => record_length r.1 r.2)]
  rfl

variable (env binding records) in
theorem ledgerBytes_header (tail : List UInt8) :
    (ledgerBytes env binding records ++ tail).take headerSize = magic ++ binding.bytes ∧
    (ledgerBytes env binding records ++ tail).drop headerSize =
      (records.flatMap fun r => record env binding r.1 r.2) ++ tail := by
  have hsize : (magic ++ binding.bytes).length = headerSize := by
    rw [List.length_append, binding.size]
    rfl
  rw [ledgerBytes, List.append_assoc]
  exact ⟨List.take_left' hsize, List.drop_left' hsize⟩

theorem magic_append_take (bytes : List UInt8) : (magic ++ bytes).take 8 = magic :=
  List.take_left' rfl

theorem magic_append_drop (bytes : List UInt8) : (magic ++ bytes).drop 8 = bytes :=
  List.drop_left' rfl

variable (env) in
theorem merge_decoded {recorded : Hash} {migrationBinding : Option Hash} {tail : List UInt8}
    (h : Records count records) (hcount : count ≤ u64Max) (hl : completed.length = count)
    (hagree : Agrees completed records) (htail : tail.length < recordSize)
    (hbinding : recorded = binding ∨ migrationBinding = some recorded)
    (hsize : (ledgerBytes env recorded records ++ tail).length ≤ u64Max) :
    merge env (ledgerBytes env recorded records ++ tail) binding migrationBinding completed =
      .ok (overlay completed records) := by
  obtain ⟨hheader, hrest⟩ := ledgerBytes_header env recorded records tail
  have hrecords := h.length_le
  have hlength : (ledgerBytes env recorded records ++ tail).length =
      headerSize + records.length * recordSize + tail.length := by
    rw [List.length_append, ledgerBytes_length]
  rw [hlength] at hsize
  simp only [merge, bind_eq_ok, ensure_eq_ok, hheader, hrest, magic_append_take,
    magic_append_drop, Hash.ofBytes_bytes, hlength, hl]
  refine ⟨(), ?_, (), ?_, (), ⟨trivial, hbinding⟩, ?_⟩
  · simp only [saturatingAdd, saturatingMul, headerSize, recordSize, u64Max] at htail hsize ⊢
    omega
  · omega
  · apply mergeRecords_log h (by unfold u64Max at hcount; omega) hl
      (by rw [List.length_replicate])
    · intro r hr
      exact List.getElem?_replicate_of_lt (h.bound r hr)
    · exact hagree
    · exact htail
    · simp only [headerSize, recordSize]
      omega

variable (env) in
theorem merge_log {recorded : Hash} {migrationBinding : Option Hash} {tail : List UInt8}
    (h : Records count records) (hcount : count ≤ maxEntries) (hl : completed.length = count)
    (hagree : Agrees completed records) (htail : tail.length < recordSize)
    (hbinding : recorded = binding ∨ migrationBinding = some recorded) :
    merge env (ledgerBytes env recorded records ++ tail) binding migrationBinding completed =
      .ok (overlay completed records) := by
  have hrecords := h.length_le
  unfold maxEntries at hcount
  refine merge_decoded env h (by unfold u64Max; omega) hl hagree htail hbinding ?_
  rw [List.length_append, ledgerBytes_length]
  simp only [headerSize, recordSize, u64Max] at htail ⊢
  omega

theorem merge_foreign {recorded : Hash} {migrationBinding : Option Hash} {tail : List UInt8}
    {merged : List (Option Text)} (hbinding : recorded ≠ binding)
    (hmigration : migrationBinding ≠ some recorded) :
    merge env (ledgerBytes env recorded records ++ tail) binding migrationBinding completed ≠
      .ok merged := by
  obtain ⟨hheader, -⟩ := ledgerBytes_header env recorded records tail
  intro hmerge
  simp only [merge, bind_eq_ok, ensure_eq_ok, hheader, magic_append_take, magic_append_drop,
    Hash.ofBytes_bytes] at hmerge
  obtain ⟨-, -, -, -, -, ⟨-, h | h⟩, -⟩ := hmerge
  · exact hbinding h
  · exact hmigration h

end VeStorage.ADrive.Share
