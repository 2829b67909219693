import VeStorage.ADrive.Share.CrashSafe

namespace VeStorage.ADrive.Share
open Lib
open Lib.Crash (ensure ensure_eq_ok bind_eq_ok pure_eq_ok)
open Lib.RecordLog

-- A ledger that `merge` reads: one accepted binding, the records, and less than a record behind.
structure Decodes (env : Env) (file : List UInt8) (binding : Hash) (migrationBinding : Option Hash)
    (completed : List (Option Text)) (records : List (Nat × Hash)) : Prop where
  distinct : Records completed.length records
  agrees : Agrees completed records
  layout : ∃ recorded tail, (recorded = binding ∨ migrationBinding = some recorded) ∧
    tail.length < recordSize ∧ file = ledgerBytes env recorded records ++ tail

section Read

variable {env : Env} {binding : Hash} {bytes file : List UInt8}
  {completed merged : List (Option Text)} {seen marked : List Bool}

theorem mergeRecord_eq_ok (h : mergeRecord env bytes binding completed seen = .ok (merged, marked)) :
    ∃ index digest, record env binding index digest = bytes ∧ index < completed.length ∧
      seen[index]? = some false ∧
      (∀ saved, completed[index]? = some (some saved) →
        toAsciiLowercase saved = hexEncode digest.bytes) ∧
      merged = completed.set index (some (hexEncode digest.bytes)) ∧
      marked = seen.set index true := by
  simp only [mergeRecord, bind_eq_ok, ensure_eq_ok, pure_eq_ok, Prod.mk.injEq] at h
  obtain ⟨-, ⟨hlt, hseen, hbytes⟩, -, hsaved, rfl, rfl⟩ := h
  refine ⟨_, _, hbytes, hlt, hseen, fun saved hs => ?_, rfl, rfl⟩
  exact hsaved saved (Option.join_eq_some_iff.mpr hs)

theorem nextRecord_eq_some {width : Nat} {log record rest : List UInt8}
    (h : nextRecord width log = some (record, rest)) : log = record ++ rest ∧ width ≤ log.length := by
  unfold nextRecord at h
  split at h
  · rename_i hle
    cases h
    exact ⟨(List.take_append_drop width log).symm, hle⟩
  · cases h

theorem Records.cons {count index : Nat} {records : List (Nat × Hash)} (h : Records count records)
    (digest : Hash) (hlt : index < count) (hnew : ∀ r ∈ records, index ≠ r.1) :
    Records count ((index, digest) :: records) := by
  refine ⟨?_, List.forall_mem_cons.mpr ⟨hlt, h.bound⟩⟩
  rw [List.map_cons, List.nodup_cons]
  refine ⟨fun hmem => ?_, h.nodup⟩
  obtain ⟨r, hr, heq⟩ := List.mem_map.mp hmem
  exact hnew r hr heq.symm

theorem mergeRecords_read {fuel : Nat} (hfuel : file.length < recordSize * (fuel + 1))
    (h : mergeRecords env fuel file binding completed seen = .ok merged) :
    ∃ records tail, Records completed.length records ∧ Agrees completed records ∧
      (∀ r ∈ records, seen[r.1]? = some false) ∧ tail.length < recordSize ∧
      file = (records.flatMap fun r => record env binding r.1 r.2) ++ tail ∧
      merged = overlay completed records := by
  induction fuel generalizing file completed seen with
  | zero =>
    cases h
    exact ⟨[], file, ⟨List.nodup_nil, nofun⟩, nofun, nofun, by omega, rfl, rfl⟩
  | succ fuel ih =>
    rw [mergeRecords, readRecord_eq] at h
    cases hnext : nextRecord recordSize file with
    | none =>
      rw [hnext] at h
      cases h
      refine ⟨[], file, ⟨List.nodup_nil, nofun⟩, nofun, nofun, ?_, rfl, rfl⟩
      unfold nextRecord at hnext
      split at hnext
      · cases hnext
      · omega
    | some next =>
      obtain ⟨bytes, rest⟩ := next
      rw [hnext] at h
      simp only [bind_eq_ok] at h
      obtain ⟨⟨completed', seen'⟩, hrecord, hrest⟩ := h
      obtain ⟨index, digest, hbytes, hlt, hseen, hsaved, rfl, rfl⟩ := mergeRecord_eq_ok hrecord
      obtain ⟨hfile, -⟩ := nextRecord_eq_some hnext
      have hlength : bytes.length = recordSize := hbytes ▸ record_length index digest
      rw [hfile, List.length_append, hlength] at hfuel
      obtain ⟨records, tail, hrecords, hagree, hfresh, htail, hlog, rfl⟩ :=
        ih (by rw [Nat.mul_succ] at hfuel; omega) hrest
      rw [List.length_set] at hrecords
      have hnew : ∀ r ∈ records, index ≠ r.1 := by
        rintro r hr rfl
        have hfalse := hfresh r hr
        rw [List.getElem?_set_self (List.getElem?_eq_some_iff.mp hseen).1] at hfalse
        cases hfalse
      refine ⟨(index, digest) :: records, tail, hrecords.cons digest hlt hnew, ?_, ?_, htail, ?_, rfl⟩
      · intro r hr saved hs
        rcases List.mem_cons.mp hr with rfl | hr
        · exact hsaved saved hs
        · exact hagree r hr saved (by rwa [List.getElem?_set_ne (hnew r hr)])
      · intro r hr
        rcases List.mem_cons.mp hr with rfl | hr
        · exact hseen
        · have hfalse := hfresh r hr
          rwa [List.getElem?_set_ne (hnew r hr)] at hfalse
      · rw [hfile, hlog, ← hbytes, List.flatMap_cons, List.append_assoc]

theorem header_split (hsize : headerSize ≤ file.length) (hmagic : (file.take headerSize).take 8 = magic) :
    file = magic ++ (Hash.ofBytes ((file.take headerSize).drop 8)).bytes ++ file.drop headerSize := by
  have hlength : ((file.take headerSize).drop 8).length = 32 := by
    rw [List.length_drop, List.length_take_of_le hsize]
    rfl
  have hbinding : (Hash.ofBytes ((file.take headerSize).drop 8)).bytes =
      (file.take headerSize).drop 8 := congrArg Hash.bytes (Hash.ofBytes_bytes ⟨_, hlength⟩)
  rw [hbinding, ← hmagic, List.take_append_drop, List.take_append_drop]

theorem merge_read {migrationBinding : Option Hash}
    (h : merge env file binding migrationBinding completed = .ok merged) :
    ∃ records, Decodes env file binding migrationBinding completed records ∧
      merged = overlay completed records := by
  simp only [merge, bind_eq_ok, ensure_eq_ok] at h
  obtain ⟨-, -, -, hsize, -, ⟨hmagic, hbinding⟩, hmerge⟩ := h
  obtain ⟨records, tail, hrecords, hagree, -, htail, hlog, rfl⟩ :=
    mergeRecords_read (by rw [List.length_drop, recordSize]; omega) hmerge
  refine ⟨records, ⟨hrecords, hagree, _, tail, hbinding, htail, ?_⟩, rfl⟩
  have hfile := header_split hsize hmagic
  rwa [hlog, ← List.append_assoc] at hfile

theorem Decodes.merges {migrationBinding : Option Hash} {records : List (Nat × Hash)}
    (h : Decodes env file binding migrationBinding completed records)
    (hcount : completed.length ≤ u64Max) (hsize : file.length ≤ u64Max) :
    merge env file binding migrationBinding completed = .ok (overlay completed records) := by
  obtain ⟨recorded, tail, hbinding, htail, rfl⟩ := h.layout
  exact merge_decoded env h.distinct hcount rfl h.agrees htail hbinding hsize

theorem Decodes.bounded {migrationBinding : Option Hash} {records : List (Nat × Hash)}
    (h : Decodes env file binding migrationBinding completed records) :
    file.length ≤ headerSize + completed.length * recordSize + (recordSize - 1) := by
  obtain ⟨recorded, tail, -, htail, rfl⟩ := h.layout
  have hrecords := Nat.mul_le_mul_right recordSize h.distinct.length_le
  rw [List.length_append, ledgerBytes_length]
  omega

theorem Decodes.shuffled {migrationBinding : Option Hash} {records records' : List (Nat × Hash)}
    (h : Decodes env file binding migrationBinding completed records)
    (hperm : records'.Perm records) {recorded : Hash} {tail : List UInt8}
    (hbinding : recorded = binding ∨ migrationBinding = some recorded)
    (htail : tail.length < recordSize) :
    Decodes env (ledgerBytes env recorded records' ++ tail) binding migrationBinding completed
      records' where
  distinct := ⟨(hperm.map Prod.fst).nodup_iff.mpr h.distinct.nodup,
    fun r hr => h.distinct.bound r (hperm.mem_iff.mp hr)⟩
  agrees r hr := h.agrees r (hperm.mem_iff.mp hr)
  layout := ⟨recorded, tail, hbinding, htail, rfl⟩

theorem overlay_perm {records records' : List (Nat × Hash)}
    (h : Records completed.length records) (hperm : records'.Perm records) :
    overlay completed records' = overlay completed records := by
  have h' : Records completed.length records' :=
    ⟨(hperm.map Prod.fst).nodup_iff.mpr h.nodup, fun r hr => h.bound r (hperm.mem_iff.mp hr)⟩
  refine List.ext_getElem? fun index => ?_
  rcases overlay_cases h' rfl index with ⟨digest, hmem, hget⟩ | ⟨hnone, hget⟩
  · rw [hget, overlay_mem h rfl (hperm.mem_iff.mp hmem)]
  · rw [hget, overlay_other fun digest hmem => hnone digest (hperm.mem_iff.mpr hmem)]

end Read

-- What the completions are once the records have been read.
structure Overridden (completed merged : List (Option Text)) (records : List (Nat × Hash)) : Prop where
  length : merged.length = completed.length
  recorded : ∀ index digest, (index, digest) ∈ records →
    merged[index]? = some (some (hexEncode digest.bytes))
  other : ∀ index, (∀ digest, (index, digest) ∉ records) → merged[index]? = completed[index]?

theorem merge_accepts_iff (env : Env) (file : List UInt8) (binding : Hash)
    (migrationBinding : Option Hash) (completed : List (Option Text))
    (hcount : completed.length ≤ u64Max) (hsize : file.length ≤ u64Max) :
    (∀ merged, merge env file binding migrationBinding completed = .ok merged ↔
      ∃ records, Decodes env file binding migrationBinding completed records ∧
        Overridden completed merged records) ∧
    ∀ records, Decodes env file binding migrationBinding completed records →
      file.length ≤ headerSize + completed.length * recordSize + (recordSize - 1) ∧
      ∀ records' recorded tail, records'.Perm records →
        (recorded = binding ∨ migrationBinding = some recorded) → tail.length < recordSize →
        (ledgerBytes env recorded records' ++ tail).length ≤ u64Max →
        merge env (ledgerBytes env recorded records' ++ tail) binding migrationBinding completed =
          merge env file binding migrationBinding completed := by
  refine ⟨fun merged => ⟨fun h => ?_, ?_⟩, fun records h => ⟨h.bounded, ?_⟩⟩
  · obtain ⟨records, hdecodes, rfl⟩ := merge_read h
    exact ⟨records, hdecodes, overlay_length,
      fun index digest hmem => overlay_mem hdecodes.distinct rfl hmem,
      fun index hnone => overlay_other hnone⟩
  · rintro ⟨records, hdecodes, h⟩
    rw [hdecodes.merges hcount hsize]
    refine congrArg _ (List.ext_getElem? fun index => ?_)
    rcases overlay_cases hdecodes.distinct rfl index with ⟨digest, hmem, hget⟩ | ⟨hnone, hget⟩
    · rw [hget, h.recorded index digest hmem]
    · rw [hget, h.other index hnone]
  · intro records' recorded tail hperm hbinding htail hsize'
    rw [(h.shuffled hperm hbinding htail).merges hcount hsize', h.merges hcount hsize,
      overlay_perm h.distinct hperm]

theorem merge_accepts_iff_torn :
    let binding := Hash.ofBytes []
    let file := ledgerBytes sampleEnv binding [(1, Hash.ofBytes [7])] ++ [0, 0, 0]
    (∀ merged, merge sampleEnv file binding none [none, none] = .ok merged ↔
      ∃ records, Decodes sampleEnv file binding none [none, none] records ∧
        Overridden [none, none] merged records) ∧
    ∀ records, Decodes sampleEnv file binding none [none, none] records →
      file.length ≤ headerSize + 2 * recordSize + (recordSize - 1) ∧
      ∀ records' recorded tail, records'.Perm records →
        (recorded = binding ∨ none = some recorded) → tail.length < recordSize →
        (ledgerBytes sampleEnv recorded records' ++ tail).length ≤ u64Max →
        merge sampleEnv (ledgerBytes sampleEnv recorded records' ++ tail) binding none [none, none] =
          merge sampleEnv file binding none [none, none] :=
  merge_accepts_iff sampleEnv _ _ none [none, none] (by decide) (by decide)

end VeStorage.ADrive.Share
