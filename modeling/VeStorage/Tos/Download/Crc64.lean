import VeStorage.Lib.Crc
import VeStorage.Tos.Uri
import VeStorage.Tos.Download.Machine

namespace VeStorage.Tos.Download
open Lib

def polyReflected : BitVec 64 := 0xC96C5795D7870F42

def crc64Byte (crc : BitVec 64) (byte : UInt8) : BitVec 64 :=
  Crc.shifts polyReflected 8 (crc ^^^ byte.toBitVec.setWidth 64)

def crc64Update (crc : BitVec 64) (bytes : Bytes) : BitVec 64 := bytes.foldl crc64Byte crc

def crc64Ecma (bytes : Bytes) : BitVec 64 := ~~~crc64Update (~~~0) bytes

def crcBufferSize : Nat := 1024 * 1024

-- Each read hands out as much of what was asked for as it likes, and nothing only at the end.
def crc64Loop (reads : Nat → Except CliError Nat) : Nat → Nat → BitVec 64 → Bytes → Nat →
    Option (Except CliError (BitVec 64))
  | 0, _, _, _, _ => none
  | fuel + 1, k, crc, rest, remaining =>
      if remaining = 0 then some (.ok (~~~crc))
      else match reads k with
        | .error e => some (.error e)
        | .ok n =>
            let chunk := rest.take (min (n + 1) (min crcBufferSize remaining))
            if chunk = [] then some (.ok (~~~crc))
            else crc64Loop reads fuel (k + 1) (crc64Update crc chunk) (rest.drop chunk.length)
              (remaining - chunk.length)

def crc64Reader (reads : Nat → Except CliError Nat) (file : Bytes) (limit : Option Nat) :
    Option (Except CliError (BitVec 64)) :=
  crc64Loop reads (file.length + 1) 0 (~~~0) file (limit.getD (2 ^ 64 - 1))

def fileCrc64 (reads : Nat → Except CliError Nat) (file : Bytes) : Option (Except CliError (BitVec 64)) :=
  crc64Reader reads file none

def compareCrc64 (expected actual : BitVec 64) : Except CliError Unit :=
  if actual = expected then .ok ()
  else .error (.transferFailed ("download CRC64 mismatch: local=".toList ++ Nat.toDigits 10 actual.toNat ++
    ", remote=".toList ++ Nat.toDigits 10 expected.toNat))

-- What one attempt checks after the body has been written behind the first `resumeOffset` bytes.
def checkAttempt (expectedLength : Option Nat) (expectedCrc64 : Option (BitVec 64))
    (reads : Nat → Except CliError Nat) (file : Bytes) : Option (Except CliError Unit) :=
  match expectedLength.filter (· ≠ file.length) with
  | some expected => some (.error (.transferFailed ("download length mismatch: expected=".toList ++
      Nat.toDigits 10 expected ++ ", actual=".toList ++ Nat.toDigits 10 file.length)))
  | none =>
      match expectedCrc64 with
      | none => some (.ok ())
      | some expected => (fileCrc64 reads file).map fun result => result.bind (compareCrc64 expected)

section Reader

variable {reads : Nat → Except CliError Nat}

theorem crc64Update_append (crc : BitVec 64) (bytes more : Bytes) :
    crc64Update crc (bytes ++ more) = crc64Update (crc64Update crc bytes) more := List.foldl_append

theorem take_chunk {rest : Bytes} {m remaining : Nat} (h : m ≤ remaining) :
    rest.take remaining = rest.take m ++
      (rest.drop (rest.take m).length).take (remaining - (rest.take m).length) := by
  have hlen : (rest.take m).length ≤ remaining := (List.length_take_le m rest).trans h
  have hchunk : rest.take (rest.take m).length = rest.take m := by
    rw [List.length_take, ← List.take_take, List.take_length]
  have hsplit := @List.take_add UInt8 rest (rest.take m).length (remaining - (rest.take m).length)
  rwa [Nat.add_sub_cancel' hlen, hchunk] at hsplit

-- The sum does not depend on how the reader cuts the file.
theorem crc64Loop_spec {fuel : Nat} {rest : Bytes} (hfuel : rest.length < fuel) (k : Nat)
    (crc : BitVec 64) (remaining : Nat) :
    (∃ k' e, reads k' = .error e ∧ crc64Loop reads fuel k crc rest remaining = some (.error e)) ∨
      crc64Loop reads fuel k crc rest remaining = some (.ok (~~~crc64Update crc (rest.take remaining))) := by
  induction fuel generalizing k crc rest remaining with
  | zero => exact absurd hfuel (Nat.not_lt_zero _)
  | succ fuel ih =>
    rw [crc64Loop]
    by_cases hzero : remaining = 0
    · rw [if_pos hzero, hzero, List.take_zero]
      exact .inr rfl
    rw [if_neg hzero]
    cases hread : reads k with
    | error e => exact .inl ⟨k, e, hread, rfl⟩
    | ok n =>
      dsimp only
      have hsize : 0 < crcBufferSize := by decide
      generalize hm : min (n + 1) (min crcBufferSize remaining) = m
      have hpos : 0 < m := by omega
      have hle : m ≤ remaining := by omega
      split
      next hempty =>
        have hrest : rest = [] := (List.take_eq_nil_iff.mp hempty).resolve_left (by omega)
        rw [hrest, List.take_nil]
        exact .inr rfl
      next hchunk =>
        have hpart : 0 < (rest.take m).length := List.length_pos_iff.mpr hchunk
        have hwhole : (rest.take m).length ≤ rest.length := (List.take_sublist m rest).length_le
        have hshort : (rest.drop (rest.take m).length).length < fuel := by
          rw [List.length_drop]
          omega
        rw [take_chunk hle, crc64Update_append]
        exact ih hshort (k + 1) _ _

theorem fileCrc64_spec (reads : Nat → Except CliError Nat) {file : Bytes} (hsize : file.length < 2 ^ 64) :
    (∃ k e, reads k = .error e ∧ fileCrc64 reads file = some (.error e)) ∨
      fileCrc64 reads file = some (.ok (crc64Ecma file)) := by
  have hspec := @crc64Loop_spec reads _ file (Nat.lt_succ_self _) 0 (~~~0) (2 ^ 64 - 1)
  rwa [List.take_of_length_le (by omega)] at hspec

end Reader

section Damage

def bits (bytes : Bytes) : List Bool := bytes.flatMap fun byte => Crc.byteBits byte.toBitVec

variable {bytes bytes' : Bytes}

theorem byteBits_inj {b b' : BitVec 8} (h : Crc.byteBits b = Crc.byteBits b') : b = b' := by
  have hword : Crc.word 8 (Crc.byteBits b) = Crc.word 8 (Crc.byteBits b') := by rw [h]
  rwa [Crc.word_byteBits, Crc.word_byteBits, BitVec.setWidth_eq, BitVec.setWidth_eq] at hword

theorem bits_inj (h : bits bytes = bits bytes') : bytes = bytes' := by
  have hlen : ∀ b : BitVec 8, (Crc.byteBits b).length = 8 := fun b => by simp [Crc.byteBits]
  induction bytes generalizing bytes' with
  | nil =>
    cases bytes' with
    | nil => rfl
    | cons b' rest' =>
      have hnil := congrArg List.length h
      simp only [bits, List.flatMap_nil, List.flatMap_cons, List.length_append, hlen, List.length_nil] at hnil
      omega
  | cons b rest ih =>
    cases bytes' with
    | nil =>
      have hnil := congrArg List.length h
      simp [bits, hlen] at hnil
    | cons b' rest' =>
      rw [bits, bits, List.flatMap_cons, List.flatMap_cons] at h
      obtain ⟨hbyte, hrest⟩ := List.append_inj h ((hlen _).trans (hlen _).symm)
      rw [UInt8.toBitVec_inj.mp (byteBits_inj hbyte), ih hrest]

theorem crc64Update_bits (crc : BitVec 64) (bytes : Bytes) :
    crc64Update crc bytes = Crc.feed polyReflected crc (bits bytes) := by
  induction bytes generalizing crc with
  | nil => rfl
  | cons b rest ih =>
    have hbyte := @Crc.feed_byteBits 64 polyReflected crc b.toBitVec (by decide)
    rw [bits, List.flatMap_cons, Crc.feed, List.foldl_append]
    exact (ih _).trans (by rw [crc64Byte, ← hbyte]; rfl)

theorem polyReflected_top : polyReflected.getLsbD 63 = true := by decide

-- The damage is a burst of at most 64 bits, wherever it begins.
def Burst (stored file : Bytes) : Prop :=
  ∃ before u v after : List Bool, bits stored = before ++ u ++ after ∧ bits file = before ++ v ++ after ∧
    u.length = v.length ∧ u.length ≤ 64

theorem burst_changes_crc64 (h : Burst bytes bytes') (hcrc : crc64Ecma bytes = crc64Ecma bytes') :
    bytes = bytes' := by
  obtain ⟨before, u, v, after, hu, hv, hlen, hshort⟩ := h
  have hfeed : Crc.feed polyReflected (~~~0) (before ++ u ++ after) =
      Crc.feed polyReflected (~~~0) (before ++ v ++ after) := by
    rw [← hu, ← hv, ← crc64Update_bits, ← crc64Update_bits]
    exact BitVec.not_inj.mp hcrc
  have hwindow := Crc.burst_detected polyReflected_top hlen hshort hfeed
  exact bits_inj (by rw [hu, hv, hwindow])

end Damage

section Attempt

variable {stored file : Bytes} {expectedLength : Option Nat} {reads : Nat → Except CliError Nat}

theorem filter_length (h : ∀ length ∈ expectedLength, length = stored.length) :
    expectedLength.filter (· ≠ stored.length) = none := by
  rw [Option.filter_eq_none_iff]
  intro length hlength
  simpa using h length hlength

theorem compareCrc64_ok {expected actual : BitVec 64} :
    compareCrc64 expected actual = .ok () ↔ actual = expected := by
  rw [compareCrc64]
  split
  next h => exact iff_of_true rfl h
  next h => exact iff_of_false (fun hok => by cases hok) h

theorem checkAttempt_spec (hsize : file.length < 2 ^ 64) (expected : BitVec 64) :
    ∃ result, checkAttempt expectedLength (some expected) reads file = some result ∧
      (result = .ok () → crc64Ecma file = expected) := by
  rw [checkAttempt]
  split
  · exact ⟨_, rfl, fun h => by cases h⟩
  · rcases fileCrc64_spec reads hsize with ⟨k, e, -, hcrc⟩ | hcrc
    · rw [hcrc]
      exact ⟨_, rfl, fun h => by cases h⟩
    · rw [hcrc]
      exact ⟨_, rfl, fun h => compareCrc64_ok.mp h⟩

theorem checkAttempt_stored (hsize : stored.length < 2 ^ 64) (hreads : ∀ k, ∃ n, reads k = .ok n)
    (hlength : ∀ length ∈ expectedLength, length = stored.length) :
    checkAttempt expectedLength (some (crc64Ecma stored)) reads stored = some (.ok ()) := by
  rw [checkAttempt, filter_length hlength]
  dsimp only
  rcases fileCrc64_spec reads hsize with ⟨k, e, hread, -⟩ | hcrc
  · obtain ⟨n, hn⟩ := hreads k
    cases hn.symm.trans hread
  · rw [hcrc]
    exact congrArg some (compareCrc64_ok.mpr rfl)

end Attempt

theorem damaged_download_refused {stored file : Bytes} (hstored : stored.length < 2 ^ 64)
    (hsize : file.length < 2 ^ 64) (expectedLength : Option Nat) (reads : Nat → Except CliError Nat) :
    (∃ result, checkAttempt expectedLength (some (crc64Ecma stored)) reads file = some result ∧
      (result = .ok () → Burst stored file → file = stored)) ∧
    ((∀ k, ∃ n, reads k = .ok n) → (∀ length ∈ expectedLength, length = stored.length) →
      checkAttempt expectedLength (some (crc64Ecma stored)) reads stored = some (.ok ())) := by
  refine ⟨?_, fun hreads hlength => checkAttempt_stored hstored hreads hlength⟩
  obtain ⟨result, hresult, hok⟩ := @checkAttempt_spec file expectedLength reads hsize (crc64Ecma stored)
  exact ⟨result, hresult, fun h hburst => (burst_changes_crc64 hburst (hok h).symm).symm⟩

theorem damaged_download_refused_byte :
    checkAttempt (some 2) (some (crc64Ecma [1, 2])) (fun _ => .ok 0) [1, 3] ≠ some (.ok ()) := by
  have hstored : ([1, 2] : Bytes).length < 2 ^ 64 := by decide
  have hsize : ([1, 3] : Bytes).length < 2 ^ 64 := by decide
  have hburst : Burst [1, 2] [1, 3] := ⟨bits [1], bits [2], bits [3], [], rfl, rfl, rfl, by decide⟩
  obtain ⟨result, hresult, hok⟩ := (damaged_download_refused hstored hsize (some 2) fun _ => .ok 0).1
  intro hpassed
  have heq := hok (Option.some.inj (hresult.symm.trans hpassed)) hburst
  revert heq
  decide

end VeStorage.Tos.Download
