import VeStorage.ADrive.ShareRange.Store

namespace VeStorage.ADrive.ShareRange
open Lib
open Lib.Crash (bind_run observe_run require_run atomic_run)
open ADrive.Share (CliError Hash hexEncode)

section Names

variable {range other : DownloadRange}

theorem decimal_inj {n m : Nat} (h : decimal n = decimal m) : n = m := by
  have hn := Nat.ofDigitChars_ten_toDigits (n := n)
  rw [decimal, decimal] at h
  rw [h, Nat.ofDigitChars_ten_toDigits] at hn
  exact hn.symm

theorem number_of_middle {a b : Text} (h : "part-".toList ++ decimal range.number.toNat ++ a =
    "part-".toList ++ decimal other.number.toNat ++ b) (hab : a = b) :
    range.number = other.number := by
  subst hab
  exact UInt32.toNat_inj.mp (decimal_inj (List.append_cancel_left (List.append_cancel_right h)))

theorem partName_inj (h : partName range = partName other) : range.number = other.number :=
  number_of_middle h rfl

theorem receiptName_inj (h : receiptName range = receiptName other) :
    range.number = other.number :=
  number_of_middle h rfl

theorem partName_ne_receiptName (range other : DownloadRange) :
    partName range ≠ receiptName other := by
  intro h
  have hend : ∀ a b : Text, a ++ ['i', 'n'] ≠ b ++ ['o', 'n'] := fun a b he =>
    absurd (List.append_inj_right' he rfl) (by decide)
  refine hend ("part-".toList ++ decimal range.number.toNat ++ ['.', 'b'])
    ("part-".toList ++ decimal other.number.toNat ++ ['.', 'j', 's']) ?_
  rw [List.append_assoc _ _ ['i', 'n'], List.append_assoc _ _ ['o', 'n']]
  exact h

end Names

section Set

variable {dir : Directory} {name other : Text} {entry : Option Entry}

@[simp] theorem set_self : dir.set name entry name = entry := if_pos rfl

theorem set_other (h : other ≠ name) : dir.set name entry other = dir other := if_neg h

theorem set_none_of_absent (h : dir name = none) : dir.set name none = dir := by
  funext other
  by_cases ho : other = name
  · rw [ho, set_self, h]
  · exact set_other ho

end Set

section Runs

variable {dir : Directory} {name : Text} {bytes : List UInt8}

theorem ordinary_run (h : dir name ≠ some .special) :
    ordinary name ⟨dir, []⟩ = .ok (dir name).isSome ⟨dir, []⟩ := by
  rw [ordinary, bind_run observe_run]
  dsimp only
  rcases he : dir name with _ | (bytes | _)
  · rfl
  · rfl
  · exact absurd he h

theorem read_run (h : dir name = some (.ordinary bytes)) :
    read name ⟨dir, []⟩ = .ok bytes ⟨dir, []⟩ := by
  rw [read, bind_run observe_run]
  simp only [h]
  rfl

theorem discardFile_run (h : dir name ≠ some .special) :
    discardFile name ⟨dir, []⟩ = .ok () ⟨dir.set name none, []⟩ := by
  rw [discardFile, bind_run (ordinary_run h)]
  cases he : dir name with
  | none =>
    rw [set_none_of_absent he]
    rfl
  | some entry =>
    have hpresent : dir name ≠ none := by rw [he]; exact Option.some_ne_none entry
    rw [Option.isSome_some, if_pos rfl, remove, bind_run observe_run,
      bind_run (require_run hpresent)]
    exact atomic_run rfl

theorem publish_run {isOverwrite : Bool} (h : dir name ≠ some .special)
    (hfree : isOverwrite = true ∨ dir name = none) :
    publish name bytes isOverwrite ⟨dir, []⟩ =
      .ok () ⟨dir.set name (some (.ordinary bytes)), []⟩ := by
  rw [publish, bind_run (ordinary_run h), bind_run (require_run ?_)]
  · exact atomic_run rfl
  · exact hfree.imp_right fun hnone => by rw [hnone]; rfl

end Runs

-- The two files of one range, each absent or an ordinary file.
structure Plain (dir : Directory) (range : DownloadRange) : Prop where
  part : dir (partName range) ≠ some .special
  receipt : dir (receiptName range) ≠ some .special

def cleared (dir : Directory) (range : DownloadRange) : Directory :=
  (dir.set (partName range) none).set (receiptName range) none

-- What a strict receipt and its part file vouch for.
structure Stored (env : Env) (dir : Directory) (range : DownloadRange) (file : List UInt8)
    (digest : Text) : Prop where
  part : dir (partName range) = some (.ordinary file)
  length : file.length = range.size.toNat
  hashed : digest = hexEncode (env.sha256 file).bytes
  receipt : ∃ bytes receipt, dir (receiptName range) = some (.ordinary bytes) ∧
    bytes.length ≤ maxReceiptBytes ∧ env.fromSlice bytes = some receipt ∧
    receipt.isValid range = true ∧ receipt.sha256 = digest

section Restore

variable {env : Env} {dir : Directory} {range : DownloadRange}

theorem cleared_part : cleared dir range (partName range) = none := by
  rw [cleared, set_other (partName_ne_receiptName range range), set_self]

theorem cleared_receipt : cleared dir range (receiptName range) = none := set_self

theorem cleared_other {name : Text} (hp : name ≠ partName range) (hr : name ≠ receiptName range) :
    cleared dir range name = dir name := by
  rw [cleared, set_other hr, set_other hp]

theorem discard_run (h : Plain dir range) :
    discard range ⟨dir, []⟩ = .ok () ⟨cleared dir range, []⟩ := by
  have hreceipt : dir.set (partName range) none (receiptName range) ≠ some .special := by
    rw [set_other (partName_ne_receiptName range range).symm]
    exact h.receipt
  rw [discard, Crash.forEach, bind_run (discardFile_run h.part), Crash.forEach,
    bind_run (discardFile_run hreceipt)]
  rfl

-- What `receipt` reads: the strict receipt beside a part file.
def storedReceipt (env : Env) (dir : Directory) (range : DownloadRange) : Option Receipt :=
  match dir (partName range), dir (receiptName range) with
  | some (.ordinary _), some (.ordinary bytes) =>
      if maxReceiptBytes < bytes.length then none
      else (env.fromSlice bytes).filter (·.isValid range)
  | _, _ => none

theorem readReceipt_run (h : Plain dir range) :
    readReceipt env range ⟨dir, []⟩ = .ok (storedReceipt env dir range) ⟨dir, []⟩ := by
  rw [readReceipt, bind_run (ordinary_run h.part), bind_run (ordinary_run h.receipt)]
  unfold storedReceipt
  rcases hp : dir (partName range) with _ | ⟨_ | _⟩
  · rfl
  · rcases hr : dir (receiptName range) with _ | ⟨bytes | _⟩
    · rfl
    · rw [if_pos ⟨rfl, rfl⟩, bind_run (read_run hr)]
      dsimp only
      split <;> rfl
    · exact absurd hr h.receipt
  · exact absurd hp h.part

theorem storedReceipt_eq_some {receipt : Receipt} (h : storedReceipt env dir range = some receipt) :
    ∃ file bytes, dir (partName range) = some (.ordinary file) ∧
      dir (receiptName range) = some (.ordinary bytes) ∧ bytes.length ≤ maxReceiptBytes ∧
      env.fromSlice bytes = some receipt ∧ receipt.isValid range = true := by
  unfold storedReceipt at h
  split at h
  · next file bytes hp hr =>
    split at h
    · cases h
    · next hle =>
      obtain ⟨hread, hvalid⟩ := Option.filter_eq_some_iff.mp h
      exact ⟨file, bytes, hp, hr, Nat.le_of_not_lt hle, hread, hvalid⟩
  · cases h

theorem storedReceipt_of {file bytes : List UInt8} {receipt : Receipt}
    (hp : dir (partName range) = some (.ordinary file))
    (hr : dir (receiptName range) = some (.ordinary bytes)) (hle : bytes.length ≤ maxReceiptBytes)
    (hread : env.fromSlice bytes = some receipt) (hvalid : receipt.isValid range = true) :
    storedReceipt env dir range = some receipt := by
  simp only [storedReceipt, hp, hr, if_neg (Nat.not_lt.mpr hle), hread]
  exact Option.filter_eq_some_iff.mpr ⟨rfl, hvalid⟩

theorem openCompleted_discards (h : Plain dir range)
    (hreceipt : ∀ receipt file, storedReceipt env dir range = some receipt →
      dir (partName range) = some (.ordinary file) → file.length ≠ range.size.toNat) :
    openCompleted env range ⟨dir, []⟩ = .ok none ⟨cleared dir range, []⟩ := by
  rw [openCompleted, bind_run (readReceipt_run h)]
  cases hs : storedReceipt env dir range with
  | none =>
    dsimp only
    rw [bind_run (discard_run h)]
    rfl
  | some receipt =>
    obtain ⟨file, bytes, hp, -⟩ := storedReceipt_eq_some hs
    dsimp only
    rw [bind_run (read_run hp), if_pos (hreceipt receipt file hs hp), bind_run (discard_run h)]
    rfl

theorem openCompleted_opens {receipt : Receipt} {file : List UInt8} (h : Plain dir range)
    (hs : storedReceipt env dir range = some receipt)
    (hp : dir (partName range) = some (.ordinary file)) (hl : file.length = range.size.toNat) :
    openCompleted env range ⟨dir, []⟩ = .ok (some (file, receipt.sha256)) ⟨dir, []⟩ := by
  rw [openCompleted, bind_run (readReceipt_run h), hs]
  dsimp only
  rw [bind_run (read_run hp), if_neg (not_not.mpr hl)]
  rfl

theorem Stored.restores {file : List UInt8} {digest : Text} (h : Plain dir range)
    (hs : Stored env dir range file digest) :
    restore env range ⟨dir, []⟩ = .ok (some (file, digest)) ⟨dir, []⟩ := by
  obtain ⟨bytes, receipt, hr, hle, hread, hvalid, rfl⟩ := hs.receipt
  have hstored := storedReceipt_of hs.part hr hle hread hvalid
  rw [restore, bind_run (openCompleted_opens h hstored hs.part hs.length)]
  dsimp only
  rw [hashFile, if_pos hs.length, if_neg (not_not.mpr hs.hashed.symm)]
  rfl

theorem restore_discards (h : Plain dir range)
    (hs : ∀ file digest, ¬ Stored env dir range file digest) :
    restore env range ⟨dir, []⟩ = .ok none ⟨cleared dir range, []⟩ := by
  by_cases hopen : ∃ receipt file, storedReceipt env dir range = some receipt ∧
      dir (partName range) = some (.ordinary file) ∧ file.length = range.size.toNat
  · obtain ⟨receipt, file, hr, hp, hl⟩ := hopen
    obtain ⟨-, bytes, -, hbytes, hle, hread, hvalid⟩ := storedReceipt_eq_some hr
    have hhash : hashFile env file range.size.toNat ≠ receipt.sha256 := by
      rw [hashFile, if_pos hl]
      exact fun he => hs file receipt.sha256 ⟨hp, hl, he.symm, bytes, receipt, hbytes, hle, hread,
        hvalid, rfl⟩
    rw [restore, bind_run (openCompleted_opens h hr hp hl)]
    dsimp only
    rw [if_pos hhash, bind_run (discard_run h)]
    rfl
  · have hclosed : openCompleted env range ⟨dir, []⟩ = .ok none ⟨cleared dir range, []⟩ :=
      openCompleted_discards h fun receipt file hr hp hl => hopen ⟨receipt, file, hr, hp, hl⟩
    rw [restore, bind_run hclosed]
    rfl

theorem cleared_plain (dir : Directory) (range : DownloadRange) : Plain (cleared dir range) range :=
  ⟨by rw [cleared_part]; exact nofun, by rw [cleared_receipt]; exact nofun⟩

theorem textBytes_length_le (t : Text) : (textBytes t).length ≤ 4 * t.length := by
  induction t with
  | nil => exact Nat.le_refl 0
  | cons c t ih =>
    have hc := Char.utf8Size_le_four c
    rw [textBytes, List.flatMap_cons, ← textBytes, List.length_append,
      String.length_utf8EncodeChar, List.length_cons]
    omega

theorem decimal_length_le {n k : Nat} (hk : 0 < k) (h : n < 10 ^ k) : (decimal n).length ≤ k :=
  (Nat.length_toDigits_le_iff (by decide) hk).mpr h

theorem toVec_length_le (digest : Hash) :
    (receiptOf range (hexEncode digest.bytes)).toVec.length ≤ maxReceiptBytes := by
  have hnumber := decimal_length_le (k := 10) (by decide)
    (Nat.lt_of_lt_of_le range.number.toNat_lt (by decide))
  have hoffset := decimal_length_le (k := 20) (by decide)
    (Nat.lt_of_lt_of_le range.offset.toNat_lt (by decide))
  have hsize := decimal_length_le (k := 20) (by decide)
    (Nat.lt_of_lt_of_le range.size.toNat_lt (by decide))
  have hdigest := ADrive.Share.hexEncode_length digest.bytes
  rw [digest.size] at hdigest
  refine Nat.le_trans (textBytes_length_le _) ?_
  have hversion : (decimal (1 : UInt32).toNat).length = 1 := by decide
  have hnames : "\x7b\"version\":".toList.length = 11 ∧ ",\"number\":".toList.length = 10 ∧
      ",\"offset\":".toList.length = 10 ∧ ",\"size\":".toList.length = 8 ∧
      ",\"sha256\":\"".toList.length = 11 ∧ "\"\x7d".toList.length = 2 := by decide
  simp only [receiptOf, List.length_append, hdigest, hversion, maxReceiptBytes, hnames]
  omega

theorem receiptOf_isValid (digest : Hash) :
    (receiptOf range (hexEncode digest.bytes)).isValid range = true := by
  have hrecord := ADrive.Share.isCompletionRecord_hexEncode digest
  rw [ADrive.Share.isCompletionRecord, Bool.and_eq_true] at hrecord
  simp [Receipt.isValid, receiptOf, of_decide_eq_true hrecord.1, hrecord.2]

-- `serde_json` reads back the receipt that was written.
def Env.Reads (env : Env) (receipt : Receipt) : Prop := env.fromSlice receipt.toVec = some receipt

theorem complete_run (staged : List UInt8) (digest : Text) (h : Plain dir range)
    (hfree : dir (partName range) = none) :
    ∃ after, complete range staged digest ⟨dir, []⟩ = .ok () ⟨after, []⟩ ∧ Plain after range ∧
      after (partName range) = some (.ordinary staged) ∧
      after (receiptName range) = some (.ordinary (receiptOf range digest).toVec) := by
  have hne := partName_ne_receiptName range range
  have hreceipt : dir.set (partName range) (some (.ordinary staged)) (receiptName range) ≠
      some .special := by
    rw [set_other hne.symm]
    exact h.receipt
  refine ⟨(dir.set (partName range) (some (.ordinary staged))).set (receiptName range)
    (some (.ordinary (receiptOf range digest).toVec)), ?_, ?_, ?_, ?_⟩
  · rw [complete, bind_run (publish_run h.part (.inr hfree))]
    exact publish_run hreceipt (.inl rfl)
  · constructor
    · rw [set_other hne, set_self]
      exact nofun
    · rw [set_self]
      exact nofun
  · rw [set_other hne, set_self]
  · exact set_self

theorem complete_restores {staged : List UInt8} (h : Plain dir range)
    (hfree : dir (partName range) = none) (hl : staged.length = range.size.toNat)
    (hread : env.Reads (receiptOf range (hexEncode (env.sha256 staged).bytes))) :
    ∃ after, complete range staged (hexEncode (env.sha256 staged).bytes) ⟨dir, []⟩ =
        .ok () ⟨after, []⟩ ∧
      restore env range ⟨after, []⟩ =
        .ok (some (staged, hexEncode (env.sha256 staged).bytes)) ⟨after, []⟩ := by
  obtain ⟨after, hrun, hplain, hp, hr⟩ := complete_run staged (hexEncode (env.sha256 staged).bytes) h
    hfree
  exact ⟨after, hrun, Stored.restores hplain ⟨hp, hl, rfl, _, _, hr, toVec_length_le _, hread,
    receiptOf_isValid _, rfl⟩⟩

end Restore

section Transfer

variable {env : Env} {range : DownloadRange}

theorem writeAt_length {file : List UInt8} {offset : Nat} (chunk : List UInt8) (h : offset ≤ file.length) :
    (writeAt file chunk offset).length = max file.length (offset + chunk.length) := by
  rw [writeAt, List.length_append, List.length_append, List.length_take_of_le h, List.length_drop]
  omega

theorem take_writeAt {file body chunk : List UInt8} (h : file.take body.length = body) :
    (writeAt file chunk body.length).take (body ++ chunk).length = body ++ chunk := by
  rw [writeAt, h]
  exact List.take_left

-- What one attempt leaves in the staged file, and what it says about it.
structure Received (env : Env) (size : Nat) (file : List UInt8)
    (result : Except (CliError × Bool) Text) : Prop where
  bounded : file.length ≤ size
  whole : ∀ digest, result = .ok digest →
    file.length = size ∧ digest = hexEncode (env.sha256 file).bytes

theorem receiveChunks_received {size : Nat} {isInterrupted : Bool} {file body : List UInt8}
    (chunks : List (List UInt8)) (hbody : file.take body.length = body) (hl : file.length ≤ size) :
    Received env size (receiveChunks env size isInterrupted file body chunks).1
      (receiveChunks env size isInterrupted file body chunks).2 := by
  have hle : body.length ≤ file.length := by
    have hlength := congrArg List.length hbody
    rw [List.length_take] at hlength
    omega
  induction chunks generalizing file body with
  | nil =>
    unfold receiveChunks
    split
    · exact ⟨hl, nofun⟩
    · split
      · exact ⟨hl, nofun⟩
      · next hsize =>
        have hsame : file = body := by
          rw [← hbody, List.take_of_length_le (by omega)]
        refine ⟨hl, fun digest hd => ?_⟩
        rw [hsame]
        exact ⟨not_not.mp hsize, (Except.ok.inj hd).symm⟩
  | cons chunk chunks ih =>
    unfold receiveChunks
    split
    · exact ⟨hl, nofun⟩
    · next hfits =>
      have hlength := writeAt_length chunk hle
      refine ih (take_writeAt hbody) ?_ ?_
      · rw [hlength]
        omega
      · rw [hlength, List.length_append]
        omega

variable (env) in
theorem attemptRange_received {file : List UInt8} (attempt : Attempt)
    (hl : file.length ≤ range.size.toNat) :
    Received env range.size.toNat (attemptRange env range file attempt).1
      (attemptRange env range file attempt).2 := by
  cases attempt with
  | refused isRetryable => exact ⟨hl, nofun⟩
  | received chunks isInterrupted => exact receiveChunks_received chunks List.take_zero hl

theorem transferRange_whole {left : Nat} {file staged : List UInt8} {attempts : List Attempt}
    {digest : Text} (hl : file.length ≤ range.size.toNat)
    (h : transferRange env range left file attempts = .ok (staged, digest)) :
    staged.length = range.size.toNat ∧ digest = hexEncode (env.sha256 staged).bytes := by
  induction left generalizing file attempts with
  | zero => cases h
  | succ left ih =>
    cases attempts with
    | nil => cases h
    | cons attempt attempts =>
      have hreceived := attemptRange_received env attempt hl
      rw [transferRange] at h
      split at h
      · next file' digest' he =>
        rw [he] at hreceived
        cases h
        exact hreceived.whole _ rfl
      · next file' error isRetryable he =>
        rw [he] at hreceived
        split at h
        · exact ih hreceived.bounded h
        · cases h

theorem downloadPart_restores {dir : Directory} {attempts : List Attempt} {staged : List UInt8}
    {digest : Text} (h : Plain dir range)
    (ht : transferRange env range 3 [] attempts = .ok (staged, digest))
    (hread : env.Reads (receiptOf range digest)) :
    ∃ last kept, downloadPart env range attempts ⟨dir, []⟩ = .ok () ⟨last, []⟩ ∧
      restore env range ⟨last, []⟩ = .ok (some kept) ⟨last, []⟩ := by
  obtain ⟨hl, rfl⟩ := transferRange_whole (Nat.zero_le _) ht
  by_cases hs : ∃ file digest, Stored env dir range file digest
  · obtain ⟨file, digest, hs⟩ := hs
    refine ⟨dir, (file, digest), ?_, hs.restores h⟩
    rw [downloadPart, bind_run (hs.restores h)]
    rfl
  · have hnone : ∀ file digest, ¬ Stored env dir range file digest :=
      fun file digest hf => hs ⟨file, digest, hf⟩
    obtain ⟨last, hrun, hrestored⟩ := complete_restores (cleared_plain dir range) cleared_part hl hread
    refine ⟨last, _, ?_, hrestored⟩
    rw [downloadPart, bind_run (restore_discards h hnone)]
    dsimp only
    rw [ht]
    exact hrun

end Transfer

theorem range_checkpoint_heals (env : Env) (dir : Directory) (range : DownloadRange)
    (h : Plain dir range) :
    ∃ restored after, restore env range ⟨dir, []⟩ = .ok restored ⟨after, []⟩ ∧
      (∀ file digest, restored = some (file, digest) →
        after = dir ∧ Stored env dir range file digest) ∧
      (restored = none →
        after (partName range) = none ∧ after (receiptName range) = none ∧
        (∀ name, name ≠ partName range → name ≠ receiptName range → after name = dir name) ∧
        (∀ other : DownloadRange, other.number ≠ range.number →
          after (partName other) = dir (partName other) ∧
          after (receiptName other) = dir (receiptName other)) ∧
        ∀ staged : List UInt8, staged.length = range.size.toNat →
          env.Reads (receiptOf range (hexEncode (env.sha256 staged).bytes)) →
          ∃ last, complete range staged (hexEncode (env.sha256 staged).bytes) ⟨after, []⟩ =
              .ok () ⟨last, []⟩ ∧
            restore env range ⟨last, []⟩ =
              .ok (some (staged, hexEncode (env.sha256 staged).bytes)) ⟨last, []⟩) ∧
      ∀ attempts staged digest, transferRange env range 3 [] attempts = .ok (staged, digest) →
        env.Reads (receiptOf range digest) →
        ∃ last kept, downloadPart env range attempts ⟨dir, []⟩ = .ok () ⟨last, []⟩ ∧
          restore env range ⟨last, []⟩ = .ok (some kept) ⟨last, []⟩ := by
  have hdownload : ∀ attempts staged digest, transferRange env range 3 [] attempts = .ok (staged, digest) →
      env.Reads (receiptOf range digest) →
      ∃ last kept, downloadPart env range attempts ⟨dir, []⟩ = .ok () ⟨last, []⟩ ∧
        restore env range ⟨last, []⟩ = .ok (some kept) ⟨last, []⟩ :=
    fun _ _ _ ht hread => downloadPart_restores h ht hread
  by_cases hs : ∃ file digest, Stored env dir range file digest
  · obtain ⟨file, digest, hs⟩ := hs
    refine ⟨_, _, hs.restores h, ?_, nofun, hdownload⟩
    rintro file' digest' he
    cases he
    exact ⟨rfl, hs⟩
  · have hnone : ∀ file digest, ¬ Stored env dir range file digest :=
      fun file digest hf => hs ⟨file, digest, hf⟩
    refine ⟨_, _, restore_discards h hnone, nofun, fun _ => ⟨cleared_part, cleared_receipt,
      fun name hp hr => cleared_other hp hr, fun other hother => ⟨?_, ?_⟩, ?_⟩, hdownload⟩
    · exact cleared_other (fun he => hother (partName_inj he)) (partName_ne_receiptName _ _)
    · exact cleared_other (partName_ne_receiptName _ _).symm fun he => hother (receiptName_inj he)
    · intro staged hl hread
      exact complete_restores (cleared_plain dir range) cleared_part hl hread

def sampleRange : DownloadRange := ⟨3, 8, 2⟩

def sampleStaged : List UInt8 := [104, 105]

def sampleReceipt : Receipt := receiptOf sampleRange (hexEncode (Hash.ofBytes sampleStaged).bytes)

-- Receipts other than the one written below are malformed here.
def sampleEnv : Env where
  sha256 := Hash.ofBytes
  fromSlice bytes := if bytes = sampleReceipt.toVec then some sampleReceipt else none

-- A part of the wrong length beside half a receipt.
def shortDirectory : Directory := fun name =>
  if name = partName sampleRange then some (.ordinary [104])
  else if name = receiptName sampleRange then some (.ordinary [123, 34])
  else none

theorem shortDirectory_plain : Plain shortDirectory sampleRange := by
  constructor <;> unfold shortDirectory <;> split <;> exact nofun

theorem range_checkpoint_heals_short :
    Plain shortDirectory sampleRange ∧
    ∃ after last, restore sampleEnv sampleRange ⟨shortDirectory, []⟩ = .ok none ⟨after, []⟩ ∧
      after (partName sampleRange) = none ∧
      restore sampleEnv sampleRange ⟨last, []⟩ =
        .ok (some (sampleStaged, sampleReceipt.sha256)) ⟨last, []⟩ := by
  refine ⟨shortDirectory_plain, ?_⟩
  obtain ⟨restored, after, hrun, hsome, hnone, -⟩ :=
    range_checkpoint_heals sampleEnv shortDirectory sampleRange shortDirectory_plain
  cases restored with
  | some kept =>
    obtain ⟨-, hstored⟩ := hsome kept.1 kept.2 rfl
    have hpart := hstored.part
    rw [shortDirectory, if_pos rfl] at hpart
    have hlength := hstored.length
    rw [← Entry.ordinary.inj (Option.some.inj hpart)] at hlength
    exact absurd hlength (by decide)
  | none =>
    obtain ⟨hpart, -, -, -, hnext⟩ := hnone rfl
    have hreads : sampleEnv.Reads sampleReceipt := by simp [Env.Reads, sampleEnv]
    obtain ⟨last, -, hlast⟩ := hnext sampleStaged rfl hreads
    exact ⟨after, last, hrun, hpart, hlast⟩

end VeStorage.ADrive.ShareRange
