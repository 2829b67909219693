import VeStorage.Lib.Text
import VeStorage.Lib.CrashIo
import VeStorage.Lib.RecordLog
import Mathlib.Data.List.ReduceOption

namespace VeStorage.ADrive.Share
open Lib
open Lib.Crash (ensure ensure_eq_ok bind_eq_ok mapM_eq_ok)

inductive CliError where
  | unknown (message : String)
  | authFailed (message : String)
  | configMissing (message : String)
  | resourceNotFound (message : String)
  | permissionDenied (message : String)
  | validation (message : String)
  | rateLimited (message : String)
  | transferFailed (message : String)
  | conflict (message : String)
  | http
  | io
  | json
deriving DecidableEq

def u64Max : Nat := 2 ^ 64 - 1

structure Hash where
  bytes : List UInt8
  size : bytes.length = 32
deriving DecidableEq

def Hash.ofBytes (bytes : List UInt8) : Hash := ⟨bytes.takeD 32 0, List.takeD_length 32 bytes 0⟩

@[simp] theorem Hash.ofBytes_bytes (hash : Hash) : Hash.ofBytes hash.bytes = hash := by
  have h : hash.bytes.takeD 32 0 = hash.bytes := by
    rw [List.takeD_eq_take 0 (by rw [hash.size])]
    exact List.take_of_length_le (by rw [hash.size])
  obtain ⟨bytes, size⟩ := hash
  exact Hash.mk.injEq .. ▸ h

def hexDigits : List Char := "0123456789abcdef".toList

def hexDigit (n : Nat) : Char := hexDigits.getD n '0'

def hexValue (c : Char) : Option Nat := hexDigits.idxOf? c.toLower

def hexEncode (bytes : List UInt8) : Text :=
  bytes.flatMap fun b => [hexDigit (b.toNat / 16), hexDigit (b.toNat % 16)]

def hexDecode : Text → Option (List UInt8)
  | [] => some []
  | [_] => none
  | a :: b :: rest => do
      let high ← hexValue a
      let low ← hexValue b
      let bytes ← hexDecode rest
      return UInt8.ofNat (16 * high + low) :: bytes

def toAsciiLowercase (t : Text) : Text := t.map Char.toLower

def isAsciiHexdigit (c : Char) : Bool :=
  ('0' ≤ c && c ≤ '9') || ('a' ≤ c && c ≤ 'f') || ('A' ≤ c && c ≤ 'F')

theorem hexDigit_of_value {c : Char} {v : Nat} (h : hexValue c = some v) :
    v < 16 ∧ hexDigit v = c.toLower := by
  obtain ⟨hlt, hget, -⟩ := List.findIdx?_eq_some_iff_getElem.mp h
  refine ⟨hlt, ?_⟩
  rw [hexDigit, List.getD_eq_getElem?_getD, List.getElem?_eq_getElem hlt]
  exact eq_of_beq hget

theorem hexValue_hexDigit {v : Nat} (h : v < 16) : hexValue (hexDigit v) = some v := by
  have hall : ∀ n : Fin 16, hexValue (hexDigit n) = some n.val := by decide
  exact hall ⟨v, h⟩

theorem hexValue_of_hexdigit {c : Char} (h : isAsciiHexdigit c = true) :
    ∃ v, hexValue c = some v := by
  have hall : ∀ n : Fin 128, isAsciiHexdigit (Char.ofNat n) = true →
      (hexValue (Char.ofNat n)).isSome = true := by decide
  have hc : c.toNat < 128 := by
    simp only [isAsciiHexdigit, Bool.or_eq_true, Bool.and_eq_true, decide_eq_true_eq] at h
    rcases h with (⟨-, h⟩ | ⟨-, h⟩) | ⟨-, h⟩
    all_goals
      have hle : c.toNat ≤ _ := UInt32.le_iff_toNat_le.mp (Char.le_def.mp h)
      exact Nat.lt_of_le_of_lt hle (by decide)
  have hv := hall ⟨c.toNat, hc⟩ (by rwa [Char.ofNat_toNat])
  rw [Char.ofNat_toNat] at hv
  exact Option.isSome_iff_exists.mp hv

theorem hexEncode_hexDecode {t : Text} {bytes : List UInt8} (h : hexDecode t = some bytes) :
    hexEncode bytes = toAsciiLowercase t := by
  induction t using hexDecode.induct generalizing bytes with
  | case1 =>
    cases h
    rfl
  | case2 a => cases h
  | case3 a b rest ih =>
    simp only [hexDecode, Option.bind_eq_bind, Option.bind_eq_some_iff, Option.pure_def,
      Option.some.injEq] at h
    obtain ⟨high, hhigh, low, hlow, tail, htail, rfl⟩ := h
    obtain ⟨hh, hha⟩ := hexDigit_of_value hhigh
    obtain ⟨hl, hlb⟩ := hexDigit_of_value hlow
    have hbyte : (UInt8.ofNat (16 * high + low)).toNat = 16 * high + low := by
      rw [UInt8.toNat_ofNat']
      omega
    have hdiv : (16 * high + low) / 16 = high := by omega
    have hmod : (16 * high + low) % 16 = low := by omega
    rw [hexEncode, List.flatMap_cons, hbyte, hdiv, hmod, hha, hlb, ← hexEncode, ih htail]
    rfl

theorem hexDecode_hexEncode (bytes : List UInt8) : hexDecode (hexEncode bytes) = some bytes := by
  induction bytes with
  | nil => rfl
  | cons b bytes ih =>
    have hb := b.toNat_lt
    have hhigh := hexValue_hexDigit (v := b.toNat / 16) (by omega)
    have hlow := hexValue_hexDigit (v := b.toNat % 16) (Nat.mod_lt _ (by decide))
    have hvalue : 16 * (b.toNat / 16) + b.toNat % 16 = b.toNat := Nat.div_add_mod ..
    rw [hexEncode, List.flatMap_cons, ← hexEncode]
    simp only [List.cons_append, List.nil_append, hexDecode, hhigh, hlow, ih, hvalue,
      Option.bind_eq_bind, Option.bind_some, Option.pure_def, UInt8.ofNat_toNat]

theorem hexEncode_length (bytes : List UInt8) :
    (hexEncode bytes).length = 2 * bytes.length := by
  induction bytes with
  | nil => rfl
  | cons b bytes ih =>
    rw [hexEncode, List.flatMap_cons, ← hexEncode, List.length_append, ih, List.length_cons,
      List.length_cons, List.length_cons, List.length_nil]
    omega

theorem mem_hexEncode {bytes : List UInt8} {c : Char} (h : c ∈ hexEncode bytes) :
    ∃ v, v < 16 ∧ hexDigit v = c := by
  obtain ⟨b, -, hb⟩ := List.mem_flatMap.mp h
  have hlt := b.toNat_lt
  rcases List.mem_pair.mp hb with rfl | rfl
  · exact ⟨_, by omega, rfl⟩
  · exact ⟨_, Nat.mod_lt _ (by decide), rfl⟩

theorem hexDecode_lowercase {t : Text} {bytes : List UInt8} (h : hexDecode t = some bytes) :
    hexDecode (toAsciiLowercase t) = some bytes := by
  rw [← hexEncode_hexDecode h]
  exact hexDecode_hexEncode bytes

theorem hexDecode_of_hexdigits {t : Text} {n : Nat} (hl : t.length = 2 * n)
    (h : ∀ c ∈ t, isAsciiHexdigit c = true) :
    ∃ bytes, hexDecode t = some bytes ∧ bytes.length = n := by
  induction t using hexDecode.induct generalizing n with
  | case1 =>
    rw [List.length_nil] at hl
    exact ⟨[], rfl, by rw [List.length_nil]; omega⟩
  | case2 a =>
    rw [List.length_singleton] at hl
    omega
  | case3 a b rest ih =>
    obtain ⟨high, hhigh⟩ := hexValue_of_hexdigit (h a (by simp))
    obtain ⟨low, hlow⟩ := hexValue_of_hexdigit (h b (by simp))
    rw [List.length_cons, List.length_cons] at hl
    obtain ⟨bytes, hbytes, hlength⟩ := ih (n := n - 1) (by omega)
      (fun c hc => h c (by simp [hc]))
    refine ⟨UInt8.ofNat (16 * high + low) :: bytes, ?_, by rw [List.length_cons]; omega⟩
    simp [hexDecode, hhigh, hlow, hbytes]

-- `digest_bytes`: exactly 32 bytes in hexadecimal digits of either case.
def digestBytes (value : Text) : Except CliError Hash :=
  match hexDecode value with
  | none => .error (.validation "invalid completion digest")
  | some bytes =>
      if h : bytes.length = 32 then .ok ⟨bytes, h⟩
      else .error (.validation "invalid completion digest")

theorem digestBytes_eq_ok {value : Text} {digest : Hash} :
    digestBytes value = .ok digest ↔ hexDecode value = some digest.bytes := by
  unfold digestBytes
  constructor
  · intro h
    split at h
    · cases h
    · next bytes hbytes =>
      split at h
      · cases h
        exact hbytes
      · cases h
  · intro h
    rw [h]
    exact dif_pos digest.size

theorem digestBytes_hexEncode (digest : Hash) :
    digestBytes (hexEncode digest.bytes) = .ok digest :=
  digestBytes_eq_ok.mpr (hexDecode_hexEncode digest.bytes)

structure SelectionPolicy where
  isIncludeParent : Bool
  includePattern : Option Text
  excludePattern : Option Text
  overwrite : Text
deriving DecidableEq

structure ReceiverContext where
  apiOrigin : Text
  profile : Text
  userId : Text
deriving DecidableEq

structure Identity where
  origin : Text
  shareId : Text
  selection : Option Text
  destination : Text
  isRecursive : Bool
  isOverwrite : Bool
  selectionPolicy : Option SelectionPolicy
  apiOrigin : Option Text
  recipient : Option ReceiverContext
deriving DecidableEq

structure RemoteFile where
  path : Text
  size : Nat
  etag : Text
  crc64 : Nat
  updatedAt : Int
deriving DecidableEq

structure Entry where
  localPath : Text
  remote : RemoteFile
deriving DecidableEq

inductive MappingPolicy where
  | legacy
  | cp (isIncludeParent : Bool) (includePattern excludePattern : Option Text)
  | spaceRoot (isIncludeParent : Bool) (includePattern excludePattern : Option Text)
deriving DecidableEq

-- A `Vec` holds at most `isize::MAX` bytes, and an `Entry` takes 96.
def maxEntries : Nat := (2 ^ 63 - 1) / 96

structure Manifest where
  roots : List Text
  files : List Entry
  directories : List Text
  remoteDirectories : List Text
  policy : MappingPolicy
  sized : files.length ≤ maxEntries
deriving DecidableEq

structure Journal where
  version : Nat
  identity : Identity
  manifest : Manifest
  completed : List (Option Text)
deriving DecidableEq

-- The hash, the JSON encodings, the checks of a manifest, and how short a read of a file falls.
structure Env where
  sha256 : List UInt8 → Hash
  journalJson : Journal → List UInt8
  taskJson : Nat → Identity → Manifest → List UInt8
  entryJson : Entry → List UInt8
  deriveShareApiOrigin : Text → Except CliError Text
  validateManifest : Manifest → Except CliError Unit
  validateSelection : Manifest → Option Text → Bool → Except CliError Unit
  validateOptions : Manifest → Bool → Option Text → Option Text → Except CliError Unit
  shortRead : Nat → Nat

variable (env : Env)

-- A journal without a policy can only stand for the one that its flags had meant.
def Identity.permits (recorded : Identity) (policy : SelectionPolicy) : Bool :=
  (!recorded.isRecursive || policy.isIncludeParent) && policy.includePattern.isNone &&
    policy.excludePattern.isNone &&
    policy.overwrite = (if recorded.isOverwrite then "force" else "no-clobber").toList

def Identity.effectivePolicy (recorded expected : Identity) : Option SelectionPolicy :=
  match recorded.selectionPolicy, expected.selectionPolicy with
  | none, some policy => if recorded.permits policy then some policy else none
  | policy, _ => policy

def Identity.withPolicy (recorded expected : Identity) : Identity :=
  { recorded with selectionPolicy := recorded.effectivePolicy expected }

def Identity.matchesExpected (identity expected : Identity) : Except CliError Bool :=
  let recorded := identity.withPolicy expected
  if recorded.apiOrigin.isNone && recorded.recipient.isNone && expected.apiOrigin.isSome then do
    let origin ← env.deriveShareApiOrigin recorded.origin
    return { recorded with apiOrigin := some origin } = expected
  else return recorded = expected

def isCompletionRecord (digest : Text) : Bool :=
  digest.length = 64 && digest.all isAsciiHexdigit

def Journal.validate (journal : Journal) (identity : Identity) : Except CliError Unit := do
  ensure (journal.version = 1) (.validation "checkpoint version or task identity/policy differs")
  let isExpected ← journal.identity.matchesExpected env identity
  ensure (isExpected = true) (.validation "checkpoint version or task identity/policy differs")
  env.validateManifest journal.manifest
  ensure (journal.completed.length = journal.manifest.files.length ∧
      ∀ digest ∈ journal.completed.reduceOption, isCompletionRecord digest = true)
    (.validation "invalid checkpoint completion records")
  env.validateSelection journal.manifest identity.selection identity.isRecursive
  match journal.identity.selectionPolicy with
  | some policy =>
      env.validateOptions journal.manifest policy.isIncludeParent
        policy.includePattern policy.excludePattern
  | none => return

structure Journal.Accepted (journal : Journal) (identity : Identity) : Prop where
  version : journal.version = 1
  task : journal.identity.matchesExpected env identity = .ok true
  manifest : env.validateManifest journal.manifest = .ok ()
  counted : journal.completed.length = journal.manifest.files.length
  digests : ∀ digest, some digest ∈ journal.completed → isCompletionRecord digest = true
  selected : env.validateSelection journal.manifest identity.selection identity.isRecursive = .ok ()
  options : ∀ policy, journal.identity.selectionPolicy = some policy →
    env.validateOptions journal.manifest policy.isIncludeParent policy.includePattern
      policy.excludePattern = .ok ()

theorem Journal.validate_eq_ok {journal : Journal} {identity : Identity} :
    journal.validate env identity = .ok () ↔ journal.Accepted env identity := by
  have hoptions : (match journal.identity.selectionPolicy with
      | some policy =>
          env.validateOptions journal.manifest policy.isIncludeParent policy.includePattern
            policy.excludePattern
      | none => pure ()) = .ok () ↔ ∀ policy, journal.identity.selectionPolicy = some policy →
        env.validateOptions journal.manifest policy.isIncludeParent policy.includePattern
          policy.excludePattern = .ok () := by
    cases journal.identity.selectionPolicy with
    | none => simp
    | some policy => simp
  simp only [Journal.validate, bind_eq_ok, ensure_eq_ok, hoptions, List.reduceOption_mem_iff]
  constructor
  · rintro ⟨⟨⟩, hv, isExpected, hi, ⟨⟩, rfl, ⟨⟩, hm, ⟨⟩, ⟨hc, hd⟩, ⟨⟩, hs, ho⟩
    exact ⟨hv, hi, hm, hc, hd, hs, ho⟩
  · intro h
    exact ⟨(), h.version, true, h.task, (), rfl, (), h.manifest, (), ⟨h.counted, h.digests⟩, (),
      h.selected, h.options⟩

def decodeDigest (digest : Option Text) : Except CliError (Option Hash) :=
  match digest with
  | none => .ok none
  | some value => (digestBytes value).map some

def completions (journal : Journal) : Except CliError (List (Option Hash)) :=
  journal.completed.mapM decodeDigest

theorem digestBytes_of_record {digest : Text} (h : isCompletionRecord digest = true) :
    ∃ hash, digestBytes digest = .ok hash := by
  rw [isCompletionRecord, Bool.and_eq_true, decide_eq_true_eq, List.all_eq_true] at h
  obtain ⟨bytes, hbytes, hlength⟩ := hexDecode_of_hexdigits (n := 32) h.1 h.2
  exact ⟨⟨bytes, hlength⟩, digestBytes_eq_ok.mpr hbytes⟩

theorem isCompletionRecord_hexEncode (hash : Hash) :
    isCompletionRecord (hexEncode hash.bytes) = true := by
  rw [isCompletionRecord, Bool.and_eq_true, decide_eq_true_eq, List.all_eq_true]
  constructor
  · rw [hexEncode_length, hash.size]
  · intro c hc
    obtain ⟨v, hv, rfl⟩ := mem_hexEncode hc
    have hall : ∀ n : Fin 16, isAsciiHexdigit (hexDigit n) = true := by decide
    exact hall ⟨v, hv⟩

theorem isCompletionRecord_lowercase {digest : Text} (h : isCompletionRecord digest = true) :
    isCompletionRecord (toAsciiLowercase digest) = true := by
  obtain ⟨hash, hhash⟩ := digestBytes_of_record h
  rw [← hexEncode_hexDecode (digestBytes_eq_ok.mp hhash)]
  exact isCompletionRecord_hexEncode hash

theorem decodeDigest_eq_some {text : Option Text} {hash : Hash} :
    decodeDigest text = .ok (some hash) ↔
      ∃ value, text = some value ∧ digestBytes value = .ok hash := by
  cases text with
  | none => simp [decodeDigest]
  | some value =>
    cases hvalue : digestBytes value with
    | error e => simp [decodeDigest, hvalue, Except.map]
    | ok hash' => simp [decodeDigest, hvalue, Except.map]

theorem decodeDigest_some {value : Text} {hash : Option Hash}
    (h : decodeDigest (some value) = .ok hash) :
    ∃ digest, hash = some digest ∧ digestBytes value = .ok digest := by
  rw [decodeDigest] at h
  cases hv : digestBytes value with
  | error e =>
    rw [hv] at h
    cases h
  | ok digest =>
    rw [hv] at h
    cases h
    exact ⟨digest, rfl, rfl⟩

theorem completions_length {journal : Journal} {durable : List (Option Hash)}
    (h : completions journal = .ok durable) : durable.length = journal.completed.length :=
  (mapM_eq_ok.mp h).length_eq.symm

theorem completions_getElem? {journal : Journal} {durable : List (Option Hash)}
    (h : completions journal = .ok durable) (index : Nat) (hash : Hash) :
    durable[index]? = some (some hash) ↔
      ∃ value, journal.completed[index]? = some (some value) ∧ digestBytes value = .ok hash := by
  have hall := mapM_eq_ok.mp h
  have hlength := hall.length_eq
  constructor
  · intro hd
    obtain ⟨hlt, hget⟩ := List.getElem?_eq_some_iff.mp hd
    have hdecode := hall.get (hlength ▸ hlt) hlt
    simp only [List.get_eq_getElem, hget] at hdecode
    obtain ⟨value, hvalue, hok⟩ := decodeDigest_eq_some.mp hdecode
    exact ⟨value, List.getElem?_eq_some_iff.mpr ⟨_, hvalue⟩, hok⟩
  · rintro ⟨value, hvalue, hok⟩
    obtain ⟨hlt, hget⟩ := List.getElem?_eq_some_iff.mp hvalue
    have hdecode := hall.get hlt (hlength ▸ hlt)
    simp only [List.get_eq_getElem, hget] at hdecode
    have hsome := decodeDigest_eq_some.mpr ⟨value, rfl, hok⟩
    rw [hdecode] at hsome
    exact List.getElem?_eq_some_iff.mpr ⟨_, Except.ok.inj hsome⟩

theorem completions_digest {journal : Journal} {durable : List (Option Hash)}
    (h : completions journal = .ok durable) {index : Nat} {value : Text}
    (hvalue : journal.completed[index]? = some (some value)) :
    ∃ digest, digestBytes value = .ok digest := by
  have hall := mapM_eq_ok.mp h
  obtain ⟨hlt, hget⟩ := List.getElem?_eq_some_iff.mp hvalue
  have hdecode := hall.get hlt (hall.length_eq ▸ hlt)
  simp only [List.get_eq_getElem, hget] at hdecode
  obtain ⟨digest, -, hok⟩ := decodeDigest_some hdecode
  exact ⟨digest, hok⟩

theorem completions_of_records {journal : Journal}
    (h : ∀ digest, some digest ∈ journal.completed → isCompletionRecord digest = true) :
    ∃ durable, completions journal = .ok durable := by
  have hall : ∀ texts : List (Option Text),
      (∀ digest, some digest ∈ texts → isCompletionRecord digest = true) →
      ∃ durable, texts.mapM decodeDigest = .ok durable := by
    intro texts htexts
    induction texts with
    | nil => exact ⟨[], rfl⟩
    | cons text texts ih =>
      obtain ⟨rest, hrest⟩ := ih fun d hd => htexts d (List.mem_cons_of_mem _ hd)
      cases text with
      | none =>
        exact ⟨none :: rest, mapM_eq_ok.mpr (.cons rfl (mapM_eq_ok.mp hrest))⟩
      | some digest =>
        obtain ⟨hash, hhash⟩ := digestBytes_of_record (htexts digest List.mem_cons_self)
        have hdecode := decodeDigest_eq_some.mpr ⟨digest, rfl, hhash⟩
        exact ⟨some hash :: rest, mapM_eq_ok.mpr (.cons hdecode (mapM_eq_ok.mp hrest))⟩
  exact hall journal.completed h

end VeStorage.ADrive.Share
