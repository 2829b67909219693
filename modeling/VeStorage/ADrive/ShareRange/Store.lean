import VeStorage.ADrive.Share.Journal
import VeStorage.Lib.CrashIo
import VeStorage.Lib.Fingerprint

namespace VeStorage.ADrive.ShareRange
open Lib
open Lib.Crash (CrashIo World observe require orRaise atomic forEach raise)
open ADrive.Share (CliError Hash hexEncode isAsciiHexdigit)

inductive Entry
  | ordinary (bytes : List UInt8)
  | special
deriving DecidableEq

abbrev Directory := Text → Option Entry

def Directory.set (dir : Directory) (name : Text) (entry : Option Entry) : Directory :=
  fun other => if other = name then entry else dir other

structure DownloadRange where
  number : UInt32
  offset : UInt64
  size : UInt64
deriving DecidableEq

structure Receipt where
  version : UInt32
  number : UInt32
  offset : UInt64
  size : UInt64
  sha256 : Text
deriving DecidableEq

def maxReceiptBytes : Nat := 1024

def decimal (n : Nat) : Text := Nat.toDigits 10 n

-- `serde_json::to_vec`; a digest has nothing to escape.
def Receipt.toVec (receipt : Receipt) : List UInt8 :=
  textBytes ("\x7b\"version\":".toList ++ decimal receipt.version.toNat ++
    ",\"number\":".toList ++ decimal receipt.number.toNat ++
    ",\"offset\":".toList ++ decimal receipt.offset.toNat ++
    ",\"size\":".toList ++ decimal receipt.size.toNat ++
    ",\"sha256\":\"".toList ++ receipt.sha256 ++ "\"\x7d".toList)

-- SHA-256, and `serde_json::from_slice` for a receipt with no other fields.
structure Env where
  sha256 : List UInt8 → Hash
  fromSlice : List UInt8 → Option Receipt

def partName (range : DownloadRange) : Text :=
  "part-".toList ++ decimal range.number.toNat ++ ".bin".toList

def receiptName (range : DownloadRange) : Text :=
  "part-".toList ++ decimal range.number.toNat ++ ".json".toList

abbrev Io := CrashIo CliError Directory

-- The operations of `SafeDir` and `StagedFile` on one leaf.
def ordinary (name : Text) : Io Bool := do
  let dir ← observe
  match dir name with
  | some (.ordinary _) => return true
  | some .special => raise .io
  | none => return false

def read (name : Text) : Io (List UInt8) := do
  let dir ← observe
  match dir name with
  | some (.ordinary bytes) => return bytes
  | some .special => raise .io
  | none => raise .io

def remove (name : Text) : Io Unit := do
  let dir ← observe
  require (dir name ≠ none) .io
  atomic .io fun dir => dir.set name none

def publish (name : Text) (bytes : List UInt8) (isOverwrite : Bool) : Io Unit := do
  let isPresent ← ordinary name
  require (isOverwrite = true ∨ isPresent = false) .io
  atomic .io fun dir => dir.set name (some (.ordinary bytes))

variable (env : Env)

def discardFile (name : Text) : Io Unit := do
  let isPresent ← ordinary name
  if isPresent then remove name else return

def discard (range : DownloadRange) : Io Unit :=
  forEach [partName range, receiptName range] discardFile

def Receipt.isValid (receipt : Receipt) (range : DownloadRange) : Bool :=
  receipt.version = 1 && receipt.number = range.number && receipt.offset = range.offset &&
    receipt.size = range.size && receipt.sha256.length = 64 && receipt.sha256.all isAsciiHexdigit

def readReceipt (range : DownloadRange) : Io (Option Receipt) := do
  let hasPart ← ordinary (partName range)
  let hasReceipt ← ordinary (receiptName range)
  if hasPart = true ∧ hasReceipt = true then do
    let bytes ← read (receiptName range)
    if maxReceiptBytes < bytes.length then return none
    else return (env.fromSlice bytes).filter (·.isValid range)
  else return none

-- A part opened for assembly, with the digest that its receipt holds.
def openCompleted (range : DownloadRange) : Io (Option (List UInt8 × Text)) := do
  let receipt ← readReceipt env range
  match receipt with
  | none => do
      discard range
      return none
  | some receipt => do
      let file ← read (partName range)
      if file.length ≠ range.size.toNat then do
        discard range
        return none
      else return some (file, receipt.sha256)

def hashFile (file : List UInt8) (expectedSize : Nat) : Text :=
  if file.length = expectedSize then hexEncode (env.sha256 file).bytes else []

def restore (range : DownloadRange) : Io (Option (List UInt8 × Text)) := do
  let completed ← openCompleted env range
  match completed with
  | none => return none
  | some (file, digest) =>
      if hashFile env file range.size.toNat ≠ digest then do
        discard range
        return none
      else return some (file, digest)

def receiptOf (range : DownloadRange) (digest : Text) : Receipt :=
  ⟨1, range.number, range.offset, range.size, digest⟩

def complete (range : DownloadRange) (staged : List UInt8) (digest : Text) : Io Unit := do
  publish (partName range) staged false
  publish (receiptName range) (receiptOf range digest).toVec true

-- What a range request brings: a refusal, or chunks of a body that may break off.
inductive Attempt
  | refused (isRetryable : Bool)
  | received (chunks : List (List UInt8)) (isInterrupted : Bool)

def writeAt (file bytes : List UInt8) (offset : Nat) : List UInt8 :=
  file.take offset ++ bytes ++ file.drop (offset + bytes.length)

def failed (message : String) : CliError := .transferFailed message

-- The staged file, and the digest or an error that may be worth another attempt.
def receiveChunks (size : Nat) (isInterrupted : Bool) (file body : List UInt8) :
    List (List UInt8) → List UInt8 × Except (CliError × Bool) Text
  | [] =>
      if isInterrupted then (file, .error (failed "range stream interrupted", true))
      else if body.length ≠ size then (file, .error (failed "range body is incomplete", true))
      else (file, .ok (hexEncode (env.sha256 body).bytes))
  | chunk :: chunks =>
      if size - body.length < chunk.length then
        (file, .error (failed "range exceeds planned length", false))
      else receiveChunks size isInterrupted (writeAt file chunk body.length) (body ++ chunk) chunks

def attemptRange (range : DownloadRange) (file : List UInt8) :
    Attempt → List UInt8 × Except (CliError × Bool) Text
  | .refused isRetryable => (file, .error (failed "range request refused", isRetryable))
  | .received chunks isInterrupted =>
      receiveChunks env range.size.toNat isInterrupted file [] chunks

-- The attempts left come first; each writes from the start of the staged file.
def transferRange (range : DownloadRange) :
    Nat → List UInt8 → List Attempt → Except CliError (List UInt8 × Text)
  | 0, _, _ => .error (failed "range retry budget exhausted")
  | _ + 1, _, [] => .error (failed "range connection failed")
  | left + 1, file, attempt :: attempts =>
      match attemptRange env range file attempt with
      | (file, .ok digest) => .ok (file, digest)
      | (file, .error (error, isRetryable)) =>
          if isRetryable ∧ 0 < left then transferRange range left file attempts else .error error

def downloadPart (range : DownloadRange) (attempts : List Attempt) : Io Unit := do
  let restored ← restore env range
  match restored with
  | some _ => return
  | none =>
      match transferRange env range 3 [] attempts with
      | .error error => raise error
      | .ok (staged, digest) => complete range staged digest

end VeStorage.ADrive.ShareRange
