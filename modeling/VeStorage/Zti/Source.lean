import VeStorage.Lib.Text
import Mathlib.Logic.Function.Basic
import Mathlib.Logic.Relation

namespace VeStorage.Zti
open Lib

inductive ZtiTokenError
  | unavailable
  | expired
  | timeout
  deriving DecidableEq, Repr

structure JwtClaims where
  sub : Text
  exp : Nat

def maxTokenBytes : Nat := 64 * 1024

def tokenBytes (token : Text) : Nat := (token.map Char.utf8Size).sum

def isValidSpiffeTrustDomain (trustDomain : Text) : Bool :=
  trustDomain ≠ [] && trustDomain.length ≤ 255 &&
    trustDomain.all fun c => c.isLower || c.isDigit || c = '-' || c = '_' || c = '.'

def isValueCharacter (c : Char) : Bool :=
  c.isAlphanum || c = '-' || c = '_' || c = '.'

def keyIndex (key : Text) : Option Nat :=
  if key = "ns".toList then some 0
  else if key = "r".toList then some 1
  else if key = "vdc".toList then some 2
  else if key = "id".toList then some 3
  else none

def valueLengths : List Text → List (Option Nat) → Option (List (Option Nat))
  | [], lengths => some lengths
  | segment :: rest, lengths =>
    match splitOnce ':' segment with
    | (_, none) => none
    | (key, some value) =>
      match keyIndex key with
      | none => none
      | some i =>
        if (lengths.getD i none).isSome || !value.all isValueCharacter then none
        else valueLengths rest (lengths.set i (some value.length))

def canonicalLength : List (Option Nat × Nat) → Nat → Nat → Nat
  | [], _, canonical => canonical
  | (none, _) :: rest, compacted, canonical => canonicalLength rest compacted canonical
  | (some valueLength, keyLength) :: rest, compacted, canonical =>
    canonicalLength rest (compacted + valueLength)
      (if 0 < compacted + valueLength then canonical + (keyLength + valueLength + 2)
        else canonical)

def isSpiffeIdWithinLengthLimit (trustDomain : Text) (lengths : List (Option Nat)) : Bool :=
  canonicalLength (lengths.zip [2, 1, 3, 2]) 0 ("spiffe://".length + trustDomain.length) ≤ 2048

def isValidBytedanceSpiffeSubject (subject : Text) : Bool :=
  subject.all (fun c => c.toNat < 128) &&
    match (stripPrefix "spiffe://".toList subject).map (splitOnce '/') with
    | some (trustDomain, some path) =>
      isValidSpiffeTrustDomain trustDomain &&
        match valueLengths (segments '/' path) [none, none, none, none] with
        | none => false
        | some lengths =>
          (lengths.getD 0 none).isSome && (lengths.getD 3 none).isSome &&
            isSpiffeIdWithinLengthLimit trustDomain lengths
    | _ => false

def tokenExpiration (decode : Text → Option JwtClaims) (token : Text) (now : Nat) :
    Except ZtiTokenError Nat :=
  if maxTokenBytes < tokenBytes token then .error .unavailable
  else
    match token.splitOn '.' with
    | [header, payload, signature] =>
      if header = [] ∨ payload = [] ∨ signature = [] then .error .unavailable
      else
        match decode payload with
        | none => .error .unavailable
        | some claims =>
          if !isValidBytedanceSpiffeSubject claims.sub then .error .unavailable
          else if claims.exp ≤ now then .error .expired
          else .ok claims.exp
    | _ => .error .unavailable

variable {decode : Text → Option JwtClaims} {token : Text} {now later exp : Nat}

theorem tokenExpiration_ok (h : tokenExpiration decode token now = .ok exp) :
    now < exp ∧ ∀ later, later < exp → tokenExpiration decode token later = .ok exp := by
  unfold tokenExpiration at h ⊢
  split at h
  · cases h
  rename_i hlen
  split at h
  · rename_i header payload signature hsplit
    split at h
    · cases h
    rename_i hempty
    split at h
    · cases h
    rename_i claims hclaims
    split at h
    · cases h
    rename_i hsub
    split at h
    · cases h
    rename_i hexp
    cases h
    refine ⟨Nat.lt_of_not_le hexp, fun later hlater => ?_⟩
    rw [if_neg hlen, if_neg hempty, if_neg hsub, if_neg (Nat.not_le_of_lt hlater)]
  · cases h

end VeStorage.Zti

namespace VeStorage.Zti
open Lib

inductive Source
  | file
  | agent
  deriving DecidableEq, Repr

-- `read` numbers the successful reads of the source.
structure CachedToken where
  token : Text
  expiresAt : Nat
  read : Nat
  deriving DecidableEq, Repr

def CachedToken.current (t : CachedToken) (now : Nat) : Except ZtiTokenError CachedToken :=
  if t.expiresAt ≤ now then .error .expired else .ok t

def fetchToken (decode : Text → Option JwtClaims) (read now : Nat)
    (outcome : Except ZtiTokenError Text) : Except ZtiTokenError CachedToken :=
  match outcome with
  | .error e => .error e
  | .ok token =>
    match tokenExpiration decode token now with
    | .error e => .error e
    | .ok expiresAt => .ok ⟨token, expiresAt, read⟩

inductive Holder
  | call (c : Nat)
  | refresh
  deriving DecidableEq, Repr

inductive Critical
  | checking
  | reading (found : Option Nat)
  | writing (next : CachedToken)
  deriving DecidableEq, Repr

inductive Phase
  | idle
  | opening
  | initialising
  | looking
  | queued
  | locked
  | returned (t : CachedToken)
  | failed (e : ZtiTokenError)
  | cancelled
  deriving DecidableEq, Repr

structure Call where
  phase : Phase
  startedAt : Nat

structure State where
  now : Nat
  cell : Option CachedToken
  permit : Option Nat
  lock : Option (Holder × Critical)
  calls : Nat → Call
  refreshing : Bool
  reads : Nat
  last : Option CachedToken
  fetchedFor : List Nat

def State.init (now : Nat) : State where
  now := now
  cell := none
  permit := none
  lock := none
  calls := fun _ => ⟨.idle, 0⟩
  refreshing := false
  reads := 0
  last := none
  fetchedFor := []

def State.move (s : State) (c : Nat) (p : Phase) : State :=
  { s with calls := Function.update s.calls c ⟨p, (s.calls c).startedAt⟩ }

def State.begin (s : State) (c : Nat) (p : Phase) : State :=
  { s with calls := Function.update s.calls c ⟨p, s.now⟩ }

def State.settle (s : State) (h : Holder) (p : Phase) : State :=
  match h with
  | .call c => { s.move c p with lock := none }
  | .refresh => { s with lock := none }

def entry (source : Source) (cell : Option CachedToken) : Phase :=
  match cell with
  | none => .opening
  | some _ =>
    match source with
    | .file => .queued
    | .agent => .looking

def afterExpired (source : Source) (e : ZtiTokenError) : Phase :=
  match source with
  | .file => .failed e
  | .agent => .queued

def firstCritical : Source → Critical
  | .file => .reading none
  | .agent => .checking

def State.unread (source : Source) (s : State) (h : Holder) (e : ZtiTokenError) : State :=
  match h with
  | .refresh => s.settle h (.failed e)
  | .call _ =>
    match source with
    | .file => { s with lock := some (h, .checking) }
    | .agent => s.settle h (.failed e)

def State.unchecked (source : Source) (s : State) (c : Nat) (t : CachedToken)
    (e : ZtiTokenError) : State :=
  match source with
  | .file => s.settle (.call c) (.failed e)
  | .agent => { s with lock := some (.call c, .reading (some t.read)) }

inductive Act
  | tick
  | start (c : Nat)
  | call (c : Nat)
  | refresh
  | cancel (c : Nat)
  | stop
  deriving DecidableEq, Repr

def Holder.act : Holder → Act
  | .call c => .call c
  | .refresh => .refresh

inductive Step (source : Source) (decode : Text → Option JwtClaims) : State → Act → State → Prop
  | tick {s : State} (seconds : Nat) : Step source decode s .tick { s with now := s.now + seconds }
  | start {s : State} {c : Nat} (hc : (s.calls c).phase = .idle) :
      Step source decode s (.start c) (s.begin c (entry source s.cell))
  | join {s : State} {c : Nat} {t : CachedToken} (hc : (s.calls c).phase = .opening)
      (hcell : s.cell = some t) : Step source decode s (.call c) (s.move c .looking)
  | claim {s : State} {c : Nat} (hc : (s.calls c).phase = .opening) (hcell : s.cell = none)
      (hpermit : s.permit = none) :
      Step source decode s (.call c) { s.move c .initialising with permit := some c }
  | initFailed {s : State} {c : Nat} {outcome : Except ZtiTokenError Text} {e : ZtiTokenError}
      (hc : (s.calls c).phase = .initialising)
      (hread : fetchToken decode (s.reads + 1) s.now outcome = .error e) :
      Step source decode s (.call c) { s.move c (.failed e) with permit := none }
  | initRead {s : State} {c : Nat} {outcome : Except ZtiTokenError Text} {t : CachedToken}
      (hc : (s.calls c).phase = .initialising)
      (hread : fetchToken decode (s.reads + 1) s.now outcome = .ok t) :
      Step source decode s (.call c)
        { s.move c .looking with
          permit := none
          cell := some t
          refreshing := source = .agent
          reads := s.reads + 1
          last := some t }
  | look {s : State} {c : Nat} {t u : CachedToken} (hc : (s.calls c).phase = .looking)
      (hcell : s.cell = some t) (hcurrent : t.current s.now = .ok u) :
      Step source decode s (.call c) (s.move c (.returned u))
  | lookExpired {s : State} {c : Nat} {t : CachedToken} {e : ZtiTokenError}
      (hc : (s.calls c).phase = .looking) (hcell : s.cell = some t)
      (hcurrent : t.current s.now = .error e) :
      Step source decode s (.call c) (s.move c (afterExpired source e))
  | acquire {s : State} {c : Nat} (hc : (s.calls c).phase = .queued) (hlock : s.lock = none) :
      Step source decode s (.call c)
        { s.move c .locked with lock := some (.call c, firstCritical source) }
  | wake {s : State} (hrefreshing : s.refreshing = true) (hlock : s.lock = none) :
      Step source decode s .refresh { s with lock := some (.refresh, .reading none) }
  | readFailed {s : State} {h : Holder} {found : Option Nat}
      {outcome : Except ZtiTokenError Text} {e : ZtiTokenError}
      (hlock : s.lock = some (h, .reading found))
      (hread : fetchToken decode (s.reads + 1) s.now outcome = .error e) :
      Step source decode s h.act (s.unread source h e)
  | read {s : State} {h : Holder} {found : Option Nat} {outcome : Except ZtiTokenError Text}
      {t : CachedToken} (hlock : s.lock = some (h, .reading found))
      (hread : fetchToken decode (s.reads + 1) s.now outcome = .ok t) :
      Step source decode s h.act
        { s with
          lock := some (h, .writing t)
          reads := s.reads + 1
          last := some t
          fetchedFor := found.toList ++ s.fetchedFor }
  | check {s : State} {c : Nat} {t u : CachedToken} (hlock : s.lock = some (.call c, .checking))
      (hcell : s.cell = some t) (hcurrent : t.current s.now = .ok u) :
      Step source decode s (.call c) (s.settle (.call c) (.returned u))
  | checkExpired {s : State} {c : Nat} {t : CachedToken} {e : ZtiTokenError}
      (hlock : s.lock = some (.call c, .checking)) (hcell : s.cell = some t)
      (hcurrent : t.current s.now = .error e) :
      Step source decode s (.call c) (s.unchecked source c t e)
  | store {s : State} {h : Holder} {t : CachedToken} (hlock : s.lock = some (h, .writing t)) :
      Step source decode s h.act { s.settle h (.returned t) with cell := some t }
  | cancelWaiting {s : State} {c : Nat}
      (hc : (s.calls c).phase = .opening ∨ (s.calls c).phase = .looking ∨
        (s.calls c).phase = .queued) :
      Step source decode s (.cancel c) (s.move c .cancelled)
  | cancelInit {s : State} {c : Nat} (hc : (s.calls c).phase = .initialising) :
      Step source decode s (.cancel c) { s.move c .cancelled with permit := none }
  | cancelLocked {s : State} {c : Nat} {k : Critical} (hlock : s.lock = some (.call c, k)) :
      Step source decode s (.cancel c) (s.settle (.call c) .cancelled)
  | stop {s : State} (hlock : ∀ k, s.lock ≠ some (.refresh, k)) :
      Step source decode s .stop { s with refreshing := false }
  | stopLocked {s : State} {k : Critical} (hlock : s.lock = some (.refresh, k)) :
      Step source decode s .stop { s with refreshing := false, lock := none }

end VeStorage.Zti
