import VeStorage.Lib.TokenBucket
import Mathlib.Logic.Relation

namespace VeStorage.ADrive.Bandwidth
open Lib

def u64Max : Nat := 2 ^ 64 - 1

def saturatingMul (a b : UInt64) : UInt64 :=
  if a.toNat * b.toNat ≤ u64Max then a * b else UInt64.ofNat u64Max

def saturatingAdd (a b : UInt64) : UInt64 :=
  if a.toNat + b.toNat ≤ u64Max then a + b else UInt64.ofNat u64Max

-- Instants are in nanoseconds.
def nanosPerMilli : Nat := 1000000

structure RateLimiter where
  capacity : UInt64
  rate : UInt64
  tokens : UInt64
  checkpoint : Nat

namespace RateLimiter

def new (capacity rate : Int64) (now : Nat) : RateLimiter :=
  let rate := if rate < 0 then 0 else rate.toUInt64
  let capacity := if capacity < 0 then 0 else capacity.toUInt64
  ⟨if capacity < rate then rate else capacity, rate, 0, now⟩

def isUnlimited (l : RateLimiter) : Bool := l.capacity = 0 || l.rate = 0

def elapsedMs (l : RateLimiter) (now : Nat) : UInt64 :=
  UInt64.ofNat ((now - l.checkpoint) / nanosPerMilli)

def delta (l : RateLimiter) (now : Nat) : UInt64 :=
  saturatingMul (l.elapsedMs now) l.rate / 1000 + 1

def refilled (l : RateLimiter) (now : Nat) : UInt64 :=
  min (saturatingAdd l.tokens (l.delta now)) l.capacity

def waitMs (l : RateLimiter) (missing : UInt64) : UInt64 :=
  max (saturatingAdd (saturatingMul missing 1000) (l.rate - 1) / l.rate) 10

-- Whether `want` may pass, else the wait in milliseconds.
def acquire (l : RateLimiter) (now : Nat) (want : UInt64) : Option UInt64 × RateLimiter :=
  if l.isUnlimited || want = 0 then (none, l)
  else
    let want := min want l.capacity
    let tokens := l.refilled now
    if want ≤ tokens then (none, { l with tokens := tokens - want, checkpoint := now })
    else (some (l.waitMs (want - tokens)), { l with tokens := tokens, checkpoint := now })

end RateLimiter

section Exact

theorem toNat_saturatingMul (a b : UInt64) :
    (saturatingMul a b).toNat = min (a.toNat * b.toNat) u64Max := by
  rw [saturatingMul]
  split
  next h =>
    rw [UInt64.toNat_mul, min_eq_left h, Nat.mod_eq_of_lt]
    unfold u64Max at h
    omega
  next h =>
    rw [min_eq_right (by omega)]
    rfl

theorem toNat_saturatingAdd (a b : UInt64) :
    (saturatingAdd a b).toNat = min (a.toNat + b.toNat) u64Max := by
  rw [saturatingAdd]
  split
  next h =>
    rw [UInt64.toNat_add, min_eq_left h, Nat.mod_eq_of_lt]
    unfold u64Max at h
    omega
  next h =>
    rw [min_eq_right (by omega)]
    rfl

theorem toNat_min (a b : UInt64) : (min a b).toNat = min a.toNat b.toNat := by
  change (if a ≤ b then a else b).toNat = _
  split
  next h =>
    have hle := UInt64.le_iff_toNat_le.mp h
    omega
  next h =>
    have hlt := mt UInt64.le_iff_toNat_le.mpr h
    omega

theorem toNat_max (a b : UInt64) : (max a b).toNat = max a.toNat b.toNat := by
  change (if a ≤ b then b else a).toNat = _
  split
  next h =>
    have hle := UInt64.le_iff_toNat_le.mp h
    omega
  next h =>
    have hlt := mt UInt64.le_iff_toNat_le.mpr h
    omega

variable (l : RateLimiter)

theorem toNat_delta (now : Nat) :
    (l.delta now).toNat = min ((l.elapsedMs now).toNat * l.rate.toNat) u64Max / 1000 + 1 := by
  rw [RateLimiter.delta, UInt64.toNat_add, UInt64.toNat_div, toNat_saturatingMul, Nat.mod_eq_of_lt]
  · rfl
  · have hle := min_le_right ((l.elapsedMs now).toNat * l.rate.toNat) u64Max
    unfold u64Max at hle ⊢
    change _ / 1000 + 1 < _
    omega

theorem toNat_refilled (now : Nat) :
    (l.refilled now).toNat = min (l.tokens.toNat + (l.delta now).toNat) l.capacity.toNat := by
  have hcap := l.capacity.toNat_lt
  rw [RateLimiter.refilled, toNat_min, toNat_saturatingAdd]
  unfold u64Max
  omega

theorem toNat_waitMs (missing : UInt64) (hrate : l.rate ≠ 0) : (l.waitMs missing).toNat =
    max (min (min (missing.toNat * 1000) u64Max + (l.rate.toNat - 1)) u64Max / l.rate.toNat) 10 := by
  have hpos : 1 ≤ l.rate.toNat := by
    have hne : l.rate.toNat ≠ 0 := fun h => hrate (UInt64.toNat_inj.mp h)
    omega
  have hsub : (l.rate - 1).toNat = l.rate.toNat - 1 :=
    UInt64.toNat_sub_of_le _ _ (UInt64.le_iff_toNat_le.mpr hpos)
  rw [RateLimiter.waitMs, toNat_max, UInt64.toNat_div, toNat_saturatingAdd, toNat_saturatingMul, hsub]
  rfl

-- The same step in numbers without a width; it saturates where the code says so.
def acquireExact (capacity rate tokens elapsed want : Nat) : Option Nat × Nat :=
  if capacity = 0 ∨ rate = 0 ∨ want = 0 then (none, tokens)
  else
    let want := min want capacity
    let tokens := min (tokens + (min (elapsed * rate) u64Max / 1000 + 1)) capacity
    if want ≤ tokens then (none, tokens - want)
    else
      (some (max (min (min ((want - tokens) * 1000) u64Max + (rate - 1)) u64Max / rate) 10), tokens)

theorem toNat_eq_zero_iff (a : UInt64) : a.toNat = 0 ↔ a = 0 := by
  rw [← UInt64.toNat_inj]
  rfl

theorem acquire_exact (now : Nat) (want : UInt64)
    (helapsed : (now - l.checkpoint) / nanosPerMilli ≤ u64Max) :
    ((l.acquire now want).1.map UInt64.toNat, (l.acquire now want).2.tokens.toNat) =
      acquireExact l.capacity.toNat l.rate.toNat l.tokens.toNat
        ((now - l.checkpoint) / nanosPerMilli) want.toNat := by
  have hms : (l.elapsedMs now).toNat = (now - l.checkpoint) / nanosPerMilli := by
    rw [RateLimiter.elapsedMs, UInt64.toNat_ofNat', Nat.mod_eq_of_lt]
    unfold u64Max at helapsed
    omega
  have htokens := toNat_refilled l now
  rw [toNat_delta, hms] at htokens
  rw [RateLimiter.acquire, acquireExact]
  by_cases hfree : l.isUnlimited || want = 0
  · have hzero : l.capacity.toNat = 0 ∨ l.rate.toNat = 0 ∨ want.toNat = 0 := by
      simpa [RateLimiter.isUnlimited, toNat_eq_zero_iff, or_assoc] using hfree
    rw [if_pos hfree, if_pos hzero]
    rfl
  · have hnonzero : ¬ (l.capacity.toNat = 0 ∨ l.rate.toNat = 0 ∨ want.toNat = 0) := by
      simpa [RateLimiter.isUnlimited, toNat_eq_zero_iff, or_assoc] using hfree
    have hrate : l.rate ≠ 0 := by
      rw [ne_eq, ← toNat_eq_zero_iff]
      tauto
    rw [if_neg hfree, if_neg hnonzero]
    dsimp only
    rw [← htokens, ← toNat_min]
    by_cases hle : min want l.capacity ≤ l.refilled now
    · rw [if_pos hle, if_pos (UInt64.le_iff_toNat_le.mp hle)]
      simp only [Option.map_none, UInt64.toNat_sub_of_le _ _ hle]
    · have hlt := UInt64.le_of_lt (UInt64.not_le.mp hle)
      rw [if_neg hle, if_neg (fun h => hle (UInt64.le_iff_toNat_le.mpr h))]
      simp only [Option.map_some, toNat_waitMs l _ hrate, UInt64.toNat_sub_of_le _ _ hlt]

end Exact

end VeStorage.ADrive.Bandwidth
