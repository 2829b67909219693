import VeStorage.ADrive.Bandwidth.Acquire

namespace VeStorage.ADrive.Bandwidth
open Lib
open Lib.TokenBucket (Take Rule Takes costIn countIn)
open Relation (ReflTransGen)

section System

-- Bytes let through, and what their call was charged.
structure Passed where
  time : Nat
  bytes : Nat
  charged : Nat

structure State (s : Nat) where
  limiter : RateLimiter
  clock : Nat
  -- The end of a refused call's sleep, and its bytes.
  waiting : Fin s → Option (Nat × UInt64)
  calls : List Take
  passed : List Passed

variable {s : Nat}

def State.start (s : Nat) (limit : Int64) (now : Nat) : State s :=
  ⟨RateLimiter.new limit limit now, now, fun _ => none, [], []⟩

-- `throttle_bytes` and `throttle_body` of streams that share one limiter, calls of at most `B` bytes.
inductive Step (B : Nat) : State s → State s → Prop
  | empty (x : State s) (i : Fin s) (now : Nat) (hidle : x.waiting i = none) (hnow : x.clock ≤ now)
      (h : x.limiter.acquire now 0 = (none, x.limiter)) :
      Step B x { x with clock := now, passed := x.passed ++ [⟨now, 0, 0⟩] }
  | through (x : State s) (i : Fin s) (now : Nat) (bytes : UInt64) (limiter : RateLimiter)
      (hidle : x.waiting i = none) (hnow : x.clock ≤ now) (hsome : bytes ≠ 0) (hle : bytes.toNat ≤ B)
      (h : x.limiter.acquire now bytes = (none, limiter)) :
      Step B x { x with
        limiter := limiter
        clock := now
        calls := x.calls ++ [⟨now, (min bytes x.limiter.capacity).toNat⟩]
        passed := x.passed ++ [⟨now, bytes.toNat, (min bytes x.limiter.capacity).toNat⟩] }
  | refuse (x : State s) (i : Fin s) (now : Nat) (bytes wait : UInt64) (limiter : RateLimiter)
      (hidle : x.waiting i = none) (hnow : x.clock ≤ now) (hsome : bytes ≠ 0) (hle : bytes.toNat ≤ B)
      (h : x.limiter.acquire now bytes = (some wait, limiter)) :
      Step B x { x with
        limiter := limiter
        clock := now
        waiting := Function.update x.waiting i (some (now + wait.toNat * nanosPerMilli, bytes))
        calls := x.calls ++ [⟨now, 0⟩] }
  | wake (x : State s) (i : Fin s) (now deadline : Nat) (bytes : UInt64)
      (hwait : x.waiting i = some (deadline, bytes)) (hnow : x.clock ≤ now) (hdone : deadline ≤ now) :
      Step B x { x with
        clock := now
        waiting := Function.update x.waiting i none
        passed := x.passed ++ [⟨now, bytes.toNat, 0⟩] }

def Runs (limit : Int64) (s B : Nat) (x : State s) : Prop :=
  ∃ now, ReflTransGen (Step B) (State.start s limit now) x

namespace State

variable (x : State s) (start T : Nat)

-- The bytes let through in `T` milliseconds from `start`.
def bytesIn : Nat := windowSum start (start + T * nanosPerMilli) Passed.time Passed.bytes x.passed

-- The extra token of each call, and the bytes that no call was charged for.
def unpaidIn : Nat :=
  countIn start (start + T * nanosPerMilli) x.calls +
    windowSum start (start + T * nanosPerMilli) Passed.time (fun p => p.bytes - p.charged) x.passed

end State

-- `r` at once, `r` a second, `B` a stream and a constant for all runs.
def Limited (limit : Int64) (s B : Nat) : Prop :=
  ∃ C, ∀ x : State s, Runs limit s B x → ∀ start T,
    1000 * x.bytesIn start T ≤ 1000 * (limit.toUInt64.toNat + s * B + C) + limit.toUInt64.toNat * T

end System

section Charged

variable {s B : Nat} {limit : Int64} {x x' : State s}

theorem new_eq (h : 0 ≤ limit) (now : Nat) :
    RateLimiter.new limit limit now = ⟨limit.toUInt64, limit.toUInt64, 0, now⟩ := by
  have hneg : ¬ limit < 0 := Int64.not_lt.mpr h
  have hself : ¬ limit.toUInt64 < limit.toUInt64 := UInt64.lt_irrefl _
  simp only [RateLimiter.new, if_neg hneg, if_neg hself]

def ruleOf (limit : Int64) : Rule := ⟨limit.toUInt64.toNat, limit.toUInt64.toNat, 1000000000, 1⟩

theorem delta_le (l : RateLimiter) (now : Nat) : 1000000000 * (l.delta now).toNat ≤
    l.rate.toNat * (now - l.checkpoint) + 1000000000 * 1 := by
  rw [toNat_delta]
  have hms : (l.elapsedMs now).toNat * 1000000 ≤ now - l.checkpoint := by
    rw [RateLimiter.elapsedMs, UInt64.toNat_ofNat']
    exact (Nat.mul_le_mul_right _ (Nat.mod_le _ _)).trans (Nat.div_mul_le_self _ nanosPerMilli)
  have hrefill : 1000000 * ((l.elapsedMs now).toNat * l.rate.toNat) ≤
      l.rate.toNat * (now - l.checkpoint) := by
    calc 1000000 * ((l.elapsedMs now).toNat * l.rate.toNat)
        = l.rate.toNat * ((l.elapsedMs now).toNat * 1000000) := by ring
      _ ≤ l.rate.toNat * (now - l.checkpoint) := Nat.mul_le_mul_left _ hms
  have hmin := min_le_left ((l.elapsedMs now).toNat * l.rate.toNat) u64Max
  have hdiv := Nat.div_mul_le_self (min ((l.elapsedMs now).toNat * l.rate.toNat) u64Max) 1000
  omega

structure Inv (limit : Int64) (x : State s) : Prop where
  capacity : x.limiter.capacity = limit.toUInt64
  rate : x.limiter.rate = limit.toUInt64
  clock : x.limiter.checkpoint ≤ x.clock
  takes : Takes (ruleOf limit) x.calls x.limiter.tokens.toNat x.limiter.checkpoint
  charged : ∀ start stop, windowSum start stop Passed.time Passed.charged x.passed =
    costIn start stop x.calls
  covered : ∀ p ∈ x.passed, p.charged ≤ p.bytes

theorem Inv.start (h : 0 ≤ limit) (now : Nat) : Inv limit (State.start s limit now) := by
  rw [State.start, new_eq h]
  exact ⟨rfl, rfl, le_rfl, .start _ _ (Nat.zero_le _), fun _ _ => rfl, by simp⟩

theorem acquire_none {l l' : RateLimiter} {now : Nat} {want : UInt64} (hw : want ≠ 0)
    (hu : l.isUnlimited = false) (h : l.acquire now want = (none, l')) :
    min want l.capacity ≤ l.refilled now ∧
      l' = { l with tokens := l.refilled now - min want l.capacity, checkpoint := now } := by
  rw [RateLimiter.acquire, if_neg (by simp [hu, hw])] at h
  dsimp only at h
  split at h
  next hle => exact ⟨hle, (Prod.mk.inj h).2.symm⟩
  next => cases (Prod.mk.inj h).1

theorem acquire_some {l l' : RateLimiter} {now : Nat} {want wait : UInt64}
    (h : l.acquire now want = (some wait, l')) :
    l' = { l with tokens := l.refilled now, checkpoint := now } ∧
      wait = l.waitMs (min want l.capacity - l.refilled now) := by
  rw [RateLimiter.acquire] at h
  split at h
  next => cases (Prod.mk.inj h).1
  next =>
    dsimp only at h
    split at h
    next => cases (Prod.mk.inj h).1
    next => exact ⟨(Prod.mk.inj h).2.symm, (Option.some.inj (Prod.mk.inj h).1).symm⟩

theorem Inv.refilled (hi : Inv limit x) (now : Nat) : (x.limiter.refilled now).toNat =
    min (x.limiter.tokens.toNat + (x.limiter.delta now).toNat) (ruleOf limit).capacity := by
  rw [toNat_refilled, hi.capacity]
  rfl

theorem Inv.take (hi : Inv limit x) {now cost : Nat} (hnow : x.clock ≤ now)
    (hcost : cost ≤ (x.limiter.refilled now).toNat) :
    Takes (ruleOf limit) (x.calls ++ [⟨now, cost⟩]) ((x.limiter.refilled now).toNat - cost) now := by
  rw [hi.refilled] at hcost ⊢
  refine .take _ _ _ _ _ _ hi.takes (hi.clock.trans hnow) ?_ hcost
  have hgain := delta_le x.limiter now
  rwa [hi.rate] at hgain

theorem Inv.step (hlimit : limit.toUInt64 ≠ 0) (hi : Inv limit x) (h : Step B x x') : Inv limit x' := by
  cases h with
  | empty i now hidle hnow h =>
    refine ⟨hi.capacity, hi.rate, hi.clock.trans hnow, hi.takes, fun start stop => ?_, ?_⟩
    · rw [windowSum_append, hi.charged, windowSum_singleton]
      simp
    · exact List.forall_mem_append.mpr ⟨hi.covered, List.forall_mem_singleton.mpr le_rfl⟩
  | through i now bytes limiter hidle hnow hsome hle h =>
    have hu : x.limiter.isUnlimited = false := by
      simp [RateLimiter.isUnlimited, hi.capacity, hi.rate, hlimit]
    obtain ⟨hle', rfl⟩ := acquire_none hsome hu h
    have hcost := UInt64.le_iff_toNat_le.mp hle'
    have htakes := hi.take hnow hcost
    rw [← UInt64.toNat_sub_of_le _ _ hle'] at htakes
    refine ⟨hi.capacity, hi.rate, le_rfl, htakes, fun start stop => ?_, ?_⟩
    · rw [windowSum_append, costIn, windowSum_append, hi.charged, windowSum_singleton,
        windowSum_singleton]
    · refine List.forall_mem_append.mpr ⟨hi.covered, List.forall_mem_singleton.mpr ?_⟩
      rw [toNat_min]
      exact min_le_left _ _
  | refuse i now bytes wait limiter hidle hnow hsome hle h =>
    obtain ⟨rfl, -⟩ := acquire_some h
    have htakes := hi.take hnow (Nat.zero_le _)
    refine ⟨hi.capacity, hi.rate, le_rfl, htakes, fun start stop => ?_, hi.covered⟩
    rw [hi.charged, costIn, costIn, windowSum_append, windowSum_singleton]
    simp
  | wake i now deadline bytes hwait hnow hdone =>
    refine ⟨hi.capacity, hi.rate, hi.clock.trans hnow, hi.takes, fun start stop => ?_, ?_⟩
    · rw [windowSum_append, hi.charged, windowSum_singleton]
      simp
    · exact List.forall_mem_append.mpr ⟨hi.covered, List.forall_mem_singleton.mpr (Nat.zero_le _)⟩

theorem Runs.inv (h : 0 ≤ limit) (hlimit : limit.toUInt64 ≠ 0) (hx : Runs limit s B x) : Inv limit x := by
  obtain ⟨now, hx⟩ := hx
  induction hx with
  | refl => exact Inv.start h now
  | tail _ hstep ih => exact ih.step hlimit hstep

theorem bytesIn_le (h : 0 ≤ limit) (hlimit : limit.toUInt64 ≠ 0) (hx : Runs limit s B x) (start T : Nat) :
    1000 * x.bytesIn start T ≤
      1000 * (limit.toUInt64.toNat + x.unpaidIn start T) + limit.toUInt64.toNat * T := by
  have hi := hx.inv h hlimit
  have hcost := hi.takes.cost_le start (start + T * nanosPerMilli)
  have hsplit : x.bytesIn start T = costIn start (start + T * nanosPerMilli) x.calls +
      windowSum start (start + T * nanosPerMilli) Passed.time (fun p => p.bytes - p.charged) x.passed := by
    rw [← hi.charged, ← windowSum_add, State.bytesIn]
    refine windowSum_congr fun p hp => ?_
    have := hi.covered p hp
    omega
  have hspan : (ruleOf limit).rate * (start + T * nanosPerMilli - start) =
      1000000 * (limit.toUInt64.toNat * T) := by
    rw [Nat.add_sub_cancel_left, ruleOf, nanosPerMilli]
    ring
  rw [hspan] at hcost
  simp only [ruleOf, Nat.one_mul] at hcost
  rw [hsplit, State.unpaidIn]
  omega

end Charged

section Burst

variable {s B : Nat} {limit : Int64}

theorem acquire_one (hlimit : limit.toUInt64 ≠ 0) : RateLimiter.acquire
    ⟨limit.toUInt64, limit.toUInt64, 0, 0⟩ 0 1 = (none, ⟨limit.toUInt64, limit.toUInt64, 0, 0⟩) := by
  have hrefilled : RateLimiter.refilled ⟨limit.toUInt64, limit.toUInt64, 0, 0⟩ 0 =
      min 1 limit.toUInt64 := by
    rw [← UInt64.toNat_inj, toNat_refilled, toNat_delta, toNat_min]
    simp [RateLimiter.elapsedMs]
  have hu : RateLimiter.isUnlimited ⟨limit.toUInt64, limit.toUInt64, 0, 0⟩ = false := by
    simp [RateLimiter.isUnlimited, hlimit]
  rw [RateLimiter.acquire, hu, hrefilled]
  simp

-- Calls of one byte at one instant: each gains the token that it spends.
theorem burst (h : 0 ≤ limit) (hlimit : limit.toUInt64 ≠ 0) (hs : 0 < s) (hB : 0 < B) (n : Nat) :
    ∃ x : State s, Runs limit s B x ∧ x.limiter = ⟨limit.toUInt64, limit.toUInt64, 0, 0⟩ ∧
      x.clock = 0 ∧ (∀ i, x.waiting i = none) ∧ x.bytesIn 0 0 = n := by
  induction n with
  | zero => exact ⟨State.start s limit 0, ⟨0, .refl⟩, new_eq h 0, rfl, fun _ => rfl, rfl⟩
  | succ n ih =>
    obtain ⟨x, ⟨now, hx⟩, hlimiter, hclock, hidle, hbytes⟩ := ih
    have hacquire : x.limiter.acquire 0 1 = (none, x.limiter) := by rw [hlimiter, acquire_one hlimit]
    have hstep := Step.through x ⟨0, hs⟩ 0 1 x.limiter (hidle _) hclock.le (by decide) hB hacquire
    refine ⟨_, ⟨now, hx.tail hstep⟩, hlimiter, rfl, hidle, ?_⟩
    change windowSum 0 (0 + 0 * nanosPerMilli) Passed.time Passed.bytes
      (x.passed ++ [⟨0, 1, (min 1 x.limiter.capacity).toNat⟩]) = n + 1
    rw [windowSum_append, windowSum_singleton, if_pos ⟨le_rfl, Nat.zero_le _⟩]
    exact congrArg (· + 1) hbytes

-- No call passes more than its own bytes, and a system without streams passes none.
structure Sized (B : Nat) (x : State s) : Prop where
  passed : ∀ p ∈ x.passed, p.bytes ≤ B
  waiting : ∀ i deadline bytes, x.waiting i = some (deadline, bytes) → bytes.toNat ≤ B
  streams : s = 0 → x.passed = []

theorem Sized.step {x x' : State s} (hi : Sized B x) (h : Step B x x') : Sized B x' := by
  have hstream : ∀ i : Fin s, s ≠ 0 := fun i hs => (hs ▸ i).elim0
  cases h with
  | empty i now hidle hnow h =>
    exact ⟨List.forall_mem_append.mpr ⟨hi.passed, List.forall_mem_singleton.mpr (Nat.zero_le _)⟩,
      hi.waiting, fun hs => absurd hs (hstream i)⟩
  | through i now bytes limiter hidle hnow hsome hle h =>
    exact ⟨List.forall_mem_append.mpr ⟨hi.passed, List.forall_mem_singleton.mpr hle⟩,
      hi.waiting, fun hs => absurd hs (hstream i)⟩
  | refuse i now bytes wait limiter hidle hnow hsome hle h =>
    refine ⟨hi.passed, fun j deadline held hj => ?_, hi.streams⟩
    dsimp only at hj
    by_cases hji : j = i
    · rw [hji, Function.update_self, Option.some.injEq, Prod.mk.injEq] at hj
      exact hj.2 ▸ hle
    · rw [Function.update_of_ne hji] at hj
      exact hi.waiting j deadline held hj
  | wake i now deadline bytes hwait hnow hdone =>
    refine ⟨List.forall_mem_append.mpr ⟨hi.passed, List.forall_mem_singleton.mpr
      (hi.waiting i deadline bytes hwait)⟩, fun j deadline held hj => ?_,
      fun hs => absurd hs (hstream i)⟩
    dsimp only at hj
    by_cases hji : j = i
    · rw [hji, Function.update_self] at hj
      cases hj
    · rw [Function.update_of_ne hji] at hj
      exact hi.waiting j deadline held hj

theorem Runs.sized {x : State s} (h : Runs limit s B x) : Sized B x := by
  obtain ⟨now, h⟩ := h
  induction h with
  | refl => exact ⟨by simp [State.start], (fun _ _ _ hw => by cases hw), fun _ => rfl⟩
  | tail _ hstep ih => exact ih.step hstep

theorem limited_iff (h : 0 ≤ limit) (hlimit : limit.toUInt64 ≠ 0) : Limited limit s B ↔ s = 0 ∨ B = 0 := by
  constructor
  · rintro ⟨C, hC⟩
    by_contra hsome
    obtain ⟨hs, hB⟩ := not_or.mp hsome
    obtain ⟨x, hx, -, -, -, hbytes⟩ := burst h hlimit (Nat.pos_of_ne_zero hs) (Nat.pos_of_ne_zero hB)
      (limit.toUInt64.toNat + s * B + C + 1)
    have hbound := hC x hx 0 0
    rw [hbytes] at hbound
    omega
  · rintro hnone
    refine ⟨0, fun x hx start T => ?_⟩
    have hsilent : ∀ p ∈ x.passed, p.bytes = 0 := by
      rcases hnone with rfl | rfl
      · simp [hx.sized.streams rfl]
      · exact fun p hp => Nat.le_zero.mp (hx.sized.passed p hp)
    have hzero : x.bytesIn start T = 0 := windowSum_zero hsilent
    rw [hzero]
    exact Nat.zero_le _

theorem toUInt64_ne_zero (h : 0 < limit) : limit.toUInt64 ≠ 0 := by
  intro hz
  have hbits : limit.toBitVec = 0 := congrArg UInt64.toBitVec hz
  have hzero : limit = 0 := Int64.toBitVec_inj.mp hbits
  exact absurd (hzero ▸ h) (by decide)

-- The machine arithmetic is exact; no constant bounds the bytes of a stream that sends any; and a
-- window passes the limit at once, the rate of the window, and its unpaid tokens and bytes at most.
theorem bandwidth_limited_iff (limit : Int64) (h : 0 < limit) (s B : Nat) :
    (∀ (l : RateLimiter) (now : Nat) (want : UInt64),
      (now - l.checkpoint) / nanosPerMilli ≤ u64Max →
      ((l.acquire now want).1.map UInt64.toNat, (l.acquire now want).2.tokens.toNat) =
        acquireExact l.capacity.toNat l.rate.toNat l.tokens.toNat
          ((now - l.checkpoint) / nanosPerMilli) want.toNat) ∧
    (Limited limit s B ↔ s = 0 ∨ B = 0) ∧
    ∀ (x : State s) (start T : Nat), Runs limit s B x →
      1000 * x.bytesIn start T ≤
        1000 * (limit.toUInt64.toNat + x.unpaidIn start T) + limit.toUInt64.toNat * T := by
  have hle : 0 ≤ limit := Int64.le_of_lt h
  have hne := toUInt64_ne_zero h
  exact ⟨fun l now want helapsed => acquire_exact l now want helapsed, limited_iff hle hne,
    fun x start T hx => bytesIn_le hle hne hx start T⟩

theorem bandwidth_limited_iff_megabyte :
    (∀ (l : RateLimiter) (now : Nat) (want : UInt64),
      (now - l.checkpoint) / nanosPerMilli ≤ u64Max →
      ((l.acquire now want).1.map UInt64.toNat, (l.acquire now want).2.tokens.toNat) =
        acquireExact l.capacity.toNat l.rate.toNat l.tokens.toNat
          ((now - l.checkpoint) / nanosPerMilli) want.toNat) ∧
    (Limited 1000000 4 16384 ↔ 4 = 0 ∨ 16384 = 0) ∧
    ∀ (x : State 4) (start T : Nat), Runs 1000000 4 16384 x →
      1000 * x.bytesIn start T ≤
        1000 * ((1000000 : Int64).toUInt64.toNat + x.unpaidIn start T) +
          (1000000 : Int64).toUInt64.toNat * T :=
  bandwidth_limited_iff 1000000 (by decide) 4 16384

end Burst

section Doubled

theorem elapsedMs_after (capacity rate tokens : UInt64) (t n : Nat) :
    RateLimiter.elapsedMs ⟨capacity, rate, tokens, t⟩ (t + n) = UInt64.ofNat (n / nanosPerMilli) := by
  rw [RateLimiter.elapsedMs, Nat.add_sub_cancel_left]

theorem refused_at (t : Nat) :
    RateLimiter.acquire ⟨1000, 1000, 0, t⟩ t 1000 = (some 999, ⟨1000, 1000, 1, t⟩) := by
  have hrefilled : RateLimiter.refilled ⟨1000, 1000, 0, t⟩ t = 1 := by
    have hms := elapsedMs_after 1000 1000 0 t 0
    rw [Nat.add_zero] at hms
    rw [RateLimiter.refilled, RateLimiter.delta, hms]
    change min (saturatingAdd 0 (saturatingMul (UInt64.ofNat (0 / nanosPerMilli)) 1000 / 1000 + 1))
      1000 = 1
    decide
  have hlow : ¬ min (1000 : UInt64) 1000 ≤ 1 := by decide
  have hwait : RateLimiter.waitMs ⟨1000, 1000, 0, t⟩ (min 1000 1000 - 1) = 999 := by
    change max (saturatingAdd (saturatingMul (min 1000 1000 - 1) 1000) (1000 - 1) / 1000) 10 = 999
    decide
  rw [RateLimiter.acquire, if_neg (by simp [RateLimiter.isUnlimited])]
  dsimp only
  rw [hrefilled, if_neg hlow, hwait]

theorem allowed_at (t : Nat) :
    RateLimiter.acquire ⟨1000, 1000, 1, t⟩ (t + 1000000000) 1000 =
      (none, ⟨1000, 1000, 0, t + 1000000000⟩) := by
  have hrefilled : RateLimiter.refilled ⟨1000, 1000, 1, t⟩ (t + 1000000000) = 1000 := by
    rw [RateLimiter.refilled, RateLimiter.delta, elapsedMs_after]
    change min (saturatingAdd 1
      (saturatingMul (UInt64.ofNat (1000000000 / nanosPerMilli)) 1000 / 1000 + 1)) 1000 = 1000
    decide
  have hfull : min (1000 : UInt64) 1000 ≤ 1000 := by decide
  rw [RateLimiter.acquire, if_neg (by simp [RateLimiter.isUnlimited])]
  dsimp only
  rw [hrefilled, if_pos hfull]
  rfl

theorem second_le {k T : Nat} (h : k * 1000 ≤ T) : k * 1000000000 ≤ 0 + T * nanosPerMilli := by
  calc k * 1000000000
      = k * 1000 * nanosPerMilli := by rw [Nat.mul_assoc]; rfl
    _ ≤ T * nanosPerMilli := Nat.mul_le_mul_right _ h
    _ = 0 + T * nanosPerMilli := (Nat.zero_add _).symm

-- One stream that sends a second's worth with each call: a refused call passes after its sleep without
-- being charged, and the next one finds the bucket full.
theorem doubled (k : Nat) : ∃ x : State 1, Runs 1000 1 1000 x ∧
    x.limiter = ⟨1000, 1000, 0, k * 1000000000⟩ ∧ x.clock = k * 1000000000 ∧ x.waiting 0 = none ∧
    ∀ T, k * 1000 ≤ T → x.bytesIn 0 T = 2000 * k := by
  induction k with
  | zero => exact ⟨State.start 1 1000 0, ⟨0, .refl⟩, rfl, rfl, rfl, fun _ _ => rfl⟩
  | succ k ih =>
    obtain ⟨x, ⟨now, hx⟩, hlimiter, hclock, hidle, hbytes⟩ := ih
    obtain ⟨y, hxy, hylimiter, hyclock, hywait, hypassed⟩ : ∃ y : State 1, Step 1000 x y ∧
        y.limiter = ⟨1000, 1000, 1, k * 1000000000⟩ ∧ y.clock = k * 1000000000 ∧
        y.waiting 0 = some (k * 1000000000 + 999000000, 1000) ∧ y.passed = x.passed := by
      have hrefused : x.limiter.acquire (k * 1000000000) 1000 =
          (some 999, ⟨1000, 1000, 1, k * 1000000000⟩) := by rw [hlimiter, refused_at]
      refine ⟨_, .refuse x 0 _ 1000 999 _ hidle hclock.le (by decide) (by decide) hrefused, rfl, rfl,
        ?_, rfl⟩
      dsimp only
      rw [Function.update_self]
      rfl
    have hnext : (k + 1) * 1000000000 = k * 1000000000 + 1000000000 := by ring
    obtain ⟨z, hyz, hzlimiter, hzclock, hzwait, hzpassed⟩ : ∃ z : State 1, Step 1000 y z ∧
        z.limiter = ⟨1000, 1000, 1, k * 1000000000⟩ ∧ z.clock = (k + 1) * 1000000000 ∧
        z.waiting 0 = none ∧ z.passed = x.passed ++ [⟨(k + 1) * 1000000000, 1000, 0⟩] := by
      refine ⟨_, .wake y 0 ((k + 1) * 1000000000) _ 1000 hywait ?_ ?_, hylimiter, rfl, ?_, ?_⟩
      · rw [hyclock, hnext]
        omega
      · rw [hnext]
        omega
      · dsimp only
        rw [Function.update_self]
      · dsimp only
        rw [hypassed]
        rfl
    have hallowed : z.limiter.acquire ((k + 1) * 1000000000) 1000 =
        (none, ⟨1000, 1000, 0, (k + 1) * 1000000000⟩) := by rw [hzlimiter, hnext, allowed_at]
    have hpass := Step.through (B := 1000) z 0 _ 1000 _ hzwait hzclock.le (by decide)
      (show (1000 : UInt64).toNat ≤ 1000 by decide) hallowed
    refine ⟨_, ⟨now, ((hx.tail hxy).tail hyz).tail hpass⟩, rfl, rfl, hzwait, fun T hT => ?_⟩
    have hold := hbytes T ((Nat.mul_le_mul_right 1000 k.le_succ).trans hT)
    change windowSum 0 (0 + T * nanosPerMilli) Passed.time Passed.bytes
      (z.passed ++ [⟨(k + 1) * 1000000000, 1000, _⟩]) = _
    rw [hzpassed, windowSum_append, windowSum_append, windowSum_singleton, windowSum_singleton,
      if_pos ⟨Nat.zero_le _, second_le hT⟩]
    rw [State.bytesIn] at hold
    dsimp only
    omega

theorem bandwidth_exceeded : ¬ Limited 1000 1 1000 := by
  rintro ⟨C, hC⟩
  obtain ⟨x, hx, -, -, -, hbytes⟩ := doubled (C + 3)
  have hbound := hC x hx 0 ((C + 3) * 1000)
  rw [hbytes _ le_rfl] at hbound
  have hrate : (1000 : Int64).toUInt64.toNat = 1000 := by decide
  rw [hrate] at hbound
  omega

end Doubled

end VeStorage.ADrive.Bandwidth
