import VeStorage.Lib.Pacing
import Mathlib.Algebra.Order.Floor.Div
import Mathlib.Logic.Relation

namespace VeStorage.ADrive.ShareContent
open Lib
open Lib.Pacing (Paced paced_nil)
open Relation (ReflTransGen)

def nanosPerSec : Nat := 1000000000

structure Duration where
  secs : UInt64
  nanos : UInt32
  lt : nanos.toNat < nanosPerSec

namespace Duration

-- `none` is the panic of an overflow in the seconds.
def new (secs : UInt64) (nanos : UInt32) : Option Duration :=
  if h : nanos.toNat < nanosPerSec then some ⟨secs, nanos, h⟩
  else if secs.toNat + nanos.toNat / nanosPerSec < 2 ^ 64 then
    some ⟨secs + UInt64.ofNat (nanos.toNat / nanosPerSec),
      UInt32.ofNat (nanos.toNat % nanosPerSec), by
        have hlt := Nat.mod_lt nanos.toNat (show 0 < nanosPerSec by decide)
        rw [UInt32.toNat_ofNat']
        exact (Nat.mod_le _ _).trans_lt hlt⟩
  else none

def asNanos (d : Duration) : Nat := d.secs.toNat * nanosPerSec + d.nanos.toNat

end Duration

-- Instants are nanoseconds of a clock whose seconds are an `i64`.
def instantMax : Nat := (2 ^ 63 - 1) * nanosPerSec + (nanosPerSec - 1)

def checkedAdd (instant : Nat) (duration : Duration) : Option Nat :=
  if instant + duration.asNanos ≤ instantMax then some (instant + duration.asNanos) else none

structure BandwidthLimiter where
  bytesPerSecond : UInt64
  nextAvailable : Nat

namespace BandwidthLimiter

variable (l : BandwidthLimiter)

def new (bytesPerSecond : UInt64) (now : Nat) : BandwidthLimiter := ⟨bytesPerSecond, now⟩

def remainderNanos (bytes : UInt64) : Nat :=
  ((bytes % l.bytesPerSecond).toNat * nanosPerSec) ⌈/⌉ l.bytesPerSecond.toNat

def duration (bytes : UInt64) : Option Duration :=
  Duration.new (bytes / l.bytesPerSecond) (UInt32.ofNat (l.remainderNanos bytes))

-- The deadline of this chunk; a reservation that is refused leaves the limiter as it is.
def reserve (now : Nat) (bytes : UInt64) : Option (Nat × BandwidthLimiter) :=
  (l.duration bytes).bind fun duration =>
    (checkedAdd (max l.nextAvailable now) duration).map fun next => (next, { l with nextAvailable := next })

end BandwidthLimiter

section Reserve

variable {l : BandwidthLimiter} {bytes : UInt64}

theorem Duration.new_of_le {secs : UInt64} {nanos : UInt32} (hnanos : nanos.toNat ≤ nanosPerSec)
    (hroom : nanos.toNat = nanosPerSec → secs.toNat + 1 < 2 ^ 64) :
    ∃ d, Duration.new secs nanos = some d ∧ d.asNanos = secs.toNat * nanosPerSec + nanos.toNat := by
  rcases hnanos.lt_or_eq with hlt | heq
  · exact ⟨⟨secs, nanos, hlt⟩, by rw [Duration.new, dif_pos hlt], rfl⟩
  · have hfull : ¬ nanos.toNat < nanosPerSec := by omega
    have hone : nanos.toNat / nanosPerSec = 1 := by rw [heq]; rfl
    have hrest : nanos.toNat % nanosPerSec = 0 := by rw [heq, Nat.mod_self]
    have hfits := hroom heq
    refine ⟨_, by rw [Duration.new, dif_neg hfull, if_pos (by rwa [hone])], ?_⟩
    rw [Duration.asNanos]
    dsimp only
    rw [hone, hrest, heq, UInt64.toNat_add]
    have hcarry : (secs.toNat + (UInt64.ofNat 1).toNat) % 2 ^ 64 = secs.toNat + 1 := Nat.mod_eq_of_lt hfits
    have hzero : (UInt32.ofNat 0).toNat = 0 := rfl
    rw [hcarry, hzero, Nat.add_mul, Nat.one_mul, Nat.add_zero]

theorem remainderNanos_le (h : 0 < l.bytesPerSecond) (bytes : UInt64) :
    l.remainderNanos bytes ≤ nanosPerSec := by
  have hpos : 0 < l.bytesPerSecond.toNat := h
  rw [BandwidthLimiter.remainderNanos, ceilDiv_le_iff_le_smul hpos, smul_eq_mul]
  refine Nat.mul_le_mul_right _ ?_
  rw [UInt64.toNat_mod]
  exact (Nat.mod_lt _ hpos).le

-- A full second is carried only above a rate of one, where the whole seconds leave room for it.
theorem duration_spec (h : 0 < l.bytesPerSecond) (bytes : UInt64) :
    ∃ d, l.duration bytes = some d ∧ bytes.toNat * nanosPerSec ≤ l.bytesPerSecond.toNat * d.asNanos := by
  have hpos : 0 < l.bytesPerSecond.toNat := h
  have hle := remainderNanos_le h bytes
  have hcast : (UInt32.ofNat (l.remainderNanos bytes)).toNat = l.remainderNanos bytes := by
    rw [UInt32.toNat_ofNat', Nat.mod_eq_of_lt (hle.trans_lt (by decide))]
  have hroom : (UInt32.ofNat (l.remainderNanos bytes)).toNat = nanosPerSec →
      (bytes / l.bytesPerSecond).toNat + 1 < 2 ^ 64 := by
    intro hfull
    rw [UInt64.toNat_div]
    rw [hcast] at hfull
    by_cases hone : l.bytesPerSecond.toNat = 1
    · rw [BandwidthLimiter.remainderNanos, UInt64.toNat_mod, hone, Nat.mod_one] at hfull
      simp [nanosPerSec] at hfull
    · have hlt := bytes.toNat_lt
      have hhalf : bytes.toNat / l.bytesPerSecond.toNat ≤ bytes.toNat / 2 :=
        Nat.div_le_div_left (by omega) (by decide)
      omega
  obtain ⟨d, hd, hnanos⟩ := Duration.new_of_le (by rwa [hcast]) hroom
  refine ⟨d, hd, ?_⟩
  rw [hnanos, hcast, UInt64.toNat_div]
  have hceil : (bytes.toNat % l.bytesPerSecond.toNat) * nanosPerSec ≤
      l.bytesPerSecond.toNat * l.remainderNanos bytes := by
    have := le_smul_ceilDiv (b := (bytes % l.bytesPerSecond).toNat * nanosPerSec) hpos
    rwa [smul_eq_mul, UInt64.toNat_mod] at this
  calc bytes.toNat * nanosPerSec
      = (l.bytesPerSecond.toNat * (bytes.toNat / l.bytesPerSecond.toNat) +
          bytes.toNat % l.bytesPerSecond.toNat) * nanosPerSec := by rw [Nat.div_add_mod]
    _ = l.bytesPerSecond.toNat * (bytes.toNat / l.bytesPerSecond.toNat * nanosPerSec) +
          bytes.toNat % l.bytesPerSecond.toNat * nanosPerSec := by rw [Nat.add_mul, Nat.mul_assoc]
    _ ≤ l.bytesPerSecond.toNat * (bytes.toNat / l.bytesPerSecond.toNat * nanosPerSec) +
          l.bytesPerSecond.toNat * l.remainderNanos bytes := Nat.add_le_add_left hceil _
    _ = _ := (Nat.mul_add _ _ _).symm

theorem reserve_some (h : 0 < l.bytesPerSecond) {now deadline : Nat} {l' : BandwidthLimiter}
    (hr : l.reserve now bytes = some (deadline, l')) :
    l' = { l with nextAvailable := deadline } ∧ now ≤ deadline ∧ l.nextAvailable ≤ deadline ∧
      l.bytesPerSecond.toNat * l.nextAvailable + nanosPerSec * bytes.toNat ≤
        l.bytesPerSecond.toNat * deadline := by
  obtain ⟨d, hd, hcost⟩ := duration_spec h bytes
  rw [BandwidthLimiter.reserve, hd, Option.bind_some] at hr
  obtain ⟨next, hnext, heq⟩ := Option.map_eq_some_iff.mp hr
  obtain ⟨rfl, rfl⟩ := Prod.mk.inj heq
  rw [checkedAdd] at hnext
  split at hnext
  case isFalse => cases hnext
  obtain rfl := Option.some.inj hnext
  refine ⟨rfl, by omega, by omega, ?_⟩
  have hmax := Nat.mul_le_mul_left l.bytesPerSecond.toNat (le_max_left l.nextAvailable now)
  rw [Nat.mul_add, Nat.mul_comm nanosPerSec]
  omega

-- The remainder of this chunk is rounded up to a whole second.
example : (BandwidthLimiter.new 2000000000 0).remainderNanos 1999999999 = 1000000000 := by decide

end Reserve

section Runs

structure Reservation where
  bytes : UInt64
  deadline : Nat

structure Release where
  reservation : Reservation
  time : Nat

structure State where
  limiter : BandwidthLimiter
  clock : Nat
  sleeping : List Reservation
  reserved : List Reservation
  released : List Release

def State.start (bytesPerSecond : UInt64) (now : Nat) : State :=
  ⟨.new bytesPerSecond now, now, [], [], []⟩

-- Any number of streams call `consume`; a cancelled call stays asleep.
inductive Step : State → State → Prop
  | reserve (x : State) (now : Nat) (bytes : UInt64) (deadline : Nat) (limiter : BandwidthLimiter)
      (hnow : x.clock ≤ now) (h : x.limiter.reserve now bytes = some (deadline, limiter)) :
      Step x { x with
        limiter := limiter
        clock := now
        sleeping := ⟨bytes, deadline⟩ :: x.sleeping
        reserved := x.reserved ++ [⟨bytes, deadline⟩] }
  | refuse (x : State) (now : Nat) (bytes : UInt64) (hnow : x.clock ≤ now)
      (h : x.limiter.reserve now bytes = none) : Step x { x with clock := now }
  | wake (x : State) (now : Nat) (before after : List Reservation) (r : Reservation)
      (hnow : x.clock ≤ now) (hsleeping : x.sleeping = before ++ r :: after) (hdone : r.deadline ≤ now) :
      Step x { x with
        clock := now
        sleeping := before ++ after
        released := x.released ++ [⟨r, now⟩] }

def Runs (bytesPerSecond : UInt64) (x : State) : Prop :=
  ∃ now, ReflTransGen Step (State.start bytesPerSecond now) x

def State.releasedIn (x : State) (start stop : Nat) : Nat :=
  windowSum start stop Release.time (fun r => r.reservation.bytes.toNat) x.released

variable {bytesPerSecond : UInt64} {x x' : State}

structure Inv (bytesPerSecond : UInt64) (x : State) : Prop where
  rate : x.limiter.bytesPerSecond = bytesPerSecond
  paced : Paced bytesPerSecond.toNat nanosPerSec Reservation.deadline (fun r => r.bytes.toNat) x.reserved
  past : ∀ r ∈ x.reserved, r.deadline ≤ x.limiter.nextAvailable
  kept : x.reserved.Perm (x.sleeping ++ x.released.map Release.reservation)
  waited : ∀ r ∈ x.released, r.reservation.deadline ≤ r.time

theorem Inv.start (bytesPerSecond : UInt64) (now : Nat) :
    Inv bytesPerSecond (State.start bytesPerSecond now) where
  rate := rfl
  paced := paced_nil
  past := by simp [State.start]
  kept := by simp [State.start]
  waited := by simp [State.start]

theorem Inv.step (h : 0 < bytesPerSecond) (hi : Inv bytesPerSecond x) (hstep : Step x x') :
    Inv bytesPerSecond x' := by
  cases hstep with
  | reserve now bytes deadline limiter hnow hr =>
    obtain ⟨rfl, -, hlater, hcost⟩ := reserve_some (by rwa [hi.rate]) hr
    rw [hi.rate] at hcost
    refine ⟨hi.rate, hi.paced.concat hi.past hcost, fun r hmem => ?_, ?_, hi.waited⟩
    · rcases List.mem_append.mp hmem with hmem | hmem
      · exact (hi.past r hmem).trans hlater
      · rw [List.mem_singleton.mp hmem]
    · exact (List.perm_append_singleton _ _).trans (hi.kept.cons _)
  | refuse now bytes hnow hr => exact ⟨hi.rate, hi.paced, hi.past, hi.kept, hi.waited⟩
  | wake now before after r hnow hsleeping hdone =>
    refine ⟨hi.rate, hi.paced, hi.past, ?_, fun released hmem => ?_⟩
    · have hkept := hi.kept
      rw [hsleeping, List.append_assoc, List.cons_append] at hkept
      have hmove := hkept.trans List.perm_middle
      dsimp only
      rw [List.map_append, List.map_singleton, ← List.append_assoc, List.append_assoc before after]
      exact hmove.trans (List.perm_append_singleton r _).symm
    · rcases List.mem_append.mp hmem with hmem | hmem
      · exact hi.waited released hmem
      · rw [List.mem_singleton.mp hmem]
        exact hdone

theorem Inv.run (h : 0 < bytesPerSecond) (hx : Runs bytesPerSecond x) : Inv bytesPerSecond x := by
  obtain ⟨now, hx⟩ := hx
  induction hx with
  | refl => exact Inv.start bytesPerSecond now
  | tail _ hstep ih => exact ih.step h hstep

-- Chunks released at most `late` after their deadlines had their deadlines in the longer window.
theorem Inv.releasedIn_le (hi : Inv bytesPerSecond x) {start stop late : Nat}
    (hlate : ∀ r ∈ x.released, r.time ≤ r.reservation.deadline + late) :
    x.releasedIn start stop ≤
      windowSum (start - late) stop Reservation.deadline (fun r => r.bytes.toNat) x.reserved := by
  rw [windowSum_perm hi.kept, windowSum_append, windowSum_map]
  refine le_trans ?_ (Nat.le_add_left _ _)
  refine windowSum_le fun r hr hstart hstop => ?_
  have hdone := hi.waited r hr
  have hsoon := hlate r hr
  omega

theorem remainderNanos_lt (h : 0 < x.limiter.bytesPerSecond) (bytes : UInt64) :
    x.limiter.remainderNanos bytes < 2 ^ 32 :=
  (remainderNanos_le h bytes).trans_lt (by decide)

-- Chunks are released at their deadlines, or up to `late` after them.
theorem reservations_paced (bytesPerSecond : UInt64) (h : 0 < bytesPerSecond) (x : State)
    (hx : Runs bytesPerSecond x) :
    (∀ bytes, x.limiter.remainderNanos bytes < 2 ^ 32 ∧ ∃ d, x.limiter.duration bytes = some d ∧
      bytes.toNat * nanosPerSec ≤ bytesPerSecond.toNat * d.asNanos) ∧
    (x.reserved.Pairwise fun a b => a.deadline ≤ b.deadline) ∧
    (∀ before a between b after, x.reserved = before ++ a :: (between ++ b :: after) →
      bytesPerSecond.toNat * a.deadline +
          nanosPerSec * ((between.map fun r => r.bytes.toNat).sum + b.bytes.toNat) ≤
        bytesPerSecond.toNat * b.deadline) ∧
    ∀ start stop late, start ≤ stop → (∀ r ∈ x.released, r.time ≤ r.reservation.deadline + late) →
      x.releasedIn start stop = 0 ∨ ∃ r ∈ x.reserved, start ≤ r.deadline + late ∧ r.deadline ≤ stop ∧
        nanosPerSec * x.releasedIn start stop ≤
          bytesPerSecond.toNat * (stop - start + late) + nanosPerSec * r.bytes.toNat := by
  have hi := Inv.run h hx
  refine ⟨fun bytes => ?_, hi.paced.ordered h, fun before a between b after heq => ?_,
    fun start stop late hle hlate => ?_⟩
  · have hpos : 0 < x.limiter.bytesPerSecond := by rwa [hi.rate]
    obtain ⟨d, hd, hcost⟩ := duration_spec hpos bytes
    rw [hi.rate] at hcost
    exact ⟨remainderNanos_lt hpos bytes, d, hd, hcost⟩
  · have hpaced := hi.paced
    rw [heq] at hpaced
    exact hpaced.between
  · have hreleased : x.releasedIn start stop ≤ _ := hi.releasedIn_le hlate
    rcases hi.paced.window (start - late) stop with hnone | ⟨r, hr, hfrom, hto, hsum⟩
    · exact .inl (by omega)
    · refine .inr ⟨r, hr, by omega, hto, ?_⟩
      have hspan : bytesPerSecond.toNat * (stop - (start - late)) ≤
          bytesPerSecond.toNat * (stop - start + late) := Nat.mul_le_mul_left _ (by omega)
      exact (Nat.mul_le_mul_left nanosPerSec hreleased).trans (by omega)

-- Of two chunks of a byte at one byte a second, the second waits for the first.
def twoReserved : State :=
  ⟨⟨1, 2000000000⟩, 0, [⟨1, 2000000000⟩, ⟨1, 1000000000⟩], [⟨1, 1000000000⟩, ⟨1, 2000000000⟩], []⟩

def bothLate : State :=
  ⟨⟨1, 2000000000⟩, 2000000000, [], [⟨1, 1000000000⟩, ⟨1, 2000000000⟩],
    [⟨⟨1, 1000000000⟩, 2000000000⟩, ⟨⟨1, 2000000000⟩, 2000000000⟩]⟩

theorem reserve_byte {nextAvailable deadline : Nat} (h : nextAvailable + nanosPerSec = deadline)
    (hfits : deadline ≤ instantMax) :
    BandwidthLimiter.reserve ⟨1, nextAvailable⟩ 0 1 = some (deadline, ⟨1, deadline⟩) := by
  have hremainder : BandwidthLimiter.remainderNanos ⟨1, nextAvailable⟩ 1 = 0 := by
    simp [BandwidthLimiter.remainderNanos]
  have hduration : BandwidthLimiter.duration ⟨1, nextAvailable⟩ 1 = some ⟨1, 0, by decide⟩ := by
    rw [BandwidthLimiter.duration, hremainder, Duration.new, dif_pos (by decide)]
    simp
  have hnanos : Duration.asNanos ⟨1, 0, by decide⟩ = nanosPerSec := by simp [Duration.asNanos]
  rw [BandwidthLimiter.reserve, hduration, Option.bind_some, checkedAdd, max_eq_left (Nat.zero_le _),
    hnanos, h, if_pos hfits]
  rfl

theorem runs_bothLate : Runs 1 bothLate := by
  have hfirst : Step (State.start 1 0)
      ⟨⟨1, 1000000000⟩, 0, [⟨1, 1000000000⟩], [⟨1, 1000000000⟩], []⟩ :=
    .reserve _ 0 1 1000000000 _ (Nat.le_refl 0) (reserve_byte (by decide) (by decide))
  have hsecond : Step ⟨⟨1, 1000000000⟩, 0, [⟨1, 1000000000⟩], [⟨1, 1000000000⟩], []⟩ twoReserved :=
    .reserve _ 0 1 2000000000 _ (Nat.le_refl 0) (reserve_byte (by decide) (by decide))
  have hwake : Step twoReserved ⟨⟨1, 2000000000⟩, 2000000000, [⟨1, 2000000000⟩],
      [⟨1, 1000000000⟩, ⟨1, 2000000000⟩], [⟨⟨1, 1000000000⟩, 2000000000⟩]⟩ :=
    .wake _ 2000000000 [⟨1, 2000000000⟩] [] ⟨1, 1000000000⟩ (Nat.zero_le _) rfl (by decide)
  have hlast : Step ⟨⟨1, 2000000000⟩, 2000000000, [⟨1, 2000000000⟩],
      [⟨1, 1000000000⟩, ⟨1, 2000000000⟩], [⟨⟨1, 1000000000⟩, 2000000000⟩]⟩ bothLate :=
    .wake _ 2000000000 [] [] ⟨1, 2000000000⟩ (Nat.le_refl _) rfl (Nat.le_refl _)
  exact ⟨0, (((ReflTransGen.single hfirst).tail hsecond).tail hwake).tail hlast⟩

theorem reservations_paced_late :
    (∀ bytes, bothLate.limiter.remainderNanos bytes < 2 ^ 32 ∧
      ∃ d, bothLate.limiter.duration bytes = some d ∧
        bytes.toNat * nanosPerSec ≤ (1 : UInt64).toNat * d.asNanos) ∧
    (bothLate.reserved.Pairwise fun a b => a.deadline ≤ b.deadline) ∧
    (∀ before a between b after, bothLate.reserved = before ++ a :: (between ++ b :: after) →
      (1 : UInt64).toNat * a.deadline +
          nanosPerSec * ((between.map fun r => r.bytes.toNat).sum + b.bytes.toNat) ≤
        (1 : UInt64).toNat * b.deadline) ∧
    ∀ start stop late, start ≤ stop →
      (∀ r ∈ bothLate.released, r.time ≤ r.reservation.deadline + late) →
      bothLate.releasedIn start stop = 0 ∨
        ∃ r ∈ bothLate.reserved, start ≤ r.deadline + late ∧ r.deadline ≤ stop ∧
          nanosPerSec * bothLate.releasedIn start stop ≤
            (1 : UInt64).toNat * (stop - start + late) + nanosPerSec * r.bytes.toNat :=
  reservations_paced 1 (by decide) bothLate runs_bothLate

-- The first chunk wakes only with the second one, and both leave at one instant.
theorem late_wake_exceeds_window : ¬ ∀ (bytesPerSecond : UInt64) (x : State), 0 < bytesPerSecond →
    Runs bytesPerSecond x → ∀ start stop, start ≤ stop →
      x.releasedIn start stop = 0 ∨ ∃ r ∈ x.reserved,
        nanosPerSec * x.releasedIn start stop ≤
          bytesPerSecond.toNat * (stop - start) + nanosPerSec * r.bytes.toNat := by
  intro h
  have hreleased : bothLate.releasedIn 2000000000 2000000000 = 2 := by decide
  rcases h 1 bothLate (by decide) runs_bothLate 2000000000 2000000000 le_rfl with hnone | ⟨r, hr, hle⟩
  · rw [hreleased] at hnone
    cases hnone
  · have hbyte : r.bytes = 1 := by
      revert r
      decide
    rw [hreleased, hbyte] at hle
    exact absurd hle (by decide)

end Runs

end VeStorage.ADrive.ShareContent
