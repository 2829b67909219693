import Mathlib.Data.List.Basic

namespace VeStorage.Lib.Retry

variable {W A R D : Type}

inductive Turn (D R : Type) where
  | again (pause : D)
  | done (result : R)

-- `resent` holds the answers after which the request was sent again.
structure Call (W A D R : Type) where
  result : R
  world : W
  sends : Nat
  pauses : List D
  resent : List A

section Loop

variable (turn : Nat → A → Turn D R) (send : Nat → W → A × W) (exhausted : R)

def attempts : List Nat → W → Call W A D R
  | [], w => ⟨exhausted, w, 0, [], []⟩
  | n :: rest, w =>
      match turn n (send n w).1 with
      | .again pause =>
          let call := attempts rest (send n w).2
          { call with
            sends := call.sends + 1, pauses := pause :: call.pauses
            resent := (send n w).1 :: call.resent }
      | .done result => ⟨result, (send n w).2, 1, [], []⟩

def retryLoop (max : Nat) (w : W) : Call W A D R := attempts turn send exhausted (List.range (max + 1)) w

-- What one attempt does to the world, as far as its answer tells.
structure Applies (op : W → W) (refused accepted : A → Prop) : Prop where
  once : ∀ n w, (send n w).2 = w ∨ (send n w).2 = op w
  refused : ∀ n w, refused (send n w).1 → (send n w).2 = w
  accepted : ∀ n w, accepted (send n w).1 → (send n w).2 = op w

def Repeatable (idempotent : Bool) (refused : A → Prop) (a : A) : Prop := idempotent = true ∨ refused a

-- Only what was refused, or may be done again, is sent again.
structure Policy (max : Nat) (idempotent : Bool) (refused accepted : A → Prop) (success : R → Prop)
    (short : D → Prop) : Prop where
  last : ∀ a, ∃ result, turn max a = .done result
  again : ∀ n a pause, turn n a = .again pause → Repeatable idempotent refused a
  success : ∀ n a result, turn n a = .done result → success result → accepted a
  short : ∀ n a pause, turn n a = .again pause → short pause

-- Before an attempt the operation was not applied, or may be applied again.
def Ready (op : W → W) (idempotent : Bool) (w v : W) : Prop := v = w ∨ idempotent = true ∧ v = op w

end Loop

section Rules

variable {turn : Nat → A → Turn D R} {send : Nat → W → A × W} {exhausted : R} {max : Nat} {op : W → W}
  {idempotent : Bool} {refused accepted : A → Prop} {success : R → Prop} {short : D → Prop} {w v : W}

theorem Ready.sent (hs : Applies send op refused accepted) (hidem : idempotent = true → ∀ w, op (op w) = op w)
    (hv : Ready op idempotent w v) (n : Nat) : (send n v).2 = w ∨ (send n v).2 = op w := by
  rcases hv with rfl | ⟨hi, rfl⟩
  · exact hs.once n v
  · exact .inr ((hs.once n (op w)).elim id fun h => h.trans (hidem hi w))

theorem Ready.again (hs : Applies send op refused accepted) (hidem : idempotent = true → ∀ w, op (op w) = op w)
    (hv : Ready op idempotent w v) {n : Nat} (h : Repeatable idempotent refused (send n v).1) :
    Ready op idempotent w (send n v).2 := by
  rcases h with hi | hrefused
  · exact (hv.sent hs hidem n).imp id fun h => ⟨hi, h⟩
  · rw [hs.refused n v hrefused]
    exact hv

-- The attempt that ends the loop, and the world it was sent to.
structure Ended (turn : Nat → A → Turn D R) (send : Nat → W → A × W) (op : W → W) (idempotent : Bool)
    (refused : A → Prop) (w : W) (short : D → Prop) (sends : Nat) (call : Call W A D R) : Prop where
  last : ∃ n v, Ready op idempotent w v ∧ turn n (send n v).1 = .done call.result ∧ call.world = (send n v).2
  sends : call.sends ≤ sends
  pauses : call.pauses.length + 1 = call.sends
  short : ∀ pause ∈ call.pauses, short pause
  resends : call.resent.length + 1 = call.sends
  resent : ∀ a ∈ call.resent, Repeatable idempotent refused a

theorem attempts_ended (hp : Policy turn max idempotent refused accepted success short)
    (hs : Applies send op refused accepted) (hidem : idempotent = true → ∀ w, op (op w) = op w)
    (hv : Ready op idempotent w v) (before : List Nat) :
    Ended turn send op idempotent refused w short (before.length + 1)
      (attempts turn send exhausted (before ++ [max]) v) := by
  induction before generalizing v with
  | nil =>
    obtain ⟨result, hresult⟩ := hp.last (send max v).1
    rw [List.nil_append, attempts, hresult]
    exact ⟨⟨max, v, hv, hresult, rfl⟩, Nat.le_refl 1, rfl, List.forall_mem_nil _, rfl, List.forall_mem_nil _⟩
  | cons n before ih =>
    rw [List.cons_append, attempts]
    cases hturn : turn n (send n v).1 with
    | done result =>
      exact ⟨⟨n, v, hv, hturn, rfl⟩, Nat.le_add_left 1 _, rfl, List.forall_mem_nil _, rfl,
        List.forall_mem_nil _⟩
    | again pause =>
      have hagain := hp.again n _ pause hturn
      obtain ⟨hlast, hsends, hpauses, hshort, hresends, hresent⟩ := ih (hv.again hs hidem hagain)
      exact ⟨hlast, Nat.succ_le_succ hsends, congrArg (· + 1) hpauses,
        List.forall_mem_cons.mpr ⟨hp.short n _ pause hturn, hshort⟩, congrArg (· + 1) hresends,
        List.forall_mem_cons.mpr ⟨hagain, hresent⟩⟩

theorem retryLoop_ended (hp : Policy turn max idempotent refused accepted success short)
    (hs : Applies send op refused accepted) (hidem : idempotent = true → ∀ w, op (op w) = op w)
    (hv : Ready op idempotent w v) :
    Ended turn send op idempotent refused w short (max + 1) (retryLoop turn send exhausted max v) := by
  have h := @attempts_ended _ _ _ _ turn send exhausted max op idempotent refused accepted success short w v hp hs
    hidem hv (List.range max)
  rwa [← List.range_succ, List.length_range] at h

-- A call with its repetitions is one application of the operation, or none.
structure AtMostOnce (op : W → W) (w : W) (success : R → Prop) (short : D → Prop) (again : A → Prop)
    (sends : Nat) (call : Call W A D R) : Prop where
  applied : call.world = w ∨ call.world = op w
  success : success call.result → call.world = op w
  sends : call.sends ≤ sends
  pauses : call.pauses.length < call.sends
  short : ∀ pause ∈ call.pauses, short pause
  resends : call.resent.length + 1 = call.sends
  resent : ∀ a ∈ call.resent, again a

theorem Ended.atMostOnce {sends : Nat} {call : Call W A D R}
    (h : Ended turn send op idempotent refused w short sends call)
    (hp : Policy turn max idempotent refused accepted success short) (hs : Applies send op refused accepted)
    (hidem : idempotent = true → ∀ w, op (op w) = op w) :
    AtMostOnce op w success short (Repeatable idempotent refused) sends call := by
  obtain ⟨n, v, hv, hturn, hworld⟩ := h.last
  refine ⟨hworld ▸ hv.sent hs hidem n, fun hsuccess => ?_, h.sends, Nat.le_of_eq h.pauses, h.short, h.resends,
    h.resent⟩
  rw [hworld, hs.accepted n v (hp.success n _ _ hturn hsuccess)]
  rcases hv with rfl | ⟨hi, rfl⟩
  · rfl
  · exact hidem hi w

theorem retryLoop_atMostOnce (hp : Policy turn max idempotent refused accepted success short)
    (hs : Applies send op refused accepted) (hidem : idempotent = true → ∀ w, op (op w) = op w) :
    AtMostOnce op w success short (Repeatable idempotent refused) (max + 1) (retryLoop turn send exhausted max w) :=
  (retryLoop_ended hp hs hidem (.inl rfl)).atMostOnce hp hs hidem

-- A call that ended with a refusal can be made again.
theorem Ended.ready {sends : Nat} {call : Call W A D R}
    (h : Ended turn send op idempotent refused w short sends call)
    (hs : Applies send op refused accepted)
    (hrefused : ∀ n v, turn n (send n v).1 = .done call.result → refused (send n v).1) :
    Ready op idempotent w call.world := by
  obtain ⟨n, v, hv, hturn, hworld⟩ := h.last
  rw [hworld, hs.refused n v (hrefused n v hturn)]
  exact hv

section Calls

variable {R' : Type} {success' : R' → Prop} {again : A → Prop} {sends sends' : Nat}

theorem AtMostOnce.map {call : Call W A D R} (h : AtMostOnce op w success short again sends call) {result : R'}
    (hresult : success' result → success call.result) :
    AtMostOnce op w success' short again sends { call with result := result } :=
  ⟨h.applied, fun hsuccess => h.success (hresult hsuccess), h.sends, h.pauses, h.short, h.resends, h.resent⟩

theorem AtMostOnce.mono {call : Call W A D R} (h : AtMostOnce op w success short again sends call)
    (hle : sends ≤ sends') : AtMostOnce op w success short again sends' call :=
  ⟨h.applied, h.success, Nat.le_trans h.sends hle, h.pauses, h.short, h.resends, h.resent⟩

-- A second round after `answer`.
def Call.andThen (first : Call W A D R) (answer : A) (second : Call W A D R') : Call W A D R' :=
  ⟨second.result, second.world, first.sends + second.sends, first.pauses ++ second.pauses,
    first.resent ++ answer :: second.resent⟩

theorem AtMostOnce.andThen {first : Call W A D R} {second : Call W A D R'} {answer : A}
    (h : AtMostOnce op w success short again sends first) (hanswer : again answer)
    (h' : AtMostOnce op w success' short again sends' second) :
    AtMostOnce op w success' short again (sends + sends') (first.andThen answer second) where
  applied := h'.applied
  success := h'.success
  sends := Nat.add_le_add h.sends h'.sends
  pauses := by
    have hfirst := h.pauses
    have hsecond := h'.pauses
    simp only [Call.andThen, List.length_append]
    omega
  short pause hpause := (List.mem_append.mp hpause).elim (h.short pause) (h'.short pause)
  resends := by
    have hfirst := h.resends
    have hsecond := h'.resends
    simp only [Call.andThen, List.length_append, List.length_cons]
    omega
  resent := List.forall_mem_append.mpr ⟨h.resent, List.forall_mem_cons.mpr ⟨hanswer, h'.resent⟩⟩

end Calls

end Rules

end VeStorage.Lib.Retry
