import VeStorage.Lib.Text
import Mathlib.Data.List.Basic

namespace VeStorage.Lib

-- A UTF-8 byte sequence, as `String::as_bytes`.
def textBytes (t : Text) : List UInt8 := t.flatMap String.utf8EncodeChar

-- `to_be_bytes` of a number of `k` bytes.
def beBytes : Nat → Nat → List UInt8
  | 0, _ => []
  | k + 1, n => beBytes k (n / 256) ++ [UInt8.ofNat n]

-- One field of a hashed sequence: its length and its bytes, or the mark of an absent one.
def fieldBytes : Option Text → List UInt8
  | some value => 1 :: (beBytes 8 (textBytes value).length ++ textBytes value)
  | none => [0]

def fieldsBytes (fields : List (Option Text)) : List UInt8 := fields.flatMap fieldBytes

-- The length of a string fits its eight bytes.
def Sized (fields : List (Option Text)) : Prop :=
  ∀ value, some value ∈ fields → (textBytes value).length < 256 ^ 8

theorem textBytes_injective {t u : Text} (h : textBytes t = textBytes u) : t = u := by
  have hencode : t.utf8Encode = u.utf8Encode := congrArg List.toByteArray h
  exact String.ofList_injective (String.toByteArray_inj.mp hencode)

@[simp] theorem beBytes_length (k n : Nat) : (beBytes k n).length = k := by
  induction k generalizing n with
  | zero => rfl
  | succ k ih => simp [beBytes, ih]

theorem beBytes_inj {k n m : Nat} (hn : n < 256 ^ k) (hm : m < 256 ^ k)
    (h : beBytes k n = beBytes k m) : n = m := by
  induction k generalizing n m with
  | zero => omega
  | succ k ih =>
    obtain ⟨hhigh, hlow⟩ := List.append_inj' h rfl
    rw [Nat.pow_succ] at hn hm
    have hdiv : n / 256 = m / 256 :=
      ih (Nat.div_lt_of_lt_mul (by omega)) (Nat.div_lt_of_lt_mul (by omega)) hhigh
    have hmod : n % 256 = m % 256 := by
      have hbyte := congrArg UInt8.toNat (List.singleton_injective hlow)
      simpa using hbyte
    omega

theorem fieldBytes_append_inj {f g : Option Text} {rest rest' : List UInt8}
    (hf : ∀ v, f = some v → (textBytes v).length < 256 ^ 8)
    (hg : ∀ v, g = some v → (textBytes v).length < 256 ^ 8)
    (h : fieldBytes f ++ rest = fieldBytes g ++ rest') : f = g ∧ rest = rest' := by
  cases f with
  | none =>
    cases g with
    | none => exact ⟨rfl, (List.cons.inj h).2⟩
    | some w => exact absurd (List.cons.inj h).1 (by decide)
  | some v =>
    cases g with
    | none => exact absurd (List.cons.inj h).1 (by decide)
    | some w =>
      have htail : (beBytes 8 (textBytes v).length ++ textBytes v) ++ rest =
          (beBytes 8 (textBytes w).length ++ textBytes w) ++ rest' := (List.cons.inj h).2
      rw [List.append_assoc, List.append_assoc] at htail
      obtain ⟨hlength, hbody⟩ := List.append_inj htail (by simp)
      have hsize := beBytes_inj (hf v rfl) (hg w rfl) hlength
      obtain ⟨hvalue, hrest⟩ := List.append_inj hbody hsize
      exact ⟨congrArg some (textBytes_injective hvalue), hrest⟩

theorem fieldsBytes_inj {fields fields' : List (Option Text)} (hl : fields.length = fields'.length)
    (hs : Sized fields) (hs' : Sized fields') (h : fieldsBytes fields = fieldsBytes fields') :
    fields = fields' := by
  induction fields generalizing fields' with
  | nil => exact (List.length_eq_zero_iff.mp hl.symm).symm
  | cons f fields ih =>
    cases fields' with
    | nil => cases hl
    | cons g fields' =>
      obtain ⟨rfl, hrest⟩ := fieldBytes_append_inj (fun v hv => hs v (hv ▸ List.mem_cons_self ..))
        (fun v hv => hs' v (hv ▸ List.mem_cons_self ..)) h
      rw [ih (Nat.succ.inj hl) (fun v hv => hs v (List.mem_cons_of_mem _ hv))
        (fun v hv => hs' v (List.mem_cons_of_mem _ hv)) hrest]

end VeStorage.Lib
