import VeStorage.Lib.Percent
import VeStorage.Lib.Text

namespace VeStorage.Lib

theorem forall_mem_of_all {l : Text} {p : Char → Prop} [DecidablePred p]
    (h : l.all (fun c => decide (p c)) = true) : ∀ c ∈ l, p c := by
  simpa using h

section SplitOnce

variable {α : Type} [DecidableEq α]

-- The first occurrence of a pattern cuts a text in two.
def splitOnceOf (p : List α) : List α → Option (List α × List α)
  | [] => if p = [] then some ([], []) else none
  | x :: xs =>
      if p <+: x :: xs then some ([], (x :: xs).drop p.length)
      else (splitOnceOf p xs).map fun cut => (x :: cut.1, cut.2)

theorem splitOnceOf_append {d : α} {p a : List α} (h : d ∉ a) (b : List α) :
    splitOnceOf (d :: p) (a ++ (d :: p ++ b)) = some (a, b) := by
  induction a with
  | nil =>
    have hp : d :: p <+: d :: (p ++ b) := List.prefix_append (d :: p) b
    rw [List.nil_append, List.cons_append, splitOnceOf, if_pos hp]
    simp
  | cons x a ih =>
    rw [List.mem_cons, not_or] at h
    have hmiss : ¬ d :: p <+: x :: (a ++ (d :: p ++ b)) := fun hp =>
      h.1 (List.cons_prefix_cons.mp hp).1
    rw [List.cons_append, splitOnceOf, if_neg hmiss, ih h.2]
    rfl

theorem eq_of_splitOnceOf {p t a b : List α} (h : splitOnceOf p t = some (a, b)) : t = a ++ (p ++ b) := by
  induction t generalizing a with
  | nil =>
    rw [splitOnceOf] at h
    split at h
    next hp => simp_all
    next => cases h
  | cons x t ih =>
    rw [splitOnceOf] at h
    split at h
    next hp =>
      obtain ⟨rfl, rfl⟩ := Prod.mk.inj (Option.some.inj h)
      exact (List.prefix_iff_eq_append.mp hp).symm
    next =>
      obtain ⟨⟨a', b'⟩, hcut, heq⟩ := Option.map_eq_some_iff.mp h
      obtain ⟨rfl, rfl⟩ := Prod.mk.inj heq
      rw [ih hcut]
      rfl

end SplitOnce

section Utf8

def utf8 (t : Text) : Bytes := t.flatMap String.utf8EncodeChar

def fromUtf8 (bytes : Bytes) : Option Text := bytes.toByteArray.utf8Decode?.map Array.toList

theorem fromUtf8_utf8 (t : Text) : fromUtf8 (utf8 t) = some t := by
  have h : (utf8 t).toByteArray = t.utf8Encode := rfl
  rw [fromUtf8, h, List.utf8Decode?_utf8Encode]
  rfl

@[simp] theorem utf8_nil : utf8 [] = [] := rfl

theorem utf8_append (t u : Text) : utf8 (t ++ u) = utf8 t ++ utf8 u := List.flatMap_append

theorem utf8_cons (c : Char) (t : Text) : utf8 (c :: t) = String.utf8EncodeChar c ++ utf8 t := rfl

def ofAscii (bytes : Bytes) : Text := bytes.map fun b => Char.ofNat b.toNat

theorem utf8EncodeChar_ascii :
    ∀ n < 128, String.utf8EncodeChar (Char.ofNat n) = [UInt8.ofNat n] := by decide

theorem utf8EncodeChar_of_ascii {c : Char} (h : c.toNat < 128) :
    String.utf8EncodeChar c = [UInt8.ofNat c.toNat] := by
  rw [← utf8EncodeChar_ascii c.toNat h, Char.ofNat_toNat]

theorem utf8EncodeChar_high {c : Char} (h : 128 ≤ c.toNat) :
    ∀ b ∈ String.utf8EncodeChar c, 128 ≤ b.toNat := by
  have hv : c.val.toNat = c.toNat := rfl
  fun_cases String.utf8EncodeChar c
  · omega
  all_goals
    intro b hb
    simp only [List.mem_cons, List.not_mem_nil, or_false] at hb
    rcases hb with rfl | rfl | rfl | rfl <;> simp <;> omega

-- An ASCII byte in the encoding stands for that character and for no part of another one.
theorem mem_utf8 {a : Char} (ha : a.toNat < 128) {t : Text} :
    UInt8.ofNat a.toNat ∈ utf8 t ↔ a ∈ t := by
  have hmem : ∀ c : Char, UInt8.ofNat a.toNat ∈ String.utf8EncodeChar c ↔ a = c := by
    intro c
    rcases Nat.lt_or_ge c.toNat 128 with hc | hc
    · rw [utf8EncodeChar_of_ascii hc, List.mem_singleton, ← UInt8.toNat_inj, UInt8.toNat_ofNat',
        UInt8.toNat_ofNat', Nat.mod_eq_of_lt (by omega), Nat.mod_eq_of_lt (by omega), Char.toNat_inj]
    · constructor
      · intro hm
        have hhigh := utf8EncodeChar_high hc _ hm
        rw [UInt8.toNat_ofNat'] at hhigh
        omega
      · rintro rfl
        omega
  simp [utf8, hmem]

theorem utf8_ofAscii {bytes : Bytes} (h : ∀ b ∈ bytes, b.toNat < 128) : utf8 (ofAscii bytes) = bytes := by
  induction bytes with
  | nil => rfl
  | cons b bytes ih =>
    rw [List.forall_mem_cons] at h
    have hb : String.utf8EncodeChar (Char.ofNat b.toNat) = [b] := by
      rw [utf8EncodeChar_ascii b.toNat h.1, UInt8.ofNat_toNat]
    rw [ofAscii, List.map_cons, utf8_cons, hb]
    exact congrArg (b :: ·) (ih h.2)

end Utf8

end VeStorage.Lib
