import VeStorage.Lib.Components

namespace VeStorage.Lib

abbrev Bytes := List UInt8

def ascii (s : String) : Bytes := s.toList.map fun c => UInt8.ofNat c.toNat

def asciiLower (t : Bytes) : Bytes :=
  t.map fun b => if 65 ≤ b.toNat ∧ b.toNat ≤ 90 then UInt8.ofNat (b.toNat + 32) else b

namespace Percent

def percent : UInt8 := 37

def hexDigit (n : Nat) : UInt8 :=
  if n < 10 then UInt8.ofNat (48 + n) else UInt8.ofNat (55 + n)

def hexValue (b : UInt8) : Option Nat :=
  if 48 ≤ b.toNat ∧ b.toNat ≤ 57 then some (b.toNat - 48)
  else if 97 ≤ b.toNat ∧ b.toNat ≤ 102 then some (b.toNat - 87)
  else if 65 ≤ b.toNat ∧ b.toNat ≤ 70 then some (b.toNat - 55)
  else none

def alphanumeric (b : UInt8) : Bool :=
  (48 ≤ b.toNat && b.toNat ≤ 57) || (65 ≤ b.toNat && b.toNat ≤ 90) ||
    (97 ≤ b.toNat && b.toNat ≤ 122)

def escape (b : UInt8) : Bytes := [percent, hexDigit (b.toNat / 16), hexDigit (b.toNat % 16)]

-- Bytes outside an escape are read through `read`.
def decode (read : UInt8 → UInt8) : Bytes → Bytes
  | [] => []
  | [x] => [read x]
  | [x, y] => [read x, read y]
  | x :: y :: z :: rest =>
      if x = percent then
        match hexValue y, hexValue z with
        | some high, some low => UInt8.ofNat (high * 16 + low) :: decode read rest
        | _, _ => read x :: decode read (y :: z :: rest)
      else read x :: decode read (y :: z :: rest)

-- A percent encoding: the bytes written as one byte, and how that byte is read back.
structure Code where
  write : UInt8 → Option UInt8
  read : UInt8 → UInt8
  write_ne : ∀ b c, write b = some c → c ≠ percent
  read_write : ∀ b c, write b = some c → read c = b

def Code.encode (code : Code) (t : Bytes) : Bytes :=
  t.flatMap fun b => match code.write b with
    | some c => [c]
    | none => escape b

theorem hexValue_hexDigit : ∀ n < 16, hexValue (hexDigit n) = some n := by decide

theorem hexDigit_ne {c : UInt8} (hc : hexValue c = none) {n : Nat} (hn : n < 16) :
    c ≠ hexDigit n := by
  rintro rfl
  rw [hexValue_hexDigit n hn] at hc
  cases hc

theorem not_mem_escape {b c : UInt8} (hp : c ≠ percent) (hc : hexValue c = none) :
    c ∉ escape b := by
  have hhigh : b.toNat / 16 < 16 := by have := b.toNat_lt; omega
  have hlow : b.toNat % 16 < 16 := Nat.mod_lt _ (by decide)
  simp [escape, hp, hexDigit_ne hc hhigh, hexDigit_ne hc hlow]

theorem decode_cons_ne {read : UInt8 → UInt8} {x : UInt8} (hx : x ≠ percent) (rest : Bytes) :
    decode read (x :: rest) = read x :: decode read rest := by
  match rest with
  | [] => rfl
  | [_] => rfl
  | _ :: _ :: _ => rw [decode, if_neg hx]

theorem decode_escape (read : UInt8 → UInt8) (b : UInt8) (rest : Bytes) :
    decode read (escape b ++ rest) = b :: decode read rest := by
  have hb := b.toNat_lt
  have hhigh : b.toNat / 16 < 16 := by omega
  have hlow : b.toNat % 16 < 16 := Nat.mod_lt _ (by decide)
  have hsum : b.toNat / 16 * 16 + b.toNat % 16 = b.toNat := by omega
  simp [escape, decode, hexValue_hexDigit _ hhigh, hexValue_hexDigit _ hlow, hsum]

namespace Code

variable {code : Code} {c : UInt8} {t u : Bytes}

@[simp] theorem encode_nil (code : Code) : code.encode [] = [] := rfl

@[simp] theorem encode_append (code : Code) (t u : Bytes) :
    code.encode (t ++ u) = code.encode t ++ code.encode u := List.flatMap_append

theorem encode_cons (code : Code) (b : UInt8) (t : Bytes) :
    code.encode (b :: t) = code.encode [b] ++ code.encode t := encode_append code [b] t

theorem decode_encode_of {read : UInt8 → UInt8} (h : ∀ b c, code.write b = some c → read c = b)
    (t : Bytes) : decode read (code.encode t) = t := by
  induction t with
  | nil => rfl
  | cons b t ih =>
    rw [encode_cons]
    cases hw : code.write b with
    | some c =>
      have hone : code.encode [b] = [c] := by simp [encode, hw]
      rw [hone, List.singleton_append, decode_cons_ne (code.write_ne b c hw), ih, h b c hw]
    | none =>
      have hone : code.encode [b] = escape b := by simp [encode, hw]
      rw [hone, decode_escape, ih]

theorem decode_encode (code : Code) (t : Bytes) : decode code.read (code.encode t) = t :=
  decode_encode_of code.read_write t

theorem encode_of_write (h : ∀ b ∈ t, code.write b = some b) : code.encode t = t := by
  induction t with
  | nil => rfl
  | cons b t ih =>
    have hone : code.encode [b] = [b] := by simp [encode, h b List.mem_cons_self]
    rw [encode_cons, hone, ih fun x hx => h x (List.mem_cons_of_mem b hx), List.singleton_append]

theorem encode_injective (code : Code) : Function.Injective code.encode :=
  Function.LeftInverse.injective code.decode_encode

theorem not_mem_encode (hp : c ≠ percent) (hc : hexValue c = none)
    (hw : ∀ b ∈ t, code.write b ≠ some c) : c ∉ code.encode t := by
  intro hmem
  obtain ⟨b, hb, hmem⟩ := List.mem_flatMap.mp hmem
  split at hmem
  next d hd =>
    rw [List.mem_singleton] at hmem
    exact hw b hb (hmem ▸ hd)
  next => exact not_mem_escape hp hc hmem

-- A byte kept as itself separates the components of a text and of its encoding alike.
theorem componentwise (hp : c ≠ percent) (hc : hexValue c = none) (hw : code.write c = some c) :
    Componentwise c code.encode where
  map_append a b := by
    have hone : code.encode [c] = [c] := by simp [encode, hw]
    rw [encode_append, encode_cons, hone, List.singleton_append]
  not_mem a ha := by
    refine not_mem_encode hp hc fun b hb hbc => ha ?_
    have hread := code.read_write b c hbc
    rw [code.read_write c c hw] at hread
    exact hread ▸ hb

end Code

def unreserved (b : UInt8) : Bool := alphanumeric b || b ∈ ascii "-_.~"

theorem percent_not_unreserved : unreserved percent = false := by decide

def uriCode (safe : Bytes) (hsafe : percent ∉ safe) : Code where
  write b := if b ∈ safe ∨ unreserved b then some b else none
  read := id
  write_ne b c h := by
    split at h
    next hb =>
      cases h
      rintro rfl
      simp [hsafe, percent_not_unreserved] at hb
    next => cases h
  read_write b c h := by
    split at h
    next => cases h; rfl
    next => cases h

def formSafe (b : UInt8) : Bool := alphanumeric b || b ∈ ascii "*-._"

def space : UInt8 := 32

def plus : UInt8 := 43

theorem formSafe_ne {b : UInt8} (h : formSafe b) : b ≠ percent ∧ b ≠ plus := by
  constructor
  all_goals
    rintro rfl
    revert h
    decide

-- The form encoding of names and values writes a space as a plus sign.
def formCode : Code where
  write b := if b = space then some plus else if formSafe b then some b else none
  read b := if b = plus then space else b
  write_ne b c h := by
    split at h
    next => cases h; decide
    next =>
      split at h
      next hb => cases h; exact (formSafe_ne hb).1
      next => cases h
  read_write b c h := by
    split at h
    next hb => cases h; exact hb.symm
    next =>
      split at h
      next hb => cases h; exact if_neg (formSafe_ne hb).2
      next => cases h

theorem not_mem_uri {safe t : Bytes} {hsafe : percent ∉ safe} {c : UInt8} (hc : c ≠ percent)
    (hv : hexValue c = none) (hs : c ∉ safe) (hu : unreserved c = false) :
    c ∉ (uriCode safe hsafe).encode t := by
  refine Code.not_mem_encode hc hv fun b _ hb => ?_
  simp only [uriCode] at hb
  split at hb
  next h =>
    cases hb
    simp [hs, hu] at h
  next => cases hb

theorem not_mem_form {t : Bytes} {c : UInt8} (hc : c ≠ percent) (hv : hexValue c = none)
    (hp : c ≠ plus) (hf : formSafe c = false) : c ∉ formCode.encode t := by
  refine Code.not_mem_encode hc hv fun b _ hb => ?_
  simp only [formCode] at hb
  split at hb
  next => cases hb; exact hp rfl
  next =>
    split at hb
    next h => cases hb; simp [hf] at h
    next => cases hb

end Percent

section Utf8

-- The range of the first continuation byte and the number of further ones.
def utf8Lead (b : UInt8) : Option (Nat × Nat × Nat) :=
  if 0xC2 ≤ b.toNat ∧ b.toNat ≤ 0xDF then some (0x80, 0xBF, 0)
  else if b.toNat = 0xE0 then some (0xA0, 0xBF, 1)
  else if b.toNat = 0xED then some (0x80, 0x9F, 1)
  else if 0xE1 ≤ b.toNat ∧ b.toNat ≤ 0xEF then some (0x80, 0xBF, 1)
  else if b.toNat = 0xF0 then some (0x90, 0xBF, 2)
  else if 0xF1 ≤ b.toNat ∧ b.toNat ≤ 0xF3 then some (0x80, 0xBF, 2)
  else if b.toNat = 0xF4 then some (0x80, 0x8F, 2)
  else none

def utf8Continue : Nat → Bytes → Nat × Bool
  | 0, _ => (0, true)
  | _ + 1, [] => (0, false)
  | more + 1, b :: rest =>
      if 0x80 ≤ b.toNat ∧ b.toNat ≤ 0xBF then
        ((utf8Continue more rest).1 + 1, (utf8Continue more rest).2)
      else (0, false)

def utf8Rest (b : UInt8) (rest : Bytes) : Nat × Bool :=
  if b.toNat < 0x80 then (0, true)
  else match utf8Lead b, rest with
    | some (low, high, more), c :: rest =>
        if low ≤ c.toNat ∧ c.toNat ≤ high then
          ((utf8Continue more rest).1 + 1, (utf8Continue more rest).2)
        else (0, false)
    | _, _ => (0, false)

def replacementCharacter : Bytes := [0xEF, 0xBF, 0xBD]

def fromUtf8LossyFrom : Nat → Bool → Bytes → Bytes
  | _, _, [] => []
  | pending + 1, valid, b :: rest =>
      (if valid then [b] else []) ++ fromUtf8LossyFrom pending valid rest
  | 0, _, b :: rest =>
      (if (utf8Rest b rest).2 then [b] else replacementCharacter) ++
        fromUtf8LossyFrom (utf8Rest b rest).1 (utf8Rest b rest).2 rest

def fromUtf8Lossy (t : Bytes) : Bytes := fromUtf8LossyFrom 0 true t

-- The text of a string: the bytes that the lossy reading leaves as they are.
structure Str where
  bytes : Bytes
  valid : fromUtf8Lossy bytes = bytes

end Utf8

end VeStorage.Lib
