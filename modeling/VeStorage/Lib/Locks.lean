import Mathlib.Logic.Basic

namespace VeStorage.Lib.Locks

variable {K P : Type}

abbrev Table (K P : Type) := K → Option P

def take [DecidableEq K] (locks : Table K P) (key : K) (owner : P) : Table K P :=
  fun other => if other = key then some owner else locks other

def drop [DecidableEq P] (locks : Table K P) (owner : P) : Table K P :=
  fun key => if locks key = some owner then none else locks key

variable {locks : Table K P} {key other : K} {owner holder : P}

@[simp] theorem take_self [DecidableEq K] : take locks key owner key = some owner := if_pos rfl

theorem take_held [DecidableEq K] (hfree : locks key = none) (hheld : locks other = some holder) :
    take locks key owner other = some holder := by
  have hne : other ≠ key := by
    rintro rfl
    rw [hfree] at hheld
    cases hheld
  exact (if_neg hne).trans hheld

theorem drop_held [DecidableEq P] (hne : holder ≠ owner) (hheld : locks key = some holder) :
    drop locks owner key = some holder := by
  have hother : locks key ≠ some owner := fun h => hne (Option.some.inj (hheld.symm.trans h))
  exact (if_neg hother).trans hheld

theorem holder_unique (h : locks key = some owner) (h' : locks key = some holder) :
    owner = holder := Option.some.inj (h.symm.trans h')

end VeStorage.Lib.Locks
