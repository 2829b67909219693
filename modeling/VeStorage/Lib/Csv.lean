import VeStorage.Lib.Components

namespace VeStorage.Lib.Csv

-- RFC 4180 with either line break; the break behind the last record may be missing.
inductive Mode where
  | start
  | bare
  | quoted
  | closed
  | cr
deriving DecidableEq

structure Reader where
  rows : List (List Text)
  fields : List Text
  field : Text
  mode : Mode
deriving DecidableEq

def Reader.init : Reader := ⟨[], [], [], .start⟩

def Reader.take (r : Reader) (c : Char) (mode : Mode) : Reader :=
  { r with field := r.field ++ [c], mode := mode }

def Reader.endField (r : Reader) : Reader :=
  { r with fields := r.fields ++ [r.field], field := [], mode := .start }

def Reader.endRow (r : Reader) : Reader :=
  { r with rows := r.rows ++ [r.fields ++ [r.field]], fields := [], field := [], mode := .start }

def Reader.delimit (r : Reader) (c : Char) (other : Option Reader) : Option Reader :=
  if c = ',' then some r.endField
  else if c = '\n' then some r.endRow
  else if c = '\r' then some { r with mode := .cr }
  else other

def Reader.step (r : Reader) (c : Char) : Option Reader :=
  match r.mode with
  | .start => r.delimit c (some (if c = '"' then { r with mode := .quoted } else r.take c .bare))
  | .bare => r.delimit c (if c = '"' then none else some (r.take c .bare))
  | .quoted => some (if c = '"' then { r with mode := .closed } else r.take c .quoted)
  | .closed => r.delimit c (if c = '"' then some (r.take c .quoted) else none)
  | .cr => if c = '\n' then some r.endRow else none

def Reader.finish (r : Reader) : Option (List (List Text)) :=
  match r.mode with
  | .start => some (if r.fields = [] then r.rows else r.endRow.rows)
  | .bare => some r.endRow.rows
  | .closed => some r.endRow.rows
  | .quoted => none
  | .cr => none

def readRows (text : Text) : Option (List (List Text)) :=
  (text.foldlM Reader.step .init).bind Reader.finish

section Write

def special (c : Char) : Bool := c = ',' || c = '"' || c = '\n' || c = '\r'

def doubled (value : Text) : Text := value.flatMap fun c => if c = '"' then ['"', '"'] else [c]

def escape (value : Text) : Text :=
  if value.any special then '"' :: (doubled value ++ ['"']) else value

def record (values : List Text) : Text := join ',' (values.map escape) ++ ['\n']

theorem record_singleton (value : Text) : record [value] = escape value ++ ['\n'] := by
  simp [record, join, List.intercalate_singleton]

theorem record_cons (value next : Text) (values : List Text) :
    record (value :: next :: values) = escape value ++ ',' :: record (next :: values) := by
  simp [record, join, List.intercalate_cons_cons]

end Write

section RoundTrip

variable {rows : List (List Text)} {fields : List Text} {field : Text}

theorem read_bare (value rest : Text) (h : value.any special = false) (mode : Mode)
    (hm : mode = .start ∨ mode = .bare) (hne : value ≠ [] ∨ mode = .bare) :
    (value ++ rest).foldlM Reader.step ⟨rows, fields, field, mode⟩ =
      rest.foldlM Reader.step ⟨rows, fields, field ++ value, .bare⟩ := by
  induction value generalizing field mode with
  | nil =>
    obtain rfl := hne.resolve_left (by simp)
    simp
  | cons c value ih =>
    simp only [List.any_cons, Bool.or_eq_false_iff, special, decide_eq_false_iff_not] at h
    obtain ⟨⟨⟨⟨hcomma, hquote⟩, hlf⟩, hcr⟩, hrest⟩ := h
    have hstep : Reader.step ⟨rows, fields, field, mode⟩ c =
        some ⟨rows, fields, field ++ [c], .bare⟩ := by
      rcases hm with rfl | rfl <;>
        simp [Reader.step, Reader.delimit, Reader.take, hcomma, hquote, hlf, hcr]
    rw [List.cons_append, List.foldlM_cons, hstep, Option.bind_eq_bind, Option.bind_some,
      ih hrest .bare (.inr rfl) (.inr rfl), List.append_assoc, List.singleton_append]

theorem read_doubled (value rest : Text) :
    (doubled value ++ rest).foldlM Reader.step ⟨rows, fields, field, .quoted⟩ =
      rest.foldlM Reader.step ⟨rows, fields, field ++ value, .quoted⟩ := by
  induction value generalizing field with
  | nil => simp [doubled]
  | cons c value ih =>
    have hcons : doubled (c :: value) =
        (if c = '"' then ['"', '"'] else [c]) ++ doubled value := rfl
    rw [hcons, List.append_assoc]
    split
    · rename_i hc
      subst hc
      have := @ih (field ++ ['"'])
      simpa [Reader.step, Reader.delimit, Reader.take] using this
    · rename_i hc
      have := @ih (field ++ [c])
      simpa [Reader.step, Reader.take, hc] using this

-- After an escaped value the reader holds it whole, in a mode where a delimiter ends the field.
theorem read_escape (value rest : Text) (c : Char) (hc : c = ',' ∨ c = '\n') :
    (escape value ++ c :: rest).foldlM Reader.step ⟨rows, fields, [], .start⟩ =
      (rest.foldlM Reader.step
        (if c = ',' then ⟨rows, fields ++ [value], [], .start⟩
          else ⟨rows ++ [fields ++ [value]], [], [], .start⟩)) := by
  unfold escape
  split
  · have hbody := @read_doubled rows fields [] value ('"' :: c :: rest)
    rcases hc with rfl | rfl <;>
      simpa [Reader.step, Reader.delimit, Reader.endField, Reader.endRow] using hbody
  · rename_i hplain
    rcases eq_or_ne value [] with rfl | hne
    · rcases hc with rfl | rfl <;>
        simp [Reader.step, Reader.delimit, Reader.endField, Reader.endRow]
    · rw [read_bare value _ (by simpa using hplain) .start (.inl rfl) (.inl hne)]
      rcases hc with rfl | rfl <;>
        simp [Reader.step, Reader.delimit, Reader.endField, Reader.endRow]

theorem read_record (values : List Text) (rest : Text) (hne : values ≠ []) :
    (record values ++ rest).foldlM Reader.step ⟨rows, fields, [], .start⟩ =
      rest.foldlM Reader.step ⟨rows ++ [fields ++ values], [], [], .start⟩ := by
  induction values generalizing fields with
  | nil => exact absurd rfl hne
  | cons value values ih =>
    cases values with
    | nil =>
      rw [record_singleton, List.append_assoc, List.singleton_append, read_escape value rest '\n' (.inr rfl)]
      simp
    | cons next values =>
      rw [record_cons, List.append_assoc, List.cons_append, read_escape value _ ',' (.inl rfl),
        if_pos rfl, ih (by simp), List.append_assoc, List.singleton_append]

theorem readRows_records (records : List (List Text)) (h : ∀ r ∈ records, r ≠ []) :
    readRows (records.flatMap record) = some records := by
  have hall : ∀ done : List (List Text),
      (records.flatMap record).foldlM Reader.step ⟨done, [], [], .start⟩ =
        some ⟨done ++ records, [], [], .start⟩ := by
    induction records with
    | nil => simp
    | cons r records ih =>
      intro done
      rw [List.flatMap_cons, read_record r _ (h r (by simp)),
        ih (fun r' hr => h r' (by simp [hr]))]
      simp
  rw [readRows, Reader.init, hall []]
  simp [Reader.finish]

end RoundTrip

end VeStorage.Lib.Csv
