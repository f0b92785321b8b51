/-
# Texts of records and fields

A reader for texts whose records end at line breaks and whose fields end at separators, both only
outside quotes, with a quote doubled inside them.  The reader is a machine over the whole text: what
a character means depends on the characters before it, so one field written badly moves all that
follow.

* `records_join`: fields that are each written bare without a mark, or quoted, come back from the
  joined text, record by record and field by field.

The alphabet and its four marks are parameters.  A record of no fields cannot be told from a record
of one empty field, and the theorem asks for a field in each record.
-/
import Mathlib.Data.List.Forall2

namespace Csv

/-! ## 1. The reader -/

/-- The four marks of a format. -/
structure Marks (α : Type) where
  separator : α
  quote : α
  lineFeed : α
  carriageReturn : α
  distinct : [separator, quote, lineFeed, carriageReturn].Nodup

/-- The characters that mean something outside quotes. -/
def Marks.all {α : Type} (m : Marks α) : List α :=
  [m.separator, m.quote, m.lineFeed, m.carriageReturn]

theorem Marks.separator_ne {α : Type} (m : Marks α) : m.separator ≠ m.quote := by
  have := m.distinct
  simp_all

theorem Marks.lineFeed_ne {α : Type} (m : Marks α) :
    m.lineFeed ≠ m.quote ∧ m.lineFeed ≠ m.separator ∧ m.lineFeed ≠ m.carriageReturn := by
  have := m.distinct
  simp_all [eq_comm]

/-- Where the reader stands. -/
inductive Mode
  /-- at the first character of a field -/
  | start
  /-- inside a field that began without a quote -/
  | bare
  /-- inside quotes -/
  | quoted
  /-- behind a quote that ends the quotes, or is the first of two -/
  | closing
  /-- behind a carriage return that ended a record -/
  | returned
  deriving DecidableEq

/-- What the reader finds from its place on: the rest of the field it stands in, the record's
further fields and the records after it. -/
@[ext] structure Rest (α : Type) where
  field : List α
  fields : List (List α)
  records : List (List (List α))

namespace Rest

variable {α : Type}

/-- The text has ended. -/
def done : Rest α := ⟨[], [], []⟩

/-- Characters in front of the field. -/
def prepend (s : List α) (r : Rest α) : Rest α := { r with field := s ++ r.field }

/-- A field ends here. -/
def nextField (r : Rest α) : Rest α := ⟨[], r.field :: r.fields, r.records⟩

/-- All records, the current one first. -/
def allRecords (r : Rest α) : List (List (List α)) := (r.field :: r.fields) :: r.records

/-- A record ends here. -/
def nextRecord (r : Rest α) : Rest α := ⟨[], [], r.allRecords⟩

@[simp] theorem prepend_nil (r : Rest α) : r.prepend [] = r := rfl

@[simp] theorem prepend_prepend (s t : List α) (r : Rest α) :
    (r.prepend t).prepend s = r.prepend (s ++ t) := by
  simp [prepend]

end Rest

variable {α : Type} [DecidableEq α] (m : Marks α)

/-- The reader: one character at a time. -/
def read : Mode → List α → Rest α
  | _, [] => .done
  | mode, c :: cs =>
    if mode = .quoted then
      if c = m.quote then read .closing cs else (read .quoted cs).prepend [c]
    else if c = m.quote ∧ (mode = .start ∨ mode = .returned) then read .quoted cs
    else if c = m.quote ∧ mode = .closing then (read .quoted cs).prepend [c]
    else if c = m.separator then (read .start cs).nextField
    else if c = m.carriageReturn then (read .returned cs).nextRecord
    -- a carriage return and a line feed are one line break
    else if c = m.lineFeed then
      if mode = .returned then read .start cs else (read .start cs).nextRecord
    else (read .bare cs).prepend [c]

/-- The records of a text. -/
def records (text : List α) : List (List (List α)) := (read m .start text).allRecords

/-! ## 2. How a field may be written -/

/-- Every quote twice. -/
def double (field : List α) : List α :=
  field.flatMap fun c => if c = m.quote then [c, c] else [c]

/-- `text` writes the field: as it stands when no mark is in it, or between quotes. -/
inductive Written : List α → List α → Prop
  | bare {field : List α} (h : ∀ c ∈ field, c ∉ m.all) : Written field field
  | quoted (field : List α) : Written field (m.quote :: (double m field ++ [m.quote]))

/-- The fields of a record, joined. -/
def joinFields (texts : List (List α)) : List α := List.intercalate [m.separator] texts

/-- The records of a text, joined. -/
def joinRecords (lines : List (List α)) : List α := List.intercalate [m.lineFeed] lines

/-- The rest of a text behind a field: nothing, or a separator or line feed. -/
def FieldEnd (rest : List α) : Prop :=
  rest = [] ∨ ∃ cs, rest = m.separator :: cs ∨ rest = m.lineFeed :: cs

/-- The rest of a text behind a record: nothing, or a line feed. -/
def RecordEnd (rest : List α) : Prop := rest = [] ∨ ∃ cs, rest = m.lineFeed :: cs

variable {m}

omit [DecidableEq α] in
theorem RecordEnd.fieldEnd {rest : List α} (h : RecordEnd m rest) : FieldEnd m rest :=
  h.imp_right fun ⟨cs, h⟩ => ⟨cs, .inr h⟩

/-! ## 3. Steps of the reader -/

@[simp] theorem read_nil (mode : Mode) : read m mode [] = .done := by
  cases mode <;> rfl

/-- A separator outside quotes ends the field. -/
theorem read_separator {mode : Mode} (h : mode ≠ .quoted) (cs : List α) :
    read m mode (m.separator :: cs) = (read m .start cs).nextField := by
  simp [read, h, m.separator_ne]

/-- A line feed outside quotes, and not behind a carriage return, ends the record. -/
theorem read_lineFeed {mode : Mode} (h : mode ≠ .quoted) (hr : mode ≠ .returned) (cs : List α) :
    read m mode (m.lineFeed :: cs) = (read m .start cs).nextRecord := by
  obtain ⟨hq, hs, hc⟩ := m.lineFeed_ne
  simp [read, h, hr, hq, hs, hc]

/-- A character that is no mark belongs to a bare field. -/
theorem read_plain {c : α} (hc : c ∉ m.all) {mode : Mode} (h : mode ≠ .quoted) (cs : List α) :
    read m mode (c :: cs) = (read m .bare cs).prepend [c] := by
  simp only [Marks.all, List.mem_cons, List.not_mem_nil, or_false, not_or] at hc
  obtain ⟨hs, hq, hl, hr⟩ := hc
  simp [read, h, hs, hq, hl, hr]

/-- At the end of a field it does not matter how the field was written. -/
theorem read_fieldEnd {rest : List α} (hend : FieldEnd m rest) {mode : Mode} (h : mode ≠ .quoted)
    (hr : mode ≠ .returned) : read m mode rest = read m .start rest := by
  rcases hend with rfl | ⟨cs, rfl | rfl⟩
  · simp
  · rw [read_separator h, read_separator (by decide)]
  · rw [read_lineFeed h hr, read_lineFeed (by decide) (by decide)]

/-- Nothing of a field is left at its end. -/
theorem field_of_fieldEnd {rest : List α} (hend : FieldEnd m rest) :
    (read m .start rest).field = [] := by
  rcases hend with rfl | ⟨cs, rfl | rfl⟩
  · simp [Rest.done]
  · rw [read_separator (by decide), Rest.nextField]
  · rw [read_lineFeed (by decide) (by decide), Rest.nextRecord]

/-- Nothing of a record is left at its end. -/
theorem fields_of_recordEnd {rest : List α} (hend : RecordEnd m rest) :
    (read m .start rest).fields = [] := by
  rcases hend with rfl | ⟨cs, rfl⟩
  · simp [Rest.done]
  · rw [read_lineFeed (by decide) (by decide), Rest.nextRecord]

/-! ## 4. One field -/

/-- A field without marks is read as it stands. -/
theorem read_bare {field : List α} (h : ∀ c ∈ field, c ∉ m.all) {rest : List α}
    (hend : FieldEnd m rest) {mode : Mode} (hq : mode ≠ .quoted) (hr : mode ≠ .returned) :
    read m mode (field ++ rest) = (read m .start rest).prepend field := by
  induction field generalizing mode with
  | nil => simpa using read_fieldEnd hend hq hr
  | cons c cs ih =>
    rw [List.cons_append, read_plain (h c (by simp)) hq,
      ih (fun x hx => h x (by simp [hx])) (by decide) (by decide), Rest.prepend_prepend,
      List.singleton_append]

/-- Doubled quotes are undoubled, and the reader leaves the quotes at the first single one. -/
theorem read_double (field : List α) (rest : List α) :
    read m .quoted (double m field ++ m.quote :: rest)
      = (read m .closing rest).prepend field := by
  induction field with
  | nil => simp [double, read]
  | cons c cs ih =>
    have hstep : read m .quoted (double m (c :: cs) ++ m.quote :: rest)
        = (read m .quoted (double m cs ++ m.quote :: rest)).prepend [c] := by
      by_cases hc : c = m.quote
      · simp [double, read, hc]
      · simp [double, read, hc]
    rw [hstep, ih, Rest.prepend_prepend, List.singleton_append]

/-- A written field comes back, and the reader stands at the end of it. -/
theorem read_written {field text : List α} (h : Written m field text) {rest : List α}
    (hend : FieldEnd m rest) :
    read m .start (text ++ rest) = (read m .start rest).prepend field := by
  induction h with
  | bare hplain => exact read_bare hplain hend (by decide) (by decide)
  | quoted =>
    have hopen : ∀ cs : List α, read m .start (m.quote :: cs) = read m .quoted cs := by
      intro cs
      simp [read]
    rw [List.cons_append, hopen, List.append_assoc, List.singleton_append, read_double,
      read_fieldEnd hend (by decide) (by decide)]

/-! ## 5. One record, and the whole text -/

/-- A record is read to its end, field by field. -/
theorem read_fields {field : List α} {fields : List (List α)} {texts : List (List α)}
    (h : List.Forall₂ (Written m) (field :: fields) texts) {rest : List α}
    (hend : RecordEnd m rest) :
    read m .start (joinFields m texts ++ rest)
      = ⟨field, fields, (read m .start rest).records⟩ := by
  induction fields generalizing field texts with
  | nil =>
    obtain ⟨text, _, hwritten, hnil, rfl⟩ := List.forall₂_cons_left_iff.mp h
    obtain rfl := List.forall₂_nil_left_iff.mp hnil
    rw [joinFields, List.intercalate_singleton, read_written hwritten hend.fieldEnd]
    ext1
    · simp [Rest.prepend, field_of_fieldEnd hend.fieldEnd]
    · simp [Rest.prepend, fields_of_recordEnd hend]
    · rfl
  | cons next fields ih =>
    obtain ⟨text, texts', hwritten, hrest, rfl⟩ := List.forall₂_cons_left_iff.mp h
    have hne : texts' ≠ [] := by
      rintro rfl
      simp at hrest
    rw [joinFields, List.intercalate_cons_of_ne_nil hne, List.append_assoc, List.append_assoc,
      List.singleton_append, read_written hwritten (.inr ⟨_, .inl rfl⟩), read_separator (by decide)]
    have hread := ih hrest
    rw [joinFields] at hread
    rw [hread]
    simp [Rest.prepend, Rest.nextField]

/-- **The joined text reads back.**  Every record has a field, and every field is written in one of
the two ways. -/
theorem records_join {rows texts : List (List (List α))}
    (h : List.Forall₂ (List.Forall₂ (Written m)) rows texts) (hrows : rows ≠ [])
    (hfields : ∀ row ∈ rows, row ≠ []) :
    records m (joinRecords m (texts.map (joinFields m))) = rows := by
  induction h with
  | nil => exact absurd rfl hrows
  | @cons row text rows texts hrow hrest ih =>
    obtain ⟨field, fields, rfl⟩ := List.exists_cons_of_ne_nil (hfields row (by simp))
    rw [List.map_cons, joinRecords]
    by_cases hmore : rows = []
    · subst hmore
      obtain rfl := List.forall₂_nil_left_iff.mp hrest
      have hread := read_fields hrow (show RecordEnd m [] from .inl rfl)
      rw [List.append_nil] at hread
      rw [List.map_nil, List.intercalate_singleton, records, hread]
      simp [Rest.allRecords, Rest.done]
    · have hne : texts.map (joinFields m) ≠ [] := by
        rintro hnil
        rw [List.map_eq_nil_iff.mp hnil, List.forall₂_nil_right_iff] at hrest
        exact hmore hrest
      have hlines := ih hmore fun row hrow => hfields row (by simp [hrow])
      rw [records, joinRecords] at hlines
      rw [List.intercalate_cons_of_ne_nil hne, List.append_assoc, List.singleton_append, records,
        read_fields hrow (.inr ⟨_, rfl⟩), read_lineFeed (by decide) (by decide)]
      simp [Rest.nextRecord, Rest.allRecords, ← hlines]

end Csv
