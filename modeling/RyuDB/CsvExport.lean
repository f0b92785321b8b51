/-
# The CSV export

`tableToCSV` writes a result table as text: a header with the column names, then a line for every row.
A name or cell is quoted only when it holds a comma, a quote or a line break; decimal integers and
dates are written without that test.

* `tableToCSV_readsBack`: a reader of separated values finds the names and the cells' texts in it, one
  record for the header and one for each row.

A table without columns has one empty field too many in every record (`no_fields_no_record`), and a
date that is no moment has no text at all.
-/
import Mathlib.Data.List.Nodup
import RyuDB.Lib.Csv

namespace RyuDB

namespace CsvExport

/-! ## 1. What a vector holds -/

/-- What `JSON.stringify` does with an object. -/
inductive Json
  | text (s : List Char)
  | undefined
  | throws

/-- The host's renderings: of its floating point numbers, and of objects as JSON and by `String`.
`String` of an object may throw. -/
structure Host (Num Obj : Type) where
  numberText : Num → List Char
  stringify : Obj → Json
  objectText : Obj → Option (List Char)

/-- A cell, as `vector.get` returns it.  A date has a time in milliseconds, or none when it is invalid. -/
inductive Value (Num Obj : Type)
  | null
  | undefined
  | bigint (n : Int)
  | date (time : Option Int)
  | object (o : Obj)
  | string (s : List Char)
  | boolean (b : Bool)
  | number (x : Num)

/-- A field of the schema, with the vector that stands at its place. -/
structure Field (Num Obj : Type) where
  name : List Char
  vector : Nat → Value Num Obj

structure Table (Num Obj : Type) where
  fields : List (Field Num Obj)
  numRows : Nat

variable {Num Obj : Type}

/-- `table.getChild`: the first column of that name. -/
def Table.getChild (table : Table Num Obj) (name : List Char) : Option (Nat → Value Num Obj) :=
  (table.fields.find? fun f => f.name = name).map Field.vector

def Table.names (table : Table Num Obj) : List (List Char) := table.fields.map Field.name

/-! ## 2. Texts of cells -/

/-- `v.toString()` of a big integer. -/
def bigintText (n : Int) : List Char :=
  if n < 0 then '-' :: Nat.toDigits 10 n.natAbs else Nat.toDigits 10 n.natAbs

/-- A number with at least `width` digits. -/
def pad (width n : Nat) : List Char :=
  List.replicate (width - (Nat.toDigits 10 n).length) '0' ++ Nat.toDigits 10 n

/-- Year, month and day of a day counted from 1970-01-01: the era of 400 years, the year of the era,
and the day of a year that begins in March. -/
def civil (days : Int) : Int × Nat × Nat :=
  let z := days + 719468
  let era := z / 146097
  let doe := (z % 146097).toNat
  let yoe := (doe - doe / 1460 + doe / 36524 - doe / 146096) / 365
  let doy := doe - (365 * yoe + yoe / 4 - yoe / 100)
  let mp := (5 * doy + 2) / 153
  let month := if mp < 10 then mp + 3 else mp - 9
  let year := (yoe : Int) + era * 400
  (if month ≤ 2 then year + 1 else year, month, doy - (153 * mp + 2) / 5 + 1)

/-- Four digits, or a sign and six. -/
def yearText (year : Int) : List Char :=
  if 0 ≤ year ∧ year ≤ 9999 then pad 4 year.natAbs
  else (if year < 0 then '-' else '+') :: pad 6 year.natAbs

/-- `v.toISOString()`, which throws on an invalid date. -/
def toISOString (time : Option Int) : Option (List Char) :=
  time.map fun t =>
    let (year, month, day) := civil (t / 86400000)
    let ms := (t % 86400000).toNat
    yearText year ++ '-' :: pad 2 month ++ '-' :: pad 2 day ++ 'T' :: pad 2 (ms / 3600000)
      ++ ':' :: pad 2 (ms / 60000 % 60) ++ ':' :: pad 2 (ms / 1000 % 60) ++ '.' :: pad 3 (ms % 1000)
      ++ ['Z']

example : toISOString (some 1709210096789) = some "2024-02-29T12:34:56.789Z".toList := by decide

example : toISOString (some (-62198755200000)) = some "-000001-01-01T00:00:00.000Z".toList := by decide

/-- The comma, the quote and the two line breaks. -/
def csvMarks : Csv.Marks Char := ⟨',', Char.ofNat 34, '\n', '\r', by decide⟩

/-- `csvEscape`. -/
def csvEscape (s : List Char) : List Char :=
  if s.any (· ∈ csvMarks.all) then
    csvMarks.quote :: (s.flatMap fun c => if c = csvMarks.quote then [c, c] else [c]) ++ [csvMarks.quote]
  else s

/-- `cellToCsv`.  `none` where an exception leaves it. -/
def cellToCsv (host : Host Num Obj) : Value Num Obj → Option (List Char)
  | .null => some []
  | .undefined => some []
  | .bigint n => some (bigintText n)
  | .date time => toISOString time
  | .object o =>
    match host.stringify o with
    | .text s => some (csvEscape s)
    -- `undefined` passes the test unquoted, and `join` writes nothing for it
    | .undefined => some []
    | .throws => (host.objectText o).map csvEscape
  | .string s => some (csvEscape s)
  | .boolean b => some (csvEscape (if b then "true".toList else "false".toList))
  | .number x => some (csvEscape (host.numberText x))

/-- What the loop of `tableToCSV` pushes for a row. -/
def csvRow (host : Host Num Obj) (cols : List (Option (Nat → Value Num Obj))) (i : Nat) :
    Option (List Char) := do
  let row ← cols.mapM fun c => cellToCsv host (c.elim .null fun get => get i)
  return List.intercalate [','] row

/-- `tableToCSV`. -/
def tableToCSV (host : Host Num Obj) (table : Table Num Obj) : Option (List Char) := do
  let cols := table.fields.map fun f => table.getChild f.name
  let header := List.intercalate [','] (table.fields.map fun f => csvEscape f.name)
  let parts ← (List.range table.numRows).mapM (csvRow host cols)
  return List.intercalate ['\n'] (header :: parts)

/-! ## 3. The plain texts, and how they are written -/

/-- The plain text of a cell: nothing for NULL, decimal digits, the ISO form of a date, the JSON text of
an object or else what `String` makes of it.  `none` where there is none. -/
def plainText (host : Host Num Obj) : Value Num Obj → Option (List Char)
  | .null => some []
  | .undefined => some []
  | .bigint n => some (bigintText n)
  | .date time => toISOString time
  | .object o =>
    match host.stringify o with
    | .text s => some s
    | .undefined => some []
    | .throws => host.objectText o
  | .string s => some s
  | .boolean b => some (if b then "true".toList else "false".toList)
  | .number x => some (host.numberText x)

/-- No character of the text is a mark. -/
def Plain (s : List Char) : Prop := ∀ c ∈ s, c ∉ csvMarks.all

@[simp] theorem plain_nil : Plain [] := by simp [Plain]

@[simp] theorem plain_cons {c : Char} {s : List Char} : Plain (c :: s) ↔ c ∉ csvMarks.all ∧ Plain s := by
  simp [Plain]

@[simp] theorem plain_append {s t : List Char} : Plain (s ++ t) ↔ Plain s ∧ Plain t := by
  simp [Plain, or_imp, forall_and]

@[simp] theorem plain_toDigits (n : Nat) : Plain (Nat.toDigits 10 n) := by
  intro c hc hmark
  have hdigit := Nat.isDigit_of_mem_toDigits (by decide) (by decide) hc
  simp only [csvMarks, Csv.Marks.all, List.mem_cons, List.not_mem_nil, or_false] at hmark
  rcases hmark with rfl | rfl | rfl | rfl <;> exact absurd hdigit (by decide)

@[simp] theorem plain_pad (width n : Nat) : Plain (pad width n) := by
  rw [pad, plain_append]
  refine ⟨fun c hc => ?_, plain_toDigits n⟩
  rw [List.eq_of_mem_replicate hc]
  decide

theorem plain_bigintText (n : Int) : Plain (bigintText n) := by
  unfold bigintText
  split_ifs
  · exact plain_cons.mpr ⟨by decide, plain_toDigits _⟩
  · exact plain_toDigits _

theorem plain_yearText (year : Int) : Plain (yearText year) := by
  unfold yearText
  split_ifs
  · exact plain_pad _ _
  · exact plain_cons.mpr ⟨by decide, plain_pad _ _⟩
  · exact plain_cons.mpr ⟨by decide, plain_pad _ _⟩

theorem plain_toISOString {time : Option Int} {s : List Char} (h : toISOString time = some s) :
    Plain s := by
  obtain ⟨t, -, rfl⟩ := Option.map_eq_some_iff.mp h
  simp [plain_yearText, csvMarks, Csv.Marks.all]

/-- `csvEscape` writes its text bare or quoted. -/
theorem csvEscape_written (s : List Char) : Csv.Written csvMarks s (csvEscape s) := by
  unfold csvEscape
  split_ifs with h
  · exact .quoted s
  · exact .bare fun c hc hmark => h (by simpa using ⟨c, hc, hmark⟩)

/-- **A cell that has a text is written**, whether or not the code looks for marks in it. -/
theorem cellToCsv_written {host : Host Num Obj} {v : Value Num Obj} {field : List Char}
    (h : plainText host v = some field) :
    ∃ text, cellToCsv host v = some text ∧ Csv.Written csvMarks field text := by
  have hempty : Csv.Written csvMarks [] [] := .bare (by simp)
  induction v with
  | null | undefined =>
    obtain rfl := Option.some.inj h
    exact ⟨[], rfl, hempty⟩
  | bigint n =>
    obtain rfl := Option.some.inj h
    exact ⟨_, rfl, .bare (plain_bigintText n)⟩
  | date time => exact ⟨field, h, .bare (plain_toISOString h)⟩
  | object o =>
    simp only [plainText] at h
    simp only [cellToCsv]
    cases hjson : host.stringify o with
    | text s =>
      simp only [hjson, Option.some.injEq] at h
      exact ⟨_, rfl, h ▸ csvEscape_written s⟩
    | undefined =>
      simp only [hjson, Option.some.injEq] at h
      exact ⟨_, rfl, h ▸ hempty⟩
    | throws =>
      simp only [hjson] at h
      exact ⟨csvEscape field, by simp [h], csvEscape_written field⟩
  | string s | boolean b | number x =>
    obtain rfl := Option.some.inj h
    exact ⟨_, rfl, csvEscape_written _⟩

/-! ## 4. The export reads back -/

/-- The export succeeds, and the reader finds one record of the column names and one for each row, which
has a field for each column, the plain text of the cell. -/
def ReadsBack (host : Host Num Obj) (table : Table Num Obj) : Prop :=
  ∃ text rows, tableToCSV host table = some text ∧
    Csv.records csvMarks text = table.names :: rows ∧
    List.Forall₂ (fun i row => List.Forall₂
      (fun (f : Field Num Obj) field => plainText host (f.vector i) = some field) table.fields row)
      (List.range table.numRows) rows

/-- A name that one column has finds that column. -/
theorem getChild_of_mem {table : Table Num Obj} (hnames : table.names.Nodup) {f : Field Num Obj}
    (hf : f ∈ table.fields) : table.getChild f.name = some f.vector := by
  have hsome : (table.fields.find? fun g => g.name = f.name).isSome := by
    rw [List.find?_isSome]
    exact ⟨f, hf, by simp⟩
  obtain ⟨g, hg⟩ := Option.isSome_iff_exists.mp hsome
  have hname : g.name = f.name := by simpa using List.find?_some hg
  obtain rfl := List.inj_on_of_nodup_map hnames (List.mem_of_find?_eq_some hg) hf hname
  rw [Table.getChild, hg, Option.map_some]

/-- A run of `mapM` in which no step fails. -/
theorem mapM_eq_map {α β : Type} {f : α → Option β} {g : α → β} {l : List α}
    (h : ∀ a ∈ l, f a = some (g a)) : l.mapM f = some (l.map g) := by
  induction l with
  | nil => rfl
  | cons a l ih =>
    rw [List.mapM_cons, h a (by simp), ih fun x hx => h x (by simp [hx])]
    rfl

/-- Every cell of the table has a text. -/
def Renderable (host : Host Num Obj) (table : Table Num Obj) : Prop :=
  ∀ f ∈ table.fields, ∀ i < table.numRows, ∃ field, plainText host (f.vector i) = some field

/-- The plain text of a cell that has one. -/
def Field.plain (host : Host Num Obj) (f : Field Num Obj) (i : Nat) : List Char :=
  (plainText host (f.vector i)).getD []

/-- A cell that has a text, as it is written. -/
def Field.written (host : Host Num Obj) (f : Field Num Obj) (i : Nat) : List Char :=
  (cellToCsv host (f.vector i)).getD []

section Rendered

variable {host : Host Num Obj} {table : Table Num Obj}

theorem plain_eq (hcells : Renderable host table) {f : Field Num Obj} (hf : f ∈ table.fields)
    {i : Nat} (hi : i < table.numRows) : plainText host (f.vector i) = some (f.plain host i) := by
  obtain ⟨s, hs⟩ := hcells f hf i hi
  simp [Field.plain, hs]

theorem written_eq (hcells : Renderable host table) {f : Field Num Obj} (hf : f ∈ table.fields)
    {i : Nat} (hi : i < table.numRows) :
    cellToCsv host (f.vector i) = some (f.written host i) ∧
      Csv.Written csvMarks (f.plain host i) (f.written host i) := by
  obtain ⟨s, hs, hwritten⟩ := cellToCsv_written (plain_eq hcells hf hi)
  simpa [Field.written, hs] using hwritten

/-- The line of a row. -/
theorem csvRow_eq (hnames : table.names.Nodup) (hcells : Renderable host table) {i : Nat}
    (hi : i < table.numRows) :
    csvRow host (table.fields.map fun f => table.getChild f.name) i
      = some (Csv.joinFields csvMarks (table.fields.map (·.written host i))) := by
  have hrow : (table.fields.map fun f => table.getChild f.name).mapM
      (fun c => cellToCsv host (c.elim .null fun get => get i))
      = some (table.fields.map (·.written host i)) := by
    rw [List.mapM_map]
    refine mapM_eq_map fun f hf => ?_
    rw [Function.comp_apply, getChild_of_mem hnames hf]
    exact (written_eq hcells hf hi).1
  rw [csvRow, hrow]
  rfl

/-- The text of the export. -/
theorem tableToCSV_eq (hnames : table.names.Nodup) (hcells : Renderable host table) :
    tableToCSV host table = some (Csv.joinRecords csvMarks
      ((table.names.map csvEscape :: (List.range table.numRows).map fun i =>
        table.fields.map (·.written host i)).map (Csv.joinFields csvMarks))) := by
  rw [tableToCSV, mapM_eq_map fun i hi => csvRow_eq hnames hcells (List.mem_range.mp hi)]
  simp [Table.names, Csv.joinRecords, Csv.joinFields, csvMarks, Function.comp_def]

/-- Header and rows are written field by field. -/
theorem fields_written (hcells : Renderable host table) :
    List.Forall₂ (List.Forall₂ (Csv.Written csvMarks))
      (table.names :: (List.range table.numRows).map fun i => table.fields.map (·.plain host i))
      (table.names.map csvEscape :: (List.range table.numRows).map fun i =>
        table.fields.map (·.written host i)) := by
  refine .cons ?_ ?_
  · rw [List.forall₂_map_right_iff, List.forall₂_same]
    exact fun name _ => csvEscape_written name
  · rw [List.forall₂_map_left_iff, List.forall₂_map_right_iff, List.forall₂_same]
    intro i hi
    rw [List.forall₂_map_left_iff, List.forall₂_map_right_iff, List.forall₂_same]
    exact fun f hf => (written_eq hcells hf (List.mem_range.mp hi)).2

end Rendered

/-- **The CSV export reads back.**  `hnames` stands for a schema without two columns of one name,
since a cell is found by the name of its column; `hfields` for a schema with columns, since a record
of none is an empty line; and `hcells` for objects whose `String` does not throw, which would end the
export. -/
theorem tableToCSV_readsBack (host : Host Num Obj) (table : Table Num Obj)
    (hnames : table.names.Nodup) (hfields : table.fields ≠ []) (hcells : Renderable host table) :
    ReadsBack host table := by
  refine ⟨_, _, tableToCSV_eq hnames hcells,
    Csv.records_join (fields_written hcells) (by simp) ?_, ?_⟩
  · intro row hrow
    rcases List.mem_cons.mp hrow with rfl | hrow
    · simpa [Table.names] using hfields
    · obtain ⟨i, -, rfl⟩ := List.mem_map.mp hrow
      simpa using hfields
  · rw [List.forall₂_map_right_iff, List.forall₂_same]
    intro i hi
    rw [List.forall₂_map_right_iff, List.forall₂_same]
    exact fun f hf => plain_eq hcells hf (List.mem_range.mp hi)

/-- A host without objects, and with one number. -/
def plainHost : Host Unit Empty where
  numberText _ := "0.5".toList
  stringify o := nomatch o
  objectText o := nomatch o

/-- Two columns; their names and cells hold commas, quotes, line breaks, a large integer and NULL. -/
def awkward : Table Unit Empty where
  fields := [
    ⟨"a,b".toList, fun i => if i = 0 then .string "x,\"y\"\r\nz".toList else .null⟩,
    ⟨"n".toList, fun i => if i = 0 then .bigint (-9223372036854775808) else .number ()⟩]
  numRows := 2

theorem tableToCSV_readsBack_awkward : ReadsBack plainHost awkward := by
  refine tableToCSV_readsBack plainHost awkward (by decide) (List.cons_ne_nil _ _) ?_
  intro f hf i hi
  simp only [awkward, List.mem_cons, List.not_mem_nil, or_false] at hf
  rcases hf with rfl | rfl
  · dsimp only
    split_ifs
    · exact ⟨_, rfl⟩
    · exact ⟨_, rfl⟩
  · dsimp only
    split_ifs
    · exact ⟨bigintText _, rfl⟩
    · exact ⟨_, rfl⟩

/-! ## 5. Tables that do not read back -/

def noFields : Table Unit Empty := ⟨[], 0⟩

def invalidDate : Table Unit Empty := ⟨[⟨"d".toList, fun _ => .date none⟩], 1⟩

/-- Without columns the header line is empty, which a reader takes for one field; an invalid date makes
the export throw. -/
theorem no_fields_no_record :
    noFields.names.Nodup ∧ ¬ ReadsBack plainHost noFields ∧
      invalidDate.names.Nodup ∧ ¬ ReadsBack plainHost invalidDate := by
  refine ⟨by decide, ?_, by decide, ?_⟩
  · rintro ⟨text, rows, htext, hread, -⟩
    obtain rfl : [] = text := Option.some.inj htext
    simp [Csv.records, Csv.Rest.allRecords, Table.names, noFields] at hread
  · rintro ⟨text, rows, htext, -, -⟩
    cases htext

end CsvExport

end RyuDB
