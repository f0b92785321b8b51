/-
# Rows, frames and Parquet files

The values a table holds.  A cell is a value or NULL, a row is a map from column names to cells,
and a frame is a list of rows together with the columns they have.  A row says nothing outside
the columns of its frame: `Frame.supported` carries that as a field, so selecting the columns of
a frame from itself changes nothing and a key read from a frame depends on its columns only.

`storage.scan` (`ryudb/storage.py`) reads the files of a table into one frame.  Its cast of
DECIMAL columns to float64 changes the representation of a column and not the values the engine
compares, so it is the identity here.
-/
import Mathlib.Data.List.Dedup
import Mathlib.Data.List.Sort
import RyuDB.Lib.Dict

namespace RyuDB

/-! ## 1. Exceptions -/

/-- The exceptions the engine raises or lets through, by class, with the text of the message. -/
inductive DbError where
  | runtime (msg : String)
  | parse (msg : String)
  | key (msg : String)
  | value (msg : String)
  | notImplemented (msg : String)
  | fileNotFound (msg : String)
  | os (msg : String)
  | structError (msg : String)
  | protocol (msg : String)
  | cancelledByUser
  deriving DecidableEq, Repr

/-- A computation in two parts returned: both parts did. -/
theorem bind_eq_ok {α β : Type} {x : Except DbError α} {f : α → Except DbError β} {b : β} :
    (x >>= f) = .ok b ↔ ∃ a, x = .ok a ∧ f a = .ok b := by
  constructor
  · intro h
    cases x with
    | error e => cases h
    | ok a => exact ⟨a, rfl, h⟩
  · rintro ⟨a, rfl, h⟩
    exact h

/-- `repr` of a string without quotes inside. -/
def pyRepr (s : String) : String := "'" ++ s ++ "'"

/-- `repr` of a list of strings. -/
def pyList (l : List String) : String := "[" ++ ", ".intercalate (l.map pyRepr) ++ "]"

/-- Different numbers are written differently. -/
theorem toString_number_inj {i j : Nat} : toString i = toString j ↔ i = j := by
  constructor
  · intro h
    have hdigits : Nat.toDigits 10 i = Nat.toDigits 10 j := by
      rw [← Nat.toList_repr, ← Nat.toList_repr]
      exact congrArg String.toList h
    have hback := congrArg (fun cs => Nat.ofDigitChars 10 cs 0) hdigits
    simpa only [Nat.ofDigitChars_ten_toDigits] using hback
  · exact congrArg _

/-- `sorted(set(l))`. -/
def sortedSet (l : List String) : List String := l.dedup.insertionSort (· ≤ ·)

theorem mem_sortedSet {c : String} {l : List String} : c ∈ sortedSet l ↔ c ∈ l := by
  rw [sortedSet, List.mem_insertionSort, List.mem_dedup]

theorem nodup_sortedSet (l : List String) : (sortedSet l).Nodup :=
  (List.perm_insertionSort _ _).nodup_iff.mpr (List.nodup_dedup l)

/-- A sorted set is already sorted and without repetition. -/
theorem sortedSet_sortedSet (l : List String) : sortedSet (sortedSet l) = sortedSet l := by
  have hsorted : (sortedSet l).Pairwise (· ≤ ·) := List.pairwise_insertionSort _ _
  rw [sortedSet, (nodup_sortedSet l).dedup]
  exact hsorted.insertionSort_eq

/-! ## 2. Rows and keys -/

/-- A cell: a value, or `none` for NULL. -/
abbrev Cell (V : Type) := Option V

instance instDecidableMemCell {V : Type} [DecidableEq V] (x : Cell V) (l : List (Cell V)) :
    Decidable (x ∈ l) := inferInstance

/-- A row: column name to cell. -/
abbrev Row (V : Type) := String → Cell V

/-- The values of a row in a list of key columns. -/
abbrev Key (V : Type) := List (Cell V)

variable {V : Type}

/-- The equality tests of keys, column lists and pairs of columns, named once. -/
instance instLawfulBEqKey [DecidableEq V] : LawfulBEq (List (Option V)) := inferInstance
instance instLawfulBEqColumns : LawfulBEq (List String) := inferInstance
instance instLawfulBEqPair : LawfulBEq (String × String) := inferInstance

/-- The key of a row. -/
def keyOf (cols : List String) (r : Row V) : Key V := cols.map r

/-- A key without NULL. -/
def Key.nonNull (k : Key V) : Bool := k.all Option.isSome

/-- The row with every cell outside `cols` forgotten. -/
def restrict (cols : List String) (r : Row V) : Row V := fun c => if c ∈ cols then r c else none

theorem restrict_mem {cols : List String} {r : Row V} {c : String} (h : c ∈ cols) :
    restrict cols r c = r c := if_pos h

theorem restrict_notMem {cols : List String} {r : Row V} {c : String} (h : c ∉ cols) :
    restrict cols r c = none := if_neg h

/-- A key inside the columns that are kept does not notice the restriction. -/
theorem keyOf_restrict {cols key : List String} (h : ∀ c ∈ key, c ∈ cols) (r : Row V) :
    keyOf key (restrict cols r) = keyOf key r :=
  List.map_congr_left fun c hc => restrict_mem (h c hc)

/-- The cell of a row given by its columns and cells. -/
def cellOf (cols : List String) (cells : List (Cell V)) (c : String) : Cell V :=
  match cols, cells with
  | d :: cols, x :: cells => if d = c then x else cellOf cols cells c
  | _, _ => none

theorem cellOf_map (r : Row V) (c : String) : ∀ cols : List String, c ∈ cols →
    cellOf cols (cols.map r) c = r c
  | d :: cols, h => by
    rw [List.map_cons, cellOf]
    split
    · rename_i hd
      rw [hd]
    · rename_i hd
      exact cellOf_map r c cols ((List.mem_cons.mp h).resolve_left fun e => hd e.symm)

theorem cellOf_notMem (c : String) : ∀ (cols : List String) (cells : List (Cell V)), c ∉ cols →
    cellOf cols cells c = none
  | [], _, _ => by rw [cellOf]; simp
  | _ :: _, [], _ => by rw [cellOf]; simp
  | d :: cols, x :: cells, h => by
    simp only [List.mem_cons, not_or] at h
    rw [cellOf, if_neg fun e => h.1 e.symm]
    exact cellOf_notMem c cols cells h.2

theorem cellOf_of_mem_zip {c : String} {x : Cell V} : ∀ {names : List String}
    {cells : List (Cell V)}, names.Nodup → (c, x) ∈ names.zip cells → cellOf names cells c = x
  | n :: names, y :: cells, hn, h => by
    rw [List.zip_cons_cons, List.mem_cons] at h
    rw [cellOf]
    rcases h with h | h
    · cases h
      rw [if_pos rfl]
    · have hne : n ≠ c := by
        rintro rfl
        exact (List.nodup_cons.mp hn).1 (List.of_mem_zip h).1
      rw [if_neg hne]
      exact cellOf_of_mem_zip (List.nodup_cons.mp hn).2 h

/-- A row that has the cells under the names shows the cells. -/
theorem keyOf_of_zip {r : Row V} : ∀ {names : List String} {cells : List (Cell V)},
    names.length = cells.length → (∀ p ∈ names.zip cells, r p.1 = p.2) → keyOf names r = cells
  | [], [], _, _ => rfl
  | n :: names, x :: cells, hl, h => by
    have hhead : r n = x := h (n, x) List.mem_cons_self
    have htail : keyOf names r = cells :=
      keyOf_of_zip (Nat.succ.inj hl) fun p hp => h p (List.mem_cons_of_mem _ hp)
    rw [keyOf, List.map_cons, hhead]
    exact congrArg _ htail

theorem keyOf_cellOf {names : List String} {cells : List (Cell V)} (hn : names.Nodup)
    (hl : names.length = cells.length) : keyOf names (cellOf names cells) = cells :=
  keyOf_of_zip hl fun _ hp => cellOf_of_mem_zip hn hp

/-! ## 3. Frames -/

/-- A data frame. -/
structure Frame (V : Type) where
  columns : List String
  rows : List (Row V)
  supported : ∀ r ∈ rows, ∀ c, c ∉ columns → r c = none

namespace Frame

@[ext] theorem ext {f g : Frame V} (hc : f.columns = g.columns) (hr : f.rows = g.rows) :
    f = g := by
  cases f
  cases g
  cases hc
  cases hr
  rfl

/-- The rows of `rows` cut down to `cols`. -/
def ofRows (cols : List String) (rows : List (Row V)) : Frame V where
  columns := cols
  rows := rows.map (restrict cols)
  supported := by
    intro r hr c hc
    obtain ⟨r', -, rfl⟩ := List.mem_map.mp hr
    exact restrict_notMem hc

/-- `f[cols]`; a column the frame does not have is a `KeyError`. -/
def select (f : Frame V) (cols : List String) : Except DbError (Frame V) :=
  match cols.filter (· ∉ f.columns) with
  | [] => .ok (ofRows cols f.rows)
  | missing => .error (.key (pyList missing ++ " not in index"))

/-- `f[mask]` for a mask computed row by row. -/
def filter (f : Frame V) (p : Row V → Bool) : Frame V where
  columns := f.columns
  rows := f.rows.filter p
  supported r hr := f.supported r (List.mem_of_mem_filter hr)

/-- `f.dropna(subset=cols)`. -/
def dropna (f : Frame V) (cols : List String) : Frame V :=
  f.filter fun r => Key.nonNull (keyOf cols r)

/-- `len(f)`. -/
def len (f : Frame V) : Nat := f.rows.length

/-- `cudf.concat` of frames that all have the columns `cols`. -/
def concat (cols : List String) (fs : List (Frame V)) : Except DbError (Frame V) :=
  if h : ∀ f ∈ fs, f.columns = cols then
    .ok { columns := cols
          rows := fs.flatMap Frame.rows
          supported := by
            intro r hr c hc
            obtain ⟨f, hf, hr⟩ := List.mem_flatMap.mp hr
            exact f.supported r hr c (by rwa [h f hf]) }
  else .error (.value "columns do not match")

@[simp] theorem ofRows_columns (cols : List String) (rows : List (Row V)) :
    (ofRows cols rows).columns = cols := rfl

@[simp] theorem ofRows_rows (cols : List String) (rows : List (Row V)) :
    (ofRows cols rows).rows = rows.map (restrict cols) := rfl

@[simp] theorem filter_columns (f : Frame V) (p : Row V → Bool) :
    (f.filter p).columns = f.columns := rfl

@[simp] theorem filter_rows (f : Frame V) (p : Row V → Bool) :
    (f.filter p).rows = f.rows.filter p := rfl

/-- A selection returned exactly when the frame has the columns. -/
theorem select_ok {f g : Frame V} {cols : List String} :
    f.select cols = .ok g ↔ (∀ c ∈ cols, c ∈ f.columns) ∧ g = ofRows cols f.rows := by
  unfold select
  have hnil : cols.filter (fun c => decide (c ∉ f.columns)) = [] ↔ ∀ c ∈ cols, c ∈ f.columns := by
    simp [List.filter_eq_nil_iff]
  cases hm : cols.filter (fun c => decide (c ∉ f.columns)) with
  | nil =>
    have hall := hnil.mp hm
    simp only [Except.ok.injEq]
    exact ⟨fun h => ⟨hall, h.symm⟩, fun h => h.2.symm⟩
  | cons c l =>
    constructor
    · intro h
      cases h
    · intro h
      rw [hnil.mpr h.1] at hm
      cases hm

theorem select_of_subset {f : Frame V} {cols : List String} (h : ∀ c ∈ cols, c ∈ f.columns) :
    f.select cols = .ok (ofRows cols f.rows) := select_ok.mpr ⟨h, rfl⟩

/-- Inside the frame's own columns a restriction is the identity. -/
theorem restrict_self {f : Frame V} {r : Row V} (hr : r ∈ f.rows) :
    restrict f.columns r = r := by
  funext c
  by_cases hc : c ∈ f.columns
  · exact restrict_mem hc
  · rw [restrict_notMem hc, f.supported r hr c hc]

theorem ofRows_self (f : Frame V) : ofRows f.columns f.rows = f := by
  refine ext rfl ?_
  rw [ofRows_rows]
  exact (List.map_congr_left fun r hr => restrict_self hr).trans (List.map_id _)

/-- A frame is the selection of its own columns. -/
theorem select_self (f : Frame V) : f.select f.columns = .ok f := by
  rw [select_of_subset fun _ h => h, ofRows_self]

theorem concat_ok {cols : List String} {fs : List (Frame V)} {g : Frame V}
    (h : concat cols fs = .ok g) :
    (∀ f ∈ fs, f.columns = cols) ∧ g.columns = cols ∧ g.rows = fs.flatMap Frame.rows := by
  unfold concat at h
  split at h
  · rename_i hall
    cases h
    exact ⟨hall, rfl, rfl⟩
  · cases h

theorem concat_of_columns {cols : List String} {fs : List (Frame V)}
    (h : ∀ f ∈ fs, f.columns = cols) : ∃ g, concat cols fs = .ok g := by
  unfold concat
  rw [dif_pos h]
  exact ⟨_, rfl⟩

end Frame

/-! ## 4. Schemas and Parquet files -/

/-- The Arrow types `_arrow_match_dtype` (`exec/fused.py`) tells apart. -/
inductive ArrowType where
  | decimal
  | floating
  | integer
  | date
  | other
  deriving DecidableEq, Repr

/-- A schema field. -/
structure Field where
  name : String
  type : ArrowType
  nullable : Bool
  deriving DecidableEq, Repr

/-- An Arrow schema. -/
abbrev Schema := List Field

/-- `schema.names`. -/
def Schema.names (s : Schema) : List String := s.map Field.name

/-- `{f.name for f in schema if not f.nullable}`. -/
def Schema.required (s : Schema) : List String := (s.filter fun f => !f.nullable).map Field.name

/-- A Parquet file: a schema and rows that obey it.  A required column holds no NULL. -/
structure Parquet (V : Type) where
  schema : Schema
  frame : Frame V
  names : frame.columns = schema.names
  required : ∀ r ∈ frame.rows, ∀ c ∈ schema.required, (r c).isSome

namespace Parquet

/-- `pa.Table.cast(schema)`: the field names must match in order, and a NULL in a required field
is refused. -/
def cast (f : Frame V) (s : Schema) : Except DbError (Parquet V) :=
  if hn : f.columns = s.names then
    if hr : ∀ r ∈ f.rows, ∀ c ∈ s.required, (r c).isSome then .ok ⟨s, f, hn, hr⟩
    else .error (.value "Casting field with null values to non-nullable")
  else .error (.value "Target schema's field names are not matching the table's field names")

theorem cast_ok {f : Frame V} {s : Schema} {p : Parquet V} (h : cast f s = .ok p) :
    p.schema = s ∧ p.frame = f := by
  unfold cast at h
  split at h
  · split at h
    · cases h
      exact ⟨rfl, rfl⟩
    · cases h
  · cases h

theorem cast_of {f : Frame V} {s : Schema} (hn : f.columns = s.names)
    (hr : ∀ r ∈ f.rows, ∀ c ∈ s.required, (r c).isSome) :
    ∃ p : Parquet V, cast f s = .ok p ∧ p.schema = s ∧ p.frame = f := by
  unfold cast
  rw [dif_pos hn, dif_pos hr]
  exact ⟨_, rfl, rfl, rfl⟩

end Parquet

/-! ## 5. Files -/

/-- A file name: its directory and its last component. -/
structure Path where
  dir : String
  file : String
  deriving DecidableEq, Repr

/-- The Parquet files on disk. -/
abbrev Files (V : Type) := Dict Path (Parquet V)

namespace Files

/-- Open one Parquet file. -/
def read (d : Files V) (p : Path) : Except DbError (Parquet V) :=
  match d.get? p with
  | some f => .ok f
  | none => .error (.fileNotFound (p.dir ++ "/" ++ p.file))

/-- Open several Parquet files in order. -/
def readAll (d : Files V) : List Path → Except DbError (List (Parquet V))
  | [] => .ok []
  | p :: ps =>
    match d.read p with
    | .error e => .error e
    | .ok f =>
      match readAll d ps with
      | .error e => .error e
      | .ok fs => .ok (f :: fs)

/-- `storage.scan`: read the files of a table into one frame, all columns or the sorted
requested ones. -/
def scan (d : Files V) (paths : List Path) (columns : Option (List String)) :
    Except DbError (Frame V) :=
  match d.readAll paths with
  | .error e => .error e
  | .ok [] => .error (.value "no files")
  | .ok (f :: fs) =>
    match Frame.concat f.frame.columns ((f :: fs).map Parquet.frame) with
    | .error e => .error e
    | .ok g =>
      match columns with
      | none => .ok g
      | some cs => g.select cs

theorem read_ok {d : Files V} {p : Path} {f : Parquet V} :
    d.read p = .ok f ↔ d.get? p = some f := by
  unfold read
  cases d.get? p <;> simp

/-- Reading depends on the files read only. -/
theorem readAll_congr {d d' : Files V} : ∀ {ps : List Path}, (∀ p ∈ ps, d.get? p = d'.get? p) →
    d.readAll ps = d'.readAll ps
  | [], _ => rfl
  | p :: ps, h => by
    have hp : d.read p = d'.read p := by rw [read, read, h p List.mem_cons_self]
    have hps : d.readAll ps = d'.readAll ps :=
      readAll_congr fun q hq => h q (List.mem_cons_of_mem _ hq)
    rw [readAll, readAll, hp, hps]

/-- A file written under a new name leaves the others. -/
theorem get?_set_fresh {d : Files V} {p q : Path} (hp : d.get? p = none) (data : Parquet V)
    {f : Parquet V} (hq : d.get? q = some f) : (d.set p data).get? q = some f := by
  have hne : q ≠ p := by
    rintro rfl
    rw [hp] at hq
    cases hq
  rw [Dict.get?_set, if_neg hne]
  exact hq

/-- Files that were read exist. -/
theorem get?_of_readAll {d : Files V} : ∀ {ps : List Path} {fs : List (Parquet V)},
    d.readAll ps = .ok fs → ∀ {p : Path}, p ∈ ps → ∃ f, d.get? p = some f
  | [], _, _, _, hp => by cases hp
  | q :: ps, fs, h, p, hp => by
    unfold readAll at h
    split at h
    · cases h
    · rename_i f hf
      split at h
      · cases h
      · rename_i fs' hfs
        rcases List.mem_cons.mp hp with rfl | hp
        · exact ⟨f, read_ok.mp hf⟩
        · exact get?_of_readAll hfs hp

theorem scan_congr {d d' : Files V} {ps : List Path} (columns : Option (List String))
    (h : ∀ p ∈ ps, d.get? p = d'.get? p) : d.scan ps columns = d'.scan ps columns := by
  rw [scan, scan, readAll_congr h]

/-- What was scanned can be read. -/
theorem readAll_of_scan {d : Files V} {ps : List Path} {b : Frame V} (h : d.scan ps none = .ok b) :
    ∃ f fs, d.readAll ps = .ok (f :: fs) := by
  unfold scan at h
  split at h
  · cases h
  · cases h
  · rename_i f fs hr
    exact ⟨f, fs, hr⟩

/-- A scan has the columns of the first file. -/
theorem scan_columns {d : Files V} {ps : List Path} {f : Parquet V} {fs : List (Parquet V)}
    {b : Frame V} (hr : d.readAll ps = .ok (f :: fs)) (h : d.scan ps none = .ok b) :
    b.columns = f.frame.columns := by
  rw [scan, hr] at h
  simp only at h
  split at h
  · cases h
  · rename_i g hg
    cases h
    exact (Frame.concat_ok hg).2.1

/-- A table of one file is that file. -/
theorem scan_singleton {d : Files V} {p : Path} {f : Parquet V} (h : d.get? p = some f) :
    d.scan [p] none = .ok f.frame := by
  have hr : d.readAll [p] = .ok [f] := by
    simp only [readAll, read_ok.mpr h]
  have hc : ∀ g ∈ [f].map Parquet.frame, g.columns = f.frame.columns := by simp
  obtain ⟨g, hg⟩ := Frame.concat_of_columns hc
  obtain ⟨-, hgc, hgr⟩ := Frame.concat_ok hg
  have hgf : g = f.frame := Frame.ext hgc (by simpa using hgr)
  rw [scan, hr]
  simp only [hg, hgf]

/-- A projected scan is the projection of the full scan. -/
theorem scan_some {d : Files V} {ps : List Path} {cs : List String} {g : Frame V}
    (h : d.scan ps none = .ok g) : d.scan ps (some cs) = g.select cs := by
  unfold scan at h ⊢
  cases hr : d.readAll ps with
  | error e => rw [hr] at h; cases h
  | ok fs =>
    rw [hr] at h
    cases fs with
    | nil => cases h
    | cons f fs =>
      simp only at h ⊢
      cases hc : Frame.concat f.frame.columns ((f :: fs).map Parquet.frame) with
      | error e => rw [hc] at h; cases h
      | ok g' =>
        rw [hc] at h
        cases h
        rfl

end Files

/-! ## 6. The host

What the engine takes from Python, pandas and pyarrow without defining it.  Listing a `set` gives
its elements in an order of the interpreter's choosing; `pd.array` and `pd.to_datetime` bring the
values of a column to its dtype and may raise, and a date that cannot be read becomes NULL; Arrow IPC
writes a frame to bytes and reads it back unchanged.

`coerce ty col v` is what becomes of the value `v` in the column `col`.  It takes the column because
`pd.to_datetime` does: the format is read off the first value, and one in another format is not read. -/

/-- The services of the host, with the laws the engine relies on. -/
structure Host (V : Type) where
  setOrder : List String → List String
  setOrder_perm : ∀ l, (setOrder l).Perm l.dedup
  coerce : ArrowType → List (Cell V) → V → Except DbError (Cell V)
  serialize : Frame V → List UInt8
  deserialize : List UInt8 → Option (Frame V)
  roundtrip : ∀ f, deserialize (serialize f) = some f

/-- No value is turned into NULL, as an unreadable date is. -/
def Host.Exact (H : Host V) : Prop := ∀ ty col v c, H.coerce ty col v = .ok c → c.isSome = true

theorem Host.mem_setOrder (H : Host V) {t : String} {l : List String} :
    t ∈ H.setOrder l ↔ t ∈ l := by
  rw [(H.setOrder_perm l).mem_iff, List.mem_dedup]

theorem Host.nodup_setOrder (H : Host V) (l : List String) : (H.setOrder l).Nodup :=
  (H.setOrder_perm l).nodup_iff.mpr (List.nodup_dedup l)

end RyuDB
