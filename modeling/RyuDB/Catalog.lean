/-
# The catalog

`ryudb/catalog.py`: table names bound to Parquet files, schema and constraints, saved to
`<data_dir>/ryudb.catalog.json` after every change and reloaded on construction.  Only the
binding of names to paths and the constraints are saved; the schema and the row count are read
again from the files.

The disk has three parts: the Parquet files, the saved catalog and the write-ahead log.  A file
that is replaced, removed or uploaded is an update of the first, `_save` overwrites the second.
Saving is best effort in the source and never raises; here it succeeds.
-/
import RyuDB.Wal

namespace RyuDB

variable {V : Type}

/-! ## 1. Constraints -/

/-- `TableConstraints`.  The set `not_null` is a list read by membership. -/
structure TableConstraints (V : Type) where
  notNull : List String := []
  primaryKey : Option (List String) := none
  unique : List (List String) := []
  defaults : Dict String (Cell V) := ∅

/-- The JSON object `to_dict` builds. -/
structure ConstraintsJson (V : Type) where
  notNull : List String
  primaryKey : Option (List String)
  unique : List (List String)
  defaults : Dict String (Cell V)

/-- A list that is falsy when empty: `x if x else None`. -/
def truthy : Option (List String) → Option (List String)
  | some (c :: cs) => some (c :: cs)
  | _ => none

@[simp] theorem truthy_truthy (o : Option (List String)) : truthy (truthy o) = truthy o := by
  cases o with
  | none => rfl
  | some l => cases l <;> rfl

namespace TableConstraints

/-- `to_dict`: an empty primary key is written as null. -/
def toDict (c : TableConstraints V) : ConstraintsJson V where
  notNull := sortedSet c.notNull
  primaryKey := truthy c.primaryKey
  unique := c.unique
  defaults := c.defaults

/-- `from_dict`. -/
def fromDict (j : ConstraintsJson V) : TableConstraints V where
  notNull := j.notNull
  primaryKey := truthy j.primaryKey
  unique := j.unique
  defaults := j.defaults

/-- What a constraint block becomes when it is saved and loaded again. -/
def reload (c : TableConstraints V) : TableConstraints V := fromDict c.toDict

@[simp] theorem reload_primaryKey (c : TableConstraints V) :
    c.reload.primaryKey = truthy c.primaryKey := by
  simp [reload, fromDict, toDict]

/-- Saving what was loaded writes the same block again. -/
theorem toDict_reload (c : TableConstraints V) : c.reload.toDict = c.toDict := by
  simp [reload, fromDict, toDict, sortedSet_sortedSet]

@[simp] theorem mem_reload_notNull (c : TableConstraints V) (x : String) :
    x ∈ c.reload.notNull ↔ x ∈ c.notNull := mem_sortedSet

@[simp] theorem reload_unique (c : TableConstraints V) : c.reload.unique = c.unique := rfl

@[simp] theorem reload_defaults (c : TableConstraints V) : c.reload.defaults = c.defaults := rfl

end TableConstraints

/-- `TableInfo`. -/
structure TableInfo (V : Type) where
  name : String
  paths : List Path
  rowCount : Nat
  schema : Schema
  constraints : TableConstraints V

/-- `TableInfo.columns`, which the source sets to `list(schema.names)`. -/
def TableInfo.columns (i : TableInfo V) : List String := i.schema.names

/-- `TableInfo.types`: the type of a column. -/
def TableInfo.typeOf (i : TableInfo V) (c : String) : ArrowType :=
  match i.schema.find? (fun f => decide (f.name = c)) with
  | some f => f.type
  | none => .other

/-! ## 2. The disk -/

/-- One table in the saved catalog. -/
structure SavedTable (V : Type) where
  name : String
  paths : List Path
  constraints : ConstraintsJson V

/-- What survives the process. -/
structure Disk (V : Type) where
  parquet : Files V
  catalog : Option (List (SavedTable V))
  wal : Option Bytes

/-- The path argument of `register`, as `_resolve_parquet_paths` tells it apart: a directory, an
existing file, or a glob pattern (what it matches). -/
inductive PathArg where
  | dir (d : String)
  | file (p : Path)
  | glob (pattern : Path → Bool)

/-- The order `sorted` gives path strings. -/
def Path.str (p : Path) : String := p.dir ++ "/" ++ p.file

/-- The files on disk that pass a test, sorted by name. -/
def Files.listed (d : Files V) (p : Path → Bool) : List Path :=
  (d.keys.filter p).insertionSort fun a b => a.str ≤ b.str

/-- `_resolve_parquet_paths`. -/
def resolveParquetPaths (d : Files V) : PathArg → List Path
  | .dir dir => d.listed fun p =>
      decide (p.dir = dir) && p.file.endsWith ".parquet" && !p.file.startsWith "."
  | .file p => if (d.get? p).isSome then [p] else []
  | .glob pattern => d.listed pattern

/-! ## 3. The catalog -/

/-- `Catalog`. -/
structure Catalog (V : Type) where
  dataDir : Option String
  tables : Dict String (TableInfo V)

namespace Catalog

/-- `get`; an unknown name is a `KeyError`. -/
def get (c : Catalog V) (t : String) : Except DbError (TableInfo V) :=
  match c.tables.get? t with
  | some i => .ok i
  | none => .error (.key
      ("unknown table: " ++ pyRepr t ++ " (registered: " ++ pyList c.tables.keys ++ ")"))

/-- The list of tables `_save` writes. -/
def saved (c : Catalog V) : List (SavedTable V) :=
  c.tables.entries.map fun e => ⟨e.1, e.2.paths, e.2.constraints.toDict⟩

/-- `_save`: nothing without a data directory. -/
def save (c : Catalog V) (d : Disk V) : Disk V :=
  match c.dataDir with
  | none => d
  | some _ => { d with catalog := some c.saved }

/-- The entry `register` and `_load` build from the files of a table. -/
def infoOf (d : Files V) (t : String) (paths : List Path) (constraints : TableConstraints V) :
    Except DbError (TableInfo V) :=
  match paths with
  | [] => .error (.fileNotFound t)
  | p :: ps =>
    match d.read p with
    | .error e => .error e
    | .ok f =>
      match d.readAll (p :: ps) with
      | .error e => .error e
      | .ok fs => .ok
          { name := t
            paths := p :: ps
            rowCount := (fs.map fun f => f.frame.rows.length).sum
            schema := f.schema
            constraints := constraints }

/-- The constraints of a table registered over an entry: the prior ones, with the required
columns of the new schema added. -/
def inherited (prior : Option (TableInfo V)) (required : List String) : TableConstraints V :=
  match prior with
  | none => { notNull := required }
  | some p => { p.constraints with
      notNull := p.constraints.notNull ++ required.filter (· ∉ p.constraints.notNull) }

/-- `register`. -/
def register (c : Catalog V) (d : Disk V) (t : String) (path : PathArg) :
    Except DbError (Catalog V × Disk V) :=
  match resolveParquetPaths d.parquet path with
  | [] => .error (.fileNotFound ("no parquet files found for " ++ pyRepr t))
  | p :: ps =>
    match infoOf d.parquet t (p :: ps) {} with
    | .error e => .error e
    | .ok i =>
      let i := { i with constraints := inherited (c.tables.get? t) i.schema.required }
      let c' := { c with tables := c.tables.set t i }
      .ok (c', c'.save d)

/-- Replace the entry of a table and save. -/
def put (c : Catalog V) (d : Disk V) (t : String) (i : TableInfo V) : Catalog V × Disk V :=
  let c' := { c with tables := c.tables.set t i }
  (c', c'.save d)

/-- `drop_table`. -/
def dropTable (c : Catalog V) (d : Disk V) (t : String) : Except DbError (Catalog V × Disk V) :=
  match c.get t with
  | .error e => .error e
  | .ok _ =>
    let c' := { c with tables := c.tables.erase t }
    .ok (c', c'.save d)

/-- `rename_table`. -/
def renameTable (c : Catalog V) (d : Disk V) (old new : String) :
    Except DbError (Catalog V × Disk V) :=
  match c.get old with
  | .error e => .error e
  | .ok i =>
    if (c.tables.get? new).isSome then
      .error (.key ("table already exists: " ++ pyRepr new))
    else
      let c' := { c with tables := (c.tables.erase old).set new { i with name := new } }
      .ok (c', c'.save d)

/-- The check the multi-column setters share: every column is in the schema. -/
def knownColumns (i : TableInfo V) (t : String) (cols : List String) : Except DbError Unit :=
  match cols.filter (· ∉ i.columns) with
  | [] => .ok ()
  | unknown => .error (.key ("unknown columns for " ++ pyRepr t ++ ": " ++ pyList unknown))

/-- The same for one column. -/
def knownColumn (i : TableInfo V) (t c : String) : Except DbError Unit :=
  if c ∈ i.columns then .ok ()
  else .error (.key ("unknown column for " ++ pyRepr t ++ ": " ++ pyRepr c))

/-- A setter: look the table up, check the columns, change the constraints, save. -/
def alterWith (check : TableInfo V → Except DbError Unit)
    (f : TableConstraints V → TableConstraints V) (c : Catalog V) (d : Disk V) (t : String) :
    Except DbError (Catalog V × Disk V) :=
  match c.get t with
  | .error e => .error e
  | .ok i =>
    match check i with
    | .error e => .error e
    | .ok _ => .ok (c.put d t { i with constraints := f i.constraints })

/-- `set_primary_key`. -/
def setPrimaryKey (c : Catalog V) (d : Disk V) (t : String) (cols : List String) :
    Except DbError (Catalog V × Disk V) :=
  alterWith (fun i => knownColumns i t cols)
    (fun k => { k with
      primaryKey := some cols
      notNull := k.notNull ++ cols.filter (· ∉ k.notNull) }) c d t

/-- `set_not_null`. -/
def setNotNull (c : Catalog V) (d : Disk V) (t col : String) (on : Bool) :
    Except DbError (Catalog V × Disk V) :=
  alterWith (fun i => knownColumn i t col)
    (fun k => { k with notNull :=
      if on then (if col ∈ k.notNull then k.notNull else k.notNull ++ [col])
      else k.notNull.filter (· ≠ col) }) c d t

/-- `set_unique`. -/
def setUnique (c : Catalog V) (d : Disk V) (t : String) (cols : List String) :
    Except DbError (Catalog V × Disk V) :=
  alterWith (fun i => knownColumns i t cols)
    (fun k => { k with unique := if cols ∈ k.unique then k.unique else k.unique ++ [cols] }) c d t

/-- `set_default`. -/
def setDefault (c : Catalog V) (d : Disk V) (t col : String) (v : Cell V) :
    Except DbError (Catalog V × Disk V) :=
  alterWith (fun i => knownColumn i t col)
    (fun k => { k with defaults := k.defaults.set col v }) c d t

/-- `drop_default`, the one setter that does not check its column. -/
def dropDefault (c : Catalog V) (d : Disk V) (t col : String) :
    Except DbError (Catalog V × Disk V) :=
  alterWith (fun _ => .ok ()) (fun k => { k with defaults := k.defaults.erase col }) c d t

/-- One entry of `_load`: skipped when its first file is missing or a file cannot be read. -/
def loadEntry (d : Files V) (c : Catalog V) (e : SavedTable V) : Catalog V :=
  match infoOf d e.name e.paths (TableConstraints.fromDict e.constraints) with
  | .error _ => c
  | .ok i => { c with tables := c.tables.set e.name i }

/-- `Catalog(data_dir)`: the saved tables whose files are readable. -/
def load (dataDir : Option String) (d : Disk V) : Catalog V :=
  match dataDir, d.catalog with
  | some dir, some saved => saved.foldl (loadEntry d.parquet) ⟨some dir, ∅⟩
  | dir, _ => ⟨dir, ∅⟩

/-! ## 4. What the changes do -/

/-- The entry built from files names them, and its schema is that of the first. -/
theorem infoOf_ok {d : Files V} {t : String} {paths : List Path} {k : TableConstraints V}
    {i : TableInfo V} (h : infoOf d t paths k = .ok i) : ∃ f fs, d.readAll paths = .ok (f :: fs) ∧
      i.paths = paths ∧ i.schema = f.schema ∧ i.constraints = k := by
  unfold infoOf at h
  split at h
  · cases h
  · rename_i p ps
    split at h
    · cases h
    · rename_i f hf
      split at h
      · cases h
      · rename_i fs hfs
        cases h
        rw [Files.readAll, hf] at hfs
        simp only at hfs
        split at hfs
        · cases hfs
        · rename_i fs' hfs'
          cases hfs
          refine ⟨f, fs', ?_, rfl, rfl, rfl⟩
          rw [Files.readAll, hf]
          simp only [hfs']

theorem infoOf_of_readAll {d : Files V} {paths : List Path} {f : Parquet V} {fs : List (Parquet V)}
    (h : d.readAll paths = .ok (f :: fs)) (t : String) (k : TableConstraints V) :
    ∃ i, infoOf d t paths k = .ok i := by
  cases paths with
  | nil => cases h
  | cons p ps =>
    unfold infoOf
    cases hf : d.read p with
    | error x =>
      rw [Files.readAll, hf] at h
      cases h
    | ok g =>
      simp only [hf, h]
      exact ⟨_, rfl⟩

theorem save_parquet (c : Catalog V) (d : Disk V) : (c.save d).parquet = d.parquet := by
  unfold save
  split <;> rfl

theorem save_wal (c : Catalog V) (d : Disk V) : (c.save d).wal = d.wal := by
  unfold save
  split <;> rfl

theorem save_catalog {c : Catalog V} (h : c.dataDir.isSome = true) (d : Disk V) :
    (c.save d).catalog = some c.saved := by
  unfold save
  split
  · rename_i hn
    rw [hn] at h
    cases h
  · rfl

variable {c c' : Catalog V} {d d' : Disk V} {t : String}

/-- The entry `register` makes is read from the files the path names. -/
theorem register_ok {path : PathArg} (h : c.register d t path = .ok (c', d')) :
    ∃ i f fs, d.parquet.readAll i.paths = .ok (f :: fs) ∧
      resolveParquetPaths d.parquet path = i.paths ∧ i.schema = f.schema ∧
      i.constraints = inherited (c.tables.get? t) i.schema.required ∧
      c' = { c with tables := c.tables.set t i } ∧ d' = c'.save d := by
  unfold register at h
  split at h
  · cases h
  · rename_i p ps hres
    split at h
    · cases h
    · rename_i i hi
      cases h
      obtain ⟨f, fs, hread, hpaths, hschema, -⟩ := infoOf_ok hi
      exact ⟨{ i with constraints := inherited (c.tables.get? t) i.schema.required }, f, fs,
        by rw [hpaths]; exact hread, hres.trans hpaths.symm, hschema, rfl, rfl, rfl⟩

theorem get_ok {i : TableInfo V} (h : c.get t = .ok i) : c.tables.get? t = some i := by
  unfold get at h
  split at h
  · cases h
    assumption
  · cases h

theorem dropTable_ok (h : c.dropTable d t = .ok (c', d')) :
    c' = { c with tables := c.tables.erase t } ∧ d' = c'.save d := by
  unfold dropTable at h
  split at h
  · cases h
  · cases h
    exact ⟨rfl, rfl⟩

theorem renameTable_ok {old new : String} (h : c.renameTable d old new = .ok (c', d')) :
    ∃ i, c.tables.get? old = some i ∧ c.tables.get? new = none ∧
      c' = { c with tables := (c.tables.erase old).set new { i with name := new } } ∧
      d' = c'.save d := by
  unfold renameTable at h
  split at h
  · cases h
  · rename_i i hi
    split at h
    · cases h
    · rename_i hnew
      cases h
      exact ⟨i, get_ok hi, by simpa using hnew, rfl, rfl⟩

theorem alterWith_ok {check : TableInfo V → Except DbError Unit}
    {f : TableConstraints V → TableConstraints V}
    (h : alterWith check f c d t = .ok (c', d')) :
    ∃ i, c.tables.get? t = some i ∧ check i = .ok () ∧
      c' = { c with tables := c.tables.set t { i with constraints := f i.constraints } } ∧
      d' = c'.save d := by
  unfold alterWith at h
  split at h
  · cases h
  · rename_i i hi
    split at h
    · cases h
    · rename_i hcheck
      cases h
      exact ⟨i, get_ok hi, hcheck, rfl, rfl⟩

end Catalog

end RyuDB
