/-
# The engine: state, scans, commits, transactions, snapshots

The part of `Engine` (`ryudb/exec/executor.py`) that owns the data: the catalog, the scan cache,
the delta store, the commit counter, the named snapshots and the log.  A statement runs in a
`Session`: the engine, the transaction in the thread's `_txn` slot, and the faults that will
strike during the statement (a cancel seen at the n-th check, a failing log append, a failing
log truncation, an aggregate that writes its keys and `__cnt` into the frame `_scan` returned, which
is the cached one).  Code that may raise is a `Proc` over the session, so what it wrote before a
raise stays written.

The log is written before the store and truncated back after a failed append, so every function
that writes is given here in the order of its writes: what a raise leaves behind depends on that order
and on nothing else.  A timestamp is taken before the append and is not given back.

Two things are said elsewhere.  `mergeDelta` takes the cells of a batch as they are and keeps
timestamps beside the rows; `_merge_delta` casts each column to the dtype it has in the base, which can
change a value (a 64-bit number in an INT32 column), and keeps timestamps in columns of the frame.
`MergeColumns` has both, and says when the two functions agree.  The frame an aggregate may write into is
here a fault of the session (`writesBack`); `BuiltExec` has the operator that does it.

The code and key caches (`_code_cache`, `_pk_cache`), which no function below reads, are in `CodeCaches`.
-/
import RyuDB.Catalog
import RyuDB.Lib.Proc
import RyuDB.Lib.Versioned

namespace RyuDB

variable {V : Type}

/-! ## 1. State -/

/-- The engine and the disk it runs on. -/
structure Engine (V : Type) where
  catalog : Catalog V
  scanCache : Dict (String × Option (List String)) (Frame V)
  delta : DeltaStore V
  commitTs : Int
  snapshots : Dict String Int
  disk : Disk V

/-- What goes wrong during one statement: the cancel event is seen set after `cancelAfter` more
checks, the next log append fails, the next log truncation fails, and an aggregate of its query writes
into the frames that are cached. -/
structure Faults where
  cancelAfter : Option Nat := none
  append : Option AppendFault := none
  truncate : Bool := false
  writesBack : Bool := false
  deriving DecidableEq, Repr

/-- A statement's surroundings: the engine, the thread's `_txn` slot, the faults to come. -/
structure Session (V : Type) where
  eng : Engine V
  txn : Option (Transaction V)
  faults : Faults

/-- Engine code. -/
abbrev Op (V : Type) := Proc DbError (Session V)

/-- `_INS_INF`, the timestamp of a buffered write. -/
def insInf : Int := 2 ^ 62

namespace Engine

/-! ## 2. Scans -/

/-- `_check_cancel`. -/
def checkCancel : Op V Unit := fun s =>
  match s.faults.cancelAfter with
  | none => (.ok (), s)
  | some 0 => (.error .cancelledByUser, s)
  | some (n + 1) => (.ok (), { s with faults := { s.faults with cancelAfter := some n } })

/-- `self.catalog.get`. -/
def catalogGet (t : String) : Op V (TableInfo V) := do
  let s ← Proc.get
  Proc.lift (s.eng.catalog.get t)

/-- The insert batches a scan of `t` merges, each with its insertion timestamp: committed ones
(at the snapshot inside a transaction), then the transaction's buffer. -/
def insertEntries (s : Session V) (t : String) : List (Int × Frame V) :=
  match s.txn with
  | none => s.eng.delta.batchesWithTs t
  | some x => s.eng.delta.batchesAtWithTs t x.snapshotTs ++
      (x.bufferBatches t).map fun f => (insInf, f)

/-- The tombstones a scan of `t` applies. -/
def tombEntries (s : Session V) (t : String) : List (Int × Frame V × Bool) :=
  match s.txn with
  | none => s.eng.delta.tombstonesWithTs t
  | some x => s.eng.delta.tombstonesAtWithTs t x.snapshotTs ++
      (x.tombstoneBatchesWithFlag t).map fun e => (insInf, e.1, e.2)

/-- `has_pending`. -/
def hasPending (s : Session V) (t : String) : Bool :=
  s.eng.delta.hasUnflushed t || (match s.txn with
    | none => false
    | some x => x.has t)

/-- `has_tomb` in `_scan`. -/
def hasTomb (s : Session V) (t : String) : Bool :=
  s.eng.delta.hasTombstones t || (match s.txn with
    | none => false
    | some x => x.hasTombstone t)

/-- One batch cut to the columns of the base and tagged with its timestamp. -/
def tagBatch (cols : List String) (e : Int × Frame V) : Except DbError (List (Int × Row V)) :=
  match e.2.select cols with
  | .error x => .error x
  | .ok f => .ok (f.rows.map fun r => (e.1, r))

/-- The body of the loops over the batches: check for a cancel, then cut and tag. -/
def tagStep (cols : List String) (e : Int × Frame V) : Op V (List (Int × Row V)) := do
  checkCancel
  Proc.lift (tagBatch cols e)

/-- The tombstone keys under the primary key `pk`, with timestamp and flag. -/
def tombKeys (pk : List String) :
    List (Int × Frame V × Bool) → Except DbError (List (Int × Key V × Bool))
  | [] => .ok []
  | (ts, f, fl) :: l =>
    match f.select pk with
    | .error x => .error x
    | .ok g =>
      match tombKeys pk l with
      | .error x => .error x
      | .ok ks => .ok ((g.rows.map fun r => (ts, keyOf pk r, fl)) ++ ks)

/-- The tombstones of one kind; grouping drops a key that holds NULL. -/
def tombsFlagged (fl : Bool) (ks : List (Int × Key V × Bool)) : List (Key V × Int) :=
  (ks.filter fun e => decide (e.2.2 = fl) && Key.nonNull e.2.1).map fun e => (e.2.1, e.1)

/-- The declared primary key of `t`. -/
def primaryKeyOf (c : Catalog V) (t : String) : Except DbError (Option (List String)) :=
  match c.get t with
  | .error x => .error x
  | .ok i => .ok i.constraints.primaryKey

/-- The base frame of a scan: the cached one, or the files, which are then cached. -/
def scanBase (t : String) (cols : Option (List String)) : Op V (Frame V) := do
  let s ← Proc.get
  match s.eng.scanCache.get? (t, cols) with
  | some base => return base
  | none =>
    let info ← catalogGet t
    let base ← Proc.lift (s.eng.disk.parquet.scan info.paths cols)
    Proc.modify fun s => { s with eng := { s.eng with
      scanCache := s.eng.scanCache.set (t, cols) base } }
    return base

/-- `frozenset(columns) if columns else None`, listed in sorted order. -/
def columnSet : Option (List String) → Option (List String)
  | none => none
  | some [] => none
  | some (c :: cs) => some (sortedSet (c :: cs))

section Merge

variable [DecidableEq V]

/-- Group the tombstones of each kind by key, take the greatest timestamp, left-merge both onto
the tagged rows and keep the rows that pass the two comparisons.  Grouping by no column is
refused, and so is a key column the rows do not have. -/
def antiJoin (pk cols : List String) (ks : List (Int × Key V × Bool))
    (merged : List (Int × Row V)) : Except DbError (List (Int × Row V)) :=
  if pk.isEmpty && !ks.isEmpty then .error (.value "No group keys passed")
  else
    match pk.filter (· ∉ cols) with
    | [] => .ok (Versioned.collapse (keyOf pk) merged (tombsFlagged false ks)
        (tombsFlagged true ks))
    | missing => .error (.key (pyList missing))

/-- The tombstone half of `_merge_delta`.  Without a declared key the tombstones are ignored. -/
def applyTombs (pk : Except DbError (Option (List String))) (cols : List String)
    (entries : List (Int × Frame V × Bool)) (merged : List (Int × Row V)) :
    Except DbError (List (Int × Row V)) :=
  if entries.isEmpty then .ok merged
  else
    match pk with
    | .error x => .error x
    | .ok none => .ok merged
    | .ok (some pk) =>
      match tombKeys pk entries with
      | .error x => .error x
      | .ok ks => antiJoin pk cols ks merged

/-- `_merge_delta`, with the timestamps beside the rows and without the cast of the batches to the base;
`mergeColumns_eq` says when that is the same. -/
def mergeDelta (base : Frame V) (t : String) : Op V (Frame V) := do
  let s ← Proc.get
  let ins := insertEntries s t
  let tomb := tombEntries s t
  if ins.isEmpty && tomb.isEmpty then
    return base
  else
    let cols := base.columns
    let parts ← Proc.collect (tagStep cols) ins
    let merged := (base.rows.map fun r => ((0 : Int), r)) ++ parts.flatten
    let kept ← Proc.lift (applyTombs (primaryKeyOf s.eng.catalog t) cols tomb merged)
    return Frame.ofRows cols (kept.map Prod.snd)

/-- `_scan`.  A live tombstone needs every key column, so the full base is then read from the
files, merged, and projected afterwards. -/
def scan (t : String) (columns : Option (List String)) : Op V (Frame V) := do
  let base ← scanBase t (columnSet columns)
  let s ← Proc.get
  if hasPending s t then
    if hasTomb s t then
      let info ← catalogGet t
      let fullBase ← Proc.lift (s.eng.disk.parquet.scan info.paths none)
      let merged ← mergeDelta fullBase t
      match columns with
      | none => return merged
      | some cs => Proc.lift (merged.select (sortedSet cs))
    else mergeDelta base t
  else return base

/-- The rows a `SELECT *` sees outside any transaction, when nothing goes wrong during it. -/
def visible (e : Engine V) (t : String) : Except DbError (List (Row V)) :=
  match (scan t none ⟨e, none, {}⟩).1 with
  | .ok f => .ok f.rows
  | .error x => .error x

/-- The rows a `SELECT *` inside the transaction `x` sees, when nothing goes wrong during it. -/
def visibleIn (e : Engine V) (x : Transaction V) (t : String) : Except DbError (List (Row V)) :=
  match (scan t none ⟨e, some x, {}⟩).1 with
  | .ok f => .ok f.rows
  | .error x => .error x

end Merge

/-! ## 3. Commits -/

variable (H : Host V)

/-- The write-ahead log is enabled exactly when there is a data directory. -/
def walEnabled (e : Engine V) : Bool := e.catalog.dataDir.isSome

/-- `_write_commit`: a new timestamp, then the log record, and only then the store. -/
def writeCommit (bs : List (Batch V)) : Op V Int := fun s =>
  let ts := s.eng.commitTs + 1
  let w := Wal.writeCommit H s.eng.walEnabled s.eng.disk.wal s.faults.append ts bs
  let eng := { s.eng with commitTs := ts, disk := { s.eng.disk with wal := w.2 } }
  match w.1 with
  | .error x => (.error x, { s with eng := eng })
  | .ok _ => (.ok ts, { s with eng := { eng with delta := eng.delta.addAll ts bs } })

/-- `_begin`. -/
def begin_ : Op V Unit := fun s =>
  match s.txn with
  | some _ => (.error (.runtime
      "BEGIN inside an active transaction (nested txns not supported)"), s)
  | none => (.ok (), { s with txn := some { snapshotTs := s.eng.commitTs } })

/-- The batches `_commit` flushes: the buffered inserts of every written table, in the order a
set lists them, then the buffered tombstones in the order the tables got their first one. -/
def commitBatches (x : Transaction V) : List (Batch V) :=
  ((H.setOrder x.tableNames).flatMap fun t =>
    (x.bufferBatches t).map fun f => ⟨t, .insert, f⟩) ++
  (x.tombstoneTables.flatMap fun t =>
    (x.tombstoneBatchesWithFlag t).map fun e =>
      ⟨t, if e.2 then .tombstoneUpdate else .tombstone, e.1⟩)

/-- `_commit`. -/
def commit : Op V Unit := do
  let s ← Proc.get
  match s.txn with
  | none => Proc.raise (.runtime "COMMIT without an active transaction")
  | some x =>
    let _ ← writeCommit H (commitBatches H x)
    Proc.modify fun s => { s with txn := none }

/-- `_rollback`. -/
def rollback : Op V Unit := fun s =>
  match s.txn with
  | none => (.error (.runtime "ROLLBACK without an active transaction"), s)
  | some _ => (.ok (), { s with txn := none })

/-! ## 4. Snapshots -/

/-- `snapshot`. -/
def snapshot (name : String) : Op V Unit := Proc.modify fun s =>
  { s with eng := { s.eng with snapshots := s.eng.snapshots.set name s.eng.commitTs } }

/-- `self._wal.truncate(ts)`: nothing when the log is disabled or has no file yet. -/
def walTruncate (ts : Int) : Op V Unit := fun s =>
  if s.eng.walEnabled then
    match s.eng.disk.wal with
    | none => (.ok (), s)
    | some file =>
      if s.faults.truncate then (.error (.os "truncate failed"), s)
      else (.ok (), { s with eng := { s.eng with
        disk := { s.eng.disk with wal := some (Wal.truncate ts file) } } })
  else (.ok (), s)

/-- `_restore_to`. -/
def restoreTo (target : Int) : Op V Unit := do
  let s ← Proc.get
  match s.txn with
  | some _ => Proc.raise (.runtime "cannot restore during a transaction (ROLLBACK first)")
  | none =>
    if target > s.eng.commitTs then
      Proc.raise (.runtime ("cannot restore to ts " ++ toString target ++
        " > current commit ts " ++ toString s.eng.commitTs ++
        " (that state was already discarded)"))
    else
      Proc.modify fun s => { s with eng := { s.eng with
        delta := s.eng.delta.rewind target
        commitTs := target } }
      walTruncate target
      Proc.modify fun s => { s with eng := { s.eng with
        snapshots := s.eng.snapshots.filter fun _ ts => decide (ts ≤ target) } }

/-- `restore`. -/
def restore (name : String) : Op V Unit := do
  let s ← Proc.get
  match s.eng.snapshots.get? name with
  | none => Proc.raise (.runtime ("unknown snapshot: " ++ name))
  | some ts => restoreTo ts

/-! ## 5. Start-up -/

/-- Apply the replayed entries to an empty store. -/
def replayDelta (l : List (Int × Batch V)) : DeltaStore V :=
  l.foldl (fun d e => DeltaStore.route e.1 d e.2) DeltaStore.empty

/-- The greatest replayed timestamp, at least 0. -/
def replayCommitTs (l : List (Int × Batch V)) : Int := l.foldl (fun m e => max m e.1) 0

/-- `Engine(Catalog(data_dir))`: load the catalog, replay the log, cut its torn tail. -/
def start (dataDir : Option String) (d : Disk V) : Engine V :=
  let catalog := Catalog.load dataDir d
  let file := if dataDir.isSome then d.wal else none
  match file with
  | none => ⟨catalog, ∅, DeltaStore.empty, 0, ∅, d⟩
  | some bs =>
    let r := Wal.replay H bs
    ⟨catalog, ∅, replayDelta r.1, replayCommitTs r.1, ∅, { d with wal := some r.2 }⟩

end Engine

end RyuDB
