/-
# The delta store and the transaction buffer

`DeltaStore` (`ryudb/delta.py`) keeps, per table, the committed insert batches and tombstones
that the immutable base files do not hold yet, each tagged with the timestamp of its commit.
`Transaction` (`ryudb/transaction.py`) is the same two channels without timestamps: the writes
of one transaction before its COMMIT.

A commit is a list of `Batch`es.  `DeltaStore.route` sends one batch to its channel, and
`addAll` sends the batches of one commit in order; both the commit path and WAL replay go
through them.  The store is read per table, so two stores are the same when they read the same
for every table (`Same`): the order in which tables were first written is not part of the data.
-/
import RyuDB.Frame

namespace RyuDB

variable {V : Type}

/-! ## 1. Batches -/

/-- The tag of a batch in a commit: rows to add, keys removed by DELETE (rows inserted at or
before the tombstone go), keys removed by UPDATE (rows inserted strictly before it go). -/
inductive Kind where
  | insert
  | tombstone
  | tombstoneUpdate
  deriving DecidableEq, Repr

/-- One `(table, kind, frame)` triple of a commit. -/
structure Batch (V : Type) where
  table : String
  kind : Kind
  frame : Frame V

/-- The insert frames a list of batches holds for `t`, in order. -/
def insertsOf (t : String) (bs : List (Batch V)) : List (Frame V) :=
  (bs.filter fun b => decide (b.table = t ∧ b.kind = .insert)).map Batch.frame

/-- The tombstone frames a list of batches holds for `t`, in order, with their
`exclude_same_ts` flag. -/
def tombsOf (t : String) (bs : List (Batch V)) : List (Frame V × Bool) :=
  (bs.filter fun b => decide (b.table = t ∧ b.kind ≠ .insert)).map fun b =>
    (b.frame, decide (b.kind = .tombstoneUpdate))

/-! ## 2. The store -/

/-- Per-table lists of committed batches and tombstones. -/
structure DeltaStore (V : Type) where
  batches : Dict String (List (Int × Frame V))
  tombstones : Dict String (List (Int × Frame V × Bool))

namespace DeltaStore

/-- The store of a new engine. -/
def empty : DeltaStore V := ⟨∅, ∅⟩

/-- `has_unflushed`: there is a committed batch or tombstone for the table. -/
def hasUnflushed (d : DeltaStore V) (t : String) : Bool :=
  !(d.batches.lists t).isEmpty || !(d.tombstones.lists t).isEmpty

/-- The names behind `tables()`, before the set is listed. -/
def tableNames (d : DeltaStore V) : List String := d.batches.active ++ d.tombstones.active

/-- `batches_with_ts`. -/
def batchesWithTs (d : DeltaStore V) (t : String) : List (Int × Frame V) := d.batches.lists t

/-- `batches_at_with_ts`: the batches committed at or before `ts`. -/
def batchesAtWithTs (d : DeltaStore V) (t : String) (ts : Int) : List (Int × Frame V) :=
  (d.batches.lists t).filter fun e => decide (e.1 ≤ ts)

/-- `has_tombstones`. -/
def hasTombstones (d : DeltaStore V) (t : String) : Bool := !(d.tombstones.lists t).isEmpty

/-- `tombstones_with_ts`. -/
def tombstonesWithTs (d : DeltaStore V) (t : String) : List (Int × Frame V × Bool) :=
  d.tombstones.lists t

/-- `tombstones_at_with_ts`: the tombstones committed at or before `ts`. -/
def tombstonesAtWithTs (d : DeltaStore V) (t : String) (ts : Int) :
    List (Int × Frame V × Bool) :=
  (d.tombstones.lists t).filter fun e => decide (e.1 ≤ ts)

/-- `append`. -/
def append (d : DeltaStore V) (t : String) (f : Frame V) (ts : Int) : DeltaStore V :=
  { d with batches := d.batches.push t (ts, f) }

/-- `append_tombstone`. -/
def appendTombstone (d : DeltaStore V) (t : String) (f : Frame V) (ts : Int)
    (excludeSameTs : Bool) : DeltaStore V :=
  { d with tombstones := d.tombstones.push t (ts, f, excludeSameTs) }

/-- `rewind`: drop what was committed after `ts`, and the keys whose list became empty.  The
tables it touched, which the source returns to invalidate derived caches, are not kept. -/
def rewind (d : DeltaStore V) (ts : Int) : DeltaStore V where
  batches := (d.batches.mapVal (List.filter fun e => decide (e.1 ≤ ts))).filter
    fun _ l => !l.isEmpty
  tombstones := (d.tombstones.mapVal (List.filter fun e => decide (e.1 ≤ ts))).filter
    fun _ l => !l.isEmpty

/-- `clear(table)`. -/
def clear (d : DeltaStore V) (t : String) : DeltaStore V :=
  ⟨d.batches.erase t, d.tombstones.erase t⟩

/-- Send one batch to its channel, the dispatch of `_write_commit` and of WAL replay. -/
def route (ts : Int) (d : DeltaStore V) (b : Batch V) : DeltaStore V :=
  match b.kind with
  | .tombstone => d.appendTombstone b.table b.frame ts false
  | .tombstoneUpdate => d.appendTombstone b.table b.frame ts true
  | .insert => d.append b.table b.frame ts

/-- Send the batches of one commit in order. -/
def addAll (d : DeltaStore V) (ts : Int) (bs : List (Batch V)) : DeltaStore V :=
  bs.foldl (route ts) d

/-- The two stores read the same for every table. -/
def Same (d d' : DeltaStore V) : Prop :=
  ∀ t, d.batchesWithTs t = d'.batchesWithTs t ∧ d.tombstonesWithTs t = d'.tombstonesWithTs t

theorem Same.refl (d : DeltaStore V) : Same d d := fun _ => ⟨rfl, rfl⟩

/-! ## 3. What the reads see after each write -/

@[simp] theorem batchesWithTs_addAll (d : DeltaStore V) (ts : Int) (bs : List (Batch V))
    (t : String) : (d.addAll ts bs).batchesWithTs t =
      d.batchesWithTs t ++ (insertsOf t bs).map fun f => (ts, f) := by
  unfold addAll
  induction bs generalizing d with
  | nil => simp [insertsOf]
  | cons b bs ih =>
    rw [List.foldl_cons, ih]
    cases hk : b.kind with
    | insert =>
      by_cases ht : t = b.table
      · simp [route, hk, append, batchesWithTs, insertsOf, ht]
      · have ht' : ¬ b.table = t := fun h => ht h.symm
        simp [route, hk, append, batchesWithTs, insertsOf, ht, ht']
    | tombstone => simp [route, hk, appendTombstone, batchesWithTs, insertsOf]
    | tombstoneUpdate => simp [route, hk, appendTombstone, batchesWithTs, insertsOf]

@[simp] theorem tombstonesWithTs_addAll (d : DeltaStore V) (ts : Int) (bs : List (Batch V))
    (t : String) : (d.addAll ts bs).tombstonesWithTs t =
      d.tombstonesWithTs t ++ (tombsOf t bs).map fun e => (ts, e.1, e.2) := by
  unfold addAll
  induction bs generalizing d with
  | nil => simp [tombsOf]
  | cons b bs ih =>
    rw [List.foldl_cons, ih]
    cases hk : b.kind with
    | insert => simp [route, hk, append, tombstonesWithTs, tombsOf]
    | tombstone =>
      by_cases ht : t = b.table
      · simp [route, hk, appendTombstone, tombstonesWithTs, tombsOf, ht]
      · have ht' : ¬ b.table = t := fun h => ht h.symm
        simp [route, hk, appendTombstone, tombstonesWithTs, tombsOf, ht, ht']
    | tombstoneUpdate =>
      by_cases ht : t = b.table
      · simp [route, hk, appendTombstone, tombstonesWithTs, tombsOf, ht]
      · have ht' : ¬ b.table = t := fun h => ht h.symm
        simp [route, hk, appendTombstone, tombstonesWithTs, tombsOf, ht, ht']

@[simp] theorem batchesWithTs_rewind (d : DeltaStore V) (ts : Int) (t : String) :
    (d.rewind ts).batchesWithTs t = d.batchesAtWithTs t ts := by
  simp [rewind, batchesWithTs, batchesAtWithTs]

@[simp] theorem tombstonesWithTs_rewind (d : DeltaStore V) (ts : Int) (t : String) :
    (d.rewind ts).tombstonesWithTs t = d.tombstonesAtWithTs t ts := by
  simp [rewind, tombstonesWithTs, tombstonesAtWithTs]

@[simp] theorem batchesWithTs_clear (d : DeltaStore V) (t u : String) :
    (d.clear t).batchesWithTs u = if u = t then [] else d.batchesWithTs u := by
  simp [clear, batchesWithTs]

@[simp] theorem tombstonesWithTs_clear (d : DeltaStore V) (t u : String) :
    (d.clear t).tombstonesWithTs u = if u = t then [] else d.tombstonesWithTs u := by
  simp [clear, tombstonesWithTs]

theorem batchesAtWithTs_eq (d : DeltaStore V) (t : String) (ts : Int) :
    d.batchesAtWithTs t ts = (d.batchesWithTs t).filter fun e => decide (e.1 ≤ ts) := rfl

theorem tombstonesAtWithTs_eq (d : DeltaStore V) (t : String) (ts : Int) :
    d.tombstonesAtWithTs t ts = (d.tombstonesWithTs t).filter fun e => decide (e.1 ≤ ts) := rfl

theorem hasUnflushed_iff (d : DeltaStore V) (t : String) :
    d.hasUnflushed t = true ↔ d.batchesWithTs t ≠ [] ∨ d.tombstonesWithTs t ≠ [] := by
  simp [hasUnflushed, batchesWithTs, tombstonesWithTs]

theorem hasTombstones_iff (d : DeltaStore V) (t : String) :
    d.hasTombstones t = true ↔ d.tombstonesWithTs t ≠ [] := by
  simp [hasTombstones, tombstonesWithTs]

theorem mem_tableNames (d : DeltaStore V) (t : String) :
    t ∈ d.tableNames ↔ d.hasUnflushed t = true := by
  rw [hasUnflushed_iff, tableNames, List.mem_append, Dict.mem_active, Dict.mem_active]
  rfl

end DeltaStore

/-! ## 4. Transactions -/

/-- One in-flight transaction: the commit counter at BEGIN and the uncommitted writes. -/
structure Transaction (V : Type) where
  snapshotTs : Int
  buffer : Dict String (List (Frame V)) := ∅
  tombstones : Dict String (List (Frame V × Bool)) := ∅

namespace Transaction

/-- `buffer_append`. -/
def bufferAppend (x : Transaction V) (t : String) (f : Frame V) : Transaction V :=
  { x with buffer := x.buffer.push t f }

/-- `buffer_batches`. -/
def bufferBatches (x : Transaction V) (t : String) : List (Frame V) := x.buffer.lists t

/-- `tombstone_append`. -/
def tombstoneAppend (x : Transaction V) (t : String) (f : Frame V) (excludeSameTs : Bool) :
    Transaction V :=
  { x with tombstones := x.tombstones.push t (f, excludeSameTs) }

/-- `tombstone_batches_with_flag`. -/
def tombstoneBatchesWithFlag (x : Transaction V) (t : String) : List (Frame V × Bool) :=
  x.tombstones.lists t

/-- `has_tombstone`. -/
def hasTombstone (x : Transaction V) (t : String) : Bool := !(x.tombstones.lists t).isEmpty

/-- `tombstone_tables`, in insertion order. -/
def tombstoneTables (x : Transaction V) : List String := x.tombstones.active

/-- `has`: the transaction wrote to the table. -/
def has (x : Transaction V) (t : String) : Bool :=
  !(x.buffer.lists t).isEmpty || !(x.tombstones.lists t).isEmpty

/-- The names behind `tables()`, before the set is listed. -/
def tableNames (x : Transaction V) : List String := x.buffer.active ++ x.tombstones.active

theorem has_iff (x : Transaction V) (t : String) :
    x.has t = true ↔ x.bufferBatches t ≠ [] ∨ x.tombstoneBatchesWithFlag t ≠ [] := by
  simp [has, bufferBatches, tombstoneBatchesWithFlag]

theorem hasTombstone_iff (x : Transaction V) (t : String) :
    x.hasTombstone t = true ↔ x.tombstoneBatchesWithFlag t ≠ [] := by
  simp [hasTombstone, tombstoneBatchesWithFlag]

@[simp] theorem bufferBatches_bufferAppend (x : Transaction V) (t u : String) (f : Frame V) :
    (x.bufferAppend t f).bufferBatches u =
      if u = t then x.bufferBatches t ++ [f] else x.bufferBatches u := by
  simp [bufferAppend, bufferBatches]

@[simp] theorem tombstoneBatches_bufferAppend (x : Transaction V) (t u : String) (f : Frame V) :
    (x.bufferAppend t f).tombstoneBatchesWithFlag u = x.tombstoneBatchesWithFlag u := rfl

@[simp] theorem tombstoneBatches_tombstoneAppend (x : Transaction V) (t u : String)
    (f : Frame V) (fl : Bool) : (x.tombstoneAppend t f fl).tombstoneBatchesWithFlag u =
      if u = t then x.tombstoneBatchesWithFlag t ++ [(f, fl)]
      else x.tombstoneBatchesWithFlag u := by
  simp [tombstoneAppend, tombstoneBatchesWithFlag]

@[simp] theorem snapshotTs_bufferAppend (x : Transaction V) (t : String) (f : Frame V) :
    (x.bufferAppend t f).snapshotTs = x.snapshotTs := rfl

@[simp] theorem snapshotTs_tombstoneAppend (x : Transaction V) (t : String) (f : Frame V)
    (fl : Bool) : (x.tombstoneAppend t f fl).snapshotTs = x.snapshotTs := rfl

@[simp] theorem bufferBatches_new (ts : Int) (t : String) :
    ({ snapshotTs := ts } : Transaction V).bufferBatches t = [] := rfl

@[simp] theorem tombstoneBatches_new (ts : Int) (t : String) :
    ({ snapshotTs := ts } : Transaction V).tombstoneBatchesWithFlag t = [] := rfl

end Transaction

end RyuDB
