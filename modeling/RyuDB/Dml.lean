/-
# Statements

The write paths of `Engine` (`_insert`, `_insert_select`, `_delete`, `_update`, `_merge`) with the
uniqueness check they share, and `sql`, which dispatches a parsed statement.

What the SQL front end and `eval_expr` contribute is their meaning.  An expression is evaluated on
a frame, where it raises or gives each row a value (`Expr`), and a query is the scans it makes
and a function of the scanned frames (`Query`).  A joined frame of MERGE is a list of pairs of a
target and a source row, in place of the columns `{alias}__{column}`.
-/
import RyuDB.Engine

namespace RyuDB

variable {V : Type}

/-! ## 1. Nodes -/

/-- An expression over the rows of a frame: the exception its evaluation raises, or a value for
each row. -/
structure Expr (V α : Type) where
  check : Frame V → Except DbError Unit
  value : Row V → α

/-- `eval_expr`. -/
def Expr.eval {α : Type} (e : Expr V α) (f : Frame V) : Except DbError (Row V → α) :=
  match e.check f with
  | .error y => .error y
  | .ok _ => .ok e.value

/-- A row selector. -/
abbrev Pred (V : Type) := Expr V Bool

/-- A relational plan: its scans, in the order they run, what it makes of them, and what its aggregates
leave in the cached frames when they write into them. -/
structure Query (V : Type) where
  reads : List (String × Option (List String))
  eval : List (Frame V) → Except DbError (Frame V)
  writes : Dict (String × Option (List String)) (Frame V) →
    Dict (String × Option (List String)) (Frame V)

/-- `INSERT INTO table [(columns)] VALUES rows`. -/
structure InsertNode (V : Type) where
  table : String
  columns : Option (List String)
  rows : List (List (Cell V))

/-- `INSERT INTO table [(columns)] SELECT ..`. -/
structure InsertSelectNode (V : Type) where
  table : String
  columns : Option (List String)
  source : Query V

/-- `DELETE FROM table [WHERE predicate]`. -/
structure DeleteNode (V : Type) where
  table : String
  predicate : Option (Pred V)

/-- `UPDATE table SET assignments [WHERE predicate]`. -/
structure UpdateNode (V : Type) where
  table : String
  assignments : List (String × Expr V (Cell V))
  predicate : Option (Pred V)

/-- The joined frame of a MERGE: target columns, source columns, pairs of rows. -/
structure Joined (V : Type) where
  target : List String
  source : List String
  pairs : List (Row V × Row V)

/-- An expression over the pairs of a joined frame.  `eval_expr` finds its columns by name in one frame of
both sides; `MergeNode.Named` says when a name is the column that is meant. -/
structure JExpr (V α : Type) where
  check : Joined V → Except DbError Unit
  value : Row V × Row V → α

/-- `eval_expr` on a joined frame. -/
def JExpr.eval {α : Type} (e : JExpr V α) (m : Joined V) : Except DbError (Row V × Row V → α) :=
  match e.check m with
  | .error y => .error y
  | .ok _ => .ok e.value

/-- A condition on the pairs of a joined frame. -/
abbrev JPred (V : Type) := JExpr V Bool

/-- What a WHEN MATCHED arm does. -/
inductive MatchedAction (V : Type) where
  | update (assignments : List (String × JExpr V (Cell V)))
  | delete

/-- A WHEN MATCHED arm. -/
structure MatchedArm (V : Type) where
  condition : Option (JPred V)
  action : MatchedAction V

/-- A WHEN NOT MATCHED arm. -/
structure NotMatchedArm (V : Type) where
  condition : Option (Pred V)
  insertColumns : Option (List String)
  insertValues : List (Expr V (Cell V))

/-- `MERGE INTO table AS targetAlias USING source AS sourceAlias ON .. WHEN ..`. -/
structure MergeNode (V : Type) where
  table : String
  targetAlias : String
  source : Query V
  sourceAlias : String
  onTarget : List String
  onSource : List String
  onResidual : Option (JPred V)
  matchedArm : Option (MatchedArm V)
  notMatchedArm : Option (NotMatchedArm V)

/-- The columns of the frame on which `_merge` evaluates, each under the alias of its side. -/
def MergeNode.mergedColumns (n : MergeNode V) (tgt src : List String) : List String :=
  tgt.map (fun c => n.targetAlias ++ "__" ++ c) ++ src.map fun c => n.sourceAlias ++ "__" ++ c

/-- No two of these columns have one name, and none has the bare name of a column: `_bare` adds a column
under its bare name for the references without an alias, unless there is one of that name already.  A
target column `s__k` beside the column `k` of a source `s` is such a name. -/
def MergeNode.Named (n : MergeNode V) (tgt src : List String) : Prop :=
  (n.mergedColumns tgt src).Nodup ∧
    (∀ c ∈ tgt ++ src, c ∉ n.mergedColumns tgt src) ∧ "__sid" ∉ src

instance (n : MergeNode V) (tgt src : List String) : Decidable (n.Named tgt src) :=
  inferInstanceAs (Decidable (_ ∧ _ ∧ _))

/-- A statement.  `rejected` is one the parser refuses. -/
inductive Stmt (V : Type) where
  | select (q : Query V)
  | insert (n : InsertNode V)
  | insertSelect (n : InsertSelectNode V)
  | delete (n : DeleteNode V)
  | update (n : UpdateNode V)
  | merge (n : MergeNode V)
  | begin
  | commit
  | rollback
  | createSnapshot (name : String)
  | restoreToSnapshot (name : String)
  | rejected (e : DbError)

/-- What `sql` returns: a frame, a row count, or nothing. -/
inductive Result (V : Type) where
  | frame (f : Frame V)
  | count (n : Nat)
  | none

namespace Engine

variable (H : Host V)

/-! ## 2. Typed batches -/

/-- The target columns of an insert: the given ones or the whole schema. -/
def targetColumns (i : TableInfo V) (t statement : String) (columns : Option (List String)) :
    Except DbError (List String) :=
  let cols := columns.getD i.columns
  match cols.filter (· ∉ i.columns) with
  | [] =>
    if cols.dedup.length ≠ cols.length then
      .error (.parse (statement ++ " column list has duplicates: " ++ pyList cols))
    else .ok cols
  | unknown => .error (.parse ("unknown columns in " ++ t ++ ": " ++ pyList unknown))

/-- The cell of a column that the statement does not provide: DEFAULT, else NULL. -/
def defaultCell (i : TableInfo V) (c : String) : Cell V := (i.constraints.defaults.get? c).getD none

/-- The cells of one row in schema order: provided value, else DEFAULT, else NULL, with NOT NULL
checked on the value before it is coerced. -/
def resolveCells (i : TableInfo V) (t : String) (row : Nat)
    (provided : String → Option (Except DbError (Cell V))) :
    List String → Except DbError (List (Cell V))
  | [] => .ok []
  | c :: cs => do
    let v ← match provided c with
      | some v => v
      | none => .ok (defaultCell i c)
    if v.isNone && decide (c ∈ i.constraints.notNull) then
      .error (.runtime ("NOT NULL violation: " ++ t ++ "." ++ c ++ " (row " ++ toString row ++ ")"))
    else
      let vs ← resolveCells i t row provided cs
      return v :: vs

/-- The rows of an insert, one after another. -/
def resolveRows {α : Type} (i : TableInfo V) (t : String)
    (provided : α → String → Option (Except DbError (Cell V))) :
    Nat → List α → Except DbError (List (Row V))
  | _, [] => .ok []
  | n, a :: l => do
    let cells ← resolveCells i t n (provided a) i.columns
    let rows ← resolveRows i t provided (n + 1) l
    return cellOf i.columns cells :: rows

/-- `pd.array` or `pd.to_datetime` on a column, at one of its cells; NULL stays NULL. -/
def coerceCell (ty : ArrowType) (col : List (Cell V)) : Cell V → Except DbError (Cell V)
  | none => .ok none
  | some v => H.coerce ty col v

/-- The cell of a column after coercion. -/
def coerced (ty : ArrowType) (col : List (Cell V)) (v : Cell V) : Cell V :=
  match coerceCell H ty col v with
  | .ok v => v
  | .error _ => none

/-- Coerce one column of the rows, for the exception it may raise. -/
def coerceColumn (i : TableInfo V) (c : String) (rows : List (Row V)) : Except DbError Unit :=
  rows.forM fun r => do
    let _ ← coerceCell H (i.typeOf c) (rows.map fun r => r c) (r c)

/-- The batch of the rows with every column coerced to its type. -/
def typedRows (i : TableInfo V) (rows : List (Row V)) : Frame V :=
  Frame.ofRows i.columns (rows.map fun r c => coerced H (i.typeOf c) (rows.map fun r => r c) (r c))

/-- The batch `_insert` builds from literal rows. -/
def valuesFrame (i : TableInfo V) (n : InsertNode V) : Except DbError (Frame V) := do
  let cols ← targetColumns i n.table "INSERT" n.columns
  (n.rows.zipIdx).forM fun e =>
    if e.1.length ≠ cols.length then
      .error (.parse ("INSERT row " ++ toString e.2 ++ " has " ++ toString e.1.length ++
        " values for " ++ toString cols.length ++ " columns"))
    else .ok ()
  let rows ← resolveRows i n.table (fun (row : List (Cell V)) c =>
    if c ∈ cols then some (.ok (cellOf cols row c)) else none) 0 n.rows
  i.columns.forM fun c => coerceColumn H i c rows
  return typedRows H i rows

/-- The batch `_insert_select` builds from a query result, mapped by position.  NOT NULL is
checked after the coercion, column by column. -/
def selectFrame (i : TableInfo V) (t : String) (cols : List String) (src : Frame V) :
    Except DbError (Frame V) := do
  let rows : List (Row V) := src.rows.map fun r c =>
    if c ∈ cols then cellOf cols (src.columns.map r) c else defaultCell i c
  i.columns.forM fun c => do
    coerceColumn H i c rows
    if decide (c ∈ i.constraints.notNull) &&
        rows.any (fun r => (coerced H (i.typeOf c) (rows.map fun r => r c) (r c)).isNone) then
      .error (.runtime ("NOT NULL violation: " ++ t ++ "." ++ c))
    else .ok ()
  return typedRows H i rows

/-- Override columns of the rows built from `items`, one assignment after another. -/
def setColumns {α : Type} (i : TableInfo V) (items : List α) :
    List (String × Except DbError (α → Cell V)) → (α → Row V) → Except DbError (α → Row V)
  | [], new => .ok new
  | (col, e) :: as, new => do
    let v ← e
    items.forM fun a => do
      let _ ← coerceCell H (i.typeOf col) (items.map v) (v a)
    setColumns i items as fun a c =>
      if c = col then coerced H (i.typeOf col) (items.map v) (v a) else new a c

/-- `for c in not_null: if new_frame[c].isna().any()`. -/
def checkNotNull (i : TableInfo V) (t : String) (f : Frame V) : Except DbError Unit :=
  (H.setOrder i.constraints.notNull).forM fun c =>
    if c ∉ f.columns then .error (.key (pyRepr c))
    else if f.rows.any fun r => (r c).isNone then
      .error (.runtime ("NOT NULL violation: " ++ t ++ "." ++ c))
    else .ok ()

/-- `frame[mask]` for an optional predicate. -/
def masked (p : Option (Pred V)) (f : Frame V) : Except DbError (Frame V) :=
  match p with
  | none => .ok f
  | some p => do
    let mask ← p.eval f
    return f.filter mask

/-! ## 3. Reads and the uniqueness check -/

section Statements

variable [DecidableEq V]

/-- `_fused_agg` over a frame that `_scan` has returned: `work` is the cached frame, and the group keys and
the column of ones are set on it. -/
def writeBack (q : Query V) : Op V Unit := Proc.modify fun s =>
  if s.faults.writesBack then { s with eng := { s.eng with scanCache := q.writes s.eng.scanCache } } else s

/-- `_exec` of a relational plan. -/
def exec (q : Query V) : Op V (Frame V) := do
  checkCancel
  let frames ← Proc.collect (fun r => scan r.1 r.2) q.reads
  writeBack q
  Proc.lift (q.eval frames)

/-- `frame.dropna(subset=key_cols)`, then the key columns. -/
def nonNullKeys (key : List String) (f : Frame V) : Except DbError (List (Key V)) :=
  match key.filter (· ∉ f.columns) with
  | [] => .ok ((f.dropna key).rows.map (keyOf key))
  | missing => .error (.key (pyList missing))

/-- The loop body of `_enforce_unique`: duplicates in the batch, then collisions with the visible
rows.  Dropping duplicates by no column drops nothing, and a join on no column is refused. -/
def enforceKey (t : String) (frame : Frame V) (key : List String) : Op V Unit := do
  let new ← Proc.lift (nonNullKeys key frame)
  if !key.isEmpty && decide (new.length ≠ new.dedup.length) then
    Proc.raise (.runtime ("UNIQUE violation: " ++ t ++ "." ++ pyList key ++
      " duplicate within INSERT batch"))
  else
    let visible ← scan t (some key)
    let existing ← Proc.lift (nonNullKeys key visible)
    if existing.isEmpty then return ()
    else if key.isEmpty then
      Proc.raise (.value "No common columns to perform merge on")
    else
      let n := (new.map fun k => existing.count k).sum
      if n ≠ 0 then
        Proc.raise (.runtime ("UNIQUE violation: " ++ t ++ "." ++ pyList key ++ " " ++ toString n ++
          " row(s) already exist"))
      else return ()

/-- The declared keys, the primary one first. -/
def declaredKeys (c : TableConstraints V) : List (List String) := c.primaryKey.toList ++ c.unique

/-- `_enforce_unique`. -/
def enforceUnique (t : String) (frame : Frame V) : Op V Unit := do
  let info ← catalogGet t
  Proc.each (enforceKey t frame) (declaredKeys info.constraints)

/-! ## 4. INSERT and DELETE -/

/-- Change the current transaction. -/
def onTxn (f : Transaction V → Transaction V) : Op V Unit :=
  Proc.modify fun s => { s with txn := s.txn.map f }

/-- Buffer a batch inside a transaction, commit it outside. -/
def appendFrame (t : String) (frame : Frame V) : Op V Unit := do
  let s ← Proc.get
  match s.txn with
  | some _ => onTxn fun x => x.bufferAppend t frame
  | none =>
    let _ ← writeCommit H [⟨t, .insert, frame⟩]
    return ()

/-- Buffer a DELETE tombstone inside a transaction, commit it outside. -/
def appendTombstone (t : String) (tombstone : Frame V) : Op V Unit := do
  let s ← Proc.get
  match s.txn with
  | some _ => onTxn fun x => x.tombstoneAppend t tombstone false
  | none =>
    let _ ← writeCommit H [⟨t, .tombstone, tombstone⟩]
    return ()

/-- The batch of an `INSERT .. SELECT`, or nothing when the query is empty. -/
def insertSource (n : InsertSelectNode V) : Op V (Option (Frame V)) := do
  let info ← catalogGet n.table
  let cols ← Proc.lift (targetColumns info n.table "INSERT" n.columns)
  let src ← exec n.source
  if src.rows.isEmpty then return none
  else if src.columns.length ≠ cols.length then
    Proc.raise (.parse ("INSERT ... SELECT column count mismatch: " ++
      toString src.columns.length ++ " source vs " ++ toString cols.length ++ " target"))
  else
    let frame ← Proc.lift (selectFrame H info n.table cols src)
    return some frame

/-- The batch an `INSERT .. VALUES` builds. -/
def insertBatch (n : InsertNode V) : Op V (Frame V) := do
  let info ← catalogGet n.table
  Proc.lift (valuesFrame H info n)

/-- `_insert`. -/
def insert (n : InsertNode V) : Op V Nat := do
  let frame ← insertBatch H n
  enforceUnique n.table frame
  appendFrame H n.table frame
  return frame.len

/-- `_insert_select`. -/
def insertSelect (n : InsertSelectNode V) : Op V Nat := do
  let source ← insertSource H n
  match source with
  | none => return 0
  | some frame =>
    enforceUnique n.table frame
    appendFrame H n.table frame
    return frame.len

/-- The visible rows of a table that a predicate selects. -/
def targetsOf (t : String) (p : Option (Pred V)) : Op V (Frame V) := do
  let visible ← scan t none
  Proc.lift (masked p visible)

/-- The declared primary key, which the named statement requires. -/
def requirePk (i : TableInfo V) (message : String) : Except DbError (List String) :=
  match i.constraints.primaryKey with
  | some pk => .ok pk
  | none => .error (.runtime message)

/-- `_delete`. -/
def delete (n : DeleteNode V) : Op V Nat := do
  let info ← catalogGet n.table
  let pk ← Proc.lift (requirePk info ("DELETE requires a declared PRIMARY KEY on " ++ n.table))
  let targets ← targetsOf n.table n.predicate
  if targets.rows.isEmpty then return 0
  else
    let tombstone ← Proc.lift (targets.select pk)
    appendTombstone H n.table tombstone
    return targets.len

/-! ## 5. UPDATE and MERGE -/

/-- What UPDATE and MERGE flush in their implicit transaction: the tombstone of the replaced rows,
the tombstone of the deleted rows, the new rows. -/
structure Flush (V : Type) where
  update : Option (Frame V)
  delete : Option (Frame V)
  new : Option (Frame V)

/-- Buffer a tombstone if there is one. -/
def bufferTombstone (t : String) (g : Option (Frame V)) (excludeSameTs : Bool) : Op V Unit :=
  match g with
  | none => return ()
  | some g => onTxn fun x => x.tombstoneAppend t g excludeSameTs

/-- Check and buffer the new rows if there are any. -/
def bufferNew (t : String) (f : Option (Frame V)) : Op V Unit :=
  match f with
  | none => return ()
  | some f => do
    enforceUnique t f
    onTxn fun x => x.bufferAppend t f

/-- The implicit transaction: tombstones first, so that the check does not see the replaced rows,
then the new rows, then COMMIT; on any exception the transaction is discarded. -/
def flush (t : String) (w : Flush V) : Op V Unit := do
  Proc.modify fun s => { s with txn := some { snapshotTs := s.eng.commitTs } }
  Proc.onError (do
    bufferTombstone t w.update true
    bufferTombstone t w.delete false
    bufferNew t w.new
    commit H) fun s => { s with txn := none }

/-- `raise NotImplementedError` inside an explicit transaction. -/
def refuseInTxn (statement : String) : Op V Unit := do
  let s ← Proc.get
  match s.txn with
  | none => return ()
  | some _ => Proc.raise (.notImplemented (statement ++
      " inside an explicit transaction is not supported in v1 (needs per-row MVCC versioning); " ++
      "use autocommit " ++ statement))

/-- The checks of the SET list of an UPDATE. -/
def checkAssignments (i : TableInfo V) (n : UpdateNode V) : Except DbError Unit := do
  n.assignments.forM fun a =>
    if a.1 ∉ i.columns then
      .error (.parse ("unknown column in UPDATE " ++ n.table ++ ": " ++ a.1))
    else .ok ()
  if (n.assignments.map Prod.fst).dedup.length ≠ n.assignments.length then
    .error (.parse ("UPDATE " ++ n.table ++ " SET has duplicate columns: " ++
      pyList (n.assignments.map Prod.fst)))
  else .ok ()

/-- The rows of an UPDATE after SET. -/
def updatedFrame (i : TableInfo V) (n : UpdateNode V) (targets : Frame V) :
    Except DbError (Frame V) := do
  let new ← setColumns H i targets.rows (n.assignments.map fun a => (a.1, a.2.eval targets)) id
  let frame := Frame.ofRows targets.columns (targets.rows.map new)
  checkNotNull H i n.table frame
  return frame

/-- `_update`. -/
def update (n : UpdateNode V) : Op V Nat := do
  let info ← catalogGet n.table
  let pk ← Proc.lift (requirePk info ("UPDATE requires a declared PRIMARY KEY on " ++ n.table))
  refuseInTxn "UPDATE"
  Proc.lift (checkAssignments info n)
  let targets ← targetsOf n.table n.predicate
  if targets.rows.isEmpty then return 0
  else
    let frame ← Proc.lift (updatedFrame H info n targets)
    let tombstone ← Proc.lift (targets.select pk)
    flush H n.table ⟨some tombstone, none, some frame⟩
    return targets.len

/-- The inner equi-join of target and source, which matches NULL with NULL. -/
def joinRows (n : MergeNode V) (tgt src : Frame V) : Except DbError (Joined V) :=
  match n.onTarget.filter (· ∉ tgt.columns) ++ n.onSource.filter (· ∉ src.columns) with
  | [] => .ok
      { target := tgt.columns
        source := src.columns
        pairs := tgt.rows.flatMap fun r =>
          (src.rows.filter fun q => decide (keyOf n.onSource q = keyOf n.onTarget r)).map
            fun q => (r, q) }
  | missing => .error (.key (pyList missing))

/-- `matched[mask]` for an optional condition on the pairs. -/
def maskedPairs (p : Option (JPred V)) (m : Joined V) : Except DbError (Joined V) :=
  match p with
  | none => .ok m
  | some p => do
    let mask ← p.eval m
    return { m with pairs := m.pairs.filter mask }

/-- `matched.duplicated(subset=pk_tcols).any()`. -/
def cardinalityViolated (pk : List String) (m : Joined V) : Bool :=
  let keys := m.pairs.map fun p => keyOf pk p.1
  !pk.isEmpty && decide (keys.dedup.length ≠ keys.length)

/-- The rows of a WHEN MATCHED UPDATE after SET. -/
def mergedFrame (i : TableInfo V) (t : String) (assignments : List (String × JExpr V (Cell V)))
    (m : Joined V) : Except DbError (Frame V) := do
  let new ← setColumns H i m.pairs (assignments.map fun a => (a.1,
    if a.1 ∉ i.columns then
      .error (.parse ("unknown column in MERGE UPDATE " ++ t ++ ": " ++ a.1))
    else a.2.eval m)) Prod.fst
  let frame := Frame.ofRows i.columns (m.pairs.map new)
  checkNotNull H i t frame
  return frame

/-- The MATCHED arm: the number of pairs it acts on and what it flushes. -/
def matchedFlush (i : TableInfo V) (n : MergeNode V) (pk : List String) (tgt : Frame V)
    (arm : MatchedArm V) (m : Joined V) : Except DbError (Nat × Flush V) := do
  let m ← maskedPairs arm.condition m
  if m.pairs.isEmpty then return (0, ⟨none, none, none⟩)
  else
    let targets ← (Frame.ofRows tgt.columns (m.pairs.map Prod.fst)).select pk
    match arm.action with
    | .update assignments =>
      let _ ← tgt.select i.columns
      let new ← mergedFrame H i n.table assignments m
      return (m.pairs.length, ⟨some targets, none, some new⟩)
    | .delete => return (m.pairs.length, ⟨none, some targets, none⟩)

/-- The source rows without a partner: those whose ON key is not the key of a matched pair, where a
key that holds NULL never counts as matched. -/
def unmatchedRows (n : MergeNode V) (src : Frame V) (m : Joined V) : Frame V :=
  let keys := (m.pairs.map fun p => keyOf n.onSource p.2).filter Key.nonNull
  src.filter fun q => decide (keyOf n.onSource q ∉ keys)

/-- The NOT MATCHED arm: the number of rows it inserts and the batch. -/
def notMatchedNew (i : TableInfo V) (n : MergeNode V) (arm : NotMatchedArm V) (src : Frame V)
    (m : Joined V) : Except DbError (Nat × Option (Frame V)) := do
  let rest := unmatchedRows n src m
  let rest ← if rest.rows.isEmpty then .ok rest else masked arm.condition rest
  if rest.rows.isEmpty then return (0, none)
  else
    let cols ← targetColumns i n.table "MERGE INSERT" arm.insertColumns
    if arm.insertValues.length ≠ cols.length then
      .error (.parse ("MERGE INSERT has " ++ toString arm.insertValues.length ++ " values for " ++
        toString cols.length ++ " columns"))
    else
      let rows ← resolveRows i n.table (fun (r : Row V) c =>
        match (cols.zip arm.insertValues).find? fun e => decide (e.1 = c) with
        | some e => some (do
            let v ← e.2.eval (Frame.ofRows rest.columns [r])
            return v (restrict rest.columns r))
        | none => none) 0 rest.rows
      i.columns.forM fun c => coerceColumn H i c rows
      return (rest.rows.length, some (typedRows H i rows))

/-- `cudf.concat` of the new rows of the two arms, nothing when there are none. -/
def combinedNew (i : TableInfo V) (upd ins : Option (Frame V)) :
    Except DbError (Option (Frame V)) :=
  match (upd.toList ++ ins.toList).filter fun f => !f.rows.isEmpty with
  | [] => .ok none
  | parts =>
    match Frame.concat i.columns parts with
    | .error e => .error e
    | .ok f => .ok (some f)

/-- The MATCHED arm, if there is one and a pair for it, after the cardinality check. -/
def matchedPart (i : TableInfo V) (n : MergeNode V) (tgt : Frame V) (m : Joined V) :
    Except DbError (Nat × Flush V) :=
  let pk := i.constraints.primaryKey.getD []
  match n.matchedArm with
  | none => .ok (0, ⟨none, none, none⟩)
  | some arm =>
    if m.pairs.isEmpty then .ok (0, ⟨none, none, none⟩)
    else if cardinalityViolated pk m then
      .error (.runtime ("MERGE cardinality violation: a " ++ n.table ++
        " row matched more than one source row on ON"))
    else matchedFlush H i n pk tgt arm m

/-- The NOT MATCHED arm, if there is one and a source row for it. -/
def notMatchedPart (i : TableInfo V) (n : MergeNode V) (src : Frame V) (m : Joined V) :
    Except DbError (Nat × Option (Frame V)) :=
  match n.notMatchedArm with
  | none => .ok (0, none)
  | some arm => if src.rows.isEmpty then .ok (0, none) else notMatchedNew H i n arm src m

/-- What a MERGE does with its target and source. -/
def mergeFlush (i : TableInfo V) (n : MergeNode V) (tgt src : Frame V) :
    Except DbError (Nat × Flush V) := do
  let m ← joinRows n tgt src
  let m ← maskedPairs n.onResidual m
  let a ← matchedPart H i n tgt m
  let b ← notMatchedPart H i n src m
  let new ← combinedNew i a.2.new b.2
  return (a.1 + b.1, { a.2 with new := new })

/-- The key a WHEN MATCHED arm requires. -/
def mergeKey (i : TableInfo V) (n : MergeNode V) : Except DbError Unit :=
  match n.matchedArm with
  | none => .ok ()
  | some arm => do
    let _ ← requirePk i ("MERGE requires a declared PRIMARY KEY on " ++ n.table ++
      " for a WHEN MATCHED " ++ (match arm.action with
        | .update _ => "UPDATE"
        | .delete => "DELETE") ++ " arm")

/-- `_merge`. -/
def merge (n : MergeNode V) : Op V Nat := do
  let info ← catalogGet n.table
  Proc.lift (mergeKey info n)
  refuseInTxn "MERGE"
  let tgt ← scan n.table none
  let src ← exec n.source
  let w ← Proc.lift (mergeFlush H info n tgt src)
  if w.2.update.isNone && w.2.delete.isNone && w.2.new.isNone then return 0
  else
    flush H n.table w.2
    return w.1

/-! ## 6. Dispatch -/

/-- `sql` on a parsed statement. -/
def sql : Stmt V → Op V (Result V)
  | .select q => do return .frame (← exec q)
  | .insert n => do return .count (← insert H n)
  | .insertSelect n => do return .count (← insertSelect H n)
  | .delete n => do return .count (← delete H n)
  | .update n => do return .count (← update H n)
  | .merge n => do return .count (← merge H n)
  | .begin => do
    begin_
    return .none
  | .commit => do
    commit H
    return .none
  | .rollback => do
    rollback
    return .none
  | .createSnapshot name => do
    snapshot name
    return .none
  | .restoreToSnapshot name => do
    restore name
    return .none
  | .rejected e => Proc.raise e

end Statements

end Engine

end RyuDB
