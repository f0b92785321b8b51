/-
# Executing a plan

`Engine._exec` and the operators it calls (`ryudb/exec/executor.py`), with `eval_expr`
(`ryudb/exec/ops.py`), on the tables a reader sees.  Every operator takes frames to a frame or
raises; `exec` runs a plan bottom up.

Three things are read off cuDF.  `merge` matches NULL with NULL, keeps the columns of the left
frame and then those of the right one, coalesces a key that has one name on both sides and adds
`_x` and `_y` to any other shared name.  `sort_values` is stable and puts NULL last.
`groupby`, `merge` and `drop_duplicates` promise no row order: here the pairs of a join come in
the order of a nested loop and before the rows without a partner, and the groups of an aggregate
in the order of their last rows.  The columns the executor adds under reserved names (`__ryu_l0`,
`__lrid`, `__sk0`, `__cnt` and the like) and drops again are not part of the frames.

What is modelled is the cuDF path, and dtypes are left out.  The engine offers an aggregate over a
filter or a join to the fused kernels first, and what they return can differ from what the cuDF path
returns; a scan can return a frame of the cache, and an aggregate can write into it; and a reserved
column meets a column of the user's of the same name.  `BuiltExec` has the plan executed with all of
this and says when the result is that of `exec`.
-/
import Mathlib.Data.List.Sort
import RyuDB.Lib.Joins
import RyuDB.Plan

namespace RyuDB.Sql

variable {V : Type}

/-! ## 1. Scalars and tables -/

/-- What the executor takes from Python and cuDF about single values. -/
structure Scalars (V : Type) where
  truth : V → Bool
  conj : Cell V → Cell V → Cell V
  disj : Cell V → Cell V → Cell V
  neg : Cell V → Cell V
  le : V → V → Bool
  zero : V
  one : V
  truth_conj : ∀ a b, (conj a b).any truth = (a.any truth && b.any truth)
  le_total : ∀ a b, le a b = true ∨ le b a = true
  le_trans : ∀ a b c, le a b = true → le b c = true → le a c = true

/-- A mask keeps a row: the cell is there and true (`fillna(False)`). -/
def Scalars.holds (S : Scalars V) (c : Cell V) : Bool := c.any S.truth

/-- The tables a reader sees.  A Parquet file has no two columns of one name. -/
structure Database (V : Type) where
  tables : Dict String (Frame V)
  nodup : ∀ t f, tables.get? t = some f → f.columns.Nodup

/-- `catalog.schema_dict()`. -/
def Database.schema (D : Database V) : Dict String (List String) := D.tables.mapVal Frame.columns

/-- The columns a scan with the set `columns` reads of a table that has `cols`:
`sorted(columns) if columns else None`. -/
def scanColumns (cols : List String) : Option (List String) → List String
  | none => cols
  | some [] => cols
  | some (c :: cs) => sortedSet (c :: cs)

/-- `Engine._scan`. -/
def Database.scan (D : Database V) (t : String) (columns : Option (List String)) :
    Except DbError (Frame V) :=
  match D.tables.get? t with
  | none => .error (.key
      ("unknown table: " ++ pyRepr t ++ " (registered: " ++ pyList D.tables.keys ++ ")"))
  | some f => f.select (scanColumns f.columns columns)

/-! ## 2. Expressions -/

/-- `{table}__{name}`, the name `_join` gives to a column both inputs have. -/
def qualified (table name : String) : String := table ++ "__" ++ name

/-- The column a reference reads: the qualified name first, then the bare one. -/
def resolve (cols : List String) (name : String) : Option String → Option String
  | some t =>
    if qualified t name ∈ cols then some (qualified t name)
    else if name ∈ cols then some name else none
  | none => if name ∈ cols then some name else none

/-- `repr` of an optional name. -/
def pyReprOption : Option String → String
  | none => "None"
  | some s => pyRepr s

/-- The `KeyError` of a column reference. -/
def unknownColumn (cols : List String) (name : String) (table : Option String) : DbError :=
  .key ("unknown column " ++ pyRepr name ++ " (table=" ++ pyReprOption table ++ "); available: " ++
    pyList cols)

/-- The exception of `if a` for a Series `a`, in `_bool_combine`. -/
def ambiguousTruth : DbError := .value "The truth value of a Series is ambiguous."

namespace Expr

/-- What `eval_expr` raises on a frame with these columns.  A connective of a Series on the left
and a scalar on the right asks for the truth of the Series. -/
def check (cols : List String) : Expr V → Except DbError Unit
  | .col name table =>
    match resolve cols name table with
    | some _ => .ok ()
    | none => .error (unknownColumn cols name table)
  | .lit _ => .ok ()
  | .and l r => do
    check cols l
    check cols r
    if l.isSeries && !r.isSeries then .error ambiguousTruth else .ok ()
  | .or l r => do
    check cols l
    check cols r
    if l.isSeries && !r.isSeries then .error ambiguousTruth else .ok ()
  | .not e => check cols e
  | .app op args => do
    (List.ofFn fun i => check cols (args i)).forM id
    if (List.ofFn fun i => op.literal i && (args i).isSeries).any id then
      .error (.notImplemented op.refusal)
    else .ok ()

/-- `eval_expr` on one row. -/
def value (S : Scalars V) (cols : List String) (r : Row V) : Expr V → Cell V
  | .col name table => (resolve cols name table).bind r
  | .lit v => v
  | .and l r' => S.conj (value S cols r l) (value S cols r r')
  | .or l r' => S.disj (value S cols r l) (value S cols r r')
  | .not e => S.neg (value S cols r e)
  | .app op args => op.apply fun i => value S cols r (args i)

end Expr

/-- The check of an optional expression. -/
def checkOption (cols : List String) : Option (Expr V) → Except DbError Unit
  | none => .ok ()
  | some e => e.check cols

/-- An optional predicate holds of a row. -/
def passes (S : Scalars V) (cols : List String) (p : Option (Expr V)) (r : Row V) : Bool :=
  match p with
  | none => true
  | some e => S.holds (e.value S cols r)

/-! ## 3. Filter, project, limit, distinct -/

/-- `Filter`: the mask is evaluated on the whole frame, then applied. -/
def filterFrame (S : Scalars V) (df : Frame V) (p : Expr V) : Except DbError (Frame V) := do
  p.check df.columns
  .ok (df.filter fun r => S.holds (p.value S df.columns r))

/-- `df[name] = ...` on the column names: an existing column keeps its place. -/
def addColumn (cols : List String) (name : String) : List String :=
  if name ∈ cols then cols else cols ++ [name]

/-- The columns of `Project`, in the order of their first item. -/
def itemColumns (items : List (Expr V × String)) : List String :=
  (items.map Prod.snd).foldl addColumn []

/-- The cell of a projected row: the last item of a name is the one that stays. -/
def itemCell (S : Scalars V) (cols : List String) (items : List (Expr V × String)) (r : Row V) :
    Row V := fun n =>
  match items.reverse.find? fun i => i.2 = n with
  | some i => i.1.value S cols r
  | none => none

/-- `Engine._project`. -/
def projectFrame (S : Scalars V) (df : Frame V) (items : List (Expr V × String)) :
    Except DbError (Frame V) := do
  items.forM fun i => i.1.check df.columns
  .ok (.ofRows (itemColumns items) (df.rows.map (itemCell S df.columns items)))

/-- `Engine._limit`: `df.iloc[offset : offset + n]`. -/
def limitFrame (df : Frame V) (n offset : Nat) : Frame V :=
  .ofRows df.columns ((df.rows.drop offset).take n)

/-- The first element of each key. -/
def keepFirst {α κ : Type} [DecidableEq κ] (key : α → κ) : List α → List α
  | [] => []
  | a :: l => a :: (keepFirst key l).filter fun b => key b ≠ key a

/-- `df.drop_duplicates()`. -/
def dropDuplicates [DecidableEq V] (df : Frame V) : Frame V :=
  .ofRows df.columns (keepFirst (keyOf df.columns) df.rows)

/-! ## 4. Joins -/

/-- Where a column of a join comes from; `both` is a coalesced key. -/
inductive Source where
  | left (c : String)
  | right (c : String)
  | both (c d : String)
  deriving DecidableEq, Repr

/-- The columns of a join with their sources. -/
abbrev Layout := List (String × Source)

/-- The columns of a layout. -/
def Layout.columns (lay : Layout) : List String := lay.map Prod.fst

/-- The source of a column. -/
def Layout.source (lay : Layout) (n : String) : Option Source := lay.lookup n

/-- The cell a source reads from a pair of rows; the right row fills in for a NULL of a
coalesced key. -/
def Source.cell (l r : Row V) : Source → Cell V
  | .left c => l c
  | .right c => r c
  | .both c d => (l c).or (r d)

/-- The row of a join built from a pair of rows. -/
def Layout.row (lay : Layout) (l r : Row V) : Row V := fun n =>
  match lay.source n with
  | some s => s.cell l r
  | none => none

/-- The row with no cell, for the missing side of an outer join. -/
def nullRow : Row V := fun _ => none

/-- `merge` keeps a key in one column when both sides name it alike: the right key that the left
key `c` is coalesced with. -/
def coalesced (nl nr : String → String) (keys : List (String × String)) (c : String) :
    Option String :=
  (keys.find? fun k => k.1 = c && nl k.1 = nr k.2).map Prod.snd

/-- A right key that is coalesced into the column of a left key. -/
def absorbed (nl nr : String → String) (keys : List (String × String)) (d : String) : Bool :=
  keys.any fun k => k.2 = d && nl k.1 = nr k.2

/-- The column of `merge` for the left column `c`. -/
def leftEntry (nl nr : String → String) (keys : List (String × String)) (overlap : List String)
    (c : String) : String × Source :=
  match coalesced nl nr keys c with
  | some d => (nl c, .both c d)
  | none => (if nl c ∈ overlap then nl c ++ "_x" else nl c, .left c)

/-- The column of `merge` for the right column `d`. -/
def rightEntry (nr : String → String) (overlap : List String) (d : String) : String × Source :=
  (if nr d ∈ overlap then nr d ++ "_y" else nr d, .right d)

/-- The columns of `merge` on the inputs' columns `L` and `R` under their new names `nl` and
`nr`, for the given keys; the names of `overlap` get a suffix. -/
def layout (nl nr : String → String) (keys : List (String × String)) (overlap : List String)
    (L R : List String) : Layout :=
  L.map (leftEntry nl nr keys overlap) ++
    (R.filter fun d => !absorbed nl nr keys d).map (rightEntry nr overlap)

/-- The names `merge` adds a suffix to: on both sides, and not a coalesced key. -/
def mergeOverlap (nl nr : String → String) (keys : List (String × String)) (L R : List String) :
    List String :=
  ((L.filter fun c => (coalesced nl nr keys c).isNone).map nl).filter fun n =>
    n ∈ (R.filter fun d => !absorbed nl nr keys d).map nr

/-- The new name of a column of a side with the alias `a`. -/
def renamed (collision : List String) (a c : String) : String :=
  if c ∈ collision then qualified a c else c

/-- The columns both inputs have. -/
def collisions (L R : List String) : List String := L.filter (· ∈ R)

/-- The kinds of join that pad with NULLs. -/
def JoinHow.isOuter : JoinHow → Bool
  | .left | .right | .full => true
  | _ => false

/-- The kinds of join that keep left rows without a partner. -/
def JoinHow.keepsLeft : JoinHow → Bool
  | .left | .full => true
  | _ => false

/-- The kinds of join that keep right rows without a partner. -/
def JoinHow.keepsRight : JoinHow → Bool
  | .right | .full => true
  | _ => false

/-- Semi and anti joins, which return rows of the left input. -/
def JoinHow.isSemi : JoinHow → Bool
  | .semi | .anti => true
  | _ => false

/-- The exception of an outer join with a residual whose inputs share a column name. -/
def residualCollision : DbError := .notImplemented
  ("outer join with a residual ON predicate and a cross-input column-name collision is not " ++
    "supported; use ON with only equi-key predicates, or rename the colliding columns")

/-- The exception of a join that would rename the columns of a side without an alias. -/
def unnamedSide : DbError := .notImplemented
  ("a colliding join side must be a base table (optionally filtered); " ++
    "joins/subqueries/derived tables with a column-name collision are not supported")

/-- The first part of `_join`: how the two sides' columns are renamed. -/
def sideNames (on : JoinOn V) (lalias ralias : Option String) (L R : List String) :
    Except DbError ((String → String) × (String → String)) :=
  if collisions L R = [] ∨ on.usingKeys ∨ on.how.isSemi then .ok (id, id)
  else if on.how.isOuter ∧ on.onPredicate.isSome then
    .error residualCollision
  else
    match lalias, ralias with
    | some la, some ra => .ok (renamed (collisions L R) la, renamed (collisions L R) ra)
    | _, _ => .error unnamedSide

/-- The keys of a merge: as many on either side, at least one unless it is a cross join, all of
them columns of their side. -/
def checkKeys (on : JoinOn V) (L R : List String) : Except DbError Unit :=
  if on.how = .cross then .ok ()
  else if on.onLeft.length ≠ on.onRight.length then
    .error (.value "len(right_on) must equal len(left_on)")
  else if on.onLeft = [] then .error (.value "No common columns to perform merge on.")
  else
    match on.onLeft.filter (· ∉ L), on.onRight.filter (· ∉ R) with
    | [], [] => .ok ()
    | c :: _, _ => .error (.key (pyRepr c))
    | [], c :: _ => .error (.key (pyRepr c))

/-- The pairs of keys; a cross join has none. -/
def keyPairs (on : JoinOn V) : List (String × String) :=
  if on.how = .cross then [] else on.onLeft.zip on.onRight

/-- The keys of two rows are equal; `merge` matches NULL with NULL. -/
def sameKeys [DecidableEq V] (keys : List (String × String)) (l r : Row V) : Bool :=
  keys.all fun k => l k.1 = r k.2

/-- No key of a right row is NULL. -/
def nonNullKeys (keys : List (String × String)) (r : Row V) : Bool :=
  keys.all fun k => (r k.2).isSome

/-- The exception of a merge whose result would have two columns of one name. -/
def duplicateColumns : DbError :=
  .value "Passing 'suffixes' which cause duplicate columns is not allowed."

/-- The columns of a merge have different names. -/
def checkLayout (lay : Layout) : Except DbError Unit :=
  if lay.columns.Nodup then .ok ()
  else .error duplicateColumns

/-- The join of two lists of rows under a test, with the columns of a layout. -/
def Layout.spec (lay : Layout) (test : Row V → Row V → Bool) :
    JoinSpec (Row V) (Row V) (Row V) where
  test := test
  pair := lay.row
  left l := lay.row l nullRow
  right r := lay.row nullRow r

/-- The rest of `_join` for a cross join, an inner join, and an outer join on keys alone: one
merge, filtered by the ON residual. -/
def mergeFrames [DecidableEq V] (S : Scalars V) (on : JoinOn V) (nl nr : String → String)
    (left right : Frame V) : Except DbError (Frame V) := do
  let keys := keyPairs on
  let lay := layout nl nr keys (mergeOverlap nl nr keys left.columns right.columns)
    left.columns right.columns
  checkLayout lay
  checkOption lay.columns on.onPredicate
  let test l r := sameKeys keys l r && passes S lay.columns on.onPredicate (lay.row l r)
  .ok (.ofRows lay.columns
    ((lay.spec test).run on.how.keepsLeft on.how.keepsRight left.rows right.rows))

/-- The columns of a side that are no keys; `side` reads the key of that side. -/
def nonKeys (keys : List (String × String)) (side : String × String → String)
    (cols : List String) : List String := cols.filter fun c => !keys.any fun k => side k = c

/-- The columns on both sides that are keys of neither, which `merge` gives a suffix. -/
def residualOverlap (keys : List (String × String)) (L R : List String) : List String :=
  (nonKeys keys Prod.fst L).filter (· ∈ nonKeys keys Prod.snd R)

/-- The columns an ON residual sees in `_outer_join_with_predicate`: the keys are there under
temporary names. -/
def residualLayout (keys : List (String × String)) (L R : List String) : Layout :=
  layout id id [] (residualOverlap keys L R) (nonKeys keys Prod.fst L) (nonKeys keys Prod.snd R)

/-- The keys `_outer_join_with_predicate` merges on.  The temporary names are kept in a
dictionary by key, so a key named twice on a side has one of them. -/
def residualKeys (keys : List (String × String)) : List (String × String) :=
  (keepFirst id (keys.map Prod.fst)).zip (keepFirst id (keys.map Prod.snd))

/-- What the temporary names can raise: a side with fewer of them than the other, and, in
`_restore_join_keys`, a pair of one name whose temporary name was overwritten by a later pair. -/
def checkRestore (keys : List (String × String)) : Except DbError Unit :=
  if (keepFirst id (keys.map Prod.fst)).length ≠ (keepFirst id (keys.map Prod.snd)).length then
    .error (.value "len(right_on) must equal len(left_on)")
  else if keys.tails.any fun ks => ks.head?.any fun k =>
      k.1 = k.2 && ks.tail.any fun k' => k'.1 = k.1 || k'.2 = k.2 then
    .error (.key "__ryu_l")
  else .ok ()

/-- `Engine._outer_join_with_predicate`: the residual decides which pairs match, and is evaluated
only when some keys are equal. -/
def outerJoinWithPredicate [DecidableEq V] (S : Scalars V) (on : JoinOn V) (p : Expr V)
    (left right : Frame V) : Except DbError (Frame V) := do
  let keys := keyPairs on
  checkRestore keys
  let res := residualLayout keys left.columns right.columns
  let lay := layout id id keys (residualOverlap keys left.columns right.columns)
    left.columns right.columns
  checkLayout lay
  (if left.rows.any fun l => right.rows.any fun r => sameKeys (residualKeys keys) l r then
    p.check res.columns else .ok ())
  let test l r := sameKeys (residualKeys keys) l r &&
    S.holds (p.value S res.columns (res.row l r))
  .ok (.ofRows lay.columns
    ((lay.spec test).run on.how.keepsLeft on.how.keepsRight left.rows right.rows))

/-- `Engine._semi_anti_join`: the left rows with, or without, a partner; a NULL key has none. -/
def semiAntiJoin [DecidableEq V] (S : Scalars V) (on : JoinOn V) (left right : Frame V) :
    Except DbError (Frame V) := do
  let keys := keyPairs on
  let lay := layout id id keys (mergeOverlap id id keys left.columns right.columns)
    left.columns right.columns
  (if on.onPredicate.isSome then checkLayout lay else .ok ())
  checkOption lay.columns on.onPredicate
  let hit l := right.rows.any fun r => nonNullKeys keys r && sameKeys keys l r &&
    passes S lay.columns on.onPredicate (lay.row l r)
  .ok (left.filter fun l => if on.how = .anti then !hit l else hit l)

/-- The end of `_join`: the path by kind and residual. -/
def joinPath [DecidableEq V] (S : Scalars V) (on : JoinOn V)
    (names : (String → String) × (String → String)) (left right : Frame V) :
    Except DbError (Frame V) :=
  if on.how.isSemi then semiAntiJoin S on left right
  else
    match on.onPredicate with
    | some p =>
      if on.how.isOuter then outerJoinWithPredicate S on p left right
      else mergeFrames S on names.1 names.2 left right
    | none => mergeFrames S on names.1 names.2 left right

/-- `Engine._join`. -/
def joinFrames [DecidableEq V] (S : Scalars V) (on : JoinOn V) (lalias ralias : Option String)
    (left right : Frame V) : Except DbError (Frame V) := do
  let names ← sideNames on lalias ralias left.columns right.columns
  checkKeys on left.columns right.columns
  joinPath S on names left right

/-! ## 5. Aggregates and windows -/

/-- `df[name] = ...` for a column computed row by row. -/
def withColumn (df : Frame V) (name : String) (v : Row V → Cell V) : Frame V :=
  .ofRows (addColumn df.columns name) (df.rows.map fun r n => if n = name then v r else r n)

/-- The loop over `group_keys` in `_fused_agg`: a group key whose name is a column already is
that column. -/
def withKeys (S : Scalars V) : Frame V → List (Expr V × String) → Except DbError (Frame V)
  | df, [] => .ok df
  | df, (e, name) :: keys =>
    if name ∈ df.columns then withKeys S df keys
    else do
      e.check df.columns
      withKeys S (withColumn df name (e.value S df.columns)) keys

/-- The cells an aggregate reduces over the rows of a group: a row its FILTER rejects counts as
NULL (`df_where`), and DISTINCT keeps one of equal cells. -/
def aggCells [DecidableEq V] (S : Scalars V) (cols : List String) (a : AggFunc V)
    (rows : List (Row V)) : List (Cell V) :=
  let cells := rows.map fun r =>
    if passes S cols a.filter r then (a.arg.map (Expr.value S cols r)).getD (some S.one) else none
  if a.distinct then cells.dedup else cells

/-- The value of an aggregate over the rows of a group. -/
def aggCell [DecidableEq V] (S : Scalars V) (cols : List String) (rows : List (Row V))
    (a : AggFunc V × String) : Cell V := a.1.reduce (aggCells S cols a.1 rows)

/-- `by_names + [n for _, n in aggs]`. -/
def aggNames (keys : List (Expr V × String)) (aggs : List (AggFunc V × String)) : List String :=
  keys.map Prod.snd ++ aggs.map Prod.snd

/-- The columns of an aggregate; a frame has one column of a name. -/
def aggColumns (keys : List (Expr V × String)) (aggs : List (AggFunc V × String)) : List String :=
  (aggNames keys aggs).foldl addColumn []

/-- `_scalar_global_agg`: one row; with no aggregate at all, the row `_g_ = 0`.  The last aggregate
of a name stays. -/
def scalarGlobalAgg [DecidableEq V] (S : Scalars V) (df : Frame V)
    (aggs : List (AggFunc V × String)) : Frame V :=
  if aggs.isEmpty then .ofRows ["_g_"] [fun _ => some S.zero]
  else .ofRows (aggColumns [] aggs) [cellOf (aggs.map Prod.snd).reverse
    (aggs.map (aggCell S df.columns df.rows)).reverse]

/-- `_fused_agg` without a mask, on a frame that has the group keys: one row for each group. -/
def fusedAgg [DecidableEq V] (S : Scalars V) (df : Frame V) (keys : List (Expr V × String))
    (aggs : List (AggFunc V × String)) : Frame V :=
  let by' := keys.map Prod.snd
  .ofRows (aggColumns keys aggs) ((df.rows.map (keyOf by')).dedup.map fun k =>
    cellOf (aggNames keys aggs)
      (k ++ aggs.map (aggCell S df.columns (df.rows.filter fun r => keyOf by' r = k))))

/-- `Engine._aggregate`. -/
def aggregateFrame [DecidableEq V] (S : Scalars V) (df : Frame V)
    (keys : List (Expr V × String)) (aggs : List (AggFunc V × String)) :
    Except DbError (Frame V) := do
  let work ← withKeys S df keys
  (aggs.flatMap fun a => a.1.exprs).forM fun e => e.check work.columns
  if keys.isEmpty then .ok (scalarGlobalAgg S df aggs) else .ok (fusedAgg S work keys aggs)

/-- One turn of `Engine._window`. -/
def windowColumn (S : Scalars V) (df : Frame V) (w : WindowFunc V × String) :
    Except DbError (Frame V) := do
  w.1.args.forM fun e => e.check df.columns
  let cells := w.1.compute (df.rows.map fun r => w.1.args.map (Expr.value S df.columns r))
  .ok (.ofRows (addColumn df.columns w.2)
    (List.zipWith (fun (r : Row V) c n => if n = w.2 then c else r n) df.rows cells))

/-- `Engine._window`. -/
def windowFrame (S : Scalars V) (df : Frame V) (funcs : List (WindowFunc V × String)) :
    Except DbError (Frame V) := funcs.foldlM (windowColumn S) df

/-! ## 6. Sort -/

/-- The order of `sort_values` on one column. -/
def Scalars.cellLe (S : Scalars V) (ascending : Bool) : Cell V → Cell V → Bool
  | _, none => true
  | none, some _ => false
  | some a, some b => if ascending then S.le a b else S.le b a

/-- The order of `sort_values` on several columns: the first that tells two rows apart decides. -/
def Scalars.keyLe (S : Scalars V) : List Bool → Key V → Key V → Bool
  | [], _, _ => true
  | asc :: ascs, a, b =>
    S.cellLe asc (a.headD none) (b.headD none) &&
      (!S.cellLe asc (b.headD none) (a.headD none) || S.keyLe ascs a.tail b.tail)

/-- `bare_safe`: the column of that name in the sorted frame is the one the key means. -/
def bareSafe (cols : List String) : Expr V → Bool
  | .col name none => name ∈ cols
  | .col name (some t) =>
    name ∈ cols && (decide (qualified t name ∈ cols) || decide (name ++ "_1" ∉ cols))
  | _ => false

/-- The cell of a sort key: the bare column of the sorted frame, or else the key evaluated on the
frame before the projection. -/
def sortCell (S : Scalars V) (cols srcCols : List String) (r src : Row V) (e : Expr V) : Cell V :=
  if bareSafe cols e then (e.columns.head?).bind r else e.value S srcCols src

/-- `df.sort_values(by, ascending)` on rows paired with their sort keys. -/
def sortRows (S : Scalars V) (ascending : List Bool) (l : List (Key V × Row V)) :
    List (Row V) :=
  (l.insertionSort fun a b => S.keyLe ascending a.1 b.1 = true).map Prod.snd

/-- The rows with their sort keys: all keys are columns of the frame, or the others are evaluated
on `src`, the frame before the projection or `df` itself. -/
def sortPairs (S : Scalars V) (df : Frame V) (keys : List (Expr V × Bool))
    (src : Except DbError (Frame V)) : Except DbError (List (Key V × Row V)) :=
  if keys.all fun k => bareSafe df.columns k.1 then
    .ok (df.rows.map fun r => (keys.map fun k => sortCell S df.columns df.columns r r k.1, r))
  else do
    let src ← src
    (keys.filter fun k => !bareSafe df.columns k.1).forM fun k => k.1.check src.columns
    .ok (List.zipWith
      (fun r s => (keys.map fun k => sortCell S df.columns src.columns r s k.1, r))
      df.rows src.rows)

/-- `Engine._sort`. -/
def sortFrame (S : Scalars V) (df : Frame V) (keys : List (Expr V × Bool))
    (src : Except DbError (Frame V)) : Except DbError (Frame V) :=
  if keys.isEmpty then .ok df
  else do
    let pairs ← sortPairs S df keys src
    .ok (.ofRows df.columns (sortRows S (keys.map Prod.snd) pairs))

/-! ## 7. Set operations -/

/-- The name of a set operation in a message. -/
def SetKind.upper : SetKind → String
  | .union => "UNION"
  | .intersect => "INTERSECT"
  | .except => "EXCEPT"

/-- `right.columns = list(left.columns)`: the cells stay in their places and get new names. -/
def relabel (cols : List String) (f : Frame V) : Frame V :=
  .ofRows cols (f.rows.map fun r => cellOf cols (keyOf f.columns r))

/-- `Engine._setop`. -/
def setopFrames [DecidableEq V] (op : SetKind) (distinct : Bool) (left right : Frame V) :
    Except DbError (Frame V) :=
  if left.columns.length ≠ right.columns.length then
    .error (.parse (op.upper ++ " column count mismatch: " ++ toString left.columns.length ++
      " vs " ++ toString right.columns.length))
  else
    let right := relabel left.columns right
    match op with
    | .union =>
      let out := Frame.ofRows left.columns (left.rows ++ right.rows)
      .ok (if distinct then dropDuplicates out else out)
    | .intersect =>
      if !distinct then .error (.notImplemented "INTERSECT ALL is not supported")
      else .ok ((dropDuplicates left).filter fun r =>
        keyOf left.columns r ∈ right.rows.map (keyOf left.columns))
    | .except =>
      if !distinct then .error (.notImplemented "EXCEPT ALL is not supported")
      else .ok ((dropDuplicates left).filter fun r =>
        keyOf left.columns r ∉ right.rows.map (keyOf left.columns))

/-! ## 8. Plans -/

/-- `Engine._exec`. -/
def exec [DecidableEq V] (S : Scalars V) (D : Database V) : PlanNode V → Except DbError (Frame V)
  | .scan t columns _ => D.scan t columns
  | .derived input _ => exec S D input
  | .filter input p => do
    let df ← exec S D input
    filterFrame S df p
  | .project input items => do
    let df ← exec S D input
    projectFrame S df items
  | .join l r on => do
    let left ← exec S D l
    let right ← exec S D r
    joinFrames S on l.sideAlias r.sideAlias left right
  | .aggregate input keys aggs => do
    let df ← exec S D input
    aggregateFrame S df keys aggs
  | .window input funcs => do
    let df ← exec S D input
    windowFrame S df funcs
  | .sort input keys => do
    let df ← exec S D input
    sortFrame S df keys (match input with
      | .project below _ => exec S D below
      | _ => .ok df)
  | .limit input n offset => do
    let df ← exec S D input
    .ok (limitFrame df n offset)
  | .distinct input => do
    let df ← exec S D input
    .ok (dropDuplicates df)
  | .setOp l r op d => do
    let left ← exec S D l
    let right ← exec S D r
    setopFrames op d left right

/-- The frame `_sort` evaluates its other keys on: that before the projection, if there is one. -/
def sortSource [DecidableEq V] (S : Scalars V) (D : Database V) (input : PlanNode V)
    (df : Frame V) : Except DbError (Frame V) :=
  match input with
  | .project below _ => exec S D below
  | _ => .ok df

theorem sortSource_of_not_project [DecidableEq V] {S : Scalars V} {D : Database V}
    {input : PlanNode V} (h : input.isProject = false) (df : Frame V) :
    sortSource S D input df = .ok df := by
  cases input <;> first | rfl | cases h

theorem exec_sort [DecidableEq V] (S : Scalars V) (D : Database V) (input : PlanNode V)
    (keys : List (Expr V × Bool)) : exec S D (.sort input keys) =
      (exec S D input >>= fun df => sortFrame S df keys (sortSource S D input df)) := by
  cases input <;> rfl

/-! ## 9. Tables of numbers -/

/-- Cells that are natural numbers: zero is false, and a connective of a NULL is NULL. -/
def natScalars : Scalars Nat where
  truth n := n ≠ 0
  conj a b := a.bind fun x => b.map fun y => if x ≠ 0 ∧ y ≠ 0 then 1 else 0
  disj a b := a.bind fun x => b.map fun y => if x ≠ 0 ∨ y ≠ 0 then 1 else 0
  neg a := a.map fun x => if x = 0 then 1 else 0
  le x y := x ≤ y
  zero := 0
  one := 1
  le_total a b := by
    simp only [decide_eq_true_eq]
    exact Nat.le_total a b
  le_trans a b c := by
    simp only [decide_eq_true_eq]
    exact Nat.le_trans
  truth_conj a b := by
    cases a with
    | none => rfl
    | some x =>
      cases b with
      | none => simp
      | some y => by_cases hx : x = 0 <;> by_cases hy : y = 0 <;> simp [hx, hy]

/-- `expr IS NULL`. -/
def isNull (e : Expr Nat) : Expr Nat :=
  .app ⟨1, fun a => some (if (a 0).isNone then 1 else 0), false, fun _ => false, ""⟩ fun _ => e

/-- `left = right`. -/
def equals (l r : Expr Nat) : Expr Nat :=
  .app ⟨2, fun a => (a 0).bind fun x => (a 1).map fun y => if x = y then 1 else 0, false,
    fun _ => false, ""⟩ fun i => if i = 0 then l else r

/-- A table of numbers. -/
def numbers (cols : List String) (cells : List (List (Cell Nat))) : Frame Nat :=
  .ofRows cols (cells.map (cellOf cols))

/-- A join on one pair of keys. -/
def joinOn (k k' : String) (how : JoinHow) : JoinOn Nat := ⟨[k], [k'], how, none, false⟩

/-- The columns of a returned frame and its rows as lists of cells. -/
def shown (x : Except DbError (Frame V)) : Option (List String × List (List (Cell V))) :=
  x.toOption.map fun f => (f.columns, f.rows.map (keyOf f.columns))

/-- What is shown was returned. -/
theorem returned_of_shown {x : Except DbError (Frame V)} {cols : List String}
    {cells : List (List (Cell V))} (h : shown x = some (cols, cells)) :
    ∃ f, x = .ok f ∧ f.columns = cols ∧ f.rows.map (keyOf cols) = cells := by
  cases x with
  | error e => cases h
  | ok f =>
    simp only [shown, Except.toOption, Option.map_some, Option.some.injEq, Prod.mk.injEq] at h
    exact ⟨f, rfl, h.1, h.1 ▸ h.2⟩

end RyuDB.Sql
