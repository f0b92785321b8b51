/-
# The optimizer

The three passes of `ryudb/sql/optimize.py`: `push_predicates`, `prune_projections` and
`select_join_sides`.  Each takes a plan to a plan; the first two read the schema (table to column
names), the last the statistics (table to row count).

`push_predicates` decides where a conjunct goes from the tables its column names belong to
(`route`) and from the top join alone, and then distributes it through the whole join tree
(`insert`).  `prune_projections` uses one set of referenced names for every scan.
`select_join_sides` exchanges the sides of a join when the right one is estimated smaller.

Estimates are natural numbers: the source's floats hold every estimate exactly, since a product
or a sum is capped at `10 ** 15`.
-/
import RyuDB.Columns

namespace RyuDB.Sql

variable {V : Type}

/-! ## 1. Predicate pushdown -/

/-- `col_to_tables.get(c, [])`. -/
def colToTables (sch : Dict String (List String)) (c : String) : List String :=
  (sch.entries.filter fun e => c ∈ e.2).map Prod.fst

/-- `tables_of`. -/
def tablesOf (sch : Dict String (List String)) (e : Expr V) : List String :=
  (e.columns.flatMap (colToTables sch)).dedup

/-- `subtree_tables`: a derived table is opaque. -/
def subtreeTables : PlanNode V → List String
  | .scan t _ _ => [t]
  | .derived _ _ => []
  | .filter input _ => subtreeTables input
  | .project input _ => subtreeTables input
  | .join l r _ => subtreeTables l ++ subtreeTables r
  | .aggregate input _ _ => subtreeTables input
  | .window input _ => subtreeTables input
  | .sort input _ => subtreeTables input
  | .limit input _ _ => subtreeTables input
  | .distinct input => subtreeTables input
  | .setOp l r _ _ => subtreeTables l ++ subtreeTables r

/-- `{t: cs for t, cs in per_table.items() if t in tables}`. -/
def forTables (perTable : Dict String (List (Expr V))) (tables : List String) :
    Dict String (List (Expr V)) := perTable.filter fun t _ => t ∈ tables

/-- `insert`: put the conjuncts of each table on top of its scans. -/
def insert : PlanNode V → Dict String (List (Expr V)) → PlanNode V
  | .scan t c a, perTable =>
    match perTable.get? t with
    | some (e :: es) => .filter (.scan t c a) (conjoin e es)
    | _ => .scan t c a
  | .derived input a, _ => .derived input a
  | .join l r on, perTable =>
    .join (insert l (forTables perTable (subtreeTables l)))
      (insert r (forTables perTable (subtreeTables r))) on
  | .setOp l r op d, perTable =>
    .setOp (insert l (forTables perTable (subtreeTables l)))
      (insert r (forTables perTable (subtreeTables r))) op d
  | .filter input p, perTable => .filter (insert input perTable) p
  | .project input items, perTable => .project (insert input perTable) items
  | .aggregate input keys aggs, perTable => .aggregate (insert input perTable) keys aggs
  | .window input funcs, perTable => .window (insert input perTable) funcs
  | .sort input keys, perTable => .sort (insert input perTable) keys
  | .limit input n o, perTable => .limit (insert input perTable) n o
  | .distinct input, perTable => .distinct (insert input perTable)

/-- `pushable_sides`. -/
def pushableSides (how : JoinHow) (lt rt : List String) : List String :=
  match how with
  | .left => lt
  | .right => rt
  | .inner => lt ++ rt
  | .semi | .anti => lt
  | .full | .cross => []

/-- The table a conjunct above a join is pushed to, if any: all its columns are known, they
belong to one table of the join, that table is not on both sides, and it is on a side the kind
of join allows. -/
def route (sch : Dict String (List String)) (how : JoinHow) (lt rt : List String) (c : Expr V) :
    Option String :=
  if c.columns.any fun n => colToTables sch n = [] then none
  else
    let ts := (tablesOf sch c).filter fun t => t ∈ lt ++ rt
    if ts.any fun t => t ∈ lt ∧ t ∈ rt then none
    else
      match ts with
      | [t] => if t ∈ pushableSides how lt rt then some t else none
      | _ => none

/-- `pushable.setdefault(t, []).append(c)` for a conjunct that is pushed. -/
def addConjunct (dest : Expr V → Option String) (m : Dict String (List (Expr V)))
    (c : Expr V) : Dict String (List (Expr V)) :=
  match dest c with
  | some t => m.push t c
  | none => m

/-- `pushable`: the conjuncts that are pushed, by table. -/
def pushable (dest : Expr V → Option String) (conjuncts : List (Expr V)) :
    Dict String (List (Expr V)) := conjuncts.foldl (addConjunct dest) ∅

/-- `remaining`: the conjuncts that stay above the join. -/
def remaining (dest : Expr V → Option String) (conjuncts : List (Expr V)) : List (Expr V) :=
  conjuncts.filter fun c => (dest c).isNone

/-- The filter that stays above the rewritten join, if a conjunct remains. -/
def refilter (input : PlanNode V) : List (Expr V) → PlanNode V
  | [] => input
  | c :: cs => .filter input (conjoin c cs)

/-- The end of `go` at a filter: over a join, its conjuncts are pushed. -/
def pushFilter (sch : Dict String (List String)) (input : PlanNode V) (p : Expr V) : PlanNode V :=
  match input with
  | .join l r on =>
    let dest := route sch on.how (subtreeTables l) (subtreeTables r)
    if (splitAnd p).all fun c => (dest c).isNone then .filter (.join l r on) p
    else refilter (insert (.join l r on) (pushable dest (splitAnd p)))
      (remaining dest (splitAnd p))
  | input => .filter input p

/-- `push_predicates`: children first. -/
def pushPredicates (sch : Dict String (List String)) : PlanNode V → PlanNode V
  | .scan t c a => .scan t c a
  | .derived input a => .derived (pushPredicates sch input) a
  | .filter input p => pushFilter sch (pushPredicates sch input) p
  | .project input items => .project (pushPredicates sch input) items
  | .join l r on => .join (pushPredicates sch l) (pushPredicates sch r) on
  | .aggregate input keys aggs => .aggregate (pushPredicates sch input) keys aggs
  | .window input funcs => .window (pushPredicates sch input) funcs
  | .sort input keys => .sort (pushPredicates sch input) keys
  | .limit input n o => .limit (pushPredicates sch input) n o
  | .distinct input => .distinct (pushPredicates sch input)
  | .setOp l r op d => .setOp (pushPredicates sch l) (pushPredicates sch r) op d

/-! ## 2. Projection pruning -/

/-- The column names one node refers to. -/
def nodeColumns : PlanNode V → List String
  | .filter _ p => p.columns
  | .project _ items => items.flatMap fun i => i.1.columns
  | .aggregate _ keys aggs =>
    (keys.flatMap fun k => k.1.columns) ++ aggs.flatMap fun a => a.1.columns
  | .window _ funcs => funcs.flatMap fun w => w.1.columns
  | .sort _ keys => keys.flatMap fun k => k.1.columns
  | .join _ _ on => on.onLeft ++ on.onRight ++ (on.onPredicate.map Expr.columns).getD []
  | _ => []

/-- `_all_referenced_columns`. -/
def allReferencedColumns (plan : PlanNode V) : List String := plan.walk.flatMap nodeColumns

/-- The columns a pruned scan is given. -/
def prunedColumns (sch : Dict String (List String)) (referenced : List String) (t : String) :
    Option (List String) :=
  match (sch.get? t).getD [] with
  | [] => none
  | cols => some (referenced.filter (· ∈ cols))

/-- `prune_projections.rewrite`. -/
def rewriteScans (sch : Dict String (List String)) (referenced : List String) :
    PlanNode V → PlanNode V
  | .scan t _ a => .scan t (prunedColumns sch referenced t) a
  | .derived input a => .derived (rewriteScans sch referenced input) a
  | .filter input p => .filter (rewriteScans sch referenced input) p
  | .project input items => .project (rewriteScans sch referenced input) items
  | .join l r on => .join (rewriteScans sch referenced l) (rewriteScans sch referenced r) on
  | .aggregate input keys aggs => .aggregate (rewriteScans sch referenced input) keys aggs
  | .window input funcs => .window (rewriteScans sch referenced input) funcs
  | .sort input keys => .sort (rewriteScans sch referenced input) keys
  | .limit input n o => .limit (rewriteScans sch referenced input) n o
  | .distinct input => .distinct (rewriteScans sch referenced input)
  | .setOp l r op d =>
    .setOp (rewriteScans sch referenced l) (rewriteScans sch referenced r) op d

/-- `prune_projections`: nothing is pruned when the plan has no projection and no aggregate, when
there is no schema, or when no column is referenced. -/
def pruneProjections (sch : Dict String (List String)) (plan : PlanNode V) : PlanNode V :=
  if (!plan.walk.any PlanNode.isProject && !plan.walk.any PlanNode.isAggregate) ||
      sch.entries.isEmpty then plan
  else if allReferencedColumns plan = [] then plan
  else rewriteScans sch (allReferencedColumns plan) plan

/-! ## 3. Join-side selection -/

/-- `est_rows`. -/
def estRows (stats : Dict String Nat) : PlanNode V → Nat
  | .scan t _ _ => (stats.get? t).getD (10 ^ 9)
  | .join l r _ => min (estRows stats l * estRows stats r) (10 ^ 15)
  | .setOp l r _ _ => min (estRows stats l + estRows stats r) (10 ^ 15)
  | .derived input _ => estRows stats input
  | .filter input _ => estRows stats input
  | .project input _ => estRows stats input
  | .aggregate input _ _ => estRows stats input
  | .window input _ => estRows stats input
  | .sort input _ => estRows stats input
  | .limit input _ _ => estRows stats input
  | .distinct input => estRows stats input

/-- The kind of a join with its sides exchanged. -/
def JoinHow.flip : JoinHow → JoinHow
  | .left => .right
  | .right => .left
  | how => how

/-- The fields of a join with its sides exchanged. -/
def JoinOn.flip (on : JoinOn V) : JoinOn V where
  onLeft := on.onRight
  onRight := on.onLeft
  how := on.how.flip
  onPredicate := on.onPredicate
  usingKeys := on.usingKeys

/-- The sides of a join are exchanged: it is no semi or anti join and the right input is
estimated smaller. -/
def swaps (stats : Dict String Nat) (l r : PlanNode V) (on : JoinOn V) : Bool :=
  !on.how.isSemi && decide (estRows stats r < estRows stats l)

/-- `select_join_sides.go`. -/
def chooseSides (stats : Dict String Nat) : PlanNode V → PlanNode V
  | .scan t c a => .scan t c a
  | .derived input a => .derived (chooseSides stats input) a
  | .filter input p => .filter (chooseSides stats input) p
  | .project input items => .project (chooseSides stats input) items
  | .join l r on =>
    if swaps stats (chooseSides stats l) (chooseSides stats r) on then
      .join (chooseSides stats r) (chooseSides stats l) on.flip
    else .join (chooseSides stats l) (chooseSides stats r) on
  | .aggregate input keys aggs => .aggregate (chooseSides stats input) keys aggs
  | .window input funcs => .window (chooseSides stats input) funcs
  | .sort input keys => .sort (chooseSides stats input) keys
  | .limit input n o => .limit (chooseSides stats input) n o
  | .distinct input => .distinct (chooseSides stats input)
  | .setOp l r op d => .setOp (chooseSides stats l) (chooseSides stats r) op d

/-- `select_join_sides`. -/
def selectJoinSides (stats : Dict String Nat) (plan : PlanNode V) : PlanNode V :=
  if stats.entries.isEmpty then plan else chooseSides stats plan

/-- `optimize`. -/
def optimize (sch : Dict String (List String)) (stats : Dict String Nat) (plan : PlanNode V) :
    PlanNode V :=
  selectJoinSides stats (pruneProjections sch (pushPredicates sch plan))

end RyuDB.Sql
