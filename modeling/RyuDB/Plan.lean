/-
# Expressions and plans

`ryudb/sql/plan.py`: the expression tree and the plan nodes the parser builds, the optimizer
rewrites and the executor runs.

An expression is a column reference, a literal, a connective or an operation on the cells of one
row.  Comparisons, arithmetic, IS NULL, IN, LIKE, CASE, COALESCE, CAST and the scalar functions
are all operations of the last kind; what the optimizer and the executor need of them is their
arguments, whether they always give a Series, and which arguments must be scalars, and
`Operation` holds that beside the function.

An aggregate reduces a bag of cells: `reduce_perm` says that the order of the rows does not
enter.  A window function gives every row a cell and may read all of them.
-/
import Mathlib.Data.List.OfFn
import RyuDB.Frame

namespace RyuDB.Sql

variable {V : Type}

/-! ## 1. Expressions -/

/-- The operations of one argument and of two have a first one, named once. -/
instance instNeZeroOne : @NeZero Nat Zero.ofOfNat0 1 := ⟨Nat.succ_ne_zero 0⟩

instance instNeZeroTwo : @NeZero Nat Zero.ofOfNat0 2 := ⟨Nat.succ_ne_zero 1⟩

/-- An operation on the cells of one row. -/
structure Operation (V : Type) where
  arity : Nat
  apply : (Fin arity → Cell V) → Cell V
  /-- The result is a Series even when every argument is a scalar (`_as_series`). -/
  spread : Bool
  /-- The arguments that must be scalars, as the list of IN and the pattern of LIKE. -/
  literal : Fin arity → Bool
  /-- The text of the exception when one of those is a Series. -/
  refusal : String

/-- `Expr`. -/
inductive Expr (V : Type) where
  | col (name : String) (table : Option String)
  | lit (value : Cell V)
  | and (left right : Expr V)
  | or (left right : Expr V)
  | not (expr : Expr V)
  | app (op : Operation V) (args : Fin op.arity → Expr V)

/-- `Expr.columns`. -/
def Expr.columns : Expr V → List String
  | .col name _ => [name]
  | .lit _ => []
  | .and l r => l.columns ++ r.columns
  | .or l r => l.columns ++ r.columns
  | .not e => e.columns
  | .app _ args => (List.ofFn fun i => (args i).columns).flatten

/-- The column references of an expression, with their qualifiers. -/
def Expr.refs : Expr V → List (String × Option String)
  | .col name table => [(name, table)]
  | .lit _ => []
  | .and l r => l.refs ++ r.refs
  | .or l r => l.refs ++ r.refs
  | .not e => e.refs
  | .app _ args => (List.ofFn fun i => (args i).refs).flatten

theorem Expr.columns_eq (e : Expr V) : e.columns = e.refs.map Prod.fst := by
  induction e with
  | col name table => rfl
  | lit v => rfl
  | and l r hl hr => rw [columns, refs, hl, hr, List.map_append]
  | or l r hl hr => rw [columns, refs, hl, hr, List.map_append]
  | not e ih => exact ih
  | app op args ih =>
    rw [columns, refs, List.map_flatten, List.map_ofFn]
    exact congrArg _ (congrArg _ (funext ih))

/-- `eval_expr` gives a Series and not a scalar. -/
def Expr.isSeries : Expr V → Bool
  | .col _ _ => true
  | .lit _ => false
  | .and l r => l.isSeries || r.isSeries
  | .or l r => l.isSeries || r.isSeries
  | .not e => e.isSeries
  | .app op args => op.spread || (List.ofFn fun i => (args i).isSeries).any id

/-- `_split_and`. -/
def splitAnd : Expr V → List (Expr V)
  | .and l r => splitAnd l ++ splitAnd r
  | e => [e]

/-- `_conjoin` of `first :: rest`. -/
def conjoin (first : Expr V) (rest : List (Expr V)) : Expr V := rest.foldl .and first

/-! ## 2. Aggregates and window functions -/

/-- `AggFunc`; the argument `none` is `Star()`. -/
structure AggFunc (V : Type) where
  reduce : List (Cell V) → Cell V
  arg : Option (Expr V)
  filter : Option (Expr V)
  distinct : Bool
  reduce_perm : ∀ l l', l.Perm l' → reduce l = reduce l'

/-- `AggFunc.columns`. -/
def AggFunc.columns (a : AggFunc V) : List String :=
  (a.arg.map Expr.columns).getD [] ++ (a.filter.map Expr.columns).getD []

/-- The expressions an aggregate evaluates. -/
def AggFunc.exprs (a : AggFunc V) : List (Expr V) := a.arg.toList ++ a.filter.toList

/-- `WindowFunc`: the partition keys, the order keys, the argument, the offset and the default it
evaluates, and the cells it gives to the rows from these. -/
structure WindowFunc (V : Type) where
  args : List (Expr V)
  compute : List (List (Cell V)) → List (Cell V)
  length_compute : ∀ l, (compute l).length = l.length

/-- `WindowFunc.columns`. -/
def WindowFunc.columns (w : WindowFunc V) : List String := (w.args.map Expr.columns).flatten

/-! ## 3. Plans -/

/-- `Join.how`. -/
inductive JoinHow where
  | inner
  | left
  | right
  | full
  | cross
  | semi
  | anti
  deriving DecidableEq, Repr

/-- `SetOp.op`. -/
inductive SetKind where
  | union
  | intersect
  | except
  deriving DecidableEq, Repr

/-- The fields of `Join` beside its inputs; `usingKeys` is `using`. -/
structure JoinOn (V : Type) where
  onLeft : List String
  onRight : List String
  how : JoinHow
  onPredicate : Option (Expr V)
  usingKeys : Bool

/-- `PlanNode`. -/
inductive PlanNode (V : Type) where
  | scan (table : String) (columns : Option (List String)) (aliasName : Option String)
  | derived (input : PlanNode V) (aliasName : String)
  | filter (input : PlanNode V) (predicate : Expr V)
  | project (input : PlanNode V) (items : List (Expr V × String))
  | join (left right : PlanNode V) (on : JoinOn V)
  | aggregate (input : PlanNode V) (groupKeys : List (Expr V × String))
      (aggs : List (AggFunc V × String))
  | window (input : PlanNode V) (funcs : List (WindowFunc V × String))
  | sort (input : PlanNode V) (keys : List (Expr V × Bool))
  | limit (input : PlanNode V) (n offset : Nat)
  | distinct (input : PlanNode V)
  | setOp (left right : PlanNode V) (op : SetKind) (distinct : Bool)

namespace PlanNode

/-- `walk`: every node of the plan, in pre-order. -/
def walk : PlanNode V → List (PlanNode V)
  | .scan t c a => [.scan t c a]
  | .derived input a => .derived input a :: input.walk
  | .filter input p => .filter input p :: input.walk
  | .project input items => .project input items :: input.walk
  | .join l r on => .join l r on :: (l.walk ++ r.walk)
  | .aggregate input ks as => .aggregate input ks as :: input.walk
  | .window input fs => .window input fs :: input.walk
  | .sort input ks => .sort input ks :: input.walk
  | .limit input n o => .limit input n o :: input.walk
  | .distinct input => .distinct input :: input.walk
  | .setOp l r op d => .setOp l r op d :: (l.walk ++ r.walk)

/-- `isinstance(n, Project)`. -/
def isProject : PlanNode V → Bool
  | .project _ _ => true
  | _ => false

/-- `isinstance(n, Aggregate)`. -/
def isAggregate : PlanNode V → Bool
  | .aggregate _ _ _ => true
  | _ => false

/-- `Engine._side_alias`. -/
def sideAlias : PlanNode V → Option String
  | .scan _ _ a => a
  | .filter input _ => input.sideAlias
  | .derived _ a => some a
  | _ => none

end PlanNode

end RyuDB.Sql
