/-
# EXISTS as a semi-join

`_classify_correlation` splits the WHERE clause of a correlated subquery into equalities of an inner
and an outer column and the conjuncts that are local.  Under EXISTS or NOT EXISTS the equalities become
the keys of a semi or anti join, the local conjuncts stay, and the select list is replaced by the inner
columns of the equalities.  Everything else of the subquery stays where it is, under the join: its
GROUP BY, its HAVING, its QUALIFY and its LIMIT are no longer taken for one outer row but for all of
them.

* `Subquery.rowsFor` is what the subquery returns with the values of an outer row in the places of the
  outer columns.
* `exists_decorrelated` says that the join keeps the outer rows for which it returns a row exactly
  where the rest of the subquery is settled by the rows of one outer row (`Body.Settled`), for a
  subquery whose names are clear and that has no QUALIFY, and no LIMIT or one with room for every row
  of FROM.  The run is one that nothing disturbs: a composite correlation is joined by a column `__lid`,
  so the outer rows may have none of that name.

A DISTINCT is refused by `_subquery_output_cols`, as is HAVING without an aggregate.  HAVING without
GROUP BY or with grouping sets is refused by the builder, and has no form here; QUALIFY with GROUP BY is
refused as well.  A subquery inside the
subquery is a relation of its FROM clause, as `_flatten_outer_subqueries` makes it.
-/
import RyuDB.GroupBy
import RyuDB.JoinKeys
import RyuDB.JoinSides
import RyuDB.NullKeys
import RyuDB.PushDown

namespace RyuDB.Sql

variable {V : Type}

/-! ## 1. Equality and outer values -/

/-- What a comparison gives when it is true and when it is false. -/
structure Booleans (S : Scalars V) where
  yes : V
  no : V
  truth_yes : S.truth yes = true
  truth_no : S.truth no = false

/-- `Cmp("=", left, right)`. -/
def equality [DecidableEq V] {S : Scalars V} (B : Booleans S) (l r : Expr V) : Expr V :=
  .app ⟨2, fun a => (a 0).bind fun x => (a 1).map fun y => if x = y then B.yes else B.no, false,
    fun _ => false, ""⟩ fun i => if i = 0 then l else r

/-- Two cells are equal and not NULL. -/
def sameCell [DecidableEq V] (a b : Cell V) : Bool := a.isSome && decide (a = b)

/-- The expression with the values of some references in their places. -/
def Expr.supply (val : String × Option String → Option (Cell V)) : Expr V → Expr V
  | .col name table =>
    match val (name, table) with
    | some c => .lit c
    | none => .col name table
  | .lit c => .lit c
  | .and l r => .and (l.supply val) (r.supply val)
  | .or l r => .or (l.supply val) (r.supply val)
  | .not e => .not (e.supply val)
  | .app op args => .app op fun i => (args i).supply val

namespace Parse

/-! ## 2. The subquery -/

/-- What stands above the FROM and WHERE clauses of a subquery: a list without aggregates, one with an
aggregate and no GROUP BY, a plain GROUP BY, or one with grouping sets. -/
inductive Body (V : Type) where
  | plain (items : List (SelectItem V)) (h : ∀ i ∈ items, i.value.isAgg = false)
  | total (items : List (SelectItem V)) (h : ∃ i ∈ items, i.value.isAgg = true)
  | grouped (s : GroupSelect V)
  | extended (g : GroupClause) (items : List (ExtItem V))

/-- The body has a GROUP BY clause. -/
def Body.isGrouped : Body V → Bool
  | .plain _ _ => false
  | .total _ _ => false
  | .grouped _ => true
  | .extended _ _ => true

/-- A subquery with a WHERE clause, which has the form of an ON condition. -/
structure Subquery (V : Type) where
  base : TableNode V
  joins : List (JoinNode V)
  cond : OnExpr V
  body : Body V
  qualify : Option (Qualify V)
  distinct : Bool
  order : List (Expr V × Bool)
  limit : Option (Nat × Nat)

/-- `_table_alias_name`. -/
def TableNode.aliasName : TableNode V → String
  | .subquery _ a => a
  | .table name a => if a = "" then name else a

/-- The relations of the subquery, by alias. -/
def Subquery.aliases (q : Subquery V) : List String :=
  q.base.aliasName :: q.joins.map fun j => j.ref.aliasName

/-- `_local_aliases`.  It reads the FROM clause under `from`; in other versions of the SQL parser the
clause is under `from_`. -/
def localAliases (underFrom : Bool) (q : Subquery V) : List String :=
  (if underFrom then [q.base.aliasName] else []) ++ q.joins.map fun j => j.ref.aliasName

/-- `_col_table_is_outer`. -/
def colTableIsOuter (outer loc : List String) (x : String × Option String) : Bool :=
  match x.2 with
  | some t => decide (t ≠ "" ∧ t ∉ loc ∧ t ∈ outer)
  | none => false

/-- A column of a condition as a reference. -/
def ColRef.ref (c : ColRef) : String × Option String :=
  (c.name, if c.table = "" then none else some c.table)

/-- A column of a condition as an expression. -/
def ColRef.expr (c : ColRef) : Expr V := .col c.ref.1 c.ref.2

/-- The references of a condition. -/
def OnExpr.refs : OnExpr V → List (String × Option String)
  | .and l r => l.refs ++ r.refs
  | .eq l r => [l.ref, r.ref]
  | .other e => e.refs

/-- The references of an item. -/
def itemRefs (i : SelectItem V) : List (String × Option String) :=
  match i.value with
  | .expr e => e.refs
  | .agg a => a.exprs.flatMap Expr.refs
  | .grouping _ => []

/-- The references of a column reference of GROUP BY or HAVING. -/
def colRefs (cs : List Sql.ColRef) : List (String × Option String) := cs.map fun c => (c.name, c.table)

/-- The references of an item of a list with grouping sets. -/
def extItemRefs : ExtItem V → List (String × Option String)
  | .item i _ => itemRefs i
  | .grouping args _ => colRefs args

/-- The references of a GROUP BY term. -/
def termRefs : GroupTerm V → List (String × Option String)
  | .expr e => e.refs
  | .ordinal _ => []

/-- The references of a HAVING clause. -/
def havingRefs (h : Having V) : List (String × Option String) :=
  colRefs h.expr.refs ++ h.found.flatMap fun a => a.2.exprs.flatMap Expr.refs

/-- The references of the list, of GROUP BY outside the extensions, and of HAVING. -/
def Body.refs : Body V → List (String × Option String)
  | .plain items _ => items.flatMap itemRefs
  | .total items _ => items.flatMap itemRefs
  | .grouped s => s.items.flatMap (fun i => itemRefs i.item) ++ s.groupBy.flatMap termRefs ++
      s.having.toList.flatMap havingRefs
  | .extended g items => items.flatMap extItemRefs ++ colRefs (g.expressions.flatMap GroupExpr.refs)

/-- `_non_where_subquery_parts`, by their references. -/
def nonWhereSubqueryParts (q : Subquery V) : List (String × Option String) :=
  q.body.refs ++ q.order.flatMap fun k => k.1.refs

/-! ## 3. The lowering -/

/-- `_references_outer`. -/
def referencesOuter (outer loc : List String) (refs : List (String × Option String)) : Bool :=
  refs.any (colTableIsOuter outer loc)

/-- `_equi_correlation_pair`: the name of the outer column, and the inner column. -/
def equiCorrelationPair (outer loc : List String) : OnExpr V → Option (String × ColRef)
  | .eq l r =>
    match colTableIsOuter outer loc l.ref, colTableIsOuter outer loc r.ref with
    | true, false => some (l.name, r)
    | false, true => some (r.name, l)
    | _, _ => none
  | _ => none

/-- The loop of `_classify_correlation` over the conjuncts of WHERE: the equalities with an outer column
and the local conjuncts. -/
def splitConjuncts (outer loc : List String) :
    List (OnExpr V) → Except DbError (List (String × ColRef) × List (OnExpr V))
  | [] => .ok ([], [])
  | c :: cs =>
    if referencesOuter outer loc c.refs then
      match equiCorrelationPair outer loc c with
      | some pair => do
        let (pairs, locals) ← splitConjuncts outer loc cs
        return (pair :: pairs, locals)
      | none => .error (.notImplemented ("correlated subqueries with a non-equi correlation " ++
          "(e.g. b.v <> a.v) are not supported yet; only equality " ++
          "correlations (inner.col = outer.col) are lowered to joins"))
    else do
      let (pairs, locals) ← splitConjuncts outer loc cs
      return (pairs, c :: locals)

/-- `_classify_correlation`. -/
def classifyCorrelation (underFrom : Bool) (outer : List String) (q : Subquery V) :
    Except DbError (Option (List (String × ColRef) × List (OnExpr V))) := do
  let loc := localAliases underFrom q
  let (pairs, locals) ← splitConjuncts outer loc (flattenAnd q.cond)
  if referencesOuter outer loc (nonWhereSubqueryParts q) then
    .error (.notImplemented ("correlated subqueries are only supported when the outer reference " ++
      "is a WHERE equality (outer refs in the SELECT list, aggregate " ++
      "arguments, or HAVING are not supported yet)"))
  else .ok (if pairs.isEmpty then none else some (pairs, locals))

/-- `_expr` of a condition. -/
def OnExpr.lower [DecidableEq V] {S : Scalars V} (B : Booleans S) : OnExpr V → Expr V
  | .and l r => .and (l.lower B) (r.lower B)
  | .eq l r => equality B l.expr r.expr
  | .other e => e

/-- The item of an inner key. -/
def keyItem (p : String × ColRef) : SelectItem V := ⟨.column p.2.ref.1 p.2.ref.2, none⟩

/-- The select list of the inner keys. -/
def keyItems (pairs : List (String × ColRef)) : List (SelectItem V) := pairs.map keyItem

/-- A SELECT with GROUP BY whose list is replaced by the inner keys. -/
def byKeys (s : GroupSelect V) (p : String × ColRef) (pairs : List (String × ColRef)) :
    GroupSelect V where
  items := (p :: pairs).map fun p => ⟨keyItem p, none⟩
  groupBy := s.groupBy
  having := s.having
  nonempty := by simp
  grouped := s.grouped
  texts := by
    intro i hi t ht
    obtain ⟨p, -, rfl⟩ := List.mem_map.mp hi
    cases ht

/-- The projection or the aggregates of `_build_select`, with the list replaced by the inner keys. -/
def buildBody (num : Nat → V) (plan : PlanNode V) (p : String × ColRef)
    (pairs : List (String × ColRef)) : Body V → Except DbError (PlanNode V)
  | .plain _ _ => .ok (.project plan (dedupOutputNames (keysOf (keyItems (p :: pairs)))))
  | .total _ _ => .ok (.project plan (dedupOutputNames (keysOf (keyItems (p :: pairs)))))
  | .grouped s => buildOutput num plan ((byKeys s p pairs).lowered num)
  | .extended g _ => buildExtension num plan g ((p :: pairs).map fun p => .item (keyItem p) rfl) none

/-- QUALIFY of `_build_select`: a Filter above the Window. -/
def buildQualify (plan : PlanNode V) (grouped : Bool) :
    Option (Qualify V) → Except DbError (PlanNode V)
  | none => .ok plan
  | some q =>
    if q.windows.isEmpty then .error (.notImplemented "QUALIFY requires a window function")
    else if grouped then .error (.notImplemented
      "window functions with GROUP BY / HAVING are not supported yet")
    else
      let (funcs, names) := qualifyFuncs [] 0 q.windows
      .ok (.filter (.window plan funcs) (q.pred names))

/-- DISTINCT, ORDER BY and LIMIT of `_build_select`. -/
def Subquery.tail (q : Subquery V) (p : PlanNode V) : PlanNode V :=
  let p := if q.distinct then .distinct p else p
  let p := if q.order.isEmpty then p else .sort p q.order
  match q.limit with
  | some (n, offset) => .limit p n offset
  | none => p

/-- `_set_local_where`, and the Filter of the local conjuncts. -/
def localWhere [DecidableEq V] {S : Scalars V} (B : Booleans S) (plan : PlanNode V)
    (locals : List (OnExpr V)) : PlanNode V :=
  match conjoinAll (locals.map (OnExpr.lower B)) with
  | some e => .filter plan e
  | none => plan

/-- `_build_query` of the inner SELECT. -/
def buildInner [DecidableEq V] {S : Scalars V} (B : Booleans S) (num : Nat → V) (env : Env V)
    (q : Subquery V) (p : String × ColRef) (pairs : List (String × ColRef))
    (locals : List (OnExpr V)) : Except DbError (PlanNode V) := do
  let source ← buildFrom env q.base q.joins
  let plan ← buildQualify (localWhere B source locals) q.body.isGrouped q.qualify
  let top ← buildBody num plan p pairs q.body
  return q.tail top

/-- `_subquery_output_cols`. -/
def subqueryOutputCols : PlanNode V → Except DbError (List String)
  | .sort p _ => subqueryOutputCols p
  | .limit p _ _ => subqueryOutputCols p
  | .project _ items => .ok (items.map Prod.snd)
  | .aggregate _ keys aggs => .ok (aggNames keys aggs)
  | .setOp l _ _ _ => subqueryOutputCols l
  | _ => .error (.notImplemented "subquery must project named columns (SELECT * is ambiguous)")

/-- `_exists_conjunct` and the Join of `_apply_where_subqueries`; `none` when the subquery is not
correlated. -/
def existsConjunct [DecidableEq V] {S : Scalars V} (B : Booleans S) (num : Nat → V) (env : Env V)
    (underFrom : Bool) (outer : List String) (plan : PlanNode V) (negated : Bool) (q : Subquery V) :
    Except DbError (Option (PlanNode V)) := do
  match ← classifyCorrelation underFrom outer q with
  | some (p :: pairs, locals) =>
    let subplan ← buildInner B num env q p pairs locals
    let onRight ← subqueryOutputCols subplan
    return some (.join plan subplan ⟨(p :: pairs).map Prod.fst, onRight,
      if negated then .anti else .semi, none, false⟩)
  | _ => return none

/-! ## 4. What is wanted -/

section Wanted

variable [DecidableEq V] {S : Scalars V} (B : Booleans S) (num : Nat → V) (D : Database V) (env : Env V)
  (outer : List String)

/-- A condition with the values of some references in their places; an equality with a value is no
equality of two columns any more. -/
def OnExpr.supply (val : String × Option String → Option (Cell V)) : OnExpr V → OnExpr V
  | .and l r => .and (l.supply val) (r.supply val)
  | .eq l r =>
    if (val l.ref).isSome || (val r.ref).isSome then .other ((equality B l.expr r.expr).supply val)
    else .eq l r
  | .other e => .other (e.supply val)

/-- A join whose condition has the values of some references in their places. -/
def JoinNode.supply (val : String × Option String → Option (Cell V)) (j : JoinNode V) : JoinNode V :=
  { j with on := j.on.map (OnExpr.supply B val) }

omit [DecidableEq V] in
/-- The values of an outer row: a qualified reference to a relation outside the subquery. -/
def outerCell (q : Subquery V) (L : List String) (l : Row V) (x : String × Option String) :
    Option (Cell V) :=
  if colTableIsOuter outer q.aliases x then some ((resolve L x.1 x.2).bind l) else none

/-- WHERE is true on a row of FROM with the values of an outer row. -/
def Subquery.whereTrue (q : Subquery V) (L cols : List String) (l w : Row V) : Bool :=
  S.holds (((q.cond.lower B).supply (outerCell outer q L l)).value S cols w)

/-- The rows of a list over the rows of FROM and WHERE. -/
def Body.rows (S : Scalars V) (df : Frame V) : Body V → List (List (Cell V))
  | .plain items _ => df.rows.map fun r => items.map (itemAt S num df.columns (.row r))
  | .total items _ => [items.map (itemAt S num df.columns (.group none df.rows))]
  | .grouped s =>
    match s.groupExprs df.columns with
    | some es => s.wantedRows S num df es
    | none => []
  | .extended g items => g.wantedRows S num df items

/-- A QUALIFY clause with the values of some references in their places. -/
def Qualify.supply (val : String × Option String → Option (Cell V)) (w : Qualify V) : Qualify V where
  windows := w.windows.map fun x => (x.1, { x.2 with args := x.2.args.map (Expr.supply val) })
  pred names := (w.pred names).supply val

/-- The rows QUALIFY leaves, with the columns of its windows. -/
def qualifyFrame (S : Scalars V) (df : Frame V) : Option (Qualify V) → Except DbError (Frame V)
  | none => .ok df
  | some w => do
    let (funcs, names) := qualifyFuncs [] 0 w.windows
    let g ← windowFrame S df funcs
    filterFrame S g (w.pred names)

/-- The rows of the subquery over the rows of FROM and WHERE.  QUALIFY looks at the rows of a list
without aggregates, and at the one row of a list with an aggregate. -/
def Subquery.bodyRows (S : Scalars V) (q : Subquery V) (qualify : Option (Qualify V)) (df : Frame V) :
    List (List (Cell V)) :=
  match q.body with
  | .total items _ =>
    let names := items.map SelectItem.name
    let row := items.map (itemAt S num df.columns (.group none df.rows))
    match qualifyFrame S (.ofRows names [cellOf names row]) qualify with
    | .ok g => g.rows.map fun _ => row
    | .error _ => []
  | body =>
    match qualifyFrame S df qualify with
    | .ok g => body.rows num S g
    | .error _ => []

/-- DISTINCT and LIMIT; which rows they leave does not matter for their number. -/
def Subquery.cut (q : Subquery V) (rows : List (List (Cell V))) : List (List (Cell V)) :=
  let rows := if q.distinct then rows.dedup else rows
  match q.limit with
  | some (n, offset) => (rows.drop offset).take n
  | none => rows

/-- What FROM returns with the values of an outer row. -/
def Subquery.fromFor (q : Subquery V) (L : List String) (l : Row V) : Except DbError (Frame V) := do
  let source ← buildFrom env q.base (q.joins.map (JoinNode.supply B (outerCell outer q L l)))
  exec S D source

/-- **What the subquery returns with the values of an outer row**, in some order. -/
def Subquery.rowsFor (q : Subquery V) (L : List String) (l : Row V) : List (List (Cell V)) :=
  match q.fromFor B D env outer L l with
  | .ok df => q.cut (q.bodyRows num S (q.qualify.map (Qualify.supply (outerCell outer q L l)))
      (df.filter (q.whereTrue B outer L df.columns l)))
  | .error _ => []

/-- **The result is that of EXISTS or NOT EXISTS**: the outer rows for which the subquery returns a row,
or none. -/
def Subquery.Kept (negated : Bool) (q : Subquery V) (left f : Frame V) : Prop :=
  f = left.filter fun l => (q.rowsFor B num D env outer left.columns l).isEmpty == negated

end Wanted

/-! ## 5. Where it is so -/

section Condition

variable [DecidableEq V] (S : Scalars V) (num : Nat → V)

/-- A body is settled by the rows of one outer row: it returns a row over them exactly when there are
any and, as one group, they pass HAVING, or are in a grouping set with all keys. -/
def Body.Settled (p : String × ColRef) (pairs : List (String × ColRef)) (df : Frame V) :
    Body V → Prop
  | .plain _ _ => True
  | .total _ _ => df.rows ≠ []
  | .grouped s => (∃ es, s.groupExprs df.columns = some es ∧
      ∃ rows ∈ partitionBy S df es, s.keeps S num df.columns rows = true) ↔
        df.rows ≠ [] ∧ (byKeys s p pairs).keeps S num df.columns df.rows = true
  | .extended g _ => (∃ set ∈ g.sets, set = [] ∨ df.rows ≠ []) ↔
      df.rows ≠ [] ∧ ∃ x, groupingExtensionSets g = .ok x ∧
        ∃ set ∈ x.2, ∀ k ∈ p :: pairs, k.2.name ∈ set

omit [DecidableEq V] in
/-- The names of the inner keys are clear over an input with the columns `cols`. -/
def Body.Clear (cols : List String) (p : String × ColRef) (pairs : List (String × ColRef)) :
    Body V → Prop
  | .plain _ _ => (dedupNames ∅ ((p :: pairs).map fun k => k.2.name)).Nodup
  | .total _ _ => (dedupNames ∅ ((p :: pairs).map fun k => k.2.name)).Nodup
  | .grouped s => (byKeys s p pairs).Clear cols ∧ (byKeys s p pairs).HavingTold cols
  | .extended g _ => ((p :: pairs).map fun k => k.2.name).Nodup ∧
      ∀ x, groupingExtensionSets g = .ok x → ∀ set ∈ x.2,
        Captureless (V := V) cols (presentKeys (keyItems (p :: pairs)) set) []

omit [DecidableEq V] in
/-- The body has grouping sets. -/
def Body.hasSets : Body V → Bool
  | .extended _ _ => true
  | _ => false

omit [DecidableEq V] in
/-- The subquery has no QUALIFY, no LIMIT that could leave out a row of FROM, no outer column outside WHERE,
and clear names: its relations are known to `_local_aliases`, every outer column of WHERE still has its bare
name in the outer frame, and the names of the inner keys are clear. -/
structure Subquery.Clear (underFrom : Bool) (outer : List String) (L : List String) (df : Frame V)
    (p : String × ColRef) (pairs : List (String × ColRef)) (q : Subquery V) : Prop where
  qualify : q.qualify = none
  roomy : ∀ x ∈ q.limit,
    x.2 = 0 ∧ 0 < x.1 ∧ df.rows.length ≤ x.1 ∧ q.body.hasSets = false
  scope : underFrom = true ∨ q.base.aliasName ∉ outer
  joins : ∀ j ∈ q.joins, ∀ e ∈ j.on, ∀ x ∈ e.refs, colTableIsOuter outer q.aliases x = false
  named : ∀ x ∈ q.cond.refs, colTableIsOuter outer q.aliases x = true → resolve L x.1 x.2 = some x.1
  body : q.body.Clear df.columns p pairs

end Condition

/-! ## 6. The rows of one outer row -/

section Values

/-- Nothing is supplied to an expression without such a reference. -/
theorem supply_eq_self {val : String × Option String → Option (Cell V)} {e : Expr V}
    (h : ∀ x ∈ e.refs, val x = none) : e.supply val = e := by
  induction e with
  | col name table =>
    have hx : val (name, table) = none := h _ (List.mem_singleton.mpr rfl)
    rw [Expr.supply, hx]
  | lit c => rfl
  | and l r hl hr =>
    rw [Expr.supply, hl fun x hx => h x (List.mem_append_left _ hx),
      hr fun x hx => h x (List.mem_append_right _ hx)]
  | or l r hl hr =>
    rw [Expr.supply, hl fun x hx => h x (List.mem_append_left _ hx),
      hr fun x hx => h x (List.mem_append_right _ hx)]
  | not e ih => rw [Expr.supply, ih h]
  | app op args ih =>
    rw [Expr.supply]
    refine congrArg _ (funext fun i => ih i fun x hx => h x ?_)
    exact List.mem_flatten.mpr ⟨_, (List.mem_ofFn' _ _).mpr ⟨i, rfl⟩, hx⟩

variable [DecidableEq V] {S : Scalars V} (B : Booleans S)

theorem sameCell_comm (a b : Cell V) : sameCell a b = sameCell b a := by
  unfold sameCell
  by_cases h : a = b
  · rw [h]
  · rw [decide_eq_false h, decide_eq_false fun hba => h hba.symm, Bool.and_false, Bool.and_false]

theorem supply_equality (val : String × Option String → Option (Cell V)) (l r : Expr V) :
    (equality B l r).supply val = equality B (l.supply val) (r.supply val) := by
  rw [equality, Expr.supply, equality]
  refine congrArg _ (funext fun i => ?_)
  dsimp only
  split <;> rfl

/-- An equality is true of equal cells that are not NULL. -/
theorem holds_equality (cols : List String) (w : Row V) (l r : Expr V) :
    S.holds ((equality B l r).value S cols w) =
      sameCell (l.value S cols w) (r.value S cols w) := by
  change S.holds ((l.value S cols w).bind fun x => (r.value S cols w).map fun y =>
    if x = y then B.yes else B.no) = _
  cases hl : l.value S cols w with
  | none => rfl
  | some x =>
    cases hr : r.value S cols w with
    | none => rfl
    | some y =>
      by_cases hxy : x = y
      · simp [Scalars.holds, sameCell, hxy, B.truth_yes]
      · simp [Scalars.holds, sameCell, hxy, B.truth_no]

/-- **A WHERE clause is true where all its conjuncts are.** -/
theorem holds_supplied (val : String × Option String → Option (Cell V)) (cols : List String)
    (w : Row V) (c : OnExpr V) : S.holds (((c.lower B).supply val).value S cols w) =
      (flattenAnd c).all fun x => S.holds (((x.lower B).supply val).value S cols w) := by
  induction c with
  | and l r hl hr =>
    have hand : S.holds ((((OnExpr.and l r).lower B).supply val).value S cols w) =
        (S.holds (((l.lower B).supply val).value S cols w) &&
          S.holds (((r.lower B).supply val).value S cols w)) := S.truth_conj _ _
    rw [hand, flattenAnd, List.all_append, hl, hr]
  | eq l r => simp [flattenAnd]
  | other e => simp [flattenAnd]

omit [DecidableEq V] in
/-- The references of a conjunct are references of the condition. -/
theorem refs_flattenAnd {c x : OnExpr V} (h : x ∈ flattenAnd c) : ∀ y ∈ x.refs, y ∈ c.refs := by
  induction c with
  | and l r hl hr =>
    intro y hy
    rcases List.mem_append.mp h with h | h
    · exact List.mem_append_left _ (hl h y hy)
    · exact List.mem_append_right _ (hr h y hy)
  | eq l r =>
    rw [List.mem_singleton.mp h]
    exact fun y hy => hy
  | other e =>
    rw [List.mem_singleton.mp h]
    exact fun y hy => hy

/-- The references of a lowered conjunct. -/
theorem refs_lower {c : OnExpr V} {x : String × Option String} (h : x ∈ (c.lower B).refs) :
    x ∈ c.refs := by
  induction c with
  | and l r hl hr =>
    rcases List.mem_append.mp h with h | h
    · exact List.mem_append_left _ (hl h)
    · exact List.mem_append_right _ (hr h)
  | eq l r =>
    obtain ⟨_, hm, hx⟩ := List.mem_flatten.mp h
    obtain ⟨i, rfl⟩ := (List.mem_ofFn' _ _).mp hm
    dsimp only at hx
    split at hx
    · rw [List.mem_singleton.mp hx]
      exact List.mem_cons_self
    · rw [List.mem_singleton.mp hx]
      exact List.mem_cons_of_mem _ List.mem_cons_self
  | other e => exact h

omit [DecidableEq V] in
/-- **The conjuncts of WHERE** fall into the equalities with an outer column and the local ones. -/
theorem splitConjuncts_all {outer loc : List String} {f : OnExpr V → Bool}
    {g : String × ColRef → Bool} : ∀ {cs : List (OnExpr V)} {pairs : List (String × ColRef)}
      {locals : List (OnExpr V)}, splitConjuncts outer loc cs = .ok (pairs, locals) →
      (∀ c ∈ cs, ∀ p, equiCorrelationPair outer loc c = some p → f c = g p) →
      cs.all f = (pairs.all g && locals.all f) ∧
        ∀ c ∈ locals, c ∈ cs ∧ referencesOuter outer loc c.refs = false
  | [], pairs, locals, h, _ => by
    cases h
    exact ⟨rfl, fun c hc => absurd hc List.not_mem_nil⟩
  | c :: cs, pairs, locals, h, hpair => by
    have hrest : ∀ c' ∈ cs, ∀ p, equiCorrelationPair outer loc c' = some p → f c' = g p :=
      fun c' hc' => hpair c' (List.mem_cons_of_mem _ hc')
    rw [splitConjuncts] at h
    split at h
    · split at h
      · rename_i pair hp
        obtain ⟨⟨pairs', locals'⟩, hsplit, h⟩ := bind_eq_ok.mp h
        cases h
        obtain ⟨hall, hloc⟩ := splitConjuncts_all hsplit hrest
        refine ⟨?_, fun c' hc' => ⟨List.mem_cons_of_mem _ (hloc c' hc').1, (hloc c' hc').2⟩⟩
        rw [List.all_cons, List.all_cons, hall, hpair c List.mem_cons_self pair hp, Bool.and_assoc]
      · cases h
    · rename_i hout
      obtain ⟨⟨pairs', locals'⟩, hsplit, h⟩ := bind_eq_ok.mp h
      cases h
      obtain ⟨hall, hloc⟩ := splitConjuncts_all hsplit hrest
      refine ⟨?_, fun c' hc' => ?_⟩
      · rw [List.all_cons, List.all_cons, hall, Bool.and_left_comm]
      · rcases List.mem_cons.mp hc' with rfl | hc'
        · exact ⟨List.mem_cons_self, Bool.eq_false_iff.mpr hout⟩
        · exact ⟨List.mem_cons_of_mem _ (hloc c' hc').1, (hloc c' hc').2⟩

variable {outer L cols : List String} {q : Subquery V} {underFrom : Bool}

omit [DecidableEq V] in
/-- The subquery's own relations are known to `_local_aliases`. -/
theorem colTableIsOuter_local (h : underFrom = true ∨ q.base.aliasName ∉ outer)
    (x : String × Option String) :
    colTableIsOuter outer (localAliases underFrom q) x = colTableIsOuter outer q.aliases x := by
  cases underFrom with
  | true => rfl
  | false =>
    have hbase : q.base.aliasName ∉ outer := h.resolve_left (by decide)
    unfold colTableIsOuter
    cases x.2 with
    | none => rfl
    | some t =>
      refine decide_eq_decide.mpr (and_congr_right fun _ => and_congr_left fun ht => ?_)
      have hne : t ≠ q.base.aliasName := fun he => hbase (he ▸ ht)
      rw [localAliases, Subquery.aliases, if_neg (by decide), List.nil_append, List.mem_cons,
        not_or, and_iff_right hne]

omit [DecidableEq V] in
theorem outerCell_none {l : Row V} {x : String × Option String}
    (h : colTableIsOuter outer q.aliases x = false) : outerCell outer q L l x = none := by
  rw [outerCell, h, if_neg (by decide)]

/-- An equality of an inner and an outer column, with the value of the outer one. -/
theorem holds_pair {l w : Row V} {c : OnExpr V} {p : String × ColRef}
    (hnamed : ∀ x ∈ c.refs, colTableIsOuter outer q.aliases x = true → resolve L x.1 x.2 = some x.1)
    (h : equiCorrelationPair outer q.aliases c = some p) :
    S.holds (((c.lower B).supply (outerCell outer q L l)).value S cols w) =
      sameCell (l p.1) (p.2.expr.value S cols w) := by
  -- an outer column gives its cell, an inner one stays
  have hout : ∀ {a : ColRef}, colTableIsOuter outer q.aliases a.ref = true → a.ref ∈ c.refs →
      ((a.expr : Expr V).supply (outerCell outer q L l)).value S cols w = l a.name := by
    intro a ha hmem
    have hcell : outerCell outer q L l a.ref = some (l a.name) := by
      rw [outerCell, if_pos ha, hnamed _ hmem ha]
      rfl
    rw [ColRef.expr, Expr.supply, show (a.ref.1, a.ref.2) = a.ref from rfl, hcell]
    rfl
  have hin : ∀ {a : ColRef}, colTableIsOuter outer q.aliases a.ref = false →
      (a.expr : Expr V).supply (outerCell outer q L l) = a.expr := by
    intro a ha
    refine supply_eq_self fun x hx => ?_
    rw [List.mem_singleton.mp hx]
    exact outerCell_none ha
  cases c with
  | and _ _ => cases h
  | other _ => cases h
  | eq a b =>
    rw [OnExpr.lower, supply_equality, holds_equality]
    rw [equiCorrelationPair] at h
    split at h
    · rename_i ha hb
      cases h
      rw [hout ha List.mem_cons_self, hin hb]
    · rename_i ha hb
      cases h
      rw [hout hb (List.mem_cons_of_mem _ List.mem_cons_self), hin ha, sameCell_comm]
    · cases h

/-- **WHERE with the values of an outer row** is true on the rows that have its keys and pass the local
conjuncts. -/
theorem whereTrue_eq {pairs : List (String × ColRef)} {locals : List (OnExpr V)} {l w : Row V}
    (hscope : underFrom = true ∨ q.base.aliasName ∉ outer)
    (hnamed : ∀ x ∈ q.cond.refs,
      colTableIsOuter outer q.aliases x = true → resolve L x.1 x.2 = some x.1)
    (h : splitConjuncts outer (localAliases underFrom q) (flattenAnd q.cond) = .ok (pairs, locals)) :
    q.whereTrue B outer L cols l w =
      (pairs.all (fun p => sameCell (l p.1) (p.2.expr.value S cols w)) &&
        locals.all fun c => S.holds ((c.lower B).value S cols w)) := by
  have hpair : ∀ c ∈ flattenAnd q.cond, ∀ p,
      equiCorrelationPair outer (localAliases underFrom q) c = some p →
        S.holds (((c.lower B).supply (outerCell outer q L l)).value S cols w) =
          sameCell (l p.1) (p.2.expr.value S cols w) := by
    intro c hc p hp
    refine holds_pair B (fun x hx => hnamed x (refs_flattenAnd hc x hx)) ?_
    rw [← hp]
    cases c with
    | and _ _ => rfl
    | other _ => rfl
    | eq a b =>
      simp only [equiCorrelationPair, colTableIsOuter_local hscope]
  obtain ⟨hall, hloc⟩ := splitConjuncts_all
    (g := fun p => sameCell (l p.1) (p.2.expr.value S cols w)) h hpair
  have hself : ∀ c ∈ locals, (c.lower B).supply (outerCell outer q L l) = c.lower B := by
    intro c hc
    have hno := (hloc c hc).2
    rw [referencesOuter, List.any_eq_false] at hno
    refine supply_eq_self fun x hx => outerCell_none ?_
    rw [← colTableIsOuter_local hscope]
    exact Bool.eq_false_iff.mpr (hno x (refs_lower B hx))
  rw [Subquery.whereTrue, holds_supplied, hall]
  refine congrArg _ ?_
  rw [Bool.eq_iff_iff, List.all_eq_true, List.all_eq_true]
  exact forall₂_congr fun c hc => by rw [hself c hc]

/-- A join without outer columns stays as it is. -/
theorem joins_supply {val : String × Option String → Option (Cell V)} {joins : List (JoinNode V)}
    (h : ∀ j ∈ joins, ∀ e ∈ j.on, ∀ x ∈ e.refs, val x = none) :
    joins.map (JoinNode.supply B val) = joins := by
  have hcond : ∀ {e : OnExpr V}, (∀ x ∈ e.refs, val x = none) → e.supply B val = e := by
    intro e he
    induction e with
    | and l r hl hr =>
      rw [OnExpr.supply, hl fun x hx => he x (List.mem_append_left _ hx),
        hr fun x hx => he x (List.mem_append_right _ hx)]
    | eq a b =>
      rw [OnExpr.supply, he _ List.mem_cons_self,
        he _ (List.mem_cons_of_mem _ List.mem_cons_self)]
      rfl
    | other e => rw [OnExpr.supply, supply_eq_self he]
  refine (List.map_congr_left fun j hj => ?_).trans (List.map_id _)
  rw [JoinNode.supply, id_eq]
  cases hon : j.on with
  | none =>
    cases j
    cases hon
    rfl
  | some e =>
    rw [Option.map_some, hcond (h j hj e hon), ← hon]

end Values

/-! ## 7. The join -/

section Semi

variable [DecidableEq V] {S : Scalars V} {D : Database V}

/-- **A semi or anti join** keeps the outer rows whose key has no NULL and is, or is not, one of the
right side. -/
theorem exec_semi {plan subplan : PlanNode V} {left right f : Frame V} {negated : Bool}
    {ks ns : List String} (hlen : ks.length = ns.length) (hl : exec S D plan = .ok left)
    (hr : exec S D subplan = .ok right)
    (h : exec S D (.join plan subplan ⟨ks, ns, if negated then .anti else .semi, none, false⟩) =
      .ok f) :
    f = left.filter fun l => !decide ((keyOf ks l).nonNull = true ∧
      keyOf ks l ∈ right.rows.map (keyOf ns)) == negated := by
  obtain ⟨left', hl', h⟩ := bind_eq_ok.mp h
  obtain ⟨right', hr', h⟩ := bind_eq_ok.mp h
  cases hl'.symm.trans hl
  cases hr'.symm.trans hr
  obtain ⟨-, rfl⟩ := joinFrames_ok.mp h
  have hsemi : (if negated then JoinHow.anti else .semi).isSemi = true := by cases negated <;> rfl
  have hpad : JoinOn.padded (V := V) ⟨ks, ns, if negated then .anti else .semi, none, false⟩ =
      false := by
    rw [JoinOn.padded, JoinHow.not_outer_of_semi hsemi, Bool.false_and]
  have hkeys : keyPairs (V := V) ⟨ks, ns, if negated then .anti else .semi, none, false⟩ =
      ks.zip ns := by cases negated <;> rfl
  rw [joined, if_pos hsemi]
  refine congrArg _ (funext fun l => ?_)
  have hany : right.rows.any (joinTest S
      ⟨ks, ns, if negated then .anti else .semi, none, false⟩ plan.sideAlias subplan.sideAlias
        left.columns right.columns l) = decide ((keyOf ks l).nonNull = true ∧
          keyOf ks l ∈ right.rows.map (keyOf ns)) := by
    rw [joinTest_semi hsemi hpad, Bool.eq_iff_iff, List.any_eq_true, decide_eq_true_eq]
    simp only [hkeys, nonNullKeys_zip hlen, sameKeys_zip hlen, passes, Bool.and_true,
      Bool.and_eq_true, decide_eq_true_eq, List.mem_map]
    constructor
    · rintro ⟨r, hmem, hnn, heq⟩
      exact ⟨heq ▸ hnn, r, hmem, heq.symm⟩
    · rintro ⟨hnn, r, hmem, heq⟩
      exact ⟨r, hmem, heq ▸ hnn, heq.symm⟩
  rw [semiHit, hany]
  generalize decide ((keyOf ks l).nonNull = true ∧ keyOf ks l ∈ right.rows.map (keyOf ns)) = hit
  cases negated <;> cases hit <;> rfl

/-- The clauses below LIMIT: what is accepted has no DISTINCT, and the rows stay. -/
theorem exec_order_perm {q : Subquery V} {top : PlanNode V} {ns : List String} {f : Frame V}
    (hns : subqueryOutputCols (if q.order.isEmpty then (if q.distinct then .distinct top else top)
      else .sort (if q.distinct then .distinct top else top) q.order) = .ok ns)
    (h : exec S D (if q.order.isEmpty then (if q.distinct then .distinct top else top)
      else .sort (if q.distinct then .distinct top else top) q.order) = .ok f) :
    subqueryOutputCols top = .ok ns ∧ ∃ g, exec S D top = .ok g ∧ f.rows.Perm g.rows := by
  cases hd : q.distinct with
  | true =>
    simp only [hd, if_true] at hns
    split at hns <;> cases hns
  | false =>
    simp only [hd, Bool.false_eq_true, if_false] at hns h
    split at hns
    · rename_i ho
      rw [if_pos ho] at h
      exact ⟨hns, f, h, .refl _⟩
    · rename_i ho
      rw [if_neg ho] at h
      obtain ⟨g, hg, -, hperm⟩ := exec_sort_perm h
      exact ⟨hns, g, hg, hperm⟩

/-- **The clauses above the list**: the rows stay, when a LIMIT has room for them. -/
theorem exec_tail_perm {q : Subquery V} {top : PlanNode V} {ns : List String} {f : Frame V}
    (hns : subqueryOutputCols (q.tail top) = .ok ns) (h : exec S D (q.tail top) = .ok f) :
    subqueryOutputCols top = .ok ns ∧ ∃ g, exec S D top = .ok g ∧
      ((∀ x ∈ q.limit, x.2 = 0 ∧ g.rows.length ≤ x.1) → f.rows.Perm g.rows) := by
  unfold Subquery.tail at hns h
  cases hq : q.limit with
  | none =>
    simp only [hq] at hns h
    obtain ⟨hout, g, hg, hperm⟩ := exec_order_perm hns h
    exact ⟨hout, g, hg, fun _ => hperm⟩
  | some x =>
    simp only [hq] at hns h
    obtain ⟨k, hk, h⟩ := bind_eq_ok.mp h
    cases h
    obtain ⟨hout, g, hg, hperm⟩ := exec_order_perm hns hk
    refine ⟨hout, g, hg, fun hroom => ?_⟩
    obtain ⟨hzero, hlen⟩ := hroom x rfl
    have hself : k.rows.map (restrict k.columns) = k.rows := by
      refine (List.map_congr_left fun r hr => ?_).trans (List.map_id _)
      exact Frame.restrict_self hr
    rw [limitFrame, hzero, List.drop_zero, List.take_of_length_le (hperm.length_eq ▸ hlen),
      Frame.ofRows_rows, hself]
    exact hperm

end Semi

/-! ## 8. The right side -/

section Right

variable [DecidableEq V] {S : Scalars V} {num : Nat → V} {D : Database V} {plan top : PlanNode V}
  {df g : Frame V} {p : String × ColRef} {pairs ks : List (String × ColRef)} {ns : List String}

omit [DecidableEq V] in
/-- The inner keys of a row. -/
def keyCells (S : Scalars V) (cols : List String) (ks : List (String × ColRef)) (w : Row V) : Key V :=
  ks.map fun k => k.2.expr.value S cols w

/-- The rows that have a key. -/
def partOf (S : Scalars V) (ks : List (String × ColRef)) (df : Frame V) (key : Key V) : Frame V :=
  df.filter fun w => decide (keyCells S df.columns ks w = key)

/-- The right side has the key of these rows. -/
def Body.Finds (S : Scalars V) (num : Nat → V) (p : String × ColRef) (pairs : List (String × ColRef))
    (df : Frame V) : Body V → Prop
  | .plain _ _ => df.rows ≠ []
  | .total _ _ => df.rows ≠ []
  | .grouped s => df.rows ≠ [] ∧ (byKeys s p pairs).keeps S num df.columns df.rows = true
  | .extended g _ => df.rows ≠ [] ∧ ∃ x, groupingExtensionSets g = .ok x ∧
      ∃ set ∈ x.2, ∀ k ∈ p :: pairs, k.2.name ∈ set

omit [DecidableEq V] in
theorem keysOf_keyItems (ks : List (String × ColRef)) :
    keysOf (keyItems ks : List (SelectItem V)) = ks.map fun k => (k.2.expr, k.2.name) := by
  rw [keysOf, keyItems, List.filterMap_map]
  exact List.filterMap_eq_map (f := fun k : String × ColRef => ((k.2.expr : Expr V), k.2.name)) ▸ rfl

omit [DecidableEq V] in
theorem aggsOf_keyItems (ks : List (String × ColRef)) :
    aggsOf (keyItems ks : List (SelectItem V)) = [] := by
  refine aggsOf_eq_nil fun i hi => ?_
  obtain ⟨k, -, rfl⟩ := List.mem_map.mp hi
  rfl

omit [DecidableEq V] in
theorem names_keyItems (ks : List (String × ColRef)) :
    (keyItems ks : List (SelectItem V)).map SelectItem.name = ks.map fun k => k.2.name := by
  rw [keyItems, List.map_map]
  rfl

omit [DecidableEq V] in
theorem items_byKeys (s : GroupSelect V) :
    (byKeys s p pairs).items.map AggItem.item = keyItems (p :: pairs) := by
  rw [byKeys, List.map_map]
  rfl

omit [DecidableEq V] in
theorem keys_byKeys (s : GroupSelect V) :
    (byKeys s p pairs).keys = (p :: pairs).map fun k => (k.2.expr, k.2.name) := by
  rw [GroupSelect.keys, items_byKeys, keysOf_keyItems]

/-- The rows with a key, if there are any, are the group whose first row shows it. -/
theorem exists_group {P : List (Row V) → Prop} {key : Key V} (hne : ks ≠ []) :
    (∃ rows ∈ partitionBy S df (ks.map fun k => k.2.expr), P rows ∧
      ks.map (fun k => rows.head?.bind (k.2.expr.value S df.columns)) = key) ↔
        (partOf S ks df key).rows ≠ [] ∧ P (partOf S ks df key).rows := by
  have hne' : (ks.map fun k => (k.2.expr : Expr V)) ≠ [] := fun h => hne (List.map_eq_nil_iff.mp h)
  have hcells : ∀ w, (ks.map fun k => (k.2.expr : Expr V)).map (fun e => e.value S df.columns w) =
      keyCells S df.columns ks w := fun w => List.map_map
  -- the group of a row, and what its first row shows
  have hgroup : ∀ r₀ ∈ df.rows,
      ks.map (fun k => ((partOf S ks df (keyCells S df.columns ks r₀)).rows.head?.bind
        (k.2.expr.value S df.columns))) = keyCells S df.columns ks r₀ := by
    intro r₀ hr₀
    have hmem : keyCells S df.columns ks r₀ ∈ df.rows.map (keyCells S df.columns ks) :=
      List.mem_map_of_mem hr₀
    obtain ⟨r₁, hhead, hkey⟩ := head_key hmem
    rw [partOf, Frame.filter_rows, hhead, ← hkey]
    rfl
  simp only [mem_partitionBy, hne', false_and, false_or, ne_eq, not_false_eq_true, true_and, hcells]
  constructor
  · rintro ⟨rows, ⟨r₀, hr₀, hrows⟩, hP, hkey⟩
    have hpart : rows = (partOf S ks df (keyCells S df.columns ks r₀)).rows := hrows
    rw [hpart, hgroup r₀ hr₀] at hkey
    subst hkey
    refine ⟨List.ne_nil_of_mem (List.mem_filter.mpr ⟨hr₀, decide_eq_true rfl⟩), hpart ▸ hP⟩
  · rintro ⟨hsome, hP⟩
    obtain ⟨r₀, l, hl⟩ := List.exists_cons_of_ne_nil hsome
    have hmem : r₀ ∈ (partOf S ks df key).rows := hl ▸ List.mem_cons_self
    obtain ⟨hr₀, hkey⟩ := List.mem_filter.mp hmem
    have hkey : keyCells S df.columns ks r₀ = key := of_decide_eq_true hkey
    subst hkey
    exact ⟨_, ⟨r₀, hr₀, rfl⟩, hP, hgroup r₀ hr₀⟩

omit [DecidableEq V] in
/-- The keys of a projection. -/
theorem project_found {key : Key V}
    (hn : (dedupNames ∅ (ks.map fun k => k.2.name)).Nodup)
    (hg : projectFrame S df (dedupOutputNames (keysOf (keyItems ks))) = .ok g) :
    key ∈ g.rows.map (keyOf (dedupNames ∅ (ks.map fun k => k.2.name))) ↔
      ∃ w ∈ df.rows, keyCells S df.columns ks w = key := by
  have hsnd : (dedupOutputNames (keysOf (keyItems ks : List (SelectItem V)))).map Prod.snd =
      dedupNames ∅ (ks.map fun k => k.2.name) := by
    rw [map_snd_dedupOutputNames, keysOf_keyItems, List.map_map]
    rfl
  have hfst : (dedupOutputNames (keysOf (keyItems ks : List (SelectItem V)))).map Prod.fst =
      ks.map fun k => k.2.expr := by
    rw [map_fst_dedupOutputNames, keysOf_keyItems, List.map_map]
    rfl
  obtain ⟨hcols, hrows⟩ := project_list (hsnd ▸ hn) hg
  rw [hsnd] at hcols
  rw [← hcols, hrows, List.mem_map]
  refine exists_congr fun w => and_congr_right fun _ => ?_
  have hcell : (dedupOutputNames (keysOf (keyItems ks))).map (fun i => i.1.value S df.columns w) =
      keyCells S df.columns ks w := by
    have hcomp : (fun i : Expr V × String => i.1.value S df.columns w) =
        (fun e => e.value S df.columns w) ∘ Prod.fst := rfl
    rw [hcomp, ← List.map_map, hfst, List.map_map]
    rfl
  rw [hcell]

theorem partOf_ne_nil {key : Key V} :
    (partOf S ks df key).rows ≠ [] ↔ ∃ w ∈ df.rows, keyCells S df.columns ks w = key := by
  rw [partOf, Frame.filter_rows, ne_eq, List.filter_eq_nil_iff]
  simp only [decide_eq_true_eq, not_forall, not_not, exists_prop]

/-- **The keys of a GROUP BY** with the list of the inner keys. -/
theorem grouped_found {s : GroupSelect V}
    (hp : buildOutput num plan ((byKeys s p pairs).lowered num) = .ok top)
    (hdf : exec S D plan = .ok df) (hg : exec S D top = .ok g)
    (hns : subqueryOutputCols top = .ok ns) (hc : (byKeys s p pairs).Clear df.columns)
    (hh : (byKeys s p pairs).HavingTold df.columns) :
    ns = ((p :: pairs).map fun k => k.2.name) ∧ ∀ key, (key ∈ g.rows.map (keyOf ns) ↔
      (Body.grouped s).Finds S num p pairs (partOf S (p :: pairs) df key)) := by
  have hnames : (byKeys s p pairs).names = (p :: pairs).map fun k => k.2.name := by
    rw [GroupSelect.names, byKeys, List.map_map]
    rfl
  have hagg : aggNames (byKeys s p pairs).keys (aggsOf ((byKeys s p pairs).items.map AggItem.item)) =
      (p :: pairs).map fun k => k.2.name := by
    rw [items_byKeys, aggsOf_keyItems, aggNames, keys_byKeys, List.map_map, List.map_nil, List.append_nil]
    rfl
  have hout : ns = (p :: pairs).map fun k => k.2.name := by
    obtain ⟨-, hplan⟩ := build_ok hp
    cases hs : (byKeys s p pairs).having with
    | none =>
      rw [hs] at hplan
      subst hplan
      cases hns
      rw [← hagg, GroupSelect.aggs, hs]
      exact congrArg (aggNames _) (List.append_nil _)
    | some h =>
      rw [hs] at hplan
      dsimp only at hplan
      split at hplan
      · subst hplan
        cases hns
      · subst hplan
        cases hns
        have hnd : ((p :: pairs).map fun k => k.2.name).Nodup := by
          rw [← hnames]
          refine (names_perm (build_ok hp).1).nodup_iff.mp ?_
          refine hc.names.sublist ?_
          rw [GroupSelect.aggs, aggNames, aggNames, List.map_append, ← List.append_assoc]
          exact List.sublist_append_left _ _
        rw [hagg, dedupOutputNames_nodup (by rw [map_snd_colItems]; exact hnd), map_snd_colItems]
  refine ⟨hout, fun key => ?_⟩
  rw [hout, ← hnames, grouped_list hp hdf hg hc hh, GroupSelect.wantedRows, List.mem_map]
  have hes : (byKeys s p pairs).keys.map Prod.fst = (p :: pairs).map fun k => (k.2.expr : Expr V) := by
    rw [keys_byKeys, List.map_map]
    rfl
  have hshow : ∀ rows : List (Row V), ((byKeys s p pairs).items.map fun i =>
      itemAt S num df.columns (.group none rows) i.item) =
        (p :: pairs).map fun k => rows.head?.bind (k.2.expr.value S df.columns) := by
    intro rows
    rw [byKeys, List.map_map]
    rfl
  simp only [hshow, hes, List.mem_filter, and_assoc]
  exact exists_group (P := fun rows => (byKeys s p pairs).keeps S num df.columns rows = true)
    (List.cons_ne_nil p pairs)

omit [DecidableEq V] in
/-- The output columns of a UNION ALL are those of its first branch. -/
theorem outputCols_unions : ∀ {bs : List (PlanNode V)} {acc : PlanNode V},
    subqueryOutputCols (bs.foldl (fun acc b => .setOp acc b .union false) acc) =
      subqueryOutputCols acc
  | [], _ => rfl
  | b :: bs, acc => by
    have ih : subqueryOutputCols (bs.foldl (fun acc b => .setOp acc b .union false)
        (.setOp acc b .union false)) = subqueryOutputCols (.setOp acc b .union false) :=
      outputCols_unions
    exact ih

/-- The groups of some grouping sets show a key without NULL where one of the sets has all keys. -/
theorem sets_found {gc : GroupClause} {items : List (ExtItem V)} {key : Key V} {dims : List String}
    {sets : List (List String)} (hsets : groupingExtensionSets gc = .ok (dims, sets))
    (hkey : key.nonNull = true) :
    key ∈ (sets.flatMap (setOrigins S df (keyItems (p :: pairs)))).map (fun o =>
      (keyItems (p :: pairs)).map (itemAt S num df.columns o)) ↔
        (Body.extended gc items).Finds S num p pairs (partOf S (p :: pairs) df key) := by
  have hcells : ∀ set (rows : List (Row V)),
      (keyItems (p :: pairs)).map (itemAt S num df.columns (.group (some set) rows)) =
        (p :: pairs).map fun k => if k.2.name ∈ set then
          rows.head?.bind ((k.2.expr : Expr V).value S df.columns) else none := by
    intro set rows
    rw [keyItems, List.map_map]
    refine List.map_congr_left fun k _ => ?_
    exact if_congr (decide_eq_true_iff (p := k.2.name ∈ set)) rfl rfl
  -- a set with all keys groups by all of them
  have hfull : ∀ set, (∀ k ∈ p :: pairs, k.2.name ∈ set) →
      (presentKeys (keyItems (p :: pairs) : List (SelectItem V)) set).map Prod.fst =
        (p :: pairs).map fun k => k.2.expr := by
    intro set hset
    rw [presentKeys, keysOf_keyItems, List.filter_eq_self.mpr, List.map_map]
    · rfl
    · intro e he
      obtain ⟨k, hk, rfl⟩ := List.mem_map.mp he
      exact decide_eq_true (hset k hk)
  have hshown : ∀ (set : List String) (rows : List (Row V)), (∀ k ∈ p :: pairs, k.2.name ∈ set) →
      ((p :: pairs).map fun k => if k.2.name ∈ set then
        rows.head?.bind ((k.2.expr : Expr V).value S df.columns) else none) =
          (p :: pairs).map fun k => rows.head?.bind (k.2.expr.value S df.columns) := by
    intro set rows hset
    exact List.map_congr_left fun k hk => if_pos (hset k hk)
  constructor
  · intro h
    obtain ⟨o, ho, hk⟩ := List.mem_map.mp h
    obtain ⟨set, hset, ho⟩ := List.mem_flatMap.mp ho
    obtain ⟨rows, hrows, rfl⟩ := List.mem_map.mp ho
    rw [hcells] at hk
    have hall : ∀ k ∈ p :: pairs, k.2.name ∈ set := by
      intro k hmem
      by_contra hno
      have hnull : none ∈ key := by
        rw [← hk]
        exact List.mem_map.mpr ⟨k, hmem, if_neg hno⟩
      have := List.all_eq_true.mp hkey _ hnull
      cases this
    rw [hshown set rows hall] at hk
    rw [hfull set hall] at hrows
    obtain ⟨hsome, -⟩ := (exists_group (P := fun _ => True) (List.cons_ne_nil p pairs)).mp
      ⟨rows, hrows, trivial, hk⟩
    exact ⟨hsome, _, hsets, set, hset, hall⟩
  · rintro ⟨hsome, x, hx, set, hset, hall⟩
    cases hx.symm.trans hsets
    obtain ⟨rows, hrows, -, hk⟩ := (exists_group (P := fun _ => True)
      (List.cons_ne_nil p pairs)).mpr ⟨hsome, trivial⟩
    refine List.mem_map.mpr ⟨.group (some set) rows, List.mem_flatMap.mpr ⟨set, hset,
      List.mem_map.mpr ⟨rows, ?_, rfl⟩⟩, ?_⟩
    · rw [hfull set hall]
      exact hrows
    · rw [hcells, hshown set rows hall]
      exact hk

/-- **The keys of grouping sets** with the list of the inner keys: only a set with all of them shows
none as NULL. -/
theorem extended_found {gc : GroupClause} {items : List (ExtItem V)}
    (hp : buildExtension num plan gc ((p :: pairs).map fun k => .item (keyItem k) rfl) none = .ok top)
    (hdf : exec S D plan = .ok df) (hg : exec S D top = .ok g)
    (hns : subqueryOutputCols top = .ok ns)
    (hc : (Body.extended gc items).Clear df.columns p pairs) :
    ns = ((p :: pairs).map fun k => k.2.name) ∧ ∀ key : Key V, key.nonNull = true →
      (key ∈ g.rows.map (keyOf ns) ↔ (Body.extended gc items).Finds S num p pairs (partOf S (p :: pairs) df key)) := by
  have hlist : ((p :: pairs).map fun k => (ExtItem.item (keyItem k) rfl : ExtItem V)).map
      ExtItem.lower = keyItems (p :: pairs) := by
    rw [List.map_map]
    rfl
  obtain ⟨hnd, hcl⟩ := hc
  unfold buildExtension at hp
  simp only [Option.isSome_none, Bool.false_eq_true, if_false] at hp
  obtain ⟨⟨dims, sets⟩, hsets, hp⟩ := bind_eq_ok.mp hp
  simp only [hlist] at hp
  split at hp
  · cases hp
  · split at hp
    · cases hp
    · cases sets with
      | nil => cases hp
      | cons set sets =>
        cases hp
        have hlists := lists_grouping (names_keyItems (V := V) (p :: pairs) ▸ hnd)
          (fun set' hset => by
            rw [aggsOf_keyItems]
            exact hcl _ hsets set' hset) hdf hg
        rw [names_keyItems] at hlists
        rw [outputCols_unions] at hns
        have hout : ns = (p :: pairs).map fun k => k.2.name := by
          cases hns
          rw [map_snd_branchItem, names_keyItems]
        refine ⟨hout, fun key hkey => ?_⟩
        rw [hout, hlists.rows]
        exact sets_found hsets hkey

/-- **The right side** has a key without NULL where the rows that have it are found. -/
theorem body_found {body : Body V} (hp : buildBody num plan p pairs body = .ok top)
    (hdf : exec S D plan = .ok df) (hg : exec S D top = .ok g)
    (hns : subqueryOutputCols top = .ok ns) (hc : body.Clear df.columns p pairs) :
    ((p :: pairs).map Prod.fst).length = ns.length ∧ ∀ key : Key V, key.nonNull = true →
      (key ∈ g.rows.map (keyOf ns) ↔
        body.Finds S num p pairs (partOf S (p :: pairs) df key)) := by
  -- a list without GROUP BY is a projection
  have hproject : ∀ {top : PlanNode V} {ns : List String}, top = .project plan (dedupOutputNames
      (keysOf (keyItems (p :: pairs)))) → exec S D top = .ok g → subqueryOutputCols top = .ok ns →
      (dedupNames ∅ ((p :: pairs).map fun k => k.2.name)).Nodup →
        ((p :: pairs).map Prod.fst).length = ns.length ∧ ∀ key : Key V,
          (key ∈ g.rows.map (keyOf ns) ↔ (partOf S (p :: pairs) df key).rows ≠ []) := by
    rintro top ns rfl hg hns hn
    obtain ⟨df', hdf', hg⟩ := bind_eq_ok.mp hg
    cases hdf'.symm.trans hdf
    have hout : ns = dedupNames ∅ ((p :: pairs).map fun k => k.2.name) := by
      cases hns
      rw [map_snd_dedupOutputNames, keysOf_keyItems, List.map_map]
      rfl
    refine ⟨?_, fun key => ?_⟩
    · rw [hout, length_dedupNames, List.length_map, List.length_map]
    · rw [hout, partOf_ne_nil]
      exact project_found hn hg
  cases body with
  | plain items h =>
    cases hp
    obtain ⟨hlen, hfound⟩ := hproject rfl hg hns hc
    exact ⟨hlen, fun key _ => hfound key⟩
  | total items h =>
    cases hp
    obtain ⟨hlen, hfound⟩ := hproject rfl hg hns hc
    exact ⟨hlen, fun key _ => hfound key⟩
  | grouped s =>
    obtain ⟨hout, hfound⟩ := grouped_found hp hdf hg hns hc.1 hc.2
    exact ⟨by rw [hout, List.length_map, List.length_map], fun key _ => hfound key⟩
  | extended gc items =>
    obtain ⟨hout, hfound⟩ := extended_found hp hdf hg hns hc
    exact ⟨by rw [hout, List.length_map, List.length_map], hfound⟩

/-- A body without grouping sets has no more rows than its input. -/
theorem body_length {body : Body V} (hp : buildBody num plan p pairs body = .ok top)
    (hdf : exec S D plan = .ok df) (hg : exec S D top = .ok g) (hc : body.Clear df.columns p pairs)
    (hsets : body.hasSets = false) : g.rows.length ≤ df.rows.length := by
  have hproject : exec S D (.project plan (dedupOutputNames (keysOf (keyItems (p :: pairs))))) =
      .ok g → g.rows.length ≤ df.rows.length := by
    intro hg
    obtain ⟨df', hdf', hg⟩ := bind_eq_ok.mp hg
    cases hdf'.symm.trans hdf
    obtain ⟨-, rfl⟩ := projectFrame_ok.mp hg
    rw [Frame.ofRows_rows, List.length_map, List.length_map]
  cases body with
  | plain _ _ =>
    cases hp
    exact hproject hg
  | total _ _ =>
    cases hp
    exact hproject hg
  | grouped s =>
    have hlen := congrArg List.length (grouped_list hp hdf hg hc.1 hc.2)
    rw [GroupSelect.wantedRows, List.length_map, List.length_map] at hlen
    rw [hlen]
    refine (List.length_filter_le _ _).trans ?_
    rw [keys_byKeys, partitionBy, List.map_cons, List.map_cons, List.isEmpty_cons,
      if_neg Bool.false_ne_true, List.length_map]
    exact (List.dedup_sublist _).length_le.trans_eq (List.length_map _)
  | extended _ _ => cases hsets

end Right

/-! ## 9. EXISTS -/

section Main

variable [DecidableEq V] {S : Scalars V} {B : Booleans S} {num : Nat → V} {D : Database V}
  {env : Env V} {underFrom negated : Bool} {outer : List String} {plan node : PlanNode V}
  {q : Subquery V} {left f df : Frame V} {p : String × ColRef} {pairs : List (String × ColRef)}
  {locals : List (OnExpr V)}

theorem Body.Finds.rows_ne {body : Body V} (h : body.Finds S num p pairs df) : df.rows ≠ [] := by
  cases body with
  | plain _ _ => exact h
  | total _ _ => exact h
  | grouped _ => exact h.1
  | extended _ _ => exact h.1

/-- The first branch of a UNION ALL that returns returned. -/
theorem exec_first : ∀ {bs : List (PlanNode V)} {acc : PlanNode V} {g : Frame V},
    exec S D (bs.foldl (fun acc b => .setOp acc b .union false) acc) = .ok g →
      ∃ b, exec S D acc = .ok b
  | [], _, g, h => ⟨g, h⟩
  | b :: bs, acc, g, h => by
    have hrest : exec S D (bs.foldl (fun acc b => .setOp acc b .union false)
        (.setOp acc b .union false)) = .ok g := h
    obtain ⟨u, hu⟩ := exec_first hrest
    obtain ⟨a, ha, -⟩ := bind_eq_ok.mp hu
    exact ⟨a, ha⟩

/-- The body is computed from its input. -/
theorem exec_input {top : PlanNode V} {g : Frame V} {body : Body V}
    (hp : buildBody num plan p pairs body = .ok top) (hg : exec S D top = .ok g) :
    ∃ df, exec S D plan = .ok df := by
  cases body with
  | plain _ _ =>
    cases hp
    obtain ⟨df, hdf, -⟩ := bind_eq_ok.mp hg
    exact ⟨df, hdf⟩
  | total _ _ =>
    cases hp
    obtain ⟨df, hdf, -⟩ := bind_eq_ok.mp hg
    exact ⟨df, hdf⟩
  | grouped s =>
    obtain ⟨-, hplan⟩ := build_ok hp
    cases hs : (byKeys s p pairs).having with
    | none =>
      rw [hs] at hplan
      subst hplan
      obtain ⟨df, hdf, -⟩ := bind_eq_ok.mp hg
      exact ⟨df, hdf⟩
    | some h =>
      rw [hs] at hplan
      dsimp only at hplan
      split at hplan
      · subst hplan
        obtain ⟨a, ha, -⟩ := bind_eq_ok.mp hg
        obtain ⟨df, hdf, -⟩ := bind_eq_ok.mp ha
        exact ⟨df, hdf⟩
      · subst hplan
        obtain ⟨k, hk, -⟩ := bind_eq_ok.mp hg
        obtain ⟨a, ha, -⟩ := bind_eq_ok.mp hk
        obtain ⟨df, hdf, -⟩ := bind_eq_ok.mp ha
        exact ⟨df, hdf⟩
  | extended gc items =>
    have hp' : buildExtension num plan gc ((p :: pairs).map fun k => .item (keyItem k) rfl) none =
        .ok top := hp
    unfold buildExtension at hp'
    simp only [Option.isSome_none, Bool.false_eq_true, if_false] at hp'
    obtain ⟨⟨dims, sets⟩, -, hp'⟩ := bind_eq_ok.mp hp'
    dsimp only at hp'
    split at hp'
    · cases hp'
    · split at hp'
      · cases hp'
      · cases sets with
        | nil => cases hp'
        | cons set sets =>
          cases hp'
          obtain ⟨b, hb⟩ := exec_first hg
          obtain ⟨a, ha, -⟩ := bind_eq_ok.mp hb
          obtain ⟨df, hdf, -⟩ := bind_eq_ok.mp ha
          exact ⟨df, hdf⟩

/-- A partition has parts where there are rows, or nothing to part them by. -/
theorem partitionBy_ne_nil {es : List (Expr V)} :
    partitionBy S df es ≠ [] ↔ es = [] ∨ df.rows ≠ [] := by
  cases es with
  | nil => simp [partitionBy]
  | cons e es => simp [partitionBy, List.map_eq_nil_iff, List.dedup_eq_nil]

/-- **What settles a body**: it returns a row over some rows exactly where the right side finds
them. -/
theorem settled_iff {body : Body V} : body.Settled S num p pairs df ↔
    (body.rows num S df ≠ [] ↔ body.Finds S num p pairs df) := by
  cases body with
  | plain items h =>
    refine iff_of_true trivial ?_
    rw [Body.rows, ne_eq, List.map_eq_nil_iff]
    rfl
  | total items h =>
    rw [Body.rows]
    exact ⟨fun h => iff_of_true (List.cons_ne_nil _ _) h, fun h => h.mp (List.cons_ne_nil _ _)⟩
  | grouped s =>
    refine iff_congr ?_ Iff.rfl
    rw [Body.rows]
    cases hes : s.groupExprs df.columns with
    | none => simp
    | some es =>
      simp only [Option.some.injEq, exists_eq_left', GroupSelect.wantedRows, ne_eq,
        List.map_eq_nil_iff, List.filter_eq_nil_iff, not_forall, not_not, exists_prop]
  | extended gc items =>
    have hset : ∀ set, setRows S num df items set ≠ [] ↔ set = [] ∨ df.rows ≠ [] := fun set => by
      rw [setRows, ne_eq, List.map_eq_nil_iff, ← ne_eq, partitionBy_ne_nil, List.map_eq_nil_iff]
    have hsome : gc.wantedRows S num df items ≠ [] ↔ ∃ set ∈ gc.sets, set = [] ∨ df.rows ≠ [] := by
      rw [GroupClause.wantedRows, Ne, List.flatMap_eq_nil_iff]
      simp only [not_forall, exists_prop]
      exact exists_congr fun set => and_congr_right fun _ => hset set
    exact iff_congr hsome.symm Iff.rfl

/-- The equalities of an outer row hold of the rows that have its key. -/
theorem all_sameCell {cols : List String} {l w : Row V} : ∀ {ks : List (String × ColRef)},
    ks.all (fun k => sameCell (l k.1) (k.2.expr.value S cols w)) =
      ((keyOf (ks.map Prod.fst) l).nonNull &&
        decide (keyCells S cols ks w = keyOf (ks.map Prod.fst) l))
  | [] => rfl
  | k :: ks => by
    rw [List.all_cons, all_sameCell, sameCell, Key.nonNull, Key.nonNull, keyCells, keyCells,
      List.map_cons, List.map_cons, keyOf, keyOf, List.map_cons, List.all_cons, Bool.eq_iff_iff]
    simp only [Bool.and_eq_true, decide_eq_true_eq, List.cons.injEq]
    constructor
    · rintro ⟨⟨h1, h2⟩, h3, h4⟩
      exact ⟨⟨h1, h3⟩, h2.symm, h4⟩
    · rintro ⟨⟨h1, h3⟩, h2, h4⟩
      exact ⟨⟨h1, h2.symm⟩, h3, h4⟩

/-- The rows that pass the local conjuncts. -/
theorem exec_localWhere {source : PlanNode V} {g : Frame V} (hdf : exec S D source = .ok df)
    (hg : exec S D (localWhere B source locals) = .ok g) :
    g = df.filter fun w => locals.all fun c => S.holds ((c.lower B).value S df.columns w) := by
  unfold localWhere at hg
  cases locals with
  | nil =>
    cases hg.symm.trans hdf
    exact (Frame.filter_true fun _ => rfl).symm
  | cons c cs =>
    obtain ⟨df', hdf', hg⟩ := bind_eq_ok.mp hg
    cases hdf'.symm.trans hdf
    obtain ⟨-, rfl⟩ := filterFrame_ok.mp hg
    refine congrArg _ (funext fun w => ?_)
    rw [holds_conjoin]
    exact List.all_map (l := c :: cs)

/-- DISTINCT and LIMIT leave a row where there is one. -/
theorem cut_eq_nil (hq : ∀ x ∈ q.limit, x.2 = 0 ∧ 0 < x.1) {rows : List (List (Cell V))} :
    q.cut rows = [] ↔ rows = [] := by
  have hdistinct : (if q.distinct then rows.dedup else rows) = [] ↔ rows = [] := by
    cases q.distinct with
    | true => exact List.dedup_eq_nil rows
    | false => exact Iff.rfl
  rw [Subquery.cut]
  cases hl : q.limit with
  | none => exact hdistinct
  | some x =>
    obtain ⟨hzero, hpos⟩ := hq x hl
    dsimp only
    rw [hzero, List.drop_zero, List.take_eq_nil_iff, hdistinct]
    exact or_iff_right (Nat.ne_of_gt hpos)

/-- Without QUALIFY the rows are those of the body. -/
theorem bodyRows_none : q.bodyRows num S none df = q.body.rows num S df := by
  unfold Subquery.bodyRows
  cases q.body <;> rfl

/-- An accepted subquery is joined by its equalities. -/
theorem existsConjunct_ok
    (h : existsConjunct B num env underFrom outer plan negated q = .ok (some node)) :
    ∃ p pairs locals subplan ns, classifyCorrelation underFrom outer q =
        .ok (some (p :: pairs, locals)) ∧ buildInner B num env q p pairs locals = .ok subplan ∧
      subqueryOutputCols subplan = .ok ns ∧ node = .join plan subplan
        ⟨(p :: pairs).map Prod.fst, ns, if negated then .anti else .semi, none, false⟩ := by
  obtain ⟨corr, hcorr, h⟩ := bind_eq_ok.mp h
  split at h
  · rename_i p pairs locals
    obtain ⟨subplan, hsub, h⟩ := bind_eq_ok.mp h
    obtain ⟨ns, hns, h⟩ := bind_eq_ok.mp h
    cases h
    exact ⟨p, pairs, locals, subplan, ns, hcorr, hsub, hns, rfl⟩
  · cases h

omit [DecidableEq V] in
/-- The conjuncts behind a classified correlation. -/
theorem classify_ok (h : classifyCorrelation underFrom outer q = .ok (some (p :: pairs, locals))) :
    splitConjuncts outer (localAliases underFrom q) (flattenAnd q.cond) =
      .ok (p :: pairs, locals) := by
  obtain ⟨⟨pairs', locals'⟩, hsplit, h⟩ := bind_eq_ok.mp h
  dsimp only at h
  split at h
  · cases h
  · split at h
    · cases h
    · cases h
      exact hsplit

/-- **The rows of the subquery for an outer row**, for a clear subquery: it returns a row where its body does
over the rows of FROM that have the key of the outer row and pass the local conjuncts. -/
theorem rowsFor_eq_nil {source : PlanNode V} {l : Row V}
    (hc : q.Clear underFrom outer left.columns df p pairs)
    (hsource : buildFrom env q.base q.joins = .ok source) (hdf : exec S D source = .ok df) :
    q.rowsFor B num D env outer left.columns l = [] ↔
      q.body.rows num S (df.filter (q.whereTrue B outer left.columns df.columns l)) = [] := by
  have hjoins : q.joins.map (JoinNode.supply B (outerCell outer q left.columns l)) = q.joins :=
    joins_supply B fun j hj e he x hx => outerCell_none (hc.joins j hj e he x hx)
  have hfrom : q.fromFor B D env outer left.columns l = .ok df := by
    rw [Subquery.fromFor, hjoins]
    exact bind_eq_ok.mpr ⟨source, hsource, hdf⟩
  rw [Subquery.rowsFor, hfrom, hc.qualify, Option.map_none]
  dsimp only
  rw [bodyRows_none]
  exact cut_eq_nil fun x hx => ⟨(hc.roomy x hx).1, (hc.roomy x hx).2.1⟩

/-- **The right side has the key of an outer row** where the rows of FROM for that row are found. -/
theorem found_iff {source subplan : PlanNode V} {right : Frame V} {ns : List String} {l : Row V}
    (hsplit : splitConjuncts outer (localAliases underFrom q) (flattenAnd q.cond) =
      .ok (p :: pairs, locals))
    (hc : q.Clear underFrom outer left.columns df p pairs)
    (hsource : buildFrom env q.base q.joins = .ok source) (hdf : exec S D source = .ok df)
    (hsub : buildInner B num env q p pairs locals = .ok subplan)
    (hns : subqueryOutputCols subplan = .ok ns) (hright : exec S D subplan = .ok right) :
    ((p :: pairs).map Prod.fst).length = ns.length ∧
      ((keyOf ((p :: pairs).map Prod.fst) l).nonNull = true ∧
        keyOf ((p :: pairs).map Prod.fst) l ∈ right.rows.map (keyOf ns) ↔
          q.body.Finds S num p pairs
            (df.filter (q.whereTrue B outer left.columns df.columns l))) := by
  obtain ⟨source', hsource', hsub⟩ := bind_eq_ok.mp hsub
  cases hsource'.symm.trans hsource
  obtain ⟨below, hbelow, hsub⟩ := bind_eq_ok.mp hsub
  rw [hc.qualify] at hbelow
  cases hbelow
  obtain ⟨top, htop, hsub⟩ := bind_eq_ok.mp hsub
  cases hsub
  obtain ⟨hns, g, hg, hperm⟩ := exec_tail_perm hns hright
  obtain ⟨h, hh⟩ := exec_input htop hg
  have hlocal := exec_localWhere hdf hh
  subst hlocal
  have hperm : right.rows.Perm g.rows := hperm fun x hx => by
    obtain ⟨hzero, -, hroom, hsets⟩ := hc.roomy x hx
    refine ⟨hzero, (body_length htop hh hg hc.body hsets).trans ?_⟩
    exact (List.length_filter_le _ _).trans hroom
  obtain ⟨hlen, hfound⟩ := body_found htop hh hg hns hc.body
  refine ⟨hlen, ?_⟩
  have hwhere : ∀ w, q.whereTrue B outer left.columns df.columns l w =
      ((locals.all fun c => S.holds ((c.lower B).value S df.columns w)) &&
        ((keyOf ((p :: pairs).map Prod.fst) l).nonNull && decide (keyCells S df.columns (p :: pairs) w =
          keyOf ((p :: pairs).map Prod.fst) l))) := by
    intro w
    rw [whereTrue_eq B hc.scope hc.named hsplit, all_sameCell, Bool.and_comm]
  cases hnn : (keyOf ((p :: pairs).map Prod.fst) l).nonNull with
  | false =>
    refine iff_of_false (fun h => Bool.false_ne_true h.1) fun h => h.rows_ne ?_
    rw [Frame.filter_rows, List.filter_eq_nil_iff]
    intro w _
    rw [hwhere, hnn, Bool.false_and, Bool.and_false]
    exact Bool.false_ne_true
  | true =>
    have hpart : df.filter (q.whereTrue B outer left.columns df.columns l) =
        partOf S (p :: pairs)
          (df.filter fun w => locals.all fun c => S.holds ((c.lower B).value S df.columns w))
          (keyOf ((p :: pairs).map Prod.fst) l) := by
      rw [partOf, Frame.filter_filter]
      refine congrArg _ (funext fun w => ?_)
      rw [hwhere, hnn, Bool.true_and]
      rfl
    rw [hpart, and_iff_right rfl, ← hfound _ hnn, (hperm.map _).mem_iff]

omit [DecidableEq V] in
/-- Two filters keep the same rows where they agree. -/
theorem filter_eq_iff {t t' : Row V → Bool} :
    left.filter t = left.filter t' ↔ ∀ l ∈ left.rows, t l = t' l := by
  constructor
  · intro h l hl
    have hrows : left.rows.filter t = left.rows.filter t' := congrArg Frame.rows h
    have hmem : l ∈ left.rows.filter t ↔ l ∈ left.rows.filter t' := by rw [hrows]
    rw [List.mem_filter, List.mem_filter, and_iff_right hl, and_iff_right hl] at hmem
    exact Bool.eq_iff_iff.mpr hmem
  · exact fun h => Frame.ext rfl (List.filter_congr h)

omit [DecidableEq V] in
/-- A row is kept as it should be where it has a match exactly when there are rows. -/
theorem hit_iff {α : Type} {A : Prop} [Decidable A] {rows : List α} :
    (!decide A == negated) = (rows.isEmpty == negated) ↔ (¬ rows = [] ↔ A) := by
  by_cases h : A <;> cases rows <;> cases negated <;> simp [h]

end Main

/-- A comparison gives one or zero. -/
def natBooleans : Booleans natScalars := ⟨1, 0, rfl, rfl⟩

/-- `SELECT .. FROM name AS i WHERE i.key = a.k` with a LIMIT. -/
def subqueryOf (name key : String) (body : Body Nat) (limit : Option (Nat × Nat)) : Subquery Nat :=
  ⟨.table name "i", [], .eq ⟨"i", key⟩ ⟨"a", "k"⟩, body, none, false, [], limit⟩

/-- `SELECT 1`. -/
def selectOne : Body Nat := .plain [⟨.other (.lit (some 1)) "1", none⟩] (by decide)

/-- `SELECT COUNT(*)`. -/
def selectCount : Body Nat := .total [itemCount] (by decide)

/-- The plan of `SELECT * FROM a WHERE EXISTS (..)`; the FROM clause is under `from_`. -/
def whereExists (q : Subquery Nat) : Except DbError (Option (PlanNode Nat)) :=
  existsConjunct natBooleans id ⟨none, ∅⟩ false ["a"] (.scan "a" none (some "a")) false q

theorem selectCount_clear :
    (subqueryOf "a" "k" selectCount none).Clear false ["a"] ["k"] rowsA ("k", ⟨"i", "k"⟩) [] := by
  have hnames : (dedupNames ∅ ["k"]).Nodup := by decide
  refine ⟨rfl, nofun, .inr (by decide), nofun, fun x hx hout => ?_, hnames⟩
  rcases List.mem_cons.mp hx with rfl | hx
  · exact absurd hout (by decide)
  · rw [List.mem_singleton.mp hx]
    rfl

/-- The join keeps one of the two outer rows, and the subquery returns a row for both. -/
def OneKept (q : Subquery Nat) : Prop :=
  ∃ node f, whereExists q = .ok (some node) ∧
    execute natScalars unevenTables plainDevice ∅ node = .ok f ∧ f.rows.length = 1 ∧
    (rowsA.rows.map fun l => (q.rowsFor natBooleans id unevenTables ⟨none, ∅⟩ ["a"] ["k"] l).length) =
      [1, 1] ∧
    ¬ q.Kept natBooleans id unevenTables ⟨none, ∅⟩ ["a"] false rowsA f

theorem oneKept_of_shown {q : Subquery Nat} (h : ∃ node, whereExists q = .ok (some node) ∧
      shown (execute natScalars unevenTables plainDevice ∅ node) = some (["k"], [[some 1]]))
    (hrows : (rowsA.rows.map fun l =>
      (q.rowsFor natBooleans id unevenTables ⟨none, ∅⟩ ["a"] ["k"] l).length) = [1, 1]) :
    OneKept q := by
  obtain ⟨node, hnode, hshow⟩ := h
  obtain ⟨f, hf, -, hcells⟩ := returned_of_shown hshow
  have hlen : f.rows.length = 1 := by simpa using congrArg List.length hcells
  refine ⟨node, f, hnode, hf, hlen, hrows, fun h => ?_⟩
  -- no row of the outer table is without rows of the subquery
  have hall : ∀ l ∈ rowsA.rows, (q.rowsFor natBooleans id unevenTables ⟨none, ∅⟩ ["a"]
      rowsA.columns l).isEmpty == false := by
    intro l hl
    have hmem : (q.rowsFor natBooleans id unevenTables ⟨none, ∅⟩ ["a"] ["k"] l).length ∈ [1, 1] :=
      hrows ▸ List.mem_map.mpr ⟨l, hl, rfl⟩
    have hcount : (q.rowsFor natBooleans id unevenTables ⟨none, ∅⟩ ["a"] ["k"] l).length = 1 := by
      simpa using hmem
    obtain ⟨x, hx⟩ := List.length_eq_one_iff.mp hcount
    change (q.rowsFor natBooleans id unevenTables ⟨none, ∅⟩ ["a"] ["k"] l).isEmpty == false
    rw [hx]
    rfl
  have htwo : f.rows.length = 2 := by
    rw [show f = rowsA.filter _ from h, Frame.filter_rows, List.filter_eq_self.mpr hall]
    rfl
  rw [hlen] at htwo
  exact absurd htwo (by decide)

/-- `QUALIFY ROW_NUMBER() OVER () = 1`. -/
def qualifyFirst : Qualify Nat where
  windows := [("ROW_NUMBER() OVER ()", rowNumber)]
  pred names := equality natBooleans (.col (names.headD "") none) (.lit (some 1))

/-- The references `_classify_correlation` looks at. -/
def Subquery.examined (q : Subquery V) : List (String × Option String) :=
  q.cond.refs ++ nonWhereSubqueryParts q

/-- The columns of the extensions of GROUP BY, which are not among `group.expressions`. -/
def Body.extensionRefs : Body V → List (String × Option String)
  | .extended g _ =>
    colRefs ((g.rollup.flatten ++ g.cube.flatten ++ g.groupingSets.flatten).flatMap GroupExpr.refs)
  | _ => []

/-- The references it does not look at: those of the ON conditions, of the extensions of GROUP BY and of
QUALIFY. -/
def Subquery.unexamined (q : Subquery V) : List (String × Option String) :=
  q.joins.flatMap (fun j => j.on.toList.flatMap OnExpr.refs) ++ q.body.extensionRefs ++
    q.qualify.toList.flatMap fun w => w.windows.flatMap (fun x => x.2.args.flatMap Expr.refs) ++
      (w.pred (qualifyFuncs [] 0 w.windows).2).refs

/-- **A reference to the outer row, by scope**: its qualifier is an alias of the outer query and none of
the subquery's own. -/
def OuterByScope (outer : List String) (q : Subquery V) (x : String × Option String) : Prop :=
  ∃ t, x.2 = some t ∧ t ≠ "" ∧ t ∈ outer ∧ t ∉ q.aliases

/-- No reference is lost by the aliases that are missing: where the alias of the FROM clause is an outer
alias and not that of a join, nothing that is looked at is qualified with it. -/
def Subquery.NotMistaken (outer : List String) (q : Subquery V) : Prop :=
  q.base.aliasName ∈ outer → q.base.aliasName ≠ "" →
    q.base.aliasName ∉ q.joins.map (fun j => j.ref.aliasName) →
      ∀ x ∈ q.examined, x.2 ≠ some q.base.aliasName

/-- What a set of aliases makes of a reference. -/
theorem colTableIsOuter_iff {outer loc : List String} {x : String × Option String} :
    colTableIsOuter outer loc x = true ↔ ∃ t, x.2 = some t ∧ t ≠ "" ∧ t ∈ outer ∧ t ∉ loc := by
  unfold colTableIsOuter
  cases x.2 with
  | none => simp
  | some t => simp [and_comm]

/-- Conjuncts whose references are classified alike are split alike. -/
theorem splitConjuncts_congr {outer loc loc' : List String} : ∀ {cs : List (OnExpr V)},
    (∀ c ∈ cs, ∀ x ∈ c.refs, colTableIsOuter outer loc x = colTableIsOuter outer loc' x) →
      splitConjuncts outer loc cs = splitConjuncts outer loc' cs
  | [], _ => rfl
  | c :: cs, h => by
    have hc := h c List.mem_cons_self
    have hrefs : referencesOuter outer loc c.refs = referencesOuter outer loc' c.refs := by
      rw [Bool.eq_iff_iff, referencesOuter, referencesOuter, List.any_eq_true, List.any_eq_true]
      exact exists_congr fun x => and_congr_right fun hx => by rw [hc x hx]
    have hpair : equiCorrelationPair outer loc c = equiCorrelationPair outer loc' c := by
      cases c with
      | eq l r =>
        rw [equiCorrelationPair, equiCorrelationPair, hc l.ref List.mem_cons_self,
          hc r.ref (List.mem_cons_of_mem _ List.mem_cons_self)]
      | _ => rfl
    rw [splitConjuncts, splitConjuncts, hrefs, hpair,
      splitConjuncts_congr fun c' hc' => h c' (List.mem_cons_of_mem _ hc')]

/-- Where no reference is mistaken, the join aliases alone tell the outer references. -/
theorem colTableIsOuter_scope {outer : List String} {q : Subquery V} (h : q.NotMistaken outer)
    {x : String × Option String} (hx : x ∈ q.examined) :
    colTableIsOuter outer (localAliases false q) x = colTableIsOuter outer q.aliases x := by
  rw [Bool.eq_iff_iff, colTableIsOuter_iff, colTableIsOuter_iff]
  refine exists_congr fun t => and_congr_right fun hxt => and_congr_right fun hne =>
    and_congr_right fun hmem => not_congr ⟨fun ht => List.mem_cons_of_mem _ ht, fun ht => ?_⟩
  rcases List.mem_cons.mp ht with rfl | ht
  · by_contra hno
    exact h hmem hne hno x hx hxt
  · exact ht

/-- `SELECT 1 FROM a JOIN b ON .. WHERE a.k = b.k2`. -/
def sameNameInside : Subquery Nat :=
  ⟨.table "a" "", [⟨.table "b" "", false, .none, .none, some (.eq ⟨"a", "k"⟩ ⟨"b", "k2"⟩), []⟩],
    .eq ⟨"a", "k"⟩ ⟨"b", "k2"⟩, selectOne, none, false, [], none⟩

end Parse

end RyuDB.Sql
