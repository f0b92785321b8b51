/-
# Scalar subqueries as joins

`_flatten_outer_subqueries` takes the scalar subqueries and the EXISTS of WHERE and of the select list,
one after the other, and joins a relation to the plan for each of them.  Its columns have reserved
names: `_sqN` for the value and, under a correlation, `_sqN_k` for the key.

* An uncorrelated subquery is one row, and joined by a cross join.
* `_decorrelate_scalar` takes a correlated one apart.  The aggregate is grouped by the inner column of
  the equality, the group of NULL is dropped, and the groups are joined to the outer rows by a left
  join.  COUNT, which is 0 over no rows and not NULL, is wrapped in a COALESCE.
* A correlated EXISTS is left for `_apply_where_subqueries`.

The outer column of the equality is joined by its bare name, without its qualifier; and the group key has
the name `_sqN_k` also where the inner rows have a column of that name, which the executor then groups by.
The numbers start again at 1 in every SELECT, so a subquery of the subquery makes such a column.

`scalar_decorrelated` says that every outer row comes out once, with the value the subquery has for it,
exactly where the aggregate over the rows of its group is that over the rows of its WHERE, and that this
is so for clear names (`Decorrelatable`).
-/
import RyuDB.Exists
import RyuDB.Membership

namespace RyuDB.Sql

variable {V : Type}

/-- `IsNull(expr, negated=True)`. -/
def notNull {S : Scalars V} (B : Booleans S) (e : Expr V) : Expr V :=
  .app ⟨1, fun a => some (if (a 0).isSome then B.yes else B.no), false, fun _ => false, ""⟩ fun _ => e

/-- `Coalesce([expr, 0])`. -/
def coalesceZero (S : Scalars V) (e : Expr V) : Expr V :=
  .app ⟨2, fun a => (a 0).or (a 1), true, fun _ => false, ""⟩ fun i =>
    if i = 0 then e else .lit (some S.zero)

/-- `col > 0`, of a count. -/
def positive {S : Scalars V} (B : Booleans S) (e : Expr V) : Expr V :=
  .app ⟨1, fun a => (a 0).map fun x => if S.le x S.zero then B.no else B.yes, false, fun _ => false,
    ""⟩ fun _ => e

namespace Parse

/-! ## 1. The subqueries of a SELECT -/

mutual

/-- A subquery of WHERE or of the select list.  One without outer columns is given by the plan
`_build_query` makes of it, a correlated one with the subqueries it has itself; its conditions have the
columns of those in their places. -/
inductive OuterNode (V : Type) where
  | exists (subplan : PlanNode V)
  | correlatedExists
  | scalar (subplan : PlanNode V)
  | correlated (q : Subquery V) (nested : OuterNodes V)

/-- The subqueries of a SELECT, in the order they are collected. -/
inductive OuterNodes (V : Type) where
  | nil
  | cons (node : OuterNode V) (nodes : OuterNodes V)

end

/-- `_sqN`. -/
def sqName (n : Nat) : String := "_sq" ++ toString n

/-- The name of the group key, `_sqN_k`. -/
def keyName (name : String) : String := name ++ "_k"

/-! ## 2. The lowering -/

/-- `_require_global_aggregate`: the input of the aggregate and its functions. -/
def requireGlobalAggregate : PlanNode V →
    Except DbError (PlanNode V × List (AggFunc V × String))
  | .sort p _ => requireGlobalAggregate p
  | .limit p _ _ => requireGlobalAggregate p
  | .aggregate input [] aggs => .ok (input, aggs)
  | _ => .error (.notImplemented
      ("scalar subquery must be a single-row aggregate (e.g. " ++
        "SELECT COUNT(*)/MAX(...) FROM ...); non-aggregate and GROUP BY " ++
        "scalar subqueries are not supported yet"))

/-- `_subquery_output_col`. -/
def subqueryOutputCol (p : PlanNode V) : Except DbError String := do
  match ← subqueryOutputCols p with
  | [c] => return c
  | _ => .error (.notImplemented "IN-subquery must project exactly one column")

/-- The projection or the aggregate of `_build_select`. -/
def Body.build (num : Nat → V) (plan : PlanNode V) : Body V → Except DbError (PlanNode V)
  | .plain items _ => .ok (.project plan (dedupOutputNames (keysOf items)))
  | .total items _ => .ok (.aggregate plan (keysOf items) (aggsOf items))
  | .grouped s => buildOutput num plan (s.lowered num)
  | .extended g items => buildExtension num plan g items none

/-- The grouped aggregate of `_decorrelate_scalar` under its new names, without the group of NULL. -/
def groupedAggregate {S : Scalars V} (B : Booleans S) (name : String) (input : PlanNode V)
    (inner : ColRef) (agg : AggFunc V × String) : PlanNode V :=
  .filter
    (.project (.aggregate input [(inner.expr, keyName name)] [agg])
      [(.col agg.2 none, name), (.col (keyName name) none, keyName name)])
    (notNull B (.col (keyName name) none))

/-- What stands for the subquery; COUNT over no rows is 0. -/
def replacement (S : Scalars V) (isCount : AggFunc V → Bool) (name : String) (agg : AggFunc V) :
    Expr V :=
  if isCount agg then coalesceZero S (.col name none) else .col name none

section Flatten

variable [DecidableEq V] {S : Scalars V} (B : Booleans S) (num : Nat → V) (env : Env V)
  (isCount : AggFunc V → Bool) (count : AggFunc V) (underFrom : Bool)

/-- `_build_query` of the inner SELECT of `_decorrelate_scalar`, from its rows. -/
def buildScalar (source : PlanNode V) (q : Subquery V) (locals : List (OnExpr V)) :
    Except DbError (PlanNode V) := do
  let plan ← buildQualify (localWhere B source locals) q.body.isGrouped q.qualify
  let top ← q.body.build num plan
  return q.tail top

/-- `_decorrelate_scalar`, from the rows of the inner FROM clause: the join and what stands for the
subquery. -/
def decorrelateScalar (plan source : PlanNode V) (q : Subquery V)
    (corr : List (String × ColRef) × List (OnExpr V)) (name : String) :
    Except DbError (PlanNode V × Expr V) :=
  match corr.1 with
  | [(outerKey, inner)] => do
    let subplan ← buildScalar B num source q corr.2
    let (input, aggs) ← requireGlobalAggregate subplan
    match aggs with
    | agg :: _ => return (.join plan (groupedAggregate B name input inner agg)
        ⟨[outerKey], [keyName name], .left, none, false⟩, replacement S isCount name agg.1)
    | [] => .error (.runtime "list index out of range")
  | _ => .error (.notImplemented
      ("correlated scalar subqueries with multiple equi-correlations " ++
        "(composite correlation keys) are not supported yet"))

omit [DecidableEq V] in
/-- An uncorrelated scalar subquery: the join of its one row under its new name. -/
def broadcast (plan subplan : PlanNode V) (name : String) : Except DbError (PlanNode V × Expr V) := do
  let _ ← requireGlobalAggregate subplan
  let existing ← subqueryOutputCol subplan
  return (.join plan (.project subplan [(.col existing none, name)])
    ⟨[], [], .cross, none, false⟩, .col name none)

mutual

/-- The loop of `_flatten_outer_subqueries`, from the number of the last name: the plan and what stands
for each subquery.  `count` is `COUNT(*)`. -/
def flattenOuterSubqueries (outer : List String) (n : Nat) (plan : PlanNode V) :
    OuterNodes V → Except DbError (PlanNode V × List (Expr V))
  | .nil => .ok (plan, [])
  | .cons node nodes => do
    let (plan, n, exprs) ← flattenNode outer n plan node
    let (plan, rest) ← flattenOuterSubqueries outer n plan nodes
    return (plan, exprs ++ rest)

/-- One turn of the loop. -/
def flattenNode (outer : List String) (n : Nat) (plan : PlanNode V) :
    OuterNode V → Except DbError (PlanNode V × Nat × List (Expr V))
  | .correlatedExists => .ok (plan, n, [])
  | .exists subplan =>
    let name := sqName (n + 1)
    .ok (.join plan (.aggregate (.limit subplan 1 0) [] [(count, name)])
      ⟨[], [], .cross, none, false⟩, n + 1, [positive B (.col name none)])
  | .scalar subplan => do
    let (plan, e) ← broadcast plan subplan (sqName (n + 1))
    return (plan, n + 1, [e])
  | .correlated q nested => do
    let corr ← classifyCorrelation underFrom outer q
    let source ← buildFrom env q.base q.joins
    let (source, _) ← flattenOuterSubqueries q.aliases 0 source nested
    let (plan, e) ← match corr with
      | some corr => decorrelateScalar B num isCount plan source q corr (sqName (n + 1))
      | none => do
        let subplan ← buildScalar B num source q (flattenAnd q.cond)
        broadcast plan subplan (sqName (n + 1))
    return (plan, n + 1, [e])

end

/-- The rows of the inner FROM clause with the columns of the subqueries of the subquery. -/
def innerSource (q : Subquery V) (nested : OuterNodes V) : Except DbError (PlanNode V) := do
  let source ← buildFrom env q.base q.joins
  let (source, _) ← flattenOuterSubqueries B num env isCount count underFrom q.aliases 0 source nested
  return source

end Flatten

/-! ## 3. What is wanted -/

section Wanted

variable [DecidableEq V] {S : Scalars V} (B : Booleans S) (num : Nat → V) (D : Database V)
  (env : Env V) (isCount : AggFunc V → Bool) (count : AggFunc V) (underFrom : Bool)
  (outer : List String)

/-- **What the subquery returns with the values of an outer row.** -/
def scalarRows (q : Subquery V) (nested : OuterNodes V) (L : List String) (l : Row V) :
    List (List (Cell V)) :=
  let supplied := { q with joins := q.joins.map (JoinNode.supply B (outerCell outer q L l)) }
  match innerSource B num env isCount count underFrom supplied nested >>= exec S D with
  | .ok df => q.cut (q.bodyRows num S (q.qualify.map (Qualify.supply (outerCell outer q L l)))
      (df.filter (q.whereTrue B outer L df.columns l)))
  | .error _ => []

/-- **The join is sound**: every outer row comes out once, and what stands for the subquery is the one
cell of the one row the subquery returns for it. -/
def Decorrelated (q : Subquery V) (nested : OuterNodes V) (left f : Frame V) (e : Expr V) : Prop :=
  (f.rows.map fun r => (restrict left.columns r, [[e.value S f.columns r]])).Perm
    (left.rows.map fun l =>
      (l, scalarRows B num D env isCount count underFrom outer q nested left.columns l))

/-- What an aggregate gives over no cells: 0 for COUNT, which is never NULL, and else NULL. -/
structure Empties (S : Scalars V) (isCount : AggFunc V → Bool) (a : AggFunc V) : Prop where
  counted : isCount a = true → ∀ cells, (a.reduce cells).isSome = true
  empty : a.reduce [] = if isCount a then some S.zero else none

/-- No reference of the expression reads a column of this name. -/
def Avoids (c : String) (e : Expr V) : Prop :=
  ∀ x ∈ e.refs, x.1 ≠ c ∧ ∀ t ∈ x.2, qualified t x.1 ≠ c

/-- The subqueries that are considered: one equality with an outer column in WHERE, one aggregate and
nothing else; the new name of the key is written nowhere. -/
structure OneAggregate (isCount : AggFunc V → Bool) (S : Scalars V) (outer : List String)
    (name : String) (inner : ColRef) (a : AggFunc V) (item : SelectItem V) (q : Subquery V) : Prop where
  body : ∃ h, q.body = .total [item] h
  qualify : q.qualify = none
  value : item.value = .agg a
  order : q.order = []
  limit : q.limit = none
  joins : ∀ j ∈ q.joins, ∀ e ∈ j.on, ∀ x ∈ e.refs, colTableIsOuter outer q.aliases x = false
  empties : Empties S isCount a
  named : item.name ≠ keyName name
  avoids : ∀ e ∈ inner.expr :: a.exprs, Avoids (keyName name) e

/-- The names are clear: the relations of the subquery are known to `_local_aliases`, the outer column
still has its bare name in the outer rows, and the inner rows have no column of the key's new name. -/
structure Decorrelatable (underFrom : Bool) (outer : List String) (name : String) (L cols : List String)
    (q : Subquery V) : Prop where
  scope : underFrom = true ∨ q.base.aliasName ∉ outer
  named : ∀ x ∈ q.cond.refs, colTableIsOuter outer q.aliases x = true → resolve L x.1 x.2 = some x.1
  fresh : keyName name ∉ cols

end Wanted

/-! ## 4. The groups -/

section Groups

variable [DecidableEq V] {S : Scalars V} {B : Booleans S} {D : Database V} {name : String}
  {inner : ColRef} {agg : AggFunc V × String}

omit [DecidableEq V] in
/-- What the groups are taken by: the inner column, or a column of the key's name. -/
def groupExpr (cols : List String) (name : String) (inner : ColRef) : Expr V :=
  if keyName name ∈ cols then .col (keyName name) none else inner.expr

/-- The rows whose key is a cell that is not NULL. -/
def partners (S : Scalars V) (g : Frame V) (name : String) (inner : ColRef) (x : Cell V) :
    List (Row V) :=
  g.rows.filter fun w => sameCell x ((groupExpr g.columns name inner).value S g.columns w)

omit [DecidableEq V] in
theorem keyName_ne (name : String) : name ≠ keyName name := by
  intro h
  have hlen := congrArg String.length h
  have hk : "_k".length = 2 := by decide
  rw [keyName, String.length_append] at hlen
  omega

omit [DecidableEq V] in
/-- A name that is not referenced changes no reference. -/
theorem sameRefs_of_avoids {cols : List String} {c : String} {e : Expr V} (h : Avoids c e) :
    sameRefs (addColumn cols c) cols e = true := by
  have hmem : ∀ n, n ≠ c → (n ∈ addColumn cols c ↔ n ∈ cols) := fun n hn => by
    rw [mem_addColumn, or_iff_left hn]
  rw [sameRefs, List.all_eq_true]
  rintro ⟨n, t⟩ hx
  obtain ⟨hbare, hqual⟩ := h _ hx
  rw [decide_eq_true_eq]
  cases t with
  | none => simp only [resolve, hmem n hbare]
  | some t => simp only [resolve, hmem n hbare, hmem _ (hqual t rfl)]

/-- The groups of the aggregate are taken by the inner column, or by a column of the key's name. -/
theorem aggregate_groupExpr (g : Frame V) :
    aggregateFrame S g [(inner.expr, keyName name)] [agg] =
      aggregateFrame S g [(groupExpr g.columns name inner, keyName name)] [agg] := by
  have hkeys : withKeys S g [(inner.expr, keyName name)] =
      withKeys S g [(groupExpr g.columns name inner, keyName name)] := by
    by_cases h : keyName name ∈ g.columns
    · simp only [withKeys, if_pos h]
    · rw [groupExpr, if_neg h]
  rw [aggregateFrame, aggregateFrame, hkeys]
  rfl

omit [DecidableEq V] in
theorem captureless_groupExpr {cols : List String}
    (havoid : ∀ e ∈ inner.expr :: agg.1.exprs, Avoids (keyName name) e) :
    Captureless cols [(groupExpr cols name inner, keyName name)] [agg] where
  named k hk hmem := by
    cases List.mem_singleton.mp hk
    have hmem : keyName name ∈ cols := hmem
    refine ⟨none, ?_, ?_⟩
    · rw [groupExpr, if_pos hmem]
    · rw [resolve, if_pos hmem]
  keyRefs k hk hmem := by
    cases List.mem_singleton.mp hk
    have hmem : keyName name ∉ cols := hmem
    change sameRefs (addColumn cols (keyName name)) cols (groupExpr cols name inner) = true
    rw [groupExpr, if_neg hmem]
    exact sameRefs_of_avoids (havoid _ List.mem_cons_self)
  aggRefs a ha e he := by
    cases List.mem_singleton.mp ha
    exact sameRefs_of_avoids (havoid e (List.mem_cons_of_mem _ he))

/-- **The right side of the join** has a row for every group whose key is not NULL, with the key and the
aggregate. -/
theorem grouped_rows {input : PlanNode V} {g right : Frame V} (hg : exec S D input = .ok g)
    (hright : exec S D (groupedAggregate B name input inner agg) = .ok right)
    (hname : agg.2 ≠ keyName name)
    (havoid : ∀ e ∈ inner.expr :: agg.1.exprs, Avoids (keyName name) e) :
    right.columns = [name, keyName name] ∧ ∃ row : List (Row V) → Row V,
      (∀ rows, row rows (keyName name) =
          rows.head?.bind ((groupExpr g.columns name inner).value S g.columns) ∧
        row rows name = aggCell S g.columns rows agg) ∧
      right.rows = ((partitionBy S g [groupExpr g.columns name inner]).filter fun rows =>
        (rows.head?.bind ((groupExpr g.columns name inner).value S g.columns)).isSome).map row := by
  obtain ⟨proj, hproj, hfilter⟩ := bind_eq_ok.mp hright
  obtain ⟨gf, hgf, hproj⟩ := bind_eq_ok.mp hproj
  obtain ⟨g', hg', hgf⟩ := bind_eq_ok.mp hgf
  cases hg'.symm.trans hg
  rw [aggregate_groupExpr] at hgf
  have hnodup : (aggNames [((groupExpr g.columns name inner : Expr V), keyName name)] [agg]).Nodup := by
    simp [aggNames, Ne.symm hname]
  obtain ⟨hcols, row, hrows, hcells⟩ := aggregate_list hnodup (captureless_groupExpr havoid) hgf
  have hcols : gf.columns = [keyName name, agg.2] := hcols (.inl (List.cons_ne_nil _ _))
  obtain ⟨-, rfl⟩ := filterFrame_ok.mp hfilter
  obtain ⟨-, rfl⟩ := projectFrame_ok.mp hproj
  set items : List (Expr V × String) :=
    [(.col agg.2 none, name), (.col (keyName name) none, keyName name)] with hitemsDef
  have hnames : (items.map Prod.snd).Nodup := by simp [items, keyName_ne name]
  have hitems : itemColumns items =
      [name, keyName name] := foldl_addColumn_nodup hnames
  -- the cells of a projected row
  have hvalue : ∀ rows, itemCell S gf.columns items (row rows) (keyName name) = row rows (keyName name) ∧
      itemCell S gf.columns items (row rows) name = row rows agg.2 := by
    intro rows
    constructor
    · have hi : ((.col (keyName name) none : Expr V), keyName name) ∈ items := by simp [items]
      refine (itemCell_of_mem hnames hi _).trans ?_
      rw [Expr.value, resolve, if_pos (by simp [hcols])]
      rfl
    · have hi : ((.col agg.2 none : Expr V), name) ∈ items := by simp [items]
      refine (itemCell_of_mem hnames hi _).trans ?_
      rw [Expr.value, resolve, if_pos (by simp [hcols])]
      rfl
  have hrow : ∀ rows, row rows (keyName name) =
        rows.head?.bind ((groupExpr g.columns name inner).value S g.columns) ∧
      row rows agg.2 = aggCell S g.columns rows agg := by
    intro rows
    have h := hcells rows
    simp only [aggNames, groupCells, keyOf, List.map_cons, List.map_nil, List.cons_append,
      List.nil_append, List.cons.injEq, and_true] at h
    exact h
  refine ⟨hitems, fun rows => restrict [name, keyName name] (itemCell S gf.columns items (row rows)),
    fun rows => ⟨?_, ?_⟩, ?_⟩
  · exact (restrict_mem (by simp)).trans ((hvalue rows).1.trans (hrow rows).1)
  · exact (restrict_mem (by simp)).trans ((hvalue rows).2.trans (hrow rows).2)
  · rw [Frame.filter_rows, Frame.ofRows_rows, Frame.ofRows_columns, hitems, hrows, List.map_map,
      List.map_map, List.filter_map]
    refine congrArg _ (List.filter_congr fun rows _ => ?_)
    change S.holds ((notNull B (.col (keyName name) none)).value S [name, keyName name]
      (restrict [name, keyName name] (itemCell S gf.columns items (row rows)))) = _
    rw [notNull, Expr.value, Expr.value, resolve, if_pos (by simp), Option.bind_some,
      restrict_mem (by simp), (hvalue rows).1, (hrow rows).1]
    change S.truth (if (rows.head?.bind ((groupExpr g.columns name inner).value S g.columns)).isSome
      then B.yes else B.no) = _
    cases (rows.head?.bind ((groupExpr g.columns name inner).value S g.columns)).isSome with
    | true => exact B.truth_yes
    | false => exact B.truth_no

/-- **The partner of a key** on the right side is the row of its group, if the group has rows. -/
theorem grouped_filter {g right : Frame V} {row : List (Row V) → Row V}
    (hrow : ∀ rows, row rows (keyName name) =
      rows.head?.bind ((groupExpr g.columns name inner).value S g.columns))
    (hrows : right.rows = ((partitionBy S g [groupExpr g.columns name inner]).filter fun rows =>
      (rows.head?.bind ((groupExpr g.columns name inner).value S g.columns)).isSome).map row)
    (x : Cell V) : right.rows.filter (fun r => decide (x = r (keyName name))) =
      if partners S g name inner x = [] then [] else [row (partners S g name inner x)] := by
  let e : Expr V := groupExpr g.columns name inner
  let key (w : Row V) : Key V := [e.value S g.columns w]
  let part (k : Key V) : List (Row V) := g.rows.filter fun w => key w = k
  let keys : List (Key V) := (g.rows.map key).dedup
  have hparts : partitionBy S g [groupExpr g.columns name inner] = keys.map part := rfl
  -- the first row of a group shows its key
  have hhead : ∀ k ∈ keys, ∃ c, k = [c] ∧ (part k).head?.bind (e.value S g.columns) = c := by
    intro k hk
    obtain ⟨r₀, hr₀, hkey⟩ := head_key (List.mem_dedup.mp hk)
    refine ⟨e.value S g.columns r₀, hkey.symm, ?_⟩
    change ((g.rows.filter fun w => key w = k).head?).bind _ = _
    rw [hr₀, Option.bind_some]
  have hkeys : ((keys.map part).filter fun rows =>
        (rows.head?.bind (e.value S g.columns)).isSome).filter
          (fun rows => decide (x = row rows (keyName name))) =
      (keys.filter fun k => decide (k = [x]) && x.isSome).map part := by
    rw [List.filter_filter, List.filter_map]
    refine congrArg _ (List.filter_congr fun k hk => ?_)
    obtain ⟨c, rfl, hc⟩ := hhead k hk
    rw [Function.comp_apply, hrow]
    change (decide (x = (part [c]).head?.bind (e.value S g.columns)) &&
      ((part [c]).head?.bind (e.value S g.columns)).isSome) = _
    rw [hc, Bool.eq_iff_iff]
    simp only [Bool.and_eq_true, decide_eq_true_eq, List.cons.injEq, and_true]
    constructor
    · rintro ⟨rfl, h⟩
      exact ⟨rfl, h⟩
    · rintro ⟨rfl, h⟩
      exact ⟨rfl, h⟩
  have hone : keys.filter (fun k => decide (k = [x])) = if [x] ∈ keys then [[x]] else [] := by
    rw [List.filter_eq, (List.nodup_dedup _).count]
    split <;> rfl
  rw [hrows, hparts, List.filter_map]
  change (((keys.map part).filter fun rows => (rows.head?.bind (e.value S g.columns)).isSome).filter
    fun rows => decide (x = row rows (keyName name))).map row = _
  rw [hkeys]
  cases x with
  | none =>
    have hnone : partners S g name inner none = [] := List.filter_eq_nil_iff.mpr fun _ _ => by
      simp [sameCell]
    rw [if_pos hnone]
    simp
  | some v =>
    have hpart : partners S g name inner (some v) = part [some v] := by
      refine List.filter_congr fun w _ => ?_
      simp [sameCell, key, e, eq_comm]
    have hmem : [some v] ∈ keys ↔ part [some v] ≠ [] := by
      rw [List.mem_dedup, List.mem_map, Ne, List.filter_eq_nil_iff]
      simp only [decide_eq_true_eq, not_forall, not_not, exists_prop]
    have htrue : (keys.filter fun k => decide (k = [some v]) && (some v).isSome) =
        keys.filter fun k => decide (k = [some v]) :=
      List.filter_congr fun k _ => Bool.and_true _
    rw [htrue, hone, hpart]
    by_cases h : part [some v] = []
    · rw [if_pos h, if_neg fun hin => hmem.mp hin h]
      rfl
    · rw [if_neg h, if_pos (hmem.mpr h)]
      rfl

end Groups

/-! ## 5. The join -/

section Join

variable [DecidableEq V] {S : Scalars V} {D : Database V}

omit [DecidableEq V] in
/-- The columns of a join with a side that has no alias: those of the left side, then those of the
right. -/
theorem joinLayout_apart {on : JoinOn V} {la : Option String} {L R : List String}
    (hfit : Fits on la none L R) (hu : on.usingKeys = false) (hs : on.how.isSemi = false)
    (hp : on.padded = false) : joinLayout on la none L R =
      (L.map fun c => (c, Source.left c)) ++ R.map fun d => (d, Source.right d) := by
  have hapart : collisions L R = [] := by
    rcases hfit.names with (h | h | h) | ⟨-, -, h⟩
    · exact h
    · rw [hu] at h
      cases h
    · rw [hs] at h
      cases h
    · cases h
  have hnames : joinNames on la none L R = (id, id) := joinNames_id _ _ (.inl hapart)
  rw [joinLayout_merge _ _ _ _ hp, hnames]
  refine layout_apart (fun c hc hd => ?_) fun k hk => ?_
  · have hmem : c ∈ collisions L R := mem_collisions.mpr ⟨hc, hd⟩
    rw [hapart] at hmem
    cases hmem
  · by_cases hc : on.how = .cross
    · rw [keyPairs, if_pos hc] at hk
      cases hk
    · obtain ⟨-, -, hl, hr⟩ := checkKeys_spec hc hfit.keys
      rw [keyPairs, if_neg hc] at hk
      exact ⟨hl _ (List.of_mem_zip hk).1, hr _ (List.of_mem_zip hk).2⟩

/-- **A left join on one key with the groups**: one row for each left row, with the columns of its group
next to its own. -/
theorem left_join_rows {plan sub : PlanNode V} {left right f : Frame V} {k c d : String}
    (hsub : sub.sideAlias = none) (hleft : exec S D plan = .ok left)
    (hright : exec S D sub = .ok right) (hcols : right.columns = [c, d])
    (hone : ∀ x, (right.rows.filter fun r => decide (x = r d)).length ≤ 1)
    (hf : exec S D (.join plan sub ⟨[k], [d], .left, none, false⟩) = .ok f) :
    f.columns = left.columns ++ [c, d] ∧ ∃ row : Row V → Row V → Row V,
      (∀ l r, (∀ n ∈ left.columns, row l r n = l n) ∧ row l r c = r c) ∧
      f.rows.Perm (left.rows.map fun l =>
        row l (((right.rows.filter fun r => decide (l k = r d)).head?).getD nullRow)) := by
  obtain ⟨left', hleft', hf⟩ := bind_eq_ok.mp hf
  cases hleft'.symm.trans hleft
  obtain ⟨right', hright', hf⟩ := bind_eq_ok.mp hf
  cases hright'.symm.trans hright
  rw [hsub] at hf
  obtain ⟨hfit, rfl⟩ := joinFrames_ok.mp hf
  set on : JoinOn V := ⟨[k], [d], .left, none, false⟩
  have hlay : joinLayout on plan.sideAlias none left.columns right.columns =
      (left.columns.map fun n => (n, Source.left n)) ++ [(c, .right c), (d, .right d)] := by
    rw [joinLayout_apart hfit.fits rfl rfl rfl, hcols]
    rfl
  have hnodup : (joinLayout on plan.sideAlias none left.columns right.columns).columns.Nodup :=
    hfit.fits.nodup (.inl rfl)
  have hsource : ∀ x ∈ (left.columns.map fun n => (n, Source.left n)) ++
      [(c, .right c), (d, .right d)],
      (joinLayout on plan.sideAlias none left.columns right.columns).source x.1 = some x.2 :=
    fun x hx => (source_eq_some_iff hnodup).mpr (hlay ▸ hx)
  have htest : ∀ l r, joinTest S on plan.sideAlias none left.columns right.columns l r =
      decide (l k = r d) := by
    intro l r
    rw [joinTest_merge rfl rfl]
    change (sameKeys [(k, d)] l r && true) = _
    rw [Bool.and_true, sameKeys, List.all_cons, List.all_nil, Bool.and_true]
  refine ⟨?_, (joinLayout on plan.sideAlias none left.columns right.columns).row,
    fun l r => ⟨fun n hn => ?_, ?_⟩, ?_⟩
  · have hsemi : ¬ on.how.isSemi = true := Bool.false_ne_true
    rw [joined_columns, if_neg hsemi, hlay, Layout.columns, List.map_append, List.map_map]
    exact congrArg (· ++ [c, d]) (List.map_id _)
  · exact Layout.row_source (hsource (n, .left n)
      (List.mem_append_left _ (List.mem_map.mpr ⟨n, hn, rfl⟩))) l r
  · exact Layout.row_source (hsource (c, .right c)
      (List.mem_append_right _ List.mem_cons_self)) l r
  · rw [joined_rows rfl]
    have hunique : ∀ l ∈ left.rows, (right.rows.filter
        ((Sql.joinSpec S on plan.sideAlias none left.columns right.columns).test l)).length ≤ 1 := by
      intro l _
      refine le_of_eq_of_le (congrArg _ (List.filter_congr fun r _ => htest l r)) (hone (l k))
    refine (JoinSpec.run_left_unique _ hunique).trans (.of_eq (List.map_congr_left fun l _ => ?_))
    have hfind : right.rows.find?
        ((Sql.joinSpec S on plan.sideAlias none left.columns right.columns).test l) =
          (right.rows.filter fun r => decide (l k = r d)).head? := by
      rw [List.head?_filter]
      exact congrArg (fun p => right.rows.find? p) (funext fun r => htest l r)
    rw [hfind]
    cases (right.rows.filter fun r => decide (l k = r d)).head? with
    | none => rfl
    | some r => rfl

end Join

/-! ## 6. The value -/

section Main

variable [DecidableEq V] {S : Scalars V} {B : Booleans S} {num : Nat → V} {D : Database V} {env : Env V}
  {isCount : AggFunc V → Bool} {count : AggFunc V} {underFrom : Bool} {outer : List String}
  {plan source node : PlanNode V} {left df f : Frame V} {q : Subquery V} {nested : OuterNodes V}
  {corr : List (String × ColRef) × List (OnExpr V)} {name outerKey : String} {inner : ColRef}
  {a : AggFunc V} {item : SelectItem V} {locals : List (OnExpr V)} {e : Expr V}

/-- The lowering of a subquery with one aggregate. -/
theorem decorrelateScalar_ok
    (hq : OneAggregate isCount S outer name inner a item q)
    (h : decorrelateScalar B num isCount plan source q ([(outerKey, inner)], locals) name =
      .ok (node, e)) : q.distinct = false ∧
      node = .join plan (groupedAggregate B name (localWhere B source locals) inner (a, item.name))
        ⟨[outerKey], [keyName name], .left, none, false⟩ ∧
      e = replacement S isCount name a := by
  obtain ⟨subplan, hsub, h⟩ := bind_eq_ok.mp h
  obtain ⟨⟨input, aggs⟩, hagg, h⟩ := bind_eq_ok.mp h
  obtain ⟨below, hbelow, hsub⟩ := bind_eq_ok.mp hsub
  rw [hq.qualify] at hbelow
  cases hbelow
  obtain ⟨top, htop, hsub⟩ := bind_eq_ok.mp hsub
  cases hsub
  obtain ⟨hbody, hb⟩ := hq.body
  have hkeys : keysOf [item] = [] := by simp [keysOf, hq.value]
  have haggs : aggsOf [item] = [(a, item.name)] := by simp [aggsOf, hq.value]
  rw [hb, Body.build, hkeys, haggs] at htop
  cases htop
  rw [Subquery.tail, hq.order, hq.limit] at hagg
  cases hd : q.distinct with
  | true =>
    rw [hd] at hagg
    cases hagg
  | false =>
    rw [hd] at hagg
    cases hagg
    cases h
    exact ⟨rfl, rfl, rfl⟩

/-- **The value of the subquery for an outer row** is the aggregate over the rows of its WHERE. -/
theorem scalarRows_eq
    (hq : OneAggregate isCount S outer name inner a item q) (hd : q.distinct = false)
    (hdf : (innerSource B num env isCount count underFrom q nested >>= exec S D) = .ok df)
    (L : List String) (l : Row V) :
    scalarRows B num D env isCount count underFrom outer q nested L l =
      [[aggCell S df.columns (df.filter (q.whereTrue B outer L df.columns l)).rows
        (a, item.name)]] := by
  have hjoins : q.joins.map (JoinNode.supply B (outerCell outer q L l)) = q.joins :=
    joins_supply B fun j hj e he x hx => outerCell_none (hq.joins j hj e he x hx)
  obtain ⟨hbody, hb⟩ := hq.body
  rw [scalarRows, hjoins, hq.qualify, Option.map_none]
  change (match innerSource B num env isCount count underFrom q nested >>= exec S D with
    | .ok df => q.cut (q.bodyRows num S none (df.filter (q.whereTrue B outer L df.columns l)))
    | .error _ => []) = _
  rw [hdf]
  dsimp only
  rw [bodyRows_none]
  simp only [Subquery.cut, hq.limit, hd, hb, Body.rows, Bool.false_eq_true, if_false,
    List.map_cons, List.map_nil, itemAt, hq.value]
  rfl

omit [DecidableEq V] in
/-- What stands for the subquery, on a row. -/
theorem replacement_value {cols : List String} (hname : name ∈ cols) (r : Row V) :
    (replacement S isCount name a).value S cols r =
      if isCount a then (r name).or (some S.zero) else r name := by
  have hcol : (.col name none : Expr V).value S cols r = r name := by
    rw [Expr.value, resolve, if_pos hname, Option.bind_some]
  cases h : isCount a with
  | true =>
    rw [replacement, if_pos h, if_pos rfl, ← hcol]
    rfl
  | false => rw [replacement, if_neg (Bool.eq_false_iff.mp h), if_neg Bool.false_ne_true, hcol]

/-- COALESCE and the missing partner give what the aggregate gives over no rows. -/
theorem empties_value (h : Empties S isCount a) {cols : List String} {rows : List (Row V)} {c : Cell V}
    (hc : c = if rows = [] then none else aggCell S cols rows (a, item.name)) :
    (if isCount a then c.or (some S.zero) else c) = aggCell S cols rows (a, item.name) := by
  cases rows with
  | nil =>
    have hnone : aggCells S cols a [] = [] := by
      rw [aggCells]
      cases a.distinct <;> rfl
    rw [if_pos rfl] at hc
    rw [hc, aggCell, hnone, h.empty]
    rfl
  | cons w rows =>
    rw [if_neg (List.cons_ne_nil _ _)] at hc
    cases hcount : isCount a with
    | false => rw [if_neg Bool.false_ne_true, hc]
    | true =>
      obtain ⟨x, hx⟩ := Option.isSome_iff_exists.mp
        (h.counted hcount (aggCells S cols a (w :: rows)))
      rw [if_pos rfl, hc, aggCell, hx]
      rfl

/-- **What the join computes**: every outer row once, with the aggregate over the rows of its group. -/
theorem decorrelated_rows
    (hq : OneAggregate isCount S outer name inner a item q)
    (h : decorrelateScalar B num isCount plan source q ([(outerKey, inner)], locals) name =
      .ok (node, e))
    (hleft : exec S D plan = .ok left) (hsource : exec S D source = .ok df)
    (hf : exec S D node = .ok f) :
    (f.rows.map fun r => (restrict left.columns r, e.value S f.columns r)).Perm
      (left.rows.map fun l => (l, aggCell S df.columns
        (partners S (df.filter fun w => locals.all fun c => S.holds ((c.lower B).value S df.columns w))
          name inner (l outerKey)) (a, item.name))) := by
  obtain ⟨-, rfl, rfl⟩ := decorrelateScalar_ok hq h
  obtain ⟨left', hleft', hjoin⟩ := bind_eq_ok.mp hf
  obtain ⟨right, hright, -⟩ := bind_eq_ok.mp hjoin
  obtain ⟨proj, hproj, -⟩ := bind_eq_ok.mp hright
  obtain ⟨gf, hgf, -⟩ := bind_eq_ok.mp hproj
  obtain ⟨g, hg, -⟩ := bind_eq_ok.mp hgf
  have hlocal := exec_localWhere hsource hg
  subst hlocal
  set g := df.filter fun w => locals.all fun c => S.holds ((c.lower B).value S df.columns w)
  obtain ⟨hcols, group, hgroup, hrows⟩ := grouped_rows hg hright hq.named hq.avoids
  have hpart := grouped_filter (fun rows => (hgroup rows).1) hrows
  have hone : ∀ x, (right.rows.filter fun r => decide (x = r (keyName name))).length ≤ 1 := by
    intro x
    rw [hpart]
    split
    · exact Nat.zero_le _
    · exact Nat.le_refl _
  obtain ⟨hfcols, row, hrow, hperm⟩ := left_join_rows rfl hleft hright hcols hone hf
  refine (hperm.map _).trans ?_
  rw [List.map_map]
  refine .of_eq (List.map_congr_left fun l hl => Prod.ext ?_ ?_)
  · -- the outer row
    refine (funext fun n => ?_).trans (Frame.restrict_self hl)
    by_cases hn : n ∈ left.columns
    · exact (restrict_mem hn).trans (((hrow l _).1 n hn).trans (restrict_mem hn).symm)
    · exact (restrict_notMem hn).trans (restrict_notMem hn).symm
  · -- the value
    have hname : name ∈ f.columns := by
      rw [hfcols]
      exact List.mem_append_right _ List.mem_cons_self
    refine (replacement_value hname _).trans (empties_value hq.empties ?_)
    refine (hrow l _).2.trans ?_
    rw [hpart]
    split
    · rfl
    · exact (hgroup _).2

/-- For clear names the rows of the group of an outer row are those on which WHERE is true. -/
theorem partners_eq
    (hsplit : splitConjuncts outer (localAliases underFrom q) (flattenAnd q.cond) =
      .ok ([(outerKey, inner)], locals))
    (hc : Decorrelatable underFrom outer name left.columns df.columns q) (l : Row V) :
    partners S (df.filter fun w => locals.all fun c => S.holds ((c.lower B).value S df.columns w))
      name inner (l outerKey) = (df.filter (q.whereTrue B outer left.columns df.columns l)).rows := by
  rw [partners, Frame.filter_rows, Frame.filter_rows, List.filter_filter, groupExpr, Frame.filter_columns,
    if_neg hc.fresh]
  refine List.filter_congr fun w _ => ?_
  rw [whereTrue_eq B hc.scope hc.named hsplit, List.all_cons, List.all_nil, Bool.and_true]

/-- One turn of the loop for a correlated subquery. -/
theorem flattenNode_ok {n m : Nat} {es : List (Expr V)}
    (hcorr : classifyCorrelation underFrom outer q = .ok (some corr))
    (h : flattenNode B num env isCount count underFrom outer n plan (.correlated q nested) =
      .ok (node, m, es)) :
    ∃ source e, innerSource B num env isCount count underFrom q nested = .ok source ∧
      decorrelateScalar B num isCount plan source q corr (sqName (n + 1)) = .ok (node, e) ∧
      es = [e] := by
  rw [flattenNode] at h
  obtain ⟨corr', hcorr', h⟩ := bind_eq_ok.mp h
  cases hcorr'.symm.trans hcorr
  obtain ⟨from', hfrom, h⟩ := bind_eq_ok.mp h
  obtain ⟨⟨source, exprs⟩, hsource, h⟩ := bind_eq_ok.mp h
  obtain ⟨⟨plan', e⟩, hplan, h⟩ := bind_eq_ok.mp h
  cases h
  exact ⟨source, e, bind_eq_ok.mpr ⟨from', hfrom, bind_eq_ok.mpr ⟨_, hsource, rfl⟩⟩, hplan, rfl⟩

end Main

/-- The subquery in a SELECT over a plan, with `COUNT(*)` as its aggregate; the FROM clauses are under
`from_`. -/
def flattenCount (outer : List String) (plan : PlanNode Nat) (q : Subquery Nat)
    (nested : OuterNodes Nat) : Except DbError (PlanNode Nat × Nat × List (Expr Nat)) :=
  flattenNode natBooleans id ⟨none, ∅⟩ (fun _ => true) countStar false outer 0 plan
    (.correlated q nested)

/-- The subquery is sound over the rows of a plan. -/
def CountDecorrelated (D : Database Nat) (outer : List String) (q : Subquery Nat)
    (nested : OuterNodes Nat) (left f : Frame Nat) (e : Expr Nat) : Prop :=
  Decorrelated natBooleans id D ⟨none, ∅⟩ (fun _ => true) countStar false outer q nested left f e

/-- A subquery with `COUNT(*)` and `i.k` as its inner column. -/
theorem oneAggregate_count {outer : List String} {q : Subquery Nat} (hbody : q.body = selectCount)
    (hqualify : q.qualify = none) (horder : q.order = []) (hlimit : q.limit = none) (hjoins : q.joins = []) :
    OneAggregate (fun _ => true) natScalars outer (sqName 1) ⟨"i", "k"⟩ countStar itemCount q where
  body := ⟨_, hbody⟩
  qualify := hqualify
  value := rfl
  order := horder
  limit := hlimit
  joins j hj := by
    rw [hjoins] at hj
    cases hj
  empties := ⟨fun _ _ => rfl, rfl⟩
  named := by decide
  avoids e he := by
    rw [List.mem_singleton.mp he]
    intro x hx
    rw [List.mem_singleton.mp hx]
    refine ⟨by decide, fun t ht => ?_⟩
    cases ht
    decide

/-- `left > right`. -/
def greater (l r : Expr Nat) : Expr Nat :=
  .app ⟨2, fun a => (a 0).bind fun x => (a 1).map fun y => if y < x then 1 else 0, false,
    fun _ => false, ""⟩ fun i => if i = 0 then l else r

/-- `t(k, j, v)`. -/
def tableT : Frame Nat := numbers ["k", "j", "v"]
  [[some 1, some 2, some 5], [some 1, some 2, some 1], [some 2, some 1, some 0]]

/-- `SELECT COUNT(*) FROM t AS c WHERE c.j = i.j`. -/
def countSameJ : Subquery Nat :=
  ⟨.table "t" "c", [], .eq ⟨"c", "j"⟩ ⟨"i", "j"⟩, selectCount, none, false, [], none⟩

/-- `SELECT COUNT(*) FROM t AS i WHERE i.k = a.k AND i.v > (SELECT COUNT(*) FROM t AS c WHERE c.j = i.j)`. -/
def countAbove : Subquery Nat :=
  ⟨.table "t" "i", [], .and (.eq ⟨"i", "k"⟩ ⟨"a", "k"⟩)
    (.other (greater (.col "v" (some "i")) (coalesceZero natScalars (.col "_sq1" none)))),
    selectCount, none, false, [], none⟩

/-- `(SELECT k, j AS x FROM t) AS a JOIN (SELECT k, v AS y FROM t) AS b ON a.x = b.k JOIN t AS c
ON c.k = a.x`. -/
def threeKeys : PlanNode Nat :=
  .join (.join
      (.derived (.project (.scan "t" none (some "t")) [(.col "k" none, "k"), (.col "j" none, "x")]) "a")
      (.derived (.project (.scan "t" none (some "t")) [(.col "k" none, "k"), (.col "v" none, "y")]) "b")
      (joinOn "x" "k" .inner))
    (.scan "t" none (some "c")) (joinOn "x" "k" .inner)

/-- A join whose values are not those of the subquery. -/
theorem not_decorrelated {D : Database Nat} (outer : List String) (plan : PlanNode Nat)
    (q : Subquery Nat) (nested : OuterNodes Nat) (wanted : List (List (List (Cell Nat))))
    {node : PlanNode Nat} {e : Expr Nat} {cells : List (List (List (Cell Nat)))}
    (hwanted : ((exec natScalars D plan).toOption.map fun left => left.rows.map fun l =>
      scalarRows natBooleans id D ⟨none, ∅⟩ (fun _ => true) countStar false outer q nested
        left.columns l) = some wanted)
    (hcells : ((execute natScalars D plainDevice ∅ node).toOption.map fun f =>
      f.rows.map fun r => [[e.value natScalars f.columns r]]) = some cells)
    (hne : ¬ cells.Perm wanted) :
    ∃ left f, exec natScalars D plan = .ok left ∧ execute natScalars D plainDevice ∅ node = .ok f ∧
      ¬ CountDecorrelated D outer q nested left f e := by
  cases hleft : exec natScalars D plan with
  | error x =>
    rw [hleft] at hwanted
    cases hwanted
  | ok left =>
    cases hf : execute natScalars D plainDevice ∅ node with
    | error x =>
      rw [hf] at hcells
      cases hcells
    | ok f =>
      rw [hleft] at hwanted
      rw [hf] at hcells
      refine ⟨left, f, rfl, rfl, fun h => hne ?_⟩
      have hperm := List.Perm.map Prod.snd h
      rw [List.map_map, List.map_map] at hperm
      cases hwanted
      cases hcells
      exact hperm

end Parse

end RyuDB.Sql
