/-
# The columns of SELECT *

A SELECT * has no projection: what the plan has gathered below is what the client sees.  The subqueries
of WHERE that are joined to the plan (`ScalarSubquery`) have put columns there that no clause of the query
names, and rely on a projection to take them away.  QUALIFY would do the same with its windows, but a
SELECT * with a QUALIFY is refused: its list is searched for windows item by item, and `_proj_item`
raises on the star.

`star_columns` says which columns a SELECT * returns: those of the FROM clause, then one or two for every
subquery but a correlated EXISTS.  So they are those of the FROM clause exactly where WHERE has no
subquery but IN and correlated EXISTS.  `from_columns` counts those of the FROM clause: one for each column
of each relation, where a key that is coalesced counts once.  The run is one that nothing disturbs: a
SELECT * shows the columns an aggregate has written into the cached frame of a table as well.

Everything that reads a SELECT * gets these columns: the client, an INSERT .. SELECT, a set operation, and
a FROM clause it is a derived table of.
-/
import RyuDB.QueryTree
import RyuDB.ScalarSubquery

namespace RyuDB.Sql.Parse

variable {V : Type}

/-! ## 1. The query -/

/-- A conjunct of WHERE, with the columns of the joined subqueries in their places. -/
inductive Conjunct (V : Type) where
  | exists (q : Subquery V) (negated : Bool)
  | inQuery (operand : Expr V) (subplan : PlanNode V) (negated : Bool)
  | other (e : Expr V)

/-- A SELECT * without GROUP BY and HAVING. -/
structure StarQuery (V : Type) where
  base : TableNode V
  joins : List (JoinNode V)
  nodes : OuterNodes V
  conjuncts : List (Conjunct V)
  qualify : Option (Qualify V)
  distinct : Bool
  tail : Tail V

/-- The relations of FROM, by alias. -/
def StarQuery.aliases (q : StarQuery V) : List String :=
  q.base.aliasName :: q.joins.map fun j => j.ref.aliasName

/-! ## 2. The lowering -/

/-- QUALIFY of `_build_select` under a SELECT *. -/
def refuseQualify : Option (Qualify V) → Except DbError Unit
  | none => .ok ()
  | some q =>
    if q.windows.isEmpty then .error (.notImplemented "QUALIFY requires a window function")
    else .error (.notImplemented "'*' mixed with other expressions is not supported")

section Build

variable [DecidableEq V] {S : Scalars V} (B : Booleans S) (num : Nat → V) (env : Env V)
  (isCount : AggFunc V → Bool) (count : AggFunc V) (underFrom : Bool)

/-- The loop of `_apply_where_subqueries`: the plan with the semi and anti joins, and the conjuncts that
are left. -/
def applyWhereSubqueries (outer : List String) (plan : PlanNode V) :
    List (Conjunct V) → Except DbError (PlanNode V × List (Expr V))
  | [] => .ok (plan, [])
  | .other e :: cs => do
    let (plan, residual) ← applyWhereSubqueries outer plan cs
    return (plan, e :: residual)
  | .inQuery operand subplan negated :: cs => do
    let plan ← inSubquery plan operand subplan negated
    applyWhereSubqueries outer plan cs
  | .exists q negated :: cs => do
    match ← existsConjunct B num env underFrom outer plan negated q with
    | some plan => applyWhereSubqueries outer plan cs
    | none => .error (.notImplemented "unsupported expression: Exists")

/-- `_build_select` of a SELECT *. -/
def StarQuery.build (q : StarQuery V) : Except DbError (PlanNode V) := do
  let plan ← buildFrom env q.base q.joins
  let (plan, _) ← flattenOuterSubqueries B num env isCount count underFrom q.aliases 0 plan q.nodes
  let (plan, residual) ← applyWhereSubqueries B num env underFrom q.aliases plan q.conjuncts
  let plan := match conjoinAll residual with
    | some e => .filter plan e
    | none => plan
  refuseQualify q.qualify
  return buildTail num q.tail (if q.distinct then .distinct plan else plan)

/-! ## 3. The columns that are added -/

omit [DecidableEq V] in
/-- The columns a subquery of WHERE leaves in the plan. -/
def OuterNode.columns (outer : List String) (n : Nat) : OuterNode V → List String
  | .correlatedExists => []
  | .exists _ => [sqName (n + 1)]
  | .scalar _ => [sqName (n + 1)]
  | .correlated q _ =>
    match classifyCorrelation underFrom outer q with
    | .ok (some _) => [sqName (n + 1), keyName (sqName (n + 1))]
    | _ => [sqName (n + 1)]

omit [DecidableEq V] in
/-- The columns of all of them, from the number of the last name. -/
def OuterNodes.columns (outer : List String) (n : Nat) : OuterNodes V → List String
  | .nil => []
  | .cons .correlatedExists nodes => nodes.columns outer n
  | .cons node nodes => node.columns underFrom outer n ++ nodes.columns outer (n + 1)

omit [DecidableEq V] in
/-- No subquery but correlated EXISTS. -/
def OuterNodes.OnlyExists : OuterNodes V → Prop
  | .nil => True
  | .cons .correlatedExists nodes => nodes.OnlyExists
  | .cons _ _ => False

end Build

/-! ## 4. What each step adds -/

section Steps

variable [DecidableEq V] {S : Scalars V} {B : Booleans S} {num : Nat → V} {D : Database V} {env : Env V}
  {isCount : AggFunc V → Bool} {count : AggFunc V} {underFrom : Bool} {outer : List String}
  {plan node : PlanNode V} {f : Frame V}

/-- A joined relation without an alias adds its columns. -/
theorem attach_columns {sub : PlanNode V} {on : JoinOn V} (hsub : sub.sideAlias = none)
    (hu : on.usingKeys = false) (hs : on.how.isSemi = false) (hp : on.padded = false)
    (hf : exec S D (.join plan sub on) = .ok f) :
    ∃ g, exec S D plan = .ok g ∧ f.columns = g.columns ++ outColumns D.schema sub := by
  obtain ⟨g, hg, hf⟩ := bind_eq_ok.mp hf
  obtain ⟨right, hright, hf⟩ := bind_eq_ok.mp hf
  rw [hsub] at hf
  obtain ⟨hfit, rfl⟩ := joinFrames_ok.mp hf
  refine ⟨g, hg, ?_⟩
  have hsemi : ¬ on.how.isSemi = true := Bool.eq_false_iff.mp hs
  rw [joined_columns, if_neg hsemi, joinLayout_apart hfit.fits hu hs hp, Layout.columns,
    List.map_append, List.map_map, List.map_map, ← exec_columns hright]
  exact congrArg₂ _ (List.map_id _) (List.map_id _)

/-- A semi or anti join adds none. -/
theorem semi_columns {sub : PlanNode V} {on : JoinOn V} (hs : on.how.isSemi = true)
    (hf : exec S D (.join plan sub on) = .ok f) :
    ∃ g, exec S D plan = .ok g ∧ f.columns = g.columns := by
  obtain ⟨g, hg, hf⟩ := bind_eq_ok.mp hf
  obtain ⟨right, -, hf⟩ := bind_eq_ok.mp hf
  obtain ⟨-, rfl⟩ := joinFrames_ok.mp hf
  exact ⟨g, hg, by rw [joined_columns, if_pos hs]⟩

/-- An uncorrelated scalar subquery adds the column of its value. -/
theorem broadcast_columns {subplan : PlanNode V} {name : String} {e : Expr V}
    (h : broadcast plan subplan name = .ok (node, e)) (hf : exec S D node = .ok f) :
    ∃ g, exec S D plan = .ok g ∧ f.columns = g.columns ++ [name] := by
  obtain ⟨_, -, h⟩ := bind_eq_ok.mp h
  obtain ⟨existing, -, h⟩ := bind_eq_ok.mp h
  cases h
  exact attach_columns rfl rfl rfl rfl hf

/-- A correlated one adds that of its value and that of its key. -/
theorem decorrelate_columns {source : PlanNode V} {q : Subquery V}
    {corr : List (String × ColRef) × List (OnExpr V)} {name : String} {e : Expr V}
    (h : decorrelateScalar B num isCount plan source q corr name = .ok (node, e))
    (hf : exec S D node = .ok f) :
    ∃ g, exec S D plan = .ok g ∧ f.columns = g.columns ++ [name, keyName name] := by
  rw [decorrelateScalar] at h
  split at h
  · rename_i outerKey inner hpair
    obtain ⟨subplan, -, h⟩ := bind_eq_ok.mp h
    obtain ⟨⟨input, aggs⟩, -, h⟩ := bind_eq_ok.mp h
    dsimp only at h
    split at h
    · rename_i agg rest
      cases h
      obtain ⟨g, hg, hcols⟩ := attach_columns rfl rfl rfl rfl hf
      have hsub : outColumns D.schema (groupedAggregate B name input inner agg) =
          [name, keyName name] :=
        foldl_addColumn_nodup (by simp [keyName_ne name])
      exact ⟨g, hg, hsub ▸ hcols⟩
    · cases h
  · cases h

/-- **One turn of the loop** adds the columns of the subquery. -/
theorem flattenNode_columns {x : OuterNode V} {n m : Nat} {es : List (Expr V)}
    (h : flattenNode B num env isCount count underFrom outer n plan x = .ok (node, m, es))
    (hf : exec S D node = .ok f) :
    m = (if x.columns underFrom outer n = [] then n else n + 1) ∧
      ∃ g, exec S D plan = .ok g ∧ f.columns = g.columns ++ x.columns underFrom outer n := by
  cases x with
  | correlatedExists =>
    rw [flattenNode] at h
    cases h
    exact ⟨rfl, f, hf, (List.append_nil _).symm⟩
  | «exists» subplan =>
    rw [flattenNode] at h
    cases h
    exact ⟨rfl, attach_columns rfl rfl rfl rfl hf⟩
  | scalar subplan =>
    rw [flattenNode] at h
    obtain ⟨⟨plan', e⟩, hplan, h⟩ := bind_eq_ok.mp h
    cases h
    exact ⟨rfl, broadcast_columns hplan hf⟩
  | correlated q nested =>
    rw [flattenNode] at h
    obtain ⟨corr, hcorr, h⟩ := bind_eq_ok.mp h
    obtain ⟨from', -, h⟩ := bind_eq_ok.mp h
    obtain ⟨⟨source, exprs⟩, -, h⟩ := bind_eq_ok.mp h
    rw [OuterNode.columns, hcorr]
    cases corr with
    | some corr =>
      obtain ⟨⟨plan', e⟩, hplan, h⟩ := bind_eq_ok.mp h
      cases h
      exact ⟨rfl, decorrelate_columns hplan hf⟩
    | none =>
      obtain ⟨subplan, -, h⟩ := bind_eq_ok.mp h
      obtain ⟨⟨plan', e⟩, hplan, h⟩ := bind_eq_ok.mp h
      cases h
      exact ⟨rfl, broadcast_columns hplan hf⟩

omit [DecidableEq V] in
theorem columns_cons (x : OuterNode V) (nodes : OuterNodes V) (n : Nat) :
    (OuterNodes.cons x nodes).columns underFrom outer n = x.columns underFrom outer n ++
      nodes.columns underFrom outer (if x.columns underFrom outer n = [] then n else n + 1) := by
  cases x with
  | correlatedExists => rfl
  | «exists» subplan => rfl
  | scalar subplan => rfl
  | correlated q nested =>
    have hne : (OuterNode.correlated q nested).columns underFrom outer n ≠ [] := by
      rw [OuterNode.columns]
      split <;> exact List.cons_ne_nil _ _
    rw [if_neg hne]
    rfl

/-- **The joined subqueries** add their columns. -/
theorem flatten_columns : ∀ {nodes : OuterNodes V} {plan node : PlanNode V} {n : Nat} {f : Frame V}
    {es : List (Expr V)},
    flattenOuterSubqueries B num env isCount count underFrom outer n plan nodes = .ok (node, es) →
    exec S D node = .ok f →
    ∃ g, exec S D plan = .ok g ∧ f.columns = g.columns ++ nodes.columns underFrom outer n
  | .nil, _, _, _, f, _, h, hf => by
    rw [flattenOuterSubqueries] at h
    cases h
    exact ⟨f, hf, (List.append_nil _).symm⟩
  | .cons x nodes, plan, node, n, f, es, h, hf => by
    rw [flattenOuterSubqueries] at h
    obtain ⟨⟨plan', m, exprs⟩, hnode, h⟩ := bind_eq_ok.mp h
    obtain ⟨⟨plan'', rest⟩, hrest, h⟩ := bind_eq_ok.mp h
    cases h
    obtain ⟨g', hg', hcols'⟩ := flatten_columns hrest hf
    obtain ⟨rfl, g, hg, hcols⟩ := flattenNode_columns hnode hg'
    refine ⟨g, hg, ?_⟩
    rw [hcols', hcols, columns_cons, List.append_assoc]

/-- **The conjuncts of WHERE** add no columns. -/
theorem where_columns : ∀ {cs : List (Conjunct V)} {plan node : PlanNode V} {f : Frame V}
    {residual : List (Expr V)},
    applyWhereSubqueries B num env underFrom outer plan cs = .ok (node, residual) →
    exec S D node = .ok f → ∃ g, exec S D plan = .ok g ∧ f.columns = g.columns
  | [], _, _, f, _, h, hf => by
    cases h
    exact ⟨f, hf, rfl⟩
  | .other e :: cs, _, _, f, _, h, hf => by
    obtain ⟨⟨plan', residual'⟩, hrest, h⟩ := bind_eq_ok.mp h
    cases h
    exact where_columns hrest hf
  | .inQuery operand subplan negated :: cs, _, _, f, _, h, hf => by
    obtain ⟨plan', hin, hrest⟩ := bind_eq_ok.mp h
    obtain ⟨g', hg', hcols'⟩ := where_columns hrest hf
    obtain ⟨key, -, hin⟩ := bind_eq_ok.mp hin
    obtain ⟨onRight, -, hin⟩ := bind_eq_ok.mp hin
    cases hin
    obtain ⟨g, hg, hcols⟩ := semi_columns (by cases negated <;> rfl) hg'
    exact ⟨g, hg, hcols'.trans hcols⟩
  | .exists q negated :: cs, _, _, f, _, h, hf => by
    obtain ⟨joined, hex, h⟩ := bind_eq_ok.mp h
    cases joined with
    | none => cases h
    | some plan' =>
      obtain ⟨g', hg', hcols'⟩ := where_columns h hf
      obtain ⟨p, pairs, locals, subplan, ns, -, -, -, rfl⟩ := existsConjunct_ok hex
      obtain ⟨g, hg, hcols⟩ := semi_columns (by cases negated <;> rfl) hg'
      exact ⟨g, hg, hcols'.trans hcols⟩

/-- A Filter for the conjuncts that are left adds none. -/
theorem residual_columns {residual : List (Expr V)}
    (hf : exec S D (match conjoinAll residual with
      | some e => .filter plan e
      | none => plan) = .ok f) : ∃ g, exec S D plan = .ok g ∧ f.columns = g.columns := by
  split at hf
  · obtain ⟨g, hg, hf⟩ := bind_eq_ok.mp hf
    exact ⟨g, hg, by rw [(filterFrame_ok.mp hf).2, Frame.filter_columns]⟩
  · exact ⟨f, hf, rfl⟩

/-- DISTINCT, ORDER BY and LIMIT add none. -/
theorem tail_columns {tail : Tail V} {d : Bool}
    (hf : exec S D (buildTail num tail (if d then .distinct plan else plan)) = .ok f) :
    ∃ g, exec S D plan = .ok g ∧ f.columns = g.columns := by
  -- a node that passes its columns on, one after the other from the top
  have hbelow : ∀ {p p' : PlanNode V} {f g : Frame V}, exec S D p' = .ok f → exec S D p = .ok g →
      outColumns D.schema p' = outColumns D.schema p → f.columns = g.columns := by
    intro p p' f g hf hg hout
    rw [exec_columns hf, exec_columns hg, hout]
  obtain ⟨g₁, hg₁, h₁⟩ : ∃ g, exec S D (if tail.order.isEmpty then
        (if d then .distinct plan else plan)
      else .sort (if d then .distinct plan else plan) (tail.order.map (OrderTerm.sortKey num))) =
        .ok g ∧ f.columns = g.columns := by
    rw [buildTail] at hf
    split at hf
    · exact ⟨f, hf, rfl⟩
    · obtain ⟨g, hg, -⟩ := bind_eq_ok.mp hf
      exact ⟨g, hg, hbelow hf hg rfl⟩
  obtain ⟨g₂, hg₂, h₂⟩ : ∃ g, exec S D (if d then .distinct plan else plan) = .ok g ∧
      g₁.columns = g.columns := by
    split at hg₁
    · exact ⟨g₁, hg₁, rfl⟩
    · have hsort := hg₁
      rw [exec_sort] at hsort
      obtain ⟨g, hg, -⟩ := bind_eq_ok.mp hsort
      exact ⟨g, hg, hbelow hg₁ hg rfl⟩
  cases d with
  | false => exact ⟨g₂, hg₂, h₁.trans h₂⟩
  | true =>
    obtain ⟨g, hg, -⟩ := bind_eq_ok.mp hg₂
    exact ⟨g, hg, (h₁.trans h₂).trans (hbelow hg₂ hg rfl)⟩

end Steps

/-! ## 5. The columns of FROM -/

section From

variable (sch : Dict String (List String))

/-- The number of columns of a relation of FROM. -/
def width (env : Env V) (node : TableNode V) : Nat :=
  match tableRef env node with
  | .ok (source, _, _) => (outColumns sch source).length
  | .error _ => 0

/-- The number of keys that are coalesced in the joins of a FROM clause. -/
def coalescedKeys : PlanNode V → Nat
  | .join l r on =>
    let names := layoutNames on l.sideAlias r.sideAlias (outColumns sch l) (outColumns sch r)
    coalescedKeys l + ((outColumns sch r).filter (absorbed names.1 names.2 (keyPairs on))).length
  | _ => 0

/-- A layout has the columns of the left side and those of the right side that are not coalesced. -/
theorem layout_length (nl nr : String → String) (keys : List (String × String)) (overlap L R : List String) :
    (layout nl nr keys overlap L R).columns.length + (R.filter (absorbed nl nr keys)).length =
      L.length + R.length := by
  have hsplit := List.length_eq_length_filter_add (l := R) (absorbed nl nr keys)
  rw [Layout.columns, layout, List.map_append, List.length_append, List.length_map, List.length_map,
    List.length_map, List.length_map, hsplit]
  omega

/-- A join of FROM has the columns of its sides, but for the coalesced keys. -/
theorem join_length {l r : PlanNode V} {on : JoinOn V} (hs : on.how.isSemi = false) :
    (outColumns sch (.join l r on)).length + coalescedKeys sch (.join l r on) =
      (outColumns sch l).length + coalescedKeys sch l + (outColumns sch r).length := by
  have hlay : ∃ overlap, joinLayout on l.sideAlias r.sideAlias (outColumns sch l) (outColumns sch r) =
      layout (layoutNames on l.sideAlias r.sideAlias (outColumns sch l) (outColumns sch r)).1
        (layoutNames on l.sideAlias r.sideAlias (outColumns sch l) (outColumns sch r)).2 (keyPairs on)
        overlap (outColumns sch l) (outColumns sch r) := by
    rw [joinLayout, layoutNames]
    cases on.padded with
    | true => exact ⟨_, rfl⟩
    | false => exact ⟨_, rfl⟩
  obtain ⟨overlap, hlay⟩ := hlay
  have hlen := layout_length
    (layoutNames on l.sideAlias r.sideAlias (outColumns sch l) (outColumns sch r)).1
    (layoutNames on l.sideAlias r.sideAlias (outColumns sch l) (outColumns sch r)).2
    (keyPairs on) overlap (outColumns sch l) (outColumns sch r)
  rw [outColumns, if_neg (Bool.eq_false_iff.mp hs), hlay, coalescedKeys]
  omega

/-- The kind of a join of FROM is none of the two. -/
theorem joinSpec_how {env : Env V} {tables : List String} {rname : String} {j : JoinNode V}
    {x : JoinHow × List (String × String) × Option (Expr V)}
    (h : joinSpec env tables rname j = .ok x) : x.1.isSemi = false := by
  have hside : (sideHow j.side j.kind).isSemi = false := by
    cases j.side <;> cases j.kind <;> rfl
  have hmap : ∀ {how : JoinHow}, how.isSemi = false →
      ((joinKeys env tables rname j).map fun k => (how, k)) = .ok x → x.1.isSemi = false := by
    intro how hhow hx
    cases hk : joinKeys env tables rname j with
    | error e =>
      rw [hk] at hx
      cases hx
    | ok k =>
      rw [hk] at hx
      cases hx
      exact hhow
  rw [joinSpec] at h
  split at h
  · split at h
    · cases h
    · split at h
      · cases h
        rfl
      · cases h
        exact hside
  · split at h
    · split at h
      · cases h
        rfl
      · exact hmap rfl h
    · exact hmap hside h

/-- **The columns of FROM**: one for each column of each relation, but for the coalesced keys. -/
theorem from_columns {env : Env V} {base : TableNode V} {joins : List (JoinNode V)} {plan : PlanNode V}
    (h : buildFrom env base joins = .ok plan) :
    (outColumns sch plan).length + coalescedKeys sch plan =
      width sch env base + (joins.map fun j => width sch env j.ref).sum := by
  have hfold : ∀ {joins : List (JoinNode V)} {left : PlanNode V},
      joins.foldlM (buildJoin env) left = .ok plan →
      (outColumns sch plan).length + coalescedKeys sch plan =
        (outColumns sch left).length + coalescedKeys sch left +
          (joins.map fun j => width sch env j.ref).sum := by
    intro joins
    induction joins with
    | nil =>
      intro left h
      cases h
      rfl
    | cons j joins ih =>
      intro left h
      rw [List.foldlM_cons] at h
      obtain ⟨next, hnext, h⟩ := bind_eq_ok.mp h
      obtain ⟨⟨source, al, rname⟩, href, hnext⟩ := bind_eq_ok.mp hnext
      obtain ⟨⟨how, keys, pred⟩, hspec, hnext⟩ := bind_eq_ok.mp hnext
      dsimp only at hnext
      split at hnext
      · cases hnext
      · cases hnext
        have hwidth : width sch env j.ref = (outColumns sch source).length := by
          rw [width, href]
        have hsemi : how.isSemi = false := joinSpec_how hspec
        have hlen := join_length sch (l := left) (r := source)
          (show JoinHow.isSemi (JoinOn.how ⟨keys.map Prod.fst, keys.map Prod.snd, how, pred,
            j.natural || !j.usingCols.isEmpty⟩) = false from hsemi)
        rw [ih h, hlen, List.map_cons, List.sum_cons, hwidth]
        omega
  obtain ⟨⟨source, al, rname⟩, href, h⟩ := bind_eq_ok.mp h
  have hwidth : width sch env base = (outColumns sch source).length := by rw [width, href]
  have hzero : coalescedKeys sch source = 0 := by
    cases base with
    | subquery p a =>
      rw [tableRef] at href
      split at href
      · cases href
      · cases href
        rfl
    | table name a =>
      rw [tableRef] at href
      split at href
      · cases href
        rfl
      · split at href
        · cases href
        · cases href
          rfl
  rw [hfold h, hzero, hwidth, Nat.add_zero]

end From

/-! ## 6. SELECT * -/

section Main

variable [DecidableEq V] {S : Scalars V} {B : Booleans S} {num : Nat → V} {D : Database V} {env : Env V}
  {isCount : AggFunc V → Bool} {count : AggFunc V} {underFrom : Bool} {q : StarQuery V}
  {source plan : PlanNode V} {g f : Frame V}

omit [DecidableEq V] in
/-- A subquery that is no correlated EXISTS leaves a column. -/
theorem columns_eq_nil {outer : List String} : ∀ {nodes : OuterNodes V} {n : Nat},
    nodes.columns underFrom outer n = [] ↔ nodes.OnlyExists
  | .nil, _ => iff_of_true rfl trivial
  | .cons .correlatedExists nodes, n => by
    have hrest : nodes.columns underFrom outer n = [] ↔ nodes.OnlyExists := columns_eq_nil
    exact hrest
  | .cons (.exists _) nodes, n => iff_of_false (List.cons_ne_nil _ _) id
  | .cons (.scalar _) nodes, n => iff_of_false (List.cons_ne_nil _ _) id
  | .cons (.correlated q nested) nodes, n => by
    refine iff_of_false ?_ id
    rw [OuterNodes.columns, OuterNode.columns]
    · split <;> exact List.cons_ne_nil _ _
    · intro h
      cases h

/-- **The columns of a star query** where nothing disturbs its run: those of FROM, one for each column of
each relation but for the coalesced keys, then those of the joined subqueries; and so those of FROM
exactly where WHERE has no subqueries but IN and correlated EXISTS.  A QUALIFY is refused. -/
theorem star_columns {dev : Device V} {c : Cached V}
    (hplan : q.build B num env isCount count underFrom = .ok plan)
    (hcalm : Undisturbed S D dev plan c) (hf : execute S D dev c plan = .ok f)
    (hsource : buildFrom env q.base q.joins = .ok source) (hg : exec S D source = .ok g) :
    f.columns = g.columns ++ q.nodes.columns underFrom q.aliases 0 ∧
    g.columns.length + coalescedKeys D.schema source = width D.schema env q.base +
        (q.joins.map fun j => width D.schema env j.ref).sum ∧
    (f.columns = g.columns ↔ q.nodes.OnlyExists) ∧ q.qualify = none := by
  rw [execute_eq hcalm] at hf
  obtain ⟨source', hsource', h⟩ := bind_eq_ok.mp hplan
  cases hsource'.symm.trans hsource
  obtain ⟨⟨p₁, es⟩, hnodes, h⟩ := bind_eq_ok.mp h
  obtain ⟨⟨p₂, residual⟩, hwhere, h⟩ := bind_eq_ok.mp h
  obtain ⟨⟨⟩, hqualify, h⟩ := bind_eq_ok.mp h
  cases h
  have hnone : q.qualify = none := by
    cases hq : q.qualify with
    | none => rfl
    | some w =>
      rw [hq, refuseQualify] at hqualify
      split at hqualify <;> cases hqualify
  obtain ⟨f₃, hf₃, hc₃⟩ := tail_columns hf
  obtain ⟨f₂, hf₂, hc₂⟩ := residual_columns hf₃
  obtain ⟨f₁, hf₁, hc₁⟩ := where_columns hwhere hf₂
  obtain ⟨f₀, hf₀, hc₀⟩ := flatten_columns hnodes hf₁
  cases hf₀.symm.trans hg
  have hcols : f.columns = g.columns ++ q.nodes.columns underFrom q.aliases 0 := by
    rw [hc₃, hc₂, hc₁, hc₀]
  refine ⟨hcols, ?_, ?_, hnone⟩
  · rw [exec_columns hg, from_columns D.schema hsource]
  · rw [hcols, List.append_right_eq_self, columns_eq_nil]

end Main

/-- `SELECT * FROM a` with the subqueries and the conjuncts. -/
def starOf (nodes : OuterNodes Nat) (conjuncts : List (Conjunct Nat)) : StarQuery Nat :=
  ⟨.table "a" "a", [], nodes, conjuncts, none, false, Tail.none⟩

/-- The plan of the query; the FROM clauses are under `from_`. -/
def planOf (q : StarQuery Nat) : Except DbError (PlanNode Nat) :=
  q.build natBooleans id ⟨none, ∅⟩ (fun _ => true) countStar false

/-- `k IN (SELECT k FROM a)`. -/
def inItself : Conjunct Nat := .inQuery (.col "k" none) (selectKey "a" "k") false

/-- `SELECT * FROM a WHERE k IN (SELECT k FROM a)` has the column of `a`. -/
theorem star_columns_in : ∃ plan f, planOf (starOf .nil [inItself]) = .ok plan ∧
    execute natScalars unevenTables plainDevice ∅ plan = .ok f ∧ f.columns = rowsA.columns := by
  obtain ⟨plan, hplan, hcalm, hshown⟩ : ∃ plan, planOf (starOf .nil [inItself]) = .ok plan ∧
      Undisturbed natScalars unevenTables plainDevice plan ∅ ∧
      shown (execute natScalars unevenTables plainDevice ∅ plan) =
        some (["k"], [[some 1], [some 2]]) :=
    ⟨_, rfl, undisturbed_join (fun _ => rfl) (fun _ => rfl) (.inl rfl) fun _ => .inl rfl, by decide⟩
  obtain ⟨f, hf, -⟩ := returned_of_shown hshown
  exact ⟨plan, f, hplan, hf, (star_columns hplan hcalm hf rfl scan_rowsA).2.2.1.mpr trivial⟩

/-- `SELECT COUNT(*) FROM a`. -/
def countOfA : PlanNode Nat := .aggregate (.scan "a" none (some "a")) [] [(countStar, "count")]

/-- `k <= _sq1`. -/
def atMostCount : Conjunct Nat := .other (.not (greater (.col "k" none) (.col "_sq1" none)))

/-- **Columns nobody asked for.**  `SELECT * FROM a WHERE k IN (SELECT k FROM a) AND k <= (SELECT COUNT(*)
FROM a)` returns a column `_sq1`; with the rows of `a` whose key is `k` counted, `_sq1_k` as well; and with
an uncorrelated EXISTS, `_sq1`.  The rows of `a` are pending. -/
theorem helper_columns_shown :
    (∃ plan, planOf (starOf (.cons (.scalar countOfA) .nil) [inItself, atMostCount]) = .ok plan ∧
      shown (execute natScalars unevenTables plainDevice ∅ plan) =
        some (["k", "_sq1"], [[some 1, some 2], [some 2, some 2]])) ∧
    (∃ plan, planOf (starOf (.cons (.correlated (subqueryOf "a" "k" selectCount none) .nil) .nil)
        [inItself]) = .ok plan ∧
      shown (execute natScalars unevenTables plainDevice ∅ plan) =
        some (["k", "_sq1", "_sq1_k"], [[some 1, some 1, some 1], [some 2, some 1, some 2]])) ∧
    ∃ plan, planOf (starOf (.cons (.exists countOfA) .nil) []) = .ok plan ∧
      shown (execute natScalars unevenTables plainDevice ∅ plan) =
        some (["k", "_sq1"], [[some 1, some 1], [some 2, some 1]]) := by
  refine ⟨⟨_, rfl, ?_⟩, ⟨_, rfl, ?_⟩, _, rfl, ?_⟩
  · decide
  · decide
  · decide

/-- A table without pending rows shows what an aggregate has left in its cached frame: after `SELECT 1 AS
one, COUNT(*) FROM a`, a `SELECT * FROM a` has the columns `one` and `__cnt`. -/
example : shown (execBuilt natScalars unevenTables { plainDevice with merged := fun _ => false }
      (.aggregate (.scan "a" none (some "a")) [(.lit (some 1), "one")] [(countStar, "count")]) ∅ >>=
        fun x => execute natScalars unevenTables { plainDevice with merged := fun _ => false } x.2
          (.scan "a" none (some "a"))) =
    some (["k", "one", "__cnt"], [[some 1, some 1, some 1], [some 2, some 1, some 1]]) := by decide

end RyuDB.Sql.Parse
