/-
# The select list and the columns of the result

`_build_select` turns the items of a select list into the top of a plan.  Without aggregates it is a
projection, whose repeated names `_dedup_output_names` tells apart.  With aggregates, GROUP BY or
HAVING the items are sorted into group keys and aggregates, and the plan returns the keys first and
the aggregates behind them, under their names as they are; HAVING-only aggregates are projected away
again.  ROLLUP, CUBE and GROUPING SETS become a UNION ALL of one aggregate for each grouping set,
each under a projection in the order of the list.

Wanted: the result has one column for each item, in the order of the list, with different names, and
every row holds the items of one source row or group in their places (`Matches`).  `select_list` says
where that is so; `Arranged` is the part of the condition that is also necessary: an aggregate in front
of a group key moves, and names that are the same, or become the same by the suffix of
`_dedup_output_names`, are one column.

Window functions of the items are computed beside the rows of FROM and WHERE, in columns `_wf1`, `_wf2`,
.. (and `_qf1`, .. for those that QUALIFY alone has), and the items read these columns; `source` is the
frame that is wanted there, every window over the rows themselves.  A row or group is in the result once
(`Matches.rows`), and all of them are when no HAVING and no LIMIT drops them (`Matches.complete`).

The FROM and WHERE clauses are in the plan below; the grouping sets are taken as they are enumerated,
and HAVING as `_having_predicate` returns it.  The plan is run as the engine is built: the theorem asks
that nothing disturbs the run (`BuiltExec`).
-/
import RyuDB.Prune

namespace RyuDB.Sql

variable {V : Type}

/-! ## 1. Items -/

/-- What `_describe` tells apart in the argument of an aggregate. -/
inductive AggArg where
  | star
  | column (name : String)
  | expr
  deriving DecidableEq, Repr

/-- `_describe`. -/
def AggArg.describe : AggArg → String
  | .star => "star"
  | .column name => name
  | .expr => "expr"

/-- An item of a select list below its alias: a column, an aggregate with its lower-case name,
GROUPING, or any other expression with what the SQL parser calls its name. -/
inductive ItemNode (V : Type) where
  | column (name : String) (table : Option String)
  | agg (func : AggFunc V) (kind : String) (arg : AggArg)
  | grouping (cols : List String)
  | other (e : Expr V) (aliasOrName : String)

/-- An item. -/
structure SelectItem (V : Type) where
  node : ItemNode V
  aliasName : Option String

/-- What an item is lowered to. -/
inductive ItemValue (V : Type) where
  | expr (e : Expr V)
  | agg (func : AggFunc V)
  | grouping (cols : List String)

/-- `_output_name`, and the name `_build_grouping_extension` gives to GROUPING. -/
def ItemNode.outputName : ItemNode V → String
  | .column name _ => name
  | .agg _ kind arg => kind ++ "_" ++ arg.describe
  | .grouping cols => "grouping_" ++ "_".intercalate cols
  | .other _ aliasOrName => aliasOrName

/-- The name of an item, second part of `_proj_item`. -/
def SelectItem.name (i : SelectItem V) : String := i.aliasName.getD i.node.outputName

/-- `_expr` of an item. -/
def SelectItem.value (i : SelectItem V) : ItemValue V :=
  match i.node with
  | .column name table => .expr (.col name table)
  | .agg func _ _ => .agg func
  | .grouping cols => .grouping cols
  | .other e _ => .expr e

/-- An item that is an aggregate or GROUPING. -/
def ItemValue.isAgg : ItemValue V → Bool
  | .expr _ => false
  | _ => true

/-- GROUPING. -/
def ItemValue.isGrouping : ItemValue V → Bool
  | .grouping _ => true
  | _ => false

/-- The group keys among the items. -/
def keysOf (items : List (SelectItem V)) : List (Expr V × String) :=
  items.filterMap fun i =>
    match i.value with
    | .expr e => some (e, i.name)
    | _ => none

/-- The aggregates among the items. -/
def aggsOf (items : List (SelectItem V)) : List (AggFunc V × String) :=
  items.filterMap fun i =>
    match i.value with
    | .agg a => some (a, i.name)
    | _ => none

/-- The loop of `_dedup_output_names` on the names: `seen` counts the repetitions. -/
def dedupNames : Dict String Nat → List String → List String
  | _, [] => []
  | seen, n :: ns =>
    match seen.get? n with
    | some k => (n ++ "_" ++ toString (k + 1)) :: dedupNames (seen.set n (k + 1)) ns
    | none => n :: dedupNames (seen.set n 0) ns

/-- `_dedup_output_names`. -/
def dedupOutputNames (items : List (Expr V × String)) : List (Expr V × String) :=
  (items.map Prod.fst).zip (dedupNames ∅ (items.map Prod.snd))

/-! ## 2. SELECT -/

/-- A SELECT above its FROM and WHERE clauses and window functions. -/
structure Select (V : Type) where
  items : List (SelectItem V)
  groupBy : List (Expr V)
  groupingSets : Option (List (List String))
  having : Option (Expr V × List (AggFunc V))
  distinct : Bool
  order : List (Expr V × Bool)
  limit : Option (Nat × Nat)
  nonempty : items ≠ []

/-- The SELECT has an aggregate, a GROUP BY or a HAVING. -/
def Select.aggregated (s : Select V) : Bool :=
  !s.groupBy.isEmpty || s.items.any (fun i => i.value.isAgg) || s.having.isSome

/-- The names of the items. -/
def Select.names (s : Select V) : List String := s.items.map SelectItem.name

/-- The HAVING-only aggregates under their names `_hv1`, `_hv2`, ... -/
def hvAggs (extra : List (AggFunc V)) : List (AggFunc V × String) :=
  extra.zipIdx.map fun a => (a.1, "_hv" ++ toString (a.2 + 1))

/-- `[(Col(a), a) ..]`. -/
def colItems (names : List String) : List (Expr V × String) :=
  names.map fun n => (.col n none, n)

/-- HAVING on top of an aggregate. -/
def buildHaving (plan : PlanNode V) (keys : List (Expr V × String))
    (aggs : List (AggFunc V × String)) (pred : Expr V) (extra : List (AggFunc V)) :
    Except DbError (PlanNode V) :=
  match pred.columns.filter (· ∉ aggNames keys (aggs ++ hvAggs extra)) with
  | c :: _ => .error (.notImplemented
      ("HAVING references a non-aggregated, non-grouped column " ++ pyRepr c))
  | [] =>
    let p := .filter (.aggregate plan keys (aggs ++ hvAggs extra)) pred
    .ok (if extra.isEmpty then p
      else .project p (dedupOutputNames (colItems (aggNames keys aggs))))

/-- The single aggregate of `_build_select`. -/
def buildAggregate (plan : PlanNode V) (s : Select V) : Except DbError (PlanNode V) :=
  if s.items.any fun i => i.value.isGrouping then
    .error (.notImplemented "unsupported expression: Grouping")
  else
    match s.having with
    | none => .ok (.aggregate plan (keysOf s.items) (aggsOf s.items))
    | some (pred, extra) =>
      if s.groupBy.isEmpty && !(keysOf s.items).isEmpty then .error (.notImplemented
        ("HAVING without GROUP BY requires a pure-aggregate SELECT list " ++
          "(add a GROUP BY for non-aggregate columns)"))
      else buildHaving plan (keysOf s.items) (aggsOf s.items) pred extra

/-- The grouping column of a key: its column, or its name when it is no column. -/
def dimName (k : Expr V × String) : String :=
  match k.1 with
  | .col n _ => n
  | _ => k.2

/-- `grouping_value`: the leftmost argument is the most significant bit, set when it is not
grouped. -/
def groupingValue (present : List String) (cols : List String) : Nat :=
  cols.foldl (fun v c => 2 * v + if c ∈ present then 0 else 1) 0

/-- An item of `branch_proj_items`. -/
def branchItem (num : Nat → V) (present : List String) (i : SelectItem V) : Expr V × String :=
  match i.value with
  | .grouping cols => (.lit (some (num (groupingValue present cols))), i.name)
  | .agg _ => (.col i.name none, i.name)
  | .expr e => (if dimName (e, i.name) ∈ present then .col i.name none else .lit none, i.name)

/-- The keys of a grouping set. -/
def presentKeys (items : List (SelectItem V)) (present : List String) : List (Expr V × String) :=
  (keysOf items).filter fun k => dimName k ∈ present

/-- The branch of a grouping set. -/
def branch (num : Nat → V) (plan : PlanNode V) (items : List (SelectItem V))
    (present : List String) : PlanNode V :=
  .project (.aggregate plan (presentKeys items present) (aggsOf items))
    (items.map (branchItem num present))

/-- `_build_grouping_extension`. -/
def buildGroupingExtension (num : Nat → V) (plan : PlanNode V) (s : Select V)
    (sets : List (List String)) : Except DbError (PlanNode V) :=
  if s.having.isSome then .error (.notImplemented
    "HAVING with ROLLUP / CUBE / GROUPING SETS is not supported yet")
  else
    match sets.flatten.filter (· ∉ (keysOf s.items).map dimName) with
    | c :: _ => .error (.notImplemented ("grouping column " ++ pyRepr c ++
        " must appear in the SELECT list (Phase-1 invariant for ROLLUP/CUBE/GROUPING SETS)"))
    | [] =>
      match sets with
      | [] => .error (.runtime "list index out of range")
      | set :: sets => .ok ((sets.map (branch num plan s.items)).foldl
          (fun acc b => .setOp acc b .union false) (branch num plan s.items set))

/-- The projection or the aggregate of `_build_select`. -/
def buildOutput (num : Nat → V) (plan : PlanNode V) (s : Select V) :
    Except DbError (PlanNode V) :=
  match s.groupingSets with
  | some sets => buildGroupingExtension num plan s sets
  | none =>
    if s.aggregated then buildAggregate plan s
    else .ok (.project plan (dedupOutputNames (keysOf s.items)))

/-- DISTINCT and `_build_tail`. -/
def buildTail (s : Select V) (p : PlanNode V) : PlanNode V :=
  let p := if s.distinct then .distinct p else p
  let p := if s.order.isEmpty then p else .sort p s.order
  match s.limit with
  | some (n, offset) => .limit p n offset
  | none => p

/-- The end of `_build_select`. -/
def buildSelect (num : Nat → V) (plan : PlanNode V) (s : Select V) :
    Except DbError (PlanNode V) := do return buildTail s (← buildOutput num plan s)

/-! ## 3. Windows -/

/-- A QUALIFY clause: its windows with their texts, in the order they are found, and its predicate, given
the columns that stand for them. -/
structure Qualify (V : Type) where
  windows : List (String × WindowFunc V)
  pred : List String → Expr V

/-- `_qfN`. -/
def qfName (n : Nat) : String := "_qf" ++ toString n

/-- The loop of `_build_qualify_predicate`: the columns that are added, and the column of each window.  A
window whose text was there before has its column; a list whose windows could be meant is not there. -/
def qualifyFuncs (known : List (String × String)) (n : Nat) : List (String × WindowFunc V) →
    List (WindowFunc V × String) × List String
  | [] => ([], [])
  | (text, w) :: ws =>
    match known.lookup text with
    | some name =>
      let (funcs, names) := qualifyFuncs known n ws
      (funcs, name :: names)
    | none =>
      let name := qfName (n + 1)
      let (funcs, names) := qualifyFuncs ((text, name) :: known) (n + 1) ws
      ((w, name) :: funcs, name :: names)

/-- `_wfN`. -/
def wfName (n : Nat) : String := "_wf" ++ toString n

/-- A SELECT with the windows of its items, each with its text, in the order they are found.  The items
have the columns that stand for the windows, `_wf1` for the first. -/
structure WindowSelect (V : Type) extends Select V where
  windows : List (String × WindowFunc V)
  qualify : Option (Qualify V)

/-- `wf_sql_map`; a text that stands twice has the later column. -/
def WindowSelect.wfSqlMap (s : WindowSelect V) : List (String × String) :=
  (s.windows.zipIdx.map fun w => (w.1.1, wfName (w.2 + 1))).reverse

/-- The windows QUALIFY adds, and the columns of all its windows. -/
def WindowSelect.qualified (s : WindowSelect V) : List (WindowFunc V × String) × List String :=
  match s.qualify with
  | none => ([], [])
  | some q => qualifyFuncs s.wfSqlMap 0 q.windows

/-- The windows with their columns. -/
def WindowSelect.funcs (s : WindowSelect V) : List (WindowFunc V × String) :=
  s.windows.zipIdx.map (fun w => (w.1.2, wfName (w.2 + 1))) ++ s.qualified.1

/-- The predicate of QUALIFY. -/
def WindowSelect.pred (s : WindowSelect V) : Option (Expr V) :=
  s.qualify.map fun q => q.pred s.qualified.2

/-- `_build_window`, and the Filter of QUALIFY. -/
def buildWindow (plan : PlanNode V) (s : WindowSelect V) : Except DbError (PlanNode V) :=
  if s.windows.isEmpty && s.qualify.all fun q => q.windows.isEmpty then
    match s.qualify with
    | none => .ok plan
    | some _ => .error (.notImplemented "QUALIFY requires a window function")
  else if !s.groupBy.isEmpty || s.groupingSets.isSome || s.having.isSome then .error (.notImplemented
    "window functions with GROUP BY / HAVING are not supported yet")
  else
    match s.pred with
    | none => .ok (.window plan s.funcs)
    | some e => .ok (.filter (.window plan s.funcs) e)

/-- The end of `_build_select`, from the windows on. -/
def buildWindowSelect (num : Nat → V) (plan : PlanNode V) (s : WindowSelect V) :
    Except DbError (PlanNode V) := do
  let base ← buildWindow plan s
  buildSelect num base s.toSelect

/-! ## 4. What is wanted -/

/-- Where a row of the result comes from: a row of the input, or a group with the grouping columns
that are present in it. -/
inductive Origin (V : Type) where
  | row (r : Row V)
  | group (present : Option (List String)) (rows : List (Row V))

/-- A grouping column is present; without grouping sets all of them are. -/
def isPresent (present : Option (List String)) (c : String) : Bool :=
  match present with
  | none => true
  | some l => c ∈ l

variable [DecidableEq V]

/-- The value of an item at an origin, on an input with the columns `cols`. -/
def itemAt (S : Scalars V) (num : Nat → V) (cols : List String) (o : Origin V)
    (i : SelectItem V) : Cell V :=
  match o, i.value with
  | .row r, .expr e => e.value S cols r
  | .group present rows, .expr e =>
    if isPresent present (dimName (e, i.name)) then rows.head?.bind (e.value S cols) else none
  | .group _ rows, .agg a => aggCell S cols rows (a, i.name)
  | .group present _, .grouping cs => some (num (groupingValue (present.getD []) cs))
  | _, _ => none

/-- The groups of the rows by the values of expressions; without expressions all rows are one. -/
def partitionBy (S : Scalars V) (df : Frame V) (es : List (Expr V)) : List (List (Row V)) :=
  if es.isEmpty then [df.rows]
  else
    let key (r : Row V) : Key V := es.map fun e => e.value S df.columns r
    (df.rows.map key).dedup.map fun k => df.rows.filter fun r => key r = k

/-- The origins of the rows of a SELECT. -/
def origins (S : Scalars V) (df : Frame V) (s : Select V) : List (Origin V) :=
  match s.groupingSets with
  | some sets => sets.flatMap fun set =>
    (partitionBy S df ((presentKeys s.items set).map Prod.fst)).map (.group (some set))
  | none =>
    if s.aggregated then (partitionBy S df s.groupBy).map (.group none)
    else df.rows.map .row

omit [DecidableEq V] in
/-- The cells of a window function over the rows of a frame. -/
def windowCells (S : Scalars V) (df : Frame V) (w : WindowFunc V) : List (Cell V) :=
  w.compute (df.rows.map fun r => w.args.map (Expr.value S df.columns r))

omit [DecidableEq V] in
/-- A frame with a column of cells, one for each row in order. -/
def setColumn (f : Frame V) (name : String) (cells : List (Cell V)) : Frame V :=
  .ofRows (addColumn f.columns name)
    (List.zipWith (fun (r : Row V) c n => if n = name then c else r n) f.rows cells)

omit [DecidableEq V] in
/-- The rows of FROM and WHERE with their windows beside them: every window looks at these rows, and
QUALIFY leaves those on which it is true. -/
def WindowSelect.source (S : Scalars V) (df : Frame V) (s : WindowSelect V) : Frame V :=
  let f := s.funcs.foldl (fun f w => setColumn f w.2 (windowCells S df w.1)) df
  match s.pred with
  | none => f
  | some e => f.filter fun r => S.holds (e.value S f.columns r)

/-- **The result matches the select list.**  Its columns are the items' names in order, told apart by
suffixes, and they are different.  Its rows, in their order, hold the items of some of the origins in
their places, no origin twice; all origins are there unless HAVING or LIMIT drops them, and DISTINCT
leaves a row like theirs. -/
structure Matches (S : Scalars V) (num : Nat → V) (df : Frame V) (s : Select V) (f : Frame V) :
    Prop where
  columns : f.columns = dedupNames ∅ s.names
  nodup : f.columns.Nodup
  rows : ∃ os : List (Origin V), os.Subperm (origins S df s) ∧
    f.rows.map (keyOf f.columns) = os.map fun o => s.items.map (itemAt S num df.columns o)
  complete : s.having = none → s.limit = none →
    (s.distinct = false → f.rows.length = (origins S df s).length) ∧
    ∀ o ∈ origins S df s, ∃ r ∈ f.rows, keyOf f.columns r = s.items.map (itemAt S num df.columns o)

/-! ## 5. Where it is so -/

omit [DecidableEq V] in
/-- The group keys stand before the aggregates. -/
def KeysFirst (items : List (SelectItem V)) : Prop :=
  ∃ ks as, items = ks ++ as ∧ (∀ i ∈ ks, i.value.isAgg = false) ∧
    ∀ i ∈ as, i.value.isAgg = true

omit [DecidableEq V] in
/-- The names of the HAVING-only aggregates. -/
def Select.hvNames (s : Select V) : List String :=
  match s.having with
  | some (_, extra) => (hvAggs extra).map Prod.snd
  | none => []

omit [DecidableEq V] in
/-- The names of the list and its order survive. -/
def Arranged (s : Select V) : Prop :=
  match s.groupingSets with
  | some _ => s.names.Nodup
  | none =>
    if s.aggregated then s.hvNames = [] → s.names.Nodup ∧ KeysFirst s.items
    else (dedupNames ∅ s.names).Nodup

omit [DecidableEq V] in
/-- The names given to the group keys do not get in the way: a key named like a column of the input
is that column, and the other names change no reference of a key or an aggregate. -/
structure Captureless (cols : List String) (keys : List (Expr V × String))
    (aggs : List (AggFunc V × String)) : Prop where
  named : ∀ k ∈ keys, k.2 ∈ cols → ∃ t, k.1 = .col k.2 t ∧ resolve cols k.2 t = some k.2
  keyRefs : ∀ k ∈ keys, k.2 ∉ cols → sameRefs (workColumns cols keys) cols k.1 = true
  aggRefs : ∀ a ∈ aggs, ∀ e ∈ a.1.exprs, sameRefs (workColumns cols keys) cols e = true

omit [DecidableEq V] in
/-- The condition on a SELECT over an input with the columns `cols`. -/
def Select.Fits (cols : List String) (s : Select V) : Prop :=
  match s.groupingSets with
  | some sets => s.names.Nodup ∧
    ∀ set ∈ sets, Captureless cols (presentKeys s.items set) (aggsOf s.items)
  | none =>
    if s.aggregated then
      (s.names ++ s.hvNames).Nodup ∧ KeysFirst s.items ∧
        Captureless cols (keysOf s.items)
          (aggsOf s.items ++ hvAggs ((s.having.map Prod.snd).getD [])) ∧
        ∀ e, e ∈ s.groupBy ↔ e ∈ (keysOf s.items).map Prod.fst
    else (dedupNames ∅ s.names).Nodup

omit [DecidableEq V] in
/-- The columns of FROM and WHERE with those of the windows. -/
def WindowSelect.columns (cols : List String) (s : WindowSelect V) : List String :=
  (s.funcs.map Prod.snd).foldl addColumn cols

omit [DecidableEq V] in
/-- The columns of the windows are new, and no window reads one of them. -/
structure WindowSelect.Apart (cols : List String) (s : WindowSelect V) : Prop where
  fresh : ∀ w ∈ s.funcs, w.2 ∉ cols
  refs : ∀ w ∈ s.funcs, ∀ e ∈ w.1.args, sameRefs (s.columns cols) cols e = true

omit [DecidableEq V] in
/-- The condition on a SELECT with windows. -/
structure WindowSelect.Fits (cols : List String) (s : WindowSelect V) : Prop where
  apart : s.Apart cols
  select : s.toSelect.Fits (s.columns cols)

/-! ## 6. Cells by name and by place -/

section Places

omit [DecidableEq V]

theorem keyOf_cellOf_reverse {names : List String} {cells : List (Cell V)} (hn : names.Nodup)
    (hl : names.length = cells.length) :
    keyOf names (cellOf names.reverse cells.reverse) = cells := by
  refine keyOf_of_zip hl fun p hp => cellOf_of_mem_zip (List.nodup_reverse.mpr hn) ?_
  have hrev : (names.zip cells).reverse = names.reverse.zip cells.reverse :=
    List.reverse_zipWith hl
  rw [← hrev]
  exact List.mem_reverse.mpr hp

/-- Names that are different are added as they are. -/
theorem foldl_addColumn_append : ∀ {ns cols : List String}, (cols ++ ns).Nodup →
    ns.foldl addColumn cols = cols ++ ns
  | [], cols, _ => (List.append_nil cols).symm
  | n :: ns, cols, h => by
    have hn : n ∉ cols := fun hmem =>
      (List.nodup_append.mp h).2.2 n hmem n List.mem_cons_self rfl
    rw [List.foldl_cons, addColumn, if_neg hn, foldl_addColumn_append, List.append_assoc]
    · rfl
    · rw [List.append_assoc]
      exact h

theorem foldl_addColumn_nodup {ns : List String} (h : ns.Nodup) :
    ns.foldl addColumn [] = ns := by
  have happend : ([] ++ ns).Nodup := h
  exact foldl_addColumn_append happend

end Places

/-! ## 7. The rows of an aggregate -/

section Aggregate

variable {S : Scalars V}

omit [DecidableEq V] in
/-- A reference that is the same in a larger and a smaller scope is the same in between. -/
theorem resolve_between {L M N : List String} {n : String} {t : Option String}
    (hLM : ∀ c ∈ L, c ∈ M) (hMN : ∀ c ∈ M, c ∈ N) (h : resolve N n t = resolve L n t) :
    resolve M n t = resolve L n t := by
  cases t with
  | none =>
    rw [resolve, resolve] at h ⊢
    by_cases hL : n ∈ L
    · rw [if_pos hL, if_pos (hLM n hL)]
    · rw [if_neg hL] at h ⊢
      have hN : n ∉ N := fun hN => by rw [if_pos hN] at h; cases h
      rw [if_neg fun hM => hN (hMN n hM)]
  | some t =>
    by_cases hq : qualified t n ∈ L
    · rw [resolve, resolve, if_pos hq, if_pos (hLM _ hq)]
    · have hqN : qualified t n ∉ N := by
        intro hqN
        rw [resolve, resolve, if_pos hqN, if_neg hq] at h
        split at h
        · rename_i hn
          rw [Option.some.inj h] at hq
          exact hq hn
        · cases h
      have hqM : qualified t n ∉ M := fun hM => hqN (hMN _ hM)
      rw [resolve, resolve, if_neg hqN, if_neg hq] at h
      rw [resolve, resolve, if_neg hqM, if_neg hq]
      by_cases hL : n ∈ L
      · rw [if_pos hL, if_pos (hLM n hL)]
      · rw [if_neg hL] at h ⊢
        have hN : n ∉ N := fun hN => by rw [if_pos hN] at h; cases h
        rw [if_neg fun hM => hN (hMN n hM)]

omit [DecidableEq V] in
theorem sameRefs_between {L M N : List String} {e : Expr V} (hLM : ∀ c ∈ L, c ∈ M)
    (hMN : ∀ c ∈ M, c ∈ N) (h : sameRefs N L e = true) : sameRefs M L e = true := by
  refine List.all_eq_true.mpr fun x hx => decide_eq_true ?_
  exact resolve_between hLM hMN (of_decide_eq_true (List.all_eq_true.mp h x hx))

omit [DecidableEq V] in
theorem restrict_restrict {L M : List String} (h : ∀ c ∈ L, c ∈ M) (r : Row V) :
    restrict L (restrict M r) = restrict L r := by
  funext c
  by_cases hc : c ∈ L
  · rw [restrict_mem hc, restrict_mem hc, restrict_mem (h c hc)]
  · rw [restrict_notMem hc, restrict_notMem hc]

omit [DecidableEq V] in
theorem Cut.trans {f g k : Frame V} (h₁ : Cut f g) (h₂ : Cut g k) : Cut f k where
  columns := fun c hc => h₁.columns c (h₂.columns c hc)
  rows := by
    rw [h₂.rows, h₁.rows, List.map_map]
    exact List.map_congr_left fun r _ => restrict_restrict h₂.columns r

omit [DecidableEq V] in
/-- A frame with one more column, cut back. -/
theorem cut_withColumn {f : Frame V} {n : String} (v : Row V → Cell V) (hn : n ∉ f.columns) :
    Cut (withColumn f n v) f where
  columns := fun c hc => mem_addColumn.mpr (.inl hc)
  rows := by
    rw [withColumn, Frame.ofRows_rows, List.map_map, List.map_map]
    refine ((List.map_congr_left fun r hr => ?_).trans (List.map_id _)).symm
    funext c
    by_cases hc : c ∈ f.columns
    · have hne : c ≠ n := fun he => hn (he ▸ hc)
      simp only [Function.comp_apply, restrict_mem hc,
        restrict_mem (mem_addColumn.mpr (.inl hc)), if_neg hne, id_eq]
    · simp only [Function.comp_apply, restrict_notMem hc, id_eq, f.supported r hr c hc]

omit [DecidableEq V] in
/-- The cell of the added column. -/
theorem withColumn_cell {f : Frame V} {n : String} {v : Row V → Cell V} (hn : n ∉ f.columns)
    {w : Row V} (hw : w ∈ (withColumn f n v).rows) : w n = v (restrict f.columns w) := by
  rw [withColumn, Frame.ofRows_rows, List.map_map] at hw
  obtain ⟨r, hr, rfl⟩ := List.mem_map.mp hw
  have hback : restrict f.columns (((restrict (addColumn f.columns n)) ∘
      fun (r : Row V) c => if c = n then v r else r c) r) = r := by
    funext c
    by_cases hc : c ∈ f.columns
    · have hne : c ≠ n := fun he => hn (he ▸ hc)
      simp only [restrict_mem hc, Function.comp_apply,
        restrict_mem (mem_addColumn.mpr (.inl hc)), if_neg hne]
    · rw [restrict_notMem hc, f.supported r hr c hc]
  rw [hback]
  simp only [Function.comp_apply, restrict_mem (mem_addColumn.mpr (.inr rfl)), if_true]

omit [DecidableEq V] in
/-- **The group keys.**  The frame with the keys is the input with more columns, and a new key was
evaluated in a scope between the two. -/
theorem withKeys_spec : ∀ {keys : List (Expr V × String)} {f work : Frame V},
    withKeys S f keys = .ok work → (keys.map Prod.snd).Nodup →
      Cut work f ∧ ∀ k ∈ keys, k.2 ∉ f.columns → ∃ L, (∀ c ∈ f.columns, c ∈ L) ∧
        (∀ c ∈ L, c ∈ work.columns) ∧ ∀ w ∈ work.rows, w k.2 = k.1.value S L (restrict L w)
  | [], f, work, h, _ => by
    cases h
    exact ⟨Cut.refl f, fun k hk => by cases hk⟩
  | (e, n) :: keys, f, work, h, hnodup => by
    obtain ⟨hnot, hnodup⟩ := List.nodup_cons.mp hnodup
    unfold withKeys at h
    split at h
    · rename_i hn
      obtain ⟨hcut, hcells⟩ := withKeys_spec h hnodup
      refine ⟨hcut, fun k hk hout => ?_⟩
      rcases List.mem_cons.mp hk with rfl | hk
      · exact absurd hn hout
      · exact hcells k hk hout
    · rename_i hn
      obtain ⟨_, -, h⟩ := bind_eq_ok.mp h
      obtain ⟨hcut, hcells⟩ := withKeys_spec h hnodup
      have hone := cut_withColumn (e.value S f.columns) hn
      refine ⟨hcut.trans hone, fun k hk hout => ?_⟩
      rcases List.mem_cons.mp hk with rfl | hk
      · refine ⟨f.columns, fun _ hc => hc, (hcut.trans hone).columns, fun w hw => ?_⟩
        have hmem : restrict (withColumn f n (e.value S f.columns)).columns w ∈
            (withColumn f n (e.value S f.columns)).rows := by
          rw [hcut.rows]
          exact List.mem_map.mpr ⟨w, hw, rfl⟩
        have hcell := withColumn_cell hn hmem
        have hadded : n ∈ (withColumn f n (e.value S f.columns)).columns :=
          mem_addColumn.mpr (.inr rfl)
        rw [restrict_mem hadded, restrict_restrict hone.columns] at hcell
        exact hcell
      · have hout' : k.2 ∉ (withColumn f n (e.value S f.columns)).columns := by
          intro hmem
          rcases mem_addColumn.mp hmem with hmem | hmem
          · exact hout hmem
          · exact hnot (List.mem_map.mpr ⟨k, hk, hmem⟩)
        obtain ⟨L, hfL, hL, hw⟩ := hcells k hk hout'
        exact ⟨L, fun c hc => hfL c (hone.columns c hc), hL, hw⟩

variable {df : Frame V} {keys : List (Expr V × String)} {aggs : List (AggFunc V × String)}

omit [DecidableEq V] in
/-- The cells under the names of the keys are the values of the keys on the input. -/
theorem keyOf_work {work : Frame V} (hc : Captureless df.columns keys aggs)
    (hn : (keys.map Prod.snd).Nodup) (h : withKeys S df keys = .ok work) {w : Row V}
    (hw : w ∈ work.rows) : keyOf (keys.map Prod.snd) w =
      keys.map fun k => k.1.value S df.columns (restrict df.columns w) := by
  obtain ⟨-, hcells⟩ := withKeys_spec h hn
  rw [keyOf, List.map_map]
  refine List.map_congr_left fun k hk => ?_
  change w k.2 = k.1.value S df.columns (restrict df.columns w)
  by_cases hin : k.2 ∈ df.columns
  · obtain ⟨t, he, hres⟩ := hc.named k hk hin
    rw [he, Expr.value, hres, Option.bind_some, restrict_mem hin]
  · obtain ⟨L, hL, hwork, hcell⟩ := hcells k hk hin
    have hrefs : sameRefs (workColumns df.columns keys) df.columns k.1 = true :=
      hc.keyRefs k hk hin
    rw [← withKeys_columns h] at hrefs
    rw [hcell w hw, ← value_cut (sameRefs_between hL hwork hrefs), restrict_restrict hL]

/-- A group of the frame with the keys is a group of the input. -/
theorem group_cut {work : Frame V} (hc : Captureless df.columns keys aggs)
    (hn : (keys.map Prod.snd).Nodup) (h : withKeys S df keys = .ok work) (k : Key V) :
    (df.rows.filter fun r => (keys.map fun x => x.1.value S df.columns r) = k) =
      (work.rows.filter fun w => keyOf (keys.map Prod.snd) w = k).map (restrict df.columns) := by
  obtain ⟨hcut, -⟩ := withKeys_spec h hn
  rw [hcut.rows, List.filter_map]
  refine congrArg _ (List.filter_congr fun w hw => ?_)
  rw [Function.comp_apply, keyOf_work hc hn h hw]

omit [DecidableEq V] in
/-- The cells under the names of the keys and of the aggregates. -/
theorem cells_of_keyOf {r : Row V} {kc : Expr V × String → Cell V}
    {ac : AggFunc V × String → Cell V}
    (h : keyOf (aggNames keys aggs) r = keys.map kc ++ aggs.map ac) :
    (∀ k ∈ keys, r k.2 = kc k) ∧ ∀ a ∈ aggs, r a.2 = ac a := by
  rw [keyOf, aggNames, List.map_append, List.map_map, List.map_map] at h
  obtain ⟨hk, ha⟩ := List.append_inj h (by simp)
  exact ⟨List.map_inj_left.mp hk, List.map_inj_left.mp ha⟩

/-- The cells of an aggregate on a group. -/
def groupCells (S : Scalars V) (cols : List String) (keys : List (Expr V × String))
    (aggs : List (AggFunc V × String)) (rows : List (Row V)) : List (Cell V) :=
  (keys.map fun k => rows.head?.bind (k.1.value S cols)) ++ aggs.map (aggCell S cols rows)

omit [DecidableEq V] in
/-- The groups by the keys on the input are those on the frame with the keys. -/
theorem keys_work {work : Frame V} (hc : Captureless df.columns keys aggs)
    (hn : (keys.map Prod.snd).Nodup) (h : withKeys S df keys = .ok work) :
    work.rows.map (keyOf (keys.map Prod.snd)) =
      df.rows.map fun r => keys.map fun k => k.1.value S df.columns r := by
  obtain ⟨hcut, -⟩ := withKeys_spec h hn
  rw [hcut.rows, List.map_map]
  exact List.map_congr_left fun w hw => keyOf_work hc hn h hw

/-- The first row of a group has the key of the group. -/
theorem head_key {key : Row V → Key V} {rows : List (Row V)} {k : Key V} (hk : k ∈ rows.map key) :
    ∃ r₀, (rows.filter fun r => key r = k).head? = some r₀ ∧ key r₀ = k := by
  obtain ⟨r, hr, rfl⟩ := List.mem_map.mp hk
  cases hhead : rows.filter fun r' => key r' = key r with
  | nil =>
    have hin : r ∈ rows.filter fun r' => key r' = key r :=
      List.mem_filter.mpr ⟨hr, decide_eq_true rfl⟩
    rw [hhead] at hin
    cases hin
  | cons r₀ rest =>
    have hin : r₀ ∈ rows.filter fun r' => key r' = key r := by
      rw [hhead]
      exact List.mem_cons_self
    exact ⟨r₀, rfl, of_decide_eq_true (List.mem_filter.mp hin).2⟩

/-- **The rows of an aggregate**: one for each group of the input, in order, with the values of the
keys and the aggregates on it. -/
theorem aggregate_list {g : Frame V} (hn : (aggNames keys aggs).Nodup)
    (hc : Captureless df.columns keys aggs) (h : aggregateFrame S df keys aggs = .ok g) :
    (keys ≠ [] ∨ aggs ≠ [] → g.columns = aggNames keys aggs) ∧ ∃ row : List (Row V) → Row V,
      g.rows = (partitionBy S df (keys.map Prod.fst)).map row ∧
      ∀ rows, keyOf (aggNames keys aggs) (row rows) =
        groupCells S df.columns keys aggs rows := by
  obtain ⟨work, hw, -, rfl⟩ := aggregateFrame_ok.mp h
  have hkn : (keys.map Prod.snd).Nodup := (List.nodup_append.mp hn).1
  have hcols : aggColumns keys aggs = aggNames keys aggs := foldl_addColumn_nodup hn
  cases keys with
  | nil =>
    simp only [List.isEmpty_nil, if_true, scalarGlobalAgg]
    cases aggs with
    | nil => exact ⟨fun h => by simp at h, fun _ => restrict ["_g_"] fun _ => some S.zero, rfl, fun _ => rfl⟩
    | cons a as =>
      simp only [List.isEmpty_cons, Bool.false_eq_true, if_false]
      refine ⟨fun _ => hcols, fun rows => restrict (aggColumns [] (a :: as))
        (cellOf ((a :: as).map Prod.snd).reverse
          ((a :: as).map (aggCell S df.columns rows)).reverse), rfl, fun rows => ?_⟩
      rw [hcols, keyOf_restrict fun _ hmem => hmem]
      exact keyOf_cellOf_reverse hn (by simp [aggNames])
  | cons k ks =>
    simp only [List.isEmpty_cons, Bool.false_eq_true, if_false, fusedAgg]
    refine ⟨fun _ => hcols, fun rows => restrict (aggColumns (k :: ks) aggs)
      (cellOf (aggNames (k :: ks) aggs) (groupCells S df.columns (k :: ks) aggs rows)),
      ?_, fun rows => ?_⟩
    · simp only [partitionBy, List.map_cons, List.isEmpty_cons, Bool.false_eq_true, if_false,
        List.map_map, Frame.ofRows_rows]
      have hkeys := keys_work hc hkn hw
      simp only [List.map_cons] at hkeys
      rw [hkeys]
      simp only [Function.comp_def]
      refine List.map_congr_left fun key hkey => ?_
      have hgroup := group_cut hc hkn hw key
      simp only [List.map_cons] at hgroup
      obtain ⟨r₀, hr₀, hkey₀⟩ := head_key (List.mem_dedup.mp hkey)
      refine congrArg (fun cells => restrict _ (cellOf _ cells)) (congrArg₂ _ ?_ ?_)
      · rw [hr₀]
        exact hkey₀.symm
      · refine List.map_congr_left fun a ha => ?_
        rw [hgroup]
        refine (aggCell_cut (fun e he => ?_) _).symm
        rw [withKeys_columns hw]
        exact hc.aggRefs a ha e he
    · rw [hcols, keyOf_restrict fun _ hmem => hmem]
      exact keyOf_cellOf hn (by simp [aggNames, groupCells])

end Aggregate

/-! ## 8. Names -/

section Names

omit [DecidableEq V]

theorem length_dedupNames : ∀ (seen : Dict String Nat) (ns : List String),
    (dedupNames seen ns).length = ns.length
  | _, [] => rfl
  | seen, n :: ns => by
    unfold dedupNames
    split
    · rw [List.length_cons, length_dedupNames, List.length_cons]
    · rw [List.length_cons, length_dedupNames, List.length_cons]

/-- Different names stay as they are. -/
theorem dedupNames_of_nodup : ∀ {ns : List String} {seen : Dict String Nat}, ns.Nodup →
    (∀ n ∈ ns, seen.get? n = none) → dedupNames seen ns = ns
  | [], _, _, _ => rfl
  | n :: ns, seen, hn, hseen => by
    obtain ⟨hnot, hn⟩ := List.nodup_cons.mp hn
    have hrest : ∀ m ∈ ns, (seen.set n 0).get? m = none := fun m hm => by
      rw [Dict.get?_set, if_neg (by rintro rfl; exact hnot hm)]
      exact hseen m (List.mem_cons_of_mem _ hm)
    rw [dedupNames, hseen n List.mem_cons_self]
    exact congrArg _ (dedupNames_of_nodup hn hrest)

theorem dedupNames_nodup {ns : List String} (h : ns.Nodup) : dedupNames ∅ ns = ns :=
  dedupNames_of_nodup h fun _ _ => rfl

/-- Columns that are as many as the names have different names. -/
theorem nodup_of_length {ns : List String} (h : (ns.foldl addColumn []).length = ns.length) :
    ns.Nodup := by
  have hperm : (ns.foldl addColumn []).Perm ns.dedup := by
    rw [List.perm_ext_iff_of_nodup (nodup_foldl_addColumn List.nodup_nil) (List.nodup_dedup ns)]
    intro c
    rw [mem_foldl_addColumn, List.mem_dedup]
    simp
  rw [← List.dedup_eq_self]
  exact (List.dedup_sublist ns).eq_of_length (hperm.length_eq ▸ h)

theorem map_fst_dedupOutputNames (items : List (Expr V × String)) :
    (dedupOutputNames items).map Prod.fst = items.map Prod.fst :=
  List.map_fst_zip (by rw [length_dedupNames, List.length_map, List.length_map])

theorem map_snd_dedupOutputNames (items : List (Expr V × String)) :
    (dedupOutputNames items).map Prod.snd = dedupNames ∅ (items.map Prod.snd) :=
  List.map_snd_zip (by rw [length_dedupNames, List.length_map, List.length_map])

/-- The keys of a list without aggregates are its items. -/
theorem keysOf_map {β : Type} {f : Expr V × String → β} {g : SelectItem V → β} :
    ∀ {items : List (SelectItem V)}, (∀ i ∈ items, i.value.isAgg = false) →
      (∀ i ∈ items, ∀ e, i.value = .expr e → f (e, i.name) = g i) →
        (keysOf items).map f = items.map g
  | [], _, _ => rfl
  | i :: items, hall, h => by
    have hrest := keysOf_map (fun j hj => hall j (List.mem_cons_of_mem _ hj))
      fun j hj => h j (List.mem_cons_of_mem _ hj)
    have hi := hall i List.mem_cons_self
    cases hv : i.value with
    | expr e =>
      have hk : keysOf (i :: items) = (e, i.name) :: keysOf items := by
        rw [keysOf, List.filterMap_cons, hv]
        rfl
      rw [hk, List.map_cons, List.map_cons, h i List.mem_cons_self e hv, hrest]
    | agg a =>
      rw [hv] at hi
      cases hi
    | grouping cs =>
      rw [hv] at hi
      cases hi

/-- The aggregates of a list of aggregates are its items. -/
theorem aggsOf_map {β : Type} {f : AggFunc V × String → β} {g : SelectItem V → β} :
    ∀ {items : List (SelectItem V)},
      (∀ i ∈ items, i.value.isAgg = true ∧ i.value.isGrouping = false) →
      (∀ i ∈ items, ∀ a, i.value = .agg a → f (a, i.name) = g i) →
        (aggsOf items).map f = items.map g
  | [], _, _ => rfl
  | i :: items, hall, h => by
    have hrest := aggsOf_map (fun j hj => hall j (List.mem_cons_of_mem _ hj))
      fun j hj => h j (List.mem_cons_of_mem _ hj)
    have hi := hall i List.mem_cons_self
    cases hv : i.value with
    | agg a =>
      have hk : aggsOf (i :: items) = (a, i.name) :: aggsOf items := by
        rw [aggsOf, List.filterMap_cons, hv]
        rfl
      rw [hk, List.map_cons, List.map_cons, h i List.mem_cons_self a hv, hrest]
    | expr e =>
      rw [hv] at hi
      cases hi.1
    | grouping cs =>
      rw [hv] at hi
      cases hi.2

theorem keysOf_eq_nil {items : List (SelectItem V)} (h : ∀ i ∈ items, i.value.isAgg = true) :
    keysOf items = [] := by
  refine List.filterMap_eq_nil_iff.mpr fun i hi => ?_
  cases hv : i.value with
  | expr e =>
    have hagg := h i hi
    rw [hv] at hagg
    cases hagg
  | agg a => rfl
  | grouping cs => rfl

theorem aggsOf_eq_nil {items : List (SelectItem V)} (h : ∀ i ∈ items, i.value.isAgg = false) :
    aggsOf items = [] := by
  refine List.filterMap_eq_nil_iff.mpr fun i hi => ?_
  cases hv : i.value with
  | expr e => rfl
  | agg a =>
    have hagg := h i hi
    rw [hv] at hagg
    cases hagg
  | grouping cs => rfl

theorem keysOf_append (l l' : List (SelectItem V)) : keysOf (l ++ l') = keysOf l ++ keysOf l' :=
  List.filterMap_append

theorem aggsOf_append (l l' : List (SelectItem V)) : aggsOf (l ++ l') = aggsOf l ++ aggsOf l' :=
  List.filterMap_append

end Names

/-! ## 9. The rows of the parts -/

section Parts

variable {S : Scalars V} {df : Frame V}

omit [DecidableEq V] in
/-- The cell of a projected row under a name that is not repeated. -/
theorem itemCell_of_mem {cols : List String} {items : List (Expr V × String)}
    {i : Expr V × String} (hn : (items.map Prod.snd).Nodup) (hi : i ∈ items) (r : Row V) :
    itemCell S cols items r i.2 = i.1.value S cols r := by
  unfold itemCell
  cases hfind : items.reverse.find? fun j => j.2 = i.2 with
  | none =>
    have hnot := List.find?_eq_none.mp hfind i (List.mem_reverse.mpr hi)
    exact absurd (decide_eq_true rfl) hnot
  | some j =>
    have hj : j ∈ items := List.mem_reverse.mp (List.mem_of_find?_eq_some hfind)
    have hname : j.2 = i.2 := by simpa using List.find?_some hfind
    rw [List.inj_on_of_nodup_map hn hj hi hname]

omit [DecidableEq V] in
/-- The rows of a projection under different names, in order. -/
theorem project_list {g : Frame V} {items : List (Expr V × String)}
    (hn : (items.map Prod.snd).Nodup) (h : projectFrame S df items = .ok g) :
    g.columns = items.map Prod.snd ∧ g.rows.map (keyOf g.columns) =
      df.rows.map fun r => items.map fun i => i.1.value S df.columns r := by
  obtain ⟨-, rfl⟩ := projectFrame_ok.mp h
  have hcols : itemColumns items = items.map Prod.snd := foldl_addColumn_nodup hn
  refine ⟨hcols, ?_⟩
  rw [Frame.ofRows_rows, List.map_map, List.map_map]
  refine List.map_congr_left fun r hr => ?_
  change keyOf (itemColumns items) (restrict (itemColumns items) (itemCell S df.columns items r)) = _
  rw [keyOf_restrict fun _ hmem => hmem, hcols, keyOf, List.map_map]
  exact List.map_congr_left fun i hi => itemCell_of_mem hn hi r

/-- A part of the rows is all of them, or those that agree with one row. -/
theorem mem_partitionBy {es : List (Expr V)} {rows : List (Row V)} :
    rows ∈ partitionBy S df es ↔ (es = [] ∧ rows = df.rows) ∨ (es ≠ [] ∧ ∃ r₀ ∈ df.rows,
      rows = df.rows.filter fun r => es.map (fun e => e.value S df.columns r) =
        es.map fun e => e.value S df.columns r₀) := by
  cases es with
  | nil => simp [partitionBy]
  | cons e es =>
    simp only [partitionBy, List.isEmpty_cons, Bool.false_eq_true, if_false, List.mem_map,
      List.mem_dedup, reduceCtorEq, false_and, false_or, ne_eq, not_false_eq_true, true_and]
    constructor
    · rintro ⟨k, ⟨r₀, hr₀, rfl⟩, rfl⟩
      exact ⟨r₀, hr₀, rfl⟩
    · rintro ⟨r₀, hr₀, rfl⟩
      exact ⟨_, ⟨r₀, hr₀, rfl⟩, rfl⟩

/-- The parts depend on which expressions there are, not on their order. -/
theorem partitionBy_congr {es es' : List (Expr V)} (h : ∀ e, e ∈ es ↔ e ∈ es')
    {rows : List (Row V)} (hrows : rows ∈ partitionBy S df es) : rows ∈ partitionBy S df es' := by
  rw [mem_partitionBy] at hrows ⊢
  rcases hrows with ⟨rfl, hrows⟩ | ⟨hne, r₀, hr₀, hrows⟩
  · have hnil : es' = [] :=
      List.eq_nil_iff_forall_not_mem.mpr fun e he => List.not_mem_nil ((h e).mpr he)
    exact .inl ⟨hnil, hrows⟩
  · refine .inr ⟨?_, r₀, hr₀, ?_⟩
    · rintro rfl
      exact hne (List.eq_nil_iff_forall_not_mem.mpr fun e he => List.not_mem_nil ((h e).mp he))
    · rw [hrows]
      refine List.filter_congr fun r _ => decide_eq_decide.mpr ?_
      rw [List.map_inj_left, List.map_inj_left]
      exact forall_congr' fun e => imp_congr_left (h e)

/-- No part occurs twice. -/
theorem partitionBy_nodup (es : List (Expr V)) : (partitionBy S df es).Nodup := by
  unfold partitionBy
  split
  · exact List.nodup_singleton _
  · refine (List.nodup_dedup _).map_on fun k hk k' _ hsame => ?_
    -- the first row of a part has its key
    obtain ⟨r, hr, rfl⟩ := List.mem_map.mp (List.mem_dedup.mp hk)
    have hmem : r ∈ df.rows.filter fun w => (es.map fun e => e.value S df.columns w) =
        es.map fun e => e.value S df.columns r := List.mem_filter.mpr ⟨hr, decide_eq_true rfl⟩
    rw [hsame] at hmem
    exact of_decide_eq_true (List.mem_filter.mp hmem).2

/-- The same expressions in another order give the same parts in another order. -/
theorem partitionBy_perm {es es' : List (Expr V)} (h : ∀ e, e ∈ es ↔ e ∈ es') :
    (partitionBy S df es).Perm (partitionBy S df es') :=
  (List.perm_ext_iff_of_nodup (partitionBy_nodup es) (partitionBy_nodup es')).mpr fun _ =>
    ⟨partitionBy_congr h, partitionBy_congr fun e => (h e).symm⟩

end Parts

/-! ## 10. The items under their names -/

/-- The frame has the names as its columns, and its rows show the items of some of the origins, no
origin twice; where `all` holds, of all of them. -/
structure Shows (S : Scalars V) (num : Nat → V) (cols : List String) (items : List (SelectItem V))
    (names : List String) (os : List (Origin V)) (all : Prop) (f : Frame V) : Prop where
  columns : f.columns = names
  rows : ∃ os' : List (Origin V), os'.Subperm os ∧
    f.rows.map (keyOf names) = os'.map fun o => items.map (itemAt S num cols o)
  full : all → f.rows.length = os.length

/-- The frame has the names as its columns, and its rows show the items of the origins, in order. -/
structure Lists (S : Scalars V) (num : Nat → V) (cols : List String) (items : List (SelectItem V))
    (names : List String) (os : List (Origin V)) (f : Frame V) : Prop where
  columns : f.columns = names
  rows : f.rows.map (keyOf names) = os.map fun o => items.map (itemAt S num cols o)

omit [DecidableEq V] in
/-- Some elements of a list, with what is in their places in a list of the same values. -/
theorem exists_subperm {α β γ : Type} {key : α → γ} {item : β → γ} {l l' : List α} {os : List β}
    (h : l'.Subperm l) (he : l.map key = os.map item) :
    ∃ os' : List β, os'.Subperm os ∧ l'.map key = os'.map item := by
  obtain ⟨m, hm, hsub⟩ := h
  have hmap : (m.map key).Sublist (os.map item) := he ▸ hsub.map key
  obtain ⟨os₀, hos, hkeys⟩ := List.sublist_map_iff.mp hmap
  have hpair : List.Forall₂ (fun a b => key a = item b) m os₀ := by
    rw [← List.forall₂_map_left_iff (R := fun c b => c = item b), hkeys,
      List.forall₂_map_left_iff]
    exact List.forall₂_same.mpr fun _ _ => rfl
  obtain ⟨os', hpair', hperm⟩ := List.perm_comp_forall₂ hm.symm hpair
  refine ⟨os', ⟨os₀, hperm.symm, hos⟩, ?_⟩
  have hforall := List.forall₂_map_left_iff.mpr (List.forall₂_map_right_iff.mpr hpair')
  exact List.forall₂_eq_eq_eq ▸ hforall

theorem Lists.shows {S : Scalars V} {num : Nat → V} {cols names : List String}
    {items : List (SelectItem V)} {os os' : List (Origin V)} {all : Prop} {f : Frame V}
    (h : Lists S num cols items names os f) (hp : os.Perm os') :
    Shows S num cols items names os' all f where
  columns := h.columns
  rows := ⟨os, hp.subperm, h.rows⟩
  full _ := by
    have hlen := congrArg List.length h.rows
    rw [List.length_map, List.length_map] at hlen
    rw [hlen, hp.length_eq]

section Items

omit [DecidableEq V]

variable {items : List (SelectItem V)}

theorem mem_keysOf {k : Expr V × String} :
    k ∈ keysOf items ↔ ∃ i ∈ items, i.value = .expr k.1 ∧ i.name = k.2 := by
  rw [keysOf, List.mem_filterMap]
  refine exists_congr fun i => and_congr_right fun _ => ?_
  obtain ⟨e, n⟩ := k
  cases hv : i.value <;> simp

theorem mem_aggsOf {a : AggFunc V × String} :
    a ∈ aggsOf items ↔ ∃ i ∈ items, i.value = .agg a.1 ∧ i.name = a.2 := by
  rw [aggsOf, List.mem_filterMap]
  refine exists_congr fun i => and_congr_right fun _ => ?_
  obtain ⟨e, n⟩ := a
  cases hv : i.value <;> simp

theorem nodup_names_filterMap {β : Type} {f : SelectItem V → Option (β × String)}
    (hf : ∀ i x, f i = some x → x.2 = i.name) (h : (items.map SelectItem.name).Nodup) :
    ((items.filterMap f).map Prod.snd).Nodup := by
  rw [List.Nodup, List.pairwise_map] at h ⊢
  rw [List.pairwise_filterMap]
  refine h.imp fun {i j} hne x hx y hy => ?_
  rw [hf i x hx, hf j y hy]
  exact hne

/-- The keys that are left and the aggregates have different names when the items have. -/
theorem nodup_aggNames {q : Expr V × String → Bool} (h : (items.map SelectItem.name).Nodup) :
    (aggNames ((keysOf items).filter q) (aggsOf items)).Nodup := by
  have hkeys : ((keysOf items).map Prod.snd).Nodup := by
    refine nodup_names_filterMap (fun i x hx => ?_) h
    cases hv : i.value <;> rw [hv] at hx <;> cases hx
    rfl
  have haggs : ((aggsOf items).map Prod.snd).Nodup := by
    refine nodup_names_filterMap (fun i x hx => ?_) h
    cases hv : i.value <;> rw [hv] at hx <;> cases hx
    rfl
  refine List.nodup_append.mpr
    ⟨hkeys.sublist (List.filter_sublist.map _), haggs, fun n hn m hm hnm => ?_⟩
  -- an item is a key or an aggregate, not both
  obtain ⟨k, hk, rfl⟩ := List.mem_map.mp hn
  obtain ⟨a, ha, rfl⟩ := List.mem_map.mp hm
  obtain ⟨i, hi, hiv, hin⟩ := mem_keysOf.mp (List.mem_filter.mp hk).1
  obtain ⟨j, hj, hjv, hjn⟩ := mem_aggsOf.mp ha
  have hij : i = j := List.inj_on_of_nodup_map h hi hj (by rw [hin, hjn, hnm])
  rw [hij, hjv] at hiv
  cases hiv

/-- With the keys first, the names of the keys and the aggregates are those of the items. -/
theorem aggNames_of_keysFirst (h : KeysFirst items)
    (hg : ∀ i ∈ items, i.value.isGrouping = false) :
    aggNames (keysOf items) (aggsOf items) = items.map SelectItem.name := by
  obtain ⟨ks, as, rfl, hks, has⟩ := h
  have has' : ∀ i ∈ as, i.value.isAgg = true ∧ i.value.isGrouping = false := fun i hi =>
    ⟨has i hi, hg i (List.mem_append_right _ hi)⟩
  rw [aggNames, keysOf_append, keysOf_eq_nil has, List.append_nil, aggsOf_append,
    aggsOf_eq_nil hks, List.nil_append, List.map_append,
    keysOf_map (g := SelectItem.name) hks fun i _ e _ => rfl,
    aggsOf_map (g := SelectItem.name) has' fun i _ a _ => rfl]

end Items

section Single

variable {S : Scalars V} {num : Nat → V} {df : Frame V} {items : List (SelectItem V)}

/-- The origins of the groups by some expressions. -/
def groupsBy (S : Scalars V) (df : Frame V) (es : List (Expr V)) : List (Origin V) :=
  (partitionBy S df es).map (.group none)

/-- **A single aggregate shows the items**, with more aggregates behind them. -/
theorem shows_aggregate {g : Frame V} {es : List (Expr V)} {more : List (AggFunc V × String)}
    (hne : items ≠ []) (hn : (items.map SelectItem.name ++ more.map Prod.snd).Nodup)
    (hk : KeysFirst items)
    (hg : ∀ i ∈ items, i.value.isGrouping = false)
    (hc : Captureless df.columns (keysOf items) (aggsOf items ++ more))
    (hes : ∀ e, e ∈ es ↔ e ∈ (keysOf items).map Prod.fst)
    (h : aggregateFrame S df (keysOf items) (aggsOf items ++ more) = .ok g) :
    g.columns = items.map SelectItem.name ++ more.map Prod.snd ∧
      ∃ os : List (Origin V), os.Perm (groupsBy S df es) ∧
        g.rows.map (keyOf (items.map SelectItem.name)) =
          os.map fun o => items.map (itemAt S num df.columns o) := by
  have hnames : aggNames (keysOf items) (aggsOf items ++ more) =
      items.map SelectItem.name ++ more.map Prod.snd := by
    rw [← aggNames_of_keysFirst hk hg, aggNames, aggNames, List.map_append, List.append_assoc]
  have hsome : keysOf items ≠ [] ∨ aggsOf items ++ more ≠ [] := by
    by_contra hnone
    obtain ⟨hkeys, haggs⟩ := not_or.mp hnone
    rw [not_not.mp hkeys, not_not.mp haggs] at hnames
    exact hne (List.map_eq_nil_iff.mp (List.append_eq_nil_iff.mp hnames.symm).1)
  obtain ⟨hcols, row, hrows, hcells⟩ := aggregate_list (hnames ▸ hn) hc h
  refine ⟨(hcols hsome).trans hnames, groupsBy S df ((keysOf items).map Prod.fst),
    (partitionBy_perm fun e => (hes e).symm).map _, ?_⟩
  rw [hrows, groupsBy, List.map_map, List.map_map]
  refine List.map_congr_left fun rows _ => ?_
  obtain ⟨hkeys, haggs⟩ := cells_of_keyOf (hcells rows)
  rw [Function.comp_apply, keyOf, List.map_map]
  refine List.map_congr_left fun i hi => ?_
  change row rows i.name = itemAt S num df.columns (.group none rows) i
  cases hv : i.value with
  | expr e =>
    simp only [itemAt, hv, isPresent, if_true]
    exact hkeys (e, i.name) (mem_keysOf.mpr ⟨i, hi, hv, rfl⟩)
  | agg a =>
    simp only [itemAt, hv]
    exact haggs (a, i.name) (List.mem_append_left _ (mem_aggsOf.mpr ⟨i, hi, hv, rfl⟩))
  | grouping cs =>
    have hno := hg i hi
    rw [hv] at hno
    cases hno

omit [DecidableEq V] in
theorem dedupOutputNames_nodup {l : List (Expr V × String)} (h : (l.map Prod.snd).Nodup) :
    dedupOutputNames l = l := by
  rw [dedupOutputNames, dedupNames_nodup h]
  exact (List.zip_of_prod rfl rfl).symm

omit [DecidableEq V] in
theorem map_snd_colItems (names : List String) :
    (colItems names : List (Expr V × String)).map Prod.snd = names := by
  rw [colItems, List.map_map]
  exact List.map_id _

omit [DecidableEq V] in
/-- Columns projected under their own names keep their cells. -/
theorem shown_colItems {g f : Frame V} {names : List String} (hn : names.Nodup)
    (hsub : ∀ n ∈ names, n ∈ g.columns)
    (h : projectFrame S g (dedupOutputNames (colItems names)) = .ok f) :
    f.columns = names ∧ f.rows.map (keyOf names) = g.rows.map (keyOf names) := by
  have hsnd : ((colItems names : List (Expr V × String)).map Prod.snd).Nodup := by
    rw [map_snd_colItems]
    exact hn
  rw [dedupOutputNames_nodup hsnd] at h
  obtain ⟨hcols, hrows⟩ := project_list hsnd h
  rw [map_snd_colItems] at hcols
  rw [hcols] at hrows
  refine ⟨hcols, hrows.trans (List.map_congr_left fun r₀ _ => ?_)⟩
  rw [colItems, List.map_map]
  refine List.map_congr_left fun n hmem => ?_
  change Expr.value S g.columns r₀ (.col n none) = r₀ n
  rw [Expr.value, resolve, if_pos (hsub n hmem), Option.bind_some]

end Single

/-! ## 11. The three ways of a SELECT -/

section Output

variable {S : Scalars V} {num : Nat → V} {D : Database V} {plan p : PlanNode V} {df f : Frame V}
  {s : Select V}

/-- Without aggregates the projection shows the items. -/
theorem lists_plain (hs : s.groupingSets = none) (ha : s.aggregated = false)
    (hn : (dedupNames ∅ s.names).Nodup)
    (hf : projectFrame S df (dedupOutputNames (keysOf s.items)) = .ok f) :
    Lists S num df.columns s.items (dedupNames ∅ s.names) (origins S df s) f := by
  have hall : ∀ i ∈ s.items, i.value.isAgg = false := by
    intro i hi
    rw [Select.aggregated, Bool.or_eq_false_iff, Bool.or_eq_false_iff] at ha
    exact Bool.eq_false_iff.mpr fun hagg => List.any_eq_false.mp ha.1.2 i hi hagg
  have hnames : (keysOf s.items).map Prod.snd = s.names := keysOf_map hall fun i _ e _ => rfl
  have hsnd : (dedupOutputNames (keysOf s.items)).map Prod.snd = dedupNames ∅ s.names := by
    rw [map_snd_dedupOutputNames, hnames]
  obtain ⟨hcols, hrows⟩ := project_list (hsnd ▸ hn) hf
  rw [hsnd] at hcols
  have ho : origins S df s = df.rows.map .row := by
    rw [origins, hs, ha]
    rfl
  refine ⟨hcols, ?_⟩
  rw [← hcols, hrows, ho, List.map_map]
  refine List.map_congr_left fun r₀ _ => ?_
  have hcells : ((dedupOutputNames (keysOf s.items)).map fun i => i.1.value S df.columns r₀) =
      ((dedupOutputNames (keysOf s.items)).map Prod.fst).map fun e =>
        e.value S df.columns r₀ := by
    rw [List.map_map]
    rfl
  rw [hcells, map_fst_dedupOutputNames, List.map_map]
  exact keysOf_map hall fun i _ e he => by simp only [Function.comp_apply, itemAt, he]

/-- An aggregate under HAVING shows the items of the groups that HAVING leaves. -/
theorem shows_having {items : List (SelectItem V)} {es : List (Expr V)} {pred : Expr V}
    {extra : List (AggFunc V)} {all : Prop} (hno : ¬ all) (hne : items ≠ [])
    (hn : (items.map SelectItem.name ++ (hvAggs extra).map Prod.snd).Nodup) (hk : KeysFirst items)
    (hg : ∀ i ∈ items, i.value.isGrouping = false)
    (hc : Captureless df.columns (keysOf items) (aggsOf items ++ hvAggs extra))
    (hes : ∀ e, e ∈ es ↔ e ∈ (keysOf items).map Prod.fst)
    (hp : buildHaving plan (keysOf items) (aggsOf items) pred extra = .ok p)
    (hdf : exec S D plan = .ok df) (hf : exec S D p = .ok f) :
    Shows S num df.columns items (items.map SelectItem.name) (groupsBy S df es) all f := by
  unfold buildHaving at hp
  split at hp
  · cases hp
  · cases hp
    -- the frame under the projection has the HAVING-only aggregates behind the items
    have hbelow : ∀ {g}, exec S D (.filter (.aggregate plan (keysOf items)
        (aggsOf items ++ hvAggs extra)) pred) = .ok g →
          g.columns = items.map SelectItem.name ++ (hvAggs extra).map Prod.snd ∧
          ∃ os : List (Origin V), os.Subperm (groupsBy S df es) ∧
            g.rows.map (keyOf (items.map SelectItem.name)) =
              os.map fun o => items.map (itemAt S num df.columns o) := by
      intro g hg'
      obtain ⟨a, ha, hg'⟩ := bind_eq_ok.mp hg'
      obtain ⟨df', hdf', ha⟩ := bind_eq_ok.mp ha
      cases hdf'.symm.trans hdf
      obtain ⟨hcols, os, hos, hrows⟩ := shows_aggregate hne hn hk hg hc hes ha
      obtain ⟨-, rfl⟩ := filterFrame_ok.mp hg'
      obtain ⟨os', hos', hrows'⟩ := exists_subperm List.filter_sublist.subperm hrows
      exact ⟨hcols, os', hos'.trans hos.subperm, hrows'⟩
    cases hx : extra.isEmpty with
    | true =>
      rw [hx, if_pos rfl] at hf
      obtain ⟨hcols, hrows⟩ := hbelow hf
      rw [List.isEmpty_iff.mp hx] at hcols
      exact ⟨hcols.trans (List.append_nil _), hrows, fun h => absurd h hno⟩
    | false =>
      rw [hx, if_neg Bool.false_ne_true, aggNames_of_keysFirst hk hg] at hf
      obtain ⟨g, hg', hf⟩ := bind_eq_ok.mp hf
      obtain ⟨hcols, os, hos, hrows⟩ := hbelow hg'
      have hsub : ∀ n ∈ items.map SelectItem.name, n ∈ g.columns := fun n hmem => by
        rw [hcols]
        exact List.mem_append_left _ hmem
      obtain ⟨hfcols, hfrows⟩ := shown_colItems (List.nodup_append.mp hn).1 hsub hf
      exact ⟨hfcols, ⟨os, hos, hfrows.trans hrows⟩, fun h => absurd h hno⟩

omit [DecidableEq V] in
theorem Select.hvNames_eq (s : Select V) :
    s.hvNames = (hvAggs ((s.having.map Prod.snd).getD [])).map Prod.snd := by
  unfold Select.hvNames
  cases s.having <;> rfl

/-- The single aggregate shows the items. -/
theorem shows_single (hs : s.groupingSets = none) (ha : s.aggregated = true)
    (hfit : s.Fits df.columns) (hp : buildAggregate plan s = .ok p)
    (hdf : exec S D plan = .ok df) (hf : exec S D p = .ok f) :
    Shows S num df.columns s.items s.names (origins S df s) (s.having = none) f := by
  rw [Select.Fits, hs, if_pos ha] at hfit
  obtain ⟨hn, hk, hc, hes⟩ := hfit
  have ho : origins S df s = groupsBy S df s.groupBy := by
    rw [origins, hs, if_pos ha]
    rfl
  rw [ho]
  unfold buildAggregate at hp
  split at hp
  · cases hp
  · rename_i hng
    have hg : ∀ i ∈ s.items, i.value.isGrouping = false := fun i hi =>
      Bool.eq_false_iff.mpr fun hgr => hng (List.any_eq_true.mpr ⟨i, hi, hgr⟩)
    cases hh : s.having with
    | none =>
      rw [hh] at hp
      cases hp
      rw [Select.hvNames_eq, hh] at hn
      rw [hh] at hc
      have hnil : aggsOf s.items ++ hvAggs ((Option.map Prod.snd
          (none : Option (Expr V × List (AggFunc V)))).getD []) = aggsOf s.items :=
        List.append_nil _
      obtain ⟨df', hdf', hf⟩ := bind_eq_ok.mp hf
      cases hdf'.symm.trans hdf
      rw [← hnil] at hf
      obtain ⟨hcols, os, hos, hrows⟩ := shows_aggregate s.nonempty hn hk hg hc hes hf
      exact Lists.shows ⟨hcols.trans (List.append_nil _), hrows⟩ hos
    | some x =>
      obtain ⟨pred, extra⟩ := x
      rw [hh] at hp hc
      dsimp only at hp
      split at hp
      · cases hp
      · rw [Select.hvNames_eq, hh] at hn
        exact shows_having (Option.some_ne_none _) s.nonempty hn hk hg hc hes hp hdf hf

omit [DecidableEq V] in
theorem map_snd_branchItem (num : Nat → V) (set : List String) (items : List (SelectItem V)) :
    (items.map (branchItem num set)).map Prod.snd = items.map SelectItem.name := by
  rw [List.map_map]
  refine List.map_congr_left fun i _ => ?_
  rw [Function.comp_apply, branchItem]
  split <;> rfl

/-- The groups of a grouping set. -/
def setOrigins (S : Scalars V) (df : Frame V) (items : List (SelectItem V)) (set : List String) :
    List (Origin V) :=
  (partitionBy S df ((presentKeys items set).map Prod.fst)).map (.group (some set))

/-- **The branch of a grouping set** shows the items of its groups, in order. -/
theorem lists_branch {items : List (SelectItem V)} {set : List String}
    (hn : (items.map SelectItem.name).Nodup)
    (hc : Captureless df.columns (presentKeys items set) (aggsOf items))
    (hdf : exec S D plan = .ok df) (hf : exec S D (branch num plan items set) = .ok f) :
    Lists S num df.columns items (items.map SelectItem.name) (setOrigins S df items set) f := by
  obtain ⟨g, hg, hf⟩ := bind_eq_ok.mp hf
  obtain ⟨df', hdf', hg⟩ := bind_eq_ok.mp hg
  cases hdf'.symm.trans hdf
  have hsnd := map_snd_branchItem num set items
  obtain ⟨hcols, hrows⟩ := project_list (hsnd ▸ hn) hf
  rw [hsnd] at hcols
  refine ⟨hcols, ?_⟩
  obtain ⟨hgcols, row, hgrows, hcells⟩ := aggregate_list (nodup_aggNames hn) hc hg
  rw [← hcols, hrows, hgrows, setOrigins, List.map_map, List.map_map]
  refine List.map_congr_left fun rows _ => ?_
  obtain ⟨hkeys, haggs⟩ := cells_of_keyOf (hcells rows)
  rw [Function.comp_apply, Function.comp_apply, List.map_map]
  refine List.map_congr_left fun i hi => ?_
  have hcol : ∀ {n : String}, n ∈ aggNames (presentKeys items set) (aggsOf items) →
      Expr.value S g.columns (row rows) (.col n none) = row rows n := by
    intro n hmem
    have hin : n ∈ g.columns := by
      rw [hgcols ?_]
      · exact hmem
      · by_contra hnone
        obtain ⟨hk, ha⟩ := not_or.mp hnone
        have hkeys : presentKeys items set = [] := not_not.mp hk
        rw [hkeys, not_not.mp ha] at hmem
        cases hmem
    rw [Expr.value, resolve, if_pos hin, Option.bind_some]
  cases hv : i.value with
  | expr e =>
    simp only [Function.comp_apply, branchItem, itemAt, hv, isPresent, decide_eq_true_eq]
    by_cases hin : dimName (e, i.name) ∈ set
    · have hmem : (e, i.name) ∈ presentKeys items set := List.mem_filter.mpr
        ⟨mem_keysOf.mpr ⟨i, hi, hv, rfl⟩, decide_eq_true hin⟩
      rw [if_pos hin, if_pos hin, hcol (List.mem_append_left _ (List.mem_map_of_mem hmem))]
      exact hkeys (e, i.name) hmem
    · rw [if_neg hin, if_neg hin]
      rfl
  | agg a =>
    have hmem : (a, i.name) ∈ aggsOf items := mem_aggsOf.mpr ⟨i, hi, hv, rfl⟩
    simp only [Function.comp_apply, branchItem, itemAt, hv]
    rw [hcol (List.mem_append_right _ (List.mem_map_of_mem hmem))]
    exact haggs (a, i.name) hmem
  | grouping cs =>
    simp only [Function.comp_apply, branchItem, itemAt, hv]
    rfl

/-- UNION ALL of two frames shows the items of the first and then of the second: the right cells stay
in place. -/
theorem Lists.union {cols names : List String} {items : List (SelectItem V)}
    {os os' : List (Origin V)} {left right : Frame V} (hn : names.Nodup)
    (hl : Lists S num cols items names os left) (hr : Lists S num cols items names os' right)
    (h : setopFrames .union false left right = .ok f) :
    Lists S num cols items names (os ++ os') f := by
  unfold setopFrames at h
  split at h
  · cases h
  · cases h
    refine ⟨hl.columns, ?_⟩
    simp only [Bool.false_eq_true, if_false, Frame.ofRows_rows, relabel, List.map_append,
      List.map_map]
    rw [← hl.rows, ← hr.rows]
    refine congrArg₂ _ (List.map_congr_left fun r _ => ?_) (List.map_congr_left fun w _ => ?_)
    · rw [Function.comp_apply, hl.columns, keyOf_restrict fun _ hin => hin]
    · have hlen : names.length = (keyOf names w).length := (List.length_map _).symm
      simp only [Function.comp_apply]
      rw [hl.columns, keyOf_restrict fun _ hin => hin, keyOf_restrict fun _ hin => hin, hr.columns,
        keyOf_cellOf hn hlen]

/-- A UNION ALL of branches that show the items. -/
theorem lists_unions {α : Type} {cols names : List String} {items : List (SelectItem V)}
    {os : α → List (Origin V)} {node : α → PlanNode V} (hn : names.Nodup) :
    ∀ {bs : List α} {acc : PlanNode V} {before : List (Origin V)} {f : Frame V},
      (∀ g, exec S D acc = .ok g → Lists S num cols items names before g) →
      (∀ b ∈ bs, ∀ g, exec S D (node b) = .ok g → Lists S num cols items names (os b) g) →
      exec S D ((bs.map node).foldl (fun acc b => .setOp acc b .union false) acc) = .ok f →
        Lists S num cols items names (before ++ bs.flatMap os) f
  | [], _, before, f, hacc, _, hf => by
    rw [List.flatMap_nil, List.append_nil]
    exact hacc f hf
  | b :: bs, acc, before, f, hacc, hbs, hf => by
    rw [List.flatMap_cons, ← List.append_assoc]
    refine lists_unions hn (fun g hg => ?_) (fun b' hb' => hbs b' (List.mem_cons_of_mem _ hb')) hf
    obtain ⟨left, hl, hg⟩ := bind_eq_ok.mp hg
    obtain ⟨right, hr, hg⟩ := bind_eq_ok.mp hg
    exact (hacc left hl).union hn (hbs b List.mem_cons_self right hr) hg

/-- **The UNION ALL of the grouping sets** shows the items of all their groups. -/
theorem lists_grouping {items : List (SelectItem V)} {set : List String}
    {sets : List (List String)} (hn : (items.map SelectItem.name).Nodup)
    (hc : ∀ set' ∈ set :: sets, Captureless df.columns (presentKeys items set') (aggsOf items))
    (hdf : exec S D plan = .ok df)
    (hf : exec S D ((sets.map (branch num plan items)).foldl
      (fun acc b => .setOp acc b .union false) (branch num plan items set)) = .ok f) :
    Lists S num df.columns items (items.map SelectItem.name)
      ((set :: sets).flatMap (setOrigins S df items)) f :=
  lists_unions hn (fun _ hg => lists_branch hn (hc set List.mem_cons_self) hdf hg)
    (fun b hb _ hg => lists_branch hn (hc b (List.mem_cons_of_mem _ hb)) hdf hg) hf

/-- The grouping sets show the items. -/
theorem shows_grouping {sets : List (List String)} (hs : s.groupingSets = some sets)
    (hfit : s.Fits df.columns) (hp : buildGroupingExtension num plan s sets = .ok p)
    (hdf : exec S D plan = .ok df) (hf : exec S D p = .ok f) :
    Shows S num df.columns s.items s.names (origins S df s) (s.having = none) f := by
  rw [Select.Fits, hs] at hfit
  obtain ⟨hn, hc⟩ := hfit
  unfold buildGroupingExtension at hp
  split at hp
  · cases hp
  · split at hp
    · cases hp
    · cases sets with
      | nil => cases hp
      | cons set sets =>
        cases hp
        have ho : origins S df s = (set :: sets).flatMap (setOrigins S df s.items) := by
          rw [origins, hs]
          rfl
        rw [ho]
        exact (lists_grouping hn hc hdf hf).shows (.refl _)

end Output

/-! ## 12. DISTINCT, ORDER BY and LIMIT -/

section Tail

variable {S : Scalars V} {num : Nat → V} {D : Database V} {df f : Frame V} {s : Select V}

omit [DecidableEq V] in
/-- The columns of a frame and some of its rows, none twice; without a LIMIT a row like each of them, and
without DISTINCT all. -/
structure Inside (s : Select V) (f g : Frame V) : Prop where
  columns : f.columns = g.columns
  rows : f.rows.Subperm g.rows
  full : s.limit = none → (s.distinct = false → f.rows.length = g.rows.length) ∧
    ∀ r ∈ g.rows, r ∈ f.rows

omit [DecidableEq V] in
theorem inside_of_perm {f g : Frame V} (hcols : f.columns = g.columns) (h : f.rows.Perm g.rows) :
    Inside s f g := ⟨hcols, h.subperm, fun _ => ⟨fun _ => h.length_eq, fun _ => h.mem_iff.mpr⟩⟩

omit [DecidableEq V] in
theorem Inside.trans {f g k : Frame V} (h : Inside s f g) (h' : Inside s g k) : Inside s f k where
  columns := h.columns.trans h'.columns
  rows := h.rows.trans h'.rows
  full hl := ⟨fun hd => ((h.full hl).1 hd).trans ((h'.full hl).1 hd),
    fun r hr => (h.full hl).2 r ((h'.full hl).2 r hr)⟩

omit [DecidableEq V] in
/-- Rows of a frame under its own columns. -/
theorem ofRows_own {g : Frame V} {rows : List (Row V)} (h : ∀ r ∈ rows, r ∈ g.rows) :
    (Frame.ofRows g.columns rows).rows = rows :=
  (List.map_congr_left fun r hr => Frame.restrict_self (h r hr)).trans (List.map_id _)

omit [DecidableEq V] in
/-- The pairs that are sorted hold the rows of the frame. -/
theorem sortPairs_snd {df : Frame V} {keys : List (Expr V × Bool)} {src : Except DbError (Frame V)}
    {pairs : List (Key V × Row V)} (hsrc : ∀ s, src = .ok s → s.rows.length = df.rows.length)
    (h : sortPairs S df keys src = .ok pairs) : pairs.map Prod.snd = df.rows := by
  unfold sortPairs at h
  split at h
  · cases h
    rw [List.map_map]
    exact (List.map_congr_left fun _ _ => rfl).trans (List.map_id _)
  · obtain ⟨s, hs, h⟩ := bind_eq_ok.mp h
    obtain ⟨_, -, h⟩ := bind_eq_ok.mp h
    cases h
    rw [← List.map_uncurry_zip_eq_zipWith, List.map_map]
    exact List.map_fst_zip (hsrc s hs).ge

/-- **ORDER BY keeps the columns and the rows.** -/
theorem exec_sort_perm {p : PlanNode V} {keys : List (Expr V × Bool)} {f : Frame V}
    (h : exec S D (.sort p keys) = .ok f) :
    ∃ g, exec S D p = .ok g ∧ f.columns = g.columns ∧ f.rows.Perm g.rows := by
  rw [exec_sort] at h
  obtain ⟨g, hg, h⟩ := bind_eq_ok.mp h
  unfold sortFrame at h
  split at h
  · cases h
    exact ⟨_, hg, rfl, .refl _⟩
  · refine ⟨g, hg, ?_⟩
    obtain ⟨pairs, hpairs, h⟩ := bind_eq_ok.mp h
    cases h
    have hlen : ∀ s, sortSource S D p g = .ok s → s.rows.length = g.rows.length := by
      intro s hs
      cases hp : p.isProject with
      | false =>
        rw [sortSource_of_not_project hp] at hs
        cases hs
        rfl
      | true =>
        cases p with
        | project below items =>
          obtain ⟨df, hdf, hg⟩ := bind_eq_ok.mp hg
          obtain ⟨-, rfl⟩ := projectFrame_ok.mp hg
          cases hdf.symm.trans hs
          rw [Frame.ofRows_rows, List.length_map, List.length_map]
        | _ => cases hp
    have hsnd := sortPairs_snd hlen hpairs
    have hsorted : (sortRows S (keys.map Prod.snd) pairs).Perm g.rows := by
      rw [← hsnd]
      exact (List.perm_insertionSort _ pairs).map Prod.snd
    have hself : (sortRows S (keys.map Prod.snd) pairs).map (restrict g.columns) =
        sortRows S (keys.map Prod.snd) pairs := by
      refine (List.map_congr_left fun r hr => ?_).trans (List.map_id _)
      exact Frame.restrict_self (hsorted.mem_iff.mp hr)
    exact ⟨rfl, by rw [Frame.ofRows_rows, hself]; exact hsorted⟩

/-- DISTINCT keeps the first of equal rows. -/
theorem inside_distinct {g : Frame V} (hd : s.distinct = true) : Inside s (dropDuplicates g) g := by
  have hown : (dropDuplicates g).rows = keepFirst (keyOf g.columns) g.rows :=
    ofRows_own fun r hr => mem_keepFirst hr
  refine ⟨rfl, ?_, fun _ => ⟨fun hno => ?_, fun r hr => ?_⟩⟩
  · rw [hown]
    exact (keepFirst_sublist _ _).subperm
  · rw [hd] at hno
    cases hno
  · rw [hown]
    exact (mem_keepFirst_iff fun a ha b hb => Frame.row_ext ha hb).mpr hr

/-- DISTINCT, ORDER BY and LIMIT keep the columns and add no row. -/
theorem inside_tail {p : PlanNode V} (h : exec S D (buildTail s p) = .ok f) :
    ∃ g, exec S D p = .ok g ∧ Inside s f g := by
  -- one clause at a time, the outermost first
  have hlimit : ∃ g, exec S D (if s.order.isEmpty then (if s.distinct then .distinct p else p)
      else .sort (if s.distinct then .distinct p else p) s.order) = .ok g ∧ Inside s f g := by
    unfold buildTail at h
    cases hl : s.limit with
    | none =>
      rw [hl] at h
      exact ⟨f, h, inside_of_perm rfl (.refl _)⟩
    | some x =>
      rw [hl] at h
      obtain ⟨g, hg, h⟩ := bind_eq_ok.mp h
      cases h
      refine ⟨g, hg, rfl, ?_, fun hno => absurd (hl.symm.trans hno) (Option.some_ne_none _)⟩
      have hsub : ((g.rows.drop x.2).take x.1).Sublist g.rows :=
        (List.take_sublist _ _).trans (List.drop_sublist _ _)
      exact (ofRows_own fun r hr => hsub.subset hr) ▸ hsub.subperm
  obtain ⟨g, hg, hfg⟩ := hlimit
  have hsort : ∃ k, exec S D (if s.distinct then .distinct p else p) = .ok k ∧ Inside s g k := by
    split at hg
    · exact ⟨g, hg, inside_of_perm rfl (.refl _)⟩
    · obtain ⟨k, hk, hcols, hperm⟩ := exec_sort_perm hg
      exact ⟨k, hk, inside_of_perm hcols hperm⟩
  obtain ⟨k, hk, hgk⟩ := hsort
  split at hk
  · rename_i hd
    obtain ⟨q, hq, hk⟩ := bind_eq_ok.mp hk
    cases hk
    exact ⟨q, hq, (hfg.trans hgk).trans (inside_distinct hd)⟩
  · exact ⟨k, hk, hfg.trans hgk⟩

end Tail

/-! ## 13. What the columns show -/

section Necessity

omit [DecidableEq V]

variable {items : List (SelectItem V)}

/-- The items, the keys first. -/
def keysThenAggs (items : List (SelectItem V)) : List (SelectItem V) :=
  items.filter (fun i => !i.value.isAgg) ++ items.filter fun i => i.value.isAgg

theorem keysThenAggs_perm (items : List (SelectItem V)) : (keysThenAggs items).Perm items := by
  have h := List.filter_append_perm (fun i : SelectItem V => !i.value.isAgg) items
  simpa only [keysThenAggs, Bool.not_not] using h

theorem keysFirst_keysThenAggs (items : List (SelectItem V)) : KeysFirst (keysThenAggs items) := by
  refine ⟨_, _, rfl, fun i hi => ?_, fun i hi => (List.mem_filter.mp hi).2⟩
  simpa using (List.mem_filter.mp hi).2

theorem keysOf_keysThenAggs (items : List (SelectItem V)) :
    keysOf (keysThenAggs items) = keysOf items := by
  have has : ∀ i ∈ items.filter fun i => i.value.isAgg, i.value.isAgg = true := fun i hi =>
    (List.mem_filter.mp hi).2
  rw [keysThenAggs, keysOf_append, keysOf_eq_nil has, List.append_nil, keysOf, keysOf,
    List.filterMap_filter]
  refine List.filterMap_congr fun i _ => ?_
  cases hv : i.value <;> rfl

theorem aggsOf_keysThenAggs (items : List (SelectItem V)) :
    aggsOf (keysThenAggs items) = aggsOf items := by
  have hks : ∀ i ∈ items.filter fun i => !i.value.isAgg, i.value.isAgg = false := fun i hi => by
    simpa using (List.mem_filter.mp hi).2
  rw [keysThenAggs, aggsOf_append, aggsOf_eq_nil hks, List.nil_append, aggsOf, aggsOf,
    List.filterMap_filter]
  refine List.filterMap_congr fun i _ => ?_
  cases hv : i.value <;> rfl

/-- The names of an aggregate are those of the items, the keys first. -/
theorem aggNames_keysThenAggs (hg : ∀ i ∈ items, i.value.isGrouping = false) :
    aggNames (keysOf items) (aggsOf items) = (keysThenAggs items).map SelectItem.name := by
  have hg' : ∀ i ∈ keysThenAggs items, i.value.isGrouping = false := fun i hi =>
    hg i ((keysThenAggs_perm items).mem_iff.mp hi)
  rw [← aggNames_of_keysFirst (keysFirst_keysThenAggs items) hg', keysOf_keysThenAggs,
    aggsOf_keysThenAggs]

/-- A list with an item has a key or an aggregate. -/
theorem aggregateColumns_of_items (hne : items ≠ [])
    (hg : ∀ i ∈ items, i.value.isGrouping = false) :
    aggregateColumns (keysOf items) (aggsOf items) = aggColumns (keysOf items) (aggsOf items) := by
  have hnames := aggNames_keysThenAggs hg
  unfold aggregateColumns
  cases hk : keysOf items with
  | cons k ks => rfl
  | nil =>
    cases ha : aggsOf items with
    | cons a as => rfl
    | nil =>
      rw [hk, ha] at hnames
      have hnil : keysThenAggs items = [] := List.map_eq_nil_iff.mp hnames.symm
      have hperm := keysThenAggs_perm items
      rw [hnil] at hperm
      exact absurd hperm.nil_eq.symm hne

/-- **An aggregate with a column for each item**, in the order of the list: the names are different
and the keys come first. -/
theorem keysFirst_of_columns (hg : ∀ i ∈ items, i.value.isGrouping = false)
    (h : aggColumns (keysOf items) (aggsOf items) = dedupNames ∅ (items.map SelectItem.name)) :
    (items.map SelectItem.name).Nodup ∧ KeysFirst items := by
  have hperm := (keysThenAggs_perm items).map SelectItem.name
  have hlen : (aggColumns (keysOf items) (aggsOf items)).length =
      (aggNames (keysOf items) (aggsOf items)).length := by
    rw [h, length_dedupNames, aggNames_keysThenAggs hg, hperm.length_eq]
  have hagg : (aggNames (keysOf items) (aggsOf items)).Nodup := nodup_of_length hlen
  have hnodup : (items.map SelectItem.name).Nodup := by
    rw [aggNames_keysThenAggs hg] at hagg
    exact hperm.nodup_iff.mp hagg
  rw [aggColumns, foldl_addColumn_nodup hagg, dedupNames_nodup hnodup,
    aggNames_keysThenAggs hg] at h
  have hsame : keysThenAggs items = items :=
    eq_of_map_eq (hperm.nodup_iff.mpr hnodup) (keysThenAggs_perm items) h
  exact ⟨hnodup, hsame ▸ keysFirst_keysThenAggs items⟩

theorem outColumns_unions {sch : Dict String (List String)} : ∀ {bs : List (PlanNode V)}
    {acc : PlanNode V}, outColumns sch (bs.foldl (fun acc b => .setOp acc b .union false) acc) =
      outColumns sch acc
  | [], _ => rfl
  | b :: bs, acc => by
    rw [List.foldl_cons, outColumns_unions]
    rfl

theorem outColumns_tail (sch : Dict String (List String)) (s : Select V) (p : PlanNode V) :
    outColumns sch (buildTail s p) = outColumns sch p := by
  unfold buildTail
  cases s.limit <;> cases s.order.isEmpty <;> cases s.distinct <;> rfl

/-- The columns of the grouping sets. -/
theorem outColumns_grouping {num : Nat → V} {plan p : PlanNode V} {s : Select V}
    {sets : List (List String)} (sch : Dict String (List String))
    (hp : buildGroupingExtension num plan s sets = .ok p) :
    outColumns sch p = s.names.foldl addColumn [] := by
  unfold buildGroupingExtension at hp
  split at hp
  · cases hp
  · split at hp
    · cases hp
    · cases sets with
      | nil => cases hp
      | cons set sets =>
        cases hp
        rw [outColumns_unions]
        change ((s.items.map (branchItem num set)).map Prod.snd).foldl addColumn [] = _
        rw [map_snd_branchItem]
        rfl

/-- The columns of the single aggregate, when HAVING has no aggregate of its own. -/
theorem outColumns_single {plan p : PlanNode V} {s : Select V} (sch : Dict String (List String))
    (hv : s.hvNames = []) (hp : buildAggregate plan s = .ok p) :
    (∀ i ∈ s.items, i.value.isGrouping = false) ∧
      outColumns sch p = aggregateColumns (keysOf s.items) (aggsOf s.items) := by
  unfold buildAggregate at hp
  split at hp
  · cases hp
  · rename_i hng
    refine ⟨fun i hi => Bool.eq_false_iff.mpr fun hgr =>
      hng (List.any_eq_true.mpr ⟨i, hi, hgr⟩), ?_⟩
    cases hh : s.having with
    | none =>
      rw [hh] at hp
      cases hp
      rfl
    | some x =>
      obtain ⟨pred, extra⟩ := x
      rw [hh] at hp
      rw [Select.hvNames_eq, hh] at hv
      have hextra : extra = [] := by simpa [hvAggs] using hv
      dsimp only at hp
      split at hp
      · cases hp
      · unfold buildHaving at hp
        rw [hextra] at hp
        split at hp
        · cases hp
        · cases hp
          simp only [List.isEmpty_nil, if_true, outColumns, hvAggs, List.zipIdx_nil, List.map_nil,
            List.append_nil]

end Necessity

/-! ## 14. Windows beside the rows -/

section Beside

omit [DecidableEq V]

variable {S : Scalars V} {df : Frame V}

/-- A frame with a column of cells that is none of its first columns, cut back to these. -/
theorem Cut.setColumn {g : Frame V} {n : String} {cells : List (Cell V)} (h : Cut g df)
    (hlen : cells.length = g.rows.length) (hn : n ∉ df.columns) : Cut (setColumn g n cells) df where
  columns := fun c hc => mem_addColumn.mpr (.inl (h.columns c hc))
  rows := by
    have hback : ∀ (r : Row V) (x : Cell V), restrict df.columns (restrict (addColumn g.columns n)
        fun c => if c = n then x else r c) = restrict df.columns r := by
      intro r x
      rw [restrict_restrict fun c hc => mem_addColumn.mpr (.inl (h.columns c hc))]
      funext c
      by_cases hc : c ∈ df.columns
      · rw [restrict_mem hc, restrict_mem hc, if_neg fun he : c = n => hn (he ▸ hc)]
      · rw [restrict_notMem hc, restrict_notMem hc]
    rw [RyuDB.Sql.setColumn, Frame.ofRows_rows, List.map_map, List.map_zipWith, h.rows]
    simp only [Function.comp_apply, hback]
    rw [← List.map_uncurry_zip_eq_zipWith]
    have hfst : (g.rows.zip cells).map Prod.fst = g.rows := List.map_fst_zip hlen.ge
    conv_lhs => rw [← hfst]
    rw [List.map_map]
    rfl

/-- **A window beside others** computes what it computes on the rows alone. -/
theorem windowColumn_setColumn {g f : Frame V} {w : WindowFunc V × String} (hcut : Cut g df)
    (hrefs : ∀ e ∈ w.1.args, sameRefs g.columns df.columns e = true)
    (h : windowColumn S g w = .ok f) : f = setColumn g w.2 (windowCells S df w.1) := by
  obtain ⟨-, rfl⟩ := windowColumn_ok.mp h
  have hargs : (df.rows.map fun r => w.1.args.map (Expr.value S df.columns r)) =
      g.rows.map fun r => w.1.args.map (Expr.value S g.columns r) := by
    rw [hcut.rows, List.map_map]
    exact List.map_congr_left fun r _ => List.map_congr_left fun e he => value_cut (hrefs e he) r
  rw [setColumn, windowCells, hargs]

/-- The windows one after the other. -/
theorem windowFrame_beside {N : List String} : ∀ (ws : List (WindowFunc V × String)) {g f : Frame V},
    Cut g df → (∀ c ∈ (ws.map Prod.snd).foldl addColumn g.columns, c ∈ N) →
    (∀ w ∈ ws, w.2 ∉ df.columns) → (∀ w ∈ ws, ∀ e ∈ w.1.args, sameRefs N df.columns e = true) →
    windowFrame S g ws = .ok f →
      f = ws.foldl (fun f w => RyuDB.Sql.setColumn f w.2 (windowCells S df w.1)) g
  | [], _, _, _, _, _, _, h => by
    cases h
    rfl
  | w :: ws, g, f, hcut, hN, hfresh, hrefs, h => by
    obtain ⟨g', hg', h⟩ := bind_eq_ok.mp h
    have hin : ∀ c ∈ g.columns, c ∈ N := fun c hc => hN c (mem_foldl_addColumn.mpr (.inl hc))
    have hw := windowColumn_setColumn hcut
      (fun e he => sameRefs_between hcut.columns hin (hrefs w List.mem_cons_self e he)) hg'
    subst hw
    have hlen : (windowCells S df w.1).length = g.rows.length := by
      rw [windowCells, w.1.length_compute, List.length_map, hcut.rows, List.length_map]
    exact windowFrame_beside ws (hcut.setColumn hlen (hfresh w List.mem_cons_self)) hN
      (fun x hx => hfresh x (List.mem_cons_of_mem _ hx))
      (fun x hx => hrefs x (List.mem_cons_of_mem _ hx)) h

end Beside

/-! ## 15. The select list -/

section Main

variable {S : Scalars V} {num : Nat → V} {D : Database V} {plan p : PlanNode V} {df f : Frame V}
  {s : Select V}

/-- The items that are shown below DISTINCT, ORDER BY and LIMIT are the result. -/
theorem Shows.isMatch {names : List String} {g : Frame V}
    (h : Shows S num df.columns s.items names (origins S df s) (s.having = none) g)
    (hin : Inside s f g) (hn : names.Nodup) (hnames : names = dedupNames ∅ s.names) :
    Matches S num df s f := by
  have hcols : f.columns = names := hin.columns.trans h.columns
  obtain ⟨os, hos, hrows⟩ := h.rows
  refine ⟨hcols.trans hnames, hcols ▸ hn, ?_, fun hh hl => ⟨fun hd => ?_, fun o ho => ?_⟩⟩
  · obtain ⟨os', hos', hrows'⟩ := exists_subperm hin.rows hrows
    exact ⟨os', hos'.trans hos, hcols.symm ▸ hrows'⟩
  · exact ((hin.full hl).1 hd).trans (h.full hh)
  · have hlen : os.length = (origins S df s).length := by
      have heq := congrArg List.length hrows
      rw [List.length_map, List.length_map] at heq
      exact heq.symm.trans (h.full hh)
    have hmem := List.mem_map_of_mem (f := fun o => s.items.map (itemAt S num df.columns o))
      ((hos.perm_of_length_le hlen.ge).mem_iff.mpr ho)
    rw [← hrows] at hmem
    obtain ⟨r, hr, hkey⟩ := List.mem_map.mp hmem
    exact ⟨r, (hin.full hl).2 r hr, hcols.symm ▸ hkey⟩

/-- The result of a SELECT that fits. -/
theorem matches_of_fits (hp : buildSelect num plan s = .ok p) (hdf : exec S D plan = .ok df)
    (hf : exec S D p = .ok f) (hfit : s.Fits df.columns) : Matches S num df s f := by
  obtain ⟨p₀, hp₀, hp⟩ := bind_eq_ok.mp hp
  cases hp
  obtain ⟨g, hg, hin⟩ := inside_tail hf
  unfold buildOutput at hp₀
  cases hs : s.groupingSets with
  | some sets =>
    rw [hs] at hp₀
    have hn : s.names.Nodup := by
      rw [Select.Fits, hs] at hfit
      exact hfit.1
    have hshows := shows_grouping hs hfit hp₀ hdf hg
    exact hshows.isMatch hin hn (dedupNames_nodup hn).symm
  | none =>
    rw [hs] at hp₀
    cases ha : s.aggregated with
    | true =>
      simp only [ha, if_true] at hp₀
      have hn : s.names.Nodup := by
        rw [Select.Fits, hs, if_pos ha] at hfit
        exact (List.nodup_append.mp hfit.1).1
      exact (shows_single hs ha hfit hp₀ hdf hg).isMatch hin hn (dedupNames_nodup hn).symm
    | false =>
      simp only [ha, Bool.false_eq_true, if_false] at hp₀
      cases hp₀
      rw [Select.Fits, hs, ha] at hfit
      obtain ⟨df', hdf', hg⟩ := bind_eq_ok.mp hg
      cases hdf'.symm.trans hdf
      exact ((lists_plain hs ha hfit hg).shows (.refl _)).isMatch hin hfit rfl

/-- A SELECT whose result matches is arranged. -/
theorem arranged_of_matches (hp : buildSelect num plan s = .ok p) (hf : exec S D p = .ok f)
    (hm : Matches S num df s f) : Arranged s := by
  obtain ⟨p₀, hp₀, hp⟩ := bind_eq_ok.mp hp
  cases hp
  have hcols := exec_columns hf
  rw [outColumns_tail, hm.columns] at hcols
  unfold buildOutput at hp₀
  unfold Arranged
  cases hs : s.groupingSets with
  | some sets =>
    rw [hs] at hp₀
    rw [outColumns_grouping D.schema hp₀] at hcols
    exact nodup_of_length (by rw [← hcols, length_dedupNames])
  | none =>
    rw [hs] at hp₀
    cases ha : s.aggregated with
    | true =>
      simp only [ha, if_true] at hp₀ ⊢
      intro hv
      obtain ⟨hg, hout⟩ := outColumns_single D.schema hv hp₀
      rw [hout, aggregateColumns_of_items s.nonempty hg] at hcols
      exact keysFirst_of_columns hg hcols.symm
    | false =>
      have hn := hm.nodup
      rw [hm.columns] at hn
      simpa using hn

/-- The branches of the grouping sets read the plan. -/
theorem exec_below_grouping {sets : List (List String)}
    (hp : buildGroupingExtension num plan s sets = .ok p) (hf : exec S D p = .ok f) :
    ∃ g, exec S D plan = .ok g := by
  unfold buildGroupingExtension at hp
  split at hp
  · cases hp
  · split at hp
    · cases hp
    · cases sets with
      | nil => cases hp
      | cons set sets =>
        cases hp
        -- the first branch is at the left end of the chain of UNION ALLs
        have hfirst : ∀ (bs : List (PlanNode V)) (acc : PlanNode V) (f : Frame V),
            exec S D (bs.foldl (fun acc b => .setOp acc b .union false) acc) = .ok f →
            ∃ k, exec S D acc = .ok k := by
          intro bs
          induction bs with
          | nil => exact fun acc f hf => ⟨f, hf⟩
          | cons b bs ih =>
            intro acc f hf
            obtain ⟨k, hk⟩ := ih _ f hf
            obtain ⟨left, hl, -⟩ := bind_eq_ok.mp hk
            exact ⟨left, hl⟩
        obtain ⟨k, hk⟩ := hfirst _ _ f hf
        obtain ⟨a, ha, -⟩ := bind_eq_ok.mp hk
        obtain ⟨g, hg, -⟩ := bind_eq_ok.mp ha
        exact ⟨g, hg⟩

/-- The single aggregate reads the plan. -/
theorem exec_below_single (hp : buildAggregate plan s = .ok p) (hf : exec S D p = .ok f) :
    ∃ g, exec S D plan = .ok g := by
  have hagg : ∀ {keys aggs k}, exec S D (.aggregate plan keys aggs) = .ok k →
      ∃ g, exec S D plan = .ok g := fun hk => by
    obtain ⟨g, hg, -⟩ := bind_eq_ok.mp hk
    exact ⟨g, hg⟩
  unfold buildAggregate at hp
  split at hp
  · cases hp
  · split at hp
    · cases hp
      exact hagg hf
    · split at hp
      · cases hp
      · unfold buildHaving at hp
        split at hp
        · cases hp
        · cases hp
          split at hf
          · obtain ⟨a, ha, -⟩ := bind_eq_ok.mp hf
            exact hagg ha
          · obtain ⟨k, hk, -⟩ := bind_eq_ok.mp hf
            obtain ⟨a, ha, -⟩ := bind_eq_ok.mp hk
            exact hagg ha

/-- What a SELECT returns is computed from what its FROM, WHERE and windows return. -/
theorem exec_below (hp : buildSelect num plan s = .ok p) (hf : exec S D p = .ok f) :
    ∃ g, exec S D plan = .ok g := by
  obtain ⟨p₀, hp₀, hp⟩ := bind_eq_ok.mp hp
  cases hp
  obtain ⟨g, hg, -⟩ := inside_tail hf
  unfold buildOutput at hp₀
  split at hp₀
  · exact exec_below_grouping hp₀ hg
  · split at hp₀
    · exact exec_below_single hp₀ hg
    · cases hp₀
      obtain ⟨df, hdf, -⟩ := bind_eq_ok.mp hg
      exact ⟨df, hdf⟩

/-- **The windows and QUALIFY** make the rows that are wanted, when the columns of the windows are
apart. -/
theorem exec_windows {s : WindowSelect V} {base : PlanNode V} {g : Frame V}
    (h : s.Apart df.columns) (hbase : buildWindow plan s = .ok base) (hdf : exec S D plan = .ok df)
    (hg : exec S D base = .ok g) : g = s.source S df ∧ g.columns = s.columns df.columns := by
  have hwindow : ∀ {k}, exec S D (.window plan s.funcs) = .ok k →
      k = s.funcs.foldl (fun f w => setColumn f w.2 (windowCells S df w.1)) df ∧
        k.columns = s.columns df.columns := by
    intro k hk
    obtain ⟨df', hdf', hk⟩ := bind_eq_ok.mp hk
    cases hdf'.symm.trans hdf
    exact ⟨windowFrame_beside s.funcs (.refl df) (fun _ hc => hc) h.fresh h.refs hk, windowFrame_columns hk⟩
  unfold buildWindow at hbase
  split at hbase
  · rename_i hnone
    split at hbase
    · rename_i hq
      cases hbase
      cases hdf.symm.trans hg
      have hfuncs : s.funcs = [] := by
        rw [Bool.and_eq_true, List.isEmpty_iff] at hnone
        simp only [WindowSelect.funcs, WindowSelect.qualified, hq, hnone.1, List.zipIdx_nil,
          List.map_nil, List.append_nil]
      simp only [WindowSelect.source, WindowSelect.columns, WindowSelect.pred, hq, hfuncs,
        Option.map_none, List.foldl_nil, List.map_nil, and_self]
    · cases hbase
  · split at hbase
    · cases hbase
    · split at hbase <;> rename_i hpred <;> cases hbase
      · simp only [WindowSelect.source, hpred]
        exact hwindow hg
      · obtain ⟨k, hk, hg⟩ := bind_eq_ok.mp hg
        obtain ⟨rfl, hcols⟩ := hwindow hk
        obtain ⟨-, rfl⟩ := filterFrame_ok.mp hg
        refine ⟨?_, hcols⟩
        simp only [WindowSelect.source, hpred]

end Main

/-- COUNT(*). -/
def countStar : AggFunc Nat where
  reduce l := some (l.countP Option.isSome)
  arg := none
  filter := none
  distinct := false
  reduce_perm l l' h := by rw [h.countP_eq]

/-- A SELECT with a list and a GROUP BY. -/
def selectGrouped (items : List (SelectItem Nat)) (groupBy : List (Expr Nat))
    (h : items ≠ []) : WindowSelect Nat :=
  ⟨⟨items, groupBy, none, none, false, [], none, h⟩, [], none⟩

/-- `p` and `COUNT(*)`. -/
def itemP : SelectItem Nat := ⟨.column "p" none, none⟩
def itemCount : SelectItem Nat := ⟨.agg countStar "count" .star, none⟩

/-- `SELECT p, COUNT(*) FROM u GROUP BY p`. -/
def keyThenCount : WindowSelect Nat := selectGrouped [itemP, itemCount] [.col "p" none] (by simp)

/-- `SELECT COUNT(*), p FROM u GROUP BY p`. -/
def countThenKey : WindowSelect Nat := selectGrouped [itemCount, itemP] [.col "p" none] (by simp)

/-- `SELECT p, p AS p_1, p FROM u`. -/
def threeTimes : WindowSelect Nat := selectGrouped [itemP, ⟨.column "p" none, some "p_1"⟩, itemP] []
  (by simp)

/-- `ROW_NUMBER() OVER ()`. -/
def rowNumber : WindowFunc Nat where
  args := []
  compute l := (List.range l.length).map fun i => some (i + 1)
  length_compute l := by rw [List.length_map, List.length_range]

/-- `SELECT p, ROW_NUMBER() OVER () AS n FROM u QUALIFY ROW_NUMBER() OVER () = 1`. -/
def numberedRows : WindowSelect Nat where
  toSelect := (selectGrouped [itemP, ⟨.column "_wf1" none, some "n"⟩] [] (by simp)).toSelect
  windows := [("ROW_NUMBER() OVER ()", rowNumber)]
  qualify := some ⟨[("ROW_NUMBER() OVER ()", rowNumber)], fun names =>
    .app ⟨2, fun a => if a 0 = a 1 then some 1 else some 0, false, fun _ => false, ""⟩
      fun i => if i = 0 then .col (names.headD "") none else .lit (some 1)⟩

theorem keyThenCount_fits : keyThenCount.Fits ["p", "q", "r"] := by
  refine ⟨⟨fun w hw => (List.not_mem_nil hw).elim, fun w hw => (List.not_mem_nil hw).elim⟩, by decide,
    ⟨[itemP], [itemCount], rfl, by decide, by decide⟩, ?_, fun e => ?_⟩
  · refine ⟨fun k hk _ => ?_, fun k hk hout => ?_, fun a ha e he => ?_⟩
    · cases List.mem_singleton.mp hk
      exact ⟨none, rfl, rfl⟩
    · cases List.mem_singleton.mp hk
      exact absurd List.mem_cons_self hout
    · cases List.mem_singleton.mp ha
      cases he
  · exact Iff.rfl

theorem numberedRows_fits : numberedRows.Fits ["p", "q", "r"] where
  apart := by
    have hfuncs : numberedRows.funcs = [(rowNumber, "_wf1")] := by rfl
    refine ⟨fun w hw => ?_, fun w hw e he => ?_⟩
    · rw [hfuncs, List.mem_singleton] at hw
      subst hw
      decide
    · rw [hfuncs, List.mem_singleton] at hw
      subst hw
      cases he
  select := by
    change (dedupNames ∅ numberedRows.names).Nodup
    decide

/-- A table of one row, for the lists below. -/
theorem scan_u : shown (exec natScalars unevenTables (.scan "u" none (some "u"))) =
    some (["p", "q", "r"], [[some 7, some 8, some 9]]) := by decide

end RyuDB.Sql
