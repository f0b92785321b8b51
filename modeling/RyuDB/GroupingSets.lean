/-
# ROLLUP, CUBE and GROUPING SETS

`_build_grouping_extension` turns a GROUP BY clause with extensions into a UNION ALL of one aggregate
for each grouping set, each under a projection that shows the omitted columns as NULL and GROUPING as
a number.  `_grouping_extension_sets` enumerates the sets by column names: those of the plain items
are in every set, and of the extensions it reads the first ROLLUP, else the first CUBE, else the first
GROUPING SETS.

Wanted (`GroupClause.wantedRows`): one row for each group of each set of the cross product of all items
of the clause, where a set groups by the columns its references mean.  `grouping_extension` says where
the result is that, and that on one input row it is that only when the extensions behind the first
have one set each.

A GROUPING argument is a column reference; other expressions have no name that a clause could have.
-/
import RyuDB.SelectList
import RyuDB.Lib.Grouping

namespace RyuDB.Sql

variable {V : Type}

/-! ## 1. The clause -/

/-- A column reference, as it is written. -/
structure ColRef where
  name : String
  table : Option String
  deriving DecidableEq, Repr

/-- The reference as an expression. -/
def ColRef.expr (c : ColRef) : Expr V := .col c.name c.table

/-- The column of the input it means. -/
def ColRef.meant (cols : List String) (c : ColRef) : Option String := resolve cols c.name c.table

/-- An element of a GROUP BY item: a column, a parenthesis, a tuple, or any other expression with the
class the SQL parser gives it. -/
inductive GroupExpr where
  | column (c : ColRef)
  | paren (e : GroupExpr)
  | tuple (es : List GroupExpr)
  | other (type : String)

/-- A GROUP BY clause as the SQL parser keeps it: the plain items, and the items of each ROLLUP, each
CUBE and each GROUPING SETS. -/
structure GroupClause where
  expressions : List GroupExpr
  rollup : List (List GroupExpr)
  cube : List (List GroupExpr)
  groupingSets : List (List GroupExpr)

mutual

/-- `_grouping_cols_of`. -/
def groupingColsOf : GroupExpr → Except DbError (List String)
  | .column c => .ok [c.name]
  | .paren e => groupingColsOf e
  | .tuple es => groupingColsOfAll es
  | .other type => .error (.notImplemented
      ("only bare columns are supported in ROLLUP / CUBE / GROUPING SETS (got " ++ type ++ ")"))

/-- The loop of `_grouping_cols_of` over a tuple. -/
def groupingColsOfAll : List GroupExpr → Except DbError (List String)
  | [] => .ok []
  | e :: es => do
    let cols ← groupingColsOf e
    let rest ← groupingColsOfAll es
    return cols ++ rest

end

/-- `with_always`: each column once. -/
def withAlways (alwaysOn itemCols : List String) : List String := itemCols.foldl addColumn alwaysOn

/-- `_grouping_extension_sets`: the grouping columns and the sets. -/
def groupingExtensionSets (g : GroupClause) :
    Except DbError (List String × List (List String)) := do
  let plain ← groupingColsOfAll g.expressions
  let alwaysOn := withAlways [] plain
  match g.rollup, g.cube, g.groupingSets with
  | es :: _, _, _ =>
    let items ← es.mapM groupingColsOf
    .ok (withAlways alwaysOn items.flatten, (List.range (items.length + 1)).reverse.map fun k =>
      withAlways alwaysOn (items.take k).flatten)
  | [], es :: _, _ =>
    let items ← es.mapM groupingColsOf
    .ok (withAlways alwaysOn items.flatten, (List.range (2 ^ items.length)).map fun mask =>
      withAlways alwaysOn (Grouping.chosen items mask))
  | [], [], es :: _ =>
    let items ← es.mapM groupingColsOf
    .ok (withAlways alwaysOn items.flatten, items.map (withAlways alwaysOn))
  | [], [], [] => .error (.runtime "'NoneType' object is not subscriptable")

/-- An item of the select list; GROUPING has its arguments as they are written. -/
inductive ExtItem (V : Type) where
  | item (i : SelectItem V) (h : i.value.isGrouping = false)
  | grouping (args : List ColRef) (aliasName : Option String)

/-- The item with the names of the arguments of GROUPING. -/
def ExtItem.lower : ExtItem V → SelectItem V
  | .item i _ => i
  | .grouping args aliasName => ⟨.grouping (args.map ColRef.name), aliasName⟩

/-- The arguments of GROUPING. -/
def ExtItem.args : ExtItem V → List ColRef
  | .item _ _ => []
  | .grouping args _ => args

/-- `_build_grouping_extension`, with the enumeration of the sets. -/
def buildExtension (num : Nat → V) (plan : PlanNode V) (g : GroupClause) (items : List (ExtItem V))
    (having : Option (Expr V × List (AggFunc V))) : Except DbError (PlanNode V) :=
  if having.isSome then .error (.notImplemented
    "HAVING with ROLLUP / CUBE / GROUPING SETS is not supported yet")
  else do
    let lowered := items.map ExtItem.lower
    let (dimCols, sets) ← groupingExtensionSets g
    match sets.flatten.filter (· ∉ (keysOf lowered).map dimName) with
    | c :: _ => .error (.notImplemented ("grouping column " ++ pyRepr c ++
        " must appear in the SELECT list (Phase-1 invariant for ROLLUP/CUBE/GROUPING SETS)"))
    | [] =>
      match (items.flatMap ExtItem.args).filter (·.name ∉ dimCols) with
      | c :: _ => .error (.notImplemented
          ("GROUPING(" ++ pyRepr c.name ++ ") names a non-grouping column"))
      | [] =>
        match sets with
        | [] => .error (.runtime "list index out of range")
        | set :: sets => .ok ((sets.map (branch num plan lowered)).foldl
            (fun acc b => .setOp acc b .union false) (branch num plan lowered set))

/-! ## 2. What is wanted -/

mutual

/-- The references of an element; another expression has none. -/
def GroupExpr.refs : GroupExpr → List ColRef
  | .column c => [c]
  | .paren e => e.refs
  | .tuple es => refsAll es
  | .other _ => []

/-- The references of the elements of a tuple. -/
def refsAll : List GroupExpr → List ColRef
  | [] => []
  | e :: es => e.refs ++ refsAll es

end

mutual

/-- The element is built from columns. -/
def GroupExpr.plain : GroupExpr → Bool
  | .column _ => true
  | .paren e => e.plain
  | .tuple es => plainAll es
  | .other _ => false

/-- All elements are built from columns. -/
def plainAll : List GroupExpr → Bool
  | [] => true
  | e :: es => e.plain && plainAll es

end

namespace GroupClause

/-- The clause is built from columns. -/
def plain (g : GroupClause) : Bool :=
  plainAll (g.expressions ++ g.rollup.flatten ++ g.cube.flatten ++ g.groupingSets.flatten)

/-- The columns of the plain items. -/
def always (g : GroupClause) : List ColRef := (g.expressions.map GroupExpr.refs).flatten

/-- The sets of each extension. -/
def extensions (g : GroupClause) : List (List (List ColRef)) :=
  (g.rollup.map fun es => Grouping.rollup (es.map GroupExpr.refs)) ++
    (g.cube.map fun es => Grouping.cube (es.map GroupExpr.refs)) ++
    g.groupingSets.map fun es => es.map GroupExpr.refs

/-- **The grouping sets of the clause**: the cross product of its items. -/
def sets (g : GroupClause) : List (List ColRef) :=
  Grouping.cross ((g.expressions.map fun e => [e.refs]) ++ g.extensions)

/-- The sets of the plain items and the first extension. -/
def kept (g : GroupClause) : List (List ColRef) :=
  (g.extensions.head?.getD []).map (g.always ++ ·)

/-- The other extensions. -/
def dropped (g : GroupClause) : List (List (List ColRef)) := g.extensions.tail

end GroupClause

/-- The columns a grouping set groups by. -/
def presentColumns (cols : List String) (set : List ColRef) : List String :=
  set.filterMap (ColRef.meant cols)

/-- What is left of a group under a set: its values in the columns of the set, and NULL elsewhere. -/
def groupRow (cols : List String) (set : List ColRef) (rows : List (Row V)) : Row V := fun c =>
  if c ∈ presentColumns cols set then rows.head?.bind (· c) else none

/-- The number of some bits, the leftmost the most significant. -/
def bitmap : List Bool → Nat
  | [] => 0
  | b :: bs => (if b then 2 ^ bs.length else 0) + bitmap bs

/-- The column is not one of those the set groups by. -/
def omitted (cols : List String) (set : List ColRef) (c : ColRef) : Bool :=
  (c.meant cols).all (· ∉ presentColumns cols set)

section Wanted

variable [DecidableEq V]

/-- The value of an item on a group under a set. -/
def ExtItem.wanted (S : Scalars V) (num : Nat → V) (cols : List String) (set : List ColRef)
    (rows : List (Row V)) : ExtItem V → Cell V
  | .item i _ =>
    match i.value with
    | .expr e => e.value S cols (groupRow cols set rows)
    | .agg a => aggCell S cols rows (a, i.name)
    | .grouping _ => none
  | .grouping args _ => some (num (bitmap (args.map (omitted cols set))))

/-- The rows of one grouping set. -/
def setRows (S : Scalars V) (num : Nat → V) (df : Frame V) (items : List (ExtItem V))
    (set : List ColRef) : List (List (Cell V)) :=
  (partitionBy S df (set.map ColRef.expr)).map fun rows =>
    items.map (ExtItem.wanted S num df.columns set rows)

/-- **The rows wanted**: those of all grouping sets. -/
def GroupClause.wantedRows (S : Scalars V) (num : Nat → V) (df : Frame V)
    (items : List (ExtItem V)) (g : GroupClause) : List (List (Cell V)) :=
  g.sets.flatMap (setRows S num df items)

omit [DecidableEq V] in
/-- The references of the items that are no aggregates. -/
def keyRefs (items : List (ExtItem V)) : List ColRef :=
  (keysOf (items.map ExtItem.lower)).flatMap fun k => k.1.refs.map fun x => ⟨x.1, x.2⟩

/-- **The result has the subtotals of the clause**: a column for each item, the rows wanted, in any
order, and no item that is not grouped. -/
structure Subtotals (S : Scalars V) (num : Nat → V) (df : Frame V) (g : GroupClause)
    (items : List (ExtItem V)) (f : Frame V) : Prop where
  columns : f.columns = items.map fun i => i.lower.name
  rows : (f.rows.map (keyOf f.columns)).Perm (g.wantedRows S num df items)
  grouped : ∀ c ∈ keyRefs items, ∃ set ∈ g.sets, ∃ d ∈ set, d.meant df.columns = c.meant df.columns

omit [DecidableEq V] in
/-- The condition on a clause and a select list over an input with the columns `cols`: only the first
extension matters, every item that is no aggregate is a grouping column, a name means one column, and
the aliases do not get in the way. -/
structure GroupClause.Told (cols : List String) (g : GroupClause) (items : List (ExtItem V)) :
    Prop where
  plain : g.plain = true
  idle : ∀ d ∈ g.dropped, d.length = 1 ∧
    ∀ extra ∈ d, ∀ set ∈ g.kept, ∀ c ∈ extra, c.name ∈ set.map ColRef.name
  names : (items.map fun i => i.lower.name).Nodup
  dims : ∀ k ∈ keysOf (items.map ExtItem.lower), ∃ c : ColRef, k.1 = c.expr ∧
    ∃ set ∈ g.sets, c.name ∈ set.map ColRef.name
  known : ∀ c ∈ g.sets.flatten ++ keyRefs items ++ items.flatMap ExtItem.args,
    (c.meant cols).isSome = true
  named : ∀ c ∈ g.sets.flatten ++ keyRefs items ++ items.flatMap ExtItem.args,
    ∀ d ∈ g.sets.flatten ++ keyRefs items ++ items.flatMap ExtItem.args,
      c.name = d.name ↔ c.meant cols = d.meant cols
  captureless : ∀ set ∈ g.sets, Captureless cols
    (presentKeys (items.map ExtItem.lower) (set.map ColRef.name)) (aggsOf (items.map ExtItem.lower))

end Wanted

/-! ## 3. The sets that are enumerated -/

section Enumerated

mutual

theorem groupingColsOf_ok : ∀ {e : GroupExpr} {names : List String},
    groupingColsOf e = .ok names → names = e.refs.map ColRef.name
  | .column _, _, h => by
    cases h
    rfl
  | .paren e, _, h => groupingColsOf_ok (e := e) h
  | .tuple _, _, h => groupingColsOfAll_ok h
  | .other _, _, h => by cases h

theorem groupingColsOfAll_ok : ∀ {es : List GroupExpr} {names : List String},
    groupingColsOfAll es = .ok names → names = (refsAll es).map ColRef.name
  | [], _, h => by
    cases h
    rfl
  | e :: es, _, h => by
    obtain ⟨cols, hcols, h⟩ := bind_eq_ok.mp h
    obtain ⟨rest, hrest, h⟩ := bind_eq_ok.mp h
    cases h
    rw [groupingColsOf_ok hcols, groupingColsOfAll_ok hrest, refsAll, List.map_append]

end

theorem refsAll_eq : ∀ es : List GroupExpr, refsAll es = (es.map GroupExpr.refs).flatten
  | [] => rfl
  | e :: es => by rw [refsAll, refsAll_eq es, List.map_cons, List.flatten_cons]

theorem mapM_groupingColsOf : ∀ {es : List GroupExpr} {items : List (List String)},
    es.mapM groupingColsOf = .ok items → items = es.map fun e => e.refs.map ColRef.name
  | [], _, h => by
    cases h
    rfl
  | e :: es, items, h => by
    rw [List.mapM_cons] at h
    obtain ⟨cols, hcols, h⟩ := bind_eq_ok.mp h
    obtain ⟨rest, hrest, h⟩ := bind_eq_ok.mp h
    cases h
    rw [groupingColsOf_ok hcols, mapM_groupingColsOf hrest, List.map_cons]

/-- The names of a set, each once. -/
def setNames (set : List ColRef) : List String := withAlways [] (set.map ColRef.name)

theorem mem_setNames {set : List ColRef} {n : String} :
    n ∈ setNames set ↔ n ∈ set.map ColRef.name := by
  rw [setNames, withAlways, mem_foldl_addColumn]
  simp

theorem withAlways_setNames (always set : List ColRef) :
    withAlways (setNames always) (set.map ColRef.name) = setNames (always ++ set) := by
  rw [setNames, setNames, withAlways, withAlways, withAlways, List.map_append, List.foldl_append]

theorem chosen_names (items : List (List ColRef)) (mask : Nat) :
    Grouping.chosen (items.map (List.map ColRef.name)) mask =
      (Grouping.chosen items mask).map ColRef.name := by
  induction items generalizing mask with
  | nil => rfl
  | cons item items ih =>
    rw [List.map_cons, Grouping.chosen_cons, Grouping.chosen_cons, ih, List.map_append]
    split <;> rfl

/-- **The sets enumerated** are those of the plain items and the first extension, by their names. -/
theorem enumerated_kept {g : GroupClause} {dims : List String} {sets : List (List String)}
    (h : groupingExtensionSets g = .ok (dims, sets)) :
    ∃ es : List (List ColRef), es.Perm g.kept ∧ sets = es.map setNames := by
  obtain ⟨plain, hplain, h⟩ := bind_eq_ok.mp h
  have halways : withAlways [] plain = setNames g.always := by
    rw [groupingColsOfAll_ok hplain, refsAll_eq]
    rfl
  dsimp only at h
  rw [halways] at h
  -- a set of the extension together with the plain items
  have hset : ∀ set : List ColRef, withAlways (setNames g.always) (set.map ColRef.name) =
      setNames (g.always ++ set) := withAlways_setNames g.always
  split at h
  · rename_i es _ hr
    obtain ⟨items, hitems, h⟩ := bind_eq_ok.mp h
    cases h
    refine ⟨_, .refl _, ?_⟩
    rw [mapM_groupingColsOf hitems, GroupClause.kept, GroupClause.extensions, hr]
    simp only [List.map_cons, List.cons_append, List.head?_cons, Option.getD_some,
      Grouping.rollup_eq_take, List.length_map, List.map_map]
    refine List.map_congr_left fun k _ => ?_
    have hnames : (es.map fun e => e.refs.map ColRef.name) =
        (es.map GroupExpr.refs).map (List.map ColRef.name) := by
      rw [List.map_map]
      rfl
    rw [hnames, ← List.map_take, ← List.map_flatten, hset]
    rfl
  · rename_i es _ hr hc
    obtain ⟨items, hitems, h⟩ := bind_eq_ok.mp h
    cases h
    refine ⟨((List.range (2 ^ (es.map GroupExpr.refs).length)).map
      (Grouping.chosen (es.map GroupExpr.refs))).map (g.always ++ ·), ?_, ?_⟩
    · rw [GroupClause.kept, GroupClause.extensions, hr, hc]
      exact (Grouping.chosen_perm_cube _).map _
    · rw [mapM_groupingColsOf hitems]
      simp only [List.length_map, List.map_map]
      refine List.map_congr_left fun mask _ => ?_
      have hnames : (es.map fun e => e.refs.map ColRef.name) =
          (es.map GroupExpr.refs).map (List.map ColRef.name) := by
        rw [List.map_map]
        rfl
      rw [hnames, chosen_names, hset]
      rfl
  · rename_i es _ hr hc hs
    obtain ⟨items, hitems, h⟩ := bind_eq_ok.mp h
    cases h
    refine ⟨_, .refl _, ?_⟩
    rw [mapM_groupingColsOf hitems, GroupClause.kept, GroupClause.extensions, hr, hc, hs]
    simp only [List.map_nil, List.map_cons, List.nil_append, List.head?_cons, Option.getD_some,
      List.map_map]
    exact List.map_congr_left fun e _ => hset e.refs
  · cases h

/-- The sets of the clause, when every other extension has one set: each of the kept ones with the
columns of these. -/
theorem sets_eq {g : GroupClause} (h : ∀ d ∈ g.dropped, d.length = 1) (hne : g.kept ≠ []) :
    g.sets = g.kept.map (· ++ (g.dropped.map List.flatten).flatten) := by
  unfold GroupClause.sets GroupClause.kept GroupClause.dropped at *
  cases hx : g.extensions with
  | nil =>
    rw [hx] at hne
    exact absurd rfl hne
  | cons ext rest =>
    rw [hx] at h
    have hrest : rest = (rest.map List.flatten).map fun s => [s] := by
      rw [List.map_map]
      refine ((List.map_congr_left fun d hd => ?_).trans (List.map_id _)).symm
      obtain ⟨s, rfl⟩ := List.length_eq_one_iff.mp (h d hd)
      rw [Function.comp_apply, List.flatten_singleton]
      rfl
    have halways : (g.expressions.map fun e => [e.refs]) =
        (g.expressions.map GroupExpr.refs).map fun s => [s] := by
      rw [List.map_map]
      rfl
    rw [Grouping.cross_append, halways, Grouping.cross_singletons, List.flatMap_singleton,
      Grouping.cross, List.head?_cons, Option.getD_some, List.tail_cons, List.map_map]
    have hcross : Grouping.cross rest = [(rest.map List.flatten).flatten] := by
      rw [congrArg Grouping.cross hrest, Grouping.cross_singletons]
    have hone : (ext.flatMap fun s => [(rest.map List.flatten).flatten].map (s ++ ·)) =
        ext.map (· ++ (rest.map List.flatten).flatten) := List.map_eq_flatMap.symm
    rw [hcross, hone, List.map_map]
    exact List.map_congr_left fun s _ => (List.append_assoc _ _ _).symm

end Enumerated

/-! ## 4. The rows of one set -/

section OneSet

variable [DecidableEq V] {S : Scalars V} {num : Nat → V} {df : Frame V}

/-- Expressions on which the same rows agree make the same groups. -/
theorem partitionBy_eq {es es' : List (Expr V)} (hnil : es = [] ↔ es' = [])
    (h : ∀ r ∈ df.rows, ∀ r' ∈ df.rows,
      (∀ e ∈ es, e.value S df.columns r = e.value S df.columns r') ↔
        ∀ e ∈ es', e.value S df.columns r = e.value S df.columns r') :
    partitionBy S df es = partitionBy S df es' := by
  unfold partitionBy
  by_cases hes : es = []
  · rw [hes, hnil.mp hes]
  · have hes' : es' ≠ [] := fun h' => hes (hnil.mpr h')
    rw [if_neg (by simpa using hes), if_neg (by simpa using hes')]
    refine Grouping.groups_congr fun r hr r' hr' => ?_
    rw [List.map_inj_left, List.map_inj_left]
    exact h r hr r' hr'

omit [DecidableEq V] in
/-- The number of the bits from the left, as `grouping_value` adds them. -/
theorem groupingValue_eq_bitmap (present cols : List String) :
    groupingValue present cols = bitmap (cols.map fun c => decide (c ∉ present)) := by
  suffices hfold : ∀ (cols : List String) (v : Nat),
      cols.foldl (fun v c => 2 * v + if c ∈ present then 0 else 1) v =
        v * 2 ^ cols.length + bitmap (cols.map fun c => decide (c ∉ present)) by
    rw [groupingValue, hfold, Nat.zero_mul, Nat.zero_add]
  intro cols
  induction cols with
  | nil => intro v; simp [bitmap]
  | cons c cols ih =>
    intro v
    rw [List.foldl_cons, ih, List.map_cons, bitmap, List.length_map, List.length_cons, Nat.pow_succ]
    have hshift : v * (2 ^ cols.length * 2) = 2 * v * 2 ^ cols.length := by
      rw [← Nat.mul_assoc, Nat.mul_comm, ← Nat.mul_assoc]
    rw [hshift, Nat.add_mul, Nat.add_assoc]
    by_cases hc : c ∈ present <;> simp [hc]

omit [DecidableEq V] in
/-- A column reference means the column itself. -/
theorem ColRef.value_expr {c : ColRef} {cols : List String} (r : Row V) :
    (c.expr : Expr V).value S cols r = (c.meant cols).bind r := rfl

omit [DecidableEq V] in
theorem mem_presentColumns {cols : List String} {set : List ColRef} {m : String} :
    m ∈ presentColumns cols set ↔ ∃ d ∈ set, d.meant cols = some m := List.mem_filterMap

omit [DecidableEq V] in
/-- The reference of a key that is a column. -/
theorem mem_keyRefs {items : List (ExtItem V)} {c : ColRef} {n : String}
    (h : ((c.expr : Expr V), n) ∈ keysOf (items.map ExtItem.lower)) : c ∈ keyRefs items :=
  List.mem_flatMap.mpr ⟨_, h, List.mem_singleton.mpr rfl⟩

omit [DecidableEq V] in
/-- A name of a set means a column the set groups by. -/
theorem mem_present_of_name {cols : List String} {set refs : List ColRef} {c : ColRef} {m : String}
    (hset : ∀ d ∈ set, d ∈ refs) (hc : c ∈ refs)
    (hnamed : ∀ c ∈ refs, ∀ d ∈ refs, c.name = d.name ↔ c.meant cols = d.meant cols)
    (hm : c.meant cols = some m) :
    m ∈ presentColumns cols set ↔ c.name ∈ set.map ColRef.name := by
  rw [mem_presentColumns, List.mem_map]
  refine exists_congr fun d => and_congr_right fun hd => ?_
  rw [← hm, eq_comm (a := d.name)]
  exact ⟨fun h => (hnamed c hc d (hset d hd)).mpr h.symm,
    fun h => ((hnamed c hc d (hset d hd)).mp h).symm⟩

variable {g : GroupClause} {items : List (ExtItem V)} {set : List ColRef} {t : List String}

/-- A set of names and a set of references make the same groups. -/
theorem partitionBy_set (ht : g.Told df.columns items) (hset : set ∈ g.sets)
    (hnames : ∀ n, n ∈ t ↔ n ∈ set.map ColRef.name)
    (hshown : ∀ n ∈ t, n ∈ (keysOf (items.map ExtItem.lower)).map dimName) :
    partitionBy S df ((presentKeys (items.map ExtItem.lower) t).map Prod.fst) =
      partitionBy S df (set.map ColRef.expr) := by
  have hin : ∀ d ∈ set, d ∈ g.sets.flatten ++ keyRefs items ++ items.flatMap ExtItem.args :=
    fun d hd => List.mem_append_left _ (List.mem_append_left _
      (List.mem_flatten.mpr ⟨set, hset, hd⟩))
  -- a key that is present has a reference of the set with its name and its meaning
  have hkey : ∀ k ∈ presentKeys (items.map ExtItem.lower) t, ∃ d ∈ set, ∃ c : ColRef,
      k.1 = c.expr ∧ c.meant df.columns = d.meant df.columns := by
    intro k hk
    obtain ⟨hk, hdim⟩ := List.mem_filter.mp hk
    obtain ⟨c, hc, -⟩ := ht.dims k hk
    have hname : dimName k = c.name := by rw [dimName, hc]; rfl
    obtain ⟨d, hd, hdname⟩ := List.mem_map.mp ((hnames _).mp (of_decide_eq_true hdim))
    have hcref : c ∈ keyRefs items := mem_keyRefs (n := k.2) (hc ▸ hk)
    refine ⟨d, hd, c, hc, (ht.named c ?_ d (hin d hd)).mp (hname ▸ hdname.symm)⟩
    exact List.mem_append_left _ (List.mem_append_right _ hcref)
  have hback : ∀ d ∈ set, ∃ k ∈ presentKeys (items.map ExtItem.lower) t, ∃ c : ColRef,
      k.1 = c.expr ∧ c.meant df.columns = d.meant df.columns := by
    intro d hd
    have hdt : d.name ∈ t := (hnames _).mpr (List.mem_map_of_mem hd)
    obtain ⟨k, hk, hname⟩ := List.mem_map.mp (hshown _ hdt)
    obtain ⟨c, hc, -⟩ := ht.dims k hk
    have hdim : dimName k = c.name := by rw [dimName, hc]; rfl
    have hcref : c ∈ keyRefs items := mem_keyRefs (n := k.2) (hc ▸ hk)
    refine ⟨k, List.mem_filter.mpr ⟨hk, decide_eq_true (hname ▸ hdt)⟩, c, hc,
      (ht.named c ?_ d (hin d hd)).mp (hdim ▸ hname)⟩
    exact List.mem_append_left _ (List.mem_append_right _ hcref)
  refine partitionBy_eq ?_ fun r _ r' _ => ?_
  · rw [List.map_eq_nil_iff, List.map_eq_nil_iff, List.eq_nil_iff_forall_not_mem,
      List.eq_nil_iff_forall_not_mem]
    constructor
    · intro h d hd
      obtain ⟨k, hk, -⟩ := hback d hd
      exact h k hk
    · intro h k hk
      obtain ⟨d, hd, -⟩ := hkey k hk
      exact h d hd
  · simp only [List.forall_mem_map]
    constructor
    · intro h d hd
      obtain ⟨k, hk, c, hc, hmeant⟩ := hback d hd
      have hval := h k hk
      rw [hc, ColRef.value_expr, ColRef.value_expr, hmeant] at hval
      exact hval
    · intro h k hk
      obtain ⟨d, hd, c, hc, hmeant⟩ := hkey k hk
      rw [hc, ColRef.value_expr, ColRef.value_expr, hmeant]
      exact h d hd

/-- **An item of a branch** is the item wanted. -/
theorem itemAt_wanted (ht : g.Told df.columns items) (hset : set ∈ g.sets)
    (hnames : ∀ n, n ∈ t ↔ n ∈ set.map ColRef.name) (rows : List (Row V)) {i : ExtItem V}
    (hi : i ∈ items) : itemAt S num df.columns (.group (some t) rows) i.lower =
      i.wanted S num df.columns set rows := by
  have hin : ∀ d ∈ set, d ∈ g.sets.flatten ++ keyRefs items ++ items.flatMap ExtItem.args :=
    fun d hd => List.mem_append_left _ (List.mem_append_left _
      (List.mem_flatten.mpr ⟨set, hset, hd⟩))
  cases i with
  | item i h =>
    cases hv : i.value with
    | grouping cs =>
      rw [hv] at h
      cases h
    | agg a => simp only [itemAt, ExtItem.lower, ExtItem.wanted, hv]
    | expr e =>
      simp only [itemAt, ExtItem.lower, ExtItem.wanted, hv, isPresent]
      have hk : (e, i.name) ∈ keysOf (items.map ExtItem.lower) :=
        mem_keysOf.mpr ⟨i, List.mem_map.mpr ⟨_, hi, rfl⟩, hv, rfl⟩
      obtain ⟨c, hc, -⟩ := ht.dims _ hk
      dsimp only at hc
      subst hc
      have href : c ∈ g.sets.flatten ++ keyRefs items ++ items.flatMap ExtItem.args :=
        List.mem_append_left _ (List.mem_append_right _ (mem_keyRefs hk))
      obtain ⟨m, hm⟩ := Option.isSome_iff_exists.mp (ht.known c href)
      have hpresent := mem_present_of_name hin href ht.named hm
      have hdim : dimName ((c.expr : Expr V), i.name) = c.name := rfl
      simp only [hdim, ColRef.value_expr, hm, Option.bind_some, groupRow, hpresent, hnames,
        decide_eq_true_eq]
  | grouping args aliasName =>
    simp only [itemAt, ExtItem.lower, ExtItem.wanted, SelectItem.value, Option.getD_some]
    rw [groupingValue_eq_bitmap, List.map_map]
    refine congrArg (fun bits => some (num (bitmap bits))) (List.map_congr_left fun c hc => ?_)
    have href : c ∈ g.sets.flatten ++ keyRefs items ++ items.flatMap ExtItem.args :=
      List.mem_append_right _ (List.mem_flatMap.mpr ⟨_, hi, hc⟩)
    obtain ⟨m, hm⟩ := Option.isSome_iff_exists.mp (ht.known c href)
    rw [Function.comp_apply, omitted, hm, Option.all_some]
    refine decide_eq_decide.mpr (not_congr ?_)
    rw [hnames, mem_present_of_name hin href ht.named hm]

/-- **The branch of a set** shows the rows wanted for it. -/
theorem setOrigins_wanted (ht : g.Told df.columns items) (hset : set ∈ g.sets)
    (hnames : ∀ n, n ∈ t ↔ n ∈ set.map ColRef.name)
    (hshown : ∀ n ∈ t, n ∈ (keysOf (items.map ExtItem.lower)).map dimName) :
    ((setOrigins S df (items.map ExtItem.lower) t).map fun o =>
      (items.map ExtItem.lower).map (itemAt S num df.columns o)) = setRows S num df items set := by
  rw [setOrigins, partitionBy_set ht hset hnames hshown, List.map_map, setRows]
  refine List.map_congr_left fun rows _ => ?_
  rw [Function.comp_apply, List.map_map]
  exact List.map_congr_left fun i hi => itemAt_wanted ht hset hnames rows hi

end OneSet

/-! ## 5. One input row -/

section OneRow

variable [DecidableEq V] {S : Scalars V} {num : Nat → V} {D : Database V} {plan : PlanNode V}
  {df : Frame V}

theorem partitionBy_single (h : df.rows.length = 1) (es : List (Expr V)) :
    (partitionBy S df es).length = 1 := by
  unfold partitionBy
  split
  · rfl
  · obtain ⟨r, hr⟩ := List.length_eq_one_iff.mp h
    simp [hr]

omit [DecidableEq V] in
theorem withKeys_length : ∀ {keys : List (Expr V × String)} {f work : Frame V},
    withKeys S f keys = .ok work → work.rows.length = f.rows.length
  | [], _, _, h => by
    cases h
    rfl
  | (e, n) :: keys, f, work, h => by
    unfold withKeys at h
    split at h
    · exact withKeys_length h
    · obtain ⟨_, -, h⟩ := bind_eq_ok.mp h
      rw [withKeys_length h, withColumn, Frame.ofRows_rows, List.length_map, List.length_map]

/-- An aggregate of one row has one row. -/
theorem aggregate_single {keys : List (Expr V × String)} {aggs : List (AggFunc V × String)}
    {g : Frame V} (h : df.rows.length = 1) (hg : aggregateFrame S df keys aggs = .ok g) :
    g.rows.length = 1 := by
  obtain ⟨work, hw, -, rfl⟩ := aggregateFrame_ok.mp hg
  split
  · unfold scalarGlobalAgg
    split <;> rfl
  · have hlen := (withKeys_length hw).trans h
    obtain ⟨r, hr⟩ := List.length_eq_one_iff.mp hlen
    simp [fusedAgg, hr]

/-- The branch of a set has one row. -/
theorem branch_single {items : List (SelectItem V)} {t : List String} {f : Frame V}
    (h : df.rows.length = 1) (hdf : exec S D plan = .ok df)
    (hf : exec S D (branch num plan items t) = .ok f) : f.rows.length = 1 := by
  obtain ⟨g, hg, hf⟩ := bind_eq_ok.mp hf
  obtain ⟨df', hdf', hg⟩ := bind_eq_ok.mp hg
  cases hdf'.symm.trans hdf
  obtain ⟨-, rfl⟩ := projectFrame_ok.mp hf
  rw [Frame.ofRows_rows, List.length_map, List.length_map]
  exact aggregate_single h hg

theorem union_length {left right f : Frame V} (h : setopFrames .union false left right = .ok f) :
    f.rows.length = left.rows.length + right.rows.length := by
  unfold setopFrames at h
  split at h
  · cases h
  · cases h
    simp [relabel]

/-- A UNION ALL of nodes of one row has as many rows as there are nodes. -/
theorem unions_length : ∀ {bs : List (PlanNode V)} {acc : PlanNode V} {n : Nat} {f : Frame V},
    (∀ g, exec S D acc = .ok g → g.rows.length = n) →
    (∀ b ∈ bs, ∀ g, exec S D b = .ok g → g.rows.length = 1) →
    exec S D (bs.foldl (fun acc b => .setOp acc b .union false) acc) = .ok f →
      f.rows.length = n + bs.length
  | [], _, _, f, hacc, _, hf => hacc f hf
  | b :: bs, acc, n, f, hacc, hbs, hf => by
    have hstep : ∀ g, exec S D (.setOp acc b .union false) = .ok g → g.rows.length = n + 1 := by
      intro g hg
      obtain ⟨left, hl, hg⟩ := bind_eq_ok.mp hg
      obtain ⟨right, hr, hg⟩ := bind_eq_ok.mp hg
      rw [union_length hg, hacc left hl, hbs b List.mem_cons_self right hr]
    rw [unions_length hstep (fun b' hb' => hbs b' (List.mem_cons_of_mem _ hb')) hf,
      List.length_cons]
    omega

theorem wantedRows_single (h : df.rows.length = 1) (g : GroupClause) (items : List (ExtItem V)) :
    (g.wantedRows S num df items).length = g.sets.length := by
  have hone : ∀ set, (setRows S num df items set).length = 1 := fun set => by
    rw [setRows, List.length_map, partitionBy_single h]
  rw [GroupClause.wantedRows, List.length_flatMap]
  simp [hone]

omit [DecidableEq V] in
/-- The number of sets of the clause. -/
theorem length_sets {g : GroupClause} (hne : g.kept ≠ []) :
    g.sets.length = g.kept.length * (g.dropped.map List.length).prod := by
  unfold GroupClause.sets GroupClause.kept GroupClause.dropped at *
  have hplain : ∀ es : List GroupExpr,
      ((es.map fun e => [e.refs]).map List.length).prod = 1 := by
    intro es
    induction es with
    | nil => rfl
    | cons e es ih => rw [List.map_cons, List.map_cons, List.prod_cons, ih]; rfl
  rw [Grouping.length_cross, List.map_append, List.prod_append, hplain, Nat.one_mul]
  cases hx : g.extensions with
  | nil =>
    rw [hx] at hne
    exact absurd rfl hne
  | cons ext rest => simp

end OneRow

/-! ## 6. The subtotals -/

section Main

variable [DecidableEq V] {S : Scalars V} {num : Nat → V} {D : Database V} {plan p : PlanNode V}
  {df f : Frame V} {g : GroupClause} {items : List (ExtItem V)}
  {having : Option (Expr V × List (AggFunc V))}

omit [DecidableEq V] in
/-- An accepted clause: its first set and the others, the columns of which the list shows. -/
theorem buildExtension_ok (h : buildExtension num plan g items having = .ok p) :
    having = none ∧ ∃ dims set sets, groupingExtensionSets g = .ok (dims, set :: sets) ∧
      (∀ c ∈ (set :: sets).flatten, c ∈ (keysOf (items.map ExtItem.lower)).map dimName) ∧
      (∀ c ∈ items.flatMap ExtItem.args, c.name ∈ dims) ∧
      p = (sets.map (branch num plan (items.map ExtItem.lower))).foldl
        (fun acc b => .setOp acc b .union false)
        (branch num plan (items.map ExtItem.lower) set) := by
  unfold buildExtension at h
  split at h
  · cases h
  · rename_i hh
    refine ⟨by simpa using hh, ?_⟩
    obtain ⟨⟨dims, sets⟩, hsets, h⟩ := bind_eq_ok.mp h
    dsimp only at h
    split at h
    · cases h
    · rename_i hkeys
      split at h
      · cases h
      · rename_i hargs
        cases sets with
        | nil => cases h
        | cons set sets =>
          cases h
          refine ⟨dims, set, sets, hsets, fun c hc => ?_, fun c hc => ?_, rfl⟩
          · simpa using List.filter_eq_nil_iff.mp hkeys c hc
          · simpa using List.filter_eq_nil_iff.mp hargs c hc

/-- The result of a clause that fits. -/
theorem subtotals_of_told (hp : buildExtension num plan g items having = .ok p)
    (hdf : exec S D plan = .ok df) (hf : exec S D p = .ok f) (ht : g.Told df.columns items) :
    Subtotals S num df g items f := by
  obtain ⟨-, dims, set, sets, hsets, hshown, -, rfl⟩ := buildExtension_ok hp
  obtain ⟨es, hperm, hes⟩ := enumerated_kept hsets
  have hne : g.kept ≠ [] := by
    intro hnil
    rw [hnil] at hperm
    rw [hperm.eq_nil] at hes
    cases hes
  have hall := sets_eq (fun d hd => (ht.idle d hd).1) hne
  -- the columns of the other extensions are in every set
  have hnames : ∀ k ∈ g.kept, ∀ n, n ∈ setNames k ↔
      n ∈ (k ++ (g.dropped.map List.flatten).flatten).map ColRef.name := by
    intro k hk n
    rw [mem_setNames, List.map_append, List.mem_append]
    refine ⟨.inl, fun h => h.elim id fun h => ?_⟩
    obtain ⟨c, hc, rfl⟩ := List.mem_map.mp h
    obtain ⟨d, hd, hc⟩ := List.mem_flatten.mp hc
    obtain ⟨d, hdropped, rfl⟩ := List.mem_map.mp hd
    obtain ⟨extra, hextra, hc⟩ := List.mem_flatten.mp hc
    exact (ht.idle d hdropped).2 extra hextra k hk c hc
  have hmem : ∀ k ∈ g.kept, k ++ (g.dropped.map List.flatten).flatten ∈ g.sets := by
    intro k hk
    rw [hall]
    exact List.mem_map_of_mem hk
  have hlower : (items.map ExtItem.lower).map SelectItem.name =
      items.map fun i => i.lower.name := by
    rw [List.map_map]
    rfl
  have hlists := lists_grouping (hlower ▸ ht.names) (fun t hmemt => ?_) hdf hf
  · refine ⟨hlists.columns.trans hlower, ?_, fun c hc => ?_⟩
    · rw [hlists.columns, hlists.rows, hes, List.flatMap_map, List.map_flatMap,
        GroupClause.wantedRows, hall, List.flatMap_map]
      refine (List.Perm.flatMap_right _ hperm).trans (.of_eq (List.flatMap_congr fun k hk => ?_))
      refine setOrigins_wanted ht (hmem k hk) (hnames k hk) fun n hn => ?_
      refine hshown n (List.mem_flatten.mpr ⟨setNames k, ?_, hn⟩)
      rw [hes]
      exact List.mem_map_of_mem (hperm.mem_iff.mpr hk)
    · obtain ⟨x, hx, hcx⟩ := List.mem_flatMap.mp hc
      obtain ⟨d, hd, set', hset', hname⟩ := ht.dims x hx
      rw [hd] at hcx
      cases List.mem_singleton.mp hcx
      obtain ⟨c', hc', hname⟩ := List.mem_map.mp hname
      refine ⟨set', hset', c', hc', (ht.named c' ?_ _ ?_).mp hname⟩
      · exact List.mem_append_left _ (List.mem_append_left _
          (List.mem_flatten.mpr ⟨set', hset', hc'⟩))
      · exact List.mem_append_left _ (List.mem_append_right _ hc)
  · rw [hes] at hmemt
    obtain ⟨k, hk, rfl⟩ := List.mem_map.mp hmemt
    have hkept := hperm.mem_iff.mp hk
    have hsame : presentKeys (items.map ExtItem.lower) (setNames k) =
        presentKeys (items.map ExtItem.lower)
          ((k ++ (g.dropped.map List.flatten).flatten).map ColRef.name) :=
      List.filter_congr fun x _ => decide_eq_decide.mpr (hnames k hkept (dimName x))
    rw [hsame]
    exact ht.captureless _ (hmem k hkept)

/-- On one input row the result has a row for each set of the first extension. -/
theorem single_of_subtotals (hp : buildExtension num plan g items having = .ok p)
    (hdf : exec S D plan = .ok df) (hf : exec S D p = .ok f) (hone : df.rows.length = 1)
    (hsub : Subtotals S num df g items f) : ∀ d ∈ g.dropped, d.length = 1 := by
  obtain ⟨-, dims, set, sets, hsets, -, -, rfl⟩ := buildExtension_ok hp
  obtain ⟨es, hperm, hes⟩ := enumerated_kept hsets
  have hkept : g.kept.length = sets.length + 1 := by
    rw [← hperm.length_eq, ← List.length_map (f := setNames), ← hes, List.length_cons]
  have hne : g.kept ≠ [] := List.ne_nil_of_length_pos (by omega)
  have hrows : f.rows.length = 1 + sets.length := by
    rw [unions_length (fun _ hg => branch_single hone hdf hg) (fun b hb g' hg' => ?_) hf,
      List.length_map]
    obtain ⟨t, -, rfl⟩ := List.mem_map.mp hb
    exact branch_single hone hdf hg'
  have hlen := hsub.rows.length_eq
  rw [List.length_map, wantedRows_single hone, length_sets hne, hrows, hkept] at hlen
  have hprod : (g.dropped.map List.length).prod = 1 := by
    refine Nat.eq_of_mul_eq_mul_left (Nat.succ_pos sets.length) ?_
    rw [Nat.mul_one, Nat.succ_eq_add_one, ← hlen, Nat.add_comm]
  intro d hd
  have hdvd : d.length ∣ (g.dropped.map List.length).prod :=
    List.dvd_prod (List.mem_map_of_mem hd)
  rw [hprod] at hdvd
  exact Nat.dvd_one.mp hdvd

/-- A result with a column for each item has items with different names. -/
theorem names_of_subtotals (hp : buildExtension num plan g items having = .ok p)
    (hf : exec S D p = .ok f) (hsub : Subtotals S num df g items f) :
    (items.map fun i => i.lower.name).Nodup := by
  obtain ⟨-, dims, set, sets, -, -, -, rfl⟩ := buildExtension_ok hp
  have hcols := exec_columns hf
  rw [outColumns_unions, hsub.columns] at hcols
  change _ = (((items.map ExtItem.lower).map (branchItem num set)).map Prod.snd).foldl addColumn [] at hcols
  rw [map_snd_branchItem, List.map_map] at hcols
  exact nodup_of_length (congrArg List.length hcols.symm)

end Main

/-- The column `p`. -/
def refP : ColRef := ⟨"p", none⟩

/-- `SELECT p, COUNT(*), GROUPING(p)`. -/
def rollupList : List (ExtItem Nat) := [.item itemP rfl, .item itemCount rfl, .grouping [refP] none]

/-- `GROUP BY ROLLUP (p)`. -/
def rollupP : GroupClause := ⟨[], [[.column refP]], [], []⟩

/-- `GROUP BY ROLLUP (p), ROLLUP (q)`. -/
def rollupTwice : GroupClause := ⟨[], [[.column refP], [.column ⟨"q", none⟩]], [], []⟩

theorem rollupP_told : rollupP.Told ["p", "q", "r"] rollupList := by
  have hall : ∀ c ∈ rollupP.sets.flatten ++ keyRefs rollupList ++ rollupList.flatMap ExtItem.args,
      c = refP := by decide
  refine ⟨rfl, nofun, by decide, fun k hk => ?_, fun c hc => ?_, fun c hc d hd => ?_,
    fun set hset => ⟨fun k hk _ => ?_, fun k hk hout => ?_, fun a ha e he => ?_⟩⟩
  · cases List.mem_singleton.mp hk
    exact ⟨refP, rfl, [refP], by decide, by decide⟩
  · rw [hall c hc]
    rfl
  · rw [hall c hc, hall d hd]
    exact iff_of_true rfl rfl
  · cases List.mem_singleton.mp (List.mem_filter.mp hk).1
    exact ⟨none, rfl, rfl⟩
  · cases List.mem_singleton.mp (List.mem_filter.mp hk).1
    exact absurd List.mem_cons_self hout
  · cases List.mem_singleton.mp ha
    cases he

/-- The plan of `GROUP BY ROLLUP (p)`. -/
def rollupPlan : PlanNode Nat :=
  .setOp (branch id (.scan "u" none (some "u")) (rollupList.map ExtItem.lower) ["p"])
    (branch id (.scan "u" none (some "u")) (rollupList.map ExtItem.lower) []) .union false

end RyuDB.Sql
