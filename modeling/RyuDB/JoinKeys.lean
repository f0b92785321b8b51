/-
# How join conditions become join keys

`_build_select` lowers the FROM list from left to right: every JOIN adds one relation to the plan
so far.  `_join_spec` turns its condition into pairs of column names, one name of either side, and
`_route_join_cols` decides for an equality `a.x = b.y` which of the two names is the left one.  It
asks first whether the bare names are columns of the base tables on either side, and looks at the
qualifiers only when that says nothing.

* `Scope` is what SQL reads of a FROM list: the relations with their aliases and columns, and which
  relation a bare column name of the joined rows still belongs to.
* `Meant` says that the keys of a join are those its condition means, and `Routed` says of the
  inputs when `_route_join_cols` finds them.  `join_keys_meant` is the equivalence, for every join
  of every FROM list that is accepted.
* An equality of two columns of one side always becomes a key, so it is never what was meant.  Over
  base tables an equality written with the new relation on the left goes wrong exactly when both
  names are columns on both sides, as in a self-join.

A relation of a `Scope` has one alias and the columns of its table.  Lists of column aliases, as in
`FROM t AS a(p, q)`, have no form here; `_table_ref` takes the alias and does not read them.
-/
import RyuDB.Columns

namespace RyuDB.Sql

namespace Parse

variable {V : Type}

/-! ## 1. The syntax of FROM -/

/-- A column of a condition; the qualifier is "" without one. -/
structure ColRef where
  table : String
  name : String
  deriving DecidableEq, Repr

/-- An ON condition.  `other` is any conjunct that is no equality of two columns. -/
inductive OnExpr (V : Type) where
  | and (left right : OnExpr V)
  | eq (left right : ColRef)
  | other (e : Expr V)

/-- `_flatten_and`. -/
def flattenAnd : OnExpr V → List (OnExpr V)
  | .and l r => flattenAnd l ++ flattenAnd r
  | e => [e]

/-- What stands after FROM or JOIN; a subquery is given by the plan `_build_query` makes of it. -/
inductive TableNode (V : Type) where
  | subquery (plan : PlanNode V) (aliasName : String)
  | table (name aliasName : String)

/-- `Join.side`. -/
inductive JoinSide where
  | none
  | left
  | right
  | full
  deriving DecidableEq, Repr

/-- `Join.kind`. -/
inductive JoinKind where
  | none
  | inner
  | outer
  | cross
  deriving DecidableEq, Repr

/-- A JOIN of the FROM list. -/
structure JoinNode (V : Type) where
  ref : TableNode V
  natural : Bool
  side : JoinSide
  kind : JoinKind
  on : Option (OnExpr V)
  usingCols : List String

/-! ## 2. The lowering -/

/-- The schema and the CTEs in scope. -/
structure Env (V : Type) where
  schema : Option (Dict String (List String))
  ctes : Dict String (PlanNode V)

/-- `schema.get(t, [])`. -/
def Env.columnsOf (env : Env V) (t : String) : List String :=
  ((env.schema.getD ∅).get? t).getD []

/-- `_table_ref`: the source, the alias and the name that routing looks up. -/
def tableRef (env : Env V) : TableNode V → Except DbError (PlanNode V × String × String)
  | .subquery plan a =>
    if a = "" then .error (.parse "subquery in FROM must have an alias (e.g. FROM (...) AS t)")
    else .ok (.derived plan a, a, a)
  | .table name a =>
    let al := if a = "" then name else a
    match env.ctes.get? name with
    | some plan => .ok (.derived plan al, al, al)
    | none =>
      if name = "" then .error (.parse "table reference has no name")
      else .ok (.scan name none (some al), al, name)

/-- The tables of `_walk_scans`: the scans outside the derived relations. -/
def walkScans : PlanNode V → List String
  | .scan t _ _ => [t]
  | .derived _ _ => []
  | .filter input _ => walkScans input
  | .project input _ => walkScans input
  | .join l r _ => walkScans l ++ walkScans r
  | .aggregate input _ _ => walkScans input
  | .window input _ => walkScans input
  | .sort input _ => walkScans input
  | .limit input _ _ => walkScans input
  | .distinct input => walkScans input
  | .setOp l r _ _ => walkScans l ++ walkScans r

/-- `_side_how`. -/
def sideHow : JoinSide → JoinKind → JoinHow
  | .left, _ => .left
  | .right, _ => .right
  | .full, _ => .full
  | .none, .outer => .full
  | .none, _ => .inner

/-- The columns of the tables on the left. -/
def Env.leftCols (env : Env V) (leftTables : List String) : List String :=
  (leftTables.map env.columnsOf).flatten

/-- `_common_columns`. -/
def commonColumns (env : Env V) (leftTables : List String) (rtable : String) : List String :=
  sortedSet ((env.leftCols leftTables).filter (· ∈ env.columnsOf rtable))

/-- `_route_join_cols`: the column of the left relation and the column of the right one. -/
def routeJoinCols (env : Env V) (leftTables : List String) (rtable : String) (l r : ColRef) :
    String × String :=
  let right := env.columnsOf rtable
  let left := env.leftCols leftTables
  if r.name ∈ right ∧ r.name ∉ left then (l.name, r.name)
  else if l.name ∈ right ∧ l.name ∉ left then (r.name, l.name)
  else if r.name ∈ right then (l.name, r.name)
  else if l.name ∈ right then (r.name, l.name)
  -- no name is a column of the right table: the qualifier decides
  else if l.table = rtable then (r.name, l.name)
  else (l.name, r.name)

/-- The key pair of a conjunct, when it becomes one. -/
def equiKey (env : Env V) (leftTables : List String) (rtable : String) :
    OnExpr V → Option (String × String)
  | .eq l r => some (routeJoinCols env leftTables rtable l r)
  | _ => none

/-- What a conjunct leaves for the predicate of the join. -/
def leftoverOf : OnExpr V → Option (Expr V)
  | .other e => some e
  | _ => none

/-- `_conjoin`, and `None` for no part. -/
def conjoinAll : List (Expr V) → Option (Expr V)
  | [] => none
  | e :: es => some (conjoin e es)

/-- `_join_keys`: the key pairs and the predicate that is left. -/
def joinKeys (env : Env V) (leftTables : List String) (rtable : String) (j : JoinNode V) :
    Except DbError (List (String × String) × Option (Expr V)) :=
  if j.usingCols ≠ [] then .ok (j.usingCols.map fun c => (c, c), none)
  else match j.on with
    | none => .error (.notImplemented "JOIN requires an ON or USING clause")
    | some on =>
      match (flattenAnd on).filterMap (equiKey env leftTables rtable) with
      | [] => .error (.notImplemented "only equi-joins are supported")
      | k :: ks => .ok (k :: ks, conjoinAll ((flattenAnd on).filterMap leftoverOf))

/-- `_join_spec`: how to join, the key pairs and the predicate. -/
def joinSpec (env : Env V) (leftTables : List String) (rtable : String) (j : JoinNode V) :
    Except DbError (JoinHow × List (String × String) × Option (Expr V)) :=
  if j.natural then
    if env.schema.isNone then .error (.notImplemented "NATURAL joins require a table schema")
    else match commonColumns env leftTables rtable with
      | [] => .ok (.cross, [], none)
      | c :: cs => .ok (sideHow j.side j.kind, (c :: cs).map fun c => (c, c), none)
  else if j.kind = .cross then
    if j.on.isNone then .ok (.cross, [], none)
    else (joinKeys env leftTables rtable j).map fun k => (.inner, k)
  else (joinKeys env leftTables rtable j).map fun k => (sideHow j.side j.kind, k)

/-- The condition of a coalescing join: no other column name on both sides. -/
def sharedNonkey (env : Env V) (leftTables : List String) (rtable : String) (j : JoinNode V)
    (keys : List (String × String)) : Bool :=
  env.schema.isSome && (j.natural || !j.usingCols.isEmpty) &&
    (env.leftCols leftTables).any fun c =>
      decide (c ∈ env.columnsOf rtable ∧ c ∉ keys.map Prod.fst)

/-- One round of the loop over the joins of `_build_select`. -/
def buildJoin (env : Env V) (plan : PlanNode V) (j : JoinNode V) : Except DbError (PlanNode V) := do
  let (source, _, rname) ← tableRef env j.ref
  let (how, keys, pred) ← joinSpec env (walkScans plan) rname j
  if sharedNonkey env (walkScans plan) rname j keys then
    .error (.notImplemented ("USING/NATURAL join with a colliding non-key column is not " ++
      "supported; use ON with qualified columns"))
  else .ok (.join plan source ⟨keys.map Prod.fst, keys.map Prod.snd, how, pred,
    j.natural || !j.usingCols.isEmpty⟩)

/-- The FROM list of `_build_select`. -/
def buildFrom (env : Env V) (base : TableNode V) (joins : List (JoinNode V)) :
    Except DbError (PlanNode V) := do
  let (source, _, _) ← tableRef env base
  joins.foldlM (buildJoin env) source

/-! ## 3. What SQL reads of a FROM list -/

/-- A relation of a FROM list: its alias, the name routing looks up, its columns, and whether it is
a table of the catalog. -/
structure Relation where
  aliasName : String
  rname : String
  columns : List String
  base : Bool
  deriving DecidableEq, Repr

/-- The relations joined so far, and the aliases whose column the joined rows have under a bare
name. -/
structure Scope where
  rels : List Relation
  origin : String → List String

/-- The relation behind a node, over a catalog with the columns `cat`. -/
def relationOf (cat : Dict String (List String)) (ctes : Dict String (PlanNode V)) :
    TableNode V → Relation
  | .subquery plan a => ⟨a, a, outColumns cat plan, false⟩
  | .table name a =>
    let al := if a = "" then name else a
    match ctes.get? name with
    | some plan => ⟨al, al, outColumns cat plan, false⟩
    | none => ⟨al, name, (cat.get? name).getD [], true⟩

/-- The column of a reference is one of the relation. -/
def Relation.Has (r : Relation) (a : ColRef) : Prop := r.aliasName = a.table ∧ a.name ∈ r.columns

namespace Scope

/-- The columns of the relations. -/
def columns (s : Scope) : List String := (s.rels.map Relation.columns).flatten

/-- The relations that are tables of the catalog. -/
def bases (s : Scope) : List Relation := s.rels.filter Relation.base

/-- The columns of these. -/
def baseColumns (s : Scope) : List String := (s.bases.map Relation.columns).flatten

/-- The names of these tables. -/
def tables (s : Scope) : List String := s.bases.map Relation.rname

/-- The column of a reference is one of a relation of the scope. -/
def Has (s : Scope) (a : ColRef) : Prop := ∃ r ∈ s.rels, r.Has a

/-- A FROM list of one relation. -/
def single (r : Relation) : Scope := ⟨[r], fun c => if c ∈ r.columns then [r.aliasName] else []⟩

/-- The columns that the join with `r` makes one. -/
def coalesced (s : Scope) (r : Relation) (j : JoinNode V) : List String :=
  if j.natural then s.columns.filter (· ∈ r.columns) else j.usingCols

/-- The scope after a join.  A coalesced column is the one of the side whose rows are all kept;
another name of both sides is no bare name any more. -/
def join (s : Scope) (r : Relation) (j : JoinNode V) : Scope where
  rels := s.rels ++ [r]
  origin c :=
    if c ∈ s.coalesced r j then
      match sideHow j.side j.kind with
      | .left => s.origin c
      | .right => [r.aliasName]
      | .full => []
      | _ => s.origin c ++ [r.aliasName]
    else if c ∈ r.columns then (if c ∈ s.columns then [] else [r.aliasName])
    else s.origin c

end Scope

/-- The scope of a FROM list. -/
def scopeOf (cat : Dict String (List String)) (ctes : Dict String (PlanNode V))
    (base : TableNode V) (joins : List (JoinNode V)) : Scope :=
  joins.foldl (fun s j => s.join (relationOf cat ctes j.ref) j) (.single (relationOf cat ctes base))

/-! ## 4. What a join condition means -/

/-- The key pair of the equality `a = b` is the one it means: every column is taken from the side
its qualifier names and is still the column of that relation, and an equality within one side is no
key. -/
structure KeyMeant (s : Scope) (r : Relation) (a b : ColRef) (key : Option (String × String)) :
    Prop where
  leftFirst : s.Has a → r.Has b → key = some (a.name, b.name) ∧ a.table ∈ s.origin a.name
  rightFirst : r.Has a → s.Has b → key = some (b.name, a.name) ∧ b.table ∈ s.origin b.name
  within : s.Has a ∧ s.Has b ∨ r.Has a ∧ r.Has b → key = none

/-- The keys of a lowered join are what its condition means: those of NATURAL are the common column
names, and those of ON are read off its conjuncts with the right meaning of every equality. -/
structure Meant (s : Scope) (r : Relation) (j : JoinNode V) (on : JoinOn V) : Prop where
  natural : j.natural = true →
    on.onLeft = on.onRight ∧ ∀ c, c ∈ on.onLeft ↔ c ∈ s.columns ∧ c ∈ r.columns
  on : j.natural = false → j.usingCols = [] → r.aliasName ∉ s.rels.map Relation.aliasName →
    ∀ e, j.on = some e → ∃ key : OnExpr V → Option (String × String),
      on.onLeft.zip on.onRight = (flattenAnd e).filterMap key ∧ (∀ x, key (.other x) = none) ∧
        ∀ a b, .eq a b ∈ flattenAnd e → KeyMeant s r a b (key (.eq a b))

/-- An equality with the column of the left relation first is routed by meaning. -/
def LeftFirst (left right : List String) (rname : String) (a b : ColRef) : Prop :=
  a.name = b.name ∨ (b.name ∈ right ∧ b.name ∉ left) ∨
    ¬ (a.name ∈ right ∧ a.name ∉ left) ∧ (b.name ∈ right ∨ a.name ∉ right ∧ a.table ≠ rname)

/-- An equality with the column of the new relation first is routed by meaning. -/
def RightFirst (left right : List String) (rname : String) (a b : ColRef) : Prop :=
  a.name = b.name ∨ ¬ (b.name ∈ right ∧ b.name ∉ left) ∧
    ((a.name ∈ right ∧ a.name ∉ left) ∨ b.name ∉ right ∧ (a.name ∈ right ∨ a.table = rname))

/-- NATURAL finds the common columns: it sees the base tables of the left side only, and of a
derived table on the right what the schema has under its alias. -/
def NaturalSeen (env : Env V) (s : Scope) (r : Relation) : Prop :=
  if r.base then ∀ c ∈ r.columns, c ∈ s.columns → c ∈ s.baseColumns
  else ∀ c, (c ∈ s.columns ∧ c ∈ r.columns) ↔ c ∈ s.baseColumns ∧ c ∈ env.columnsOf r.rname

/-- The condition under which a join is lowered by meaning. -/
structure Routed (env : Env V) (s : Scope) (r : Relation) (j : JoinNode V) : Prop where
  natural : j.natural = true → NaturalSeen env s r
  on : j.natural = false → j.usingCols = [] → r.aliasName ∉ s.rels.map Relation.aliasName →
    ∀ e, j.on = some e → ∀ a b, .eq a b ∈ flattenAnd e →
      (s.Has a → r.Has b → a.table ∈ s.origin a.name ∧
        LeftFirst (env.leftCols s.tables) (env.columnsOf r.rname) r.rname a b) ∧
      (r.Has a → s.Has b → b.table ∈ s.origin b.name ∧
        RightFirst (env.leftCols s.tables) (env.columnsOf r.rname) r.rname a b) ∧
      ¬ (s.Has a ∧ s.Has b ∨ r.Has a ∧ r.Has b)

/-! ## 5. Routing one equality -/

section Route
variable {env : Env V} {lt : List String} {rt : String} {a b : ColRef}

theorem routeJoinCols_leftFirst :
    routeJoinCols env lt rt a b = (a.name, b.name) ↔
      LeftFirst (env.leftCols lt) (env.columnsOf rt) rt a b := by
  have hswap : (b.name, a.name) = (a.name, b.name) ↔ a.name = b.name := by
    simp only [Prod.mk.injEq]
    exact ⟨fun h => h.2, fun h => ⟨h.symm, h⟩⟩
  unfold routeJoinCols LeftFirst
  dsimp only
  split_ifs <;> simp only [hswap, true_iff] <;> tauto

theorem routeJoinCols_rightFirst :
    routeJoinCols env lt rt a b = (b.name, a.name) ↔
      RightFirst (env.leftCols lt) (env.columnsOf rt) rt a b := by
  have hswap : (a.name, b.name) = (b.name, a.name) ↔ a.name = b.name := by
    simp only [Prod.mk.injEq]
    exact ⟨fun h => h.1, fun h => ⟨h, h.symm⟩⟩
  unfold routeJoinCols RightFirst
  dsimp only
  split_ifs <;> simp only [hswap, true_iff] <;> tauto

/-- Over base tables, an equality written in the order of the FROM list is routed by meaning. -/
theorem leftFirst_of_base {left right : List String} (ha : a.name ∈ left) (hb : b.name ∈ right) :
    LeftFirst left right rt a b :=
  .inr (.inr ⟨fun h => h.2 ha, .inl hb⟩)

/-- The equality `a = b` gets the pair of `routeJoinCols`, and the condition says when it is
meant. -/
theorem keyMeant_iff {s : Scope} {r : Relation} :
    KeyMeant s r a b (some (routeJoinCols env lt rt a b)) ↔
      (s.Has a → r.Has b → a.table ∈ s.origin a.name ∧
        LeftFirst (env.leftCols lt) (env.columnsOf rt) rt a b) ∧
      (r.Has a → s.Has b → b.table ∈ s.origin b.name ∧
        RightFirst (env.leftCols lt) (env.columnsOf rt) rt a b) ∧
      ¬ (s.Has a ∧ s.Has b ∨ r.Has a ∧ r.Has b) := by
  constructor
  · intro h
    refine ⟨fun ha hb => ?_, fun ha hb => ?_, fun hin => ?_⟩
    · obtain ⟨hkey, hor⟩ := h.leftFirst ha hb
      exact ⟨hor, routeJoinCols_leftFirst.mp (Option.some.inj hkey)⟩
    · obtain ⟨hkey, hor⟩ := h.rightFirst ha hb
      exact ⟨hor, routeJoinCols_rightFirst.mp (Option.some.inj hkey)⟩
    · cases h.within hin
  · rintro ⟨hl, hr, hin⟩
    refine ⟨fun ha hb => ?_, fun ha hb => ?_, fun h => absurd h hin⟩
    · exact ⟨congrArg some (routeJoinCols_leftFirst.mpr (hl ha hb).2), (hl ha hb).1⟩
    · exact ⟨congrArg some (routeJoinCols_rightFirst.mpr (hr ha hb).2), (hr ha hb).1⟩

end Route

/-! ## 6. The plan of a FROM list and its scope -/

/-- The conjuncts are no conjunctions. -/
theorem not_and_of_mem_flattenAnd {e l r : OnExpr V} : ¬ .and l r ∈ flattenAnd e := by
  induction e with
  | and l' r' hl hr =>
    rw [flattenAnd, List.mem_append]
    exact fun h => h.elim hl hr
  | eq a b => simp [flattenAnd]
  | other x => simp [flattenAnd]

/-- Two readings of a list that keep as many pairs agree, if the second reads nothing where the
first does not. -/
theorem eq_of_filterMap_eq {α β : Type} {f g : α → Option β} : ∀ {l : List α},
    (∀ x ∈ l, f x = none → g x = none) → l.filterMap f = l.filterMap g → ∀ x ∈ l, f x = g x
  | [], _, _ => nofun
  | x :: l, hnone, h => by
    have htail : ∀ y ∈ l, f y = none → g y = none := fun y hy => hnone y (List.mem_cons_of_mem x hy)
    have hle : ∀ {l' : List α}, (∀ y ∈ l', f y = none → g y = none) →
        (l'.filterMap g).length ≤ (l'.filterMap f).length := by
      intro l'
      induction l' with
      | nil => exact fun _ => Nat.le_refl _
      | cons y l' ih =>
        intro hl'
        have hrest := ih fun z hz => hl' z (List.mem_cons_of_mem y hz)
        have hy := hl' y List.mem_cons_self
        cases hf : f y <;> cases hg : g y <;> simp only [List.filterMap_cons, hf, hg, List.length_cons]
        · exact hrest
        · rw [hy hf] at hg
          cases hg
        · omega
        · omega
    cases hf : f x with
    | none =>
      have hg := hnone x List.mem_cons_self hf
      rw [List.filterMap_cons_none hf, List.filterMap_cons_none hg] at h
      intro y hy
      rcases List.mem_cons.mp hy with rfl | hy
      · rw [hf, hg]
      · exact eq_of_filterMap_eq htail h y hy
    | some v =>
      cases hg : g x with
      | none =>
        -- one pair less than the first reading
        rw [List.filterMap_cons_some hf, List.filterMap_cons_none hg] at h
        have hlen := congrArg List.length h
        have := hle htail
        rw [List.length_cons] at hlen
        omega
      | some w =>
        rw [List.filterMap_cons_some hf, List.filterMap_cons_some hg] at h
        obtain ⟨rfl, hrest⟩ := List.cons.inj h
        intro y hy
        rcases List.mem_cons.mp hy with rfl | hy
        · rw [hf, hg]
        · exact eq_of_filterMap_eq htail hrest y hy

section From
variable {cat : Dict String (List String)} {env : Env V} {base : TableNode V}
  {pre post : List (JoinNode V)} {j : JoinNode V} {plan left : PlanNode V} {s : Scope}

/-- The tables of a relation that stands alone. -/
def Relation.tables (r : Relation) : List String := if r.base then [r.rname] else []

/-- What `_table_ref` gives is the relation of the node. -/
theorem tableRef_ok (cat : Dict String (List String)) {n : TableNode V} {source : PlanNode V} {al rname : String}
    (h : tableRef env n = .ok (source, al, rname)) :
    (relationOf cat env.ctes n).rname = rname ∧
      walkScans source = (relationOf cat env.ctes n).tables := by
  cases n with
  | subquery p a =>
    rw [tableRef] at h
    split at h
    · cases h
    · cases h
      exact ⟨rfl, rfl⟩
  | table name a =>
    simp only [tableRef] at h
    simp only [relationOf]
    cases hc : env.ctes.get? name with
    | some p =>
      rw [hc] at h
      cases h
      exact ⟨rfl, rfl⟩
    | none =>
      rw [hc] at h
      simp only at h
      split at h
      · cases h
      · cases h
        exact ⟨rfl, rfl⟩

theorem Scope.tables_join (s : Scope) (r : Relation) (j : JoinNode V) :
    (s.join r j).tables = s.tables ++ r.tables := by
  simp only [tables, bases, Scope.join, List.filter_append, List.map_append, Relation.tables]
  congr 1
  cases hb : r.base <;> simp [hb]

/-- What one round of the loop gives. -/
theorem buildJoin_ok (h : buildJoin env plan j = .ok left) : ∃ source al rname how keys pred,
    tableRef env j.ref = .ok (source, al, rname) ∧
      joinSpec env (walkScans plan) rname j = .ok (how, keys, pred) ∧
      left = .join plan source ⟨keys.map Prod.fst, keys.map Prod.snd, how, pred,
        j.natural || !j.usingCols.isEmpty⟩ := by
  obtain ⟨⟨source, al, rname⟩, hr, h⟩ := bind_eq_ok.mp h
  obtain ⟨⟨how, keys, pred⟩, hs, h⟩ := bind_eq_ok.mp h
  dsimp only at h
  split at h
  · cases h
  · cases h
    exact ⟨source, al, rname, how, keys, pred, hr, hs, rfl⟩

/-- The scans of the plan are the base tables of the scope. -/
theorem walkScans_foldlM : ∀ {joins : List (JoinNode V)} {plan : PlanNode V} {s : Scope},
    walkScans plan = s.tables → joins.foldlM (buildJoin env) plan = .ok left →
    walkScans left =
      (joins.foldl (fun s j => s.join (relationOf cat env.ctes j.ref) j) s).tables
  | [], _, _, hp, h => by
    cases h
    exact hp
  | j :: joins, plan, s, hp, h => by
    rw [List.foldlM_cons] at h
    obtain ⟨next, hnext, hrest⟩ := bind_eq_ok.mp h
    obtain ⟨source, al, rname, how, keys, pred, hr, -, rfl⟩ := buildJoin_ok hnext
    rw [List.foldl_cons]
    refine walkScans_foldlM ?_ hrest
    rw [Scope.tables_join, walkScans, hp, (tableRef_ok cat hr).2]

theorem walkScans_buildFrom (cat : Dict String (List String))
    (h : buildFrom env base pre = .ok left) :
    walkScans left = (scopeOf cat env.ctes base pre).tables := by
  obtain ⟨⟨source, al, rname⟩, hr, h⟩ := bind_eq_ok.mp h
  refine walkScans_foldlM ?_ h
  rw [(tableRef_ok cat hr).2, Scope.single, Scope.tables, Scope.bases, Relation.tables]
  cases hb : (relationOf cat env.ctes base).base <;> simp [hb]

/-- The joins of an accepted FROM list are built one after the other. -/
theorem buildFrom_split (h : buildFrom env base (pre ++ j :: post) = .ok plan) :
    ∃ left next, buildFrom env base pre = .ok left ∧ buildJoin env left j = .ok next ∧
      buildFrom env base (pre ++ [j]) = .ok next := by
  obtain ⟨⟨source, al, rname⟩, hr, h⟩ := bind_eq_ok.mp h
  dsimp only at h
  rw [List.foldlM_append] at h
  obtain ⟨left, hleft, h⟩ := bind_eq_ok.mp h
  rw [List.foldlM_cons] at h
  obtain ⟨next, hnext, -⟩ := bind_eq_ok.mp h
  have hpre : buildFrom env base pre = .ok left := bind_eq_ok.mpr ⟨_, hr, hleft⟩
  refine ⟨left, next, hpre, hnext, bind_eq_ok.mpr ⟨_, hr, ?_⟩⟩
  dsimp only
  rw [List.foldlM_append]
  exact bind_eq_ok.mpr ⟨left, hleft, by rw [List.foldlM_cons, hnext]; rfl⟩

/-- A table of the catalog has the columns the schema gives. -/
theorem relationOf_columns (hs : env.schema = some cat) {n : TableNode V}
    (hb : (relationOf cat env.ctes n).base = true) :
    (relationOf cat env.ctes n).columns = env.columnsOf (relationOf cat env.ctes n).rname := by
  cases n with
  | subquery p a => cases hb
  | table name a =>
    simp only [relationOf] at hb ⊢
    cases hc : env.ctes.get? name with
    | some p =>
      rw [hc] at hb
      cases hb
    | none =>
      simp only [Env.columnsOf, hs, Option.getD_some]

/-- The relations of a scope are those of the nodes. -/
theorem mem_scopeOf {r : Relation} : r ∈ (scopeOf cat env.ctes base pre).rels →
    ∃ n : TableNode V, r = relationOf cat env.ctes n := by
  have hfold : ∀ (joins : List (JoinNode V)) (s : Scope),
      (∀ r ∈ s.rels, ∃ n : TableNode V, r = relationOf cat env.ctes n) →
      ∀ r ∈ (joins.foldl (fun s j => s.join (relationOf cat env.ctes j.ref) j) s).rels,
        ∃ n : TableNode V, r = relationOf cat env.ctes n := by
    intro joins
    induction joins with
    | nil => exact fun s h => h
    | cons j joins ih =>
      intro s h
      refine ih _ fun r hr => ?_
      rcases List.mem_append.mp hr with hr | hr
      · exact h r hr
      · exact ⟨j.ref, List.mem_singleton.mp hr⟩
  exact hfold pre _ (fun r hr => ⟨base, List.mem_singleton.mp hr⟩) r

/-- What routing sees of the left side are the columns of its base tables. -/
theorem leftCols_scopeOf (hs : env.schema = some cat) :
    env.leftCols (scopeOf cat env.ctes base pre).tables =
      (scopeOf cat env.ctes base pre).baseColumns := by
  rw [Env.leftCols, Scope.tables, Scope.baseColumns, List.map_map]
  congr 1
  refine List.map_congr_left fun r hr => ?_
  obtain ⟨hr, hb⟩ := List.mem_filter.mp hr
  obtain ⟨n, rfl⟩ := mem_scopeOf hr
  exact (relationOf_columns hs hb).symm

theorem Scope.baseColumns_subset {c : String} (h : c ∈ s.baseColumns) : c ∈ s.columns := by
  obtain ⟨l, hl, hc⟩ := List.mem_flatten.mp h
  obtain ⟨r, hr, rfl⟩ := List.mem_map.mp hl
  exact List.mem_flatten.mpr ⟨_, List.mem_map_of_mem (List.mem_of_mem_filter hr), hc⟩

/-! ## 7. Every join of every FROM list -/

variable {lt : List String} {rt : String} {how : JoinHow} {keys : List (String × String)}
  {pred : Option (Expr V)}

/-- The keys of a NATURAL join. -/
theorem joinSpec_natural (h : joinSpec env lt rt j = .ok (how, keys, pred)) (hn : j.natural = true) :
    env.schema.isSome = true ∧ keys = (commonColumns env lt rt).map fun c => (c, c) := by
  rw [joinSpec, if_pos hn] at h
  split at h
  · cases h
  · rename_i hsome
    refine ⟨by simpa [Option.isSome_iff_ne_none] using hsome, ?_⟩
    cases hc : commonColumns env lt rt with
    | nil =>
      rw [hc] at h
      cases h
      rfl
    | cons c cs =>
      rw [hc] at h
      cases h
      rfl

/-- The keys of an ON condition. -/
theorem joinSpec_on (h : joinSpec env lt rt j = .ok (how, keys, pred)) (hn : j.natural = false)
    (hu : j.usingCols = []) {e : OnExpr V} (he : j.on = some e) :
    keys = (flattenAnd e).filterMap (equiKey env lt rt) := by
  have hkeys : ∀ {k : List (String × String) × Option (Expr V)}, joinKeys env lt rt j = .ok k →
      k.1 = (flattenAnd e).filterMap (equiKey env lt rt) := by
    intro k hk
    rw [joinKeys, if_neg (not_not_intro hu), he] at hk
    dsimp only at hk
    cases hf : (flattenAnd e).filterMap (equiKey env lt rt) with
    | nil =>
      rw [hf] at hk
      cases hk
    | cons p ps =>
      rw [hf] at hk
      cases hk
      rfl
  have hmap : ∀ {f : List (String × String) × Option (Expr V) → JoinHow},
      (joinKeys env lt rt j).map (fun k => (f k, k)) = .ok (how, keys, pred) →
      keys = (flattenAnd e).filterMap (equiKey env lt rt) := by
    intro f hm
    cases hk : joinKeys env lt rt j with
    | error err =>
      rw [hk] at hm
      cases hm
    | ok k =>
      rw [hk] at hm
      cases hm
      exact hkeys hk
  rw [joinSpec, if_neg (by rw [hn]; exact Bool.false_ne_true)] at h
  split at h
  · rw [he] at h
    exact hmap h
  · exact hmap h

theorem mem_commonColumns {c : String} :
    c ∈ commonColumns env lt rt ↔ c ∈ env.leftCols lt ∧ c ∈ env.columnsOf rt := by
  rw [commonColumns, mem_sortedSet, List.mem_filter, decide_eq_true_iff]

/-- **When join conditions are lowered by meaning.**  In every accepted FROM list, over the schema
of the catalog or none, the keys of a join are those its condition means if and only if routing
finds them. -/
theorem join_keys_meant (hs : env.schema = none ∨ env.schema = some cat)
    (h : buildFrom env base (pre ++ j :: post) = .ok plan) :
    ∃ left source on, buildFrom env base pre = .ok left ∧
      buildFrom env base (pre ++ [j]) = .ok (.join left source on) ∧
      (Meant (scopeOf cat env.ctes base pre) (relationOf cat env.ctes j.ref) j on ↔
        Routed env (scopeOf cat env.ctes base pre) (relationOf cat env.ctes j.ref) j) := by
  obtain ⟨left, next, hpre, hjoin, hnext⟩ := buildFrom_split h
  obtain ⟨source, al, rname, how, keys, pred, hr, hspec, rfl⟩ := buildJoin_ok hjoin
  refine ⟨left, source, _, hpre, hnext, ?_⟩
  obtain ⟨rfl, -⟩ := tableRef_ok cat hr
  rw [walkScans_buildFrom cat hpre] at hspec
  have hzip : (keys.map Prod.fst).zip (keys.map Prod.snd) = keys :=
    (List.zip_of_prod rfl rfl).symm
  have hnatural : j.natural = true →
      ((keys.map Prod.fst = keys.map Prod.snd ∧ ∀ c, c ∈ keys.map Prod.fst ↔
        c ∈ (scopeOf cat env.ctes base pre).columns ∧
          c ∈ (relationOf cat env.ctes j.ref).columns) ↔
        NaturalSeen env (scopeOf cat env.ctes base pre) (relationOf cat env.ctes j.ref)) := by
    intro hn
    obtain ⟨hsome, hk⟩ := joinSpec_natural hspec hn
    have hcat : env.schema = some cat := hs.resolve_left fun h0 => by rw [h0] at hsome; cases hsome
    have hfst : keys.map Prod.fst = commonColumns env (scopeOf cat env.ctes base pre).tables
        (relationOf cat env.ctes j.ref).rname := by
      rw [hk, List.map_map]
      exact List.map_id _
    have hsnd : keys.map Prod.snd = keys.map Prod.fst := by
      rw [hk, List.map_map, List.map_map]
      rfl
    rw [hsnd, hfst]
    simp only [mem_commonColumns, leftCols_scopeOf hcat, true_and]
    unfold NaturalSeen
    split
    · rename_i hb
      rw [← relationOf_columns hcat hb]
      exact ⟨fun hc c hr hl => ((hc c).mpr ⟨hl, hr⟩).1, fun hc c =>
        ⟨fun hcol => ⟨Scope.baseColumns_subset hcol.1, hcol.2⟩, fun hcol =>
          ⟨hc c hcol.2 hcol.1, hcol.2⟩⟩⟩
    · exact forall_congr' fun c => iff_comm
  have hkey : ∀ {e : OnExpr V}, j.natural = false → j.usingCols = [] → j.on = some e →
      ((∃ key : OnExpr V → Option (String × String),
        (keys.map Prod.fst).zip (keys.map Prod.snd) = (flattenAnd e).filterMap key ∧
          (∀ x, key (.other x) = none) ∧ ∀ a b, .eq a b ∈ flattenAnd e →
            KeyMeant (scopeOf cat env.ctes base pre) (relationOf cat env.ctes j.ref) a b
              (key (.eq a b))) ↔
        ∀ a b, .eq a b ∈ flattenAnd e →
          KeyMeant (scopeOf cat env.ctes base pre) (relationOf cat env.ctes j.ref) a b
            (equiKey env (scopeOf cat env.ctes base pre).tables
              (relationOf cat env.ctes j.ref).rname (.eq a b))) := by
    intro e hn hu he
    rw [hzip, joinSpec_on hspec hn hu he]
    constructor
    · rintro ⟨key, hsame, hother, hmeant⟩ a b hab
      have heq := eq_of_filterMap_eq (fun x hx hnone => ?_) hsame
      · rw [heq _ hab]
        exact hmeant a b hab
      · cases x with
        | and l r => exact absurd hx not_and_of_mem_flattenAnd
        | eq a b => cases hnone
        | other x => exact hother x
    · exact fun hmeant => ⟨_, rfl, fun _ => rfl, hmeant⟩
  constructor
  · rintro ⟨hnat, hon⟩
    refine ⟨fun hn => (hnatural hn).mp (hnat hn), fun hn hu hfresh e he a b hab => ?_⟩
    exact keyMeant_iff.mp ((hkey hn hu he).mp (hon hn hu hfresh e he) a b hab)
  · rintro ⟨hnat, hon⟩
    refine ⟨fun hn => (hnatural hn).mpr (hnat hn), fun hn hu hfresh e he => ?_⟩
    exact (hkey hn hu he).mpr fun a b hab => keyMeant_iff.mpr (hon hn hu hfresh e he a b hab)

end From

/-! ### A self-join written against the order of the FROM list -/

/-- `t` has the columns `x` and `y`. -/
def pairTable : Dict String (List String) := (∅ : Dict String (List String)).set "t" ["x", "y"]

/-- The schema of the catalog, and no CTE. -/
def pairEnv : Env Nat := ⟨some pairTable, ∅⟩

/-- `JOIN t AS b ON l = r`. -/
def joinT (l r : ColRef) : JoinNode Nat := ⟨.table "t" "b", false, .none, .none, some (.eq l r), []⟩

/-- The keys of the last join of a plan. -/
def topKeys : PlanNode Nat → List String × List String
  | .join _ _ on => (on.onLeft, on.onRight)
  | _ => ([], [])

/-- `FROM t AS a JOIN t AS b ON a.x = b.y` is lowered by meaning. -/
theorem join_keys_meant_ordered : ∃ left source on,
    buildFrom pairEnv (.table "t" "a") [] = .ok left ∧
      buildFrom pairEnv (.table "t" "a") [joinT ⟨"a", "x"⟩ ⟨"b", "y"⟩] =
        .ok (.join left source on) ∧
      Meant (scopeOf pairTable pairEnv.ctes (.table "t" "a") [])
        (relationOf pairTable pairEnv.ctes (.table "t" "b")) (joinT ⟨"a", "x"⟩ ⟨"b", "y"⟩) on := by
  obtain ⟨left, source, on, hleft, hjoin, hiff⟩ := @join_keys_meant Nat pairTable pairEnv
    (.table "t" "a") [] [] (joinT ⟨"a", "x"⟩ ⟨"b", "y"⟩) _ (.inr rfl) rfl
  refine ⟨left, source, on, hleft, hjoin, hiff.mpr ⟨nofun, fun _ _ _ e he a b hab => ?_⟩⟩
  cases he
  cases List.mem_singleton.mp hab
  refine ⟨fun _ _ => ⟨by decide, leftFirst_of_base (by decide) (by decide)⟩, ?_, ?_⟩
  · exact fun ha => absurd ha.1 (by decide)
  · rintro (⟨-, r, hr, hb⟩ | ⟨ha, -⟩)
    · cases List.mem_singleton.mp hr
      exact absurd hb.1 (by decide)
    · exact absurd ha.1 (by decide)

/-- **`FROM t AS a JOIN t AS b ON b.x = a.y` joins on `a.x = b.y`**, as the swapped condition
`a.x = b.y` does, and not on what it says. -/
theorem swapped_self_join_misrouted :
    (buildFrom pairEnv (.table "t" "a") [joinT ⟨"b", "x"⟩ ⟨"a", "y"⟩]).map topKeys =
        .ok (["x"], ["y"]) ∧
      (buildFrom pairEnv (.table "t" "a") [joinT ⟨"a", "x"⟩ ⟨"b", "y"⟩]).map topKeys =
        .ok (["x"], ["y"]) ∧
      (buildFrom pairEnv (.table "t" "a") [joinT ⟨"a", "y"⟩ ⟨"b", "x"⟩]).map topKeys =
        .ok (["y"], ["x"]) ∧
      ∀ on : JoinOn Nat, (on.onLeft, on.onRight) = (["x"], ["y"]) →
        ¬ Meant (scopeOf pairTable pairEnv.ctes (.table "t" "a") [])
          (relationOf pairTable pairEnv.ctes (.table "t" "b")) (joinT ⟨"b", "x"⟩ ⟨"a", "y"⟩) on := by
  refine ⟨by decide, by decide, by decide, fun on hon hmeant => ?_⟩
  obtain ⟨key, hkeys, -, hall⟩ := hmeant.on rfl rfl (by decide) _ rfl
  obtain ⟨hl, hr⟩ := Prod.mk.inj hon
  have hpair := (hall ⟨"b", "x"⟩ ⟨"a", "y"⟩ (List.mem_singleton_self _)).rightFirst
    ⟨by decide, by decide⟩ ⟨_, List.mem_singleton_self _, by decide, by decide⟩
  rw [hl, hr] at hkeys
  simp only [flattenAnd, List.filterMap_cons, hpair.1, List.filterMap_nil] at hkeys
  exact absurd hkeys (by decide)

end Parse

end RyuDB.Sql
