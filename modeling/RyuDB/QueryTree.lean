/-
# The clauses of a query tree

A query is a SELECT, a set operation or a query in parentheses, and each of the three can carry a WITH,
an ORDER BY, a LIMIT and an OFFSET.  `_build_query` hands them to three builders: `_build_select` reads
the WITH of a SELECT, `_build_tail` the ORDER BY and LIMIT of a SELECT or a set operation, and the node
of a query in parentheses is taken away with what it carries.

* `Template` is what `_build_select` makes of the relations of FROM and of the queries in WHERE: any
  plan over them.
* `Query.mean` is the meaning of a query: every clause takes effect at its node.
* `query_clauses` says that the plan returns the meaning where every clause is one that is kept
  (`Query.Kept`), and what the parentheses lose.

Left out are the forms that are refused (WITH RECURSIVE, column lists, aggregates in ORDER BY).  Of
several errors in one SELECT the model may raise another first.
-/
import RyuDB.JoinKeys
import RyuDB.JoinSides

namespace RyuDB.Sql

namespace Parse

variable {V : Type}

/-! ## 1. Plans over sources -/

/-- A plan with places for the sources of a SELECT. -/
inductive Template (V : Type) where
  | source (i : Nat)
  | scan (table : String) (columns : Option (List String)) (aliasName : Option String)
  | derived (input : Template V) (aliasName : String)
  | filter (input : Template V) (predicate : Expr V)
  | project (input : Template V) (items : List (Expr V × String))
  | join (left right : Template V) (on : JoinOn V)
  | aggregate (input : Template V) (groupKeys : List (Expr V × String))
      (aggs : List (AggFunc V × String))
  | window (input : Template V) (funcs : List (WindowFunc V × String))
  | sort (input : Template V) (keys : List (Expr V × Bool))
  | limit (input : Template V) (n offset : Nat)
  | distinct (input : Template V)
  | setOp (left right : Template V) (op : SetKind) (distinct : Bool)

/-- A source: its alias and what it returns. -/
abbrev Input (V : Type) := Option String × Except DbError (Frame V)

namespace Template

/-- The plan with the sources in their places. -/
def fill (plans : List (PlanNode V)) : Template V → PlanNode V
  | .source i => plans.getD i (.scan "" none none)
  | .scan t c a => .scan t c a
  | .derived t a => .derived (fill plans t) a
  | .filter t p => .filter (fill plans t) p
  | .project t items => .project (fill plans t) items
  | .join l r on => .join (fill plans l) (fill plans r) on
  | .aggregate t keys aggs => .aggregate (fill plans t) keys aggs
  | .window t funcs => .window (fill plans t) funcs
  | .sort t keys => .sort (fill plans t) keys
  | .limit t n offset => .limit (fill plans t) n offset
  | .distinct t => .distinct (fill plans t)
  | .setOp l r op d => .setOp (fill plans l) (fill plans r) op d

variable [DecidableEq V]

/-- The input at a place. -/
def input (D : Database V) (inputs : List (Input V)) (i : Nat) : Input V :=
  inputs.getD i (none, D.scan "" none)

omit [DecidableEq V] in
/-- The alias of a side of a join. -/
def sideAlias (D : Database V) (inputs : List (Input V)) : Template V → Option String
  | .source i => (input D inputs i).1
  | .scan _ _ a => a
  | .filter t _ => sideAlias D inputs t
  | .derived _ a => some a
  | _ => none

/-- What the plan returns over what the sources return. -/
def run (S : Scalars V) (D : Database V) (inputs : List (Input V)) :
    Template V → Except DbError (Frame V)
  | .source i => (input D inputs i).2
  | .scan t columns _ => D.scan t columns
  | .derived t _ => run S D inputs t
  | .filter t p => do
    let df ← run S D inputs t
    filterFrame S df p
  | .project t items => do
    let df ← run S D inputs t
    projectFrame S df items
  | .join l r on => do
    let left ← run S D inputs l
    let right ← run S D inputs r
    joinFrames S on (sideAlias D inputs l) (sideAlias D inputs r) left right
  | .aggregate t keys aggs => do
    let df ← run S D inputs t
    aggregateFrame S df keys aggs
  | .window t funcs => do
    let df ← run S D inputs t
    windowFrame S df funcs
  | .sort t keys => do
    let df ← run S D inputs t
    sortFrame S df keys (match t with
      | .project below _ => run S D inputs below
      | _ => .ok df)
  | .limit t n offset => do
    let df ← run S D inputs t
    .ok (limitFrame df n offset)
  | .distinct t => do
    let df ← run S D inputs t
    .ok (dropDuplicates df)
  | .setOp l r op d => do
    let left ← run S D inputs l
    let right ← run S D inputs r
    setopFrames op d left right

/-- The frame the expressions of ORDER BY are evaluated on. -/
def sortInput (S : Scalars V) (D : Database V) (inputs : List (Input V)) (df : Frame V) :
    Template V → Except DbError (Frame V)
  | .project t _ => run S D inputs t
  | _ => .ok df

end Template

/-! ## 2. Query trees -/

/-- The value of a LIMIT or OFFSET: a number, one in parentheses, or another expression, by its first
operand and the count it is, if it is one. -/
inductive LimitValue where
  | number (n : Nat)
  | paren (v : LimitValue)
  | over (first : LimitValue) (count : Option Nat)

/-- What ORDER BY sorts by: the place of a column or an expression. -/
inductive OrderKey (V : Type) where
  | ordinal (n : Nat)
  | expr (e : Expr V)

/-- A term of ORDER BY; `nullsFirst` is what is written. -/
structure OrderTerm (V : Type) where
  key : OrderKey V
  descending : Bool
  nullsFirst : Option Bool

/-- ORDER BY, LIMIT and OFFSET of a node. -/
structure Tail (V : Type) where
  order : List (OrderTerm V)
  limit : Option LimitValue
  offset : Option LimitValue

/-- No clause. -/
def Tail.none : Tail V := ⟨[], .none, .none⟩

mutual

/-- A query.  The core of a SELECT is given by the template it makes, which can depend on the tables
that are scanned. -/
inductive Query (V : Type) where
  | select (ctes : Ctes V) (sources : Sources V)
      (core : List (Option String) → Except DbError (Template V)) (tail : Tail V)
  | setOp (ctes : Ctes V) (left right : Query V) (op : SetKind) (distinct : Bool) (tail : Tail V)
  | paren (ctes : Ctes V) (inner : Query V) (tail : Tail V)

/-- The definitions of a WITH. -/
inductive Ctes (V : Type) where
  | nil
  | cons (name : String) (body : Query V) (rest : Ctes V)

/-- The relations of FROM and the queries of WHERE. -/
inductive Sources (V : Type) where
  | nil
  | table (name aliasName : String) (rest : Sources V)
  | subquery (q : Query V) (aliasName : String) (rest : Sources V)

end

/-! ## 3. The builders -/

/-- `_literal_value` of a LIMIT. -/
def LimitValue.literalValue : LimitValue → Nat
  | .number n => n
  | .paren v => v.literalValue
  | .over first _ => first.literalValue

/-- `_expr` of a term of ORDER BY. -/
def OrderKey.toExpr (num : Nat → V) : OrderKey V → Expr V
  | .ordinal n => .lit (some (num n))
  | .expr e => e

/-- The sort key of a term. -/
def OrderTerm.sortKey (num : Nat → V) (t : OrderTerm V) : Expr V × Bool :=
  (t.key.toExpr num, !t.descending)

/-- `_build_tail`. -/
def buildTail (num : Nat → V) (tail : Tail V) (plan : PlanNode V) : PlanNode V :=
  let plan := if tail.order.isEmpty then plan
    else .sort plan (tail.order.map (OrderTerm.sortKey num))
  match tail.limit with
  | none => plan
  | some n => .limit plan n.literalValue ((tail.offset.map LimitValue.literalValue).getD 0)

/-- The table a source scans. -/
def scanned : PlanNode V → Option String
  | .scan t _ _ => some t
  | _ => none

mutual

/-- `_build_query`, `_build_select` and `_build_setop`. -/
def buildQuery (num : Nat → V) (env : Env V) : Query V → Except DbError (PlanNode V)
  | .select ctes sources core tail => do
    let env ← buildCtes num env ctes
    let plans ← buildSources num env sources
    let t ← core (plans.map scanned)
    .ok (buildTail num tail (t.fill plans))
  | .setOp _ left right op d tail => do
    let left ← buildQuery num env left
    let right ← buildQuery num env right
    .ok (buildTail num tail (.setOp left right op d))
  | .paren _ inner _ => buildQuery num env inner

/-- The WITH of `_build_select`: a later definition sees the earlier ones. -/
def buildCtes (num : Nat → V) (env : Env V) : Ctes V → Except DbError (Env V)
  | .nil => .ok env
  | .cons name body rest => do
    let plan ← buildQuery num env body
    buildCtes num { env with ctes := env.ctes.set name plan } rest

/-- `_table_ref` of each source. -/
def buildSources (num : Nat → V) (env : Env V) : Sources V → Except DbError (List (PlanNode V))
  | .nil => .ok []
  | .table name a rest => do
    let (source, _, _) ← tableRef env (.table name a)
    let plans ← buildSources num env rest
    .ok (source :: plans)
  | .subquery q a rest => do
    let plan ← buildQuery num env q
    let (source, _, _) ← tableRef env (.subquery plan a)
    let plans ← buildSources num env rest
    .ok (source :: plans)

end

/-! ## 4. The meaning of a query -/

/-- The count a LIMIT or OFFSET is. -/
def LimitValue.count : LimitValue → Option Nat
  | .number n => some n
  | .paren v => v.count
  | .over _ count => count

/-- The order of a column, with the NULLs first or last. -/
def cellLeAt (S : Scalars V) (dir : Bool × Bool) : Cell V → Cell V → Bool
  | none, none => true
  | none, some _ => dir.2
  | some _, none => !dir.2
  | some a, some b => if dir.1 then S.le a b else S.le b a

/-- The order of several columns: the first that tells two rows apart decides. -/
def keyLeAt (S : Scalars V) : List (Bool × Bool) → Key V → Key V → Bool
  | [], _, _ => true
  | dir :: dirs, a, b =>
    cellLeAt S dir (a.headD none) (b.headD none) &&
      (!cellLeAt S dir (b.headD none) (a.headD none) || keyLeAt S dirs a.tail b.tail)

namespace OrderTerm

/-- The term sorts by a column of the result. -/
def isOutput (cols : List String) (t : OrderTerm V) : Bool :=
  match t.key with
  | .ordinal _ => true
  | .expr (.col n none) => n ∈ cols
  | .expr _ => false

/-- The cell a term sorts by, for a row of the result and the row it comes from. -/
def cell (S : Scalars V) (cols srcCols : List String) (r src : Row V) (t : OrderTerm V) : Cell V :=
  match t.key with
  | .ordinal 0 => none
  | .ordinal (n + 1) => cols[n]?.bind r
  | .expr (.col n none) => if n ∈ cols then r n else (Expr.col n none).value S srcCols src
  | .expr e => e.value S srcCols src

/-- A place must be one of a column, and an expression one of the input. -/
def check (cols srcCols : List String) (t : OrderTerm V) : Except DbError Unit :=
  match t.key with
  | .ordinal n =>
    if 0 < n ∧ n ≤ cols.length then .ok () else .error (.value "ORDER BY position")
  | .expr e => if t.isOutput cols then .ok () else e.check srcCols

/-- Ascending, and NULLs first: last, unless it is written. -/
def dir (t : OrderTerm V) : Bool × Bool := (!t.descending, t.nullsFirst.getD false)

end OrderTerm

/-- The rows with their sort keys. -/
def orderPairs (S : Scalars V) (order : List (OrderTerm V)) (df : Frame V)
    (src : Except DbError (Frame V)) : Except DbError (List (Key V × Row V)) :=
  if order.all (OrderTerm.isOutput df.columns) then do
    order.forM (OrderTerm.check df.columns df.columns)
    .ok (df.rows.map fun r => (order.map (OrderTerm.cell S df.columns df.columns r r), r))
  else do
    let src ← src
    order.forM (OrderTerm.check df.columns src.columns)
    .ok (List.zipWith (fun r s => (order.map (OrderTerm.cell S df.columns src.columns r s), r))
      df.rows src.rows)

/-- ORDER BY. -/
def orderFrame (S : Scalars V) (order : List (OrderTerm V)) (df : Frame V)
    (src : Except DbError (Frame V)) : Except DbError (Frame V) :=
  if order.isEmpty then .ok df
  else do
    let pairs ← orderPairs S order df src
    .ok (.ofRows df.columns ((pairs.insertionSort fun a b =>
      keyLeAt S (order.map OrderTerm.dir) a.1 b.1 = true).map Prod.snd))

/-- The count of a clause that may not be there. -/
def countOf : Option LimitValue → Except DbError (Option Nat)
  | none => .ok none
  | some v =>
    match v.count with
    | some n => .ok (some n)
    | none => .error (.value "LIMIT/OFFSET is not a count")

/-- The rows at the positions from the offset on, as many as the limit. -/
def keepRows (f : Frame V) : Option Nat → Option Nat → Frame V
  | some n, offset => limitFrame f n (offset.getD 0)
  | none, some k => .ofRows f.columns (f.rows.drop k)
  | none, none => f

/-- ORDER BY, LIMIT and OFFSET take effect. -/
def tailFrame (S : Scalars V) (tail : Tail V) (df : Frame V) (src : Except DbError (Frame V)) :
    Except DbError (Frame V) := do
  let f ← orderFrame S tail.order df src
  let limit ← countOf tail.limit
  let offset ← countOf tail.offset
  .ok (keepRows f limit offset)

/-- The relations that the names of WITH mean. -/
abbrev Relations (V : Type) := Dict String (Except DbError (Frame V))

/-- The tables the sources scan. -/
def Sources.scanned (env : Relations V) : Sources V → List (Option String)
  | .nil => []
  | .table name _ rest =>
    (if (env.get? name).isSome then none else some name) :: rest.scanned env
  | .subquery _ _ rest => none :: rest.scanned env

section Mean

variable [DecidableEq V] (S : Scalars V) (D : Database V)

mutual

/-- **The meaning of a query.** -/
def Query.mean (env : Relations V) : Query V → Except DbError (Frame V)
  | .select ctes sources core tail => do
    let t ← core (sources.scanned (ctes.mean env))
    let df ← t.run S D (sources.mean (ctes.mean env))
    tailFrame S tail df (t.sortInput S D (sources.mean (ctes.mean env)) df)
  | .setOp ctes left right op d tail => do
    let l ← left.mean (ctes.mean env)
    let r ← right.mean (ctes.mean env)
    let df ← setopFrames op d l r
    tailFrame S tail df (.ok df)
  | .paren ctes inner tail => do
    let df ← inner.mean (ctes.mean env)
    tailFrame S tail df (.ok df)

/-- The names a WITH adds to those around it. -/
def Ctes.mean (env : Relations V) : Ctes V → Relations V
  | .nil => env
  | .cons name body rest => rest.mean (env.set name (body.mean env))

/-- What the sources return. -/
def Sources.mean (env : Relations V) : Sources V → List (Input V)
  | .nil => []
  | .table name a rest =>
    (some (if a = "" then name else a), (env.get? name).getD (D.scan name none)) :: rest.mean env
  | .subquery q a rest => (some a, q.mean env) :: rest.mean env

end

end Mean

/-! ## 5. The clauses that are kept -/

/-- A term of ORDER BY that sorts as it is written: no place, no NULLS FIRST, and a qualified column
under whose bare name the result has just that column. -/
def OrderTerm.Told (df : Frame V) (src : Except DbError (Frame V)) (t : OrderTerm V) : Prop :=
  ∃ e, t.key = .expr e ∧ t.nullsFirst ≠ some true ∧
    ∀ n q, e = .col n (some q) → bareSafe df.columns e = true → ∃ g m, src = .ok g ∧
      resolve g.columns n (some q) = some m ∧ g.rows.length = df.rows.length ∧
      ∀ x ∈ df.rows.zip g.rows, x.1 n = x.2 m

/-- A LIMIT and OFFSET that are kept: numbers, and no OFFSET alone. -/
structure Tail.Counted (tail : Tail V) : Prop where
  limit : ∀ v ∈ tail.limit, v.count = some v.literalValue
  offset : ∀ v ∈ tail.offset, v.count = some v.literalValue
  alone : tail.limit = .none → tail.offset = .none

/-- There is no WITH. -/
def Ctes.IsNil : Ctes V → Prop
  | .nil => True
  | .cons _ _ _ => False

section Kept

variable [DecidableEq V] (S : Scalars V) (D : Database V)

mutual

/-- Every clause of the query is one that is kept: a set operation and parentheses have no WITH, and
parentheses have no clause at all. -/
def Query.Kept (env : Relations V) : Query V → Prop
  | .select ctes sources core tail => ctes.Kept env ∧ sources.Kept (ctes.mean S D env) ∧
    tail.Counted ∧ ∀ t df, core (sources.scanned (ctes.mean S D env)) = .ok t →
      t.run S D (sources.mean S D (ctes.mean S D env)) = .ok df → ∀ term ∈ tail.order,
        term.Told df (t.sortInput S D (sources.mean S D (ctes.mean S D env)) df)
  | .setOp ctes left right op d tail => ctes.IsNil ∧ left.Kept env ∧ right.Kept env ∧
    tail.Counted ∧ ∀ l r df, left.mean S D env = .ok l → right.mean S D env = .ok r →
      setopFrames op d l r = .ok df → ∀ term ∈ tail.order, term.Told df (.ok df)
  | .paren ctes inner tail => ctes.IsNil ∧ tail = .none ∧ inner.Kept env

/-- Every clause of the definitions is kept. -/
def Ctes.Kept (env : Relations V) : Ctes V → Prop
  | .nil => True
  | .cons name body rest => body.Kept env ∧ rest.Kept (env.set name (body.mean S D env))

/-- Every clause of the sources is kept. -/
def Sources.Kept (env : Relations V) : Sources V → Prop
  | .nil => True
  | .table _ _ rest => rest.Kept env
  | .subquery q _ rest => q.Kept env ∧ rest.Kept env

end

end Kept

/-! ## 6. What a template returns -/

section Templates

variable [DecidableEq V] {S : Scalars V} {D : Database V}

/-- A plan stands for an input: it has its alias, returns what it returns and is no projection. -/
structure Stands (S : Scalars V) (D : Database V) (plan : PlanNode V) (input : Input V) : Prop where
  aliasName : plan.sideAlias = input.1
  returns : exec S D plan = input.2
  noProject : plan.isProject = false

variable {plans : List (PlanNode V)} {inputs : List (Input V)}

/-- The plan and the input of a place. -/
theorem stands_getD (h : List.Forall₂ (Stands S D) plans inputs) (i : Nat) :
    Stands S D (plans.getD i (.scan "" none none)) (Template.input D inputs i) := by
  induction h generalizing i with
  | nil => exact ⟨rfl, rfl, rfl⟩
  | cons hp _ ih =>
    cases i with
    | zero => exact hp
    | succ i => exact ih i

theorem sideAlias_fill (h : List.Forall₂ (Stands S D) plans inputs) :
    ∀ t : Template V, (t.fill plans).sideAlias = t.sideAlias D inputs
  | .source i => (stands_getD h i).aliasName
  | .scan _ _ _ => rfl
  | .derived _ _ => rfl
  | .filter t _ => sideAlias_fill h t
  | .project _ _ => rfl
  | .join _ _ _ => rfl
  | .aggregate _ _ _ => rfl
  | .window _ _ => rfl
  | .sort _ _ => rfl
  | .limit _ _ _ => rfl
  | .distinct _ => rfl
  | .setOp _ _ _ _ => rfl

/-- The frame a sort key is evaluated on, given what the template below returns. -/
theorem sortSource_fill (h : List.Forall₂ (Stands S D) plans inputs) (df : Frame V) {t : Template V}
    (hexec : ∀ t' items, t = .project t' items → exec S D (t'.fill plans) = t'.run S D inputs) :
    sortSource S D (t.fill plans) df = t.sortInput S D inputs df := by
  cases t with
  | source i => exact sortSource_of_not_project (stands_getD h i).noProject df
  | project t' items => exact hexec t' items rfl
  | scan t c a => rfl
  | derived t a => rfl
  | filter t p => rfl
  | join l r on => rfl
  | aggregate t ks as => rfl
  | window t fs => rfl
  | sort t ks => rfl
  | limit t n o => rfl
  | distinct t => rfl
  | setOp l r op d => rfl

/-- **A filled template** returns what the template does. -/
theorem exec_fill (h : List.Forall₂ (Stands S D) plans inputs) :
    ∀ t : Template V, exec S D (t.fill plans) = t.run S D inputs
  | .source i => (stands_getD h i).returns
  | .scan _ _ _ => rfl
  | .derived t _ => exec_fill h t
  | .filter t p => by rw [Template.fill, exec, Template.run, exec_fill h t]
  | .project t items => by rw [Template.fill, exec, Template.run, exec_fill h t]
  | .join l r on => by
    rw [Template.fill, exec, Template.run, exec_fill h l, exec_fill h r, sideAlias_fill h l,
      sideAlias_fill h r]
  | .aggregate t keys aggs => by rw [Template.fill, exec, Template.run, exec_fill h t]
  | .window t funcs => by rw [Template.fill, exec, Template.run, exec_fill h t]
  | .sort t keys => by
    have hbelow : ∀ t' items, t = .project t' items →
        exec S D (t'.fill plans) = t'.run S D inputs := by
      rintro t' items rfl
      exact exec_fill h t'
    have hsrc : ∀ df, sortSource S D (t.fill plans) df = t.sortInput S D inputs df := fun df =>
      sortSource_fill h df hbelow
    rw [Template.fill, exec_sort, exec_fill h t]
    simp only [hsrc]
    cases t <;> rfl
  | .limit t n offset => by rw [Template.fill, exec, Template.run, exec_fill h t]
  | .distinct t => by rw [Template.fill, exec, Template.run, exec_fill h t]
  | .setOp l r op d => by
    rw [Template.fill, exec, Template.run, exec_fill h l, exec_fill h r]

end Templates

/-! ## 7. The tail -/

section Tails

variable {S : Scalars V} {num : Nat → V}

/-- NULLs last is the order of `sort_values`. -/
theorem cellLeAt_last (asc : Bool) (a b : Cell V) : cellLeAt S (asc, false) a b = S.cellLe asc a b := by
  cases a <;> cases b <;> rfl

theorem keyLeAt_last : ∀ {dirs : List (Bool × Bool)}, (∀ d ∈ dirs, d.2 = false) → ∀ a b : Key V,
    keyLeAt S dirs a b = S.keyLe (dirs.map Prod.fst) a b
  | [], _, _, _ => rfl
  | (asc, nf) :: dirs, h, a, b => by
    have hnf : nf = false := h (asc, nf) List.mem_cons_self
    subst hnf
    rw [keyLeAt, List.map_cons, Scalars.keyLe, cellLeAt_last, cellLeAt_last,
      keyLeAt_last fun d hd => h d (List.mem_cons_of_mem _ hd)]

/-- The checks of some of the images are those of all elements, when the other elements pass. -/
theorem forM_filter_map {α β : Type} {f : α → β} {p : β → Bool} {c : β → Except DbError Unit}
    {d : α → Except DbError Unit} : ∀ {l : List α}, (∀ x ∈ l, p (f x) = false → d x = .ok ()) →
      (∀ x ∈ l, p (f x) = true → c (f x) = d x) → ((l.map f).filter p).forM c = l.forM d
  | [], _, _ => rfl
  | x :: l, hout, hin => by
    have ih := forM_filter_map (l := l) (fun y hy => hout y (List.mem_cons_of_mem _ hy))
      fun y hy => hin y (List.mem_cons_of_mem _ hy)
    rw [List.forM_eq_forM, List.forM_eq_forM] at ih
    rw [List.map_cons, List.filter_cons, List.forM_eq_forM, List.forM_eq_forM]
    cases hp : p (f x) with
    | true => rw [if_pos rfl, List.forM_cons, List.forM_cons, ih, hin x List.mem_cons_self hp]
    | false =>
      rw [if_neg Bool.false_ne_true, List.forM_cons, hout x List.mem_cons_self hp]
      exact ih

/-- Pairs of rows that give what one of them gives. -/
theorem zipWith_eq_map {α β γ : Type} {f : α → β → γ} {g : α → γ} : ∀ {l : List α} {l' : List β},
    l'.length = l.length → (∀ x ∈ l.zip l', f x.1 x.2 = g x.1) → List.zipWith f l l' = l.map g
  | [], _, _, _ => rfl
  | a :: l, b :: l', hlen, h => by
    rw [List.zipWith_cons_cons, List.map_cons, h (a, b) List.mem_cons_self,
      zipWith_eq_map (Nat.succ.inj hlen) fun x hx => h x (List.mem_cons_of_mem _ hx)]

theorem zipWith_congr {α β γ : Type} {f g : α → β → γ} : ∀ {l : List α} {l' : List β},
    (∀ x ∈ l.zip l', f x.1 x.2 = g x.1 x.2) → List.zipWith f l l' = List.zipWith g l l'
  | [], _, _ => rfl
  | _ :: _, [], _ => rfl
  | a :: l, b :: l', h => by
    rw [List.zipWith_cons_cons, List.zipWith_cons_cons, h (a, b) List.mem_cons_self,
      zipWith_congr fun x hx => h x (List.mem_cons_of_mem _ hx)]

variable {df : Frame V} {src : Except DbError (Frame V)} {t : OrderTerm V}
  {order : List (OrderTerm V)}

/-- A term that is told sorts by a column of the result only where the engine does. -/
theorem bareSafe_of_output {e : Expr V} (he : t.key = .expr e)
    (h : t.isOutput df.columns = true) : bareSafe df.columns e = true := by
  rw [OrderTerm.isOutput, he] at h
  cases e with
  | col n q =>
    cases q with
    | none => exact h
    | some q => cases h
  | _ => cases h

/-- **The sort key of a term** is the cell of the term. -/
theorem sortCell_eq {e : Expr V} (he : t.key = .expr e) {cols srcCols : List String} {r s : Row V}
    (hq : ∀ n q, e = .col n (some q) → bareSafe cols e = true →
      r n = e.value S srcCols s) :
    sortCell S cols srcCols r s e = t.cell S cols srcCols r s := by
  rw [sortCell, OrderTerm.cell, he]
  cases e with
  | col n q =>
    cases q with
    | none =>
      have hbare : bareSafe cols (Expr.col n none : Expr V) = decide (n ∈ cols) := rfl
      dsimp only
      rw [hbare]
      by_cases hn : n ∈ cols
      · rw [if_pos hn, if_pos (decide_eq_true hn)]
        rfl
      · rw [if_neg hn, if_neg (by simpa using hn)]
    | some q =>
      dsimp only
      by_cases hb : bareSafe cols (Expr.col n (some q) : Expr V) = true
      · rw [if_pos hb, ← hq n q rfl hb]
        rfl
      · rw [if_neg hb]
  | lit v => exact if_neg Bool.false_ne_true
  | and l r => exact if_neg Bool.false_ne_true
  | or l r => exact if_neg Bool.false_ne_true
  | not e => exact if_neg Bool.false_ne_true
  | app op args => exact if_neg Bool.false_ne_true

/-- The key of a term that is told is an expression. -/
theorem OrderTerm.Told.key_expr (h : t.Told df src) (num : Nat → V) : t.key = .expr (t.key.toExpr num) := by
  obtain ⟨e, he, -⟩ := h
  rw [he, OrderKey.toExpr]

/-- Where the engine takes a key from the result and the term does not, the key is a qualified column. -/
theorem OrderTerm.Told.qualified (h : t.Told df src)
    (hb : bareSafe df.columns (t.key.toExpr num) = true) (hno : ¬ t.isOutput df.columns = true) :
    ∃ n q, t.key.toExpr num = .col n (some q) := by
  rw [OrderTerm.isOutput, h.key_expr num] at hno
  cases he : t.key.toExpr num with
  | col n q =>
    rw [he] at hb hno
    cases q with
    | none => exact absurd hb hno
    | some q => exact ⟨n, q, rfl⟩
  | _ =>
    rw [he] at hb
    cases hb

/-- What is told of a qualified column that the engine takes from the result. -/
theorem OrderTerm.Told.source (h : t.Told df src) {n q : String}
    (he : t.key.toExpr num = .col n (some q)) (hb : bareSafe df.columns (t.key.toExpr num) = true) :
    ∃ g m, src = .ok g ∧ resolve g.columns n (some q) = some m ∧ g.rows.length = df.rows.length ∧
      ∀ x ∈ df.rows.zip g.rows, x.1 n = x.2 m := by
  obtain ⟨e, hkey, -, hq⟩ := h
  have hee : t.key.toExpr num = e := by rw [hkey, OrderKey.toExpr]
  rw [hee] at he hb
  exact hq n q he hb

/-- The cell of the result is the value of the column. -/
theorem OrderTerm.Told.value {g : Frame V} (h : t.Told df (.ok g)) {x : Row V × Row V}
    (hx : x ∈ df.rows.zip g.rows) (n q : String) (he : t.key.toExpr num = .col n (some q))
    (hb : bareSafe df.columns (t.key.toExpr num) = true) :
    x.1 n = (t.key.toExpr num).value S g.columns x.2 := by
  obtain ⟨g', m, hg', hm, -, hrows⟩ := h.source he hb
  cases hg'
  rw [he, Expr.value, hm, Option.bind_some]
  exact hrows x hx

/-- A term that the engine takes from the result passes its check. -/
theorem OrderTerm.Told.check_ok {g : Frame V} (h : t.Told df (.ok g))
    (hb : bareSafe df.columns (t.key.toExpr num) = true) : t.check df.columns g.columns = .ok () := by
  rw [OrderTerm.check, h.key_expr num]
  dsimp only
  split
  · rfl
  · rename_i hno
    obtain ⟨n, q, he⟩ := h.qualified hb hno
    obtain ⟨g', m, hg', hm, -, -⟩ := h.source he hb
    cases hg'
    rw [he, Expr.check, hm]

/-- The sort keys of a row are the cells of the terms. -/
theorem sortCells_eq (hkey : ∀ t ∈ order, t.key = .expr (t.key.toExpr num)) {cols : List String}
    {g : Frame V} {r s : Row V} (hq : ∀ t ∈ order, ∀ n q, t.key.toExpr num = .col n (some q) →
      bareSafe cols (t.key.toExpr num) = true → r n = (t.key.toExpr num).value S g.columns s) :
    ((order.map (OrderTerm.sortKey num)).map fun k => sortCell S cols g.columns r s k.1) =
      order.map (OrderTerm.cell S cols g.columns r s) := by
  rw [List.map_map]
  exact List.map_congr_left fun t ht => sortCell_eq (hkey t ht) (hq t ht)

/-- All terms name columns of the result. -/
theorem sortPairs_output (h : ∀ t ∈ order, t.Told df src)
    (hout : order.all (OrderTerm.isOutput df.columns) = true) :
    sortPairs S df (order.map (OrderTerm.sortKey num)) src = orderPairs S order df src := by
  have houts := List.all_eq_true.mp hout
  have hbare : ((order.map (OrderTerm.sortKey num)).all fun k => bareSafe df.columns k.1) = true := by
    rw [List.all_map]
    exact List.all_eq_true.mpr fun t ht => bareSafe_of_output ((h t ht).key_expr num) (houts t ht)
  have hcheck : order.forM (OrderTerm.check df.columns df.columns) = .ok () :=
    Expr.forM_ok.mpr fun t ht => by
      rw [OrderTerm.check, (h t ht).key_expr num]
      exact if_pos (houts t ht)
  rw [sortPairs, orderPairs, if_pos hbare, if_pos hout, hcheck]
  refine congrArg Except.ok (List.map_congr_left fun r _ => ?_)
  rw [sortCells_eq (fun t ht => (h t ht).key_expr num) fun t ht n q heq _ => ?_]
  have hno := houts t ht
  rw [OrderTerm.isOutput, (h t ht).key_expr num, heq] at hno
  cases hno

/-- The engine takes every key from the result, one of them a qualified column. -/
theorem sortPairs_bare (h : ∀ t ∈ order, t.Told df src)
    (hout : ¬ order.all (OrderTerm.isOutput df.columns) = true)
    (hbare : ∀ t ∈ order, bareSafe df.columns (t.key.toExpr num) = true) :
    sortPairs S df (order.map (OrderTerm.sortKey num)) src = orderPairs S order df src := by
  obtain ⟨t, ht, hno⟩ : ∃ t ∈ order, ¬ t.isOutput df.columns = true := by
    by_contra hall
    refine hout (List.all_eq_true.mpr fun t ht => ?_)
    by_contra hno
    exact hall ⟨t, ht, hno⟩
  obtain ⟨n, q, he⟩ := (h t ht).qualified (hbare t ht) hno
  obtain ⟨g, m, hg, -, hlen, -⟩ := (h t ht).source he (hbare t ht)
  subst hg
  have hcheck : order.forM (OrderTerm.check df.columns g.columns) = .ok () :=
    Expr.forM_ok.mpr fun t ht => (h t ht).check_ok (hbare t ht)
  have hall : ((order.map (OrderTerm.sortKey num)).all fun k => bareSafe df.columns k.1) = true := by
    rw [List.all_map]
    exact List.all_eq_true.mpr hbare
  rw [sortPairs, orderPairs, if_pos hall, if_neg hout]
  change _ = (order.forM (OrderTerm.check df.columns g.columns) >>= fun _ => _)
  rw [hcheck]
  refine congrArg Except.ok (zipWith_eq_map hlen fun x hx => ?_).symm
  rw [← sortCells_eq (fun t ht => (h t ht).key_expr num) fun t ht => (h t ht).value hx]
  refine congrArg (·, x.1) (List.map_congr_left fun k hk => ?_)
  obtain ⟨t, ht, rfl⟩ := List.mem_map.mp hk
  have hsame : bareSafe df.columns (t.sortKey num).1 = true := hbare t ht
  rw [sortCell, sortCell, if_pos hsame, if_pos hsame]

/-- The rows with their sort keys are those the terms ask for. -/
theorem sortPairs_told (h : ∀ t ∈ order, t.Told df src) :
    sortPairs S df (order.map (OrderTerm.sortKey num)) src = orderPairs S order df src := by
  by_cases hout : order.all (OrderTerm.isOutput df.columns) = true
  · exact sortPairs_output h hout
  by_cases hbare : ∀ t ∈ order, bareSafe df.columns (t.key.toExpr num) = true
  · exact sortPairs_bare h hout hbare
  have hall : ¬ ((order.map (OrderTerm.sortKey num)).all fun k => bareSafe df.columns k.1) = true := by
    rw [List.all_map]
    exact fun hall => hbare (List.all_eq_true.mp hall)
  rw [sortPairs, orderPairs, if_neg hall, if_neg hout]
  cases src with
  | error e => rfl
  | ok g =>
    change (((order.map (OrderTerm.sortKey num)).filter fun k =>
      !bareSafe df.columns k.1).forM (fun k => k.1.check g.columns) >>= fun _ => _) =
        (order.forM (OrderTerm.check df.columns g.columns) >>= fun _ => _)
    rw [forM_filter_map (d := OrderTerm.check df.columns g.columns) (fun t ht hb => ?_)
      fun t ht hb => ?_]
    · refine congrArg (_ >>= ·) (funext fun _ => congrArg Except.ok (zipWith_congr fun x hx => ?_))
      rw [sortCells_eq (fun t ht => (h t ht).key_expr num) fun t ht => (h t ht).value hx]
    · have hsafe : bareSafe df.columns (t.sortKey num).1 = true := by simpa using hb
      exact (h t ht).check_ok hsafe
    · rw [OrderTerm.check, (h t ht).key_expr num]
      dsimp only
      rw [if_neg fun hout => ?_]
      · rfl
      · have hsafe : bareSafe df.columns (t.sortKey num).1 = true :=
          bareSafe_of_output ((h t ht).key_expr num) hout
        rw [hsafe] at hb
        cases hb

/-- **ORDER BY** sorts as the terms say. -/
theorem sortFrame_told (h : ∀ t ∈ order, t.Told df src) :
    sortFrame S df (order.map (OrderTerm.sortKey num)) src = orderFrame S order df src := by
  unfold sortFrame orderFrame
  rw [List.isEmpty_map]
  split
  · rfl
  · rw [sortPairs_told h]
    have hlast : ∀ d ∈ order.map OrderTerm.dir, d.2 = false := by
      intro d hd
      obtain ⟨t, ht, rfl⟩ := List.mem_map.mp hd
      obtain ⟨e, -, hnulls, -⟩ := h t ht
      cases hn : t.nullsFirst with
      | none => rw [OrderTerm.dir, hn]; rfl
      | some b =>
        cases b with
        | false => rw [OrderTerm.dir, hn]; rfl
        | true => exact absurd hn hnulls
    have hdirs : (order.map (OrderTerm.sortKey num)).map Prod.snd =
        (order.map OrderTerm.dir).map Prod.fst := by
      rw [List.map_map, List.map_map]
      rfl
    rw [hdirs]
    simp only [sortRows, keyLeAt_last hlast]

/-- LIMIT and OFFSET that are kept. -/
theorem counts_told {tail : Tail V} (h : tail.Counted) :
    countOf tail.limit = .ok (tail.limit.map LimitValue.literalValue) ∧
      countOf tail.offset = .ok (tail.offset.map LimitValue.literalValue) := by
  constructor
  · cases hl : tail.limit with
    | none => rfl
    | some v => rw [countOf, h.limit v hl]; rfl
  · cases ho : tail.offset with
    | none => rfl
    | some v => rw [countOf, h.offset v ho]; rfl

/-- **The tail** of a node takes effect when its clauses are kept. -/
theorem exec_tail [DecidableEq V] {D : Database V} {p : PlanNode V} {tail : Tail V}
    (hc : tail.Counted) (ht : ∀ df, exec S D p = .ok df → ∀ t ∈ tail.order,
      t.Told df (sortSource S D p df)) :
    exec S D (buildTail num tail p) =
      (exec S D p >>= fun df => tailFrame S tail df (sortSource S D p df)) := by
  have hsort : exec S D (if tail.order.isEmpty then p
      else .sort p (tail.order.map (OrderTerm.sortKey num))) =
        (exec S D p >>= fun df => orderFrame S tail.order df (sortSource S D p df)) := by
    cases he : tail.order.isEmpty with
    | true =>
      rw [if_pos rfl]
      cases exec S D p with
      | error e => rfl
      | ok df =>
        change _ = orderFrame S tail.order df _
        rw [orderFrame, if_pos he]
    | false =>
      rw [if_neg Bool.false_ne_true, exec_sort]
      cases hx : exec S D p with
      | error e => rfl
      | ok df => exact sortFrame_told (ht df hx)
  have htail : ∀ df, tailFrame S tail df (sortSource S D p df) =
      (orderFrame S tail.order df (sortSource S D p df) >>= fun f => .ok (keepRows f
        (tail.limit.map LimitValue.literalValue) (tail.offset.map LimitValue.literalValue))) := by
    intro df
    rw [tailFrame, (counts_told hc).1, (counts_told hc).2]
    rfl
  simp only [htail]
  rw [← bind_assoc, ← hsort]
  unfold buildTail
  cases hl : tail.limit with
  | none =>
    rw [hc.alone hl]
    exact (bind_pure _).symm
  | some v => rfl

end Tails

/-! ## 8. The query -/

section Main

variable [DecidableEq V] {S : Scalars V} {D : Database V} {num : Nat → V}

/-- The CTE plans return what the names mean. -/
def Agrees (S : Scalars V) (D : Database V) (env : Env V) (rels : Relations V) : Prop :=
  ∀ n, (env.ctes.get? n).map (exec S D) = rels.get? n

/-- A table of FROM: its alias, what it returns and what it scans. -/
theorem table_source {env : Env V} {rels : Relations V} (h : Agrees S D env rels)
    {name a : String} {x : PlanNode V × String × String}
    (hx : tableRef env (.table name a) = .ok x) :
    Stands S D x.1 (some (if a = "" then name else a),
      (rels.get? name).getD (D.scan name none)) ∧
      scanned x.1 = if (rels.get? name).isSome then none else some name := by
  have hname := h name
  rw [tableRef] at hx
  split at hx
  · rename_i plan hplan
    cases hx
    rw [hplan, Option.map_some] at hname
    rw [← hname]
    exact ⟨⟨rfl, rfl, rfl⟩, rfl⟩
  · rename_i hnone
    rw [hnone, Option.map_none] at hname
    split at hx
    · cases hx
    · cases hx
      rw [← hname]
      exact ⟨⟨rfl, rfl, rfl⟩, rfl⟩

omit [DecidableEq V] in
theorem Ctes.mean_of_isNil [DecidableEq V] {ctes : Ctes V} (h : ctes.IsNil) (rels : Relations V) :
    ctes.mean S D rels = rels := by
  cases ctes with
  | nil => rfl
  | cons name body rest => exact h.elim

mutual

/-- **Every clause takes effect** in a query whose clauses are kept. -/
theorem exec_buildQuery {env : Env V} {rels : Relations V} (henv : Agrees S D env rels) :
    ∀ {q : Query V} {p : PlanNode V}, q.Kept S D rels → buildQuery num env q = .ok p →
      exec S D p = q.mean S D rels
  | .select ctes sources core tail, p, hk, hp => by
    obtain ⟨hctes, hsources, htail, hterms⟩ := hk
    obtain ⟨env', henv', hp⟩ := bind_eq_ok.mp hp
    obtain ⟨plans, hplans, hp⟩ := bind_eq_ok.mp hp
    obtain ⟨t, ht, hp⟩ := bind_eq_ok.mp hp
    cases hp
    have hagree := agrees_buildCtes henv hctes henv'
    obtain ⟨hstands, hscanned⟩ := stands_buildSources hagree hsources hplans
    rw [hscanned] at ht
    have hfill : exec S D (t.fill plans) = t.run S D (sources.mean S D (ctes.mean S D rels)) :=
      exec_fill hstands t
    have hsrc : ∀ df, sortSource S D (t.fill plans) df =
        t.sortInput S D (sources.mean S D (ctes.mean S D rels)) df := fun df =>
      sortSource_fill hstands df fun t' _ _ => exec_fill hstands t'
    rw [exec_tail htail fun df hdf term hterm => by
      rw [hsrc]
      exact hterms t df ht (hfill ▸ hdf) term hterm]
    simp only [hsrc, hfill]
    rw [Query.mean, ht]
    rfl
  | .setOp ctes left right op d tail, p, hk, hp => by
    obtain ⟨hnil, hl, hr, htail, hterms⟩ := hk
    obtain ⟨l, hleft, hp⟩ := bind_eq_ok.mp hp
    obtain ⟨r, hright, hp⟩ := bind_eq_ok.mp hp
    cases hp
    have hexecl := exec_buildQuery henv hl hleft
    have hexecr := exec_buildQuery henv hr hright
    rw [exec_tail htail fun df hdf term hterm => ?_]
    · rw [Query.mean, Ctes.mean_of_isNil hnil, exec, hexecl, hexecr]
      simp only [bind_assoc]
      rfl
    · obtain ⟨fl, hfl, hdf⟩ := bind_eq_ok.mp hdf
      obtain ⟨fr, hfr, hdf⟩ := bind_eq_ok.mp hdf
      exact hterms fl fr df (hexecl ▸ hfl) (hexecr ▸ hfr) hdf term hterm
  | .paren ctes inner tail, p, hk, hp => by
    obtain ⟨hnil, rfl, hinner⟩ := hk
    rw [Query.mean, Ctes.mean_of_isNil hnil, exec_buildQuery henv hinner hp]
    cases inner.mean S D rels <;> rfl

/-- The names of a WITH return what they mean. -/
theorem agrees_buildCtes {env : Env V} {rels : Relations V} (henv : Agrees S D env rels) :
    ∀ {ctes : Ctes V} {env' : Env V}, ctes.Kept S D rels → buildCtes num env ctes = .ok env' →
      Agrees S D env' (ctes.mean S D rels)
  | .nil, _, _, h => by
    cases h
    exact henv
  | .cons name body rest, env', hk, h => by
    obtain ⟨plan, hplan, h⟩ := bind_eq_ok.mp h
    have hbody := exec_buildQuery henv hk.1 hplan
    have hmore : Agrees S D { env with ctes := env.ctes.set name plan }
        (rels.set name (body.mean S D rels)) := by
      intro n
      rw [Dict.get?_set, Dict.get?_set]
      split
      · exact congrArg some hbody
      · exact henv n
    have hrest : rest.Kept S D (rels.set name (body.mean S D rels)) := hk.2
    have hagree : Agrees S D env' (rest.mean S D (rels.set name (body.mean S D rels))) :=
      agrees_buildCtes hmore hrest h
    exact hagree

/-- The sources stand for what they mean. -/
theorem stands_buildSources {env : Env V} {rels : Relations V} (henv : Agrees S D env rels) :
    ∀ {sources : Sources V} {plans : List (PlanNode V)}, sources.Kept S D rels →
      buildSources num env sources = .ok plans →
        List.Forall₂ (Stands S D) plans (sources.mean S D rels) ∧
          plans.map scanned = sources.scanned rels
  | .nil, _, _, h => by
    cases h
    exact ⟨.nil, rfl⟩
  | .table name a rest, plans, hk, h => by
    obtain ⟨x, hx, h⟩ := bind_eq_ok.mp h
    obtain ⟨more, hmore, h⟩ := bind_eq_ok.mp h
    cases h
    obtain ⟨hstands, hscan⟩ := table_source henv hx
    have hk' : rest.Kept S D rels := hk
    obtain ⟨hrest, hscans⟩ := stands_buildSources henv hk' hmore
    refine ⟨.cons hstands hrest, ?_⟩
    rw [List.map_cons, hscan, hscans, Sources.scanned]
  | .subquery q a rest, plans, hk, h => by
    obtain ⟨plan, hplan, h⟩ := bind_eq_ok.mp h
    obtain ⟨x, hx, h⟩ := bind_eq_ok.mp h
    obtain ⟨more, hmore, h⟩ := bind_eq_ok.mp h
    cases h
    have hq := exec_buildQuery henv hk.1 hplan
    obtain ⟨hrest, hscans⟩ := stands_buildSources henv hk.2 hmore
    rw [tableRef] at hx
    split at hx
    · cases hx
    · cases hx
      exact ⟨.cons ⟨rfl, hq, rfl⟩ hrest, congrArg (none :: ·) hscans⟩

end

end Main

/-- `SELECT * FROM name` with ORDER BY, LIMIT and OFFSET. -/
def selectStar (ctes : Ctes Nat) (name : String) (tail : Tail Nat) : Query Nat :=
  .select ctes (.table name "" .nil) (fun _ => .ok (.source 0)) tail

/-- `LIMIT 1`. -/
def limitOne : Tail Nat := ⟨[], some (.number 1), none⟩

/-- `WITH b AS (SELECT * FROM a LIMIT 1) SELECT * FROM b ORDER BY k DESC`. -/
def withOnSelect : Query Nat :=
  selectStar (.cons "b" (selectStar .nil "a" limitOne) .nil) "b"
    ⟨[⟨.expr (.col "k" none), true, none⟩], none, none⟩

/-- `WITH b AS (SELECT * FROM a LIMIT 1) SELECT * FROM b UNION ALL SELECT * FROM b`. -/
def withOnUnion : Query Nat :=
  .setOp (.cons "b" (selectStar .nil "a" limitOne) .nil) (selectStar .nil "b" .none)
    (selectStar .nil "b" .none) .union false .none

/-- `(SELECT * FROM a) LIMIT 1`. -/
def limitOnParen : Query Nat := .paren .nil (selectStar .nil "a" .none) limitOne

/-- `SELECT * FROM a OFFSET 1`. -/
def offsetAlone : Query Nat := selectStar .nil "a" ⟨[], none, some (.number 1)⟩

theorem withOnSelect_kept : withOnSelect.Kept natScalars unevenTables ∅ := by
  have hone : limitOne.Counted := ⟨fun v hv => by cases hv; rfl, nofun, nofun⟩
  refine ⟨⟨⟨trivial, trivial, hone, nofun⟩, trivial⟩, trivial, ⟨nofun, nofun, fun _ => rfl⟩, ?_⟩
  intro t df _ _ term hterm
  cases List.mem_singleton.mp hterm
  exact ⟨_, rfl, nofun, fun n q h => by cases h⟩

end Parse

end RyuDB.Sql
