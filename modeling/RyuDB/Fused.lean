/-
# The fused filter and aggregate

`fused_aggregate` runs an aggregate over a filter as one CUDA kernel on the arrays of the frame.
Eligibility is a list of tests on the plan and the columns (`_match`).  What is eligible is lowered to
a descriptor program: comparisons of a bound array with a number, postfix expressions for the
arguments, and an integer code for the group.  There are two backends.  The C++ one reads every
integer array as 64-bit and every other as double, and groups by the raw key or by codes; the Numba
one reads the arrays in their own type, groups by codes, and leaves out a group whose accumulators are
all zero.

Arithmetic is exact: numbers are rationals.  A column is the memory its pointer leads to, so what a
kernel loads at row `i` is a fact about the bytes, whether or not the column has that width.  The
kernels compute the program they are given; that the hash table overflows, and how the libraries read
floats and cast times, are parameters (`Device`).
-/
import Mathlib.Algebra.Order.Ring.Rat
import RyuDB.Lib.Grouping
import RyuDB.Relational

namespace RyuDB.Fused

/-! ## 1. Columns in device memory -/

/-- The bytes at a device pointer. -/
abbrev Mem := Nat → BitVec 8

/-- `k` bytes from `off`, little-endian. -/
def load (m : Mem) (off : Nat) : Nat → Nat
  | 0 => 0
  | k + 1 => (m off).toNat + 256 * load m (off + 1) k

/-- Two's complement in `k` bytes. -/
def signed (k x : Nat) : Int := if x < 2 ^ (8 * k - 1) then x else x - 2 ^ (8 * k)

/-- 64-bit arithmetic. -/
def wrap64 (x : Int) : Int := x.bmod (2 ^ 64)

inductive TimeUnit where
  | s | ms | us | ns
  deriving DecidableEq, Repr

def TimeUnit.perSecond : TimeUnit → Nat
  | .s => 1
  | .ms => 1000
  | .us => 1000000
  | .ns => 1000000000

/-- The type of a column; integers and floats with their width in bytes. -/
inductive DType where
  | int (bytes : Nat)
  | uint (bytes : Nat)
  | float (bytes : Nat)
  | datetime (unit : TimeUnit)
  | text
  deriving DecidableEq, Repr

/-- A column: its data buffer, the values of a text column, and which rows are not NULL. -/
structure Column where
  dtype : DType
  mem : Mem
  text : Nat → String
  valid : Nat → Bool

/-- A frame. -/
structure Child where
  length : Nat
  columns : Dict String Column

/-- What the libraries compute: the number a float of some bytes stands for, the cast to
`datetime64[s]`, `np.datetime64(.., "s")` of an instant, and the outcome of a hash table.
`available` is `_kernels.is_available`. -/
structure Device where
  real : Nat → Nat → ℚ
  toSeconds : TimeUnit → Int → Int
  literalSeconds : ℚ → Int
  overflow : Nat → List Int → Bool
  available : Bool

/-- Whole seconds are cast exactly. -/
structure Device.Lawful (D : Device) : Prop where
  toSeconds : ∀ u k, D.toSeconds u (u.perSecond * k) = k
  literalSeconds : ∀ k : Int, D.literalSeconds k = k

/-- A value of a cell: a number, an instant in seconds, or a text. -/
inductive Value where
  | num (q : ℚ)
  | instant (q : ℚ)
  | text (s : String)
  deriving DecidableEq

/-- The ticks of a time at row `i`. -/
def Column.ticks (c : Column) (i : Nat) : Int := signed 8 (load c.mem (8 * i) 8)

/-- The value of row `i`, read in the column's own type. -/
def Column.value (D : Device) (c : Column) (i : Nat) : Value :=
  match c.dtype with
  | .int k => .num (signed k (load c.mem (k * i) k))
  | .uint k => .num (load c.mem (k * i) k)
  | .float k => .num (D.real k (load c.mem (k * i) k))
  | .datetime u => .instant (c.ticks i / u.perSecond)
  | .text => .text (c.text i)

/-- The cell of row `i`. -/
def Column.cell (D : Device) (c : Column) (i : Nat) : Option Value :=
  if c.valid i then some (c.value D i) else none

/-- `null_count != 0`. -/
def Child.hasNull (ch : Child) (c : Column) : Bool := (List.range ch.length).any fun i => !c.valid i

/-- The cell of row `i` under a name, or `none` when there is no such column. -/
def Child.cell (D : Device) (ch : Child) (i : Nat) (name : String) : Option Value :=
  (ch.columns.get? name).bind fun c => c.cell D i

/-! ## 2. Plans -/

inductive BinOp where
  | add | sub | mul | div
  deriving DecidableEq, Repr

def BinOp.apply : BinOp → ℚ → ℚ → ℚ
  | .add, a, b => a + b
  | .sub, a, b => a - b
  | .mul, a, b => a * b
  | .div, a, b => a / b

inductive Cmp where
  | eq | ne | lt | le | gt | ge
  deriving DecidableEq, Repr

def Cmp.test : Cmp → ℚ → ℚ → Bool
  | .eq, a, b => a = b
  | .ne, a, b => a ≠ b
  | .lt, a, b => a < b
  | .le, a, b => a ≤ b
  | .gt, a, b => b < a
  | .ge, a, b => b ≤ a

/-- The operator with its sides exchanged. -/
def Cmp.mirror : Cmp → Cmp
  | .eq => .eq
  | .ne => .ne
  | .lt => .gt
  | .le => .ge
  | .gt => .lt
  | .ge => .le

theorem test_mirror (op : Cmp) (a b : ℚ) : op.mirror.test a b = op.test b a := by
  cases op with
  | eq => exact decide_eq_decide.mpr eq_comm
  | ne => exact decide_eq_decide.mpr ne_comm
  | lt => rfl
  | le => rfl
  | gt => rfl
  | ge => rfl

inductive Lit where
  | num (q : ℚ)
  | instant (q : ℚ)
  | null
  deriving DecidableEq

/-- A scalar expression; `other` is any that the fused paths do not know. -/
inductive Scalar where
  | col (name : String) (table : Option String)
  | lit (l : Lit)
  | bin (op : BinOp) (l r : Scalar)
  | other (f : (String → Option Value) → Option ℚ)

/-- A predicate. -/
inductive Pred where
  | cmp (op : Cmp) (l r : Scalar)
  | and (l r : Pred)
  | or (l r : Pred)
  | other (f : (String → Option Value) → Option Bool)

inductive Func where
  | count | sum | avg | min | max
  | other (f : List ℚ → Option ℚ)

/-- An aggregate; no argument is the star. -/
structure Agg where
  func : Func
  arg : Option Scalar

/-- An aggregate with what is below it: the predicate of a filter, if there is one, and the table
`_source_table` finds. -/
structure Node where
  keys : List Scalar
  aggs : List Agg
  predicate : Option Pred
  table : Option String

/-- A row of the result: the group keys and the aggregates. -/
abbrev OutRow := List (Option Value) × List (Option ℚ)

/-! ## 3. What is wanted -/

def Lit.value : Lit → Option Value
  | .num q => some (.num q)
  | .instant q => some (.instant q)
  | .null => none

/-- The cell of a column reference. -/
def Child.ref (D : Device) (ch : Child) (i : Nat) (name : String) (table : Option String) :
    Option Value := (Sql.resolve ch.columns.keys name table).bind (ch.cell D i)

/-- The number of a value. -/
def Value.num? : Value → Option ℚ
  | .num q => some q
  | _ => none

/-- The number an expression has at row `i`; NULL in, NULL out. -/
def Scalar.num (D : Device) (ch : Child) (i : Nat) : Scalar → Option ℚ
  | .col name table => (ch.ref D i name table).bind Value.num?
  | .lit l => l.value.bind Value.num?
  | .bin op l r => (l.num D ch i).bind fun a => (r.num D ch i).map (op.apply a)
  | .other f => f (ch.cell D i)

/-- The value an expression has at row `i`. -/
def Scalar.value (D : Device) (ch : Child) (i : Nat) : Scalar → Option Value
  | .col name table => ch.ref D i name table
  | .lit l => l.value
  | e => (e.num D ch i).map .num

/-- A comparison of two values of one kind. -/
def Cmp.values (op : Cmp) : Value → Value → Option Bool
  | .num a, .num b => some (op.test a b)
  | .instant a, .instant b => some (op.test a b)
  | _, _ => none

/-- AND and OR of three-valued logic. -/
def and3 : Option Bool → Option Bool → Option Bool
  | some false, _ => some false
  | _, some false => some false
  | some true, some true => some true
  | _, _ => none

def or3 : Option Bool → Option Bool → Option Bool
  | some true, _ => some true
  | _, some true => some true
  | some false, some false => some false
  | _, _ => none

/-- A predicate at row `i`. -/
def Pred.holds (D : Device) (ch : Child) (i : Nat) : Pred → Option Bool
  | .cmp op l r => (l.value D ch i).bind fun a => (r.value D ch i).bind (op.values a)
  | .and l r => and3 (l.holds D ch i) (r.holds D ch i)
  | .or l r => or3 (l.holds D ch i) (r.holds D ch i)
  | .other f => f (ch.cell D i)

/-- The rows a predicate keeps. -/
def passing (D : Device) (ch : Child) (p : Pred) : List Nat :=
  (List.range ch.length).filter fun i => p.holds D ch i = some true

/-- The numbers an aggregate reduces: one for each row under the star, else those that are not
NULL. -/
def Agg.cells (D : Device) (ch : Child) (rows : List Nat) (a : Agg) : List ℚ :=
  match a.arg with
  | none => rows.map fun _ => 1
  | some e => rows.filterMap fun i => e.num D ch i

def Func.reduce : Func → List ℚ → Option ℚ
  | .count, vals => some vals.length
  | .sum, vals => if vals.isEmpty then none else some vals.sum
  | .avg, vals => if vals.isEmpty then none else some (vals.sum / vals.length)
  | .min, vals => vals.min?
  | .max, vals => vals.max?
  | .other f, vals => f vals

/-- An aggregate over the rows of a group. -/
def Agg.over (D : Device) (ch : Child) (rows : List Nat) (a : Agg) : Option ℚ :=
  a.func.reduce (a.cells D ch rows)

/-- The keys of row `i`. -/
def Node.key (D : Device) (ch : Child) (node : Node) (i : Nat) : List (Option Value) :=
  node.keys.map fun k => k.value D ch i

/-- **The plain aggregate**: one row for each group of the rows that pass; without keys all rows are
one group. -/
def Node.groups (D : Device) (ch : Child) (node : Node) (rows : List Nat) : List OutRow :=
  let out (k : List (Option Value)) (rs : List Nat) : OutRow := (k, node.aggs.map (Agg.over D ch rs))
  if node.keys.isEmpty then [out [] rows]
  else (rows.map (node.key D ch)).dedup.map fun k =>
    out k (rows.filter fun i => node.key D ch i = k)

/-! ## 4. Eligibility -/

/-- `_is_numeric_dtype`. -/
def DType.isNumeric : DType → Bool
  | .int _ | .uint _ | .float _ => true
  | .datetime _ | .text => false

/-- `Expr.columns`. -/
def Scalar.columns : Scalar → List String
  | .col name _ => [name]
  | .lit _ => []
  | .bin _ l r => l.columns ++ r.columns
  | .other _ => []

/-- `_is_numeric_expr`. -/
def Scalar.isNumericExpr (ch : Child) : Scalar → Bool
  | .col name _ => (ch.columns.get? name).any fun c => c.dtype.isNumeric
  | .lit (.num _) => true
  | .bin _ l r => l.isNumericExpr ch && r.isNumericExpr ch
  | _ => false

/-- `_arg_cols_nonnull`. -/
def Scalar.argColsNonnull (ch : Child) (e : Scalar) : Bool :=
  e.columns.all fun n => (ch.columns.get? n).any fun c => !ch.hasNull c

/-- The column of a comparison may be compared: a number or a time. -/
def Child.comparable (ch : Child) (name : String) : Bool :=
  (ch.columns.get? name).any fun c =>
    match c.dtype with
    | .text => false
    | _ => true

/-- `_is_supported_predicate`. -/
def Pred.supported (ch : Child) : Pred → Bool
  | .and l r => l.supported ch && r.supported ch
  | .or l r => l.supported ch && r.supported ch
  | .cmp _ (.col n _) (.lit _) => ch.comparable n
  | .cmp _ (.lit _) (.col n _) => ch.comparable n
  | _ => false

/-- The group keys are columns without NULL. -/
def Scalar.isKey (ch : Child) : Scalar → Bool
  | .col n _ => (ch.columns.get? n).any fun c => !ch.hasNull c
  | _ => false

/-- COUNT(*), or SUM, AVG, MIN, MAX over a numeric expression. -/
def Agg.supported (ch : Child) (a : Agg) : Bool :=
  match a.func, a.arg with
  | .count, none => true
  | .sum, some e => e.isNumericExpr ch
  | .avg, some e | .min, some e | .max, some e => e.isNumericExpr ch && e.argColsNonnull ch
  | _, _ => false

/-- `_match`: the predicate of an eligible plan. -/
def Node.match? (ch : Child) (node : Node) : Option Pred :=
  node.predicate.filter fun p =>
    node.keys.all (Scalar.isKey ch) && node.aggs.all (Agg.supported ch) && p.supported ch

/-! ## 5. Codes of group keys -/

/-- Codes with what they stand for. -/
structure Codes where
  codes : Nat → Int
  uniques : List Value

/-- `Series.factorize`: values in order of appearance, NULL is -1. -/
def factorize (D : Device) (ch : Child) (c : Column) : Codes :=
  let uniques := ((List.range ch.length).filterMap (c.cell D)).reverse.dedup.reverse
  ⟨fun i => (c.cell D i).elim (-1) fun v => uniques.idxOf v, uniques⟩

/-- `Engine._code_cache` of an engine, if there is one. -/
abbrev CodeCache := Option (Dict (String × String) Codes)

/-- `Engine.get_codes`, or the codes of a frame without an engine. -/
def getCodes (D : Device) (E : CodeCache) (ch : Child) (table : Option String) (name : String)
    (c : Column) : Codes :=
  match E, table with
  | some cache, some t => (cache.get? (t, name)).getD (factorize D ch c)
  | _, _ => factorize D ch c

/-- The column of a group key. -/
def Scalar.keyColumn (ch : Child) : Scalar → Option (String × Column)
  | .col n _ => (ch.columns.get? n).map fun c => (n, c)
  | _ => none

/-- The codes of all group keys. -/
def Node.codes (D : Device) (E : CodeCache) (ch : Child) (node : Node) : Option (List Codes) :=
  node.keys.mapM fun k => (k.keyColumn ch).map fun nc => getCodes D E ch node.table nc.1 nc.2

/-- The number of values of each key. -/
def sizes (cs : List Codes) : List Nat := cs.map fun c => c.uniques.length

/-- The strides, as 64-bit products. -/
def strides (cs : List Codes) : List Int :=
  (Grouping.strides (sizes cs)).map fun (s : Nat) => wrap64 s

/-- `n_groups`. -/
def nGroups (cs : List Codes) : Int := wrap64 (sizes cs).prod

/-- The code of a row: the sum of its codes times their strides. -/
def combine (cs : List Codes) (i : Nat) : Int :=
  wrap64 (List.zipWith (fun c s => c.codes i * s) cs (strides cs)).sum

/-- The codes of the keys from a combined code, stride by stride. -/
def unravel : List Int → Int → List Int
  | [], _ => []
  | s :: ss, g => g / s :: unravel ss (g % s)

/-- The same, each from its own stride and size. -/
def unravelStrided (cs : List Codes) (g : Int) : List Int :=
  List.zipWith (fun c s => g / s % c.uniques.length) cs (strides cs)

/-- `uniq[int(c)]`. -/
def label (c : Codes) (k : Int) : Option (Option Value) :=
  if 0 ≤ k then (c.uniques[k.toNat]?).map some else none

/-- The labels of all keys. -/
def labels (cs : List Codes) (codes : List Int) : Option (List (Option Value)) :=
  (cs.zip codes).mapM fun x => label x.1 x.2

/-! ## 6. The C++ backend -/

def maxAccCells : Nat := 4096
def hashCapMax : Nat := 2 ^ 25
def hashAccBudget : Nat := 2 * 10 ^ 9

/-- What the kernel loads at row `i` of a bound column: eight bytes at `8 * i`. -/
def Column.bound (D : Device) (c : Column) (i : Nat) : ℚ :=
  match c.dtype with
  | .datetime u => D.toSeconds u (c.ticks i)
  | .float _ => D.real 8 (load c.mem (8 * i) 8)
  | _ => signed 8 (load c.mem (8 * i) 8)

/-- The array bound for a name. -/
def Child.bound (D : Device) (ch : Child) (i : Nat) (name : String) : ℚ :=
  ((ch.columns.get? name).map fun c => c.bound D i).getD 0

/-- The literal of a comparison with a column: seconds for a time, else a number.  NULL beside a
time is `NaT`, the least 64-bit integer. -/
def Device.lower (D : Device) (c : Column) (l : Lit) : Option ℚ :=
  match c.dtype, l with
  | .datetime _, .instant q => some (D.literalSeconds q)
  | .datetime _, .num q => if q.den = 1 then some q else none
  | .datetime _, .null => some (-(2 ^ 63))
  | _, .num q => some q
  | _, _ => none

/-- `_flatten_and_pred`. -/
def Pred.flattenAnd (D : Device) (ch : Child) : Pred → Option (List (String × Cmp × ℚ))
  | .and l r => do return (← l.flattenAnd D ch) ++ (← r.flattenAnd D ch)
  | .cmp op (.col n _) (.lit v) => do return [(n, op, ← D.lower (← ch.columns.get? n) v)]
  | .cmp op (.lit v) (.col n _) => do return [(n, op.mirror, ← D.lower (← ch.columns.get? n) v)]
  | _ => none

/-- `pass_pred`. -/
def passPred (arr : String → ℚ) (preds : List (String × Cmp × ℚ)) : Bool :=
  preds.all fun p => p.2.1.test (arr p.1) p.2.2

inductive Token where
  | col (name : String)
  | lit (q : ℚ)
  | op (o : BinOp)
  deriving DecidableEq

/-- `_to_postfix`. -/
def Scalar.toPostfix : Scalar → Option (List Token)
  | .col name _ => some [.col name]
  | .lit (.num q) => some [.lit q]
  | .bin op l r => do return (← l.toPostfix) ++ (← r.toPostfix) ++ [.op op]
  | _ => none

/-- `eval_agg` on a stack. -/
def evalTokens (arr : String → ℚ) : List Token → List ℚ → List ℚ
  | [], st => st
  | .col n :: ts, st => evalTokens arr ts (arr n :: st)
  | .lit q :: ts, st => evalTokens arr ts (q :: st)
  | .op o :: ts, b :: a :: st => evalTokens arr ts (o.apply a b :: st)
  | .op _ :: ts, st => evalTokens arr ts st

/-- The value left at the bottom of the stack. -/
def evalAgg (arr : String → ℚ) (toks : List Token) : ℚ := (evalTokens arr toks []).getLast?.getD 0

/-- The accumulator of a group; AVG is a running sum. -/
def accumulate (f : Func) (vals : List ℚ) : ℚ :=
  match f with
  | .count => vals.length
  | .min => vals.min?.getD 0
  | .max => vals.max?.getD 0
  | _ => vals.sum

/-- The tokens of an aggregate; COUNT(*) has none. -/
def Agg.lower (a : Agg) : Option (Func × List Token) :=
  match a.arg with
  | none => some (a.func, [])
  | some e => e.toPostfix.map fun ts => (a.func, ts)

/-- An average. -/
def Func.isAvg : Func → Bool
  | .avg => true
  | _ => false

/-- The accumulators of the rows of a group; with an average a hidden count is last. -/
def slots (D : Device) (ch : Child) (aggs : List (Func × List Token)) (rows : List Nat) : List ℚ :=
  (aggs.map fun a => accumulate a.1 (rows.map fun i => evalAgg (ch.bound D i) a.2)) ++
    if aggs.any fun a => a.1.isAvg then [(rows.length : ℚ)] else []

/-- The aggregates of a row of `_assemble_agg_frame`. -/
def readOut (aggs : List Agg) (acc : List ℚ) : List (Option ℚ) :=
  List.zipWith (fun a v => some (if a.func.isAvg then v / acc.getLast?.getD 0 else v)) aggs acc

/-- The capacity of the hash table; with no aggregate it is a division by zero. -/
def hashCapacity (n nagg : Nat) : Option Nat :=
  if nagg = 0 then none
  else
    let capacity := Nat.nextPowerOfTwo (min n (min hashCapMax (hashAccBudget / (nagg * 8))))
    if capacity < 4 then none else some capacity

/-- The integer a key column is bound as. -/
def Column.boundKey (D : Device) (c : Column) (i : Nat) : Int :=
  match c.dtype with
  | .datetime u => D.toSeconds u (c.ticks i)
  | _ => signed 8 (load c.mem (8 * i) 8)

/-- The value an integer key is read out as. -/
def Column.keyValue (c : Column) (k : Int) : Value :=
  match c.dtype with
  | .datetime _ => .instant k
  | _ => .num k

/-- `_numeric_key`. -/
def DType.numericKey : DType → Bool
  | .int _ | .uint _ | .datetime _ => true
  | .float _ | .text => false

/-- How the rows are grouped. -/
inductive Strategy where
  | global
  | hashKey (c : Column) (capacity : Nat)
  | dense (cs : List Codes)
  | hashCodes (cs : List Codes) (capacity : Nat)

/-- The single integer key of a plan. -/
def Node.singleKey (ch : Child) (node : Node) : Option Column :=
  match node.keys with
  | [k] => ((k.keyColumn ch).map Prod.snd).filter fun c => c.dtype.numericKey
  | _ => none

/-- The slots of a group. -/
def Node.naggEff (node : Node) : Nat :=
  node.aggs.length + if node.aggs.any fun a => a.func.isAvg then 1 else 0

/-- `np.tile(per_slot, n)` of so many slots raises for a negative `n`, unless there is nothing to
repeat. -/
def tiles (slots : Nat) (n : Int) : Bool := slots = 0 ∨ 0 ≤ n

/-- The choice of the strategy. -/
def Node.strategy (D : Device) (E : CodeCache) (ch : Child) (node : Node) : Option Strategy :=
  if node.keys.isEmpty then some .global
  else
    match node.singleKey ch with
    | some c => (hashCapacity ch.length node.aggs.length).map (.hashKey c)
    | none => do
      let cs ← node.codes D E ch
      if nGroups cs * node.naggEff ≤ maxAccCells then
        if tiles node.naggEff (nGroups cs) then return .dense cs else none
      else return .hashCodes cs (← hashCapacity ch.length node.aggs.length)

/-- The groups a kernel returns: their codes with the rows that have them. -/
def hashGroups (D : Device) (capacity : Nat) (code : Nat → Int) (rows : List Nat) :
    Option (List (Int × List Nat)) :=
  let keys := (rows.map code).dedup
  if -1 ∈ keys || D.overflow capacity keys then none
  else some (keys.map fun k => (k, rows.filter fun i => code i = k))

def denseGroups (n : Int) (code : Nat → Int) (rows : List Nat) : List (Int × List Nat) :=
  (((List.range n.toNat).map Int.ofNat).filter fun g => rows.any fun i => code i = g).map
    fun g => (g, rows.filter fun i => code i = g)

/-- `_global_null_result`. -/
def Node.globalNull (node : Node) : OutRow :=
  ([], node.aggs.map fun a =>
    match a.func, a.arg with
    | .count, none => some 0
    | _, _ => none)

/-- The kernel and the read-out of `_run_cpp`. -/
def Node.launch (D : Device) (node : Node) (out : List Nat → List (Option ℚ)) (rows : List Nat) :
    Strategy → Option (List OutRow)
  | .global => some (if rows.isEmpty then [node.globalNull] else [([], out rows)])
  | .hashKey c capacity => do
    let gs ← hashGroups D capacity (c.boundKey D) rows
    return gs.map fun g => ([some (c.keyValue g.1)], out g.2)
  | .dense cs =>
    (denseGroups (nGroups cs) (combine cs) rows).mapM fun g => do
      return (← labels cs (unravel (strides cs) g.1), out g.2)
  | .hashCodes cs capacity => do
    let gs ← hashGroups D capacity (combine cs) rows
    gs.mapM fun g => do return (← labels cs (unravelStrided cs g.1), out g.2)

/-- `_run_cpp`; an exception is a fallback as well. -/
def Node.runCpp (D : Device) (E : CodeCache) (ch : Child) (node : Node) (p : Pred) :
    Option (List OutRow) := do
  let strategy ← node.strategy D E ch
  let preds ← p.flattenAnd D ch
  let aggs ← node.aggs.mapM Agg.lower
  let rows := (List.range ch.length).filter fun i => passPred (ch.bound D i) preds
  node.launch D (fun rs => readOut node.aggs (slots D ch aggs rs)) rows strategy

/-! ## 7. The Numba backend -/

/-- What the Numba kernel loads at row `i`: the column in its own type, a time in seconds. -/
def Column.typed (D : Device) (c : Column) (i : Nat) : ℚ :=
  match c.dtype with
  | .int k => signed k (load c.mem (k * i) k)
  | .uint k => load c.mem (k * i) k
  | .float k => D.real k (load c.mem (k * i) k)
  | .datetime u => D.toSeconds u (c.ticks i)
  | .text => 0

/-- The typed array of a name. -/
def Child.typed (D : Device) (ch : Child) (i : Nat) (name : String) : ℚ :=
  ((ch.columns.get? name).map fun c => c.typed D i).getD 0

/-- `_emit_pred`; a literal that cannot be emitted raises. -/
def Pred.emit (D : Device) (ch : Child) : Pred → Except DbError ((String → ℚ) → Bool)
  | .and l r => do
    let a ← l.emit D ch
    let b ← r.emit D ch
    return fun arr => a arr && b arr
  | .or l r => do
    let a ← l.emit D ch
    let b ← r.emit D ch
    return fun arr => a arr || b arr
  | .cmp op (.col n _) (.lit v) =>
    match (ch.columns.get? n).bind fun c => D.lower c v with
    | some q => .ok fun arr => op.test (arr n) q
    | none => .error (.value "unsupported literal in fused kernel")
  | .cmp op (.lit v) (.col n _) =>
    match (ch.columns.get? n).bind fun c => D.lower c v with
    | some q => .ok fun arr => op.test q (arr n)
    | none => .error (.value "unsupported literal in fused kernel")
  | _ => .error (.value "unsupported predicate in fused kernel")

/-- `Expr.columns` of a predicate. -/
def Pred.columns : Pred → List String
  | .cmp _ l r => l.columns ++ r.columns
  | .and l r => l.columns ++ r.columns
  | .or l r => l.columns ++ r.columns
  | .other _ => []

/-- `cols_used`. -/
def Node.colsUsed (node : Node) (p : Pred) : List String :=
  (node.aggs.flatMap fun a => (a.arg.map Scalar.columns).getD []) ++ p.columns

/-- `_emit_expr` of an argument. -/
def Scalar.emit : Scalar → (String → ℚ) → ℚ
  | .col n _, arr => arr n
  | .lit (.num q), _ => q
  | .bin op l r, arr => op.apply (l.emit arr) (r.emit arr)
  | _, _ => 0

/-- What a row adds to the slot of an aggregate. -/
def Agg.emit (a : Agg) (arr : String → ℚ) : ℚ := (a.arg.map fun e => e.emit arr).getD 1

/-- COUNT(*). -/
def Agg.isCountStar (a : Agg) : Bool :=
  match a.func, a.arg with
  | .count, none => true
  | _, _ => false

/-- `_build_result` keeps a group: its COUNT(*) is positive, or without one some slot is not
zero. -/
def keepsGroup (aggs : List Agg) (acc : List ℚ) : Bool :=
  match (aggs.zip acc).find? fun x => x.1.isCountStar with
  | some x => 0 < x.2
  | none => acc.any fun v => v ≠ 0

/-- The Numba kernel and `_build_result`. -/
def Node.buildResult (D : Device) (ch : Child) (node : Node) (cs : List Codes)
    (rows : List Nat) : Option (List OutRow) :=
  let acc (g : Int) : List ℚ := node.aggs.map fun a =>
    ((rows.filter fun i => combine cs i = g).map fun i => a.emit (ch.typed D i)).sum
  let kept := ((List.range (nGroups cs).toNat).map Int.ofNat).filter fun g =>
    keepsGroup node.aggs (acc g)
  kept.mapM fun g => do return (← labels cs (unravel (strides cs) g), (acc g).map some)

/-- The rest of `fused_aggregate`. -/
def Node.runNumba (D : Device) (E : CodeCache) (ch : Child) (node : Node) (p : Pred) :
    Except DbError (Option (List OutRow)) :=
  if node.keys.isEmpty || node.aggs.any fun a =>
      match a.func with
      | .avg | .min | .max => true
      | _ => false then .ok none
  else
    match node.codes D E ch with
    | none => .error (.key "group key")
    | some cs =>
      if (maxAccCells : Int) < nGroups cs * node.aggs.length then .ok none
      else if (node.colsUsed p).any fun n => (ch.columns.get? n).any fun c => ch.hasNull c then
        .error (.notImplemented "masked arrays")
      else do
        let pass ← p.emit D ch
        let rows := (List.range ch.length).filter fun i => pass (ch.typed D i)
        match node.buildResult D ch cs rows with
        | none => .error (.runtime "list index out of range")
        | some out => return some out

/-! ## 8. `fused_aggregate` -/

/-- `fused_aggregate`: a frame, or `none` for a fallback. -/
def Node.fusedAggregate (D : Device) (E : CodeCache) (ch : Child) (node : Node) :
    Except DbError (Option (List OutRow)) :=
  match node.match? ch with
  | none => .ok none
  | some p =>
    if ch.length = 0 then .ok (some (if node.keys.isEmpty then [node.globalNull] else []))
    else
      match (if D.available then node.runCpp D E ch p else none) with
      | some out => .ok (some out)
      | none => node.runNumba D E ch p

end RyuDB.Fused
