/-
# Kernel descriptors

`_run_cpp` lowers the arguments of the aggregates to postfix tokens (`_to_postfix`), kept in four
arrays in step: the second slot of a token goes to `tok_op` when the token is an operator and to
`tok_col` when it is a column.  The predicate becomes triples of a column, an operator and a number
(`_flatten_and_pred`), the operator mirrored when the literal stands on the left.  `eval_agg` runs the
tokens on a stack, `pass_pred` tests the triples one after the other.

Beside them stand the values of the expressions that are lowered, and what makes a predicate clear on a
row: times are cut to whole seconds on both sides, and NULL beside a time becomes the least integer.

Arithmetic is exact and the columns have no NULL.  A column here is its values: that a column of four
bytes is bound to a program that loads eight is not a matter of the program, and is part of
`Fused.Safe` (`FusedAgree`), as are the codes of the group keys.
-/
import Mathlib.Algebra.Order.Ring.Rat
import Mathlib.Data.Rat.Floor
import RyuDB.Fused
import RyuDB.Lib.Kleene
import RyuDB.Lib.Postfix

namespace RyuDB.Descriptors

open Fused (Cmp)

/-! ## 1. Expressions over a frame -/

/-- The value of a literal, in Python's types. -/
inductive PyValue where
  | none
  | bool (b : Bool)
  | int (n : Int)
  | str (s : String)
  deriving DecidableEq

/-- What the libraries compute.  In a text `float` finds a number and numpy an instant, in seconds from
the epoch (`NaT` is found and is no instant); `toSeconds` casts a column to `datetime64[s]`,
`literalSeconds` an instant. -/
structure Reader where
  number : String → Option ℚ
  instant : String → Option (Option ℚ)
  toSeconds : ℚ → Int
  literalSeconds : ℚ → Int

/-- Both casts round down. -/
structure Reader.Lawful (R : Reader) : Prop where
  toSeconds : ∀ q, R.toSeconds q = ⌊q⌋
  literalSeconds : ∀ q, R.literalSeconds q = ⌊q⌋

/-- A scalar expression or a predicate; `other` is any other node. -/
inductive Expr where
  | col (name : String) (table : Option String)
  | lit (v : PyValue)
  | binOp (op : String) (left right : Expr)
  | and (left right : Expr)
  | or (left right : Expr)
  | other

/-- An instant of a `datetime64` column, in seconds; the least 64-bit integer is `NaT` and none. -/
structure Instant where
  seconds : ℚ
  least : -(2 ^ 63) + 1 ≤ seconds

/-- A column without NULL, as the values of its rows. -/
inductive Column where
  | numeric (value : Nat → ℚ)
  | datetime (time : Nat → Instant)
  | text

/-- A frame. -/
abbrev Child := Dict String Column

/-! ## 2. What expressions mean -/

/-- A value at a row; a literal has the type of what it stands beside. -/
inductive Operand where
  | num (q : ℚ)
  | instant (q : ℚ)
  | literal (v : PyValue)

section Meaning

variable (R : Reader) (ch : Child) (i : Nat)

/-- The number of a literal. -/
def PyValue.num? : PyValue → Option ℚ
  | .none => Option.none
  | .bool b => some (if b then 1 else 0)
  | .int n => some n
  | .str s => R.number s

/-- The instant of a literal: a text may have one. -/
def PyValue.instant? : PyValue → Option ℚ
  | .str s => (R.instant s).join
  | _ => Option.none

def Operand.num? : Operand → Option ℚ
  | .num q => some q
  | .instant _ => none
  | .literal v => v.num? R

def Column.operand : Column → Option Operand
  | .numeric value => some (.num (value i))
  | .datetime time => some (.instant (time i).seconds)
  | .text => none

/-- The column reference of `eval_expr`. -/
def ref (name : String) (table : Option String) : Option Operand :=
  ((Sql.resolve ch.keys name table).bind ch.get?).bind (Column.operand i)

/-- The operators of arithmetic. -/
def arith : String → Option Fused.BinOp
  | "+" => some .add
  | "-" => some .sub
  | "*" => some .mul
  | "/" => some .div
  | _ => none

/-- The comparisons. -/
def comparison : String → Option Cmp
  | "=" => some .eq
  | "!=" => some .ne
  | "<" => some .lt
  | "<=" => some .le
  | ">" => some .gt
  | ">=" => some .ge
  | _ => none

/-- The number of an expression at a row. -/
def Expr.num : Expr → Option ℚ
  | .col name table => (ref ch i name table).bind (Operand.num? R)
  | .lit v => v.num? R
  | .binOp op l r => (arith op).bind fun o => l.num.bind fun a => r.num.map (o.apply a)
  | _ => none

def Expr.operand : Expr → Option Operand
  | .col name table => ref ch i name table
  | .lit v => some (.literal v)
  | e => (e.num R ch i).map .num

/-- A comparison of two values of one kind. -/
def compare (c : Cmp) : Operand → Operand → Option Bool
  | .instant a, .instant b => some (c.test a b)
  | .instant a, .literal v => (v.instant? R).map fun b => c.test a b
  | .literal v, .instant b => (v.instant? R).map fun a => c.test a b
  | a, b => (a.num? R).bind fun x => (b.num? R).map fun y => c.test x y

/-- A predicate at a row. -/
def Expr.holds : Expr → Option Bool
  | .and l r => Kleene.and l.holds r.holds
  | .or l r => Kleene.or l.holds r.holds
  | .binOp op l r => (comparison op).bind fun c =>
    (l.operand R ch i).bind fun a => (r.operand R ch i).bind fun b => compare R c a b
  | _ => none

end Meaning

/-! ## 3. Bindings -/

/-- What `bind_named` binds for a column: numbers as they are, times in whole seconds; a text raises. -/
def Column.array (R : Reader) : Column → Option (Nat → ℚ)
  | .numeric value => some value
  | .datetime time => some fun i => R.toSeconds (time i).seconds
  | .text => none

/-- `col_ptrs` and `name_idx`: the index of a name is that of the array of its column. -/
structure Bindings (R : Reader) (ch : Child) where
  cols : List (Nat → ℚ)
  nameIdx : Dict String Nat
  bound : ∀ n j, nameIdx.get? n = some j →
    ∃ c a, ch.get? n = some c ∧ c.array R = some a ∧ cols[j]? = some a

/-- The arrays of the group keys are bound first, without a name. -/
def Bindings.start (R : Reader) (ch : Child) (keys : List (Nat → ℚ)) : Bindings R ch where
  cols := keys
  nameIdx := ∅
  bound := by simp

/-- A new array at the end of `col_ptrs`. -/
def Bindings.add {R : Reader} {ch : Child} (B : Bindings R ch) (name : String) {c : Column}
    {a : Nat → ℚ} (hc : ch.get? name = some c) (ha : c.array R = some a) : Bindings R ch where
  cols := B.cols ++ [a]
  nameIdx := B.nameIdx.set name B.cols.length
  bound := by
    intro n j hj
    rw [Dict.get?_set] at hj
    split at hj
    · rename_i hn
      cases hj
      exact ⟨c, a, hn ▸ hc, ha, by simp⟩
    · obtain ⟨c', a', hc', ha', hcol⟩ := B.bound n j hj
      obtain ⟨hlt, -⟩ := List.getElem?_eq_some_iff.mp hcol
      exact ⟨c', a', hc', ha', by rw [List.getElem?_append_left hlt, hcol]⟩

/-- `bind_named`; a missing column and one of text raise. -/
def bindNamed {R : Reader} {ch : Child} (name : String) (B : Bindings R ch) :
    Option (Nat × Bindings R ch) :=
  match B.nameIdx.get? name with
  | some j => some (j, B)
  | none =>
    match hc : ch.get? name with
    | none => none
    | some c =>
      match ha : c.array R with
      | none => none
      | some _ => some (B.cols.length, B.add name hc ha)

/-! ## 4. Lowering -/

/-- `_TK_COL`, `_TK_LIT` and `_TK_OP`. -/
inductive TokenKind where
  | col
  | lit
  | op
  deriving DecidableEq

/-- `_OP`. -/
def opCode : String → Option Nat
  | "=" => some 0
  | "!=" => some 1
  | "<" => some 2
  | "<=" => some 3
  | ">" => some 4
  | ">=" => some 5
  | _ => none

/-- `_TOP`. -/
def topCode : String → Option Nat
  | "+" => some 1
  | "-" => some 2
  | "*" => some 3
  | "/" => some 4
  | _ => none

/-- The operator of a comparison whose literal is on the left. -/
def mirrorCode : Nat → Nat
  | 2 => 4
  | 3 => 5
  | 4 => 2
  | 5 => 3
  | k => k

/-- A token: its kind, a column index or an operator code, a literal. -/
abbrev Token := TokenKind × Nat × ℚ

/-- A triple of a conjunction: a column index, an operator code, a literal. -/
abbrev Triple := Nat × Nat × ℚ

/-- `_lit_to_double`; `float(None)` and a text that is no number raise. -/
def litToDouble (R : Reader) : PyValue → Option ℚ
  | .bool b => some (if b then 1 else 0)
  | .int n => some n
  | .str s => R.number s
  | .none => none

/-- The integer of `NaT`. -/
def nat64 : Int := -(2 ^ 63)

/-- `int(np.datetime64(value, "s"))`: a text is cut to whole seconds, an integer is a number of seconds,
and `None` is `NaT`. -/
def litSeconds (R : Reader) : PyValue → Option Int
  | .str s => (R.instant s).map fun t => (t.map R.literalSeconds).getD nat64
  | .int n => if nat64 ≤ n ∧ n < 2 ^ 63 then some n else none
  | .bool b => some (if b then 1 else 0)
  | .none => some nat64

section Lower

variable (R : Reader) {ch : Child}

/-- `_to_postfix`. -/
def toPostfix : Expr → Bindings R ch → Option (List Token × Bindings R ch)
  | .col name _, B => (bindNamed name B).map fun x => ([(.col, x.1, 0)], x.2)
  | .lit v, B => (litToDouble R v).map fun q => ([(.lit, 0, q)], B)
  | .binOp op l r, B => do
    let code ← topCode op
    let (ls, B) ← toPostfix l B
    let (rs, B) ← toPostfix r B
    return (ls ++ rs ++ [(.op, code, 0)], B)
  | _, _ => none

/-- The literal beside a column: seconds for a time, else a number. -/
def litBeside (c : Column) (v : PyValue) : Option ℚ :=
  match c with
  | .datetime _ => (litSeconds R v).map Int.cast
  | _ => litToDouble R v

/-- One comparison of `_flatten_and_pred`. -/
def flattenCmp (code : Nat) (name : String) (v : PyValue) (B : Bindings R ch) :
    Option (Option (List Triple) × Bindings R ch) := do
  let (idx, B) ← bindNamed name B
  let lv ← litBeside R (← ch.get? name) v
  return (some [(idx, code, lv)], B)

/-- `_flatten_and_pred`: an exception is `none`, an unsupported shape `some none`.  Both sides of an AND
are lowered before either is looked at. -/
def flattenAndPred : Expr → Bindings R ch → Option (Option (List Triple) × Bindings R ch)
  | .and l r, B => do
    let (left, B) ← flattenAndPred l B
    let (right, B) ← flattenAndPred r B
    match left, right with
    | some ls, some rs => return (some (ls ++ rs), B)
    | _, _ => return (none, B)
  | .binOp op (.col name _) (.lit v), B =>
    match opCode op with
    | none => some (none, B)
    | some code => flattenCmp R code name v B
  | .binOp op (.lit v) (.col name _), B =>
    match opCode op with
    | none => some (none, B)
    | some code => flattenCmp R (mirrorCode code) name v B
  | _, B => some (none, B)

end Lower

/-- `tok_kind`, `tok_col`, `tok_lit` and `tok_op`, which are kept in step. -/
structure TokenArrays where
  kind : List TokenKind
  col : List Nat
  lit : List ℚ
  op : List Nat
  col_length : col.length = kind.length
  lit_length : lit.length = kind.length
  op_length : op.length = kind.length

def TokenArrays.empty : TokenArrays := ⟨[], [], [], [], rfl, rfl, rfl⟩

/-- The body of the loop over the tokens: the second slot goes to `tok_op` or to `tok_col`. -/
def TokenArrays.route (A : TokenArrays) (t : Token) : TokenArrays where
  kind := A.kind ++ [t.1]
  col := A.col ++ [if t.1 = .op then 0 else t.2.1]
  lit := A.lit ++ [t.2.2]
  op := A.op ++ [if t.1 = .op then t.2.1 else 0]
  col_length := by simp [A.col_length]
  lit_length := by simp [A.lit_length]
  op_length := by simp [A.op_length]

/-- `_AGG_KIND`. -/
def aggKind : String → Option Nat
  | "COUNT" => some 0
  | "SUM" => some 1
  | "MIN" => some 2
  | "MAX" => some 3
  | "AVG" => some 4
  | _ => none

/-- An aggregate; no argument is the star. -/
structure Agg where
  func : String
  arg : Option Expr

/-- An entry of `agg_kind`, `agg_tok_start` and `agg_tok_len`. -/
structure Slot where
  kind : Nat
  start : Nat
  len : Nat
  deriving DecidableEq

/-- What the loop over the aggregates has made so far. -/
structure Lowered (R : Reader) (ch : Child) where
  arrays : TokenArrays
  slots : List Slot
  bindings : Bindings R ch

section Lower

variable (R : Reader) {ch : Child}

/-- One aggregate; `_to_postfix` raises on a star. -/
def lowerAgg (L : Lowered R ch) (a : Agg) : Option (Lowered R ch) :=
  match a.arg with
  | none =>
    if a.func = "COUNT" then some { L with slots := L.slots ++ [⟨0, L.arrays.kind.length, 0⟩] }
    else none
  | some e => do
    let (toks, B) ← toPostfix R e L.bindings
    let kind ← aggKind a.func
    return ⟨toks.foldl TokenArrays.route L.arrays,
      L.slots ++ [⟨kind, L.arrays.kind.length, toks.length⟩], B⟩

/-- All aggregates; with an average a hidden count stands at the end. -/
def lowerAggs (aggs : List Agg) (B : Bindings R ch) : Option (Lowered R ch) := do
  let L ← aggs.foldlM (lowerAgg R) ⟨.empty, [], B⟩
  if aggs.any fun a => a.func = "AVG" then
    return { L with slots := L.slots ++ [⟨0, L.arrays.kind.length, 0⟩] }
  else return L

/-- The descriptors of `_run_cpp`, after the group keys are bound; `none` is an exception, `some none`
a predicate that is not a conjunction. -/
def lower (keys : List (Nat → ℚ)) (pred : Expr) (aggs : List Agg) :
    Option (Option (List Triple × Lowered R ch)) := do
  let (triples, B) ← flattenAndPred R pred (.start R ch keys)
  match triples with
  | none => return none
  | some ts => return some (ts, ← lowerAggs R aggs B)

end Lower

/-! ## 5. The kernel -/

/-- An operand of the kernel's stack: a bound column or a literal. -/
inductive Load where
  | col (idx : Nat)
  | lit (q : ℚ)

/-- `col_val` at row `i`. -/
def colVal (cols : List (Nat → ℚ)) (i idx : Nat) : ℚ := ((cols[idx]?).map fun a => a i).getD 0

def Load.read (cols : List (Nat → ℚ)) (i : Nat) : Load → ℚ
  | .col idx => colVal cols i idx
  | .lit q => q

/-- The operators of `eval_agg`; every other code divides. -/
def topApply : Nat → ℚ → ℚ → ℚ
  | 1, a, b => a + b
  | 2, a, b => a - b
  | 3, a, b => a * b
  | _, a, b => a / b

/-- The tests of `pass_pred`; every other code is `>=`. -/
def opTest : Nat → ℚ → ℚ → Bool
  | 0, v, lit => v = lit
  | 1, v, lit => v ≠ lit
  | 2, v, lit => v < lit
  | 3, v, lit => v ≤ lit
  | 4, v, lit => v > lit
  | _, v, lit => v ≥ lit

/-- What `eval_agg` does at a token. -/
def TokenArrays.instr? (A : TokenArrays) (idx : Nat) : Option (Postfix.Instr Load Nat) := do
  match ← A.kind[idx]? with
  | .col => return .push (.col (← A.col[idx]?))
  | .lit => return .push (.lit (← A.lit[idx]?))
  | .op => return .apply (← A.op[idx]?)

/-- The loop of `eval_agg` over `len` tokens from `idx`, on a machine `f`. -/
def evalLoop (f : Postfix.Instr Load Nat → List ℚ → Option (List ℚ)) (A : TokenArrays) :
    Nat → Nat → List ℚ → Option (List ℚ)
  | 0, _, st => some st
  | len + 1, idx, st => ((A.instr? idx).bind fun c => f c st).bind (evalLoop f A len (idx + 1))

/-- The stack `eval_agg` leaves for a slot at row `i`. -/
def Lowered.evalAgg {R : Reader} {ch : Child} (L : Lowered R ch) (i : Nat) (s : Slot) :
    Option (List ℚ) :=
  evalLoop (Postfix.step (Load.read L.bindings.cols i) topApply) L.arrays s.len s.start []

/-- The same on the kernel's `double stack[8]`. -/
def Lowered.evalAggEight {R : Reader} {ch : Child} (L : Lowered R ch) (i : Nat) (s : Slot) :
    Option (List ℚ) :=
  evalLoop (Postfix.stepWithin (Load.read L.bindings.cols i) topApply 8) L.arrays s.len s.start []

/-- `pass_pred`. -/
def passPred (cols : List (Nat → ℚ)) (i : Nat) (triples : List Triple) : Bool :=
  triples.all fun t => opTest t.2.1 (colVal cols i t.1) t.2.2

/-! ## 6. Inputs that are lowered well -/

/-- The columns an expression names. -/
def Expr.columns : Expr → List String
  | .col name _ => [name]
  | .binOp _ l r => l.columns ++ r.columns
  | .and l r => l.columns ++ r.columns
  | .or l r => l.columns ++ r.columns
  | _ => []

/-- A qualified reference means the column of its own name. -/
def Expr.bare (ch : Child) : Expr → Prop
  | .col name (some t) => Sql.qualified t name ∉ ch.keys
  | .binOp _ l r => l.bare ch ∧ r.bare ch
  | .and l r => l.bare ch ∧ r.bare ch
  | .or l r => l.bare ch ∧ r.bare ch
  | _ => True

/-- Every column of an argument is numeric. -/
def Expr.numeric (ch : Child) (e : Expr) : Prop :=
  ∀ n ∈ e.columns, ∃ value, ch.get? n = some (.numeric value)

/-- The stack an argument needs. -/
def Expr.depth : Expr → Nat
  | .binOp _ l r => max l.depth (r.depth + 1)
  | _ => 1

/-- The conjuncts of a predicate. -/
def Expr.conjuncts : Expr → List Expr
  | .and l r => l.conjuncts ++ r.conjuncts
  | e => [e]

/-- A comparison of a column with a literal, read with the column on the left. -/
def Expr.sides : Expr → Option (Cmp × String × Option String × PyValue)
  | .binOp op (.col n t) (.lit v) => (comparison op).map fun c => (c, n, t, v)
  | .binOp op (.lit v) (.col n t) => (comparison op).map fun c => (c.mirror, n, t, v)
  | _ => none

section Slips

variable (R : Reader) (ch : Child) (i : Nat)

/-- A comparison of the time `t` with a literal that its whole seconds pass and it does not: two
instants of one second, a literal that is NULL, an integer. -/
def letsIn (c : Cmp) (t : ℚ) : PyValue → Prop
  | .str s =>
    match R.instant s with
    | some (some q) => ⌊t⌋ = ⌊q⌋ ∧ (t < q ∧ (c = .eq ∨ c = .ge) ∨ q < t ∧ (c = .eq ∨ c = .le))
    | some none => c = .ne ∨ c = .gt ∨ c = .ge
    | none => False
  | .none => c = .ne ∨ c = .gt ∨ c = .ge
  | .int n => c.test ⌊t⌋ n
  | .bool b => c.test ⌊t⌋ (if b then 1 else 0)

/-- A comparison of the time `t` that it passes and its whole seconds do not. -/
def leavesOut (c : Cmp) (t : ℚ) : PyValue → Prop
  | .str s =>
    match R.instant s with
    | some (some q) => ⌊t⌋ = ⌊q⌋ ∧ (t < q ∧ (c = .ne ∨ c = .lt) ∨ q < t ∧ (c = .ne ∨ c = .gt))
    | _ => False
  | _ => False

/-- A conjunct is a comparison with a time of which `slip` is true at row `i`. -/
def Expr.slips (slip : Cmp → ℚ → PyValue → Prop) (e : Expr) : Prop :=
  ∃ c n t v time, e.sides = some (c, n, t, v) ∧ ch.get? n = some (.datetime time) ∧
    slip c (time i).seconds v

def Expr.wronglyTrue (e : Expr) : Prop := e.slips ch i (letsIn R)

def Expr.wronglyFalse (e : Expr) : Prop := e.slips ch i (leavesOut R)

/-- No comparison goes wrong at row `i`, or one that does not go wrong is not true, or some go wrong in
either way. -/
def Expr.clear (p : Expr) : Prop :=
  (∀ e ∈ p.conjuncts, ¬ e.wronglyTrue R ch i ∧ ¬ e.wronglyFalse R ch i) ∨
    (∃ e ∈ p.conjuncts, ¬ e.wronglyTrue R ch i ∧ e.holds R ch i ≠ some true) ∨
    (∃ e ∈ p.conjuncts, e.wronglyTrue R ch i) ∧ ∃ e ∈ p.conjuncts, e.wronglyFalse R ch i

end Slips

end RyuDB.Descriptors
