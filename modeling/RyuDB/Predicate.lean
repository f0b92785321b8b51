/-
# Predicates on columns and scalars

`eval_expr` computes a predicate with whole columns.  A literal is a Python scalar, a column a Series
with the index of the frame, and every operation has a path for two scalars, for two Series, and for one
of each:

* a comparison of scalars is Python's, where `None == 1` is False and `None < 1` raises;
* AND and OR of scalars are Python's `and` and `or`, and NOT is `not`, for which None is false;
* a scalar on the left of AND or OR is asked for its truth, and a column of one value, with an index of
  its own, may stand for the result (`_full_false`, `_full_true`); a Series on the left of a scalar is
  asked for its truth too, which raises.

Wanted is the three-valued logic of SQL (`Pred.sql`), for the predicate and for its variants
(`Pred.Variant`): a column may be replaced by a literal equal to it in every row, and operands may be
exchanged.  `predicate_three_valued` says that the filter keeps the right rows for all variants when no
connective has an operand that is constant on the frame (`Pred.Balanced`) and no comparison of constants
has a NULL literal (`Pred.NullFree`); and that the first of these is necessary.

The second is not.  `WHERE NULL` keeps no row, which is right, and it is not `NullFree`; a bare literal is
left out with the comparisons because a variant may put it under a NOT, where Python takes None for false.
-/
import Mathlib.Order.Defs.LinearOrder
import RyuDB.Lib.Kleene
import RyuDB.SemiAnti
import RyuDB.SetOps

namespace RyuDB.Sql

/-! ## 1. Predicates -/

inductive CmpOp where
  | eq
  | ne
  | lt
  | le
  | gt
  | ge
  deriving DecidableEq, Repr

/-- `_CMP_SWAP`. -/
def CmpOp.swap : CmpOp → CmpOp
  | .lt => .gt
  | .gt => .lt
  | .le => .ge
  | .ge => .le
  | .eq => .eq
  | .ne => .ne

/-- The comparison of two values. -/
def CmpOp.holds {V : Type} [LinearOrder V] : CmpOp → V → V → Bool
  | .eq, a, b => a = b
  | .ne, a, b => a ≠ b
  | .lt, a, b => a < b
  | .le, a, b => a ≤ b
  | .gt, a, b => b < a
  | .ge, a, b => b ≤ a

/-- The operand of a comparison. -/
inductive Operand (V : Type) where
  | col (name : String) (table : Option String)
  | lit (value : Cell V)

/-- A predicate of comparisons, AND, OR, NOT and the literals TRUE, FALSE and NULL. -/
inductive Pred (V : Type) where
  | cmp (op : CmpOp) (left right : Operand V)
  | lit (value : Option Bool)
  | and (left right : Pred V)
  | or (left right : Pred V)
  | not (expr : Pred V)

/-! ## 2. Scalars and Series -/

/-- What `eval_expr` returns: a Python scalar, or a Series with its index. -/
inductive Shaped (ι α : Type) where
  | scalar (value : Option α)
  | series (index : List ι) (values : List (Option α))

/-- The exceptions of an evaluation. -/
inductive EvalError where
  | db (e : DbError)
  | typeError (msg : String)

/-- What cuDF does with the labels of an index: those of a new Series, and the alignment of two Series
whose indexes differ, row by row of the result. -/
structure Labels (ι : Type) where
  range : Nat → List ι
  align : List ι → List ι → List (ι × Option Nat × Option Nat)

/-- A frame with its row index. -/
structure IndexedFrame (ι V : Type) where
  frame : Frame V
  index : List ι
  labelled : index.length = frame.rows.length

variable {ι V : Type} [DecidableEq ι] [LinearOrder V]

/-- A binary operation on two Series. -/
def seriesOp {α β : Type} (A : Labels ι) (f : Option α → Option α → Option β) (ix : List ι)
    (xs : List (Option α)) (iy : List ι) (ys : List (Option α)) : Shaped ι β :=
  if ix = iy then .series ix (List.zipWith f xs ys)
  else
    let rows := A.align ix iy
    .series (rows.map Prod.fst) (rows.map fun p =>
      f ((p.2.1.bind fun i => xs[i]?).join) ((p.2.2.bind fun i => ys[i]?).join))

/-- A comparison of Python scalars. -/
def pyCompare (op : CmpOp) (a b : Cell V) : Except EvalError (Option Bool) :=
  match op, a, b with
  | .eq, a, b => .ok (some (decide (a = b)))
  | .ne, a, b => .ok (some (decide (a ≠ b)))
  | op, some x, some y => .ok (some (op.holds x y))
  | _, _, _ => .error (.typeError "comparison not supported between instances of 'NoneType'")

/-- `_compare`. -/
def compareValues (A : Labels ι) (op : CmpOp) :
    Shaped ι V → Shaped ι V → Except EvalError (Shaped ι Bool)
  | .scalar a, .scalar b => do return .scalar (← pyCompare op a b)
  | .scalar a, .series iy ys => .ok (.series iy (ys.map fun y => Kleene.compare op.swap.holds y a))
  | .series ix xs, .scalar b => .ok (.series ix (xs.map fun x => Kleene.compare op.holds x b))
  | .series ix xs, .series iy ys => .ok (seriesOp A (Kleene.compare op.holds) ix xs iy ys)

omit [DecidableEq ι] in
/-- `_full_false` and `_full_true`. -/
def full (A : Labels ι) (t : Bool) (n : Nat) : Shaped ι Bool :=
  .series (A.range n) (List.replicate n (some t))

/-- The truth of a scalar. -/
def truthy (a : Option Bool) : Bool := a.getD false

/-- `_bool_combine` for `&`. -/
def combineAnd (A : Labels ι) : Shaped ι Bool → Shaped ι Bool → Except EvalError (Shaped ι Bool)
  | .series ix xs, .series iy ys => .ok (seriesOp A Kleene.and ix xs iy ys)
  | .scalar a, .scalar b => .ok (.scalar (if truthy a then b else a))
  | .scalar a, .series iy ys => .ok (if truthy a then .series iy ys else full A false ys.length)
  | .series _ _, .scalar _ => .error (.db ambiguousTruth)

/-- `_bool_combine` for `|`. -/
def combineOr (A : Labels ι) : Shaped ι Bool → Shaped ι Bool → Except EvalError (Shaped ι Bool)
  | .series ix xs, .series iy ys => .ok (seriesOp A Kleene.or ix xs iy ys)
  | .scalar a, .scalar b => .ok (.scalar (if truthy a then a else b))
  | .scalar a, .series iy ys => .ok (if truthy a then full A true ys.length else .series iy ys)
  | .series _ _, .scalar _ => .error (.db ambiguousTruth)

/-- `~v` of a Series, `not v` of a scalar. -/
def notValue : Shaped ι Bool → Shaped ι Bool
  | .scalar a => .scalar (some (!truthy a))
  | .series ix xs => .series ix (xs.map Kleene.not)

/-! ## 3. Evaluation -/

/-- `eval_expr` of an operand. -/
def Operand.eval (df : IndexedFrame ι V) : Operand V → Except EvalError (Shaped ι V)
  | .col name table =>
    match resolve df.frame.columns name table with
    | some c => .ok (.series df.index (df.frame.rows.map fun r => r c))
    | none => .error (.db (unknownColumn df.frame.columns name table))
  | .lit v => .ok (.scalar v)

/-- `eval_expr` of a predicate. -/
def Pred.eval (A : Labels ι) (df : IndexedFrame ι V) : Pred V → Except EvalError (Shaped ι Bool)
  | .cmp op l r => do
    let left ← l.eval df
    let right ← r.eval df
    compareValues A op left right
  | .lit b => .ok (.scalar b)
  | .and l r => do
    let left ← l.eval A df
    let right ← r.eval A df
    combineAnd A left right
  | .or l r => do
    let left ← l.eval A df
    let right ← r.eval A df
    combineOr A left right
  | .not e => do return notValue (← e.eval A df)

/-- `df[mask.fillna(False)]`, and `df if mask else df.iloc[0:0]` for a scalar. -/
def applyMask (f : Frame V) : Shaped ι Bool → Except EvalError (Frame V)
  | .scalar b => .ok (if truthy b then f else f.filter fun _ => false)
  | .series _ vals =>
    if vals.length = f.rows.length then .ok (boolIndex f (vals.map truthy))
    else .error (.db (.value "Boolean mask has wrong length"))

/-- The Filter of `_exec`. -/
def Pred.filter (A : Labels ι) (p : Pred V) (df : IndexedFrame ι V) : Except EvalError (Frame V) := do
  applyMask df.frame (← p.eval A df)

/-! ## 4. What is wanted -/

/-- The value of an operand in a row. -/
def Operand.cell (cols : List String) (r : Row V) : Operand V → Cell V
  | .col name table => (resolve cols name table).bind r
  | .lit v => v

/-- **The value of a predicate in a row**, in three-valued logic. -/
def Pred.sql (cols : List String) (r : Row V) : Pred V → Option Bool
  | .cmp op a b => Kleene.compare op.holds (a.cell cols r) (b.cell cols r)
  | .lit b => b
  | .and l r' => Kleene.and (l.sql cols r) (r'.sql cols r)
  | .or l r' => Kleene.or (l.sql cols r) (r'.sql cols r)
  | .not e => Kleene.not (e.sql cols r)

/-- The rows on which the predicate is true. -/
def Pred.kept (p : Pred V) (f : Frame V) : Frame V :=
  f.filter fun r => decide (p.sql f.columns r = some true)

section Wanted
omit [DecidableEq ι] [LinearOrder V]

/-- The operand is there. -/
def Operand.Known (cols : List String) : Operand V → Prop
  | .col name table => (resolve cols name table).isSome = true
  | .lit _ => True

/-- All columns of the predicate are there. -/
def Pred.Known (cols : List String) : Pred V → Prop
  | .cmp _ a b => a.Known cols ∧ b.Known cols
  | .lit _ => True
  | .and l r => l.Known cols ∧ r.Known cols
  | .or l r => l.Known cols ∧ r.Known cols
  | .not e => e.Known cols

/-- Two predicates that mean the same: some columns of the first are replaced by literals that equal
them in every row, and some operands exchanged. -/
inductive Pred.Variant (f : Frame V) : Pred V → Pred V → Prop where
  | refl (p : Pred V) : Variant f p p
  | trans {p q t : Pred V} : Variant f p q → Variant f q t → Variant f p t
  | replaceLeft {op : CmpOp} {name : String} {table : Option String} {x : V} {b : Operand V}
    (h : ∀ r ∈ f.rows, (Operand.col name table).cell f.columns r = some x) :
    Variant f (.cmp op (.col name table) b) (.cmp op (.lit (some x)) b)
  | replaceRight {op : CmpOp} {name : String} {table : Option String} {x : V} {a : Operand V}
    (h : ∀ r ∈ f.rows, (Operand.col name table).cell f.columns r = some x) :
    Variant f (.cmp op a (.col name table)) (.cmp op a (.lit (some x)))
  | mirror (op : CmpOp) (a b : Operand V) : Variant f (.cmp op a b) (.cmp op.swap b a)
  | andSwap (l r : Pred V) : Variant f (.and l r) (.and r l)
  | orSwap (l r : Pred V) : Variant f (.or l r) (.or r l)
  | andIn {l l' r r' : Pred V} : Variant f l l' → Variant f r r' → Variant f (.and l r) (.and l' r')
  | orIn {l l' r r' : Pred V} : Variant f l l' → Variant f r r' → Variant f (.or l r) (.or l' r')
  | notIn {e e' : Pred V} : Variant f e e' → Variant f (.not e) (.not e')

/-! ## 5. Constants -/

/-- The operand is a literal, or a column with one value in all rows. -/
def Operand.Constant (f : Frame V) : Operand V → Prop
  | .col name table => ∃ x, ∀ r ∈ f.rows, (Operand.col name table).cell f.columns r = some x
  | .lit _ => True

/-- All operands of the predicate are constant. -/
def Pred.Constant (f : Frame V) : Pred V → Prop
  | .cmp _ a b => a.Constant f ∧ b.Constant f
  | .lit _ => True
  | .and l r => l.Constant f ∧ r.Constant f
  | .or l r => l.Constant f ∧ r.Constant f
  | .not e => e.Constant f

/-- The operand is a literal. -/
def Operand.Closed : Operand V → Prop
  | .col _ _ => False
  | .lit _ => True

/-- The predicate has no column. -/
def Pred.Closed : Pred V → Prop
  | .cmp _ a b => a.Closed ∧ b.Closed
  | .lit _ => True
  | .and l r => l.Closed ∧ r.Closed
  | .or l r => l.Closed ∧ r.Closed
  | .not e => e.Closed

/-- The operands of a connective: both without a column, or neither constant. -/
def Pairable (f : Frame V) (l r : Pred V) : Prop :=
  (l.Closed ∧ r.Closed) ∨ (¬ l.Constant f ∧ ¬ r.Constant f)

/-- **No connective combines a scalar with a column**, in the predicate or a variant of it. -/
def Pred.Balanced (f : Frame V) : Pred V → Prop
  | .cmp _ _ _ => True
  | .lit _ => True
  | .and l r => l.Balanced f ∧ r.Balanced f ∧ Pairable f l r
  | .or l r => l.Balanced f ∧ r.Balanced f ∧ Pairable f l r
  | .not e => e.Balanced f

/-- The operand is not the literal NULL. -/
def Operand.NonNull : Operand V → Prop
  | .lit none => False
  | _ => True

/-- **No scalar is NULL**: neither a literal of the predicate nor one of a comparison of constants. -/
def Pred.NullFree (f : Frame V) : Pred V → Prop
  | .cmp _ a b => a.Constant f → b.Constant f → a.NonNull ∧ b.NonNull
  | .lit b => b.isSome = true
  | .and l r => l.NullFree f ∧ r.NullFree f
  | .or l r => l.NullFree f ∧ r.NullFree f
  | .not e => e.NullFree f

theorem Operand.Closed.constant {f : Frame V} : ∀ {o : Operand V}, o.Closed → o.Constant f
  | .lit _, _ => trivial

theorem Pred.Closed.constant {f : Frame V} : ∀ {p : Pred V}, p.Closed → p.Constant f
  | .cmp _ _ _, h => ⟨h.1.constant, h.2.constant⟩
  | .lit _, _ => trivial
  | .and _ _, h => ⟨h.1.constant, h.2.constant⟩
  | .or _ _, h => ⟨h.1.constant, h.2.constant⟩
  | .not e, h => (Pred.Closed.constant (p := e) h : e.Constant f)

end Wanted

/-! ## 6. Variants -/

omit [DecidableEq ι] in
theorem compare_swap (op : CmpOp) (a b : Cell V) :
    Kleene.compare op.swap.holds b a = Kleene.compare op.holds a b := by
  cases a with
  | none => cases b <;> rfl
  | some x =>
    cases b with
    | none => rfl
    | some y => cases op <;> simp [Kleene.compare, CmpOp.swap, CmpOp.holds, eq_comm]

section Variants
variable {f : Frame V} {p p' : Pred V}

omit [DecidableEq ι]

/-- **A variant has the value of the predicate** in every row. -/
theorem Pred.Variant.sql (h : p.Variant f p') : ∀ r ∈ f.rows, p'.sql f.columns r = p.sql f.columns r := by
  induction h with
  | refl => exact fun _ _ => rfl
  | trans _ _ ih ih' => exact fun r hr => (ih' r hr).trans (ih r hr)
  | replaceLeft h =>
    intro r hr
    rw [Pred.sql, Pred.sql, h r hr]
    rfl
  | replaceRight h =>
    intro r hr
    rw [Pred.sql, Pred.sql, h r hr]
    rfl
  | mirror op a b => exact fun r _ => compare_swap op _ _
  | andSwap l r => exact fun w _ => Kleene.and_comm _ _
  | orSwap l r => exact fun w _ => Kleene.or_comm _ _
  | andIn _ _ ihl ihr => exact fun r hr => congrArg₂ Kleene.and (ihl r hr) (ihr r hr)
  | orIn _ _ ihl ihr => exact fun r hr => congrArg₂ Kleene.or (ihl r hr) (ihr r hr)
  | notIn _ ih => exact fun r hr => congrArg Kleene.not (ih r hr)

omit [LinearOrder V]

theorem Pred.Variant.known (h : p.Variant f p') : p.Known f.columns → p'.Known f.columns := by
  induction h with
  | refl => exact id
  | trans _ _ ih ih' => exact fun h => ih' (ih h)
  | replaceLeft _ => exact fun h => ⟨trivial, h.2⟩
  | replaceRight _ => exact fun h => ⟨h.1, trivial⟩
  | mirror => exact And.symm
  | andSwap => exact And.symm
  | orSwap => exact And.symm
  | andIn _ _ ihl ihr => exact And.imp ihl ihr
  | orIn _ _ ihl ihr => exact And.imp ihl ihr
  | notIn _ ih => exact ih

theorem Pred.Variant.closed (h : p.Variant f p') : p.Closed → p'.Closed := by
  induction h with
  | refl => exact id
  | trans _ _ ih ih' => exact fun h => ih' (ih h)
  | replaceLeft _ => exact fun h => ⟨trivial, h.2⟩
  | replaceRight _ => exact fun h => ⟨h.1, trivial⟩
  | mirror => exact And.symm
  | andSwap => exact And.symm
  | orSwap => exact And.symm
  | andIn _ _ ihl ihr => exact And.imp ihl ihr
  | orIn _ _ ihl ihr => exact And.imp ihl ihr
  | notIn _ ih => exact ih

/-- What is constant stays so, and nothing becomes constant. -/
theorem Pred.Variant.constant (h : p.Variant f p') : p'.Constant f ↔ p.Constant f := by
  induction h with
  | refl => exact Iff.rfl
  | trans _ _ ih ih' => exact ih'.trans ih
  | @replaceLeft _ _ _ x _ h => exact and_congr_left fun _ => iff_of_true trivial ⟨x, h⟩
  | @replaceRight _ _ _ x _ h => exact and_congr_right fun _ => iff_of_true trivial ⟨x, h⟩
  | mirror => exact and_comm
  | andSwap => exact and_comm
  | orSwap => exact and_comm
  | andIn _ _ ihl ihr => exact and_congr ihl ihr
  | orIn _ _ ihl ihr => exact and_congr ihl ihr
  | notIn _ ih => exact ih

theorem Pairable.symm {l r : Pred V} (h : Pairable f l r) : Pairable f r l := h.imp And.symm And.symm

theorem Pairable.variant {l l' r r' : Pred V} (hl : l.Variant f l') (hr : r.Variant f r')
    (h : Pairable f l r) : Pairable f l' r' :=
  h.imp (And.imp hl.closed hr.closed)
    (And.imp (not_congr hl.constant).mpr (not_congr hr.constant).mpr)

theorem Pred.Variant.balanced (h : p.Variant f p') : p.Balanced f → p'.Balanced f := by
  induction h with
  | refl => exact id
  | trans _ _ ih ih' => exact fun h => ih' (ih h)
  | replaceLeft _ => exact id
  | replaceRight _ => exact id
  | mirror => exact id
  | andSwap => exact fun h => ⟨h.2.1, h.1, h.2.2.symm⟩
  | orSwap => exact fun h => ⟨h.2.1, h.1, h.2.2.symm⟩
  | andIn hl hr ihl ihr => exact fun h => ⟨ihl h.1, ihr h.2.1, h.2.2.variant hl hr⟩
  | orIn hl hr ihl ihr => exact fun h => ⟨ihl h.1, ihr h.2.1, h.2.2.variant hl hr⟩
  | notIn _ ih => exact ih

theorem Pred.Variant.nullFree (h : p.Variant f p') : p.NullFree f → p'.NullFree f := by
  induction h with
  | refl => exact id
  | trans _ _ ih ih' => exact fun h => ih' (ih h)
  | @replaceLeft _ _ _ x _ h => exact fun hn _ hb => ⟨trivial, (hn ⟨x, h⟩ hb).2⟩
  | @replaceRight _ _ _ x _ h => exact fun hn ha _ => ⟨(hn ha ⟨x, h⟩).1, trivial⟩
  | mirror => exact fun hn hb ha => (hn ha hb).symm
  | andSwap => exact And.symm
  | orSwap => exact And.symm
  | andIn _ _ ihl ihr => exact And.imp ihl ihr
  | orIn _ _ ihl ihr => exact And.imp ihl ihr
  | notIn _ ih => exact ih

/-- A constant operand can be made a literal. -/
theorem exists_closed_operand {o : Operand V} (h : o.Constant f) : ∃ o' : Operand V, o'.Closed ∧
    (∀ op b, (Pred.cmp op o b).Variant f (.cmp op o' b)) ∧
      ∀ op a, (Pred.cmp op a o).Variant f (.cmp op a o') := by
  cases o with
  | col name table =>
    obtain ⟨x, h⟩ := h
    exact ⟨.lit (some x), trivial, fun _ _ => .replaceLeft h, fun _ _ => .replaceRight h⟩
  | lit v => exact ⟨.lit v, trivial, fun _ _ => .refl _, fun _ _ => .refl _⟩

/-- A constant predicate has a variant without columns. -/
theorem exists_closed : ∀ {p : Pred V}, p.Constant f → ∃ p', p.Variant f p' ∧ p'.Closed
  | .cmp op a b, h => by
    obtain ⟨a', ha, hl, -⟩ := exists_closed_operand h.1
    obtain ⟨b', hb, -, hr⟩ := exists_closed_operand h.2
    exact ⟨_, (hl op b).trans (hr op a'), ha, hb⟩
  | .lit b, _ => ⟨_, .refl _, trivial⟩
  | .and l r, h => by
    obtain ⟨l', hl, hcl⟩ := exists_closed h.1
    obtain ⟨r', hr, hcr⟩ := exists_closed h.2
    exact ⟨_, .andIn hl hr, hcl, hcr⟩
  | .or l r, h => by
    obtain ⟨l', hl, hcl⟩ := exists_closed h.1
    obtain ⟨r', hr, hcr⟩ := exists_closed h.2
    exact ⟨_, .orIn hl hr, hcl, hcr⟩
  | .not e, h => by
    obtain ⟨e', he, hc⟩ := exists_closed (p := e) h
    exact ⟨_, .notIn he, hc⟩

end Variants

/-! ## 7. A balanced predicate -/

section Evaluate
variable {A : Labels ι} {df : IndexedFrame ι V}

omit [DecidableEq ι] [LinearOrder V] in
theorem eval_col {name : String} {table : Option String}
    (h : (Operand.col name table : Operand V).Known df.frame.columns) :
    (Operand.col name table).eval df = .ok (.series df.index
      (df.frame.rows.map fun r => (Operand.col name table).cell df.frame.columns r)) := by
  obtain ⟨c, hc⟩ := Option.isSome_iff_exists.mp h
  simp only [Operand.eval, Operand.cell, hc, Option.bind_some]

theorem seriesOp_self {α β : Type} {γ : Type*} (f : Option α → Option α → Option β) (ix : List ι)
    (g h : γ → Option α) (l : List γ) :
    seriesOp A f ix (l.map g) ix (l.map h) = .series ix (l.map fun x => f (g x) (h x)) := by
  rw [seriesOp, if_pos rfl, List.zipWith_map, List.zipWith_self]

omit [DecidableEq ι] in
theorem pyCompare_some (op : CmpOp) (x y : V) :
    pyCompare op (some x) (some y) = .ok (some (op.holds x y)) := by
  cases op <;> simp [pyCompare, CmpOp.holds]

/-- A comparison. -/
theorem eval_cmp {op : CmpOp} {a b : Operand V} (hk : (Pred.cmp op a b).Known df.frame.columns)
    (hn : (Pred.cmp op a b).NullFree df.frame) :
    ((Pred.cmp op a b).Closed → ∃ t, (Pred.cmp op a b).eval A df = .ok (.scalar (some t)) ∧
      ∀ r, (Pred.cmp op a b).sql df.frame.columns r = some t) ∧
    (¬ (Pred.cmp op a b).Closed → (Pred.cmp op a b).eval A df = .ok (.series df.index
      (df.frame.rows.map fun r => (Pred.cmp op a b).sql df.frame.columns r))) := by
  cases a with
  | lit v =>
    cases b with
    | lit w =>
      obtain ⟨hv, hw⟩ := hn trivial trivial
      refine ⟨fun _ => ?_, fun h => absurd ⟨trivial, trivial⟩ h⟩
      obtain - | x := v
      · exact hv.elim
      obtain - | y := w
      · exact hw.elim
      refine ⟨op.holds x y, ?_, fun _ => rfl⟩
      change (do return Shaped.scalar (← pyCompare op (some x) (some y))) = _
      rw [pyCompare_some]
      rfl
    | col name table =>
      refine ⟨fun h => h.2.elim, fun _ => ?_⟩
      rw [Pred.eval, eval_col hk.2]
      change Except.ok (Shaped.series _ _) = _
      rw [List.map_map]
      simp only [Function.comp_def, compare_swap]
      rfl
  | col name table =>
    refine ⟨fun h => h.1.elim, fun _ => ?_⟩
    cases b with
    | lit w =>
      rw [Pred.eval, eval_col hk.1]
      change Except.ok (Shaped.series _ _) = _
      rw [List.map_map]
      rfl
    | col name' table' =>
      rw [Pred.eval, eval_col hk.1, eval_col hk.2]
      change Except.ok (seriesOp _ _ _ _ _ _) = _
      rw [seriesOp_self]
      rfl

/-- **A balanced predicate is evaluated as SQL says**: to one truth value when it has no column, and
otherwise to the column of its values, under the index of the frame. -/
theorem eval_balanced : ∀ {p : Pred V}, p.Known df.frame.columns → p.Balanced df.frame →
    p.NullFree df.frame →
    (p.Closed → ∃ t, p.eval A df = .ok (.scalar (some t)) ∧
      ∀ r, p.sql df.frame.columns r = some t) ∧
    (¬ p.Closed → p.eval A df = .ok (.series df.index
      (df.frame.rows.map fun r => p.sql df.frame.columns r)))
  | .cmp _ _ _, hk, _, hn => eval_cmp hk hn
  | .lit b, _, _, hn => by
    obtain ⟨t, rfl⟩ := Option.isSome_iff_exists.mp hn
    exact ⟨fun _ => ⟨t, rfl, fun _ => rfl⟩, fun h => absurd trivial h⟩
  | .and l r, hk, hb, hn => by
    obtain ⟨hcl, hsl⟩ := eval_balanced hk.1 hb.1 hn.1
    obtain ⟨hcr, hsr⟩ := eval_balanced hk.2 hb.2.1 hn.2
    constructor
    · rintro ⟨hl, hr⟩
      obtain ⟨t, ht, htv⟩ := hcl hl
      obtain ⟨u, hu, huv⟩ := hcr hr
      refine ⟨t && u, ?_, fun w => ?_⟩
      · rw [Pred.eval, ht, hu]
        cases t <;> rfl
      · rw [Pred.sql, htv, huv]
        cases t <;> cases u <;> rfl
    · intro h
      obtain ⟨hl, hr⟩ := hb.2.2.resolve_left h
      rw [Pred.eval, hsl fun hc => hl hc.constant, hsr fun hc => hr hc.constant]
      exact congrArg Except.ok (seriesOp_self _ _ _ _ _)
  | .or l r, hk, hb, hn => by
    obtain ⟨hcl, hsl⟩ := eval_balanced hk.1 hb.1 hn.1
    obtain ⟨hcr, hsr⟩ := eval_balanced hk.2 hb.2.1 hn.2
    constructor
    · rintro ⟨hl, hr⟩
      obtain ⟨t, ht, htv⟩ := hcl hl
      obtain ⟨u, hu, huv⟩ := hcr hr
      refine ⟨t || u, ?_, fun w => ?_⟩
      · rw [Pred.eval, ht, hu]
        cases t <;> rfl
      · rw [Pred.sql, htv, huv]
        cases t <;> cases u <;> rfl
    · intro h
      obtain ⟨hl, hr⟩ := hb.2.2.resolve_left h
      rw [Pred.eval, hsl fun hc => hl hc.constant, hsr fun hc => hr hc.constant]
      exact congrArg Except.ok (seriesOp_self _ _ _ _ _)
  | .not e, hk, hb, hn => by
    obtain ⟨hc, hs⟩ := eval_balanced (p := e) hk hb hn
    constructor
    · intro h
      obtain ⟨t, ht, htv⟩ := hc h
      refine ⟨!t, ?_, fun w => ?_⟩
      · rw [Pred.eval, ht]
        rfl
      · rw [Pred.sql, htv]
        rfl
    · intro h
      rw [Pred.eval, hs h]
      refine congrArg (fun vals => Except.ok (Shaped.series df.index vals)) ?_
      rw [List.map_map]
      rfl

omit [DecidableEq ι] [LinearOrder V] in
theorem truthy_eq (b : Option Bool) : truthy b = decide (b = some true) := by
  rcases b with - | _ | _ <;> rfl

/-- **The filter of a balanced predicate keeps the rows on which it is true.** -/
theorem filter_balanced {p : Pred V} (hk : p.Known df.frame.columns) (hb : p.Balanced df.frame)
    (hn : p.NullFree df.frame) : p.filter A df = .ok (p.kept df.frame) := by
  obtain ⟨hc, hs⟩ := eval_balanced (A := A) hk hb hn
  by_cases h : p.Closed
  · obtain ⟨t, ht, htv⟩ := hc h
    rw [Pred.filter, ht, Pred.kept]
    refine congrArg Except.ok ?_
    cases t with
    | true =>
      refine Frame.ext rfl (List.filter_eq_self.mpr fun r _ => ?_).symm
      rw [htv r]
      rfl
    | false =>
      refine congrArg df.frame.filter (funext fun r => ?_)
      rw [htv r]
      rfl
  · rw [Pred.filter, hs h, Pred.kept]
    refine (if_pos (List.length_map _)).trans (congrArg Except.ok ?_)
    rw [List.map_map, boolIndex_map]
    exact congrArg df.frame.filter (funext fun r => truthy_eq _)

end Evaluate

/-! ## 8. An unbalanced predicate -/

section Unbalanced
variable {A : Labels ι} {df : IndexedFrame ι V}

omit [LinearOrder V] in
theorem seriesOp_series {α β : Type} (f : Option α → Option α → Option β) (ix : List ι)
    (xs : List (Option α)) (iy : List ι) (ys : List (Option α)) :
    ∃ iz zs, seriesOp A f ix xs iy ys = .series iz zs := by
  unfold seriesOp
  split
  · exact ⟨_, _, rfl⟩
  · exact ⟨_, _, rfl⟩

omit [DecidableEq ι] [LinearOrder V] in
/-- An operand that has a value is a Series when it is a column. -/
theorem operand_shape {o : Operand V} {v : Shaped ι V} (h : o.eval df = .ok v) :
    o.Closed ↔ ∃ x, v = .scalar x := by
  cases o with
  | col name table =>
    rw [Operand.eval] at h
    cases hc : resolve df.frame.columns name table with
    | none =>
      rw [hc] at h
      cases h
    | some c =>
      rw [hc] at h
      cases h
      exact ⟨False.elim, nofun⟩
  | lit x =>
    cases h
    exact ⟨fun _ => ⟨x, rfl⟩, fun _ => trivial⟩

/-- The parts of a `do` block that returned. -/
theorem eval_bind {α β : Type} {x : Except EvalError α} {f : α → Except EvalError β} {b : β}
    (h : (x >>= f) = .ok b) : ∃ a, x = .ok a ∧ f a = .ok b := by
  cases x with
  | error e => cases h
  | ok a => exact ⟨a, rfl, h⟩

theorem compare_shape {op : CmpOp} {v w : Shaped ι V} {u : Shaped ι Bool}
    (h : compareValues A op v w = .ok u) :
    (∃ x, u = .scalar x) ↔ (∃ x, v = .scalar x) ∧ ∃ x, w = .scalar x := by
  cases v with
  | scalar a =>
    cases w with
    | scalar b =>
      obtain ⟨t, -, h⟩ := eval_bind h
      cases h
      exact iff_of_true ⟨_, rfl⟩ ⟨⟨_, rfl⟩, _, rfl⟩
    | series iy ys =>
      cases h
      exact ⟨nofun, fun h => nomatch h.2⟩
  | series ix xs =>
    cases w with
    | scalar b =>
      cases h
      exact ⟨nofun, fun h => nomatch h.1⟩
    | series iy ys =>
      obtain ⟨iz, zs, hz⟩ := seriesOp_series (A := A) (Kleene.compare op.holds) ix xs iy ys
      rw [compareValues, hz] at h
      cases h
      exact ⟨nofun, fun h => nomatch h.1⟩

/-- Both connectives: two scalars give a scalar, anything else a Series or an exception. -/
theorem combine_shape {v w u : Shaped ι Bool} (h : combineAnd A v w = .ok u ∨ combineOr A v w = .ok u) :
    (∃ x, u = .scalar x) ↔ (∃ x, v = .scalar x) ∧ ∃ x, w = .scalar x := by
  cases v with
  | scalar a =>
    cases w with
    | scalar b =>
      refine iff_of_true ?_ ⟨⟨_, rfl⟩, _, rfl⟩
      rcases h with h | h <;> cases h <;> exact ⟨_, rfl⟩
    | series iy ys =>
      refine iff_of_false ?_ fun h => nomatch h.2
      rintro ⟨x, rfl⟩
      rcases h with h | h <;> cases ht : truthy a <;>
        simp [combineAnd, combineOr, ht, full] at h
  | series ix xs =>
    refine iff_of_false ?_ fun h => nomatch h.1
    rintro ⟨x, rfl⟩
    cases w with
    | scalar b => rcases h with h | h <;> cases h
    | series iy ys =>
      rcases h with h | h
      · obtain ⟨iz, zs, hz⟩ := seriesOp_series (A := A) Kleene.and ix xs iy ys
        rw [combineAnd, hz] at h
        cases h
      · obtain ⟨iz, zs, hz⟩ := seriesOp_series (A := A) Kleene.or ix xs iy ys
        rw [combineOr, hz] at h
        cases h

/-- **The shape of a value**: a scalar when there is no column, and a Series otherwise. -/
theorem eval_shape : ∀ {p : Pred V} {v : Shaped ι Bool}, p.eval A df = .ok v →
    (p.Closed ↔ ∃ x, v = .scalar x)
  | .cmp op a b, v, h => by
    obtain ⟨x, hx, h⟩ := eval_bind h
    obtain ⟨y, hy, h⟩ := eval_bind h
    exact (and_congr (operand_shape hx) (operand_shape hy)).trans (compare_shape h).symm
  | .lit b, v, h => by
    cases h
    exact iff_of_true trivial ⟨b, rfl⟩
  | .and l r, v, h => by
    obtain ⟨x, hx, h⟩ := eval_bind h
    obtain ⟨y, hy, h⟩ := eval_bind h
    exact (and_congr (eval_shape hx) (eval_shape hy)).trans (combine_shape (.inl h)).symm
  | .or l r, v, h => by
    obtain ⟨x, hx, h⟩ := eval_bind h
    obtain ⟨y, hy, h⟩ := eval_bind h
    exact (and_congr (eval_shape hx) (eval_shape hy)).trans (combine_shape (.inr h)).symm
  | .not e, v, h => by
    obtain ⟨x, hx, h⟩ := eval_bind h
    cases h
    refine (eval_shape (p := e) hx : e.Closed ↔ _).trans ?_
    cases x with
    | scalar a => exact iff_of_true ⟨a, rfl⟩ ⟨_, rfl⟩
    | series ix xs => exact ⟨nofun, nofun⟩

/-- The evaluation raises. -/
def Raises {α : Type} (x : Except EvalError α) : Prop := ∀ v, x ≠ .ok v

theorem raises_and {l r : Pred V} (h : Raises (l.eval A df) ∨ Raises (r.eval A df) ∨
    ¬ l.Closed ∧ r.Closed) : Raises ((Pred.and l r).eval A df) := by
  intro v hv
  obtain ⟨x, hx, hv⟩ := eval_bind hv
  obtain ⟨y, hy, hv⟩ := eval_bind hv
  rcases h with h | h | ⟨hl, hr⟩
  · exact h x hx
  · exact h y hy
  · obtain ⟨b, rfl⟩ := (eval_shape hy).mp hr
    cases x with
    | scalar a => exact hl ((eval_shape hx).mpr ⟨a, rfl⟩)
    | series ix xs => cases hv

theorem raises_or {l r : Pred V} (h : Raises (l.eval A df) ∨ Raises (r.eval A df) ∨
    ¬ l.Closed ∧ r.Closed) : Raises ((Pred.or l r).eval A df) := by
  intro v hv
  obtain ⟨x, hx, hv⟩ := eval_bind hv
  obtain ⟨y, hy, hv⟩ := eval_bind hv
  rcases h with h | h | ⟨hl, hr⟩
  · exact h x hx
  · exact h y hy
  · obtain ⟨b, rfl⟩ := (eval_shape hy).mp hr
    cases x with
    | scalar a => exact hl ((eval_shape hx).mpr ⟨a, rfl⟩)
    | series ix xs => cases hv

omit [DecidableEq ι] [LinearOrder V] in
/-- Operands that do not go together have variants of which one is a scalar and one is not. -/
theorem exists_mixed {f : Frame V} {l r : Pred V} (h : ¬ Pairable f l r) : ∃ l' r' : Pred V,
    l.Variant f l' ∧ r.Variant f r' ∧ (¬ l'.Closed ∧ r'.Closed ∨ l'.Closed ∧ ¬ r'.Closed) := by
  obtain ⟨hclosed, hconst⟩ := not_or.mp h
  by_cases hl : l.Constant f
  · by_cases hr : r.Closed
    · exact ⟨l, r, .refl l, .refl r, .inl ⟨fun hl => hclosed ⟨hl, hr⟩, hr⟩⟩
    · obtain ⟨l', hv, hc⟩ := exists_closed hl
      exact ⟨l', r, hv, .refl r, .inr ⟨hc, hr⟩⟩
  · have hr : r.Constant f := not_not.mp fun hr => hconst ⟨hl, hr⟩
    obtain ⟨r', hv, hc⟩ := exists_closed hr
    exact ⟨l, r', .refl l, hv, .inl ⟨fun hl' => hl hl'.constant, hc⟩⟩

/-- **A predicate that is not balanced has a variant that raises.** -/
theorem exists_raises : ∀ {p : Pred V}, ¬ p.Balanced df.frame →
    ∃ p', p.Variant df.frame p' ∧ Raises (p'.eval A df)
  | .cmp _ _ _, h => absurd trivial h
  | .lit _, h => absurd trivial h
  | .and l r, h => by
    by_cases hl : l.Balanced df.frame
    · by_cases hr : r.Balanced df.frame
      · obtain ⟨l', r', hvl, hvr, hmix⟩ := exists_mixed fun hp => h ⟨hl, hr, hp⟩
        rcases hmix with hmix | ⟨hc, hn⟩
        · exact ⟨_, .andIn hvl hvr, raises_and (.inr (.inr hmix))⟩
        · exact ⟨_, (Pred.Variant.andIn hvl hvr).trans (.andSwap l' r'),
            raises_and (.inr (.inr ⟨hn, hc⟩))⟩
      · obtain ⟨r', hv, hr⟩ := exists_raises hr
        exact ⟨_, .andIn (.refl l) hv, raises_and (.inr (.inl hr))⟩
    · obtain ⟨l', hv, hl⟩ := exists_raises hl
      exact ⟨_, .andIn hv (.refl r), raises_and (.inl hl)⟩
  | .or l r, h => by
    by_cases hl : l.Balanced df.frame
    · by_cases hr : r.Balanced df.frame
      · obtain ⟨l', r', hvl, hvr, hmix⟩ := exists_mixed fun hp => h ⟨hl, hr, hp⟩
        rcases hmix with hmix | ⟨hc, hn⟩
        · exact ⟨_, .orIn hvl hvr, raises_or (.inr (.inr hmix))⟩
        · exact ⟨_, (Pred.Variant.orIn hvl hvr).trans (.orSwap l' r'),
            raises_or (.inr (.inr ⟨hn, hc⟩))⟩
      · obtain ⟨r', hv, hr⟩ := exists_raises hr
        exact ⟨_, .orIn (.refl l) hv, raises_or (.inr (.inl hr))⟩
    · obtain ⟨l', hv, hl⟩ := exists_raises hl
      exact ⟨_, .orIn hv (.refl r), raises_or (.inl hl)⟩
  | .not e, h => by
    obtain ⟨e', hv, he⟩ := exists_raises (p := e) h
    refine ⟨_, .notIn hv, fun v hv' => ?_⟩
    obtain ⟨x, hx, -⟩ := eval_bind hv'
    exact he x hx

end Unbalanced

/-! ## 9. Predicates -/

/-- **When predicates obey three-valued logic whatever the shapes of their operands.**  The filter of a
predicate and of all its variants returns the rows on which the predicate is true if the predicate is
balanced and no scalar is NULL; and only if it is balanced. -/
theorem predicate_three_valued (A : Labels ι) (df : IndexedFrame ι V) {p : Pred V}
    (hk : p.Known df.frame.columns) :
    (p.Balanced df.frame → p.NullFree df.frame →
      ∀ p', p.Variant df.frame p' → p'.filter A df = .ok (p.kept df.frame)) ∧
    ((∀ p', p.Variant df.frame p' → p'.filter A df = .ok (p.kept df.frame)) →
      p.Balanced df.frame) := by
  constructor
  · intro hb hn p' hv
    rw [filter_balanced (hv.known hk) (hv.balanced hb) (hv.nullFree hn), Pred.kept, Pred.kept]
    refine congrArg Except.ok (Frame.ext rfl (List.filter_congr fun r hr => ?_))
    rw [hv.sql r hr]
  · intro h
    by_contra hb
    obtain ⟨p', hv, hr⟩ := exists_raises (A := A) hb
    obtain ⟨v, he, -⟩ := eval_bind (h p' hv)
    exact hr v he

/-- Labels that are numbers; different indexes are aligned label by label. -/
def natLabels : Labels Nat :=
  ⟨List.range, fun ix iy => (ix ++ iy).dedup.map fun x => (x, ix.idxOf? x, iy.idxOf? x)⟩

/-- A filtered frame: the rows with 1 and 2 are left, under the labels 3 and 5. -/
def filteredFrame : IndexedFrame Nat Nat := ⟨numbers ["x"] [[some 1], [some 2]], [3, 5], rfl⟩

/-- `x = 1`. -/
def isOne : Pred Nat := .cmp .eq (.col "x" none) (.lit (some 1))

/-- `NOT (1 = x)`, a variant of the predicate `NOT (x = 1)` on one column. -/
theorem predicate_three_valued_not :
    (Pred.not (.cmp .eq (.lit (some 1)) (.col "x" none))).filter natLabels filteredFrame =
      .ok ((Pred.not isOne).kept filteredFrame.frame) := by
  have hx : (resolve filteredFrame.frame.columns "x" none).isSome = true := by decide
  have hk : (Pred.not isOne).Known filteredFrame.frame.columns := ⟨hx, trivial⟩
  exact (predicate_three_valued natLabels filteredFrame hk).1 trivial
    (fun _ _ => ⟨trivial, trivial⟩) _ (.notIn (.mirror .eq _ _))

/-- The cells of a frame that was returned. -/
def cellsOf (x : Except EvalError (Frame Nat)) : Option (List (List (Cell Nat))) :=
  x.toOption.map tuples

/-- **Shapes that matter.**  `TRUE AND x = 1` keeps the row with 1, and `x = 1 AND TRUE` raises.
`NOT (NULL AND x = 1)` keeps both rows, where SQL keeps the one with 2, and `NOT (NULL = 1)` keeps both,
where SQL keeps none. -/
theorem shapes_matter :
    cellsOf ((Pred.and (.lit (some true)) isOne).filter natLabels filteredFrame) = some [[some 1]] ∧
    cellsOf ((Pred.and isOne (.lit (some true))).filter natLabels filteredFrame) = none ∧
    cellsOf ((Pred.not (.and (.lit none) isOne)).filter natLabels filteredFrame) =
      some [[some 1], [some 2]] ∧
    tuples ((Pred.not (.and (.lit none) isOne)).kept filteredFrame.frame) = [[some 2]] ∧
    cellsOf ((Pred.not (.cmp .eq (.lit none) (.lit (some 1)))).filter natLabels filteredFrame) =
      some [[some 1], [some 2]] ∧
    tuples ((Pred.not (.cmp .eq (.lit none) (.lit (some 1)))).kept filteredFrame.frame) = [] := by
  refine ⟨?_, ?_, ?_, ?_, ?_, ?_⟩ <;> decide

end RyuDB.Sql
