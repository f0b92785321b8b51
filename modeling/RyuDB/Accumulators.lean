/-
# The accumulators of the CUDA kernels

Every kernel of `fused.cu` ends a row in the same way: for each aggregate it updates one cell of an
array of doubles that other threads update too.  COUNT, SUM and AVG add with `atomicAdd`; MIN and MAX
read the cell and try to swap it until the swap finds what was read (`access`).  An update takes effect
in the one access that ends it (`access_cases`), so what a cell holds is its initial value with the
values of the rows that are through (`AggKind.folded`), in whatever order they came.

Arithmetic is exact: a double is a rational or an infinity, and nothing rounds or overflows.
-/
import Mathlib.Algebra.Order.Monoid.WithTop
import Mathlib.Algebra.Order.Ring.Rat
import Mathlib.Data.Finset.Fold
import RyuDB.Fused
import RyuDB.Lib.Threads

namespace RyuDB.Kernels

/-! ## 1. Cells -/

/-- A device double. -/
abbrev Double := WithBot (WithTop ℚ)

/-- A number as a device double. -/
def ofRat (q : ℚ) : Double := ((q : WithTop ℚ) : WithBot (WithTop ℚ))

/-- `AGG_COUNT`, `AGG_SUM`, `AGG_MIN`, `AGG_MAX`, `AGG_AVG`. -/
inductive AggKind where
  | count
  | sum
  | min
  | max
  | avg
  deriving DecidableEq, Repr

namespace AggKind

/-- `init_for_kind`. -/
def init : AggKind → Double
  | .min => ⊤
  | .max => ⊥
  | _ => 0

/-- The content of a cell after an update. -/
def op : AggKind → Double → Double → Double
  | .min, cur, val => if val < cur then val else cur
  | .max, cur, val => if cur < val then val else cur
  | _, cur, val => cur + val

/-- The updates that read before they write: `atomic_min_d` and `atomic_max_d`. -/
def swaps : AggKind → Bool
  | .min | .max => true
  | _ => false

/-- The value a row brings: `1.0` for COUNT, else `eval_agg`. -/
def brings (kind : AggKind) (eval : ℚ) : Double :=
  match kind with
  | .count => ofRat 1
  | _ => ofRat eval

end AggKind

/-- One access of an update to its cell, which holds `cur`: the new content, and the value that the
next compare-and-swap will assume, or `none` when the update is over. -/
def access (kind : AggKind) (val cur : Double) (assumed : Option Double) : Double × Option Double :=
  if kind.swaps then
    match assumed with
    | none => (cur, some cur)
    | some v => if cur = v then (kind.op cur val, none) else (cur, some cur)
  else (kind.op cur val, none)

/-- **An access ends the update or leaves the cell alone.** -/
theorem access_cases (kind : AggKind) (val cur : Double) (assumed : Option Double) :
    access kind val cur assumed = (kind.op cur val, none) ∨
      access kind val cur assumed = (cur, some cur) ∧ assumed ≠ some cur := by
  unfold access
  split
  · cases assumed with
    | none => exact Or.inr ⟨rfl, by simp⟩
    | some v =>
      by_cases hv : cur = v
      · exact Or.inl (if_pos hv)
      · exact Or.inr ⟨if_neg hv, by simpa using fun h => hv h.symm⟩
  · exact Or.inl rfl

/-! ## 2. What a cell holds -/

namespace AggKind

theorem op_min (a b : Double) : op .min a b = Min.min a b := by
  unfold op
  rw [min_comm, min_def_lt]

theorem op_max (a b : Double) : op .max a b = Max.max a b := by
  unfold op
  rw [max_def_lt]

instance commutative (kind : AggKind) : Std.Commutative kind.op where
  comm a b := by
    cases kind with
    | min => rw [op_min, op_min, min_comm]
    | max => rw [op_max, op_max, max_comm]
    | count => exact add_comm a b
    | sum => exact add_comm a b
    | avg => exact add_comm a b

instance associative (kind : AggKind) : Std.Associative kind.op where
  assoc a b c := by
    cases kind with
    | min => simp only [op_min, min_assoc]
    | max => simp only [op_max, max_assoc]
    | count => exact add_assoc a b c
    | sum => exact add_assoc a b c
    | avg => exact add_assoc a b c

/-- Nothing is lost in the initial value. -/
theorem op_init (kind : AggKind) (v : Double) : kind.op v kind.init = v := by
  cases kind with
  | min => exact (op_min v ⊤).trans (min_top_right v)
  | max => exact (op_max v ⊥).trans (max_bot_right v)
  | count => exact add_zero v
  | sum => exact add_zero v
  | avg => exact add_zero v

/-- The cell with the values of some rows. -/
def folded (kind : AggKind) (val : Nat → Double) (rows : Finset Nat) : Double :=
  rows.fold kind.op kind.init val

@[simp] theorem folded_empty (kind : AggKind) (val : Nat → Double) : kind.folded val ∅ = kind.init := rfl

theorem folded_insert (kind : AggKind) (val : Nat → Double) {rows : Finset Nat} {i : Nat}
    (hi : i ∉ rows) : kind.folded val (insert i rows) = kind.op (kind.folded val rows) (val i) := by
  rw [folded, Finset.fold_insert hi, (commutative kind).comm]
  rfl

/-- The cells of two parts, put together. -/
theorem folded_union (kind : AggKind) (val : Nat → Double) {s t : Finset Nat} (h : Disjoint s t) :
    kind.folded val (s ∪ t) = kind.op (kind.folded val s) (kind.folded val t) := by
  induction t using Finset.induction_on with
  | empty => rw [Finset.union_empty, folded_empty, op_init]
  | insert i t hi ih =>
    rw [Finset.disjoint_insert_right] at h
    have hnot : i ∉ s ∪ t := by simp [h.1, hi]
    rw [Finset.union_insert, folded_insert kind val hnot, folded_insert kind val hi, ih h.2,
      (associative kind).assoc]

end AggKind

/-! ## 3. The accumulators of a list of rows -/

theorem ofRat_mono : Monotone ofRat := by
  intro a b h
  unfold ofRat
  rwa [WithBot.coe_le_coe, WithTop.coe_le_coe]

theorem ofRat_add (a b : ℚ) : ofRat (a + b) = ofRat a + ofRat b := by
  unfold ofRat
  rw [WithTop.coe_add, WithBot.coe_add]

namespace AggKind

theorem folded_cons (kind : AggKind) (val : Nat → Double) {i : Nat} {l : List Nat}
    (h : (i :: l).Nodup) :
    kind.folded val (i :: l).toFinset = kind.op (kind.folded val l.toFinset) (val i) := by
  rw [List.toFinset_cons, folded_insert]
  simpa using (List.nodup_cons.mp h).1

/-- A cell that adds. -/
theorem folded_add {kind : AggKind} (hop : ∀ a b, kind.op a b = a + b) (hinit : kind.init = 0)
    (eval : Nat → ℚ) {l : List Nat} (h : l.Nodup) :
    kind.folded (fun i => ofRat (eval i)) l.toFinset = ofRat (l.map eval).sum := by
  induction l with
  | nil => exact hinit
  | cons i l ih =>
    rw [folded_cons _ _ h, ih (List.nodup_cons.mp h).2, hop, List.map_cons, List.sum_cons, add_comm,
      ofRat_add]

theorem folded_min (eval : Nat → ℚ) {l : List Nat} (h : l.Nodup) :
    folded .min (fun i => ofRat (eval i)) l.toFinset = ((l.map eval).min?.map ofRat).getD ⊤ := by
  induction l with
  | nil => rfl
  | cons i l ih =>
    rw [folded_cons _ _ h, ih (List.nodup_cons.mp h).2, op_min, List.map_cons, List.min?_cons]
    cases (l.map eval).min? with
    | none => exact min_top_left _
    | some m =>
      change Min.min (ofRat m) _ = ofRat (Min.min _ m)
      rw [← ofRat_mono.map_min, min_comm]

theorem folded_max (eval : Nat → ℚ) {l : List Nat} (h : l.Nodup) :
    folded .max (fun i => ofRat (eval i)) l.toFinset = ((l.map eval).max?.map ofRat).getD ⊥ := by
  induction l with
  | nil => rfl
  | cons i l ih =>
    rw [folded_cons _ _ h, ih (List.nodup_cons.mp h).2, op_max, List.map_cons, List.max?_cons]
    cases (l.map eval).max? with
    | none => exact max_bot_left _
    | some m =>
      change Max.max (ofRat m) _ = ofRat (Max.max _ m)
      rw [← ofRat_mono.map_max, max_comm]

end AggKind

/-- The kind the host sends for a function. -/
def kindOf : Fused.Func → AggKind
  | .count => .count
  | .min => .min
  | .max => .max
  | .avg => .avg
  | _ => .sum

/-- **A cell that holds the rows of a group holds its accumulator.** -/
theorem folded_accumulate (f : Fused.Func) (eval : Nat → ℚ) {l : List Nat} (h : l.Nodup)
    (hne : l ≠ []) : (kindOf f).folded (fun i => (kindOf f).brings (eval i)) l.toFinset =
      ofRat (Fused.accumulate f (l.map eval)) := by
  obtain ⟨i, l, rfl⟩ := List.exists_cons_of_ne_nil hne
  cases f with
  | count =>
    refine (AggKind.folded_add (fun _ _ => rfl) rfl (fun _ => 1) h).trans (congrArg ofRat ?_)
    simp [Fused.accumulate, add_comm]
  | min =>
    refine (AggKind.folded_min eval h).trans ?_
    rw [Fused.accumulate, List.map_cons, List.min?_cons]
    rfl
  | max =>
    refine (AggKind.folded_max eval h).trans ?_
    rw [Fused.accumulate, List.map_cons, List.max?_cons]
    rfl
  | sum => exact AggKind.folded_add (fun _ _ => rfl) rfl eval h
  | avg => exact AggKind.folded_add (fun _ _ => rfl) rfl eval h
  | other g => exact AggKind.folded_add (fun _ _ => rfl) rfl eval h

end RyuDB.Kernels
