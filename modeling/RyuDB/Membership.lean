/-
# IN and NOT IN

`x IN (v, ..)` is evaluated as `s.isin(vals)` with the rows masked whose operand is NULL (`_in`), and
`x IN (SELECT ..)` as a conjunct of WHERE becomes a semi join, its NOT an anti join, on the operand's
bare name (`_in_subquery_conjunct`).

Wanted is the disjunction of the equalities in three-valued logic (`sqlIn`), and its negation.
`in_three_valued` says when the rows kept are those:

* `x IN (v, ..)` always;
* `x NOT IN (v, ..)` unless the list holds a NULL and some operand is neither NULL nor in the list:
  such a row is kept, and SQL does not know;
* `x IN (SELECT ..)`, for an operand whose column has the bare name, always;
* `x NOT IN (SELECT ..)`, for such an operand, when the result of the subquery is empty, or no operand
  is NULL and, if a NULL is in the result, every operand is there too (`OperandsTold`).

An operand whose own column is another one, since a join has renamed it, is compared by the column that
has its bare name; `SubKept` says of a row when that makes no difference.
-/
import RyuDB.Lib.Kleene
import RyuDB.Exists
import RyuDB.SemiAnti

namespace RyuDB.Sql

variable {V : Type} [DecidableEq V]

/-! ## 1. Lists -/

section Model
variable {S : Scalars V} (B : Booleans S)

omit [DecidableEq V] in
/-- A truth value as a cell. -/
def Booleans.cell : Option Bool → Cell V := Option.map fun t => if t then B.yes else B.no

/-- `_in` on one row. -/
def inMask (negated : Bool) (x : Cell V) (vals : List (Cell V)) : Option Bool :=
  let m := decide (x ∈ vals)
  let m := if x.isSome then some m else none
  if negated then m.map Bool.not else m

/-- `In(expr, values, negated)`. -/
def inList (e : Expr V) (vals : List (Expr V)) (negated : Bool) : Expr V :=
  .app ⟨vals.length + 1, fun a => B.cell (inMask negated (a 0) (List.ofFn fun i => a i.succ)), true,
    fun i => decide (i ≠ 0), "IN with a column-typed list element is not supported"⟩
    fun i => Fin.cases e (fun j => vals.get j) i

/-- `_in` of the builder, and `_not` of an IN list. -/
def lowerIn (e : Expr V) (vals : List (Expr V)) (negated : Bool) : Except DbError (Expr V) :=
  if vals.isEmpty then .error (.parse "IN list is empty") else .ok (inList B e vals negated)

/-! ## 2. Subqueries -/

omit [DecidableEq V] in
/-- `_in_subquery_key`. -/
def inSubqueryKey : Expr V → Except DbError String
  | .col name _ => .ok name
  | _ => .error (.notImplemented
      "IN-subquery key must be a bare column (expression keys are deferred)")

omit [DecidableEq V] in
/-- The Join of `_apply_where_subqueries` for an uncorrelated IN or NOT IN. -/
def inSubquery (plan : PlanNode V) (operand : Expr V) (subplan : PlanNode V) (negated : Bool) :
    Except DbError (PlanNode V) := do
  let key ← inSubqueryKey operand
  let onRight ← Parse.subqueryOutputCols subplan
  return .join plan subplan ⟨[key], onRight, if negated then .anti else .semi, none, false⟩

end Model

/-! ## 3. What is wanted -/

/-- **`x IN (elems)` in three-valued logic.** -/
def sqlIn (x : Cell V) (elems : List (Cell V)) : Option Bool :=
  Kleene.any (elems.map (Kleene.compare (fun a b => decide (a = b)) x))

/-- The conjunct `x IN (elems)`, or `x NOT IN (elems)`, is true. -/
def keptIn (negated : Bool) (x : Cell V) (elems : List (Cell V)) : Bool :=
  decide ((if negated then Kleene.not (sqlIn x elems) else sqlIn x elems) = some true)

/-- IN is true where some element equals the operand. -/
theorem sqlIn_true {x : Cell V} {elems : List (Cell V)} :
    sqlIn x elems = some true ↔ x.isSome = true ∧ x ∈ elems := by
  rw [sqlIn, Kleene.any_eq_true, List.mem_map]
  constructor
  · rintro ⟨e, he, h⟩
    obtain ⟨a, b, rfl, rfl, hab⟩ := Kleene.compare_eq_some.mp h
    exact ⟨rfl, (of_decide_eq_true hab) ▸ he⟩
  · rintro ⟨hx, he⟩
    obtain ⟨a, rfl⟩ := Option.isSome_iff_exists.mp hx
    exact ⟨some a, he, Kleene.compare_eq_some.mpr ⟨a, a, rfl, rfl, decide_eq_true rfl⟩⟩

/-- NOT IN is true where there is no element, or neither the operand nor an element is NULL and all
elements differ from the operand. -/
theorem sqlIn_false {x : Cell V} {elems : List (Cell V)} :
    sqlIn x elems = some false ↔
      elems = [] ∨ x.isSome = true ∧ ∀ e ∈ elems, e.isSome = true ∧ e ≠ x := by
  rw [sqlIn, Kleene.any_eq_false, List.forall_mem_map]
  constructor
  · intro h
    by_cases hnil : elems = []
    · exact .inl hnil
    · obtain ⟨e, he⟩ := List.exists_mem_of_ne_nil _ hnil
      obtain ⟨a, -, rfl, -, -⟩ := Kleene.compare_eq_some.mp (h e he)
      refine .inr ⟨rfl, fun e he => ?_⟩
      obtain ⟨a', b, ha, rfl, hab⟩ := Kleene.compare_eq_some.mp (h e he)
      exact ⟨rfl, fun heq => of_decide_eq_false hab (Option.some.inj (heq.trans ha)).symm⟩
  · rintro (rfl | ⟨hx, h⟩) e he
    · cases he
    · obtain ⟨a, rfl⟩ := Option.isSome_iff_exists.mp hx
      obtain ⟨hs, hne⟩ := h e he
      obtain ⟨b, rfl⟩ := Option.isSome_iff_exists.mp hs
      exact Kleene.compare_eq_some.mpr ⟨a, b, rfl, rfl, decide_eq_false fun hab => hne (hab ▸ rfl)⟩

/-- A comparison with a set keeps the row: what the semi and the anti join do with the cell `y` under
the bare name, and what SQL does with the operand `x`. -/
def SubKept (negated : Bool) (elems : List (Cell V)) (x y : Cell V) : Prop :=
  if negated then elems ≠ [] →
    (y.isSome = true ∧ y ∈ elems ↔ x = none ∨ none ∈ elems ∨ x ∈ elems)
  else (y.isSome = true ∧ y ∈ elems ↔ x.isSome = true ∧ x ∈ elems)

/-- What NOT IN asks of the operands of the rows: none where the subquery returns nothing; else that none
is NULL, and that all are in the result if a NULL is. -/
def OperandsTold (operand : Row V → Cell V) (rows : List (Row V)) (elems : List (Cell V)) : Prop :=
  elems = [] ∨ ∀ l ∈ rows, (operand l).isSome = true ∧ (none ∈ elems → operand l ∈ elems)

/-! ## 4. Row by row -/

section Rows
variable {S : Scalars V} (B : Booleans S)

omit [DecidableEq V] in
theorem holds_cell (t : Option Bool) : S.holds (B.cell t) = decide (t = some true) := by
  rcases t with - | _ | _
  · rfl
  · exact B.truth_no
  · exact B.truth_yes

theorem inList_value (e : Expr V) (vals : List (Expr V)) (negated : Bool) (cols : List String)
    (r : Row V) : (inList B e vals negated).value S cols r =
      B.cell (inMask negated (e.value S cols r) (vals.map fun v => v.value S cols r)) := by
  have hvals : (List.ofFn fun i : Fin vals.length => (vals.get i).value S cols r) =
      vals.map fun v => v.value S cols r :=
    List.ofFn_getElem_eq_map vals fun v => v.value S cols r
  exact congrArg (fun l => B.cell (inMask negated (e.value S cols r) l)) hvals

theorem inMask_true {negated : Bool} {x : Cell V} {vals : List (Cell V)} :
    inMask negated x vals = some true ↔ x.isSome = true ∧ (x ∈ vals ↔ negated = false) := by
  unfold inMask
  by_cases hx : x.isSome = true
  · by_cases hin : x ∈ vals <;> cases negated <;> simp [hx, hin]
  · cases negated <;> simp [hx]

theorem keptIn_true {negated : Bool} {x : Cell V} {elems : List (Cell V)} :
    keptIn negated x elems = true ↔
      if negated then elems = [] ∨ x.isSome = true ∧ ∀ e ∈ elems, e.isSome = true ∧ e ≠ x
      else x.isSome = true ∧ x ∈ elems := by
  rw [keptIn, decide_eq_true_eq]
  cases negated with
  | false => exact sqlIn_true
  | true => exact Kleene.not_eq_true.trans sqlIn_false

omit [DecidableEq V] in
/-- No element is NULL or the operand. -/
theorem all_differ {x : Cell V} {elems : List (Cell V)} :
    (x.isSome = true ∧ ∀ e ∈ elems, e.isSome = true ∧ e ≠ x) ↔
      ¬ (x = none ∨ none ∈ elems ∨ x ∈ elems) := by
  constructor
  · rintro ⟨hx, h⟩ (rfl | hn | hin)
    · cases hx
    · cases (h none hn).1
    · exact (h x hin).2 rfl
  · intro h
    obtain ⟨hx, hn, hin⟩ : x ≠ none ∧ none ∉ elems ∧ x ∉ elems := by simpa using h
    refine ⟨Option.isSome_iff_ne_none.mpr hx, fun e he => ⟨?_, fun heq => hin (heq ▸ he)⟩⟩
    exact Option.isSome_iff_ne_none.mpr fun heq => hn (heq ▸ he)

/-- The list keeps a row as it should unless it negates, holds a NULL, and the operand is neither NULL
nor in it. -/
theorem inMask_kept {negated : Bool} {x : Cell V} {vals : List (Cell V)} (hne : vals ≠ []) :
    decide (inMask negated x vals = some true) = keptIn negated x vals ↔
      (negated = true → none ∈ vals → x = none ∨ x ∈ vals) := by
  rw [Bool.eq_iff_iff, decide_eq_true_eq, inMask_true, keptIn_true]
  cases negated with
  | false => simp
  | true =>
    rw [if_pos rfl, or_iff_right hne, all_differ, ← Option.not_isSome_iff_eq_none]
    by_cases hx : x.isSome = true <;> by_cases hin : x ∈ vals <;> simp [hx, hin]

/-- The join keeps a row as it should exactly where `SubKept` says so. -/
theorem semi_kept {negated : Bool} {x y : Cell V} {elems : List (Cell V)} :
    (!decide (y.isSome = true ∧ y ∈ elems) == negated) = keptIn negated x elems ↔
      SubKept negated elems x y := by
  have hjoin : (!decide (y.isSome = true ∧ y ∈ elems) == negated) = true ↔
      (y.isSome = true ∧ y ∈ elems ↔ negated = false) := by
    by_cases h : y.isSome = true ∧ y ∈ elems <;> cases negated <;> simp [h]
  rw [Bool.eq_iff_iff, hjoin, keptIn_true, SubKept]
  cases negated with
  | false => simp
  | true =>
    by_cases hnil : elems = []
    · simp [hnil]
    · rw [if_pos rfl, if_pos rfl, or_iff_right hnil, all_differ, imp_iff_right hnil]
      simp only [Bool.true_eq_false, iff_false]
      exact not_iff_not

/-- Where the bare name is the operand, `IN` is right, and `NOT IN` where the set is empty, or the
operand is not NULL and, if the set holds a NULL, is in the set. -/
theorem subKept_self {negated : Bool} {x : Cell V} {elems : List (Cell V)} :
    SubKept negated elems x x ↔
      (negated = true → elems = [] ∨ x.isSome = true ∧ (none ∈ elems → x ∈ elems)) := by
  unfold SubKept
  cases negated with
  | false => simp
  | true =>
    rw [if_pos rfl, ← Option.not_isSome_iff_eq_none]
    by_cases hnil : elems = []
    · simp [hnil]
    · by_cases hx : x.isSome = true <;> by_cases hin : x ∈ elems <;> simp [hnil, hx, hin]

end Rows

/-! ## 5. Frames -/

section Main
variable {S : Scalars V} {B : Booleans S} {D : Database V}

/-- **IN and NOT IN with a list**, as a filter. -/
theorem list_kept {e : Expr V} {vals : List (Cell V)} {negated : Bool} {p : Expr V} {df f : Frame V}
    (hp : lowerIn B e (vals.map .lit) negated = .ok p) (hf : filterFrame S df p = .ok f) :
    f = df.filter (fun r => keptIn negated (e.value S df.columns r) vals) ↔
      (negated = true → none ∈ vals →
        ∀ r ∈ df.rows, e.value S df.columns r = none ∨ e.value S df.columns r ∈ vals) := by
  unfold lowerIn at hp
  split at hp
  · cases hp
  · rename_i hempty
    cases hp
    have hne : vals ≠ [] := by
      rintro rfl
      exact hempty rfl
    obtain ⟨-, rfl⟩ := filterFrame_ok.mp hf
    have hmask : ∀ r : Row V, S.holds ((inList B e (vals.map .lit) negated).value S df.columns r) =
        decide (inMask negated (e.value S df.columns r) vals = some true) := by
      intro r
      have hvals : (vals.map Expr.lit).map (fun v => v.value S df.columns r) = vals := by
        rw [List.map_map]
        exact List.map_id _
      rw [inList_value, holds_cell, hvals]
    simp only [hmask]
    rw [Parse.filter_eq_iff]
    constructor
    · intro h hneg hnull r hr
      exact (inMask_kept hne).mp (h r hr) hneg hnull
    · intro h r hr
      exact (inMask_kept hne).mpr fun hneg hnull => h hneg hnull r hr

/-- **IN and NOT IN with a subquery**, as a join. -/
theorem subquery_kept {plan subplan node : PlanNode V} {name k : String} {table : Option String}
    {negated : Bool} {left right f : Frame V}
    (hn : inSubquery plan (.col name table) subplan negated = .ok node)
    (hl : exec S D plan = .ok left) (hr : exec S D subplan = .ok right) (hk : right.columns = [k])
    (hf : exec S D node = .ok f) :
    f = left.filter (fun l => keptIn negated ((resolve left.columns name table).bind l)
        (right.rows.map fun r => r k)) ↔
      ∀ l ∈ left.rows, SubKept negated (right.rows.map fun r => r k)
        ((resolve left.columns name table).bind l) (l name) := by
  obtain ⟨_, hkey, hn⟩ := bind_eq_ok.mp hn
  cases hkey
  obtain ⟨ns, -, hn⟩ := bind_eq_ok.mp hn
  cases hn
  -- the one column that is compared is the one there is
  have hns : ns = [k] := by
    obtain ⟨left', hl', h⟩ := bind_eq_ok.mp hf
    obtain ⟨right', hr', h⟩ := bind_eq_ok.mp h
    cases hr'.symm.trans hr
    have hc : (if negated then JoinHow.anti else .semi) ≠ .cross := by cases negated <;> decide
    obtain ⟨hlen, -, -, hcols⟩ := checkKeys_spec hc (joinFrames_ok.mp h).1.fits.keys
    obtain ⟨n, rfl⟩ := List.length_eq_one_iff.mp hlen.symm
    have hmem : n ∈ right.columns := hcols n List.mem_cons_self
    rw [hk, List.mem_singleton] at hmem
    rw [hmem]
  subst hns
  have hone : [name].length = [k].length := rfl
  obtain rfl := Parse.exec_semi hone hl hr hf
  rw [Parse.filter_eq_iff]
  refine forall₂_congr fun l _ => ?_
  have hmem : ((keyOf [name] l).nonNull = true ∧
      keyOf [name] l ∈ right.rows.map (keyOf [k])) ↔
      (l name).isSome = true ∧ l name ∈ right.rows.map fun r => r k := by
    refine and_congr ?_ ?_
    · rw [keyOf, List.map_singleton, Key.nonNull, List.all_cons, List.all_nil, Bool.and_true]
    · rw [List.mem_map, List.mem_map]
      refine exists_congr fun r => and_congr_right fun _ => ?_
      rw [keyOf, keyOf, List.map_singleton, List.map_singleton, List.cons_eq_cons, and_iff_left rfl]
  rw [decide_eq_decide.mpr hmem]
  exact semi_kept

/-- Where the column of the operand has its bare name, what matters is NULL. -/
theorem subquery_told {name : String} {table : Option String} {cols : List String} {negated : Bool}
    {rows : List (Row V)} {elems : List (Cell V)} (hname : resolve cols name table = some name) :
    (∀ l ∈ rows, SubKept negated elems ((resolve cols name table).bind l) (l name)) ↔
      (negated = true → OperandsTold (fun l => l name) rows elems) := by
  have hrow : ∀ l : Row V, SubKept negated elems ((resolve cols name table).bind l) (l name) ↔
      (negated = true → elems = [] ∨ (l name).isSome = true ∧ (none ∈ elems → l name ∈ elems)) :=
    fun l => by rw [hname, Option.bind_some, subKept_self]
  simp only [hrow, OperandsTold]
  by_cases hnil : elems = []
  · simp [hnil]
  · simp only [hnil, false_or]
    exact ⟨fun h hneg l hl => h l hl hneg, fun h l hl hneg => h hneg l hl⟩

end Main

/-- **When IN and NOT IN follow three-valued logic.**  With a list, unless it negates and holds a NULL:
then when all operands are NULL or in the list.  With a subquery, where nothing disturbs the run of the
join, and the column of the operand has its bare name: always, or, if it negates, when the operands are
told.  Where another column has the bare name: when every row is kept as it should be by its cell there. -/
theorem in_three_valued {S : Scalars V} (B : Booleans S) (D : Database V) (dev : Device V)
    (c : Cached V) :
    (∀ (e : Expr V) (vals : List (Cell V)) (negated : Bool) (p : Expr V) (df f : Frame V),
      lowerIn B e (vals.map .lit) negated = .ok p → filterFrame S df p = .ok f →
        (f = df.filter (fun r => keptIn negated (e.value S df.columns r) vals) ↔
          (negated = true → none ∈ vals →
            ∀ r ∈ df.rows, e.value S df.columns r = none ∨ e.value S df.columns r ∈ vals))) ∧
    (∀ (plan subplan node : PlanNode V) (name k : String) (table : Option String) (negated : Bool)
      (left right f : Frame V), inSubquery plan (.col name table) subplan negated = .ok node →
        exec S D plan = .ok left → exec S D subplan = .ok right → right.columns = [k] →
        Undisturbed S D dev node c → execute S D dev c node = .ok f →
        (resolve left.columns name table = some name →
          (f = left.filter (fun l => keptIn negated (l name) (right.rows.map fun r => r k)) ↔
            (negated = true →
              OperandsTold (fun l => l name) left.rows (right.rows.map fun r => r k)))) ∧
        (f = left.filter (fun l => keptIn negated ((resolve left.columns name table).bind l)
            (right.rows.map fun r => r k)) ↔
          ∀ l ∈ left.rows, SubKept negated (right.rows.map fun r => r k)
            ((resolve left.columns name table).bind l) (l name))) := by
  refine ⟨fun _ _ _ _ _ _ => list_kept, ?_⟩
  intro plan subplan node name k table negated left right f hn hl hr hk hcalm hf
  rw [execute_eq hcalm] at hf
  have hkept := subquery_kept hn hl hr hk hf
  refine ⟨fun hname => ?_, hkept⟩
  rw [subquery_told hname, hname] at hkept
  exact hkept

open Parse (natBooleans)

/-- `SELECT key FROM t` for a subquery. -/
def selectKey (t key : String) : PlanNode Nat := .project (.scan t none (some t)) [(.col key none, key)]

/-- `SELECT * FROM a WHERE k IN (1, NULL)` keeps the row with 1, and `SELECT * FROM a WHERE k NOT IN
(SELECT k2 FROM b)` the row whose key is not in `b`. -/
theorem in_three_valued_keys :
    (∃ p f, lowerIn natBooleans (.col "k" none) ([some 1, none].map .lit) false = .ok p ∧
      filterFrame natScalars rowsA p = .ok f ∧
      f = rowsA.filter (fun r => keptIn false ((Expr.col "k" none).value natScalars rowsA.columns r)
        [some 1, none])) ∧
    ∃ node f, inSubquery (.scan "a" none (some "a")) (.col "k" none) (selectKey "b" "k2") true =
        .ok node ∧ execute natScalars unevenTables plainDevice ∅ node = .ok f ∧
      f = rowsA.filter (fun l => keptIn true (l "k") [some 1]) := by
  have hlist : shown (filterFrame natScalars rowsA
      (inList natBooleans (.col "k" none) ([some 1, none].map .lit) false)) =
        some (["k"], [[some 1]]) := by decide
  obtain ⟨f, hf, -⟩ := returned_of_shown hlist
  obtain ⟨node, hnode, hcalm, hshown⟩ : ∃ node,
      inSubquery (.scan "a" none (some "a")) (.col "k" none) (selectKey "b" "k2") true = .ok node ∧
        Undisturbed natScalars unevenTables plainDevice node ∅ ∧
        shown (execute natScalars unevenTables plainDevice ∅ node) = some (["k"], [[some 2]]) :=
    ⟨_, rfl, undisturbed_join (fun _ => rfl) (fun _ => rfl) (.inl rfl) fun _ => .inl rfl,
      by decide⟩
  obtain ⟨g, hg, -⟩ := returned_of_shown hshown
  have hsub : shown (exec natScalars unevenTables (selectKey "b" "k2")) =
      some (["k2"], [[some 1]]) := by decide
  obtain ⟨right, hright, hcols, hcells⟩ := returned_of_shown hsub
  have hset : right.rows.map (fun r => r "k2") = [some 1] := by
    have hmap := congrArg (List.map fun k : Key Nat => k.headD none) hcells
    rw [List.map_map] at hmap
    exact hmap
  have hfirst := (in_three_valued natBooleans unevenTables plainDevice ∅).1 (.col "k" none)
    [some 1, none] false _ rowsA f rfl hf
  have hsecond := ((in_three_valued natBooleans unevenTables plainDevice ∅).2 _ _ node "k" "k2" none
    true rowsA right g hnode scan_rowsA hright hcols hcalm hg).1 rfl
  refine ⟨⟨_, f, rfl, hf, hfirst.mpr fun h => absurd h Bool.false_ne_true⟩, node, g, hnode, hg, ?_⟩
  rw [hset] at hsecond
  refine hsecond.mpr fun _ => .inr fun l hl => ?_
  have hsome : ∀ l ∈ rowsA.rows, (l "k").isSome = true := by decide
  exact ⟨hsome l hl, fun h => absurd h (by decide)⟩

/-- A table with a NULL. -/
def nullTable : Frame Nat := numbers ["k"] [[some 1], [none]]

/-- The database of one table. -/
def oneTable (t : String) (f : Frame Nat) (h : f.columns.Nodup) : Database Nat where
  tables := (∅ : Dict String (Frame Nat)).set t f
  nodup := by
    intro u g hg
    rw [Dict.get?_set] at hg
    split at hg
    · cases hg
      exact h
    · cases hg

/-- **NULLs that are not taken into account.**  `k NOT IN (2, NULL)` keeps the row with 1, and
`k NOT IN (SELECT k FROM t)`, over the table itself, the row whose key is NULL; SQL keeps none. -/
theorem null_neglected :
    (∃ p, lowerIn natBooleans (.col "k" none) ([some 2, none].map .lit) true = .ok p ∧
      shown (filterFrame natScalars nullTable p) = some (["k"], [[some 1]]) ∧
      ∀ r ∈ nullTable.rows, keptIn true (r "k") [some 2, none] = false) ∧
    ∃ node, inSubquery (.scan "t" none (some "t")) (.col "k" none) (selectKey "t" "k") true =
        .ok node ∧
      shown (execute natScalars (oneTable "t" nullTable (by decide)) plainDevice ∅ node) =
        some (["k"], [[none]]) ∧
      ∀ r ∈ nullTable.rows, keptIn true (r "k") [some 1, none] = false := by
  refine ⟨⟨_, rfl, by decide, by decide⟩, _, rfl, by decide, by decide⟩

end RyuDB.Sql
