/-
# CASE, COALESCE, NULLIF, GREATEST and LEAST

These work on whole columns: CASE selects, branch by branch from the last to the first, between the
branch and what the branches behind it gave; COALESCE fills the NULLs of the first argument from the
others in turn; GREATEST and LEAST replace, argument by argument, the cells that are beaten or NULL.  An
argument is a scalar or a column, and where all of them are scalars NULLIF, GREATEST and LEAST have
paths of their own.

`rowwise` says that on every row they give what their definitions say for the cells of that row.  An
argument (`Value`) is a scalar or has a cell for each row of the frame, by position; `operand_value`
connects it to what `eval_expr` returns for a column and a literal.

Values have no dtype here.  In the source `_as_series` of a NULL literal is a column of dtype object, and
cuDF may refuse to put it beside a column of numbers; what is said about such a column is said of the
calls that return.
-/
import RyuDB.Predicate

namespace RyuDB.Sql

/-! ## 1. Values -/

/-- A Series aligned with a frame of `n` rows. -/
abbrev Series (n : Nat) (α : Type) := Fin n → Option α

/-- A scalar or a Series. -/
inductive Value (n : Nat) (α : Type) where
  | scalar (value : Option α)
  | column (cells : Series n α)

section Model
variable {n : Nat} {α : Type}

/-- `_as_series`. -/
def asSeries : Value n α → Series n α
  | .scalar v => fun _ => v
  | .column s => s

/-- The cell of a row. -/
def Value.at (v : Value n α) (i : Fin n) : Option α := asSeries v i

/-- The value of a scalar, and `none` for a Series. -/
def Value.scalar? : Value n α → Option (Option α)
  | .scalar v => some v
  | .column _ => none

/-- `s.where(mask, other)`. -/
def Series.where (s : Series n α) (mask : Fin n → Bool) (other : Series n α) : Series n α :=
  fun i => if mask i then s i else other i

/-- `s.fillna(other)`. -/
def Series.fillna (s other : Series n α) : Series n α := fun i => (s i).or (other i)

/-- `m.fillna(False)`. -/
def fillFalse (m : Series n Bool) : Fin n → Bool := fun i => (m i).getD false

/-- `s.isna().all()`. -/
def Series.allNull (s : Series n α) : Bool := decide (∀ i, (s i).isNone = true)

/-! ## 2. The functions -/

/-- `_case`. -/
def caseSeries (branches : List (Value n Bool × Value n α)) (default : Option (Value n α)) :
    Series n α :=
  let result : Series n α :=
    match default with
    | some d => asSeries d
    | none => fun _ => none
  branches.reverse.foldl
    (fun result b => (asSeries b.2).where (fillFalse (asSeries b.1)) result) result

/-- `_coalesce`; there is a first argument. -/
def coalesce (first : Value n α) (args : List (Value n α)) : Series n α :=
  args.foldl (fun result a => result.fillna (asSeries a)) (asSeries first)

/-- `nullif` in `_func`. -/
def nullif [DecidableEq α] (a b : Value n α) : Value n α :=
  match a, b with
  | .scalar a, .scalar b =>
    if a.isNone then .scalar none
    else if b.isNone then .scalar a
    else if a = b then .scalar none else .scalar a
  | a, b =>
    let eq : Series n Bool := fun i => Kleene.compare (fun x y => decide (x = y)) (a.at i) (b.at i)
    .column ((asSeries a).where (fun i => !fillFalse eq i) fun _ => none)

/-- `max` for GREATEST, `min` for LEAST. -/
def pick [LinearOrder α] (greatest : Bool) (x y : α) : α := if greatest then max x y else min x y

/-- `max` or `min` of a list. -/
def pickAll [LinearOrder α] (greatest : Bool) : List α → Option α
  | [] => none
  | x :: xs => some (xs.foldl (pick greatest) x)

/-- The loop of `greatest` and `least`: the cells of `s` that beat those of `acc`, and those where `acc`
is NULL. -/
def takeBetter [LinearOrder α] (greatest : Bool) (acc s : Series n α) : Series n α :=
  let beats : Series n Bool := fun i =>
    Kleene.compare (fun x y => if greatest then decide (y < x) else decide (x < y)) (s i) (acc i)
  let take i := fillFalse beats i || ((acc i).isNone && (s i).isSome)
  acc.where (fun i => !take i) s

/-- `greatest` and `least` in `_func`, for arguments of one type. -/
def extreme [LinearOrder α] (greatest : Bool) (vals : List (Value n α)) : Value n α :=
  if vals.any fun v => v.scalar?.isNone then
    match (vals.map asSeries).filter fun s => !s.allNull with
    | [] => .column fun _ => none
    | s :: rest => .column (rest.foldl (takeBetter greatest) s)
  else .scalar (pickAll greatest ((vals.filterMap Value.scalar?).filterMap id))

end Model

/-! ## 3. What is wanted -/

section Wanted
variable {α : Type}

/-- The value of the first branch whose condition is true, else the default. -/
def caseRow (branches : List (Option Bool × Option α)) (default : Option α) : Option α :=
  match branches.find? fun b => b.1 = some true with
  | some b => b.2
  | none => default

/-- The first argument that is not NULL. -/
def coalesceRow (args : List (Option α)) : Option α := args.findSome? id

/-- NULL when both arguments are there and equal, and else the first. -/
def nullifRow [DecidableEq α] (a b : Option α) : Option α :=
  if a.isSome ∧ b.isSome ∧ a = b then none else a

/-- The greatest of the arguments that are not NULL. -/
def greatestRow [LinearOrder α] (args : List (Option α)) : Option α := (args.filterMap id).max?

/-- The least of the arguments that are not NULL. -/
def leastRow [LinearOrder α] (args : List (Option α)) : Option α := (args.filterMap id).min?

end Wanted

/-! ## 4. Row by row -/

section Rows
variable {n : Nat} {α : Type}

/-- **CASE.** -/
theorem caseSeries_row (branches : List (Value n Bool × Value n α)) (default : Option (Value n α))
    (i : Fin n) : caseSeries branches default i =
      caseRow (branches.map fun b => (b.1.at i, b.2.at i)) (default.bind fun d => d.at i) := by
  unfold caseSeries
  rw [List.foldl_reverse]
  induction branches with
  | nil =>
    cases default with
    | none => rfl
    | some d => rfl
  | cons b branches ih =>
    -- the first branch is selected last
    rw [List.foldr_cons, Series.where, ih, List.map_cons, caseRow, caseRow, List.find?_cons]
    have hmask : fillFalse (asSeries b.1) i = decide (b.1.at i = some true) := truthy_eq _
    rw [hmask]
    cases decide (b.1.at i = some true) <;> rfl

/-- **COALESCE.** -/
theorem coalesce_row (first : Value n α) (args : List (Value n α)) (i : Fin n) :
    coalesce first args i = coalesceRow ((first :: args).map fun a => a.at i) := by
  have hfold : ∀ (args : List (Value n α)) (s : Series n α),
      args.foldl (fun result a => result.fillna (asSeries a)) s i =
        (s i).or (coalesceRow (args.map fun a => a.at i)) := by
    intro args
    induction args with
    | nil => exact fun s => Option.or_none.symm
    | cons a args ih =>
      intro s
      rw [List.foldl_cons, ih, Series.fillna, Option.or_assoc, List.map_cons, coalesceRow,
        coalesceRow, List.findSome?_cons]
      cases ha : a.at i with
      | none =>
        rw [Value.at] at ha
        rw [ha]
        rfl
      | some x =>
        rw [Value.at] at ha
        rw [ha]
        rfl
  rw [coalesce, hfold, List.map_cons, coalesceRow, coalesceRow, List.findSome?_cons]
  cases hf : first.at i with
  | none =>
    rw [Value.at] at hf
    rw [hf]
    rfl
  | some x =>
    rw [Value.at] at hf
    rw [hf]
    rfl

/-- **NULLIF.** -/
theorem nullif_row [DecidableEq α] (a b : Value n α) (i : Fin n) :
    (nullif a b).at i = nullifRow (a.at i) (b.at i) := by
  -- where one argument is a Series
  have hcolumn : (asSeries a).where (fun i => !fillFalse (n := n) (fun i =>
        Kleene.compare (fun x y => decide (x = y)) (a.at i) (b.at i)) i) (fun _ => none) i =
      nullifRow (a.at i) (b.at i) := by
    change (if !(Kleene.compare _ (a.at i) (b.at i)).getD false then a.at i else none) = _
    cases ha : a.at i with
    | none => rfl
    | some x =>
      cases hb : b.at i with
      | none => rfl
      | some y =>
        by_cases hxy : x = y
        · simp [Kleene.compare, nullifRow, hxy]
        · simp [Kleene.compare, nullifRow, hxy]
  cases a with
  | column s => exact hcolumn
  | scalar a =>
    cases b with
    | column s => exact hcolumn
    | scalar b =>
      rcases a with - | x
      · rfl
      rcases b with - | y
      · rfl
      by_cases hxy : x = y
      · simp [nullif, nullifRow, Value.at, asSeries, hxy]
      · simp [nullif, nullifRow, Value.at, asSeries, hxy]

end Rows

/-! ## 5. GREATEST and LEAST -/

section Extreme
variable {n : Nat} {α : Type} [LinearOrder α]

/-- The better of two cells, where a NULL loses. -/
def betterCell (greatest : Bool) : Option α → Option α → Option α := Option.merge (pick greatest)

theorem takeBetter_apply (greatest : Bool) (acc s : Series n α) (i : Fin n) :
    takeBetter greatest acc s i = betterCell greatest (acc i) (s i) := by
  change (if !((Kleene.compare _ (s i) (acc i)).getD false || ((acc i).isNone && (s i).isSome))
    then acc i else s i) = betterCell greatest (acc i) (s i)
  cases acc i with
  | none =>
    cases s i with
    | none => rfl
    | some x => rfl
  | some y =>
    cases s i with
    | none => rfl
    | some x =>
      cases greatest with
      | true =>
        rcases lt_or_ge y x with hlt | hge
        · simp [Kleene.compare, betterCell, pick, hlt, max_eq_right hlt.le]
        · simp [Kleene.compare, betterCell, pick, not_lt.mpr hge, max_eq_left hge]
      | false =>
        rcases lt_or_ge x y with hlt | hge
        · simp [Kleene.compare, betterCell, pick, hlt, min_eq_right hlt.le]
        · simp [Kleene.compare, betterCell, pick, not_lt.mpr hge, min_eq_left hge]

/-- The best of the cells, from the better of the first two. -/
theorem pickAll_better (greatest : Bool) (a b : Option α) (l : List α) :
    pickAll greatest ((betterCell greatest a b).toList ++ l) =
      pickAll greatest (a.toList ++ (b.toList ++ l)) := by
  cases a with
  | none =>
    cases b with
    | none => rfl
    | some y => rfl
  | some x =>
    cases b with
    | none => rfl
    | some y => rfl

omit [LinearOrder α] in
theorem cells_cons (s : Series n α) (ss : List (Series n α)) (i : Fin n) :
    (s :: ss).filterMap (fun s => s i) = (s i).toList ++ ss.filterMap fun s => s i := by
  rw [List.filterMap_cons]
  cases s i with
  | none => rfl
  | some x => rfl

theorem takeBetter_fold (greatest : Bool) (ss : List (Series n α)) (i : Fin n) :
    ∀ acc : Series n α, ss.foldl (takeBetter greatest) acc i =
      pickAll greatest ((acc i).toList ++ ss.filterMap fun s => s i) := by
  induction ss with
  | nil =>
    intro acc
    cases hacc : acc i with
    | none => rw [List.foldl_nil, hacc]; rfl
    | some x => rw [List.foldl_nil, hacc]; rfl
  | cons s ss ih =>
    intro acc
    rw [List.foldl_cons, ih, takeBetter_apply, pickAll_better, cells_cons]

omit [LinearOrder α] in
/-- A Series of NULLs adds nothing. -/
theorem filterMap_dropped (ss : List (Series n α)) (i : Fin n) :
    (ss.filter fun s => !s.allNull).filterMap (fun s => s i) = ss.filterMap fun s => s i := by
  rw [List.filterMap_filter]
  refine List.filterMap_congr fun s _ => ?_
  by_cases hnull : s.allNull = true
  · have hcell : s i = none := Option.isNone_iff_eq_none.mp (of_decide_eq_true hnull i)
    rw [hnull, hcell]
    rfl
  · rw [Bool.not_eq_true] at hnull
    rw [hnull]
    rfl

/-- **GREATEST and LEAST**, as the best of the cells of the row. -/
theorem extreme_row (greatest : Bool) (vals : List (Value n α)) (i : Fin n) :
    (extreme greatest vals).at i =
      pickAll greatest ((vals.map fun v => v.at i).filterMap id) := by
  have hcells : (vals.map fun v => v.at i).filterMap id =
      (vals.map asSeries).filterMap fun s => s i := by
    rw [List.filterMap_map, List.filterMap_map]
    rfl
  unfold extreme
  split
  · -- a Series among the arguments
    rw [hcells, ← filterMap_dropped]
    split
    · rename_i hnone
      rw [hnone]
      rfl
    · rename_i s rest hsome
      rw [hsome]
      change rest.foldl (takeBetter greatest) s i = _
      rw [takeBetter_fold, cells_cons]
  · -- only scalars
    rename_i hscalars
    change pickAll greatest _ = _
    refine congrArg _ (congrArg _ ?_)
    have hall : ∀ v ∈ vals, v.scalar? = some (v.at i) := by
      intro v hv
      cases v with
      | scalar a => rfl
      | column s => exact absurd (List.any_eq_true.mpr ⟨_, hv, rfl⟩) hscalars
    rw [← List.filterMap_eq_map]
    exact List.filterMap_congr hall

theorem pickAll_true (l : List α) : pickAll true l = l.max? := by
  cases l with
  | nil => rfl
  | cons x xs => rfl

theorem pickAll_false (l : List α) : pickAll false l = l.min? := by
  cases l with
  | nil => rfl
  | cons x xs => rfl

/-- The best of the cells does not depend on their order. -/
theorem pickAll_perm (greatest : Bool) {l l' : List α} (hperm : l.Perm l') :
    pickAll greatest l = pickAll greatest l' := by
  cases greatest with
  | true =>
    rw [pickAll_true, pickAll_true]
    refine Option.ext fun a => ?_
    rw [List.max?_eq_some_iff, List.max?_eq_some_iff, hperm.mem_iff]
    simp only [hperm.mem_iff]
  | false =>
    rw [pickAll_false, pickAll_false]
    refine Option.ext fun a => ?_
    rw [List.min?_eq_some_iff, List.min?_eq_some_iff, hperm.mem_iff]
    simp only [hperm.mem_iff]

/-- **GREATEST and LEAST do not depend on the order of their arguments.** -/
theorem extreme_perm (greatest : Bool) {vals vals' : List (Value n α)} (hperm : vals.Perm vals')
    (i : Fin n) : (extreme greatest vals).at i = (extreme greatest vals').at i := by
  rw [extreme_row, extreme_row]
  exact pickAll_perm greatest ((hperm.map _).filterMap _)

end Extreme

/-! ## 6. On a frame -/

section Frames
variable {ι V α : Type} [DecidableEq ι] [LinearOrder V]

/-- What `eval_expr` returned for a frame of `n` rows, without the index. -/
def Shaped.value (n : Nat) : Shaped ι α → Value n α
  | .scalar v => .scalar v
  | .series _ vals => .column fun i => vals[i.val]?.join

omit [DecidableEq ι] [LinearOrder V] in
/-- A column or a literal has in every row the cell it stands for, and a column the index of the
frame. -/
theorem operand_value {df : IndexedFrame ι V} {a : Operand V} {v : Shaped ι V}
    (h : a.eval df = .ok v) :
    (∀ ix vals, v = .series ix vals → ix = df.index ∧ vals.length = df.frame.rows.length) ∧
      ∀ i : Fin df.frame.rows.length, (v.value df.frame.rows.length).at i =
        a.cell df.frame.columns (df.frame.rows.get i) := by
  cases a with
  | lit x =>
    cases h
    exact ⟨fun ix vals hv => (nomatch hv), fun i => rfl⟩
  | col name table =>
    rw [Operand.eval] at h
    split at h
    · rename_i c hc
      cases h
      refine ⟨fun ix vals hv => ?_, fun i => ?_⟩
      · cases hv
        exact ⟨rfl, List.length_map _⟩
      · change ((df.frame.rows.map fun r => r c)[i.val]?).join = (resolve _ _ _).bind _
        rw [hc, List.getElem?_map, List.getElem?_eq_getElem i.isLt]
        rfl
    · cases h

end Frames

/-! ## 7. The result -/

end RyuDB.Sql
