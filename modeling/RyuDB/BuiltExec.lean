/-
# The engine around its cuDF path

`exec` runs a plan on the tables of a reader, operator by operator, by the cuDF path.  The engine does
more than that, and what it does more can show in a result:

* A scan of a table without pending rows returns the frame in `_scan_cache` itself.  `_fused_agg` without
  a mask writes the group keys, the ones of COUNT(*) and the arguments of the aggregates into the frame
  it is given, and over a bare scan that is the cached one: whoever reads the frame next finds these
  columns in it, and a group key whose name is among them is not computed again.
* An Aggregate over a Filter or over a Join is offered to the aggregation kernels first.  What they
  return need not be what the cuDF path returns (`FusedAgree`, `GroupCodes`).
* Over a Filter whose group keys hold no NULL, `_aggregate` folds the predicate into the keys, and then
  reads a key by its bare name.
* A cached frame is one object: while the right side of a join is computed, an aggregate there can write
  into the frame that the left side has returned.
* The operators put columns of their own beside those of their input, under names that nobody reserves.

`execBuilt` is `_exec` with all of this.  What the kernels answer, and what an operator makes of an
input that has a column of one of its own names, is a parameter (`Device`).  `Undisturbed` says of a plan
and the frames that are cached before it that nothing of the kind shows: every scan finds what the table
holds, and keeps it while the other side of a join is computed, an answer of the kernels is that of the
cuDF path, a key that is read by its bare name is the key, and no input has a column with an operator's
own name.  `execBuilt_eq` says that the plan then returns
what `exec` returns, so that everything that is proved about `exec` holds of the engine there.
-/
import RyuDB.Relational

namespace RyuDB.Sql

variable {V : Type}

/-! ## 1. What the engine does more -/

/-- `_scan_cache`: the frames by table and set of columns. -/
abbrev Cached (V : Type) := Dict (String × Option (List String)) (Frame V)

/-- The set of columns in a key of `_scan_cache`, listed in sorted order. -/
def scanKey : Option (List String) → Option (List String)
  | none => none
  | some [] => none
  | some (c :: cs) => some (sortedSet (c :: cs))

/-- What the engine has beside the tables: the tables with pending rows, whose scans are merged into a
frame of their own; the answers of the aggregation kernels, with the frames that are cached afterwards;
the aggregates `_fused_agg` computes in a single pass; and what an operator makes of an input with a
column of one of its own names. -/
structure Device (V : Type) where
  merged : String → Bool
  answer : Cached V → PlanNode V → Option (Frame V × Cached V)
  singlePass : List (AggFunc V × String) → Bool
  mixed : PlanNode V → List (Frame V) → Except DbError (Frame V)

/-- The name begins with these characters. -/
def beginsWith (p c : String) : Bool := p.toList.isPrefixOf c.toList

/-- The names of the columns a join adds to its sides and takes away again: `_semi_anti_join` the row
number, `_outer_join_with_predicate` the row numbers and the names of the keys. -/
def JoinOn.ownName (on : JoinOn V) (c : String) : Bool :=
  if on.how.isSemi then
    -- one key without a residual is looked up without a merge
    (decide (on.onLeft.length ≠ 1) || on.onPredicate.isSome) && c = "__lid"
  else on.how.isOuter && on.onPredicate.isSome &&
    (decide (c ∈ ["__lrid", "__rrid"]) || beginsWith "__ryu_l" c || beginsWith "__ryu_r" c)

/-- The names of the columns an operator adds to its input and takes away again. -/
def PlanNode.ownName : PlanNode V → String → Bool
  | .join _ _ on, c => on.ownName c
  | .aggregate _ keys _, c => !keys.isEmpty &&
      (decide (c = "__cnt") || beginsWith "__a_" c || beginsWith "__f_" c)
  | .window _ _, c => decide (c ∈ ["_pos", "_pid", "_nn", "_a0", "_arg", "_wc", "_wcv", "_gid", "_ord",
      "_wf"]) || beginsWith "_wp" c || beginsWith "_wo" c
  | .sort _ _, c => beginsWith "__sk" c
  | .setOp _ _ .except _, c => c = "_x"
  | _, _ => false

/-- The names that must not be an operator's own: the columns of its inputs and the ones it adds.  An
aggregate overwrites a column it does not read without harm, so there it is the names of the group keys
and the columns the aggregates refer to. -/
def PlanNode.namesMet (inputs : List (Frame V)) : PlanNode V → List String
  | .aggregate _ keys aggs =>
    keys.map Prod.snd ++ aggs.flatMap fun a => a.1.exprs.flatMap fun e => e.refs.map Prod.fst
  | .window _ funcs => inputs.flatMap Frame.columns ++ funcs.map Prod.snd
  | _ => inputs.flatMap Frame.columns

/-- A column beside those of the operator has one of its own names. -/
def PlanNode.clash (node : PlanNode V) (inputs : List (Frame V)) : Bool :=
  (node.namesMet inputs).any node.ownName

/-- An operator on its inputs. -/
def Device.apply (dev : Device V) (node : PlanNode V) (inputs : List (Frame V))
    (result : Except DbError (Frame V)) : Except DbError (Frame V) :=
  if node.clash inputs then dev.mixed node inputs else result

/-- The predicate has no column, and so a Python value for a mask. -/
def Expr.isConstant (e : Expr V) : Bool := e.refs.isEmpty

/-- The key in `_scan_cache` of the frame a plan returns, where it returns a cached frame itself. -/
def PlanNode.frameKey (S : Scalars V) : PlanNode V → Option (String × Option (List String))
  | .scan t columns _ => some (t, scanKey columns)
  | .derived input _ => input.frameKey S
  | .filter input p =>
    if p.isConstant && S.holds (p.value S [] nullRow) then input.frameKey S else none
  | .sort input [] => input.frameKey S
  | _ => none

/-- `_agg_has_filter` or `_agg_has_distinct`: the kernels are not asked. -/
def forcedFallback (aggs : List (AggFunc V × String)) : Bool :=
  aggs.any fun a => a.1.filter.isSome || a.1.distinct

/-- `_aggregate` offers the plan to the kernels: over a Filter, and a GROUP BY over a Join. -/
def offered (input : PlanNode V) (keys : List (Expr V × String)) : Bool :=
  match input with
  | .filter _ _ => true
  | .join _ _ _ => !keys.isEmpty
  | _ => false

/-- What the kernels answer, when they are asked. -/
def Device.tried (dev : Device V) (c : Cached V) (input : PlanNode V) (keys : List (Expr V × String))
    (aggs : List (AggFunc V × String)) : Option (Frame V × Cached V) :=
  if offered input keys && !forcedFallback aggs then dev.answer c (.aggregate input keys aggs) else none

/-- `_keys_nonnull`. -/
def keysNonnull (df : Frame V) (keys : List (Expr V × String)) : Bool :=
  keys.all fun k =>
    match k.1 with
    | .col name _ => decide (name ∈ df.columns) && df.rows.all fun r => (r name).isSome
    | _ => false

/-- `src[ge.name]`: the group keys without their qualifiers. -/
def bareKeys (keys : List (Expr V × String)) : List (Expr V × String) :=
  keys.map fun k =>
    match k.1 with
    | .col name _ => (.col name none, k.2)
    | _ => k

/-- A sort key is not a column of the sorted frame. -/
def needsSource (df : Frame V) (keys : List (Expr V × Bool)) : Bool :=
  !keys.isEmpty && !keys.all fun k => bareSafe df.columns k.1

/-- The keys `_aggregate` reads over a Filter. -/
def foldedKeys (child : Frame V) (p : Expr V) (keys : List (Expr V × String)) :
    List (Expr V × String) :=
  if !p.isConstant && keysNonnull child keys then bareKeys keys else keys

section Run

variable [DecidableEq V] (S : Scalars V) (D : Database V) (dev : Device V)

/-! ## 2. The frames it leaves behind -/

omit [DecidableEq V] in
/-- The columns of the single pass of `_fused_agg`: the ones, and the arguments of the aggregates with
NULL where their FILTER is not true. -/
def passColumns (work : Frame V) (aggs : List (AggFunc V × String)) : Frame V :=
  aggs.foldl (fun w a =>
    match a.1.arg, a.1.filter with
    | none, none => w
    | none, some p => withColumn w ("__f_" ++ a.2) fun r =>
        if passes S w.columns (some p) r then some S.one else none
    | some e, filter => withColumn w ("__a_" ++ a.2) fun r =>
        if passes S w.columns filter r then e.value S w.columns r else none)
    (withColumn work "__cnt" fun _ => some S.one)

omit [DecidableEq V] in
/-- The frame `_fused_agg` has worked on. -/
def workFrame (df : Frame V) (keys : List (Expr V × String)) (aggs : List (AggFunc V × String)) :
    Except DbError (Frame V) := do
  let work ← withKeys S df keys
  .ok (if dev.singlePass aggs && !aggs.isEmpty then passColumns S work aggs else work)

omit [DecidableEq V] in
/-- The cached frames after `_fused_agg` has worked on the frame of `source` itself. -/
def leftBehind (source : PlanNode V) (df : Frame V) (keys : List (Expr V × String))
    (aggs : List (AggFunc V × String)) (c : Cached V) : Cached V :=
  match source.frameKey S with
  | some key =>
    if dev.merged key.1 || keys.isEmpty then c
    else
      match workFrame S dev df keys aggs with
      | .ok work => c.set key work
      | .error _ => c
  | none => c

omit [DecidableEq V] in
/-- The frame of a left side once the right side has been computed: a cached frame is the same object. -/
def heldFrame (l : PlanNode V) (f : Frame V) (c : Cached V) : Frame V :=
  match l.frameKey S with
  | some key => if dev.merged key.1 then f else (c.get? key).getD f
  | none => f

/-! ## 3. The engine's way through a plan -/

omit [DecidableEq V] in
/-- `_scan`: the cached frame, or the table's, which is then cached. -/
def scanCached (t : String) (columns : Option (List String)) (c : Cached V) :
    Except DbError (Frame V × Cached V) :=
  match if dev.merged t then none else c.get? (t, scanKey columns) with
  | some f => .ok (f, c)
  | none => do
    let f ← D.scan t columns
    .ok (f, if dev.merged t then c else c.set (t, scanKey columns) f)

/-- `Engine._exec`, with the frames that are cached before and after. -/
def execBuilt : PlanNode V → Cached V → Except DbError (Frame V × Cached V)
  | .scan t columns _, c => scanCached D dev t columns c
  | .derived input _, c => execBuilt input c
  | .filter input p, c => do
    let x ← execBuilt input c
    let f ← filterFrame S x.1 p
    .ok (f, x.2)
  | .project input items, c => do
    let x ← execBuilt input c
    let f ← projectFrame S x.1 items
    .ok (f, x.2)
  | .join l r on, c => do
    let x ← execBuilt l c
    let y ← execBuilt r x.2
    let left := heldFrame S dev l x.1 y.2
    let f ← dev.apply (.join l r on) [left, y.1] (joinFrames S on l.sideAlias r.sideAlias left y.1)
    .ok (f, y.2)
  | .aggregate input keys aggs, c =>
    match dev.tried c input keys aggs with
    | some x => .ok x
    | none =>
      match input with
      | .filter below p => do
        let x ← execBuilt below c
        let df ← filterFrame S x.1 p
        let f ← dev.apply (.aggregate (.filter below p) keys aggs) [df]
          (aggregateFrame S df (foldedKeys x.1 p keys) aggs)
        .ok (f, leftBehind S dev (.filter below p) df keys aggs x.2)
      | input => do
        let x ← execBuilt input c
        let f ← dev.apply (.aggregate input keys aggs) [x.1] (aggregateFrame S x.1 keys aggs)
        .ok (f, leftBehind S dev input x.1 keys aggs x.2)
  | .window input funcs, c => do
    let x ← execBuilt input c
    let f ← dev.apply (.window input funcs) [x.1] (windowFrame S x.1 funcs)
    .ok (f, x.2)
  | .sort input keys, c => do
    let x ← execBuilt input c
    -- for a key that was not projected, the frame before the projection is computed once more
    let y ← (match input with
      | .project below _ => if needsSource x.1 keys then execBuilt below x.2 else .ok x
      | _ => .ok x)
    let f ← dev.apply (.sort input keys) [x.1] (sortFrame S x.1 keys (.ok y.1))
    .ok (f, y.2)
  | .limit input n offset, c => do
    let x ← execBuilt input c
    .ok (limitFrame x.1 n offset, x.2)
  | .distinct input, c => do
    let x ← execBuilt input c
    .ok (dropDuplicates x.1, x.2)
  | .setOp l r op d, c => do
    let x ← execBuilt l c
    let y ← execBuilt r x.2
    let left := heldFrame S dev l x.1 y.2
    let f ← dev.apply (.setOp l r op d) [left, y.1] (setopFrames op d left y.1)
    .ok (f, y.2)

/-! ## 4. Where nothing of it shows -/

omit [DecidableEq V] in
/-- An aggregate over a Filter reads its keys by their bare names, and these are the keys. -/
def KeysMeant (child df : Frame V) (p : Expr V) (keys : List (Expr V × String)) : Prop :=
  withKeys S df (foldedKeys child p keys) = withKeys S df keys

/-- The columns an earlier aggregate has written into the frame of a cached table change nothing for this
one: none of them is read by it, or only as the group key it has been written for. -/
def ReadsThrough (input : PlanNode V) (keys : List (Expr V × String)) (aggs : List (AggFunc V × String))
    (c : Cached V) : Prop :=
  ∃ x df, execBuilt S D dev input c = .ok x ∧ exec S D input = .ok df ∧
    aggregateFrame S x.1 keys aggs = aggregateFrame S df keys aggs

/-- **Nothing shows** in the run of a plan from these cached frames: every scan finds what the table
holds, or the aggregate over it reads through what an earlier one has written; the frame of a left side
is left alone by the right side; an answer of the kernels is that of the cuDF path; a folded key is the
key it stands for; and no operator meets a column with one of its own names. -/
def Undisturbed : PlanNode V → Cached V → Prop
  | .scan t columns _, c => dev.merged t = true ∨
      ∀ f, c.get? (t, scanKey columns) = some f → D.scan t columns = .ok f
  | .derived input _, c => Undisturbed input c
  | .filter input _, c => Undisturbed input c
  | .project input _, c => Undisturbed input c
  | .join l r on, c => Undisturbed l c ∧ ∀ x, execBuilt S D dev l c = .ok x →
      Undisturbed r x.2 ∧ ∀ y, execBuilt S D dev r x.2 = .ok y →
        heldFrame S dev l x.1 y.2 = x.1 ∧ PlanNode.clash (.join l r on) [x.1, y.1] = false
  | .aggregate input keys aggs, c =>
    match dev.tried c input keys aggs with
    | some x => exec S D (.aggregate input keys aggs) = .ok x.1
    | none =>
      match input with
      | .filter below p => Undisturbed below c ∧ ∀ x, execBuilt S D dev below c = .ok x →
          ∀ df, filterFrame S x.1 p = .ok df →
            PlanNode.clash (.aggregate (.filter below p) keys aggs) [df] = false ∧
              KeysMeant S x.1 df p keys
      | input => (Undisturbed input c ∨ ReadsThrough S D dev input keys aggs c) ∧
          ∀ x, execBuilt S D dev input c = .ok x →
            PlanNode.clash (.aggregate input keys aggs) [x.1] = false
  | .window input funcs, c => Undisturbed input c ∧ ∀ x, execBuilt S D dev input c = .ok x →
      PlanNode.clash (.window input funcs) [x.1] = false
  | .sort input keys, c => Undisturbed input c ∧ ∀ x, execBuilt S D dev input c = .ok x →
      PlanNode.clash (.sort input keys) [x.1] = false ∧
        match input with
        | .project below _ => needsSource x.1 keys = true → Undisturbed below x.2
        | _ => True
  | .limit input _ _, c => Undisturbed input c
  | .distinct input, c => Undisturbed input c
  | .setOp l r op d, c => Undisturbed l c ∧ ∀ x, execBuilt S D dev l c = .ok x →
      Undisturbed r x.2 ∧ ∀ y, execBuilt S D dev r x.2 = .ok y →
        heldFrame S dev l x.1 y.2 = x.1 ∧ PlanNode.clash (.setOp l r op d) [x.1, y.1] = false

/-- `Engine.execute`: what comes back for a plan, from these cached frames. -/
def execute (c : Cached V) (p : PlanNode V) : Except DbError (Frame V) :=
  (execBuilt S D dev p c).map Prod.fst

end Run

/-! ## 5. The same results -/

section Same

variable [DecidableEq V] {S : Scalars V} {D : Database V} {dev : Device V}

omit [DecidableEq V] in
/-- A step on a frame, after a plan whose results agree. -/
theorem map_bind_fst {x : Except DbError (Frame V × Cached V)} {y : Except DbError (Frame V)}
    {g : Frame V × Cached V → Except DbError (Frame V × Cached V)}
    {k : Frame V → Except DbError (Frame V)} (h : x.map Prod.fst = y)
    (hk : ∀ a, x = .ok a → (g a).map Prod.fst = k a.1) :
    (x >>= g).map Prod.fst = y >>= k := by
  subst h
  cases hx : x with
  | error e => rfl
  | ok a => exact hk a hx

omit [DecidableEq V] in
/-- A step on frames, whatever it leaves in the cache. -/
theorem map_pair (y : Except DbError (Frame V)) (c : Frame V → Cached V) :
    (y >>= fun f => Except.ok (f, c f)).map Prod.fst = y := by
  cases y <;> rfl

omit [DecidableEq V] in
theorem apply_of_noClash {node : PlanNode V} {inputs : List (Frame V)}
    {result : Except DbError (Frame V)} (h : node.clash inputs = false) :
    dev.apply node inputs result = result := by
  rw [Device.apply, h, if_neg Bool.false_ne_true]

omit [DecidableEq V] in
/-- A scan that finds what the table holds. -/
theorem scanCached_eq {t : String} {columns : Option (List String)} {c : Cached V}
    (h : dev.merged t = true ∨ ∀ f, c.get? (t, scanKey columns) = some f → D.scan t columns = .ok f) :
    (scanCached D dev t columns c).map Prod.fst = D.scan t columns := by
  unfold scanCached
  split
  · rename_i f hf
    cases hm : dev.merged t with
    | true =>
      rw [hm, if_pos rfl] at hf
      cases hf
    | false =>
      rw [hm, if_neg Bool.false_ne_true] at hf
      exact (h.resolve_left (ne_of_eq_of_ne hm Bool.false_ne_true) f hf).symm
  · exact map_pair _ fun f => if dev.merged t = true then c else c.set (t, scanKey columns) f

omit [DecidableEq V] in
/-- Sorting by columns of the frame does not look at the frame before the projection. -/
theorem sortFrame_source {df : Frame V} {keys : List (Expr V × Bool)}
    (h : needsSource df keys = false) (src src' : Except DbError (Frame V)) :
    sortFrame S df keys src = sortFrame S df keys src' := by
  unfold sortFrame
  split
  · rfl
  · rename_i hne
    have hall : (keys.all fun k => bareSafe df.columns k.1) = true := by
      simpa [needsSource, hne] using h
    simp only [sortPairs, hall, if_true]

omit [DecidableEq V] in
/-- Sorting by other keys needs the frame before the projection. -/
theorem sortFrame_error {df : Frame V} {keys : List (Expr V × Bool)}
    (h : needsSource df keys = true) (e : DbError) :
    sortFrame S df keys (.error e) = .error e := by
  rw [needsSource, Bool.and_eq_true, Bool.not_eq_true', Bool.not_eq_true'] at h
  simp only [sortFrame, sortPairs, h.1, h.2, Bool.false_eq_true, if_false]
  rfl

omit [DecidableEq V] in
/-- Folding changes no name of a key. -/
theorem map_snd_foldedKeys (child : Frame V) (p : Expr V) (keys : List (Expr V × String)) :
    (foldedKeys child p keys).map Prod.snd = keys.map Prod.snd := by
  unfold foldedKeys bareKeys
  split
  · rw [List.map_map]
    refine List.map_congr_left fun k _ => ?_
    dsimp only [Function.comp_apply]
    split <;> rfl
  · rfl

/-- An aggregate by folded keys that are the keys. -/
theorem aggregateFrame_folded {child df : Frame V} {p : Expr V} {keys : List (Expr V × String)}
    (h : KeysMeant S child df p keys) (aggs : List (AggFunc V × String)) :
    aggregateFrame S df (foldedKeys child p keys) aggs = aggregateFrame S df keys aggs := by
  have hsnd := map_snd_foldedKeys child p keys
  have hempty : (foldedKeys child p keys).isEmpty = keys.isEmpty := by
    rw [← List.isEmpty_map (f := Prod.snd), hsnd, List.isEmpty_map]
  have hfused : ∀ work, fusedAgg S work (foldedKeys child p keys) aggs = fusedAgg S work keys aggs := by
    intro work
    simp only [fusedAgg, aggColumns, aggNames, hsnd]
  unfold aggregateFrame
  rw [show withKeys S df (foldedKeys child p keys) = withKeys S df keys from h]
  simp only [hempty, hfused]

/-- An aggregate of a frame. -/
theorem exec_aggregate {input : PlanNode V} {df : Frame V} (h : exec S D input = .ok df)
    (keys : List (Expr V × String)) (aggs : List (AggFunc V × String)) :
    exec S D (.aggregate input keys aggs) = aggregateFrame S df keys aggs := by
  rw [exec, h]
  rfl

/-- **Where nothing shows, the engine returns what the cuDF path returns.** -/
theorem execBuilt_eq : ∀ (p : PlanNode V) (c : Cached V), Undisturbed S D dev p c →
    (execBuilt S D dev p c).map Prod.fst = exec S D p
  | .scan _ _ _, _, h => scanCached_eq h
  | .derived input _, c, h => execBuilt_eq input c h
  | .filter input _, c, h => map_bind_fst (execBuilt_eq input c h) fun _ _ => map_pair _ fun _ => _
  | .project input _, c, h => map_bind_fst (execBuilt_eq input c h) fun _ _ => map_pair _ fun _ => _
  | .join l r _, c, ⟨hl, hr⟩ => by
    refine map_bind_fst (execBuilt_eq l c hl) fun x hx => ?_
    obtain ⟨hr, hafter⟩ := hr x hx
    refine map_bind_fst (execBuilt_eq r x.2 hr) fun y hy => ?_
    obtain ⟨hheld, hclash⟩ := hafter y hy
    simp only [hheld, apply_of_noClash hclash]
    exact map_pair _ fun _ => _
  | .aggregate input keys aggs, c, h => by
    unfold Undisturbed at h
    unfold execBuilt
    cases htried : dev.tried c input keys aggs with
    | some x =>
      rw [htried] at h
      exact h.symm
    | none =>
      rw [htried] at h
      have hin := execBuilt_eq input c
      cases input with
      | filter below p =>
        obtain ⟨hbelow, hafter⟩ := h
        have hfilter := hin hbelow
        rw [exec, ← hfilter]
        simp only [execBuilt]
        cases hx : execBuilt S D dev below c with
        | error e => rfl
        | ok x =>
          cases hdf : filterFrame S x.1 p with
          | error e =>
            simp only [bind, Except.bind, hdf]
            rfl
          | ok df =>
            obtain ⟨hclash, hkeys⟩ := hafter x hx df hdf
            have hsame : aggregateFrame S df (foldedKeys x.1 p keys) aggs =
                aggregateFrame S df keys aggs := aggregateFrame_folded hkeys aggs
            simp only [bind, Except.bind, hdf, apply_of_noClash hclash, hsame]
            exact map_pair _ fun _ => _
      | _ =>
        obtain ⟨hin' | ⟨x, df, hx, hdf, hsame⟩, hclash⟩ := h
        · refine map_bind_fst (hin hin') fun x hx => ?_
          rw [apply_of_noClash (hclash x hx)]
          exact map_pair _ fun _ => _
        · rw [exec_aggregate hdf, ← hsame]
          simp only [hx, bind, Except.bind, apply_of_noClash (hclash x hx)]
          exact map_pair _ fun _ => _
  | .window input _, c, ⟨h, hclash⟩ => by
    refine map_bind_fst (execBuilt_eq input c h) fun x hx => ?_
    rw [apply_of_noClash (hclash x hx)]
    exact map_pair _ fun _ => _
  | .sort input keys, c, h => by
    unfold Undisturbed at h
    obtain ⟨h, hafter⟩ := h
    rw [exec_sort]
    unfold execBuilt
    refine map_bind_fst (execBuilt_eq input c h) fun x hx => ?_
    obtain ⟨hclash, hbelow⟩ := hafter x hx
    simp only [apply_of_noClash hclash]
    cases hneeds : needsSource x.1 keys with
    | false =>
      cases input <;> exact (map_pair _ fun _ => x.2).trans (sortFrame_source hneeds _ _)
    | true =>
      cases input with
      | project below items =>
        have hsame := execBuilt_eq below x.2 (hbelow hneeds)
        simp only [if_true, sortSource, ← hsame]
        cases execBuilt S D dev below x.2 with
        | error e => exact (sortFrame_error hneeds e).symm
        | ok y => exact map_pair _ fun _ => y.2
      | _ => exact map_pair _ fun _ => x.2
  | .limit input _ _, c, h => map_bind_fst (execBuilt_eq input c h) fun _ _ => rfl
  | .distinct input, c, h => map_bind_fst (execBuilt_eq input c h) fun _ _ => rfl
  | .setOp l r _ _, c, ⟨hl, hr⟩ => by
    refine map_bind_fst (execBuilt_eq l c hl) fun x hx => ?_
    obtain ⟨hr, hafter⟩ := hr x hx
    refine map_bind_fst (execBuilt_eq r x.2 hr) fun y hy => ?_
    obtain ⟨hheld, hclash⟩ := hafter y hy
    simp only [hheld, apply_of_noClash hclash]
    exact map_pair _ fun _ => _

/-- The same, of what `Engine.execute` returns. -/
theorem execute_eq {p : PlanNode V} {c : Cached V} (h : Undisturbed S D dev p c) :
    execute S D dev c p = exec S D p := execBuilt_eq p c h

/-! ## 6. Operators without names of their own -/

omit [DecidableEq V] in
theorem noClash {node : PlanNode V} (h : ∀ c, node.ownName c = false) (inputs : List (Frame V)) :
    node.clash inputs = false :=
  List.any_eq_false.mpr fun c _ => by rw [h c]; exact Bool.false_ne_true

theorem undisturbed_scan {t : String} (h : dev.merged t = true) (columns : Option (List String))
    (a : Option String) (c : Cached V) : Undisturbed S D dev (.scan t columns a) c := Or.inl h

omit [DecidableEq V] in
/-- Frames that are merged for the scan are nobody else's. -/
theorem heldFrame_merged (h : ∀ t, dev.merged t = true) (l : PlanNode V) (f : Frame V) (c : Cached V) :
    heldFrame S dev l f c = f := by
  unfold heldFrame
  split
  · rw [h, if_pos rfl]
  · rfl

/-- A join that is computed by one merge, of tables with pending rows. -/
theorem undisturbed_join {l r : PlanNode V} {on : JoinOn V} {c : Cached V}
    (hown : ∀ n, (PlanNode.join l r on).ownName n = false) (hm : ∀ t, dev.merged t = true)
    (hl : Undisturbed S D dev l c) (hr : ∀ c, Undisturbed S D dev r c) :
    Undisturbed S D dev (.join l r on) c :=
  ⟨hl, fun x _ => ⟨hr x.2, fun y _ => ⟨heldFrame_merged hm l x.1 y.2, noClash hown _⟩⟩⟩

end Same

/-- Tables with pending rows, and kernels that answer nothing. -/
def plainDevice : Device Nat :=
  ⟨fun _ => true, fun _ _ => none, fun _ => true, fun _ _ => .error (.value "own name")⟩

end RyuDB.Sql
