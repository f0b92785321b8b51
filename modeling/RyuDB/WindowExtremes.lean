/-
# Running MIN and MAX

`_window_running_minmax` takes the running extreme of every partition, fills it forwards over the rows
whose argument is NULL, and reads it at the end of every row's frame, by absolute position.

* `runningExtreme`: the values are those of SQL exactly when the argument is a Series and every row is
  `Shielded`: its frame holds an argument, or what is read for it instead stands where there are only
  NULLs so far.

The fill does not stop at the first row of a partition, and a row whose frame is empty reads above its
partition, or from the end of the frame.

`Shielded` is about one row, and has a disjunct for each way in which a wrong read may be harmless:
the frame of the row has an argument, so that the fill stays in its partition; or there is no
argument in the partitions above; or the frame is empty and what is read for it is NULL.
-/
import RyuDB.WindowRunning

namespace RyuDB

namespace Windows

variable {V K : Type} [LinearOrder V] [LinearOrder K]

/-! ## 1. The columns -/

/-- MIN or MAX. -/
inductive ExtremeFunc where
  | min
  | max
  deriving DecidableEq, Repr

/-- The aggregate as `_build_frame` is given it. -/
def ExtremeFunc.run : ExtremeFunc → RunFunc
  | .min => .min
  | .max => .max

/-- The better of two values. -/
def ExtremeFunc.best (f : ExtremeFunc) (x y : K) : K :=
  match f with
  | .min => Min.min x y
  | .max => Max.max x y

/-- The best of some values. -/
def ExtremeFunc.extreme (f : ExtremeFunc) : List K → Option K
  | [] => none
  | x :: xs => some (xs.foldl f.best x)

section Columns

variable (num : Nat → V) (df : List (Row V)) (parts : List String) (orders : List (String × Bool))
  (perm : List Nat) (frame : WindowFrame) (arg : Row V → Option K) (f : ExtremeFunc)

/-- `groupby("_pid")["_arg"].cummin()` or `.cummax()`: NULL on a row whose argument is NULL, and
elsewhere the best of the arguments of its group so far. -/
def groupCumExtreme (i : Nat) : Option K :=
  if (argSeries num df parts perm arg i).isSome then
    f.extreme (((List.range (i + 1)).filter fun j => Runs.number (boundary num df parts perm) j =
      Runs.number (boundary num df parts perm) i).filterMap (argSeries num df parts perm arg))
  else none

/-- `cm.where(arg_s.notna()).ffill()`. -/
def filledExtreme : Nat → Option K :=
  Runs.ffill fun i => if (argSeries num df parts perm arg i).isSome then
    groupCumExtreme num df parts perm arg f i else none

/-- `_window_running_minmax` of a Series over the sorted frame; `none` is a raise. -/
def minmaxColumn : Option (Nat → Option K) :=
  gather df.length (filledExtreme num df parts perm arg f) (absHi num df parts orders perm frame)

/-- `_window_running` for MIN and MAX: a Python value has no `notna`. -/
def extremeColumn (arg : Argument V K) : Option (Nat → Option K) :=
  match arg with
  | .series value => minmaxColumn num df parts orders perm frame value f
  | .scalar _ => none

end Columns

/-! ## 2. What they should be -/

/-- `x` is as good as `y`. -/
def ExtremeFunc.Le (f : ExtremeFunc) (x y : K) : Prop :=
  match f with
  | .min => x ≤ y
  | .max => y ≤ x

/-- The least or greatest of some values, NULL when there are none. -/
def ExtremeFunc.IsExtreme (f : ExtremeFunc) (S : Set K) : Option K → Prop
  | none => S = ∅
  | some m => m ∈ S ∧ ∀ x ∈ S, f.Le m x

/-- The arguments of some rows that are not NULL. -/
def argsOf (df : List (Row V)) (arg : Row V → Option K) (rows : Finset Nat) : Set K :=
  {x | ∃ s ∈ rows, arg (rowAt df s) = some x}

/-- The aggregate is computed, and on every row it is the extreme of the row's frame. -/
def ExtremeRight (num : Nat → V) (df : List (Row V)) (parts : List String)
    (orders : List (String × Bool)) (perm : List Nat) (frame : WindowFrame)
    (arg : Argument V K) (f : ExtremeFunc) : Prop :=
  ∃ col, extremeColumn num df parts orders perm frame f arg = some col ∧ ∀ r < df.length,
    f.IsExtreme (argsOf df arg.value (frameRows df parts orders perm frame r)) (restored perm col r)

/-- The place that is read for a row at place `i` of `n` whose frame ends `d` rows below it, from the end
if it is above the first. -/
def readAt (n i : Nat) (d : Int) : Int := if i + d < 0 then i + d + n else i + d

/-- Nothing leaks into the row: its frame has an argument that is not NULL; or it has rows, and there is
none in the partitions above; or it has no rows, and there is none down to the place that is read. -/
def Shielded (df : List (Row V)) (parts : List String) (orders : List (String × Bool))
    (perm : List Nat) (frame : WindowFrame) (arg : Row V → Option K) (r : Nat) : Prop :=
  (argsOf df arg (frameRows df parts orders perm frame r)).Nonempty ∨
  (frameRows df parts orders perm frame r).Nonempty ∧
    (∀ s < df.length, perm.idxOf s < perm.idxOf r → s ∉ partitionOf df parts r →
      arg (rowAt df s) = none) ∨
  frameRows df parts orders perm frame r = ∅ ∧ ∀ d, frame.stop.displacement = some d →
    0 ≤ readAt df.length (perm.idxOf r) d ∧ ∀ s < df.length,
      (perm.idxOf s : Int) ≤ readAt df.length (perm.idxOf r) d → arg (rowAt df s) = none

/-! ## 3. Extremes -/

theorem ExtremeFunc.le_self (f : ExtremeFunc) (x : K) : f.Le x x := by
  cases f <;> exact le_rfl

theorem ExtremeFunc.le_of_le (f : ExtremeFunc) {x y z : K} (hxy : f.Le x y) (hyz : f.Le y z) :
    f.Le x z := by
  cases f
  · exact le_trans hxy hyz
  · exact le_trans hyz hxy

/-- The better of two values is one of them, and as good as both. -/
theorem ExtremeFunc.best_spec (f : ExtremeFunc) (x y : K) :
    (f.best x y = x ∨ f.best x y = y) ∧ f.Le (f.best x y) x ∧ f.Le (f.best x y) y := by
  cases f
  · exact ⟨min_choice x y, min_le_left x y, min_le_right x y⟩
  · exact ⟨max_choice x y, le_max_left x y, le_max_right x y⟩

theorem ExtremeFunc.foldl_best (f : ExtremeFunc) (x : K) (xs : List K) :
    xs.foldl f.best x ∈ x :: xs ∧ ∀ y ∈ x :: xs, f.Le (xs.foldl f.best x) y := by
  induction xs generalizing x with
  | nil => simp [f.le_self]
  | cons z xs ih =>
    obtain ⟨hmem, hle⟩ := ih (f.best x z)
    obtain ⟨hone, hx, hz⟩ := f.best_spec x z
    rw [List.foldl_cons]
    refine ⟨?_, fun y hy => ?_⟩
    · rcases List.mem_cons.mp hmem with heq | hmem
      · rw [heq]
        rcases hone with h | h <;> simp [h]
      · simp [hmem]
    · have hbest := hle _ List.mem_cons_self
      rcases List.mem_cons.mp hy with rfl | hy
      · exact f.le_of_le hbest hx
      · rcases List.mem_cons.mp hy with rfl | hy
        · exact f.le_of_le hbest hz
        · exact hle y (List.mem_cons_of_mem _ hy)

/-- The best of a list is the extreme of its elements. -/
theorem ExtremeFunc.isExtreme_extreme (f : ExtremeFunc) (l : List K) :
    f.IsExtreme {x | x ∈ l} (f.extreme l) := by
  cases l with
  | nil => simp [extreme, IsExtreme]
  | cons x xs => exact f.foldl_best x xs

/-- An extreme of no values is NULL. -/
theorem ExtremeFunc.isExtreme_empty {f : ExtremeFunc} {o : Option K} :
    f.IsExtreme ∅ o ↔ o = none := by
  cases o <;> simp [IsExtreme]

section Sorted

variable {num : Nat → V} {df : List (Row V)} {parts : List String} {orders : List (String × Bool)}
  {perm : List Nat} {frame : WindowFrame} {arg : Row V → Option K} {f : ExtremeFunc}

/-- The arguments of the sorted frame from one position to another. -/
def argsBetween (num : Nat → V) (df : List (Row V)) (parts : List String) (perm : List Nat)
    (arg : Row V → Option K) (u v : Nat) : Set K :=
  {x | ∃ j, u ≤ j ∧ j ≤ v ∧ argSeries num df parts perm arg j = some x}

/-- The running extreme begins anew with every partition. -/
theorem groupCumExtreme_spec (h : IsSort (sortKeys parts orders) (numbered num df) perm) {i : Nat}
    (hi : (argSeries num df parts perm arg i).isSome) :
    f.IsExtreme (argsBetween num df parts perm arg (Runs.start (boundary num df parts perm) i) i)
      (groupCumExtreme num df parts perm arg f i) := by
  rw [groupCumExtreme, if_pos hi]
  convert f.isExtreme_extreme _ using 1
  ext x
  simp only [argsBetween, Set.mem_ofPred_eq, List.mem_filterMap, List.mem_filter, List.mem_range,
    decide_eq_true_eq]
  constructor
  · rintro ⟨j, hlo, hhi, hj⟩
    exact ⟨j, ⟨by omega, (h.marks_boundary.number_eq_iff_start hhi).mpr hlo⟩, hj⟩
  · rintro ⟨j, ⟨hlt, hnum⟩, hj⟩
    exact ⟨j, (h.marks_boundary.number_eq_iff_start (by omega)).mp hnum, by omega, hj⟩

theorem groupCumExtreme_isSome (h : IsSort (sortKeys parts orders) (numbered num df) perm) {i : Nat}
    (hi : (argSeries num df parts perm arg i).isSome) :
    (groupCumExtreme num df parts perm arg f i).isSome := by
  obtain ⟨x, hx⟩ := Option.isSome_iff_exists.mp hi
  have hspec := groupCumExtreme_spec (f := f) h hi
  cases hc : groupCumExtreme num df parts perm arg f i with
  | some m => rfl
  | none =>
    rw [hc] at hspec
    have hmem : x ∈ argsBetween num df parts perm arg (Runs.start (boundary num df parts perm) i) i :=
      ⟨i, h.marks_boundary.start_le i, le_rfl, hx⟩
    rw [show argsBetween num df parts perm arg (Runs.start (boundary num df parts perm) i) i = ∅ from
      hspec] at hmem
    exact hmem.elim

/-- The fill is NULL as long as all arguments are, in whatever partition. -/
theorem filledExtreme_eq_none (h : IsSort (sortKeys parts orders) (numbered num df) perm) {i : Nat} :
    filledExtreme num df parts perm arg f i = none ↔
      ∀ j ≤ i, argSeries num df parts perm arg j = none := by
  unfold filledExtreme
  rw [Runs.ffill_eq_none]
  refine forall_congr' fun j => imp_congr_right fun _ => ?_
  split_ifs with hj
  · have hsome := groupCumExtreme_isSome (f := f) h hj
    simp [Option.isSome_iff_ne_none.mp hj, Option.isSome_iff_ne_none.mp hsome]
  · simpa using hj

/-- Where the partition has an argument so far, the fill is its extreme. -/
theorem filledExtreme_spec (h : IsSort (sortKeys parts orders) (numbered num df) perm) {i : Nat}
    (hi : i < df.length) (hex : (argsBetween num df parts perm arg
      (Runs.start (boundary num df parts perm) i) i).Nonempty) :
    f.IsExtreme (argsBetween num df parts perm arg (Runs.start (boundary num df parts perm) i) i)
      (filledExtreme num df parts perm arg f i) := by
  obtain ⟨x, k, hk, hki, hx⟩ := hex
  cases hfill : filledExtreme num df parts perm arg f i with
  | none =>
    rw [(filledExtreme_eq_none h).mp hfill k hki] at hx
    cases hx
  | some m =>
    obtain ⟨j, hji, hj, hnone⟩ := Runs.ffill_eq_some.mp hfill
    have hsome : (argSeries num df parts perm arg j).isSome := by
      by_contra hno
      rw [if_neg hno] at hj
      cases hj
    rw [if_pos hsome] at hj
    -- behind `j` there are only NULLs
    have hnull : ∀ t, j < t → t ≤ i → argSeries num df parts perm arg t = none := by
      intro t ht hti
      have hno := hnone t ht hti
      split_ifs at hno with hs
      · exact absurd (groupCumExtreme_isSome (f := f) h hs) (by simp [hno])
      · simpa using hs
    have hkj : k ≤ j := by
      by_contra hlt
      rw [hnull k (by omega) hki] at hx
      cases hx
    have hb := h.marks_boundary
    have hstart : Runs.start (boundary num df parts perm) j =
        Runs.start (boundary num df parts perm) i :=
      (hb.start_eq_iff hi (by omega)).mpr ((hb.mem_run hi (by omega)).mpr
        ⟨by omega, hji.trans (hb.le_stop hi)⟩)
    have hspec := groupCumExtreme_spec (f := f) h hsome
    rw [hj, hstart] at hspec
    convert hspec using 1
    ext y
    constructor
    · rintro ⟨t, ht, hti, hy⟩
      refine ⟨t, ht, ?_, hy⟩
      by_contra hlt
      rw [hnull t (by omega) hti] at hy
      cases hy
    · rintro ⟨t, ht, htj, hy⟩
      exact ⟨t, ht, htj.trans hji, hy⟩

/-! ## 4. Frames -/

/-- A frame from UNBOUNDED PRECEDING starts with its partition. -/
theorem lo_unbounded (hstart : frame.start = .unboundedPreceding) (i : Nat) :
    lo num df parts orders perm frame i = 0 := by
  obtain ⟨mode, start, stop⟩ := frame
  dsimp only at hstart
  subst hstart
  cases mode with
  | rows => rw [lo_rows, rowsOffset, sub_self, max_self]
  | range => rw [lo_range, if_neg (by decide), max_self]

omit [LinearOrder K] in
/-- A frame that is not empty holds the arguments from the first row of the partition to its end. -/
theorem argsOf_frame (h : IsSort (sortKeys parts orders) (numbered num df) perm) (hp : "_pos" ∉ parts)
    (ho : "_pos" ∉ orders.map Prod.fst) (hpid : "_pid" ∉ orders.map Prod.fst) (ha : Unstamped arg)
    (hacc : frame.Accepted) (hlegal : frame.Legal) (hstart : frame.start = .unboundedPreceding)
    {r : Nat} (hr : r < df.length) (hhi : 0 ≤ hi num df parts orders perm frame (perm.idxOf r)) :
    argsOf df arg (frameRows df parts orders perm frame r) =
      argsBetween num df parts perm arg (Runs.start (boundary num df parts perm) (perm.idxOf r))
        (absHi num df parts orders perm frame (perm.idxOf r)).toNat := by
  have hlo : lo num df parts orders perm frame (perm.idxOf r) = 0 := lo_unbounded hstart _
  have hsize : hi num df parts orders perm frame (perm.idxOf r) ≤
    psize num df parts perm (perm.idxOf r) - 1 := hi_le frame _
  have hstop := h.marks_boundary.stop_lt (row_at_position h.rows hr).1
  unfold psize pend at hsize
  unfold argsOf
  rw [frameRows_eq h hp ho hpid hacc hlegal hr (by omega), hlo]
  ext x
  simp only [argsBetween, Set.mem_ofPred_eq, Finset.mem_image, Finset.mem_Icc, absHi]
  unfold pstart at *
  constructor
  · rintro ⟨s, ⟨j, ⟨hj, hj'⟩, rfl⟩, hx⟩
    refine ⟨j, by omega, by omega, ?_⟩
    rwa [argSeries, ha.row h (by omega)]
  · rintro ⟨j, hj, hj', hx⟩
    refine ⟨_, ⟨j, ⟨by omega, by omega⟩, rfl⟩, ?_⟩
    rwa [argSeries, ha.row h (by omega)] at hx

/-- A frame is empty when it ends above its partition, and then it ends as many rows below its row as
its bound says. -/
theorem hi_of_empty (h : IsSort (sortKeys parts orders) (numbered num df) perm) (hacc : frame.Accepted)
    (hlegal : frame.Legal) {i : Nat} (hin : i < df.length)
    (hhi : hi num df parts orders perm frame i < 0) :
    ∃ d < 0, frame.stop.displacement = some d ∧ absHi num df parts orders perm frame i = i + d := by
  obtain ⟨hpos, hlast⟩ := posInPart_bounds h hin
  have hgpos : pstart num df parts perm i + posInPart num df parts perm i = i :=
    add_sub_cancel _ _
  by_cases hcalm : frame.Calm
  · exact absurd (hi_nonneg h hcalm hin) (not_le.mpr hhi)
  obtain ⟨mode, start, stop⟩ := frame
  cases mode with
  | range => exact absurd (fun hmode => nomatch hmode) hcalm
  | rows =>
    cases hd : stop.displacement with
    | some d =>
      rw [hi_rows, rowsOffset_displacement hd] at hhi
      refine ⟨d, by omega, rfl, ?_⟩
      rw [absHi, hi_rows, rowsOffset_displacement hd]
      omega
    | none =>
      rw [hi_rows] at hhi
      cases stop with
      | unboundedPreceding => exact absurd rfl hlegal.2
      | unboundedFollowing =>
        rw [rowsOffset] at hhi
        omega
      | currentRow =>
        rw [rowsOffset] at hhi
        omega
      | preceding n => cases hd
      | following n => cases hd

theorem frameRows_nonempty_iff (h : IsSort (sortKeys parts orders) (numbered num df) perm)
    (hp : "_pos" ∉ parts) (ho : "_pos" ∉ orders.map Prod.fst) (hpid : "_pid" ∉ orders.map Prod.fst)
    (hacc : frame.Accepted) (hlegal : frame.Legal) (hstart : frame.start = .unboundedPreceding)
    {r : Nat} (hr : r < df.length) : (frameRows df parts orders perm frame r).Nonempty ↔
      0 ≤ hi num df parts orders perm frame (perm.idxOf r) := by
  have hlo : lo num df parts orders perm frame (perm.idxOf r) = 0 := lo_unbounded hstart _
  rcases lt_or_ge (hi num df parts orders perm frame (perm.idxOf r)) 0 with hlt | hge
  · rw [frameRows_empty h hp ho hpid hacc hlegal hr (by omega)]
    exact iff_of_false Finset.not_nonempty_empty (not_le.mpr hlt)
  · rw [frameRows_eq h hp ho hpid hacc hlegal hr (by omega), Finset.image_nonempty,
      Finset.nonempty_Icc]
    exact iff_of_true (by omega) hge

theorem gather_eq_some {β : Type} {n : Nat} {s : Nat → β} {positions : Nat → Int} {col : Nat → β} :
    gather n s positions = some col ↔ (∀ i < n, inBounds n (positions i) = true) ∧
      col = fun i => s (if positions i < 0 then positions i + n else positions i).toNat := by
  unfold gather
  split_ifs with hall
  · exact ⟨fun h => ⟨hall, (Option.some.inj h).symm⟩, fun h => congrArg some h.2.symm⟩
  · exact ⟨nofun, fun h => absurd h.1 hall⟩

/-- What is read on a row of a frame that is not empty is what the frame has exactly when the row is
shielded. -/
theorem extreme_nonempty (h : IsSort (sortKeys parts orders) (numbered num df) perm)
    (hp : "_pos" ∉ parts) (ho : "_pos" ∉ orders.map Prod.fst) (hpid : "_pid" ∉ orders.map Prod.fst)
    (ha : Unstamped arg) (hacc : frame.Accepted) (hlegal : frame.Legal)
    (hstart : frame.start = .unboundedPreceding) {r : Nat} (hr : r < df.length)
    (hhi : 0 ≤ hi num df parts orders perm frame (perm.idxOf r)) :
    f.IsExtreme (argsOf df arg (frameRows df parts orders perm frame r))
        (filledExtreme num df parts perm arg f
          (absHi num df parts orders perm frame (perm.idxOf r)).toNat) ↔
      Shielded df parts orders perm frame arg r := by
  have hpos := (row_at_position h.rows hr).1
  have hb := h.marks_boundary
  have hset := argsOf_frame h hp ho hpid ha hacc hlegal hstart hr hhi
  have hrows := (frameRows_nonempty_iff h hp ho hpid hacc hlegal hstart hr).mpr hhi
  have hsize : hi num df parts orders perm frame (perm.idxOf r) ≤
    psize num df parts perm (perm.idxOf r) - 1 := hi_le frame _
  have hle := hb.start_le (perm.idxOf r)
  have hstop := hb.le_stop hpos
  have hlt := hb.stop_lt hpos
  have habs : absHi num df parts orders perm frame (perm.idxOf r) =
    Runs.start (boundary num df parts perm) (perm.idxOf r) +
      hi num df parts orders perm frame (perm.idxOf r) := rfl
  unfold psize pend pstart at hsize
  obtain ⟨q, hq⟩ : ∃ q, (absHi num df parts orders perm frame (perm.idxOf r)).toNat = q := ⟨_, rfl⟩
  rw [hq] at hset ⊢
  -- the end of the frame is in the partition of the row
  have hsame : Runs.start (boundary num df parts perm) q =
      Runs.start (boundary num df parts perm) (perm.idxOf r) :=
    (hb.start_eq_iff hpos (by omega)).mpr ((hb.mem_run hpos (by omega)).mpr ⟨by omega, by omega⟩)
  by_cases hne : (argsOf df arg (frameRows df parts orders perm frame r)).Nonempty
  · refine iff_of_true ?_ (.inl hne)
    rw [hset] at hne ⊢
    rw [← hsame] at hne ⊢
    exact filledExtreme_spec h (by omega) hne
  · have hempty := Set.not_nonempty_iff_eq_empty.mp hne
    rw [hempty, ExtremeFunc.isExtreme_empty, filledExtreme_eq_none h]
    constructor
    · intro hnull
      refine .inr (.inl ⟨hrows, fun s hs hbefore hpart => ?_⟩)
      obtain ⟨hps, hrow⟩ := row_at_position h.rows hs
      rw [mem_partitionOf h.rows hp hb hr hs] at hpart
      have hnone := hnull (perm.idxOf s) (by omega)
      rwa [argSeries, ha.row h hps, hrow] at hnone
    · rintro (hex | ⟨-, hnull⟩ | ⟨hno, -⟩) j hj
      · exact absurd hex hne
      · rcases Nat.lt_or_ge j (Runs.start (boundary num df parts perm) (perm.idxOf r)) with hlow | hhigh
        · obtain ⟨hs, hidx⟩ := position_of_row h.rows (show j < df.length by omega)
          rw [argSeries, ha.row h (by omega)]
          refine hnull _ hs (by omega) ?_
          rw [mem_partitionOf h.rows hp hb hr hs, hidx]
          omega
        · by_contra hsome
          obtain ⟨x, hx⟩ := Option.ne_none_iff_exists'.mp hsome
          rw [hset] at hne
          exact hne ⟨x, j, hhigh, hj, hx⟩
      · rw [hno] at hrows
        exact absurd hrows Finset.not_nonempty_empty

/-- A row whose frame is empty is shielded when its read is in bounds and finds only NULLs. -/
theorem shielded_empty (h : IsSort (sortKeys parts orders) (numbered num df) perm)
    (hp : "_pos" ∉ parts) (ho : "_pos" ∉ orders.map Prod.fst) (hpid : "_pid" ∉ orders.map Prod.fst)
    (ha : Unstamped arg) (hacc : frame.Accepted) (hlegal : frame.Legal)
    (hstart : frame.start = .unboundedPreceding) {r : Nat} (hr : r < df.length) {d : Int}
    (hhi : hi num df parts orders perm frame (perm.idxOf r) < 0)
    (hd : frame.stop.displacement = some d) (hneg : d < 0) : Shielded df parts orders perm frame arg r ↔
      0 ≤ readAt df.length (perm.idxOf r) d ∧ filledExtreme num df parts perm arg f
        (readAt df.length (perm.idxOf r) d).toNat = none := by
  have hempty : frameRows df parts orders perm frame r = ∅ := by
    rw [← Finset.not_nonempty_iff_eq_empty,
      frameRows_nonempty_iff h hp ho hpid hacc hlegal hstart hr]
    exact not_le.mpr hhi
  have hargs : ¬ (argsOf df arg (frameRows df parts orders perm frame r)).Nonempty := by
    rintro ⟨x, s, hs, -⟩
    rw [hempty] at hs
    exact absurd hs (Finset.notMem_empty s)
  have hlt : readAt df.length (perm.idxOf r) d < df.length := by
    have hpos := (row_at_position h.rows hr).1
    unfold readAt
    split <;> omega
  rw [Shielded, or_iff_right hargs, hempty, or_iff_right fun hne => Finset.not_nonempty_empty hne.1,
    and_iff_right rfl, filledExtreme_eq_none h]
  constructor
  · intro hnull
    obtain ⟨h0, hnull⟩ := hnull d hd
    refine ⟨h0, fun j hj => ?_⟩
    obtain ⟨hs, hidx⟩ := position_of_row h.rows (show j < df.length by omega)
    rw [argSeries, ha.row h (by omega)]
    exact hnull _ hs (by omega)
  · rintro ⟨h0, hnull⟩ d' hd'
    obtain rfl : d = d' := Option.some.inj (hd.symm.trans hd')
    refine ⟨h0, fun s hs hle => ?_⟩
    obtain ⟨hps, hrow⟩ := row_at_position h.rows hs
    have hnone := hnull (perm.idxOf s) (by omega)
    rwa [argSeries, ha.row h hps, hrow] at hnone

/-- The running extremes of a Series are right exactly when every row is shielded. -/
theorem minmaxColumn_right (h : IsSort (sortKeys parts orders) (numbered num df) perm)
    (hp : "_pos" ∉ parts) (ho : "_pos" ∉ orders.map Prod.fst) (hpid : "_pid" ∉ orders.map Prod.fst)
    (ha : Unstamped arg) (hacc : frame.Accepted) (hlegal : frame.Legal)
    (hstart : frame.start = .unboundedPreceding) :
    (∃ col, minmaxColumn num df parts orders perm frame arg f = some col ∧ ∀ r < df.length,
        f.IsExtreme (argsOf df arg (frameRows df parts orders perm frame r)) (restored perm col r)) ↔
      ∀ r < df.length, Shielded df parts orders perm frame arg r := by
  have hempty : ∀ {r}, r < df.length → hi num df parts orders perm frame (perm.idxOf r) < 0 →
      argsOf df arg (frameRows df parts orders perm frame r) = ∅ := by
    intro r hr hhi
    have hno := (frameRows_nonempty_iff h hp ho hpid hacc hlegal hstart hr).not.mpr (not_le.mpr hhi)
    simp [argsOf, Finset.not_nonempty_iff_eq_empty.mp hno]
  constructor
  · rintro ⟨col, hcol, hright⟩ r hr
    obtain ⟨hin, rfl⟩ := gather_eq_some.mp hcol
    have hpos := (row_at_position h.rows hr).1
    have hvalue := hright r hr
    unfold restored at hvalue
    dsimp only at hvalue
    rcases lt_or_ge (hi num df parts orders perm frame (perm.idxOf r)) 0 with hlt | hge
    · obtain ⟨d, hneg, hd, habs⟩ := hi_of_empty h hacc hlegal hpos hlt
      rw [hempty hr hlt, ExtremeFunc.isExtreme_empty, habs] at hvalue
      have hbounds := of_decide_eq_true (hin _ hpos)
      rw [habs] at hbounds
      refine (shielded_empty h hp ho hpid ha hacc hlegal hstart hr hlt hd hneg).mpr ⟨?_, hvalue⟩
      unfold readAt
      split <;> omega
    · have hinside : ¬ absHi num df parts orders perm frame (perm.idxOf r) < 0 := by
        unfold absHi pstart
        omega
      rw [if_neg hinside] at hvalue
      exact (extreme_nonempty h hp ho hpid ha hacc hlegal hstart hr hge).mp hvalue
  · intro hshield
    have hin : ∀ r < df.length,
        inBounds df.length (absHi num df parts orders perm frame (perm.idxOf r)) = true := by
      intro r hr
      have hpos := (row_at_position h.rows hr).1
      rcases lt_or_ge (hi num df parts orders perm frame (perm.idxOf r)) 0 with hlt | hge
      · obtain ⟨d, hneg, hd, habs⟩ := hi_of_empty h hacc hlegal hpos hlt
        have hread := ((shielded_empty (f := f) h hp ho hpid ha hacc hlegal hstart hr hlt hd hneg).mp
          (hshield r hr)).1
        rw [habs]
        unfold readAt at hread
        exact decide_eq_true (by split at hread <;> omega)
      · have hsize : hi num df parts orders perm frame (perm.idxOf r) ≤
          psize num df parts perm (perm.idxOf r) - 1 := hi_le frame _
        have hstop := h.marks_boundary.stop_lt hpos
        unfold psize pend at hsize
        unfold absHi
        exact decide_eq_true (by unfold pstart at *; omega)
    refine ⟨_, gather_eq_some.mpr ⟨fun i hi' => ?_, rfl⟩, fun r hr => ?_⟩
    · obtain ⟨hr, hidx⟩ := position_of_row h.rows hi'
      rw [← hidx]
      exact hin _ hr
    · have hpos := (row_at_position h.rows hr).1
      unfold restored
      dsimp only
      rcases lt_or_ge (hi num df parts orders perm frame (perm.idxOf r)) 0 with hlt | hge
      · obtain ⟨d, hneg, hd, habs⟩ := hi_of_empty h hacc hlegal hpos hlt
        rw [hempty hr hlt, ExtremeFunc.isExtreme_empty, habs]
        exact ((shielded_empty h hp ho hpid ha hacc hlegal hstart hr hlt hd hneg).mp (hshield r hr)).2
      · have hinside : ¬ absHi num df parts orders perm frame (perm.idxOf r) < 0 := by
          unfold absHi pstart
          omega
        rw [if_neg hinside]
        exact (extreme_nonempty h hp ho hpid ha hacc hlegal hstart hr hge).mpr (hshield r hr)

/-- **Running MIN and MAX.**  For every frame of rows, keys that read no working column and arrangement by
them, and every window frame that is accepted and that SQL has, the aggregate is computed over a frame
that holds the keys and the argument, and its values are right exactly when the argument is a Series and
every row is shielded. -/
theorem runningExtreme {toInt : String → Option Int} {spec : Option WindowSpec} {k : WindowKeys V}
    {arg : Argument V K} (h : IsSort (sortKeys k.parts k.orders) (numbered num (k.frame df)) perm)
    (hk : k.Clear) (hpid : .column "_pid" ∉ k.order.map Prod.fst) (ha : Unstamped arg.value)
    (hframe : buildFrame toInt spec f.run = .ok frame) (hlegal : frame.Legal) :
    (k.Computed df ∧ arg.Kept df (k.frame df)) ∧
    (ExtremeRight num (k.frame df) k.parts k.orders perm frame arg f ↔ arg.IsSeries ∧
      ∀ r < df.length, Shielded (k.frame df) k.parts k.orders perm frame arg.value r) := by
  obtain ⟨hacc, hcumulative⟩ := buildFrame_ok toInt hframe
  have hstart : frame.start = .unboundedPreceding :=
    hcumulative (by cases f <;> simp [ExtremeFunc.run])
  obtain ⟨hp, ho⟩ := hk.pos
  have hcomputed := k.computed hk df
  refine ⟨⟨hcomputed, ha.kept hcomputed⟩, ?_⟩
  cases arg with
  | series value =>
    have hright := minmaxColumn_right h hp ho (k.pid hpid) ha hacc hlegal hstart (f := f)
    rw [hcomputed.1] at hright
    unfold ExtremeRight
    rw [hcomputed.1]
    exact hright.trans (and_iff_right trivial).symm
  | scalar v =>
    constructor
    · rintro ⟨col, hcol, -⟩
      cases hcol
    · rintro ⟨hseries, -⟩
      exact hseries.elim

end Sorted

/-! ## 5. Small frames -/

/-- A row of a partition with an order key and an argument. -/
def valuedRow (p k : Nat) (v : Option Nat) : Row Nat := fun c =>
  if c = "p" then some p else if c = "k" then some k else if c = "v" then v else none

/-- The argument as a number. -/
def valueNumber : Argument Nat Nat := .series fun r => r "v"

theorem valueNumber_unstamped : Unstamped valueNumber.value := fun _ _ h =>
  h "v" (by decide) (by decide) (not_made (by decide))

/-- A partition whose first argument is NULL, before any other. -/
def nullFirst : List (Row Nat) := [valuedRow 1 1 none, valuedRow 1 2 (some 5)]

/-- A partition of NULLs behind another partition. -/
def nullBehind : List (Row Nat) := [valuedRow 1 1 (some 5), valuedRow 2 1 none]

theorem nullFirst_sorted : IsSort (sortKeys byPThenK.parts byPThenK.orders)
    (numbered id (byPThenK.frame nullFirst)) [0, 1] where
  isPerm := by decide
  sorted i j hij hj := by
    have hall : ∀ j < 2, ∀ i < j, rowBefore (sortKeys ["p"] [("k", true)])
      (sortedRow (numbered id nullFirst) [0, 1] j)
      (sortedRow (numbered id nullFirst) [0, 1] i) = false := by decide
    exact hall j hj i hij

theorem nullBehind_sorted :
    IsSort (sortKeys ["p"] [("k", true)]) (numbered id nullBehind) [0, 1] where
  isPerm := by decide
  sorted i j hij hj := by
    have hall : ∀ j < 2, ∀ i < j, rowBefore (sortKeys ["p"] [("k", true)])
      (sortedRow (numbered id nullBehind) [0, 1] j)
      (sortedRow (numbered id nullBehind) [0, 1] i) = false := by decide
    exact hall j hj i hij

theorem runningExtreme_nullFirst :
    ExtremeRight id nullFirst ["p"] [("k", true)] [0, 1] ⟨.range, .unboundedPreceding, .currentRow⟩
      valueNumber .min := by
  refine (runningExtreme nullFirst_sorted byPThenK_clear (by simp [byPThenK]) valueNumber_unstamped
    (show buildFrame digit none ExtremeFunc.min.run = .ok _ from rfl) ⟨nofun, nofun⟩).2.mpr
      ⟨trivial, ?_⟩
  intro r hr
  rcases Nat.lt_or_ge r 1 with hlt | hge
  · obtain rfl : r = 0 := by omega
    exact .inr (.inl ⟨⟨0, by decide⟩, by decide⟩)
  · have hlen : nullFirst.length = 2 := rfl
    obtain rfl : r = 1 := by omega
    exact .inl ⟨5, 1, by decide, rfl⟩

/-- **A partition of NULLs takes the extreme of the partition above it.** -/
theorem max_leaks : buildFrame digit none ExtremeFunc.max.run =
      .ok ⟨.range, .unboundedPreceding, .currentRow⟩ ∧
    IsSort (sortKeys ["p"] [("k", true)]) (numbered id nullBehind) [0, 1] ∧
    (extremeColumn id nullBehind ["p"] [("k", true)] [0, 1] ⟨.range, .unboundedPreceding, .currentRow⟩
      .max valueNumber).map (restored [0, 1] · 1) = some (some 5) ∧
    ¬ ExtremeRight id nullBehind ["p"] [("k", true)] [0, 1]
      ⟨.range, .unboundedPreceding, .currentRow⟩ valueNumber .max := by
  have hread : (extremeColumn id nullBehind ["p"] [("k", true)] [0, 1]
    ⟨.range, .unboundedPreceding, .currentRow⟩ .max valueNumber).map (restored [0, 1] · 1) =
      some (some 5) := by decide
  refine ⟨rfl, nullBehind_sorted, hread, ?_⟩
  rintro ⟨col, hcol, hright⟩
  rw [hcol, Option.map_some] at hread
  have hrow := hright 1 (by decide)
  rw [Option.some.inj hread] at hrow
  obtain ⟨⟨s, hs, hv⟩, -⟩ := hrow
  have honly : s = 1 := by
    have hall : ∀ s ∈ frameRows nullBehind ["p"] [("k", true)] [0, 1]
      ⟨.range, .unboundedPreceding, .currentRow⟩ 1, s = 1 := by decide
    exact hall s hs
  subst honly
  cases hv

end Windows

end RyuDB
