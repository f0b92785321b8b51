/-
# Running COUNT, SUM and AVG

`_window_running` sums the arguments from the start of every partition and takes the difference of the
sums at the two ends of a frame.  The sums are gathered by absolute position, for every row, also for
one whose frame is empty.

* `running`: the values are those of SQL, and nothing is gathered outside the frame, exactly when the
  argument is a Series, no end lies above its row and no start two rows or more below it.

Sums are exact: `K` is a division ring.
-/
import RyuDB.WindowFrames
import Mathlib.Algebra.Field.Rat
import Mathlib.Algebra.BigOperators.Ring.Finset
import Mathlib.Data.Int.Cast.Basic

namespace RyuDB

namespace Windows

variable {V K : Type} [LinearOrder V]

/-! ## 1. The columns

A Series is sorted along with the frame, filled with 0 where it is NULL, and summed within its
partition.  The sums at the two ends of a frame are read with `iloc`, which counts a negative position
from the end of the frame and raises outside of it, and the second is subtracted from the first.  A
literal argument is not a Series: `arg_s.notna()` raises for it. -/

/-- The aggregates that are computed from sums. -/
inductive SumFunc where
  | countStar
  | count
  | sum
  | avg
  deriving DecidableEq, Repr

/-- The aggregate as `_build_frame` is given it. -/
def SumFunc.run : SumFunc → RunFunc
  | .countStar => .countStar
  | .count => .count
  | .sum => .sum
  | .avg => .avg

/-- `.iloc` takes a position from either end and raises for others. -/
def inBounds (n : Nat) (p : Int) : Bool := decide (-(n : Int) ≤ p ∧ p < n)

/-- `s.iloc[positions]` in a frame of `n` rows. -/
def gather {β : Type} (n : Nat) (s : Nat → β) (positions : Nat → Int) : Option (Nat → β) :=
  if ∀ i < n, inBounds n (positions i) = true then
    some fun i => s (if positions i < 0 then positions i + n else positions i).toNat
  else none

section Columns

variable (num : Nat → V) (df : List (Row V)) (parts : List String) (orders : List (String × Bool))
  (perm : List Nat) (frame : WindowFrame)

/-- `abs_hi`. -/
def absHi (i : Nat) : Int := pstart num df parts perm i + hi num df parts orders perm frame i

/-- `abs_lo_m1`. -/
def absLoM1 (i : Nat) : Int :=
  if lo num df parts orders perm frame i > 0 then
    pstart num df parts perm i + lo num df parts orders perm frame i - 1
  else 0

/-- `groupby("_pid").cumsum()`. -/
def groupCumsum {M : Type} [AddCommMonoid M] (s : Nat → M) : Nat → M :=
  Runs.groupSum (boundary num df parts perm) s

/-- `_gather_diff` of the sums of `s`. -/
def gatherDiff {M : Type} [AddCommGroup M] (s : Nat → M) : Option (Nat → M) := do
  let pref := groupCumsum num df parts perm s
  let hiVal ← gather df.length pref (absHi num df parts orders perm frame)
  let sub ← gather df.length pref (absLoM1 num df parts orders perm frame)
  some fun i => hiVal i - if lo num df parts orders perm frame i > 0 then sub i else 0

/-- `lo <= hi`. -/
def nonempty (i : Nat) : Bool :=
  decide (lo num df parts orders perm frame i ≤ hi num df parts orders perm frame i)

variable [DivisionRing K] (arg : Row V → Option K)

/-- `arg_s` over the sorted frame. -/
def argSeries (i : Nat) : Option K := arg (runningWork num df parts perm i)

/-- `_nn`. -/
def notnaSeries (i : Nat) : Int := if (argSeries num df parts perm arg i).isSome then 1 else 0

/-- `_a0`. -/
def filledSeries (i : Nat) : K := (argSeries num df parts perm arg i).getD 0

/-- `cnt`. -/
def countDiff : Option (Nat → Int) := do
  let cnt ← gatherDiff num df parts orders perm frame (notnaSeries num df parts perm arg)
  some fun i => if nonempty num df parts orders perm frame i then cnt i else 0

/-- COUNT, SUM and AVG of a Series over the sorted frame; `none` is a raise. -/
def sumColumn : SumFunc → Option (Nat → Option K)
  | .countStar => some fun i => some (if nonempty num df parts orders perm frame i then
      ((hi num df parts orders perm frame i - lo num df parts orders perm frame i + 1 : Int) : K)
      else 0)
  | .count => do
    let cnt ← countDiff num df parts orders perm frame arg
    some fun i => some (cnt i : K)
  | .sum => do
    let cnt ← countDiff num df parts orders perm frame arg
    let s ← gatherDiff num df parts orders perm frame (filledSeries num df parts perm arg)
    some fun i => if cnt i > 0 then some (s i) else none
  | .avg => do
    let cnt ← countDiff num df parts orders perm frame arg
    let s ← gatherDiff num df parts orders perm frame (filledSeries num df parts perm arg)
    some fun i => if cnt i > 0 then some (s i / cnt i) else none

/-- `_window_running` for COUNT, SUM and AVG over the sorted frame; `none` is a raise.  COUNT(*) does not
look at an argument; the others ask it for `notna`, which a Python value does not have. -/
def runningColumn (arg : Argument V K) (f : SumFunc) : Option (Nat → Option K) :=
  match arg with
  | .series value => sumColumn num df parts orders perm frame value f
  | .scalar value =>
    if f = .countStar then sumColumn num df parts orders perm frame (fun _ => value) f else none

end Columns

/-! ## 2. What they should be -/

section Values

variable (df : List (Row V)) (arg : Row V → Option K)

/-- The rows whose argument is not NULL. -/
def countOf (rows : Finset Nat) : Nat := (rows.filter fun s => (arg (rowAt df s)).isSome).card

variable [DivisionRing K]

/-- The sum of the arguments that are not NULL. -/
def sumOf (rows : Finset Nat) : K := ∑ s ∈ rows, (arg (rowAt df s)).getD 0

/-- The aggregates of SQL over some rows. -/
def aggregate (rows : Finset Nat) : SumFunc → Option K
  | .countStar => some rows.card
  | .count => some (countOf df arg rows)
  | .sum => if countOf df arg rows = 0 then none else some (sumOf df arg rows)
  | .avg => if countOf df arg rows = 0 then none
      else some (sumOf df arg rows / countOf df arg rows)

end Values

/-- The argument reads neither `_pos` nor `_pid` nor a column that is computed for a key. -/
def Unstamped {β : Type} (arg : Row V → β) : Prop :=
  ∀ r s : Row V, (∀ c, c ≠ "_pos" → c ≠ "_pid" → ¬ IsMade c → r c = s c) → arg r = arg s

/-! ## 3. Gathering

The sum up to a row of a partition is the sum over the rows of the partition up to its place, so that
the difference of two is the sum over the places between them.  A position above the first row of the
partition is read as 0 by the code, since the sum before the first row is. -/

/-- A position of the sorted frame. -/
def Inside (n : Nat) (p : Int) : Prop := 0 ≤ p ∧ p < n

theorem gather_ok {β : Type} {n : Nat} {s : Nat → β} {positions : Nat → Int}
    (h : ∀ i < n, Inside n (positions i)) :
    ∃ col, gather n s positions = some col ∧ ∀ i < n, col i = s (positions i).toNat := by
  have hall : ∀ i < n, inBounds n (positions i) = true := by
    intro i hi
    obtain ⟨hlo, hhi⟩ := h i hi
    exact decide_eq_true ⟨by omega, hhi⟩
  refine ⟨_, if_pos hall, fun i hi => ?_⟩
  rw [if_neg (not_lt.mpr (h i hi).1)]

section Sorted

variable {num : Nat → V} {df : List (Row V)} {parts : List String} {orders : List (String × Bool)}
  {perm : List Nat} {frame : WindowFrame}

/-- **A difference of sums is the sum over the frame.** -/
theorem gatherDiff_ok {M : Type} [AddCommGroup M]
    (h : IsSort (sortKeys parts orders) (numbered num df) perm) (s : Nat → M)
    (hhi : ∀ i < df.length, Inside df.length (absHi num df parts orders perm frame i))
    (hlo : ∀ i < df.length, Inside df.length (absLoM1 num df parts orders perm frame i)) :
    ∃ col, gatherDiff num df parts orders perm frame s = some col ∧ ∀ i < df.length,
      nonempty num df parts orders perm frame i = true → col i = ∑ j ∈ Finset.Icc
        (pstart num df parts perm i + lo num df parts orders perm frame i).toNat
        (pstart num df parts perm i + hi num df parts orders perm frame i).toNat, s j := by
  obtain ⟨hiVal, hgather, hval⟩ := gather_ok (s := groupCumsum num df parts perm s) hhi
  obtain ⟨sub, hgather', hsub⟩ := gather_ok (s := groupCumsum num df parts perm s) hlo
  refine ⟨fun i => hiVal i - if lo num df parts orders perm frame i > 0 then sub i else 0, ?_, ?_⟩
  · unfold gatherDiff
    dsimp only
    rw [hgather, hgather']
    rfl
  · intro i hin hne
    have hle := of_decide_eq_true hne
    have hlo0 : 0 ≤ lo num df parts orders perm frame i := lo_nonneg frame i
    have hsize : hi num df parts orders perm frame i ≤ psize num df parts perm i - 1 := hi_le frame i
    unfold psize pend at hsize
    have hdiff := h.marks_boundary.groupSum_diff s hin
      (u := (pstart num df parts perm i + lo num df parts orders perm frame i).toNat)
      (v := (pstart num df parts perm i + hi num df parts orders perm frame i).toNat)
      (by unfold pstart; omega) (by unfold pstart; omega) (by unfold pstart at hsize ⊢; omega)
    rw [← hdiff]
    dsimp only
    rw [hval i hin, absHi]
    refine congrArg _ ?_
    by_cases hpos : 0 < lo num df parts orders perm frame i
    · have hpos' : Runs.start (boundary num df parts perm) i <
          (pstart num df parts perm i + lo num df parts orders perm frame i).toNat := by
        unfold pstart
        omega
      have hprev : (absLoM1 num df parts orders perm frame i).toNat =
          (pstart num df parts perm i + lo num df parts orders perm frame i).toNat - 1 := by
        rw [absLoM1, if_pos hpos]
        omega
      rw [if_pos hpos, if_pos hpos', hsub i hin, hprev]
      rfl
    · have hpos' : ¬ Runs.start (boundary num df parts perm) i <
          (pstart num df parts perm i + lo num df parts orders perm frame i).toNat := by
        unfold pstart
        omega
      rw [if_neg hpos, if_neg hpos']

/-- What the sorted frame holds on a position is what the row has. -/
theorem Unstamped.row {β : Type} {arg : Row V → β} (ha : Unstamped arg)
    (h : IsSort (sortKeys parts orders) (numbered num df) perm) {i : Nat} (hin : i < df.length) :
    arg (runningWork num df parts perm i) = arg (rowAt df (perm.getD i 0)) := by
  refine ha _ _ fun c hpos hpid _ => ?_
  unfold runningWork
  rw [Function.update_of_ne hpid]
  exact sortedRow_numbered h.rows hin hpos

/-- A sum over the rows of a frame, by position. -/
theorem sum_frameRows {M : Type} [AddCommMonoid M]
    (h : IsSort (sortKeys parts orders) (numbered num df) perm) (hp : "_pos" ∉ parts)
    (ho : "_pos" ∉ orders.map Prod.fst) (hpid : "_pid" ∉ orders.map Prod.fst)
    (hacc : frame.Accepted) (hlegal : frame.Legal) {r : Nat} (hr : r < df.length)
    (hne : nonempty num df parts orders perm frame (perm.idxOf r) = true) (g : Nat → M) :
    ∑ s ∈ frameRows df parts orders perm frame r, g s = ∑ j ∈ Finset.Icc
      (pstart num df parts perm (perm.idxOf r) +
        lo num df parts orders perm frame (perm.idxOf r)).toNat
      (pstart num df parts perm (perm.idxOf r) +
        hi num df parts orders perm frame (perm.idxOf r)).toNat, g (perm.getD j 0) := by
  rw [frameRows_eq h hp ho hpid hacc hlegal hr (of_decide_eq_true hne), Finset.sum_image]
  have hlo0 : 0 ≤ lo num df parts orders perm frame (perm.idxOf r) := lo_nonneg frame _
  have hsize : hi num df parts orders perm frame (perm.idxOf r) ≤
    psize num df parts perm (perm.idxOf r) - 1 := hi_le frame _
  have hstop := h.marks_boundary.stop_lt (row_at_position h.rows hr).1
  unfold psize pend at hsize
  refine rows_injOn h.rows _ fun j hj => ?_
  rw [Finset.mem_Icc] at hj
  exact Finset.mem_range.mpr (by omega)

/-! ## 4. The values -/

/-- All gathered positions lie in the sorted frame. -/
def GathersInside (num : Nat → V) (df : List (Row V)) (parts : List String)
    (orders : List (String × Bool)) (perm : List Nat) (frame : WindowFrame) : Prop :=
  (∀ i < df.length, Inside df.length (absHi num df parts orders perm frame i)) ∧
  ∀ i < df.length, Inside df.length (absLoM1 num df parts orders perm frame i)

/-- The number of rows of a frame. -/
theorem card_frameRows (h : IsSort (sortKeys parts orders) (numbered num df) perm)
    (hp : "_pos" ∉ parts) (ho : "_pos" ∉ orders.map Prod.fst) (hpid : "_pid" ∉ orders.map Prod.fst)
    (hacc : frame.Accepted) (hlegal : frame.Legal) {r : Nat} (hr : r < df.length) :
    ((frameRows df parts orders perm frame r).card : Int) =
      if nonempty num df parts orders perm frame (perm.idxOf r) then
        hi num df parts orders perm frame (perm.idxOf r) -
          lo num df parts orders perm frame (perm.idxOf r) + 1
      else 0 := by
  split
  · rename_i hne
    have hle := of_decide_eq_true hne
    have hlo0 : 0 ≤ lo num df parts orders perm frame (perm.idxOf r) := lo_nonneg frame _
    have hstart : (0 : Int) ≤ pstart num df parts perm (perm.idxOf r) := Int.natCast_nonneg _
    rw [Finset.card_eq_sum_ones, sum_frameRows h hp ho hpid hacc hlegal hr hne,
      ← Finset.card_eq_sum_ones, Nat.card_Icc]
    omega
  · rename_i hne
    rw [frameRows_empty h hp ho hpid hacc hlegal hr
      (not_le.mp fun hle => hne (decide_eq_true hle))]
    rfl

section Arguments

variable [DivisionRing K] {arg : Row V → Option K}

omit [DivisionRing K] in
/-- `cnt` counts the arguments of the frame that are not NULL. -/
theorem countDiff_ok (h : IsSort (sortKeys parts orders) (numbered num df) perm)
    (ha : Unstamped arg) (hin : GathersInside num df parts orders perm frame) :
    ∃ cnt, countDiff num df parts orders perm frame arg = some cnt ∧
      ("_pos" ∉ parts → "_pos" ∉ orders.map Prod.fst → "_pid" ∉ orders.map Prod.fst →
        frame.Accepted → frame.Legal → ∀ r < df.length, cnt (perm.idxOf r) =
          countOf df arg (frameRows df parts orders perm frame r)) := by
  obtain ⟨col, hcol, hval⟩ := gatherDiff_ok h (notnaSeries num df parts perm arg) hin.1 hin.2
  refine ⟨fun i => if nonempty num df parts orders perm frame i then col i else 0, ?_, ?_⟩
  · unfold countDiff
    rw [hcol]
    rfl
  · intro hp ho hpid hacc hlegal r hr
    dsimp only
    split
    · rename_i hne
      have hstop := h.marks_boundary.stop_lt (row_at_position h.rows hr).1
      have hsize : hi num df parts orders perm frame (perm.idxOf r) ≤
        psize num df parts perm (perm.idxOf r) - 1 := hi_le frame _
      unfold psize pend at hsize
      rw [hval _ (row_at_position h.rows hr).1 hne, countOf, Finset.card_filter, Nat.cast_sum,
        sum_frameRows h hp ho hpid hacc hlegal hr hne]
      refine Finset.sum_congr rfl fun j hj => ?_
      rw [Finset.mem_Icc] at hj
      unfold notnaSeries argSeries
      rw [ha.row h (by omega)]
      split <;> rfl
    · rename_i hne
      rw [frameRows_empty h hp ho hpid hacc hlegal hr
        (not_le.mp fun hle => hne (decide_eq_true hle))]
      rfl

/-- The difference of sums is the sum of the arguments of a frame that is not empty. -/
theorem sumDiff_ok (h : IsSort (sortKeys parts orders) (numbered num df) perm)
    (ha : Unstamped arg) (hin : GathersInside num df parts orders perm frame) :
    ∃ s, gatherDiff num df parts orders perm frame (filledSeries num df parts perm arg) = some s ∧
      ("_pos" ∉ parts → "_pos" ∉ orders.map Prod.fst → "_pid" ∉ orders.map Prod.fst →
        frame.Accepted → frame.Legal → ∀ r < df.length,
          nonempty num df parts orders perm frame (perm.idxOf r) = true → s (perm.idxOf r) =
            sumOf df arg (frameRows df parts orders perm frame r)) := by
  obtain ⟨col, hcol, hval⟩ := gatherDiff_ok h (filledSeries num df parts perm arg) hin.1 hin.2
  refine ⟨col, hcol, fun hp ho hpid hacc hlegal r hr hne => ?_⟩
  have hstop := h.marks_boundary.stop_lt (row_at_position h.rows hr).1
  have hsize : hi num df parts orders perm frame (perm.idxOf r) ≤
    psize num df parts perm (perm.idxOf r) - 1 := hi_le frame _
  unfold psize pend at hsize
  rw [hval _ (row_at_position h.rows hr).1 hne, sumOf,
    sum_frameRows h hp ho hpid hacc hlegal hr hne]
  refine Finset.sum_congr rfl fun j hj => ?_
  rw [Finset.mem_Icc] at hj
  unfold filledSeries argSeries
  rw [ha.row h (by omega)]

omit [DivisionRing K] in
/-- A frame with an argument that is not NULL is not empty. -/
theorem nonempty_of_count (h : IsSort (sortKeys parts orders) (numbered num df) perm)
    (hp : "_pos" ∉ parts) (ho : "_pos" ∉ orders.map Prod.fst) (hpid : "_pid" ∉ orders.map Prod.fst)
    (hacc : frame.Accepted) (hlegal : frame.Legal) {r : Nat} (hr : r < df.length)
    (hcount : countOf df arg (frameRows df parts orders perm frame r) ≠ 0) :
    nonempty num df parts orders perm frame (perm.idxOf r) = true := by
  by_contra hne
  rw [frameRows_empty h hp ho hpid hacc hlegal hr
    (not_le.mp fun hle => hne (decide_eq_true hle))] at hcount
  exact hcount rfl

/-- The column holds on every row what SQL defines for its frame. -/
theorem sumColumn_ok (h : IsSort (sortKeys parts orders) (numbered num df) perm)
    (hp : "_pos" ∉ parts) (ho : "_pos" ∉ orders.map Prod.fst) (hpid : "_pid" ∉ orders.map Prod.fst)
    (ha : Unstamped arg) (hacc : frame.Accepted) {f : SumFunc}
    (hin : f ≠ .countStar → GathersInside num df parts orders perm frame) :
    ∃ col, sumColumn num df parts orders perm frame arg f = some col ∧
      (frame.Legal → ∀ r < df.length, restored perm col r =
        aggregate df arg (frameRows df parts orders perm frame r) f) := by
  cases f with
  | countStar =>
    refine ⟨_, rfl, fun hlegal r hr => ?_⟩
    have hcard := card_frameRows h hp ho hpid hacc hlegal hr
    unfold restored aggregate
    dsimp only
    rw [← Int.cast_natCast (frameRows df parts orders perm frame r).card, hcard]
    split
    · rfl
    · rw [Int.cast_zero]
  | count =>
    obtain ⟨cnt, hcnt, hval⟩ := countDiff_ok h ha (hin nofun)
    refine ⟨fun i => some (cnt i : K), by rw [sumColumn, hcnt]; rfl, fun hlegal r hr => ?_⟩
    unfold restored aggregate
    dsimp only
    rw [hval hp ho hpid hacc hlegal r hr, Int.cast_natCast]
  | sum =>
    obtain ⟨cnt, hcnt, hval⟩ := countDiff_ok h ha (hin nofun)
    obtain ⟨s, hs, hsum⟩ := sumDiff_ok h ha (hin nofun)
    refine ⟨fun i => if cnt i > 0 then some (s i) else none,
      by rw [sumColumn, hcnt, hs]; rfl, fun hlegal r hr => ?_⟩
    have hcount := hval hp ho hpid hacc hlegal r hr
    unfold restored aggregate
    dsimp only
    by_cases hzero : countOf df arg (frameRows df parts orders perm frame r) = 0
    · rw [if_pos hzero, hcount, hzero, if_neg (by decide)]
    · have hne := nonempty_of_count h hp ho hpid hacc hlegal hr hzero
      rw [if_neg hzero, if_pos (by omega), hsum hp ho hpid hacc hlegal r hr hne]
  | avg =>
    obtain ⟨cnt, hcnt, hval⟩ := countDiff_ok h ha (hin nofun)
    obtain ⟨s, hs, hsum⟩ := sumDiff_ok h ha (hin nofun)
    refine ⟨fun i => if cnt i > 0 then some (s i / cnt i) else none,
      by rw [sumColumn, hcnt, hs]; rfl, fun hlegal r hr => ?_⟩
    have hcount := hval hp ho hpid hacc hlegal r hr
    unfold restored aggregate
    dsimp only
    by_cases hzero : countOf df arg (frameRows df parts orders perm frame r) = 0
    · rw [if_pos hzero, hcount, hzero, if_neg (by decide)]
    · have hne := nonempty_of_count h hp ho hpid hacc hlegal hr hzero
      rw [if_neg hzero, if_pos (by omega), hsum hp ho hpid hacc hlegal r hr hne, hcount,
        Int.cast_natCast]

end Arguments

/-! ## 5. The frames that stay inside -/

/-- No end of a ROWS frame lies above its row, and no start two rows or more below it. -/
def WindowFrame.Calm (frame : WindowFrame) : Prop :=
  frame.mode = .rows → (∀ d, frame.stop.displacement = some d → 0 ≤ d) ∧
    ∀ d, frame.start.displacement = some d → d ≤ 1

theorem rowsOffset_displacement {b : FrameBound} {d : Int} (hd : b.displacement = some d) (i : Nat) :
    rowsOffset num df parts perm b i = posInPart num df parts perm i + d := by
  cases b with
  | preceding n =>
    cases hd
    exact sub_eq_add_neg _ _
  | following n =>
    cases hd
    rfl
  | _ => cases hd

/-- A frame that ends at its row or below ends inside its partition. -/
theorem hi_nonneg (h : IsSort (sortKeys parts orders) (numbered num df) perm)
    (hcalm : frame.Calm) {i : Nat} (hin : i < df.length) :
    0 ≤ hi num df parts orders perm frame i := by
  obtain ⟨hpos, hlast⟩ := posInPart_bounds h hin
  obtain ⟨mode, start, stop⟩ := frame
  cases mode with
  | rows =>
    rw [hi_rows]
    refine le_min ?_ (by omega)
    cases stop with
    | unboundedPreceding => rw [rowsOffset, sub_self]
    | unboundedFollowing =>
      rw [rowsOffset]
      omega
    | currentRow => exact hpos
    | preceding n =>
      have hn := (hcalm rfl).1 (-n) rfl
      rw [rowsOffset]
      omega
    | following n =>
      have hn := (hcalm rfl).1 n rfl
      rw [rowsOffset]
      omega
  | range =>
    rw [hi_range]
    refine le_min ?_ (by omega)
    have hpeer := (Runs.stop_spec (runningPeers num df parts orders perm) hin).1
    have hpart := h.marks_boundary.le_stop hin
    have hstart := h.marks_boundary.start_le i
    split
    · unfold peerEnd pend pstart
      dsimp only
      split <;> omega
    · omega

/-- A frame whose start is at most one row below its row starts at most there. -/
theorem lo_lt (h : IsSort (sortKeys parts orders) (numbered num df) perm) (hcalm : frame.Calm)
    {i : Nat} (hin : i < df.length) : lo num df parts orders perm frame i > 0 →
      pstart num df parts perm i + lo num df parts orders perm frame i ≤ df.length := by
  have hlast := h.marks_boundary.stop_lt hin
  have hgpos : pstart num df parts perm i + posInPart num df parts perm i = i :=
    add_sub_cancel _ _
  obtain ⟨mode, start, stop⟩ := frame
  cases mode with
  | rows =>
    rw [lo_rows]
    cases start with
    | unboundedPreceding =>
      rw [rowsOffset, sub_self, max_self]
      exact fun hlt => absurd hlt (lt_irrefl 0)
    | unboundedFollowing =>
      rw [rowsOffset, psize, pend]
      omega
    | currentRow =>
      rw [rowsOffset]
      omega
    | preceding n =>
      have hn := (hcalm rfl).2 (-n) rfl
      rw [rowsOffset]
      omega
    | following n =>
      have hn := (hcalm rfl).2 n rfl
      rw [rowsOffset]
      omega
  | range =>
    rw [lo_range]
    split
    · have hpeer := (Runs.start_spec (b := runningPeers num df parts orders perm)
        (addChanges_zero h.marks_boundary.first _) i).1
      unfold peerStart
      omega
    · rw [max_self]
      exact fun hlt => absurd hlt (lt_irrefl 0)

/-- **When nothing is gathered outside the frame.** -/
theorem gathersInside_iff (h : IsSort (sortKeys parts orders) (numbered num df) perm) :
    GathersInside num df parts orders perm frame ↔ df = [] ∨ frame.Calm := by
  constructor
  · rintro ⟨hhi, hlo⟩
    rcases Nat.eq_zero_or_pos df.length with hzero | hlen
    · exact .inl (List.length_eq_zero_iff.mp hzero)
    refine .inr fun hmode => ?_
    obtain ⟨mode, start, stop⟩ := frame
    dsimp only at hmode
    subst hmode
    constructor
    · -- the first row has nothing above it
      intro d hd
      have hfirst := (hhi 0 hlen).1
      have hstart := h.marks_boundary.start_le 0
      obtain ⟨hpos, hlast⟩ := posInPart_bounds h hlen
      rw [absHi, hi_rows, rowsOffset_displacement hd] at hfirst
      unfold posInPart pstart at *
      omega
    · -- the last row has nothing below it
      intro d hd
      have hend := (hlo (df.length - 1) (by omega)).2
      obtain ⟨hpos, -⟩ := posInPart_bounds h (show df.length - 1 < df.length by omega)
      have hgpos : pstart num df parts perm (df.length - 1) +
        posInPart num df parts perm (df.length - 1) = (df.length - 1 : Nat) := add_sub_cancel _ _
      rw [absLoM1, lo_rows, rowsOffset_displacement hd] at hend
      by_contra hbig
      rw [if_pos (by omega)] at hend
      omega
  · rintro (rfl | hcalm)
    · exact ⟨fun i hin => absurd hin (Nat.not_lt_zero i), fun i hin => absurd hin (Nat.not_lt_zero i)⟩
    · have hstart : ∀ i, (0 : Int) ≤ pstart num df parts perm i := fun i => Int.natCast_nonneg _
      constructor
      · intro i hin
        have h0 := hi_nonneg h hcalm hin
        have hle : hi num df parts orders perm frame i ≤ psize num df parts perm i - 1 :=
          hi_le frame i
        have hlast := h.marks_boundary.stop_lt hin
        have hs := hstart i
        unfold psize pend at hle
        unfold absHi
        exact ⟨by omega, by omega⟩
      · intro i hin
        have hle := lo_lt h hcalm hin
        have hs := hstart i
        unfold absLoM1
        split
        · exact ⟨by omega, by omega⟩
        · exact ⟨le_refl 0, by omega⟩

section Main

variable [DivisionRing K] {arg : Argument V K}

/-- The aggregate `f` is computed without a gather outside the sorted frame, and is what SQL defines
if SQL has the frame. -/
def RunningRight (num : Nat → V) (df : List (Row V)) (parts : List String)
    (orders : List (String × Bool)) (perm : List Nat) (frame : WindowFrame)
    (arg : Argument V K) (f : SumFunc) : Prop :=
  (f ≠ .countStar → GathersInside num df parts orders perm frame) ∧
  ∃ col, runningColumn num df parts orders perm frame arg f = some col ∧
    (frame.Legal → ∀ r < df.length, restored perm col r =
      aggregate df arg.value (frameRows df parts orders perm frame r) f)

/-- The argument is on the rows of the frame what it is on those of the input. -/
def Argument.Kept {β : Type} (arg : Argument V β) (df work : List (Row V)) : Prop :=
  ∀ r < df.length, arg.value (rowAt work r) = arg.value (rowAt df r)

omit [LinearOrder V] in
theorem Unstamped.kept {β : Type} {arg : Argument V β} (ha : Unstamped arg.value) {k : WindowKeys V}
    (hk : k.Computed df) : arg.Kept df (k.frame df) := fun r hr =>
  ha _ _ fun c _ _ hmade => (hk.2 r hr).2.2 c hmade

/-- Only COUNT(*) is computed without a Series. -/
theorem runningColumn_eq {f : SumFunc} :
    runningColumn num df parts orders perm frame arg f =
      if f = .countStar ∨ arg.IsSeries then sumColumn num df parts orders perm frame arg.value f
      else none := by
  cases arg with
  | series value => rw [if_pos (.inr trivial)]; rfl
  | scalar value => simp only [runningColumn, Argument.IsSeries, or_false]; rfl

/-- **Running COUNT, SUM and AVG.**  For every frame of rows, keys that read no working column and
arrangement by them, and every window frame that is accepted, the aggregate is computed over a frame that
holds the keys and the argument, and it is right exactly when it is COUNT(*), or the argument is a Series
and there is no row, or no end of a ROWS frame lies above its row and no start two rows or more below
it. -/
theorem running {toInt : String → Option Int} {spec : Option WindowSpec} {f : SumFunc}
    {k : WindowKeys V} (h : IsSort (sortKeys k.parts k.orders) (numbered num (k.frame df)) perm)
    (hk : k.Clear) (hpid : .column "_pid" ∉ k.order.map Prod.fst) (ha : Unstamped arg.value)
    (hframe : buildFrame toInt spec f.run = .ok frame) :
    (k.Computed df ∧ arg.Kept df (k.frame df)) ∧
    (RunningRight num (k.frame df) k.parts k.orders perm frame arg f ↔
      f = .countStar ∨ arg.IsSeries ∧ (df = [] ∨ frame.Calm)) := by
  have hacc : frame.Accepted := (buildFrame_ok toInt hframe).1
  obtain ⟨hp, ho⟩ := hk.pos
  have hcomputed := k.computed hk df
  have hempty : k.frame df = [] ↔ df = [] := List.map_eq_nil_iff
  refine ⟨⟨hcomputed, ha.kept hcomputed⟩, ?_⟩
  rw [← hempty, ← gathersInside_iff h]
  constructor
  · rintro ⟨hin, col, hcol, -⟩
    refine or_iff_not_imp_left.mpr fun hstar => ⟨?_, hin hstar⟩
    rw [runningColumn_eq] at hcol
    split at hcol
    · rename_i hseries
      exact hseries.resolve_left hstar
    · cases hcol
  · intro hcond
    have hin : f ≠ .countStar → GathersInside num (k.frame df) k.parts k.orders perm frame := fun hne =>
      (hcond.resolve_left hne).2
    refine ⟨hin, ?_⟩
    rw [runningColumn_eq, if_pos (hcond.imp_right And.left)]
    exact sumColumn_ok h hp ho (k.pid hpid) ha hacc hin

end Main

end Sorted

/-! ## 6. Small frames -/

/-- Python's `int` on the texts of the examples. -/
def digit (text : String) : Option Int :=
  if text = "1" then some 1 else if text = "2" then some 2 else none

/-- `ROWS BETWEEN n PRECEDING AND m PRECEDING`. -/
def precedingSpec (n m : String) : WindowSpec :=
  ⟨false, some "ROWS", some (.literal n), some "PRECEDING", some (.literal m), some "PRECEDING"⟩

/-- `ROWS 1 PRECEDING`. -/
def shortSpec : WindowSpec :=
  ⟨false, some "ROWS", some (.literal "1"), some "PRECEDING", none, none⟩

/-- The order key as a number. -/
def keyNumber : Argument Nat Rat := .series fun r => (r "k").map Nat.cast

theorem keyNumber_unstamped : Unstamped keyNumber.value := fun r s h =>
  congrArg (Option.map Nat.cast) (h "k" (by decide) (by decide) (not_made (by decide)))

theorem running_threeKeyed :
    RunningRight id threeKeyed ["p"] [("k", true)] [1, 0, 2] ⟨.rows, .preceding 1, .currentRow⟩
      keyNumber .sum := by
  have hcalm : WindowFrame.Calm ⟨.rows, .preceding 1, .currentRow⟩ := by
    refine fun _ => ⟨nofun, fun d hd => ?_⟩
    cases hd
    decide
  exact (running threeKeyed_sorted byPThenK_clear (by simp [byPThenK]) keyNumber_unstamped
    (show buildFrame digit (some shortSpec) SumFunc.sum.run = .ok _ by decide)).2.mpr
      (.inr ⟨trivial, .inr hcalm⟩)

/-- **`SUM(k)` over `ROWS BETWEEN 2 PRECEDING AND 2 PRECEDING` of one row** raises: it gathers at
position -2 of a frame of one row. -/
theorem sum_raises : buildFrame digit (some (precedingSpec "2" "2")) .sum =
      .ok ⟨.rows, .preceding 2, .preceding 2⟩ ∧
    IsSort (sortKeys ["p"] [("k", true)]) (numbered id [keyedRow 1 1]) [0] ∧
    (runningColumn id [keyedRow 1 1] ["p"] [("k", true)] [0] ⟨.rows, .preceding 2, .preceding 2⟩
      keyNumber .sum).isNone = true ∧
    ¬ RunningRight id [keyedRow 1 1] ["p"] [("k", true)] [0] ⟨.rows, .preceding 2, .preceding 2⟩
      keyNumber .sum := by
  have hnone : (runningColumn id [keyedRow 1 1] ["p"] [("k", true)] [0]
    ⟨.rows, .preceding 2, .preceding 2⟩ keyNumber .sum).isNone = true := by decide
  refine ⟨by decide, ⟨by decide, fun i j hij hj => ?_⟩, hnone, ?_⟩
  · change j < 1 at hj
    omega
  · rintro ⟨-, col, hcol, -⟩
    rw [hcol] at hnone
    cases hnone

/-- **`COUNT(1) OVER (ORDER BY k)`** raises, where COUNT(*) does not. -/
example : (runningColumn (K := Rat) id threeKeyed [] [("k", true)] [1, 2, 0]
      ⟨.range, .unboundedPreceding, .currentRow⟩ (.scalar (some 1)) .count).isNone = true ∧
    (runningColumn (K := Rat) id threeKeyed [] [("k", true)] [1, 2, 0]
      ⟨.range, .unboundedPreceding, .currentRow⟩ (.scalar (some 1)) .countStar).isSome = true :=
  ⟨rfl, rfl⟩

end Windows

end RyuDB
