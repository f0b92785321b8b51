/-
# Ranking and offset functions

`_window_positioned` computes ROW_NUMBER, RANK, DENSE_RANK, LAG and LEAD from the positions of the
sorted frame and the first positions of the partitions and of the groups of peers.

* `positioned`: the ranking functions are what SQL defines, and so are LAG and LEAD of a Series with an
  offset that is not negative; with a negative one the test of the partition looks at the wrong end, and
  an argument without columns has no `shift`.

The definitions they are compared with speak of rows of the input, their partition (`partitionOf`) and
the number of rows of it that stand before them (`rankOf`).

An argument that reads a column computed for a key, or `_pos` or `_pid`, is excluded by `Unstamped`;
keys that read such a column by `WindowKeys.Clear`.  Both are about names only.
-/
import RyuDB.Windows

namespace RyuDB

namespace Windows

variable {V α : Type} [LinearOrder V]

/-! ## 1. The columns -/

/-- The window functions without an argument. -/
inductive RankFunc where
  | rowNumber
  | rank
  | denseRank
  deriving DecidableEq, Repr

/-- LAG or LEAD with its argument, offset and default. -/
structure OffsetFunc (V α : Type) where
  lead : Bool
  arg : Argument V α
  offset : Option Int
  default : Option (Row V → Option α)

section Columns

variable (num : Nat → V) (df : List (Row V)) (parts : List String) (orders : List (String × Bool))
  (perm : List Nat)

/-- The sorted frame. -/
def work : Nat → Row V := sortedRow (numbered num df) perm

/-- `boundary`. -/
def boundary : Nat → Bool := partitionBoundary df.length (work num df perm) parts

/-- `peer_bdry`. -/
def peers : Nat → Bool := peerBoundary df.length (work num df perm) parts orders

/-- `pstart = gpos.where(boundary).ffill()`. -/
def pstart (i : Nat) : Int := Runs.start (boundary num df parts perm) i

/-- `pend = gpos.where(is_last).bfill()`. -/
def pend (i : Nat) : Int := Runs.stop df.length (boundary num df parts perm) i

/-- `pos_in_part`. -/
def posInPart (i : Nat) : Int := i - pstart num df parts perm i

/-- `psize`. -/
def psize (i : Nat) : Int := pend num df parts perm i - pstart num df parts perm i + 1

/-- `s.where(mask).ffill()`. -/
def whereFfill {β : Type} (mask : Nat → Bool) (s : Nat → β) : Nat → Option β :=
  Runs.ffill fun i => if mask i then some (s i) else none

/-- The ranking functions over the sorted frame. -/
def rankColumn : RankFunc → Nat → Option Int
  | .rowNumber => fun i => some (posInPart num df parts perm i + 1)
  | .rank => whereFfill (peers num df parts orders perm) fun i => posInPart num df parts perm i + 1
  | .denseRank =>
    let denseGlobal (i : Nat) : Int := Runs.number (peers num df parts orders perm) i
    let denseAtStart := whereFfill (boundary num df parts perm) denseGlobal
    fun i => (denseAtStart i).map fun d => denseGlobal i - d + 1

/-- `n_off`. -/
def OffsetFunc.places (w : OffsetFunc V α) : Int := w.offset.getD 1

/-- `arg_s.shift(n_off)` for LAG, `arg_s.shift(-n_off)` for LEAD. -/
def shifted (w : OffsetFunc V α) : Nat → Option α :=
  shift df.length (fun i => w.arg.value (work num df perm i)) (if w.lead then -w.places else w.places)

/-- `valid`. -/
def valid (w : OffsetFunc V α) (i : Nat) : Bool :=
  if w.lead then decide (posInPart num df parts perm i ≤ psize num df parts perm i - 1 - w.places)
  else decide (w.places ≤ posInPart num df parts perm i)

/-- LAG and LEAD over the sorted frame. -/
def offsetColumn (w : OffsetFunc V α) (i : Nat) : Option α :=
  if valid num df parts perm w i then shifted num df perm w i
  else
    match w.default with
    | some d => d (work num df perm i)
    | none => none

/-- `_window_positioned` for a ranking function, by row of the input. -/
def rankWindow (f : RankFunc) : Nat → Option Int :=
  restored perm (rankColumn num df parts orders perm f)

/-- `_window_positioned` for LAG and LEAD, by row of the input; `none` is a raise: the Python value of an
argument without columns has no `shift`. -/
def offsetWindow (w : OffsetFunc V α) : Option (Nat → Option α) :=
  match w.arg with
  | .series _ => some (restored perm (offsetColumn num df parts perm w))
  | .scalar _ => none

end Columns

/-! ## 2. What they should be -/

section Definitions

variable (df : List (Row V)) (parts : List String) (orders : List (String × Bool))
  (perm : List Nat)

/-- ROW_NUMBER: the rows of a partition get the numbers from 1 to their count, in order. -/
def Numbers (number : Nat → Option Int) : Prop :=
  ∀ r < df.length,
    (partitionOf df parts r).image number =
      (Finset.Icc 1 (partitionOf df parts r).card).image (fun k : Nat => some (k : Int)) ∧
    ∀ s ∈ partitionOf df parts r, rowBefore orders (rowAt df s) (rowAt df r) = true →
      ∃ k l, number s = some k ∧ number r = some l ∧ k < l

/-- The rows of the partition that precede the peers of a row. -/
def preceding (r : Nat) : Finset Nat :=
  (partitionOf df parts r).filter fun s => rowBefore orders (rowAt df s) (rowAt df r) = true

/-- RANK: one more than the rows before the peers. -/
def Ranks (rank : Nat → Option Int) : Prop :=
  ∀ r < df.length, rank r = some ((preceding df parts orders r).card + 1 : Nat)

/-- DENSE_RANK: one more than the distinct order keys before that of the row. -/
def DenseRanks (rank : Nat → Option Int) : Prop :=
  ∀ r < df.length, rank r = some ((((preceding df parts orders r).image fun s =>
    keyOf (orders.map Prod.fst) (rowAt df s)).card + 1 : Nat))

/-- The rows of the partition above a row in the sorted frame. -/
def rankOf (r : Nat) : Nat :=
  ((partitionOf df parts r).filter fun s => perm.idxOf s < perm.idxOf r).card

/-- How many rows below its own the function reads; above, if negative. -/
def OffsetFunc.down (w : OffsetFunc V α) : Int := if w.lead then w.places else -w.places

/-- The row of the partition that many rows below. -/
def Target (w : OffsetFunc V α) (r s : Nat) : Prop :=
  s ∈ partitionOf df parts r ∧
    (rankOf df parts perm s : Int) = rankOf df parts perm r + w.down

/-- The default on a row. -/
def OffsetFunc.defaultAt (w : OffsetFunc V α) (r : Row V) : Option α :=
  match w.default with
  | some d => d r
  | none => none

/-- LAG and LEAD: the argument on the row of the partition so many rows away, or the default. -/
def OffsetRight (w : OffsetFunc V α) (value : Nat → Option α) : Prop :=
  ∀ r < df.length,
    (∀ s, Target df parts perm w r s → value r = w.arg.value (rowAt df s)) ∧
    ((∀ s, ¬ Target df parts perm w r s) → value r = w.defaultAt (rowAt df r))

/-- The argument so many rows away in the sorted frame, whatever the partition. -/
def leak (w : OffsetFunc V α) (r : Nat) : Option α :=
  let t := (perm.idxOf r : Int) + w.down
  if 0 ≤ t ∧ t < df.length then w.arg.value (rowAt df (perm.getD t.toNat 0)) else none

/-- LAG and LEAD are computed, and right on every row. -/
def OffsetComputed (w : OffsetFunc V α) (computed : Option (Nat → Option α)) : Prop :=
  ∃ value, computed = some value ∧ OffsetRight df parts perm w value

/-- Neither the argument nor the default reads `_pos` or a column that is computed for a key. -/
def OffsetFunc.Unstamped (w : OffsetFunc V α) : Prop :=
  ∀ r s : Row V, (∀ c, c ≠ "_pos" → ¬ IsMade c → r c = s c) →
    w.arg.value r = w.arg.value s ∧ w.defaultAt r = w.defaultAt s

/-- The argument and the default are on the rows of the frame what they are on those of the input. -/
def OffsetFunc.Kept (w : OffsetFunc V α) (work : List (Row V)) : Prop :=
  ∀ r < df.length, w.arg.value (rowAt work r) = w.arg.value (rowAt df r) ∧
    w.defaultAt (rowAt work r) = w.defaultAt (rowAt df r)

end Definitions

/-! ## 3. Positions in a partition -/

section Sorted

variable {num : Nat → V} {df : List (Row V)} {parts : List String} {orders : List (String × Bool)}
  {perm : List Nat}

theorem IsSort.rows (h : IsSort (sortKeys parts orders) (numbered num df) perm) :
    perm.Perm (List.range df.length) := by
  have hperm := h.isPerm
  rwa [length_numbered] at hperm

theorem IsSort.marks_boundary (h : IsSort (sortKeys parts orders) (numbered num df) perm) :
    Runs.Marks df.length (partKey parts (work num df perm)) (boundary num df parts perm) := by
  have hmarks := h.marks_partition
  rwa [length_numbered] at hmarks

theorem IsSort.marks_peerBoundary (h : IsSort (sortKeys parts orders) (numbered num df) perm) :
    Runs.Marks df.length (peerKey parts orders (work num df perm))
      (peers num df parts orders perm) := by
  have hmarks := h.marks_peers
  rwa [length_numbered] at hmarks

/-- Counting rows of a partition by position. -/
theorem card_partition (h : IsSort (sortKeys parts orders) (numbered num df) perm)
    (hp : "_pos" ∉ parts) {r : Nat} (hr : r < df.length) (Q : Nat → Prop) [DecidablePred Q] :
    ((partitionOf df parts r).filter fun s => Q (perm.idxOf s)).card =
      ((Finset.Icc (Runs.start (boundary num df parts perm) (perm.idxOf r))
        (Runs.stop df.length (boundary num df parts perm) (perm.idxOf r))).filter Q).card := by
  have hb := h.marks_boundary
  have hstop := hb.stop_lt (row_at_position h.rows hr).1
  refine Finset.card_nbij' perm.idxOf (fun j => perm.getD j 0) ?_ ?_ ?_ ?_
  · intro s hs
    obtain ⟨hs, hQ⟩ := Finset.mem_filter.mp hs
    have hlt := Finset.mem_range.mp (Finset.mem_filter.mp hs).1
    exact Finset.mem_filter.mpr
      ⟨Finset.mem_Icc.mpr ((mem_partitionOf h.rows hp hb hr hlt).mp hs), hQ⟩
  · intro j hj
    obtain ⟨hj, hQ⟩ := Finset.mem_filter.mp hj
    rw [Finset.mem_Icc] at hj
    obtain ⟨hlt, hpos⟩ := position_of_row h.rows (show j < df.length by omega)
    refine Finset.mem_filter.mpr ⟨(mem_partitionOf h.rows hp hb hr hlt).mpr ?_, ?_⟩
    · rwa [hpos]
    · rwa [hpos]
  · intro s hs
    obtain ⟨hs, -⟩ := Finset.mem_filter.mp hs
    exact (row_at_position h.rows (Finset.mem_range.mp (Finset.mem_filter.mp hs).1)).2
  · intro j hj
    obtain ⟨hj, -⟩ := Finset.mem_filter.mp hj
    rw [Finset.mem_Icc] at hj
    exact (position_of_row h.rows (show j < df.length by omega)).2

/-- **`pos_in_part` is the number of rows of the partition above.** -/
theorem rankOf_eq (h : IsSort (sortKeys parts orders) (numbered num df) perm)
    (hp : "_pos" ∉ parts) {r : Nat} (hr : r < df.length) :
    (rankOf df parts perm r : Int) = posInPart num df parts perm (perm.idxOf r) := by
  have hb := h.marks_boundary
  have hlt := (row_at_position h.rows hr).1
  have hstart := hb.start_le (perm.idxOf r)
  have hstop := hb.le_stop hlt
  have hinterval : (Finset.Icc (Runs.start (boundary num df parts perm) (perm.idxOf r))
      (Runs.stop df.length (boundary num df parts perm) (perm.idxOf r))).filter
        (· < perm.idxOf r) =
      Finset.Ico (Runs.start (boundary num df parts perm) (perm.idxOf r)) (perm.idxOf r) := by
    ext j
    rw [Finset.mem_filter, Finset.mem_Icc, Finset.mem_Ico]
    omega
  unfold rankOf posInPart pstart
  rw [card_partition h hp hr (· < perm.idxOf r), hinterval, Nat.card_Ico]
  exact Int.ofNat_sub hstart

/-- `psize` is the number of rows of the partition. -/
theorem card_partitionOf (h : IsSort (sortKeys parts orders) (numbered num df) perm)
    (hp : "_pos" ∉ parts) {r : Nat} (hr : r < df.length) :
    ((partitionOf df parts r).card : Int) = psize num df parts perm (perm.idxOf r) := by
  have hb := h.marks_boundary
  have hlt := (row_at_position h.rows hr).1
  have hstart := hb.start_le (perm.idxOf r)
  have hstop := hb.le_stop hlt
  have hcard := card_partition h hp hr fun _ => True
  rw [Finset.filter_true, Finset.filter_true, Nat.card_Icc] at hcard
  unfold psize pend pstart
  rw [hcard]
  omega

/-- Rows of one partition have one first position. -/
theorem pstart_eq (h : IsSort (sortKeys parts orders) (numbered num df) perm)
    (hp : "_pos" ∉ parts) {r s : Nat} (hr : r < df.length) (hs : s ∈ partitionOf df parts r) :
    pstart num df parts perm (perm.idxOf s) = pstart num df parts perm (perm.idxOf r) := by
  have hb := h.marks_boundary
  have hlt := Finset.mem_range.mp (Finset.mem_filter.mp hs).1
  have hpos := (row_at_position h.rows hr).1
  have hpos' := (row_at_position h.rows hlt).1
  unfold pstart
  rw [(hb.start_eq_iff hpos hpos').mpr
    ((hb.mem_run hpos hpos').mpr ((mem_partitionOf h.rows hp hb hr hlt).mp hs))]

/-- The row of a partition at a position. -/
theorem mem_partition_pos (h : IsSort (sortKeys parts orders) (numbered num df) perm)
    (hp : "_pos" ∉ parts) {r j : Nat} (hr : r < df.length)
    (hlo : pstart num df parts perm (perm.idxOf r) ≤ j)
    (hhi : (j : Int) ≤ pend num df parts perm (perm.idxOf r)) :
    perm.getD j 0 ∈ partitionOf df parts r ∧ perm.idxOf (perm.getD j 0) = j := by
  have hb := h.marks_boundary
  have hstop := hb.stop_lt (row_at_position h.rows hr).1
  unfold pstart at hlo
  unfold pend at hhi
  obtain ⟨hlt, hpos⟩ := position_of_row h.rows (show j < df.length by omega)
  refine ⟨(mem_partitionOf h.rows hp hb hr hlt).mpr ?_, hpos⟩
  rw [hpos]
  omega

/-- The order of two rows by their order keys is that of their positions' cells. -/
theorem rowBefore_positions (h : IsSort (sortKeys parts orders) (numbered num df) perm)
    (ho : "_pos" ∉ orders.map Prod.fst) {r s : Nat} (hr : r < df.length) (hs : s < df.length) :
    rowBefore orders (work num df perm (perm.idxOf s)) (work num df perm (perm.idxOf r)) =
      rowBefore orders (rowAt df s) (rowAt df r) := by
  have hcell : ∀ {r : Nat}, r < df.length → ∀ k ∈ orders,
      work num df perm (perm.idxOf r) k.1 = rowAt df r k.1 := by
    intro r hr k hk
    obtain ⟨hlt, hrow⟩ := row_at_position h.rows hr
    have hne : k.1 ≠ "_pos" := fun hpos => ho (hpos ▸ List.mem_map_of_mem hk)
    have hcells : work num df perm (perm.idxOf r) k.1 =
      rowAt df (perm.getD (perm.idxOf r) 0) k.1 := sortedRow_numbered h.rows hlt hne
    rwa [hrow] at hcells
  exact rowBefore_congr (hcell hs) (hcell hr)

/-- In a partition, a row with a smaller order key stands higher. -/
theorem position_lt_of_before (h : IsSort (sortKeys parts orders) (numbered num df) perm)
    (hp : "_pos" ∉ parts) (ho : "_pos" ∉ orders.map Prod.fst) {r s : Nat} (hr : r < df.length)
    (hs : s ∈ partitionOf df parts r)
    (hbefore : rowBefore orders (rowAt df s) (rowAt df r) = true) :
    perm.idxOf s < perm.idxOf r := by
  have hb := h.marks_boundary
  have hlt := Finset.mem_range.mp (Finset.mem_filter.mp hs).1
  have hpos := (row_at_position h.rows hr).1
  have hpos' := (row_at_position h.rows hlt).1
  by_contra hge
  have hkey := (hb.mem_run hpos hpos').mpr ((mem_partitionOf h.rows hp hb hr hlt).mp hs)
  have hafter := h.orders_ordered (Nat.le_of_not_lt hge) (by rwa [length_numbered]) hkey
  rw [← rowBefore_positions h ho hr hlt] at hbefore
  exact Bool.false_ne_true (hafter.symm.trans hbefore)

/-- **The rows before the peers of a row stand from the start of the partition to the start of the
peers.** -/
theorem mem_preceding (h : IsSort (sortKeys parts orders) (numbered num df) perm)
    (hp : "_pos" ∉ parts) (ho : "_pos" ∉ orders.map Prod.fst) {r s : Nat} (hr : r < df.length)
    (hs : s < df.length) : s ∈ preceding df parts orders r ↔
      Runs.start (boundary num df parts perm) (perm.idxOf r) ≤ perm.idxOf s ∧
        perm.idxOf s < Runs.start (peers num df parts orders perm) (perm.idxOf r) := by
  have hb := h.marks_boundary
  have hpeer := h.marks_peerBoundary
  have hpos := (row_at_position h.rows hr).1
  have hpos' := (row_at_position h.rows hs).1
  have hmem := mem_partitionOf h.rows hp hb hr hs
  have hsame := rowBefore_positions h ho hr hs
  rw [preceding, Finset.mem_filter]
  constructor
  · rintro ⟨hpart, hbefore⟩
    have hlt := position_lt_of_before h hp ho hr hpart hbefore
    refine ⟨(hmem.mp hpart).1, ?_⟩
    by_contra hge
    -- from the start of the peers to the row all rows have its keys
    have hkey := (hpeer.mem_run hpos hpos').mpr
      ⟨by omega, hlt.le.trans (hpeer.le_stop hpos)⟩
    rw [← hsame, rowBefore_congr (fun k hk => keyOf_eq_iff.mp (Prod.mk.inj hkey).2 k.1
      (List.mem_map_of_mem hk)) fun _ _ => rfl, rowBefore_irrefl] at hbefore
    cases hbefore
  · rintro ⟨hlo, hhi⟩
    have hle := hpeer.start_le (perm.idxOf r)
    have hpart := hmem.mpr ⟨hlo, by have := hb.le_stop hpos; omega⟩
    refine ⟨hpart, ?_⟩
    have hkey := (hb.mem_run hpos hpos').mpr (hmem.mp hpart)
    have hafter := h.orders_ordered (i := perm.idxOf s) (j := perm.idxOf r) (by omega)
      (by rwa [length_numbered]) hkey.symm
    by_contra hno
    rw [← hsame] at hno
    -- neither comes first, so the two rows are peers
    have hagree := rowBefore_total (Bool.eq_false_of_not_eq_true hno) hafter
    have hpeers : peerKey parts orders (work num df perm) (perm.idxOf s) =
        peerKey parts orders (work num df perm) (perm.idxOf r) := by
      refine Prod.ext hkey (keyOf_eq_iff.mpr fun c hc => ?_)
      obtain ⟨k, hk, rfl⟩ := List.mem_map.mp hc
      exact hagree k hk
    have hstart := ((hpeer.mem_run hpos hpos').mp hpeers).1
    omega

/-! ## 4. The ranking functions -/

theorem rowNumber_right (h : IsSort (sortKeys parts orders) (numbered num df) perm)
    (hp : "_pos" ∉ parts) (ho : "_pos" ∉ orders.map Prod.fst) :
    Numbers df parts orders (rankWindow num df parts orders perm .rowNumber) := by
  have hvalue : ∀ r, rankWindow num df parts orders perm .rowNumber r =
      some (posInPart num df parts perm (perm.idxOf r) + 1) := fun r => rfl
  intro r hr
  have hb := h.marks_boundary
  have hcard := card_partitionOf h hp hr
  constructor
  · ext x
    rw [Finset.mem_image, Finset.mem_image]
    constructor
    · rintro ⟨s, hs, rfl⟩
      have hlt := Finset.mem_range.mp (Finset.mem_filter.mp hs).1
      obtain ⟨hlo, hhi⟩ := (mem_partitionOf h.rows hp hb hr hlt).mp hs
      have hsame := pstart_eq h hp hr hs
      refine ⟨perm.idxOf s - Runs.start (boundary num df parts perm) (perm.idxOf r) + 1,
        Finset.mem_Icc.mpr ⟨by omega, ?_⟩, ?_⟩
      · unfold psize pend pstart at hcard
        omega
      · rw [hvalue, posInPart, hsame, pstart]
        congr 1
        omega
    · rintro ⟨k, hk, rfl⟩
      rw [Finset.mem_Icc] at hk
      unfold psize at hcard
      have hpos : (0 : Int) ≤ pstart num df parts perm (perm.idxOf r) := Int.natCast_nonneg _
      obtain ⟨hmem, hidx⟩ := mem_partition_pos h hp hr
        (j := (pstart num df parts perm (perm.idxOf r) + k - 1).toNat) (by omega) (by omega)
      refine ⟨_, hmem, ?_⟩
      rw [hvalue, posInPart, pstart_eq h hp hr hmem, hidx]
      congr 1
      omega
  · intro s hs hbefore
    have hlt := position_lt_of_before h hp ho hr hs hbefore
    refine ⟨_, _, hvalue s, hvalue r, ?_⟩
    rw [posInPart, posInPart, pstart_eq h hp hr hs]
    omega

/-- The rows before the peers, by position. -/
theorem preceding_eq (h : IsSort (sortKeys parts orders) (numbered num df) perm)
    (hp : "_pos" ∉ parts) (ho : "_pos" ∉ orders.map Prod.fst) {r : Nat} (hr : r < df.length) :
    preceding df parts orders r =
      (Finset.Ico (Runs.start (boundary num df parts perm) (perm.idxOf r))
        (Runs.start (peers num df parts orders perm) (perm.idxOf r))).image
          fun j => perm.getD j 0 := by
  have hle := (h.marks_peerBoundary).start_le (perm.idxOf r)
  have hpos := (row_at_position h.rows hr).1
  ext s
  rw [Finset.mem_image]
  constructor
  · intro hs
    have hlt := Finset.mem_range.mp (Finset.mem_filter.mp (Finset.mem_filter.mp hs).1).1
    exact ⟨perm.idxOf s, Finset.mem_Ico.mpr ((mem_preceding h hp ho hr hlt).mp hs),
      (row_at_position h.rows hlt).2⟩
  · rintro ⟨j, hj, rfl⟩
    rw [Finset.mem_Ico] at hj
    obtain ⟨hlt, hidx⟩ := position_of_row h.rows (show j < df.length by omega)
    exact (mem_preceding h hp ho hr hlt).mpr (by rwa [hidx])

theorem card_preceding (h : IsSort (sortKeys parts orders) (numbered num df) perm)
    (hp : "_pos" ∉ parts) (ho : "_pos" ∉ orders.map Prod.fst) {r : Nat} (hr : r < df.length) :
    (preceding df parts orders r).card =
      Runs.start (peers num df parts orders perm) (perm.idxOf r) -
        Runs.start (boundary num df parts perm) (perm.idxOf r) := by
  have hle := (h.marks_peerBoundary).start_le (perm.idxOf r)
  have hpos := (row_at_position h.rows hr).1
  rw [preceding_eq h hp ho hr, Finset.card_image_of_injOn, Nat.card_Ico]
  refine rows_injOn h.rows _ fun j hj => ?_
  rw [Finset.mem_Ico] at hj
  exact Finset.mem_range.mpr (by omega)

/-- `s.where(mask).ffill()` is the value at the last position of the mask. -/
theorem whereFfill_eq {β : Type} {mask : Nat → Bool} (h0 : mask 0 = true) (s : Nat → β) (i : Nat) :
    whereFfill mask s i = some (s (Runs.start mask i)) := by
  obtain ⟨hle, hmask, hnone⟩ := Runs.start_spec h0 i
  refine Runs.ffill_eq_some.mpr ⟨_, hle, by rw [hmask]; rfl, fun k hk hk' => ?_⟩
  rw [hnone k hk hk']
  rfl

/-- The peers of a row begin in its partition. -/
theorem start_peers (h : IsSort (sortKeys parts orders) (numbered num df) perm) {i : Nat}
    (hi : i < df.length) :
    Runs.start (boundary num df parts perm) (Runs.start (peers num df parts orders perm) i) =
      Runs.start (boundary num df parts perm) i := by
  have hpeer := h.marks_peerBoundary
  have hle := hpeer.start_le i
  exact (h.marks_boundary.start_eq_iff hi (by omega)).mpr (Prod.mk.inj (hpeer.key_start hi)).1

theorem rank_right (h : IsSort (sortKeys parts orders) (numbered num df) perm)
    (hp : "_pos" ∉ parts) (ho : "_pos" ∉ orders.map Prod.fst) :
    Ranks df parts orders (rankWindow num df parts orders perm .rank) := by
  intro r hr
  have hpeer := h.marks_peerBoundary
  have hpos := (row_at_position h.rows hr).1
  have hle := h.marks_boundary.start_le_start hpeer (fun _ _ hk => (Prod.mk.inj hk).1) hpos
  have hvalue : rankWindow num df parts orders perm .rank r =
      some (posInPart num df parts perm
        (Runs.start (peers num df parts orders perm) (perm.idxOf r)) + 1) :=
    whereFfill_eq hpeer.first _ _
  rw [hvalue, card_preceding h hp ho hr, posInPart, pstart, start_peers h hpos]
  congr 1
  omega

/-- The distinct order keys before the peers are the boundaries of peers there. -/
theorem card_order_keys (h : IsSort (sortKeys parts orders) (numbered num df) perm)
    (hp : "_pos" ∉ parts) (ho : "_pos" ∉ orders.map Prod.fst) {r : Nat} (hr : r < df.length) :
    ((preceding df parts orders r).image fun s =>
      keyOf (orders.map Prod.fst) (rowAt df s)).card =
    ((Finset.Ico (Runs.start (boundary num df parts perm) (perm.idxOf r))
      (Runs.start (peers num df parts orders perm) (perm.idxOf r))).image
        (peerKey parts orders (work num df perm))).card := by
  have hb := h.marks_boundary
  have hpos := (row_at_position h.rows hr).1
  have hle := h.marks_peerBoundary.start_le (perm.idxOf r)
  rw [preceding_eq h hp ho hr, Finset.image_image]
  -- the partition key is the same on all of them
  have hpair : (Finset.Ico (Runs.start (boundary num df parts perm) (perm.idxOf r))
      (Runs.start (peers num df parts orders perm) (perm.idxOf r))).image
        (peerKey parts orders (work num df perm)) =
      ((Finset.Ico (Runs.start (boundary num df parts perm) (perm.idxOf r))
        (Runs.start (peers num df parts orders perm) (perm.idxOf r))).image
          ((fun s => keyOf (orders.map Prod.fst) (rowAt df s)) ∘ fun j => perm.getD j 0)).image
        fun k => (partKey parts (work num df perm) (perm.idxOf r), k) := by
    rw [Finset.image_image]
    refine Finset.image_congr fun j hj => ?_
    have hj := Finset.mem_Ico.mp hj
    have hstop := hb.le_stop hpos
    have hlt : j < df.length := by omega
    have hpart := (hb.mem_run hpos hlt).mpr ⟨hj.1, by omega⟩
    exact Prod.ext hpart (keyOf_sortedRow h.rows ho hlt)
  rw [hpair, Finset.card_image_of_injective _ fun _ _ hk => (Prod.mk.inj hk).2]

theorem denseRank_right (h : IsSort (sortKeys parts orders) (numbered num df) perm)
    (hp : "_pos" ∉ parts) (ho : "_pos" ∉ orders.map Prod.fst) :
    DenseRanks df parts orders (rankWindow num df parts orders perm .denseRank) := by
  intro r hr
  have hb := h.marks_boundary
  have hpeer := h.marks_peerBoundary
  have hpos := (row_at_position h.rows hr).1
  have hle := hb.start_le_start hpeer (fun _ _ hk => (Prod.mk.inj hk).1) hpos
  obtain ⟨hlast, hmark, hnone⟩ := Runs.start_spec hpeer.first (perm.idxOf r)
  have hvalue : rankWindow num df parts orders perm .denseRank r =
      some ((Runs.number (peers num df parts orders perm) (perm.idxOf r) : Int) -
        Runs.number (peers num df parts orders perm)
          (Runs.start (boundary num df parts perm) (perm.idxOf r)) + 1) := by
    unfold rankWindow restored rankColumn
    dsimp only
    rw [whereFfill_eq hb.first, Option.map_some]
  have hnumber := Runs.number_eq_add_card hle hmark
  rw [(Runs.number_eq_iff hlast).mpr hnone, ← hpeer.card_image (by omega),
    ← card_order_keys h hp ho hr] at hnumber
  rw [hvalue, hnumber]
  congr 1
  omega

/-! ## 5. The offset functions -/

theorem shift_eq {β : Type} {n i : Nat} {s : Nat → Option β} {k t : Int} (h : (i : Int) - k = t) :
    shift n s k i = if 0 ≤ t ∧ t < n then s t.toNat else none := by
  unfold shift
  rw [h]

/-- A row of the input and its position hold the same but for `_pos`. -/
theorem OffsetFunc.Unstamped.row {w : OffsetFunc V α} (hw : w.Unstamped)
    (h : IsSort (sortKeys parts orders) (numbered num df) perm) {i : Nat} (hi : i < df.length) :
    w.arg.value (work num df perm i) = w.arg.value (rowAt df (perm.getD i 0)) ∧
      w.defaultAt (work num df perm i) = w.defaultAt (rowAt df (perm.getD i 0)) :=
  hw _ _ fun _ hc _ => sortedRow_numbered h.rows hi hc

/-- A LAG or LEAD reads the row so many places away, or takes the default. -/
theorem offsetColumn_eq (h : IsSort (sortKeys parts orders) (numbered num df) perm)
    {w : OffsetFunc V α} (hw : w.Unstamped) {r : Nat} (hr : r < df.length) :
    restored perm (offsetColumn num df parts perm w) r =
      if valid num df parts perm w (perm.idxOf r) then leak df perm w r
      else w.defaultAt (rowAt df r) := by
  obtain ⟨hpos, hrow⟩ := row_at_position h.rows hr
  have hdefault : w.defaultAt (work num df perm (perm.idxOf r)) = w.defaultAt (rowAt df r) := by
    rw [(hw.row h hpos).2, hrow]
  have hshift : shifted num df perm w (perm.idxOf r) = leak df perm w r := by
    have hplace : (perm.idxOf r : Int) - (if w.lead then -w.places else w.places) =
        perm.idxOf r + w.down := by
      unfold OffsetFunc.down
      split <;> omega
    rw [shifted, shift_eq hplace, leak]
    split
    · rename_i hin
      exact (hw.row h (by omega)).1
    · rfl
  rw [← hshift, ← hdefault]
  rfl

/-- The row that is sought stands so many places away, within the partition. -/
theorem target_iff (h : IsSort (sortKeys parts orders) (numbered num df) perm)
    (hp : "_pos" ∉ parts) {w : OffsetFunc V α} {r s : Nat} (hr : r < df.length) :
    Target df parts perm w r s ↔
      s ∈ partitionOf df parts r ∧ (perm.idxOf s : Int) = perm.idxOf r + w.down := by
  refine and_congr_right fun hs => ?_
  have hlt := Finset.mem_range.mp (Finset.mem_filter.mp hs).1
  rw [rankOf_eq h hp hr, rankOf_eq h hp hlt, posInPart, posInPart, pstart_eq h hp hr hs]
  constructor <;> intro heq <;> omega

/-- There is such a row exactly when the place lies in the partition. -/
theorem exists_target_iff (h : IsSort (sortKeys parts orders) (numbered num df) perm)
    (hp : "_pos" ∉ parts) {w : OffsetFunc V α} {r : Nat} (hr : r < df.length) :
    (∃ s, Target df parts perm w r s) ↔
      pstart num df parts perm (perm.idxOf r) ≤ perm.idxOf r + w.down ∧
        perm.idxOf r + w.down ≤ pend num df parts perm (perm.idxOf r) := by
  have hb := h.marks_boundary
  constructor
  · rintro ⟨s, hs⟩
    obtain ⟨hpart, hplace⟩ := (target_iff h hp hr).mp hs
    have hlt := Finset.mem_range.mp (Finset.mem_filter.mp hpart).1
    obtain ⟨hlo, hhi⟩ := (mem_partitionOf h.rows hp hb hr hlt).mp hpart
    unfold pstart pend
    omega
  · rintro ⟨hlo, hhi⟩
    have hnonneg : (0 : Int) ≤ pstart num df parts perm (perm.idxOf r) := Int.natCast_nonneg _
    obtain ⟨hmem, hidx⟩ := mem_partition_pos h hp hr
      (j := ((perm.idxOf r : Int) + w.down).toNat) (by omega) (by omega)
    exact ⟨_, (target_iff h hp hr).mpr ⟨hmem, by rw [hidx]; omega⟩⟩

/-- The test of the partition: LAG looks at its start, LEAD at its end. -/
theorem valid_iff (w : OffsetFunc V α) (i : Nat) : valid num df parts perm w i = true ↔
    if w.lead then (i : Int) + w.down ≤ pend num df parts perm i
    else pstart num df parts perm i ≤ i + w.down := by
  unfold valid OffsetFunc.down posInPart psize
  split
  · rw [decide_eq_true_iff]
    constructor <;> intro hle <;> omega
  · rw [decide_eq_true_iff]
    constructor <;> intro hle <;> omega

/-- **LAG and LEAD are right exactly when the offset is not negative, or what they read beyond the
partition is the default.** -/
theorem offset_right_iff (h : IsSort (sortKeys parts orders) (numbered num df) perm)
    (hp : "_pos" ∉ parts) {w : OffsetFunc V α} (hw : w.Unstamped) :
    OffsetRight df parts perm w (restored perm (offsetColumn num df parts perm w)) ↔
      0 ≤ w.places ∨ ∀ r < df.length, (∀ s, ¬ Target df parts perm w r s) →
        leak df perm w r = w.defaultAt (rowAt df r) := by
  have hends : ∀ r < df.length, pstart num df parts perm (perm.idxOf r) ≤ perm.idxOf r ∧
      perm.idxOf r ≤ pend num df parts perm (perm.idxOf r) := by
    intro r hr
    have hb := h.marks_boundary
    have hstart := hb.start_le (perm.idxOf r)
    have hstop := hb.le_stop (row_at_position h.rows hr).1
    unfold pstart pend
    omega
  -- beyond the partition the test fails for an offset that is not negative and holds for a negative
  have htest : ∀ r < df.length, (∀ s, ¬ Target df parts perm w r s) →
      (valid num df parts perm w (perm.idxOf r) = true ↔ w.places < 0) := by
    intro r hr hno
    have hnone : ¬ (pstart num df parts perm (perm.idxOf r) ≤ perm.idxOf r + w.down ∧
        perm.idxOf r + w.down ≤ pend num df parts perm (perm.idxOf r)) := fun hin =>
      not_exists.mpr hno ((exists_target_iff h hp hr).mpr hin)
    obtain ⟨hlo, hhi⟩ := hends r hr
    rw [valid_iff]
    unfold OffsetFunc.down at hnone ⊢
    split
    · rename_i hlead
      rw [if_pos hlead] at hnone
      omega
    · rename_i hlead
      rw [if_neg hlead] at hnone
      omega
  have htarget : ∀ r < df.length, ∀ s, Target df parts perm w r s →
      restored perm (offsetColumn num df parts perm w) r = w.arg.value (rowAt df s) := by
    intro r hr s hs
    obtain ⟨hlo, hhi⟩ := (exists_target_iff h hp hr).mp ⟨s, hs⟩
    obtain ⟨hpart, hplace⟩ := (target_iff h hp hr).mp hs
    have hlt := Finset.mem_range.mp (Finset.mem_filter.mp hpart).1
    obtain ⟨hpos, hrow⟩ := row_at_position h.rows hlt
    have hvalid : valid num df parts perm w (perm.idxOf r) = true := by
      rw [valid_iff]
      split
      · exact hhi
      · exact hlo
    rw [offsetColumn_eq h hw hr, if_pos hvalid, leak, ← hplace, if_pos (by omega), Int.toNat_natCast, hrow]
  constructor
  · intro hright
    by_cases hneg : 0 ≤ w.places
    · exact .inl hneg
    · refine .inr fun r hr hno => ?_
      have hvalue := (hright r hr).2 hno
      rwa [offsetColumn_eq h hw hr, if_pos ((htest r hr hno).mpr (by omega))] at hvalue
  · intro hcond r hr
    refine ⟨fun s hs => htarget r hr s hs, fun hno => ?_⟩
    rw [offsetColumn_eq h hw hr]
    split
    · rename_i hvalid
      have hneg := (htest r hr hno).mp hvalid
      exact (hcond.resolve_left (by omega)) r hr hno
    · rfl

omit [LinearOrder V] in
theorem OffsetFunc.Unstamped.kept {w : OffsetFunc V α} (hw : w.Unstamped) {k : WindowKeys V}
    (hk : k.Computed df) : w.Kept df (k.frame df) := fun r hr =>
  hw _ _ fun c _ hmade => (hk.2 r hr).2.2 c hmade

/-- **Ranking and offset functions.**  For every frame and every keys that read no working column, and
every arrangement by them, the function is computed over a frame that holds the keys.  In it ROW_NUMBER,
RANK and DENSE_RANK are what SQL defines; LAG and LEAD are so exactly when the argument is a Series and
the offset is not negative or, wherever no row of the partition is so many rows away, the row there in
the whole frame holds the default. -/
theorem positioned {k : WindowKeys V}
    (h : IsSort (sortKeys k.parts k.orders) (numbered num (k.frame df)) perm) (hk : k.Clear)
    {w : OffsetFunc V α} (hw : w.Unstamped) :
    (k.Computed df ∧ w.Kept df (k.frame df)) ∧
    (Numbers (k.frame df) k.parts k.orders
        (rankWindow num (k.frame df) k.parts k.orders perm .rowNumber) ∧
      Ranks (k.frame df) k.parts k.orders (rankWindow num (k.frame df) k.parts k.orders perm .rank) ∧
      DenseRanks (k.frame df) k.parts k.orders
        (rankWindow num (k.frame df) k.parts k.orders perm .denseRank)) ∧
    (OffsetComputed (k.frame df) k.parts perm w (offsetWindow num (k.frame df) k.parts perm w) ↔
      w.arg.IsSeries ∧ (0 ≤ w.places ∨
        ∀ r < df.length, (∀ s, ¬ Target (k.frame df) k.parts perm w r s) →
          leak (k.frame df) perm w r = w.defaultAt (rowAt df r))) := by
  obtain ⟨hp, ho⟩ := hk.pos
  have hcomputed := k.computed hk df
  have hkept := hw.kept hcomputed
  refine ⟨⟨hcomputed, hkept⟩, ⟨rowNumber_right h hp ho, rank_right h hp ho, denseRank_right h hp ho⟩, ?_⟩
  have hdefault : (∀ r < (k.frame df).length, (∀ s, ¬ Target (k.frame df) k.parts perm w r s) →
        leak (k.frame df) perm w r = w.defaultAt (rowAt (k.frame df) r)) ↔
      ∀ r < df.length, (∀ s, ¬ Target (k.frame df) k.parts perm w r s) →
        leak (k.frame df) perm w r = w.defaultAt (rowAt df r) := by
    rw [hcomputed.1]
    exact forall₂_congr fun r hr => by rw [(hkept r hr).2]
  rw [← hdefault, ← offset_right_iff h hp hw]
  unfold OffsetComputed offsetWindow Argument.IsSeries
  cases w.arg with
  | series f =>
    constructor
    · rintro ⟨value, hvalue, hright⟩
      cases hvalue
      exact ⟨trivial, hright⟩
    · rintro ⟨-, hright⟩
      exact ⟨_, rfl, hright⟩
  | scalar v =>
    constructor
    · rintro ⟨value, hvalue, -⟩
      cases hvalue
    · rintro ⟨hseries, -⟩
      exact hseries.elim

end Sorted

/-! ## 6. Small frames -/

/-- A row with a partition key and an order key. -/
def keyedRow (p k : Nat) : Row Nat := fun c =>
  if c = "p" then some p else if c = "k" then some k else none

/-- `PARTITION BY p ORDER BY k`. -/
def byPThenK : WindowKeys Nat := ⟨[.column "p"], [(.column "k", true)]⟩

theorem byPThenK_clear : byPThenK.Clear := by
  intro key hkey
  have hcols : ∀ n ∈ ["p", "k"], ¬ IsMade n ∧ n ≠ "_pos" := fun n hn =>
    ⟨not_made (by revert n; decide), by revert n; decide⟩
  rcases List.mem_cons.mp hkey with rfl | hkey
  · refine ⟨fun n hn => ?_, fun r s hrs => hrs "p" (hcols "p" (by decide)).1⟩
    cases hn
    exact hcols "p" (by decide)
  · cases List.mem_singleton.mp hkey
    refine ⟨fun n hn => ?_, fun r s hrs => hrs "k" (hcols "k" (by decide)).1⟩
    cases hn
    exact hcols "k" (by decide)

/-- `LAG(k, offset, 0)`. -/
def lagKey (offset : Int) : OffsetFunc Nat Nat :=
  ⟨false, .series fun r => r "k", some offset, some fun _ => some 0⟩

theorem lagKey_unstamped (offset : Int) : (lagKey offset).Unstamped := fun r s h =>
  ⟨h "k" (by decide) (not_made (by decide)), rfl⟩

/-- Two rows in one partition and one in another. -/
def threeKeyed : List (Row Nat) := [keyedRow 1 2, keyedRow 1 1, keyedRow 2 1]

theorem threeKeyed_sorted : IsSort (sortKeys byPThenK.parts byPThenK.orders)
    (numbered id (byPThenK.frame threeKeyed)) [1, 0, 2] where
  isPerm := by decide
  sorted i j hij hj := by
    have hall : ∀ j < 3, ∀ i < j, rowBefore (sortKeys ["p"] [("k", true)])
      (sortedRow (numbered id threeKeyed) [1, 0, 2] j)
      (sortedRow (numbered id threeKeyed) [1, 0, 2] i) = false := by decide
    exact hall j hj i hij

theorem positioned_threeKeyed :
    (Numbers threeKeyed ["p"] [("k", true)]
        (rankWindow id threeKeyed ["p"] [("k", true)] [1, 0, 2] .rowNumber) ∧
      Ranks threeKeyed ["p"] [("k", true)]
        (rankWindow id threeKeyed ["p"] [("k", true)] [1, 0, 2] .rank) ∧
      DenseRanks threeKeyed ["p"] [("k", true)]
        (rankWindow id threeKeyed ["p"] [("k", true)] [1, 0, 2] .denseRank)) ∧
    OffsetComputed threeKeyed ["p"] [1, 0, 2] (lagKey 1)
      (offsetWindow id threeKeyed ["p"] [1, 0, 2] (lagKey 1)) :=
  have h := positioned threeKeyed_sorted byPThenK_clear (lagKey_unstamped 1)
  ⟨h.2.1, h.2.2.mpr ⟨trivial, .inl (by decide)⟩⟩

/-- Two partitions of one row. -/
def twoKeyed : List (Row Nat) := [keyedRow 1 1, keyedRow 2 5]

/-- **`LAG(k, -1, 0)` on the last row of a partition** gives the first row of the next one. -/
theorem lag_leaks : IsSort (sortKeys ["p"] [("k", true)]) (numbered id twoKeyed) [0, 1] ∧
    (offsetWindow id twoKeyed ["p"] [0, 1] (lagKey (-1))).map (fun value => value 0) =
      some (some 5) ∧
    ¬ OffsetComputed twoKeyed ["p"] [0, 1] (lagKey (-1))
      (offsetWindow id twoKeyed ["p"] [0, 1] (lagKey (-1))) := by
  have hsorted : ∀ j < 2, ∀ i < j, rowBefore (sortKeys ["p"] [("k", true)])
    (sortedRow (numbered id twoKeyed) [0, 1] j)
    (sortedRow (numbered id twoKeyed) [0, 1] i) = false := by decide
  refine ⟨⟨by decide, fun i j hij hj => hsorted j hj i hij⟩, by decide, ?_⟩
  rintro ⟨value, hvalue, hright⟩
  cases hvalue
  have hno : ∀ s ∈ partitionOf twoKeyed ["p"] 0, (rankOf twoKeyed ["p"] [0, 1] s : Int) ≠
      rankOf twoKeyed ["p"] [0, 1] 0 + (lagKey (-1)).down := by decide
  have hzero := (hright 0 (by decide)).2 fun s hs => hno s hs.1 hs.2
  revert hzero
  decide

/-- **`LAG(5) OVER (ORDER BY k)`** raises. -/
example : (offsetWindow id twoKeyed [] [0, 1]
    (⟨false, .scalar (some 5), none, none⟩ : OffsetFunc Nat Nat)).isNone = true := rfl

end Windows

end RyuDB
