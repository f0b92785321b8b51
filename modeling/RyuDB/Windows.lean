/-
# Window functions: the sorted frame

`_window_positioned` and `_window_running` give every row its number in a column `_pos`, sort the frame
by the partition and order keys, and find the partitions and the groups of peers by comparing every row
with the one before it.  Whatever they compute goes back to the order of the input by `_pos`.

The sort is any arrangement of the rows in which no row stands before a smaller one; cuDF does not
promise an order of ties.  `marks_partition` and `marks_peers` say that the two boundaries mark the runs
of the keys, which is all that the functions over the frame need.

* `IsSort.marks_partition`, `IsSort.marks_peers`.

A key that is no column is computed into a column `_wp0`, `_wp1`, ... or `_wo0`, `_wo1`, ... of the frame
first, over a column of the user that has the name (`WindowKeys`).  `WindowKeys.computed` says that the
frame then holds the keys, and the input beside them, where no key reads such a column.  An argument
without columns is a Python value and not a Series (`Argument`), so whatever asks it for `notna` or
`shift` raises.
-/
import RyuDB.Frame
import RyuDB.Lib.Runs

namespace RyuDB

namespace Windows

variable {V : Type} [LinearOrder V]

/-! ## 1. The order of rows -/

/-- `sort_values` on one column: NULL comes last in both directions. -/
def cellBefore (ascending : Bool) : Cell V → Cell V → Bool
  | some x, some y => if ascending then decide (x < y) else decide (y < x)
  | some _, none => true
  | none, _ => false

/-- `sort_values` on several columns: the first that tells two rows apart decides. -/
def rowBefore : List (String × Bool) → Row V → Row V → Bool
  | [], _, _ => false
  | (c, asc) :: by_, r, s =>
    cellBefore asc (r c) (s c) || (decide (r c = s c) && rowBefore by_ r s)

/-- `_dedup_sort_keys`. -/
def dedupSortKeys (by_ : List (String × Bool)) : List (String × Bool) := go [] by_
where
  go (seen : List String) : List (String × Bool) → List (String × Bool)
    | [] => []
    | (name, a) :: rest =>
      if name ∈ seen then go seen rest else (name, a) :: go (name :: seen) rest

theorem cellBefore_irrefl (asc : Bool) (x : Cell V) : cellBefore asc x x = false := by
  cases x with
  | none => rfl
  | some x => cases asc <;> simp [cellBefore]

theorem cellBefore_total (asc : Bool) (x y : Cell V) :
    x = y ∨ cellBefore asc x y = true ∨ cellBefore asc y x = true := by
  cases x with
  | none =>
    cases y with
    | none => exact .inl rfl
    | some y => exact .inr (.inr rfl)
  | some x =>
    cases y with
    | none => exact .inr (.inl rfl)
    | some y =>
      rcases lt_trichotomy x y with hlt | rfl | hgt
      · cases asc <;> simp [cellBefore, hlt]
      · exact .inl rfl
      · cases asc <;> simp [cellBefore, hgt]

theorem rowBefore_irrefl (by_ : List (String × Bool)) (r : Row V) : rowBefore by_ r r = false := by
  induction by_ with
  | nil => rfl
  | cons k by_ ih => rw [rowBefore, cellBefore_irrefl, ih, Bool.and_false, Bool.or_false]

/-- Two rows of which neither comes first agree on the sort columns. -/
theorem rowBefore_total {by_ : List (String × Bool)} {r s : Row V} (hrs : rowBefore by_ r s = false)
    (hsr : rowBefore by_ s r = false) : ∀ k ∈ by_, r k.1 = s k.1 := by
  induction by_ with
  | nil => exact fun k hk => (List.not_mem_nil hk).elim
  | cons k by_ ih =>
    rw [rowBefore, Bool.or_eq_false_iff] at hrs hsr
    have hk : r k.1 = s k.1 := by
      rcases cellBefore_total k.2 (r k.1) (s k.1) with h | h | h
      · exact h
      · rw [hrs.1] at h
        cases h
      · rw [hsr.1] at h
        cases h
    have hrest := ih (by simpa [hk] using hrs.2) (by simpa [hk] using hsr.2)
    exact fun k' hk' => (List.mem_cons.mp hk').elim (fun h => h ▸ hk) (hrest k')

/-- Only the sort columns count. -/
theorem rowBefore_congr {by_ : List (String × Bool)} {r r' s s' : Row V}
    (hr : ∀ k ∈ by_, r k.1 = r' k.1) (hs : ∀ k ∈ by_, s k.1 = s' k.1) :
    rowBefore by_ r s = rowBefore by_ r' s' := by
  induction by_ with
  | nil => rfl
  | cons k by_ ih =>
    rw [rowBefore, rowBefore, hr k List.mem_cons_self, hs k List.mem_cons_self,
      ih (fun k' h => hr k' (List.mem_cons_of_mem _ h))
        (fun k' h => hs k' (List.mem_cons_of_mem _ h))]

theorem rowBefore_append (as bs : List (String × Bool)) (r s : Row V) :
    rowBefore (as ++ bs) r s = true ↔ rowBefore as r s = true ∨
      (∀ k ∈ as, r k.1 = s k.1) ∧ rowBefore bs r s = true := by
  induction as with
  | nil => simp [rowBefore]
  | cons k as ih =>
    rw [List.cons_append, rowBefore, rowBefore, Bool.or_eq_true, Bool.and_eq_true, ih,
      Bool.or_eq_true, Bool.and_eq_true, List.forall_mem_cons, decide_eq_true_iff]
    tauto

/-- A column that comes again decides nothing. -/
theorem rowBefore_go {r s : Row V} : ∀ (by_ : List (String × Bool)) (seen : List String),
    (∀ c ∈ seen, r c = s c) → rowBefore (dedupSortKeys.go seen by_) r s = rowBefore by_ r s
  | [], _, _ => rfl
  | (c, a) :: by_, seen, h => by
    rw [dedupSortKeys.go]
    split
    · rename_i hc
      rw [rowBefore_go by_ seen h, rowBefore, h c hc, cellBefore_irrefl]
      simp
    · rw [rowBefore, rowBefore]
      by_cases heq : r c = s c
      · rw [rowBefore_go by_ (c :: seen) (List.forall_mem_cons.mpr ⟨heq, h⟩)]
      · simp [heq]

theorem rowBefore_dedup (by_ : List (String × Bool)) (r s : Row V) :
    rowBefore (dedupSortKeys by_) r s = rowBefore by_ r s :=
  rowBefore_go by_ [] fun _ h => (List.not_mem_nil h).elim

/-! ## 2. The sorted frame -/

/-- `work[c] = s`. -/
def withColumn (c : String) (s : Nat → Cell V) (rows : List (Row V)) : List (Row V) :=
  rows.mapIdx fun i r => Function.update r c (s i)

/-- The row of a position. -/
def rowAt (rows : List (Row V)) (i : Nat) : Row V := rows.getD i fun _ => none

/-- The frame with its row numbers in `_pos`; `num` is a number as a cell. -/
def numbered (num : Nat → V) (df : List (Row V)) : List (Row V) :=
  withColumn "_pos" (fun i => some (num i)) df

/-- The columns by which the frame is sorted, the partition keys first. -/
def sortKeys (parts : List String) (orders : List (String × Bool)) : List (String × Bool) :=
  dedupSortKeys (parts.map (fun c => (c, true)) ++ orders)

/-- The row at position `i` of the frame sorted as `perm`. -/
def sortedRow (rows : List (Row V)) (perm : List Nat) (i : Nat) : Row V :=
  rowAt rows (perm.getD i 0)

/-- `sort_values(by, na_position="last")` puts the row `perm[i]` at position `i`. -/
structure IsSort (by_ : List (String × Bool)) (rows : List (Row V)) (perm : List Nat) : Prop where
  isPerm : perm.Perm (List.range rows.length)
  sorted : ∀ i j, i < j → j < rows.length →
    rowBefore by_ (sortedRow rows perm j) (sortedRow rows perm i) = false

/-- `sort_values("_pos")["_wf"]`: the value of row `r` stands at the position of `r`. -/
def restored {α : Type} (perm : List Nat) (result : Nat → α) (r : Nat) : α :=
  result (perm.idxOf r)

/-- `s.shift(k)` in a frame of `n` rows. -/
def shift {α : Type} (n : Nat) (s : Nat → Option α) (k : Int) (i : Nat) : Option α :=
  if 0 ≤ (i : Int) - k ∧ (i : Int) - k < n then s ((i : Int) - k).toNat else none

/-- `_col_changed`. -/
def colChanged (s prev : Cell V) : Bool :=
  let eitherNa := s.isNone || prev.isNone
  let bothNa := s.isNone && prev.isNone
  let oneNa := eitherNa && !bothNa
  let valNeq := match s, prev with
    | some x, some y => decide (x ≠ y)
    | _, _ => false
  oneNa || (!eitherNa && valNeq)

/-- `boundary | _col_changed(work[c], work[c].shift(1))` for every column. -/
def addChanges (n : Nat) (work : Nat → Row V) (cols : List String) (boundary : Nat → Bool) :
    Nat → Bool :=
  cols.foldl (fun b c i => b i || colChanged (work i c) (shift n (fun j => work j c) 1 i)) boundary

/-- `_partition_boundary`. -/
def partitionBoundary (n : Nat) (work : Nat → Row V) (parts : List String) : Nat → Bool :=
  addChanges n work parts fun i => decide (i = 0)

/-- The boundaries of the groups of peers. -/
def peerBoundary (n : Nat) (work : Nat → Row V) (parts : List String)
    (orders : List (String × Bool)) : Nat → Bool :=
  addChanges n work (orders.map Prod.fst) (partitionBoundary n work parts)

omit [LinearOrder V] in
theorem rowAt_numbered (num : Nat → V) (df : List (Row V)) {r : Nat} (hr : r < df.length)
    {c : String} (hc : c ≠ "_pos") : rowAt (numbered num df) r c = rowAt df r c := by
  unfold rowAt numbered withColumn
  rw [List.getD_eq_getElem?_getD, List.getD_eq_getElem?_getD, List.getElem?_mapIdx,
    List.getElem?_eq_getElem hr, Option.map_some, Option.getD_some, Option.getD_some,
    Function.update_of_ne hc]

omit [LinearOrder V] in
theorem length_numbered (num : Nat → V) (df : List (Row V)) :
    (numbered num df).length = df.length := List.length_mapIdx

theorem colChanged_iff {x y : Cell V} : colChanged x y = true ↔ x ≠ y := by
  cases x <;> cases y <;> simp [colChanged]

omit [LinearOrder V] in
theorem keyOf_eq_iff {cols : List String} {r s : Row V} :
    keyOf cols r = keyOf cols s ↔ ∀ c ∈ cols, r c = s c := List.map_inj_left

/-- A row marked by `boundary`, or one with a change in one of the columns. -/
theorem addChanges_iff {n : Nat} {work : Nat → Row V} {boundary : Nat → Bool} {i : Nat}
    (h0 : 0 < i) (hi : i < n) : ∀ {cols : List String}, addChanges n work cols boundary i = true ↔
      boundary i = true ∨ keyOf cols (work i) ≠ keyOf cols (work (i - 1)) := by
  intro cols
  induction cols generalizing boundary with
  | nil => simp [addChanges, keyOf]
  | cons c cols ih =>
    have hshift : shift n (fun j => work j c) 1 i = work (i - 1) c := by
      unfold shift
      rw [if_pos (by omega)]
      congr 1
      omega
    have hstep : addChanges n work (c :: cols) boundary = addChanges n work cols
        (fun i => boundary i || colChanged (work i c) (shift n (fun j => work j c) 1 i)) := rfl
    rw [hstep, ih, Bool.or_eq_true, hshift, colChanged_iff, Ne, Ne, Ne, keyOf_eq_iff,
      keyOf_eq_iff, List.forall_mem_cons]
    tauto

theorem addChanges_zero {n : Nat} {work : Nat → Row V} {boundary : Nat → Bool}
    (h : boundary 0 = true) : ∀ cols : List String, addChanges n work cols boundary 0 = true := by
  intro cols
  induction cols generalizing boundary with
  | nil => exact h
  | cons c cols ih => exact ih (Bool.or_eq_true_iff.mpr (.inl h))

/-! ## 3. Partitions and peers are runs -/

section Sorted

variable {parts : List String} {orders : List (String × Bool)} {rows : List (Row V)}
  {perm : List Nat}

/-- In the sorted frame no row comes before one above it, by the partition and order keys. -/
theorem IsSort.ordered (h : IsSort (sortKeys parts orders) rows perm) {i j : Nat} (hij : i ≤ j)
    (hj : j < rows.length) : rowBefore (parts.map (fun c => (c, true)) ++ orders)
      (sortedRow rows perm j) (sortedRow rows perm i) = false := by
  rcases Nat.eq_or_lt_of_le hij with rfl | hij
  · exact rowBefore_irrefl _ _
  · rw [← rowBefore_dedup]
    exact h.sorted i j hij hj

theorem IsSort.parts_ordered (h : IsSort (sortKeys parts orders) rows perm) {i j : Nat}
    (hij : i ≤ j) (hj : j < rows.length) : rowBefore (parts.map (fun c => (c, true)))
      (sortedRow rows perm j) (sortedRow rows perm i) = false := by
  have hall := h.ordered hij hj
  by_contra hbefore
  rw [(rowBefore_append _ _ _ _).mpr (.inl (by simpa using hbefore))] at hall
  cases hall

/-- Within a partition the order keys decide. -/
theorem IsSort.orders_ordered (h : IsSort (sortKeys parts orders) rows perm) {i j : Nat}
    (hij : i ≤ j) (hj : j < rows.length)
    (hpart : keyOf parts (sortedRow rows perm j) = keyOf parts (sortedRow rows perm i)) :
    rowBefore orders (sortedRow rows perm j) (sortedRow rows perm i) = false := by
  have hall := h.ordered hij hj
  by_contra hbefore
  have hparts : ∀ k ∈ parts.map (fun c => (c, true)),
      sortedRow rows perm j k.1 = sortedRow rows perm i k.1 := by
    intro k hk
    obtain ⟨c, hc, rfl⟩ := List.mem_map.mp hk
    exact keyOf_eq_iff.mp hpart c hc
  rw [(rowBefore_append _ _ _ _).mpr (.inr ⟨hparts, by simpa using hbefore⟩)] at hall
  cases hall

/-- The partition key of a position. -/
def partKey (parts : List String) (work : Nat → Row V) (i : Nat) : Key V := keyOf parts (work i)

/-- The keys of a group of peers. -/
def peerKey (parts : List String) (orders : List (String × Bool)) (work : Nat → Row V) (i : Nat) :
    Key V × Key V := (keyOf parts (work i), keyOf (orders.map Prod.fst) (work i))

/-- Rows between two rows that agree on a prefix of the sort keys agree with them. -/
theorem agree_between {by_ : List (String × Bool)} {r s t : Row V} (hrs : rowBefore by_ s r = false)
    (hst : rowBefore by_ t s = false) (hrt : ∀ k ∈ by_, r k.1 = t k.1) :
    ∀ k ∈ by_, s k.1 = r k.1 := by
  rw [rowBefore_congr (fun k hk => (hrt k hk).symm) fun _ _ => rfl] at hst
  exact rowBefore_total hrs hst

/-- **`boundary` marks the partitions.** -/
theorem IsSort.marks_partition (h : IsSort (sortKeys parts orders) rows perm) :
    Runs.Marks rows.length (partKey parts (sortedRow rows perm))
      (partitionBoundary rows.length (sortedRow rows perm) parts) where
  first := addChanges_zero rfl parts
  marks i h0 hi := by
    unfold partitionBoundary
    rw [addChanges_iff h0 hi, decide_eq_true_iff, or_iff_right (by omega)]
    rfl
  contiguous := by
    intro i j k hij hjk hk hkey
    refine keyOf_eq_iff.mpr fun c hc => ?_
    refine agree_between (h.parts_ordered hij (by omega)) (h.parts_ordered hjk hk) ?_ (c, true)
      (List.mem_map_of_mem hc)
    intro k' hk'
    obtain ⟨c', hc', rfl⟩ := List.mem_map.mp hk'
    exact keyOf_eq_iff.mp hkey c' hc'

/-- **`peer_bdry` marks the groups of peers.** -/
theorem IsSort.marks_peers (h : IsSort (sortKeys parts orders) rows perm) :
    Runs.Marks rows.length (peerKey parts orders (sortedRow rows perm))
      (peerBoundary rows.length (sortedRow rows perm) parts orders) where
  first := addChanges_zero h.marks_partition.first _
  marks i h0 hi := by
    unfold peerBoundary peerKey
    rw [addChanges_iff h0 hi, h.marks_partition.marks i h0 hi, Ne, Ne, Ne, Prod.mk.injEq]
    unfold partKey
    tauto
  contiguous := by
    intro i j k hij hjk hk hkey
    obtain ⟨hparts, horders⟩ := Prod.mk.inj hkey
    have hall : ∀ k' ∈ parts.map (fun c => (c, true)) ++ orders,
        sortedRow rows perm j k'.1 = sortedRow rows perm i k'.1 := by
      refine agree_between (h.ordered hij (by omega)) (h.ordered hjk hk) fun k' hk' => ?_
      rcases List.mem_append.mp hk' with hk' | hk'
      · obtain ⟨c, hc, rfl⟩ := List.mem_map.mp hk'
        exact keyOf_eq_iff.mp hparts c hc
      · exact keyOf_eq_iff.mp horders k'.1 (List.mem_map_of_mem hk')
    refine Prod.ext (keyOf_eq_iff.mpr fun c hc => ?_) (keyOf_eq_iff.mpr fun c hc => ?_)
    · exact hall (c, true) (List.mem_append_left _ (List.mem_map_of_mem hc))
    · obtain ⟨k', hk', rfl⟩ := List.mem_map.mp hc
      exact hall k' (List.mem_append_right _ hk')

end Sorted

/-! ## 4. Rows and positions -/

section Positions

variable {n : Nat} {perm : List Nat}

/-- The row `r` stands at the position `perm.idxOf r`. -/
theorem row_at_position (hperm : perm.Perm (List.range n)) {r : Nat} (hr : r < n) :
    perm.idxOf r < n ∧ perm.getD (perm.idxOf r) 0 = r := by
  have hmem : r ∈ perm := hperm.mem_iff.mpr (List.mem_range.mpr hr)
  have hlt := List.idxOf_lt_length_of_mem hmem
  refine ⟨by rwa [hperm.length_eq, List.length_range] at hlt, ?_⟩
  rw [List.getD_eq_getElem?_getD, List.getElem?_eq_getElem hlt, Option.getD_some]
  exact List.getElem_idxOf hlt

/-- The position `i` holds the row `perm[i]`. -/
theorem position_of_row (hperm : perm.Perm (List.range n)) {i : Nat} (hi : i < n) :
    perm.getD i 0 < n ∧ perm.idxOf (perm.getD i 0) = i := by
  have hlt : i < perm.length := by rwa [hperm.length_eq, List.length_range]
  have hnodup : perm.Nodup := hperm.nodup_iff.mpr List.nodup_range
  rw [List.getD_eq_getElem?_getD, List.getElem?_eq_getElem hlt, Option.getD_some]
  exact ⟨List.mem_range.mp (hperm.mem_iff.mp (List.getElem_mem hlt)), hnodup.idxOf_getElem i hlt⟩

theorem rows_injOn (hperm : perm.Perm (List.range n)) (s : Finset Nat) (hs : s ⊆ Finset.range n) :
    Set.InjOn (fun j => perm.getD j 0) s := by
  intro i hi j hj hij
  have h := congrArg perm.idxOf hij
  dsimp only at h
  rwa [(position_of_row hperm (Finset.mem_range.mp (hs hi))).2,
    (position_of_row hperm (Finset.mem_range.mp (hs hj))).2] at h

end Positions

/-- The rows of the partition of row `r`; NULL is equal to NULL. -/
def partitionOf (df : List (Row V)) (parts : List String) (r : Nat) : Finset Nat :=
  (Finset.range df.length).filter fun s => keyOf parts (rowAt df s) = keyOf parts (rowAt df r)

section Partition

variable {num : Nat → V} {df : List (Row V)} {parts : List String} {perm : List Nat}

omit [LinearOrder V] in
/-- A position of the sorted frame holds the cells of its row, `_pos` apart. -/
theorem sortedRow_numbered (hperm : perm.Perm (List.range df.length)) {i : Nat}
    (hi : i < df.length) {c : String} (hc : c ≠ "_pos") :
    sortedRow (numbered num df) perm i c = rowAt df (perm.getD i 0) c :=
  rowAt_numbered num df (position_of_row hperm hi).1 hc

omit [LinearOrder V] in
theorem keyOf_sortedRow (hperm : perm.Perm (List.range df.length)) {cols : List String}
    (hcols : "_pos" ∉ cols) {i : Nat} (hi : i < df.length) :
    keyOf cols (sortedRow (numbered num df) perm i) = keyOf cols (rowAt df (perm.getD i 0)) :=
  keyOf_eq_iff.mpr fun _ hc => sortedRow_numbered hperm hi fun h => hcols (h ▸ hc)

/-- **The rows of a partition stand from `start` to `stop`.** -/
theorem mem_partitionOf {b : Nat → Bool} (hperm : perm.Perm (List.range df.length))
    (hparts : "_pos" ∉ parts)
    (hb : Runs.Marks df.length (partKey parts (sortedRow (numbered num df) perm)) b) {r s : Nat}
    (hr : r < df.length) (hs : s < df.length) : s ∈ partitionOf df parts r ↔
      Runs.start b (perm.idxOf r) ≤ perm.idxOf s ∧
        perm.idxOf s ≤ Runs.stop df.length b (perm.idxOf r) := by
  obtain ⟨hlr, hrow⟩ := row_at_position hperm hr
  obtain ⟨hls, hrow'⟩ := row_at_position hperm hs
  rw [← hb.mem_run hlr hls, partitionOf, Finset.mem_filter, Finset.mem_range,
    and_iff_right hs]
  unfold partKey
  rw [keyOf_sortedRow hperm hparts hlr, keyOf_sortedRow hperm hparts hls, hrow, hrow']

end Partition

/-! ## 5. Keys and arguments -/

/-- A PARTITION BY or ORDER BY key: a column of the frame, by its name there, or another expression. -/
inductive WindowKey (V : Type) where
  | column (name : String)
  | expr (value : Row V → Cell V)

/-- What `eval_expr` makes of an argument: a Series, or the Python value of an expression without
columns, which has none of the methods of a Series. -/
inductive Argument (V α : Type) where
  | series (value : Row V → Option α)
  | scalar (value : Option α)

/-- The value of an argument on a row. -/
def Argument.value {α : Type} : Argument V α → Row V → Option α
  | .series f => f
  | .scalar v => fun _ => v

/-- The argument is a Series. -/
def Argument.IsSeries {α : Type} : Argument V α → Prop
  | .series _ => True
  | .scalar _ => False

instance {α : Type} : (arg : Argument V α) → Decidable arg.IsSeries
  | .series _ => .isTrue trivial
  | .scalar _ => .isFalse id

/-- The value of a key on a row. -/
def WindowKey.value : WindowKey V → Row V → Cell V
  | .column n, r => r n
  | .expr e, r => e r

/-- `_window_key_name`: the column of a key. -/
def WindowKey.name (clause : String) (i : Nat) : WindowKey V → String
  | .column n => n
  | .expr _ => clause ++ toString i

/-- `out[name] = eval_expr(p, out)`, for a key that is no column. -/
def WindowKey.write (clause : String) (i : Nat) : WindowKey V → Row V → Row V
  | .column _, r => r
  | .expr e, r => Function.update r (clause ++ toString i) (e r)

/-- The columns of the keys of a clause, from the key with this number on. -/
def keyNames (clause : String) : Nat → List (WindowKey V) → List String
  | _, [] => []
  | i, k :: ks => k.name clause i :: keyNames clause (i + 1) ks

/-- A row with the columns that are computed for the keys of a clause. -/
def writeKeys (clause : String) : Nat → List (WindowKey V) → Row V → Row V
  | _, [], r => r
  | i, k :: ks, r => writeKeys clause (i + 1) ks (k.write clause i r)

/-- The name of a column that is computed for a key. -/
def IsMade (c : String) : Prop := ∃ i : Nat, c = "_wp" ++ toString i ∨ c = "_wo" ++ toString i

/-- The keys of a window function. -/
structure WindowKeys (V : Type) where
  partition : List (WindowKey V)
  order : List (WindowKey V × Bool)

namespace WindowKeys

/-- `part_names`. -/
def parts (k : WindowKeys V) : List String := keyNames "_wp" 0 k.partition

/-- `order_names`, with the directions. -/
def orders (k : WindowKeys V) : List (String × Bool) :=
  (keyNames "_wo" 0 (k.order.map Prod.fst)).zip (k.order.map Prod.snd)

/-- A row of the frame `_window_keys` returns. -/
def row (k : WindowKeys V) (r : Row V) : Row V :=
  writeKeys "_wo" 0 (k.order.map Prod.fst) (writeKeys "_wp" 0 k.partition r)

/-- The frame `_window_keys` returns. -/
def frame (k : WindowKeys V) (df : List (Row V)) : List (Row V) := df.map k.row

/-- No key reads a column that is computed for a key, and none is the column `_pos`. -/
def Clear (k : WindowKeys V) : Prop :=
  ∀ key ∈ k.partition ++ k.order.map Prod.fst,
    (∀ n, key = .column n → ¬ IsMade n ∧ n ≠ "_pos") ∧
    ∀ r s : Row V, (∀ c, ¬ IsMade c → r c = s c) → key.value r = key.value s

/-- The frame has the rows of the input with the columns of the keys, which hold the keys. -/
def Computed (k : WindowKeys V) (df : List (Row V)) : Prop :=
  (k.frame df).length = df.length ∧ ∀ r < df.length,
    keyOf k.parts (rowAt (k.frame df) r) = k.partition.map (fun key => key.value (rowAt df r)) ∧
    keyOf (k.orders.map Prod.fst) (rowAt (k.frame df) r) =
      k.order.map (fun key => key.1.value (rowAt df r)) ∧
    ∀ c, ¬ IsMade c → rowAt (k.frame df) r c = rowAt df r c

end WindowKeys

omit [LinearOrder V] in
/-- A column that no key of the clause is computed into. -/
theorem writeKeys_of_ne {clause c : String} : ∀ (ks : List (WindowKey V)) {i : Nat} {r : Row V},
    (∀ j ≥ i, c ≠ clause ++ toString j) → writeKeys clause i ks r c = r c
  | [], _, _, _ => rfl
  | .column _ :: ks, _, _, h => writeKeys_of_ne ks fun j hj => h j (by omega)
  | .expr e :: ks, i, r, h => by
    rw [writeKeys, writeKeys_of_ne ks fun j hj => h j (by omega), WindowKey.write,
      Function.update_of_ne (h i le_rfl)]

theorem ne_of_not_made {c d : String} (hc : ¬ IsMade c) (hd : IsMade d) : c ≠ d := fun h =>
  hc (h.symm ▸ hd)

/-- The two clauses have different columns. -/
theorem partition_ne_order (i j : Nat) : "_wp" ++ toString i ≠ "_wo" ++ toString j := by
  intro heq
  have hchars := congrArg String.toList heq
  rw [String.toList_append, String.toList_append] at hchars
  have hlen : "_wp".toList.length = "_wo".toList.length := by decide
  have hclause := List.append_inj_left hchars hlen
  revert hclause
  decide

omit [LinearOrder V] in
/-- A column of a clause is a key itself, or computed for one. -/
theorem mem_keyNames {clause c : String} : ∀ {i : Nat} {ks : List (WindowKey V)},
    c ∈ keyNames clause i ks → .column c ∈ ks ∨ ∃ j : Nat, c = clause ++ toString j
  | i, key :: ks, h => by
    rcases List.mem_cons.mp h with rfl | h
    · cases key with
      | column n => exact .inl List.mem_cons_self
      | expr e => exact .inr ⟨i, rfl⟩
    · exact (mem_keyNames h).imp_left (List.mem_cons_of_mem _)

omit [LinearOrder V] in
/-- The columns of a clause hold its keys. -/
theorem keyOf_keyNames {clause : String} (hclause : ∀ j : Nat, IsMade (clause ++ toString j)) :
    ∀ {i : Nat} {ks : List (WindowKey V)} {r r₀ : Row V},
      (∀ key ∈ ks, (∀ n, key = .column n → ¬ IsMade n) ∧
        ∀ r s : Row V, (∀ c, ¬ IsMade c → r c = s c) → key.value r = key.value s) →
      (∀ c, ¬ IsMade c → r c = r₀ c) →
      keyOf (keyNames clause i ks) (writeKeys clause i ks r) = ks.map fun key => key.value r₀
  | _, [], _, _, _, _ => rfl
  | i, key :: ks, r, r₀, hks, hr => by
    obtain ⟨hkey, hrest⟩ := List.forall_mem_cons.mp hks
    have hafter : ∀ c, ¬ IsMade c → key.write clause i r c = r₀ c := by
      intro c hc
      cases key with
      | column n => exact hr c hc
      | expr e =>
        rw [WindowKey.write, Function.update_of_ne (ne_of_not_made hc (hclause i)), hr c hc]
    have hfirst : writeKeys clause (i + 1) ks (key.write clause i r) (key.name clause i) =
        key.value r₀ := by
      cases key with
      | column n =>
        have hn : ¬ IsMade n := hkey.1 n rfl
        rw [WindowKey.name, writeKeys_of_ne _ fun j _ => ne_of_not_made hn (hclause j)]
        exact hr n hn
      | expr e =>
        rw [WindowKey.name, writeKeys_of_ne _ fun j hj h => ?_, WindowKey.write,
          Function.update_self]
        · exact hkey.2 r r₀ hr
        · have := toString_number_inj.mp (String.append_right_inj _ |>.mp h)
          omega
    rw [keyNames, writeKeys, List.map_cons, ← keyOf_keyNames hclause hrest hafter, ← hfirst]
    rfl

omit [LinearOrder V] in
theorem length_keyNames {clause : String} : ∀ (ks : List (WindowKey V)) {i : Nat},
    (keyNames clause i ks).length = ks.length
  | [], _ => rfl
  | _ :: ks, _ => by rw [keyNames, List.length_cons, List.length_cons, length_keyNames ks]

omit [LinearOrder V] in
theorem WindowKeys.map_fst_orders (k : WindowKeys V) :
    k.orders.map Prod.fst = keyNames "_wo" 0 (k.order.map Prod.fst) := by
  rw [WindowKeys.orders, List.map_fst_zip]
  rw [length_keyNames, List.length_map, List.length_map]

omit [LinearOrder V] in
/-- **The frame of a window function holds its keys**, where no key reads a computed column. -/
theorem WindowKeys.computed {k : WindowKeys V} (h : k.Clear)
    (df : List (Row V)) : k.Computed df := by
  have hwp : ∀ j : Nat, IsMade ("_wp" ++ toString j) := fun j => ⟨j, .inl rfl⟩
  have hwo : ∀ j : Nat, IsMade ("_wo" ++ toString j) := fun j => ⟨j, .inr rfl⟩
  have hsame : ∀ (r : Row V) (c : String), ¬ IsMade c → k.row r c = r c := fun r c hc => by
    rw [WindowKeys.row, writeKeys_of_ne _ fun j _ => ne_of_not_made hc (hwo j),
      writeKeys_of_ne _ fun j _ => ne_of_not_made hc (hwp j)]
  refine ⟨List.length_map _, fun r hr => ?_⟩
  have hrow : rowAt (k.frame df) r = k.row (rowAt df r) := by
    rw [rowAt, rowAt, WindowKeys.frame, List.getD_eq_getElem?_getD, List.getD_eq_getElem?_getD,
      List.getElem?_map, List.getElem?_eq_getElem hr, Option.map_some, Option.getD_some,
      Option.getD_some]
  rw [hrow]
  refine ⟨?_, ?_, hsame _⟩
  · have hparts : keyOf k.parts (writeKeys "_wp" 0 k.partition (rowAt df r)) = _ :=
      keyOf_keyNames hwp (fun key hk => ⟨fun n hn =>
        ((h key (List.mem_append_left _ hk)).1 n hn).1, (h key (List.mem_append_left _ hk)).2⟩)
        fun _ _ => rfl
    rw [← hparts]
    -- the ORDER BY keys are computed into other columns
    refine keyOf_eq_iff.mpr fun c hc => writeKeys_of_ne _ fun j _ heq => ?_
    rcases mem_keyNames hc with hmem | ⟨i, rfl⟩
    · exact ne_of_not_made ((h _ (List.mem_append_left _ hmem)).1 c rfl).1 (hwo j) heq
    · exact partition_ne_order i j heq
  · rw [k.map_fst_orders, WindowKeys.row, keyOf_keyNames hwo (fun key hk => ⟨fun n hn =>
        ((h key (List.mem_append_right _ hk)).1 n hn).1, (h key (List.mem_append_right _ hk)).2⟩)
        fun c hc => writeKeys_of_ne _ fun j _ => ne_of_not_made hc (hwp j), List.map_map]
    rfl

theorem not_made {c : String} (h : ∀ d ∈ ["_wp", "_wo"], ¬ d.toList <+: c.toList) : ¬ IsMade c := by
  rintro ⟨i, rfl | rfl⟩
  · exact h "_wp" List.mem_cons_self (by rw [String.toList_append]; exact List.prefix_append _ _)
  · exact h "_wo" (List.mem_cons_of_mem _ List.mem_cons_self)
      (by rw [String.toList_append]; exact List.prefix_append _ _)

theorem not_made_pos : ¬ IsMade "_pos" := not_made (by decide)

theorem not_made_pid : ¬ IsMade "_pid" := not_made (by decide)

omit [LinearOrder V] in
/-- A name that is neither made nor a key is no column of a clause. -/
theorem not_mem_keyNames {clause c : String} {i : Nat} {ks : List (WindowKey V)}
    (hclause : ∀ j : Nat, IsMade (clause ++ toString j)) (hc : ¬ IsMade c)
    (hks : .column c ∉ ks) : c ∉ keyNames clause i ks := by
  intro hmem
  rcases mem_keyNames hmem with hmem | ⟨j, rfl⟩
  · exact hks hmem
  · exact hc (hclause j)

omit [LinearOrder V] in
/-- The sentinel is no column of a key. -/
theorem WindowKeys.Clear.pos {k : WindowKeys V} (h : k.Clear) :
    "_pos" ∉ k.parts ∧ "_pos" ∉ k.orders.map Prod.fst := by
  have hno : .column "_pos" ∉ k.partition ++ k.order.map Prod.fst := fun hmem =>
    ((h _ hmem).1 "_pos" rfl).2 rfl
  rw [List.mem_append, not_or] at hno
  rw [k.map_fst_orders]
  exact ⟨not_mem_keyNames (fun j => ⟨j, .inl rfl⟩) not_made_pos hno.1,
    not_mem_keyNames (fun j => ⟨j, .inr rfl⟩) not_made_pos hno.2⟩

omit [LinearOrder V] in
/-- The run number is no column of an ORDER BY key. -/
theorem WindowKeys.pid {k : WindowKeys V} (h : .column "_pid" ∉ k.order.map Prod.fst) :
    "_pid" ∉ k.orders.map Prod.fst := by
  rw [k.map_fst_orders]
  exact not_mem_keyNames (fun j => ⟨j, .inr rfl⟩) not_made_pid h

end Windows

end RyuDB
