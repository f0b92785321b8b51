/-
# Window frames

`_build_frame` reads the frame of a window; `_frame_bounds` turns it into the first and the last
position of the frame of every row, within its partition.  The lower bound is clamped below and the
upper one above, so a frame may still begin behind the partition or end before it.

* `mem_frameRows`: the rows of a frame, as SQL defines them, are those of the partition from `lo` to
  `hi`.

SQL has no frame that starts with UNBOUNDED FOLLOWING or ends with UNBOUNDED PRECEDING; `_build_frame`
lets them pass (`WindowFrame.Legal` excludes them).

Positions are those of the sorted frame.  A bound is a number of rows from the current one, for ROWS,
or the first or last of its peers, for RANGE; the rows are then an interval of positions of the
partition, empty when the clamped bounds have crossed.

The frame in SQL is defined here without positions (`frameRows`): the rows of the partition that are
not above its start and not below its end, each compared with the current row.  The theorem compares
the two, and so does not depend on how either of them is written.
-/
import RyuDB.WindowRank

namespace RyuDB

namespace Windows

/-! ## 1. Reading a frame -/

/-- `FrameBound`. -/
inductive FrameBound where
  | unboundedPreceding
  | unboundedFollowing
  | currentRow
  | preceding (n : Int)
  | following (n : Int)
  deriving DecidableEq, Repr

/-- `mode` of a frame. -/
inductive FrameMode where
  | rows
  | range
  deriving DecidableEq, Repr

/-- `Frame`. -/
structure WindowFrame where
  mode : FrameMode
  start : FrameBound
  stop : FrameBound
  deriving DecidableEq, Repr

/-- A bound in the tree: a literal, UNBOUNDED, CURRENT ROW or another expression. -/
inductive BoundTree where
  | literal (text : String)
  | unbounded
  | currentRow
  | other (text : String)
  deriving DecidableEq, Repr

/-- `exp.WindowSpec`. -/
structure WindowSpec where
  exclude : Bool
  kind : Option String
  start : Option BoundTree
  startSide : Option String
  stop : Option BoundTree
  stopSide : Option String
  deriving DecidableEq, Repr

/-- The aggregates of a running window. -/
inductive RunFunc where
  | countStar
  | count
  | sum
  | avg
  | min
  | max
  deriving DecidableEq, Repr

/-- An f-string of a side. -/
def sideText : Option String → String
  | some s => s
  | none => "None"

section Build

variable (toInt : String → Option Int)

/-- `_frame_bound`; `toInt` is Python's `int`. -/
def frameBound (val : Option BoundTree) (side : Option String) :
    Except DbError (Option FrameBound) :=
  match val with
  | none => .ok none
  | some (.literal text) =>
    match toInt text with
    | none => .error (.value ("invalid literal for int() with base 10: " ++ pyRepr text))
    | some n =>
      if side = some "PRECEDING" then .ok (some (.preceding n))
      else if side = some "FOLLOWING" then .ok (some (.following n))
      else .error (.notImplemented ("unsupported frame bound: " ++ text ++ " " ++ sideText side))
  | some .unbounded =>
    .ok (some (if side = some "PRECEDING" then .unboundedPreceding else .unboundedFollowing))
  | some .currentRow => .ok (some .currentRow)
  | some (.other text) => .error (.notImplemented ("unsupported frame bound: " ++ text))

/-- A bound with an offset. -/
def FrameBound.isOffset : FrameBound → Bool
  | .preceding _ => true
  | .following _ => true
  | _ => false

/-- `mode` of a frame, `none` for one that is not supported. -/
def frameMode (mode : String) : Option FrameMode :=
  if mode = "ROWS" then some .rows else if mode = "RANGE" then some .range else none

/-- `_build_frame`. -/
def buildFrame (spec : Option WindowSpec) (func : RunFunc) : Except DbError WindowFrame :=
  match spec with
  | none => .ok ⟨.range, .unboundedPreceding, .currentRow⟩
  | some spec =>
    if spec.exclude then .error (.notImplemented "window EXCLUDE is not supported yet")
    else
      let kind := String.ofList ((spec.kind.getD "RANGE").toList.map Char.toUpper)
      match frameMode kind with
      | none => .error (.notImplemented ("window frame mode " ++ kind ++ " is not supported yet"))
      | some mode => do
        let start ← frameBound toInt spec.start spec.startSide
        let stop ← frameBound toInt spec.stop spec.stopSide
        match start with
        | none => .error (.notImplemented "window frame requires a start bound")
        | some start =>
          let stop := stop.getD .currentRow
          if mode = .range ∧ (start.isOffset ∨ stop.isOffset) then
            .error (.notImplemented "RANGE frames with value offsets are not supported yet")
          else if (func = .min ∨ func = .max) ∧ start ≠ .unboundedPreceding then
            .error (.notImplemented ("MIN/MAX window functions: only cumulative frames " ++
              "(UNBOUNDED PRECEDING ..) are supported yet"))
          else .ok ⟨mode, start, stop⟩

/-- **What `_build_frame` accepts**: no RANGE frame with an offset, and for MIN and MAX only frames from
UNBOUNDED PRECEDING. -/
theorem buildFrame_ok {spec : Option WindowSpec} {func : RunFunc} {frame : WindowFrame}
    (h : buildFrame toInt spec func = .ok frame) :
    (frame.mode = .range → frame.start.isOffset = false ∧ frame.stop.isOffset = false) ∧
      (func = .min ∨ func = .max → frame.start = .unboundedPreceding) := by
  cases spec with
  | none =>
    cases h
    exact ⟨fun _ => ⟨rfl, rfl⟩, fun _ => rfl⟩
  | some spec =>
    unfold buildFrame at h
    dsimp only at h
    split at h
    · cases h
    · split at h
      · cases h
      · obtain ⟨start, -, h⟩ := bind_eq_ok.mp h
        obtain ⟨stop, -, h⟩ := bind_eq_ok.mp h
        cases start with
        | none => cases h
        | some start =>
          dsimp only at h
          split at h
          · cases h
          · rename_i hoffset
            split at h
            · cases h
            · rename_i hcumulative
              cases h
              refine ⟨fun hmode => ?_, fun hfunc => ?_⟩
              · have hno := fun hor => hoffset ⟨hmode, hor⟩
                exact ⟨Bool.eq_false_of_not_eq_true fun hs => hno (.inl hs),
                  Bool.eq_false_of_not_eq_true fun hs => hno (.inr hs)⟩
              · by_contra hne
                exact hcumulative ⟨hfunc, hne⟩

end Build

/-- How many rows below its row a bound with an offset lies. -/
def FrameBound.displacement : FrameBound → Option Int
  | .preceding n => some (-n)
  | .following n => some n
  | _ => none

/-- A frame SQL has. -/
def WindowFrame.Legal (frame : WindowFrame) : Prop :=
  frame.start ≠ .unboundedFollowing ∧ frame.stop ≠ .unboundedPreceding

/-- A RANGE frame has no offsets. -/
def WindowFrame.Accepted (frame : WindowFrame) : Prop :=
  frame.mode = .range → frame.start.isOffset = false ∧ frame.stop.isOffset = false

/-! ## 2. The bounds -/

variable {V : Type} [LinearOrder V]

section Bounds

variable (num : Nat → V) (df : List (Row V)) (parts : List String) (orders : List (String × Bool))
  (perm : List Nat)

/-- The sorted frame with the numbers of the partitions in `_pid`. -/
def runningWork (i : Nat) : Row V :=
  Function.update (work num df perm i) "_pid"
    (some (num (Runs.number (boundary num df parts perm) i)))

/-- `peer_bdry` over that frame. -/
def runningPeers : Nat → Bool :=
  addChanges df.length (runningWork num df parts perm) (orders.map Prod.fst)
    (boundary num df parts perm)

/-- `peer_start`. -/
def peerStart (i : Nat) : Int :=
  Runs.start (runningPeers num df parts orders perm) i - pstart num df parts perm i

/-- `peer_end`. -/
def peerEnd (i : Nat) : Int :=
  let peerEnd : Int := Runs.stop df.length (runningPeers num df parts orders perm) i
  (if peerEnd ≤ pend num df parts perm i then peerEnd else pend num df parts perm i) -
    pstart num df parts perm i

/-- `_rows_offset`. -/
def rowsOffset (b : FrameBound) (i : Nat) : Int :=
  match b with
  | .unboundedPreceding => posInPart num df parts perm i - posInPart num df parts perm i
  | .unboundedFollowing => psize num df parts perm i - 1
  | .currentRow => posInPart num df parts perm i
  | .preceding n => posInPart num df parts perm i - n
  | .following n => posInPart num df parts perm i + n

/-- `lo` of `_frame_bounds`. -/
def lo (frame : WindowFrame) (i : Nat) : Int :=
  let lo := match frame.mode with
    | .range =>
      if frame.start = .currentRow then peerStart num df parts orders perm i
      else posInPart num df parts perm i - posInPart num df parts perm i
    | .rows => rowsOffset num df parts perm frame.start i
  if lo ≥ 0 then lo else 0

/-- `hi` of `_frame_bounds`. -/
def hi (frame : WindowFrame) (i : Nat) : Int :=
  let hi := match frame.mode with
    | .range =>
      if frame.stop = .currentRow then peerEnd num df parts orders perm i
      else psize num df parts perm i - 1
    | .rows => rowsOffset num df parts perm frame.stop i
  if hi ≤ psize num df parts perm i - 1 then hi else psize num df parts perm i - 1

end Bounds

/-! ## 3. The rows of a frame

`FromStart` and `ToStop` are the two halves of the definition of SQL, `lo` and `hi` those of the code.
Each half is compared with its own counterpart, for either mode (`fromStart_iff`, `toStop_iff`); the
clamps drop out because a row of the partition stands between its first and its last position. -/

section Rows

variable (df : List (Row V)) (parts : List String) (orders : List (String × Bool))
  (perm : List Nat)

/-- Row `s` is not above the start of the frame of row `r`. -/
def FromStart (frame : WindowFrame) (r s : Nat) : Prop :=
  match frame.mode, frame.start with
  | _, .unboundedPreceding => True
  | .range, .currentRow => rowBefore orders (rowAt df s) (rowAt df r) = false
  | .rows, .currentRow => rankOf df parts perm r ≤ rankOf df parts perm s
  | _, .preceding n => (rankOf df parts perm r : Int) - n ≤ rankOf df parts perm s
  | _, .following n => (rankOf df parts perm r : Int) + n ≤ rankOf df parts perm s
  | _, .unboundedFollowing => False

/-- Row `s` is not below the end of the frame of row `r`. -/
def ToStop (frame : WindowFrame) (r s : Nat) : Prop :=
  match frame.mode, frame.stop with
  | _, .unboundedFollowing => True
  | .range, .currentRow => rowBefore orders (rowAt df r) (rowAt df s) = false
  | .rows, .currentRow => rankOf df parts perm s ≤ rankOf df parts perm r
  | _, .preceding n => (rankOf df parts perm s : Int) ≤ rankOf df parts perm r - n
  | _, .following n => (rankOf df parts perm s : Int) ≤ rankOf df parts perm r + n
  | _, .unboundedPreceding => False

instance instDecidableFromStart (frame : WindowFrame) (r s : Nat) :
    Decidable (FromStart df parts orders perm frame r s) := by
  unfold FromStart
  split <;> infer_instance

instance instDecidableToStop (frame : WindowFrame) (r s : Nat) :
    Decidable (ToStop df parts orders perm frame r s) := by
  unfold ToStop
  split <;> infer_instance

/-- **The frame of a row**: the rows of its partition between the two bounds. -/
def frameRows (frame : WindowFrame) (r : Nat) : Finset Nat :=
  (partitionOf df parts r).filter fun s =>
    FromStart df parts orders perm frame r s ∧ ToStop df parts orders perm frame r s

end Rows

section Sorted

variable {num : Nat → V} {df : List (Row V)} {parts : List String} {orders : List (String × Bool)}
  {perm : List Nat}

/-- The numbers of the partitions change no group of peers. -/
theorem addChanges_congr {n : Nat} {work work' : Nat → Row V} : ∀ {cols : List String}
    {boundary : Nat → Bool}, (∀ i, ∀ c ∈ cols, work i c = work' i c) →
    addChanges n work cols boundary = addChanges n work' cols boundary
  | [], _, _ => rfl
  | c :: cols, boundary, h => by
    have hc : (fun i => boundary i || colChanged (work i c) (shift n (fun j => work j c) 1 i)) =
        fun i => boundary i || colChanged (work' i c) (shift n (fun j => work' j c) 1 i) := by
      have hcol : (fun j => work j c) = fun j => work' j c :=
        funext fun j => h j c List.mem_cons_self
      funext i
      rw [hcol, h i c List.mem_cons_self]
    have hstep : addChanges n work' (c :: cols) boundary = addChanges n work' cols
        (fun i => boundary i || colChanged (work i c) (shift n (fun j => work j c) 1 i)) := by
      rw [hc]
      rfl
    rw [hstep]
    exact addChanges_congr fun i c' hc' => h i c' (List.mem_cons_of_mem _ hc')

theorem runningPeers_eq (h : "_pid" ∉ orders.map Prod.fst) :
    runningPeers num df parts orders perm = peers num df parts orders perm := by
  refine addChanges_congr fun i c hc => ?_
  have hne : c ≠ "_pid" := fun heq => h (heq ▸ hc)
  exact Function.update_of_ne hne _ _

/-- Positions within a partition are those from 0 to `psize - 1`. -/
theorem posInPart_bounds (h : IsSort (sortKeys parts orders) (numbered num df) perm) {i : Nat}
    (hi : i < df.length) : 0 ≤ posInPart num df parts perm i ∧
      posInPart num df parts perm i ≤ psize num df parts perm i - 1 := by
  have hstart := h.marks_boundary.start_le i
  have hstop := h.marks_boundary.le_stop hi
  unfold posInPart psize pend pstart
  omega

section Clamps

variable (start stop : FrameBound) (i : Nat)

theorem lo_rows : lo num df parts orders perm ⟨.rows, start, stop⟩ i =
    max 0 (rowsOffset num df parts perm start i) := by
  unfold lo
  dsimp only
  split <;> omega

theorem hi_rows : hi num df parts orders perm ⟨.rows, start, stop⟩ i =
    min (rowsOffset num df parts perm stop i) (psize num df parts perm i - 1) := by
  unfold hi
  dsimp only
  split <;> omega

theorem lo_range : lo num df parts orders perm ⟨.range, start, stop⟩ i =
    max 0 (if start = .currentRow then peerStart num df parts orders perm i else 0) := by
  unfold lo
  dsimp only
  rw [sub_self]
  split <;> omega

theorem hi_range : hi num df parts orders perm ⟨.range, start, stop⟩ i =
    min (if stop = .currentRow then peerEnd num df parts orders perm i
      else psize num df parts perm i - 1) (psize num df parts perm i - 1) := by
  unfold hi
  dsimp only
  split <;> omega

end Clamps

/-- Rows of one partition have one last position. -/
theorem pend_eq (h : IsSort (sortKeys parts orders) (numbered num df) perm) (hp : "_pos" ∉ parts)
    {r s : Nat} (hr : r < df.length) (hs : s ∈ partitionOf df parts r) :
    pend num df parts perm (perm.idxOf s) = pend num df parts perm (perm.idxOf r) := by
  have hb := h.marks_boundary
  have hlt := Finset.mem_range.mp (Finset.mem_filter.mp hs).1
  have hpos := (row_at_position h.rows hr).1
  have hpos' := (row_at_position h.rows hlt).1
  unfold pend
  rw [hb.stop_eq hpos hpos'
    ((hb.mem_run hpos hpos').mpr ((mem_partitionOf h.rows hp hb hr hlt).mp hs))]

/-- The partition of a row, seen from another row of it. -/
theorem partitionOf_symm {r s : Nat} (hr : r < df.length) (hs : s ∈ partitionOf df parts r) :
    r ∈ partitionOf df parts s :=
  Finset.mem_filter.mpr ⟨Finset.mem_range.mpr hr, (Finset.mem_filter.mp hs).2.symm⟩

/-- The lower bound of a row is its frame's start, among the rows of its partition. -/
theorem fromStart_iff (h : IsSort (sortKeys parts orders) (numbered num df) perm)
    (hp : "_pos" ∉ parts) (ho : "_pos" ∉ orders.map Prod.fst) (hpid : "_pid" ∉ orders.map Prod.fst)
    {frame : WindowFrame} (hacc : frame.Accepted) (hlegal : frame.Legal) {r s : Nat}
    (hr : r < df.length) (hs : s ∈ partitionOf df parts r) :
    FromStart df parts orders perm frame r s ↔
      lo num df parts orders perm frame (perm.idxOf r) ≤
        posInPart num df parts perm (perm.idxOf s) := by
  have hlt := Finset.mem_range.mp (Finset.mem_filter.mp hs).1
  have hpos := (row_at_position h.rows hr).1
  have hpos' := (row_at_position h.rows hlt).1
  have hbounds := posInPart_bounds h hpos'
  have hrank := rankOf_eq h hp hr
  have hrank' := rankOf_eq h hp hlt
  obtain ⟨mode, start, stop⟩ := frame
  cases mode with
  | rows =>
    rw [lo_rows]
    cases start with
    | unboundedPreceding =>
      rw [rowsOffset, sub_self, max_self]
      exact ⟨fun _ => hbounds.1, fun _ => trivial⟩
    | unboundedFollowing => exact absurd rfl hlegal.1
    | currentRow => simp only [FromStart, rowsOffset]; omega
    | preceding n => simp only [FromStart, rowsOffset]; omega
    | following n => simp only [FromStart, rowsOffset]; omega
  | range =>
    rw [lo_range]
    cases start with
    | unboundedPreceding =>
      rw [if_neg (by decide), max_self]
      exact ⟨fun _ => hbounds.1, fun _ => trivial⟩
    | unboundedFollowing => exact absurd rfl hlegal.1
    | currentRow =>
      have hmem := mem_preceding h hp ho hr hlt
      have hrun := (mem_partitionOf h.rows hp h.marks_boundary hr hlt).mp hs
      have hsame := pstart_eq h hp hr hs
      have hle := h.marks_boundary.start_le_start h.marks_peerBoundary
        (fun _ _ hk => (Prod.mk.inj hk).1) hpos
      rw [preceding, Finset.mem_filter, and_iff_right hs] at hmem
      simp only [FromStart]
      rw [← Bool.not_eq_true, hmem, if_true, peerStart, runningPeers_eq hpid, posInPart, hsame,
        pstart]
      omega
    | preceding n => cases (hacc rfl).1
    | following n => cases (hacc rfl).1

/-- The upper bound of a row is its frame's end, among the rows of its partition. -/
theorem toStop_iff (h : IsSort (sortKeys parts orders) (numbered num df) perm)
    (hp : "_pos" ∉ parts) (ho : "_pos" ∉ orders.map Prod.fst) (hpid : "_pid" ∉ orders.map Prod.fst)
    {frame : WindowFrame} (hacc : frame.Accepted) (hlegal : frame.Legal) {r s : Nat}
    (hr : r < df.length) (hs : s ∈ partitionOf df parts r) :
    ToStop df parts orders perm frame r s ↔
      posInPart num df parts perm (perm.idxOf s) ≤
        hi num df parts orders perm frame (perm.idxOf r) := by
  have hlt := Finset.mem_range.mp (Finset.mem_filter.mp hs).1
  have hpos := (row_at_position h.rows hr).1
  have hpos' := (row_at_position h.rows hlt).1
  have hbounds := posInPart_bounds h hpos'
  have hrank := rankOf_eq h hp hr
  have hrank' := rankOf_eq h hp hlt
  have hsize : psize num df parts perm (perm.idxOf s) = psize num df parts perm (perm.idxOf r) := by
    unfold psize
    rw [pstart_eq h hp hr hs, pend_eq h hp hr hs]
  rw [hsize] at hbounds
  obtain ⟨mode, start, stop⟩ := frame
  cases mode with
  | rows =>
    rw [hi_rows]
    cases stop with
    | unboundedPreceding => exact absurd rfl hlegal.2
    | unboundedFollowing =>
      rw [rowsOffset, min_self]
      exact ⟨fun _ => hbounds.2, fun _ => trivial⟩
    | currentRow => simp only [ToStop, rowsOffset]; omega
    | preceding n => simp only [ToStop, rowsOffset]; omega
    | following n => simp only [ToStop, rowsOffset]; omega
  | range =>
    rw [hi_range]
    cases stop with
    | unboundedPreceding => exact absurd rfl hlegal.2
    | unboundedFollowing =>
      rw [if_neg (by decide), min_self]
      exact ⟨fun _ => hbounds.2, fun _ => trivial⟩
    | currentRow =>
      have hpart := partitionOf_symm hr hs
      have hmem := mem_preceding h hp ho hlt hr
      have hrun := (mem_partitionOf h.rows hp h.marks_boundary hlt hr).mp hpart
      have hpeer := h.marks_peerBoundary.start_le_iff hpos hpos'
      have hsame := pstart_eq h hp hr hs
      have hstop := h.marks_boundary.stop_le_stop h.marks_peerBoundary
        (fun _ _ hk => (Prod.mk.inj hk).1) hpos
      rw [preceding, Finset.mem_filter, and_iff_right hpart] at hmem
      simp only [ToStop]
      rw [← Bool.not_eq_true, hmem, if_true, peerEnd, runningPeers_eq hpid, posInPart, psize,
        hsame]
      unfold pstart pend
      rw [if_pos (by omega)]
      omega
    | preceding n => cases (hacc rfl).2
    | following n => cases (hacc rfl).2

theorem lo_nonneg (frame : WindowFrame) (i : Nat) :
    0 ≤ lo num df parts orders perm frame i := by
  obtain ⟨mode, start, stop⟩ := frame
  cases mode with
  | rows =>
    rw [lo_rows]
    exact le_max_left _ _
  | range =>
    rw [lo_range]
    exact le_max_left _ _

theorem hi_le (frame : WindowFrame) (i : Nat) :
    hi num df parts orders perm frame i ≤ psize num df parts perm i - 1 := by
  obtain ⟨mode, start, stop⟩ := frame
  cases mode with
  | rows =>
    rw [hi_rows]
    exact min_le_right _ _
  | range =>
    rw [hi_range]
    exact min_le_right _ _

/-- **The rows of a frame are those of the partition from `lo` to `hi`.** -/
theorem mem_frameRows (h : IsSort (sortKeys parts orders) (numbered num df) perm)
    (hp : "_pos" ∉ parts) (ho : "_pos" ∉ orders.map Prod.fst) (hpid : "_pid" ∉ orders.map Prod.fst)
    {frame : WindowFrame} (hacc : frame.Accepted) (hlegal : frame.Legal) {r s : Nat}
    (hr : r < df.length) : s ∈ frameRows df parts orders perm frame r ↔
      s ∈ partitionOf df parts r ∧
        pstart num df parts perm (perm.idxOf r) + lo num df parts orders perm frame (perm.idxOf r) ≤
          perm.idxOf s ∧
        (perm.idxOf s : Int) ≤ pstart num df parts perm (perm.idxOf r) +
          hi num df parts orders perm frame (perm.idxOf r) := by
  unfold frameRows
  rw [Finset.mem_filter]
  refine and_congr_right fun hs => ?_
  rw [fromStart_iff h hp ho hpid hacc hlegal hr hs, toStop_iff h hp ho hpid hacc hlegal hr hs,
    posInPart, pstart_eq h hp hr hs]
  constructor
  · rintro ⟨hlo, hhi⟩
    omega
  · rintro ⟨hlo, hhi⟩
    omega

/-- The positions of a frame that is not empty. -/
theorem frameRows_eq (h : IsSort (sortKeys parts orders) (numbered num df) perm)
    (hp : "_pos" ∉ parts) (ho : "_pos" ∉ orders.map Prod.fst) (hpid : "_pid" ∉ orders.map Prod.fst)
    {frame : WindowFrame} (hacc : frame.Accepted) (hlegal : frame.Legal) {r : Nat}
    (hr : r < df.length)
    (hne : lo num df parts orders perm frame (perm.idxOf r) ≤
      hi num df parts orders perm frame (perm.idxOf r)) :
    frameRows df parts orders perm frame r =
      (Finset.Icc (pstart num df parts perm (perm.idxOf r) +
          lo num df parts orders perm frame (perm.idxOf r)).toNat
        (pstart num df parts perm (perm.idxOf r) +
          hi num df parts orders perm frame (perm.idxOf r)).toNat).image
        fun j => perm.getD j 0 := by
  have hlo : 0 ≤ lo num df parts orders perm frame (perm.idxOf r) := lo_nonneg frame _
  have hhi : hi num df parts orders perm frame (perm.idxOf r) ≤
    psize num df parts perm (perm.idxOf r) - 1 := hi_le frame _
  have hstart : (0 : Int) ≤ pstart num df parts perm (perm.idxOf r) := Int.natCast_nonneg _
  ext s
  rw [mem_frameRows h hp ho hpid hacc hlegal hr, Finset.mem_image]
  constructor
  · rintro ⟨hs, hfrom, hto⟩
    have hlt := Finset.mem_range.mp (Finset.mem_filter.mp hs).1
    exact ⟨perm.idxOf s, Finset.mem_Icc.mpr (by omega), (row_at_position h.rows hlt).2⟩
  · rintro ⟨j, hj, rfl⟩
    rw [Finset.mem_Icc] at hj
    unfold psize at hhi
    obtain ⟨hmem, hidx⟩ := mem_partition_pos h hp hr (j := j) (by omega) (by omega)
    refine ⟨hmem, ?_⟩
    rw [hidx]
    omega

/-- A frame that ends before it starts has no row. -/
theorem frameRows_empty (h : IsSort (sortKeys parts orders) (numbered num df) perm)
    (hp : "_pos" ∉ parts) (ho : "_pos" ∉ orders.map Prod.fst) (hpid : "_pid" ∉ orders.map Prod.fst)
    {frame : WindowFrame} (hacc : frame.Accepted) (hlegal : frame.Legal) {r : Nat}
    (hr : r < df.length)
    (hlt : hi num df parts orders perm frame (perm.idxOf r) <
      lo num df parts orders perm frame (perm.idxOf r)) :
    frameRows df parts orders perm frame r = ∅ := by
  refine Finset.eq_empty_of_forall_notMem fun s hs => ?_
  obtain ⟨-, hfrom, hto⟩ := (mem_frameRows h hp ho hpid hacc hlegal hr).mp hs
  omega

end Sorted

end Windows

end RyuDB
