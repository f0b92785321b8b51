/-
# Columns out of pages

`materialise_kernel` writes the columns of a scan into buffers on the device, row group by row group, each
at the offset of its first row.  A row's value is read out of the page: at its place behind the definition
levels when the page is plain, through the decoded index when the column has a dictionary.  Days become
seconds, decimals are divided by their scale.  A double is taken as the exact number it stands for.

The stores of all launches are taken in any order.

* `pageColRaw64_chunk`: the kernel reads the values that were written.
* `materialise_columns`: **the buffers hold the columns of the file**, and nothing is written elsewhere.
-/
import Mathlib.Data.Rat.Defs
import RyuDB.Fused
import RyuDB.RunDecode

namespace RyuDB

namespace Pages

/-! ## 1. The kernel -/

/-- `PHYS_I32`, `PHYS_I64`. -/
inductive Phys where
  | i32
  | i64
  deriving DecidableEq, Repr

/-- The bytes of a value. -/
def Phys.width : Phys → Nat
  | .i32 => 4
  | .i64 => 8

/-- `load_i32_una` and `load_i64_una`: the bytes from an offset on, as a signed number. -/
def Phys.load (phys : Phys) (mem : Memory) (off : Int) : Int :=
  match phys with
  | .i32 => int32 (valueLoop mem off 4)
  | .i64 => Fused.wrap64 (valueLoop mem off 8)

/-- `plain_values_off`. -/
def plainValuesOff (mem : Memory) : Int := 4 + int32 (valueLoop mem 0 4)

/-- `PageSrc` of one column: `PK_PLAIN_RAW` with the data page, `PK_DICT_NUMERIC_ARG` with the decoded
indices and the dictionary page. -/
inductive PageSrc where
  | plain (buf : Memory)
  | dict (buf : Int → Int) (dict : Memory)

/-- `page_col_raw64`. -/
def pageColRaw64 (phys : Phys) : PageSrc → Int → Int
  | .plain buf, i => phys.load buf (plainValuesOff buf + i * phys.width)
  | .dict buf dict, i => phys.load dict (buf i * phys.width)

/-- What the kernel knows of a column. -/
structure ColumnMeta where
  phys : Phys
  scale : Nat
  isDate : Bool

inductive OutKind where
  | int32
  | int64
  | float64
  | seconds
  deriving DecidableEq, Repr

/-- `_frame_out_kind`. -/
def frameOutKind (m : ColumnMeta) : OutKind :=
  if m.isDate then .seconds
  else if 0 < m.scale then .float64
  else if m.phys = .i32 then .int32
  else .int64

/-- What is stored in a buffer. -/
inductive Cell where
  | int (n : Int)
  | double (q : ℚ)
  deriving DecidableEq

/-- The store of `materialise_kernel`. -/
def outCell (m : ColumnMeta) (raw : Int) : Cell :=
  match frameOutKind m with
  | .int32 => .int (int32 raw)
  | .float64 => .double (if 0 < m.scale then raw / 10 ^ m.scale else raw)
  | .seconds => .int (Fused.wrap64 (raw * 86400))
  | .int64 => .int raw

/-- A row group, as the kernel gets it. -/
structure RowGroup where
  n : Nat
  src : Nat → PageSrc

/-- A store: the column and the row, and what is stored there. -/
abbrev Store := (Nat × Nat) × Cell

/-- The stores of a launch, for the row group whose first row is `base`. -/
def groupStores (cols : Nat → ColumnMeta) (ncol base : Nat) (g : RowGroup) : List Store :=
  (List.range g.n).flatMap fun i => (List.range ncol).map fun c =>
    ((c, base + i), outCell (cols c) (pageColRaw64 (cols c).phys (g.src c) i))

/-- The stores of all launches. -/
def stores (cols : Nat → ColumnMeta) (ncol : Nat) : Nat → List RowGroup → List Store
  | _, [] => []
  | base, g :: gs => groupStores cols ncol base g ++ stores cols ncol (base + g.n) gs

/-- The buffers after some stores. -/
def materialise (frame : Nat × Nat → Cell) (order : List Store) : Nat × Nat → Cell :=
  order.foldl (fun f s => Function.update f s.1 s.2) frame

/-! ## 2. Files -/

/-- The numbers that a physical type has. -/
def Phys.Holds (phys : Phys) (n : Int) : Prop :=
  match phys with
  | .i32 => -2 ^ 31 ≤ n ∧ n < 2 ^ 31
  | .i64 => -2 ^ 63 ≤ n ∧ n < 2 ^ 63

instance (phys : Phys) (n : Int) : Decidable (phys.Holds n) :=
  match phys with
  | .i32 => inferInstanceAs (Decidable (_ ∧ _))
  | .i64 => inferInstanceAs (Decidable (_ ∧ _))

/-- Values one behind the other, in two's complement. -/
def plainBytes (phys : Phys) (values : List Int) : Bytes :=
  values.flatMap fun v => Bytes.packLE phys.width (v % 256 ^ phys.width).toNat

/-- A column of a row group: its values, or a dictionary and the indices of the rows.  The last run of
indices may have more than there are rows. -/
inductive Chunk where
  | plain (defs : Bytes) (values : List Int)
  | dict (entries : List Int) (w : Nat) (page : DictPage w) (rows : Nat)

namespace Chunk

/-- The values of the rows. -/
def values : Chunk → List Int
  | plain _ values => values
  | dict entries _ page rows => (page.indexes.take rows).map fun k => entries.getD k 0

/-- The data page of plain values. -/
def plainPage (phys : Phys) (defs : Bytes) (values : List Int) : Bytes :=
  Bytes.packLE 4 defs.length ++ defs ++ plainBytes phys values

/-- Values are of the type, indices point into the dictionary and lie in two bytes, and pages are small. -/
def Sound (phys : Phys) : Chunk → Prop
  | plain defs values => (∀ v ∈ values, phys.Holds v) ∧ (plainPage phys defs values).length < 2 ^ 31
  | dict entries w page rows => (∀ v ∈ entries, phys.Holds v) ∧ entries.length < 2 ^ 31 ∧ w ≤ 32 ∧ Fits w ∧
      page.Small ∧ rows ≤ page.indexes.length ∧ ∀ k ∈ page.indexes.take rows, k < entries.length

/-- The chunk is on the device: the decompressed pages, and the indices that were decoded with the flag
down. -/
def Loaded (phys : Phys) (c : Chunk) (src : PageSrc) : Prop :=
  match c with
  | plain defs values => ∃ buf, src = .plain buf ∧ InMemory buf 0 (plainPage phys defs values)
  | dict entries _ page rows => ∃ mem dict, src = .dict (applyRuns mem (scanRuns mem rows)) dict ∧
      InMemory mem 0 page.bytes ∧ (scanRuns mem rows).overflow = false ∧
      InMemory dict 0 (plainBytes phys entries)

end Chunk

/-- A row group on the device. -/
structure OnDevice (cols : Nat → ColumnMeta) (ncol : Nat) (file : Nat → Chunk) (g : RowGroup) : Prop where
  size : ∀ c < ncol, (file c).values.length = g.n
  sound : ∀ c < ncol, (file c).Sound (cols c).phys
  loaded : ∀ c < ncol, (file c).Loaded (cols c).phys (g.src c)

/-! ## 3. Reading a value -/

theorem toNat_mod_lt (v : Int) (k : Nat) : (v % 256 ^ k).toNat < 256 ^ k := by
  have hpos : (0 : Int) < 256 ^ k := by positivity
  have hlt := Int.emod_lt_of_pos v hpos
  have hnn := Int.emod_nonneg v hpos.ne'
  zify
  omega

/-- A value is loaded as it was written. -/
theorem load_packLE {phys : Phys} {v : Int} (hv : phys.Holds v) {mem : Memory} {off : Int}
    (hmem : InMemory mem off (Bytes.packLE phys.width (v % 256 ^ phys.width).toNat)) :
    phys.load mem off = v := by
  have hload := valueLoop_eq hmem (toNat_mod_lt v phys.width)
  cases phys with
  | i32 =>
    change int32 (valueLoop mem off 4) = v
    change valueLoop mem off 4 = (v % 256 ^ 4).toNat at hload
    obtain ⟨hlo, hhi⟩ := hv
    rw [hload, Int.toNat_of_nonneg (Int.emod_nonneg v (by decide))]
    exact (Int.emod_bmod v (2 ^ 32)).trans (Int.bmod_eq_of_le_mul_two (by omega) (by omega))
  | i64 =>
    change Fused.wrap64 (valueLoop mem off 8) = v
    change valueLoop mem off 8 = (v % 256 ^ 8).toNat at hload
    obtain ⟨hlo, hhi⟩ := hv
    rw [hload, Int.toNat_of_nonneg (Int.emod_nonneg v (by decide))]
    exact (Int.emod_bmod v (2 ^ 64)).trans (Int.bmod_eq_of_le_mul_two (by omega) (by omega))

/-- Each value of a plain page is at its place. -/
theorem load_plainBytes {phys : Phys} {values : List Int} (hvalues : ∀ v ∈ values, phys.Holds v)
    {mem : Memory} {off : Int} (hmem : InMemory mem off (plainBytes phys values)) {i : Nat}
    (hi : i < values.length) : phys.load mem (off + i * phys.width) = values[i] := by
  induction values generalizing off i with
  | nil => cases hi
  | cons v values ih =>
    rw [plainBytes, List.flatMap_cons, inMemory_append, Bytes.length_packLE] at hmem
    cases i with
    | zero => simpa using load_packLE (hvalues v List.mem_cons_self) hmem.1
    | succ i =>
      have := ih (fun u hu => hvalues u (List.mem_cons_of_mem _ hu)) hmem.2 (by simpa using hi)
      rw [List.getElem_cons_succ, ← this]
      congr 1
      push_cast
      ring

theorem plainValuesOff_page {phys : Phys} {defs : Bytes} {values : List Int} {buf : Memory}
    (hlen : (Chunk.plainPage phys defs values).length < 2 ^ 31)
    (hmem : InMemory buf 0 (Chunk.plainPage phys defs values)) :
    plainValuesOff buf = 4 + defs.length ∧ InMemory buf (4 + defs.length) (plainBytes phys values) := by
  rw [Chunk.plainPage, inMemory_append, inMemory_append] at hmem
  simp only [Chunk.plainPage, List.length_append, Bytes.length_packLE] at hlen hmem
  obtain ⟨⟨hdefs, -⟩, hvalues⟩ := hmem
  refine ⟨?_, by simpa using hvalues⟩
  rw [plainValuesOff, valueLoop_eq hdefs (by omega), int32_natCast (by omega)]

/-- The kernel reads the values that were written. -/
theorem pageColRaw64_chunk {phys : Phys} {c : Chunk} {src : PageSrc} (hsound : c.Sound phys)
    (hload : c.Loaded phys src) {i : Nat} (hi : i < c.values.length) :
    pageColRaw64 phys src i = c.values[i] := by
  cases c with
  | plain defs values =>
    obtain ⟨hholds, hlen⟩ := hsound
    obtain ⟨buf, rfl, hmem⟩ := hload
    obtain ⟨hoff, hvalues⟩ := plainValuesOff_page hlen hmem
    rw [pageColRaw64, hoff]
    exact load_plainBytes hholds hvalues hi
  | dict entries w page rows =>
    obtain ⟨hholds, hlen, hw, hfits, hsmall, hrows, hindexes⟩ := hsound
    obtain ⟨mem, dict, rfl, hmem, hdown, hdict⟩ := hload
    have hi' : i < (page.indexes.take rows).length := by simpa [Chunk.values] using hi
    have hin : i < rows := lt_of_lt_of_le hi' (List.length_take_le _ _)
    obtain ⟨v, hv, hread⟩ := decoded_of_fits hw hfits hsmall hmem hrows hdown i hin
    rw [← List.getElem?_take_of_lt hin] at hv
    have hlt := hindexes v (List.mem_of_getElem? hv)
    have hval : (page.indexes.take rows)[i] = v := by
      rw [List.getElem?_eq_getElem hi', Option.some.injEq] at hv
      exact hv
    rw [pageColRaw64, hread, int32_natCast (hlt.trans hlen), ← zero_add ((v : Int) * _),
      load_plainBytes hholds hdict hlt]
    simp only [Chunk.values, List.getElem_map, hval, List.getD_eq_getElem _ _ hlt]

/-! ## 4. Stores in any order -/

/-- Nothing is stored elsewhere. -/
theorem materialise_of_notMem {order : List Store} {a : Nat × Nat} (ha : a ∉ order.map Prod.fst)
    (frame : Nat × Nat → Cell) : materialise frame order a = frame a := by
  unfold materialise
  induction order generalizing frame with
  | nil => rfl
  | cons t order ih =>
    rw [List.map_cons, List.mem_cons, not_or] at ha
    rw [List.foldl_cons, ih ha.2, Function.update_of_ne ha.1]

/-- A store to a cell of its own is there in the end, whatever the order. -/
theorem materialise_of_mem {order : List Store} (hnd : (order.map Prod.fst).Nodup) {s : Store}
    (hs : s ∈ order) (frame : Nat × Nat → Cell) : materialise frame order s.1 = s.2 := by
  induction order generalizing frame with
  | nil => cases hs
  | cons t order ih =>
    rw [List.map_cons, List.nodup_cons] at hnd
    rcases List.mem_cons.mp hs with rfl | hs
    · refine (materialise_of_notMem hnd.1 _).trans ?_
      exact Function.update_self _ _ _
    · exact ih hnd.2 hs _

variable {cols : Nat → ColumnMeta} {ncol : Nat}

/-- The number of rows. -/
def rowCount (gs : List RowGroup) : Nat := (gs.map RowGroup.n).sum

theorem mem_groupStores {base : Nat} {g : RowGroup} {s : Store} :
    s ∈ groupStores cols ncol base g ↔ ∃ i < g.n, ∃ c < ncol,
      s = ((c, base + i), outCell (cols c) (pageColRaw64 (cols c).phys (g.src c) i)) := by
  unfold groupStores
  simp only [List.mem_flatMap, List.mem_map, List.mem_range]
  exact exists_congr fun i => and_congr_right fun _ => exists_congr fun c =>
    and_congr_right fun _ => eq_comm

/-- The cells of a launch. -/
theorem groupStores_cells (base : Nat) (g : RowGroup) :
    (groupStores cols ncol base g).map Prod.fst =
      (List.range g.n).flatMap fun i => (List.range ncol).map fun c => (c, base + i) := by
  rw [groupStores, List.map_flatMap]
  exact List.flatMap_congr fun i _ => List.map_map

/-- The stores of row groups are to columns and rows of theirs. -/
theorem stores_inside {base : Nat} {gs : List RowGroup} {s : Store} (hs : s ∈ stores cols ncol base gs) :
    s.1.1 < ncol ∧ base ≤ s.1.2 ∧ s.1.2 < base + rowCount gs := by
  induction gs generalizing base with
  | nil => cases hs
  | cons g gs ih =>
    rw [rowCount, List.map_cons, List.sum_cons, ← rowCount]
    rcases List.mem_append.mp hs with hs | hs
    · obtain ⟨i, hi, c, hc, rfl⟩ := mem_groupStores.mp hs
      exact ⟨hc, Nat.le_add_right _ _, by change base + i < _; omega⟩
    · obtain ⟨hc, hlo, hhi⟩ := ih hs
      exact ⟨hc, by omega, by omega⟩

/-- No two stores are to one cell. -/
theorem stores_nodup (base : Nat) (gs : List RowGroup) : ((stores cols ncol base gs).map Prod.fst).Nodup := by
  induction gs generalizing base with
  | nil => exact List.nodup_nil
  | cons g gs ih =>
    rw [stores, List.map_append, List.nodup_append']
    refine ⟨?_, ih _, ?_⟩
    · rw [groupStores_cells, List.nodup_flatMap]
      refine ⟨fun i _ => List.nodup_range.map fun c c' h => (Prod.mk.inj h).1, ?_⟩
      refine List.nodup_range.imp fun {i j} hij x hx hx' => ?_
      obtain ⟨c, -, rfl⟩ := List.mem_map.mp hx
      obtain ⟨c', -, h⟩ := List.mem_map.mp hx'
      exact hij (Nat.add_left_cancel (Prod.mk.inj h).2).symm
    · intro x hx hx'
      obtain ⟨s, hs, rfl⟩ := List.mem_map.mp hx
      obtain ⟨s', hs', h⟩ := List.mem_map.mp hx'
      obtain ⟨i, hi, c, -, rfl⟩ := mem_groupStores.mp hs
      have := (stores_inside hs').2.1
      rw [h] at this
      change base + g.n ≤ base + i at this
      omega

/-- The values of a column, and how many there are. -/
def column (file : List (Nat → Chunk)) (c : Nat) : List Int := file.flatMap fun chunks => (chunks c).values

theorem length_column {file : List (Nat → Chunk)} {gs : List RowGroup}
    (h : List.Forall₂ (OnDevice cols ncol) file gs) {c : Nat} (hc : c < ncol) :
    (column file c).length = rowCount gs := by
  induction h with
  | nil => rfl
  | cons hg _ ih =>
    rw [column, List.flatMap_cons, List.length_append, hg.size c hc, ← column, ih, rowCount, rowCount,
      List.map_cons, List.sum_cons]

/-- Every value of a column is stored in its row. -/
theorem stores_column {file : List (Nat → Chunk)} {gs : List RowGroup}
    (h : List.Forall₂ (OnDevice cols ncol) file gs) {c : Nat} (hc : c < ncol) {base k : Nat}
    (hk : k < (column file c).length) :
    ((c, base + k), outCell (cols c) (column file c)[k]) ∈ stores cols ncol base gs := by
  induction h generalizing base k with
  | nil => cases hk
  | @cons chunks g file gs hg _ ih =>
    have hsplit : column (chunks :: file) c = (chunks c).values ++ column file c := List.flatMap_cons
    rw [hsplit, List.length_append] at hk
    rw [stores, List.mem_append]
    rcases Nat.lt_or_ge k (chunks c).values.length with hlt | hge
    · left
      refine mem_groupStores.mpr ⟨k, by rw [← hg.size c hc]; exact hlt, c, hc, ?_⟩
      simp only [hsplit, List.getElem_append_left hlt,
        pageColRaw64_chunk (hg.sound c hc) (hg.loaded c hc) hlt]
    · right
      have := @ih (base + g.n) (k - (chunks c).values.length) (by omega)
      simp only [hsplit, List.getElem_append_right hge]
      convert this using 3
      rw [← hg.size c hc]
      omega

/-- **The buffers hold the columns of the file**, in whatever order the values are stored, and nothing is
written behind the last row or column. -/
theorem materialise_columns (cols : Nat → ColumnMeta) (ncol : Nat) (file : List (Nat → Chunk))
    (gs : List RowGroup) (h : List.Forall₂ (OnDevice cols ncol) file gs) (order : List Store)
    (hperm : order.Perm (stores cols ncol 0 gs)) (frame : Nat × Nat → Cell) :
    (∀ c < ncol, (List.range (rowCount gs)).map (fun k => materialise frame order (c, k)) =
      (column file c).map (outCell (cols c))) ∧
    ∀ c k, ncol ≤ c ∨ rowCount gs ≤ k → materialise frame order (c, k) = frame (c, k) := by
  have hnd : (order.map Prod.fst).Nodup := (hperm.map Prod.fst).nodup_iff.mpr (stores_nodup 0 gs)
  refine ⟨fun c hc => ?_, fun c k hout => materialise_of_notMem (fun hmem => ?_) frame⟩
  · refine List.ext_getElem ?_ fun k hk hk' => ?_
    · rw [List.length_map, List.length_range, List.length_map, length_column h hc]
    · rw [List.length_map] at hk'
      have hs := @stores_column cols ncol file gs h c hc 0 k hk'
      rw [List.getElem_map, List.getElem_range, List.getElem_map]
      rw [Nat.zero_add] at hs
      exact materialise_of_mem hnd (hperm.mem_iff.mpr hs) frame
  · obtain ⟨s, hs, hcell⟩ := List.mem_map.mp hmem
    obtain ⟨hc, -, hk⟩ := stores_inside (hperm.mem_iff.mp hs)
    rw [hcell] at hc hk
    change c < ncol at hc
    change k < 0 + rowCount gs at hk
    omega

/-- A page with the indices 0, 1, 1 and five more, of one bit each. -/
def threeIndexes : DictPage 1 where
  defs := [2, 3]
  runs := [.packed [fun j => if j = 0 then 0 else 1]]

/-- Three rows: days of a dictionary, and prices. -/
def threeRows : Nat → Chunk
  | 0 => .dict [-1, 10957] 1 threeIndexes 3
  | _ => .plain [2, 3] [12345, -50, 0]

def dayAndPrice : Nat → ColumnMeta
  | 0 => ⟨.i32, 0, true⟩
  | _ => ⟨.i64, 2, false⟩

/-- They are decoded by the kernels. -/
def threeRowsGroup : RowGroup where
  n := 3
  src
    | 0 => .dict (applyRuns (memoryOf threeIndexes.bytes) (scanRuns (memoryOf threeIndexes.bytes) (3 : Nat)))
        (memoryOf (plainBytes .i32 [-1, 10957]))
    | _ => .plain (memoryOf (Chunk.plainPage .i64 [2, 3] [12345, -50, 0]))

theorem threeIndexes_small : threeIndexes.Small := ⟨by decide +kernel, by decide +kernel⟩

theorem threeRows_onDevice : OnDevice dayAndPrice 2 threeRows threeRowsGroup where
  size c hc := by
    match c, hc with
    | 0, _ => decide +kernel
    | 1, _ => rfl
  sound c hc := by
    match c, hc with
    | 0, _ => exact ⟨by decide, by decide, by decide, by decide, threeIndexes_small,
        by decide +kernel, by decide +kernel⟩
    | 1, _ => exact ⟨by decide, by decide +kernel⟩
  loaded c hc := by
    match c, hc with
    | 0, _ =>
      refine ⟨_, _, rfl, inMemory_memoryOf _, ?_, inMemory_memoryOf _⟩
      rw [Bool.eq_false_iff, ne_eq, overflow_iff (by decide) threeIndexes_small (inMemory_memoryOf _)
        (by decide +kernel)]
      decide +kernel
    | 1, _ => exact ⟨_, rfl, inMemory_memoryOf _⟩

/-- **Days become seconds, and prices are divided by a hundred.** -/
theorem materialise_columns_three :
    (List.range 3).map (fun k => materialise (fun _ => .int 7)
        (stores dayAndPrice 2 0 [threeRowsGroup]).reverse (0, k)) =
      [.int (-86400), .int 946684800, .int 946684800] ∧
    (List.range 3).map (fun k => materialise (fun _ => .int 7)
        (stores dayAndPrice 2 0 [threeRowsGroup]).reverse (1, k)) =
      [.double (12345 / 100), .double (-50 / 100), .double 0] := by
  have h := (materialise_columns dayAndPrice 2 [threeRows] [threeRowsGroup]
    (.cons threeRows_onDevice .nil) _ (List.reverse_perm _) fun _ => .int 7).1
  exact ⟨(h 0 (by decide)).trans (by decide +kernel), (h 1 (by decide)).trans (by decide +kernel)⟩

end Pages

end RyuDB
