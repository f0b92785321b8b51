/-
# `_merge_delta` with its columns

`mergeDelta` keeps the timestamp of a row beside the row and takes the cells of a batch as they are.
`_merge_delta` does neither: it casts each column of a batch to the dtype the column has in the base,
and it writes the timestamps into columns of the frame, under names that nobody reserves.

* `_ins_ts` holds the timestamp of each row.  It is dropped at the end, so a column of that name that
  the table has itself is not in the result.
* `_tomb_ts` and `_flag` stand beside the keys of the tombstones.  A key column of one of these names is
  overwritten with a timestamp or a flag before the tombstones are grouped.
* `_tomb_del` and `_tomb_upd` hold the greatest timestamps while the tombstones are joined to the rows,
  and a column of the table of that name meets them there.

`mergeColumns` does all of this.  The cast is a parameter (`Merger`): a frame of this model has no
dtypes, and a value that does not fit one is wrapped, cut or refused by cuDF.  So is the frame that
comes out where the tombstones meet a column of their own name, or where the cast changes a key of
theirs, which is then in the frame twice.

A checkpoint casts a second time.  `pa.Table.cast` takes the merged frame to the schema of the table: a
DECIMAL is read as a float, and on the way back it is rounded to its scale, or refused when it has too
many digits.  `Parquet.cast` looks at names and NULLs only; `store` casts the values too.

`Engine.Plain` says that the merge does not show: no table has a column of one of these names, and the
cast to the base keeps every value of the delta.  In plain sessions `_merge_delta` is `mergeDelta`
(`mergeColumns_eq`) and `_scan` is `scan` (`scanColumns_eq`), so a result about runs that asks every
state to be plain is about the engine as it is.  `Engine.Storable` says the same of the cast to the schema:
where it holds, what a fold stores is what it read (`Engine.Storable.store_eq`).
-/
import RyuDB.View
import RyuDB.Reload

namespace RyuDB

variable {V : Type}

/-! ## 1. The merge -/

/-- What is left to cuDF and Arrow, for a table and a column of it: `astype` to the dtype that the column
has in the base, and `stored`, the cast to its type in the schema; `mixed` is what becomes of tombstones
that meet a column of their own name or a key that `astype` changes. -/
structure Merger (V : Type) where
  astype : String → String → V → Except DbError (Cell V)
  stored : String → String → V → Except DbError (Cell V)
  mixed : String → Frame V → List (Int × Frame V) → List (Int × Frame V × Bool) →
    Except DbError (Frame V)

/-- The columns that the merge adds to the rows. -/
def addedColumns : List String := ["_ins_ts", "_tomb_del", "_tomb_upd"]

/-- These, and the ones that it adds to the keys of the tombstones. -/
def ownColumns : List String := "_tomb_ts" :: "_flag" :: addedColumns

/-- A cell after a cast of its column; a NULL stays one. -/
def castCell (g : String → V → Except DbError (Cell V)) (c : String) : Cell V → Except DbError (Cell V)
  | none => .ok none
  | some v => g c v

/-- The cells of a row after the casts of their columns. -/
def castCells (g : String → V → Except DbError (Cell V)) (r : Row V) :
    List String → Except DbError (List (Cell V))
  | [] => .ok []
  | c :: cs => do
    let x ← castCell g c (r c)
    let xs ← castCells g r cs
    return x :: xs

/-- Rows after the casts of their columns. -/
def castRows (g : String → V → Except DbError (Cell V)) (cols : List String) :
    List (Row V) → Except DbError (List (Row V))
  | [] => .ok []
  | r :: rs => do
    let cells ← castCells g r cols
    let rows ← castRows g cols rs
    return cellOf cols cells :: rows

/-- The casts keep every value of the rows. -/
def KeptBy (g : String → V → Except DbError (Cell V)) (rows : List (Row V)) : Prop :=
  ∀ r ∈ rows, ∀ c v, r c = some v → g c v = .ok (some v)

namespace Merger

variable (M : Merger V) (t : String)

/-- One batch cut to the columns of the base, cast, and tagged with its timestamp. -/
def castBatch (cols : List String) (e : Int × Frame V) : Except DbError (List (Int × Row V)) := do
  let f ← e.2.select cols
  let rows ← castRows (M.astype t) cols f.rows
  return rows.map fun r => (e.1, r)

/-- `src.cast(schema)` with its values, and the file it gives. -/
def store (f : Frame V) (s : Schema) : Except DbError (Parquet V) :=
  if f.columns = s.names then do
    let rows ← castRows (M.stored t) f.columns f.rows
    Parquet.cast (Frame.ofRows f.columns rows) s
  else Parquet.cast f s

/-- The cast to the base keeps every value of the frame. -/
def Keeps (f : Frame V) : Prop := KeptBy (M.astype t) f.rows

/-- The cast to the schema keeps every value of the frame. -/
def Stores (f : Frame V) : Prop := KeptBy (M.stored t) f.rows

/-- The cast keeps the cell. -/
def keepsCell [DecidableEq V] (c : String) (x : Cell V) : Bool :=
  match castCell (M.astype t) c x with
  | .ok y => decide (y = x)
  | .error _ => false

/-- The tombstones meet a column of their own name, or the cast changes a key of theirs. -/
def clash [DecidableEq V] (pk : Except DbError (Option (List String))) (cols : List String)
    (tomb : List (Int × Frame V × Bool)) : Bool :=
  match pk with
  | .ok (some pk) => !tomb.isEmpty && (pk.any (fun c => decide (c ∈ ownColumns)) ||
      cols.any (fun c => decide (c ∈ ["_tomb_del", "_tomb_upd"])) ||
      tomb.any fun e => e.2.1.rows.any fun r => pk.any fun c => !M.keepsCell t c (r c))
  | _ => false

end Merger

section Casts

variable {g : String → V → Except DbError (Cell V)} {f : Frame V} {cols : List String}

theorem castCell_eq {r : Row V} (hr : ∀ c v, r c = some v → g c v = .ok (some v)) (c : String) :
    castCell g c (r c) = .ok (r c) := by
  cases hc : r c with
  | none => rfl
  | some v => exact hr c v hc

theorem castCells_eq {r : Row V} (hr : ∀ c v, r c = some v → g c v = .ok (some v)) :
    ∀ cols : List String, castCells g r cols = .ok (cols.map r)
  | [] => rfl
  | c :: cs => by
    rw [castCells, castCell_eq hr, castCells_eq hr cs]
    rfl

theorem cellOf_eq_restrict (r : Row V) (cols : List String) :
    cellOf cols (cols.map r) = restrict cols r := by
  funext c
  by_cases hc : c ∈ cols
  · rw [cellOf_map r c cols hc, restrict_mem hc]
  · rw [cellOf_notMem c cols _ hc, restrict_notMem hc]

/-- Casts that keep the values of rows cut them to the columns. -/
theorem castRows_eq : ∀ {rows : List (Row V)}, KeptBy g rows →
    castRows g cols rows = .ok (rows.map (restrict cols))
  | [], _ => rfl
  | r :: rs, h => by
    rw [castRows, castCells_eq (h r List.mem_cons_self),
      castRows_eq fun r' hr' => h r' (List.mem_cons_of_mem _ hr'), List.map_cons,
      ← cellOf_eq_restrict r cols]
    rfl

theorem map_restrict_self (f : Frame V) : f.rows.map (restrict f.columns) = f.rows :=
  (List.map_congr_left fun _ hr => Frame.restrict_self hr).trans (List.map_id _)

theorem KeptBy.restrict {rows : List (Row V)} (h : KeptBy g rows) (cols : List String) :
    KeptBy g (rows.map (restrict cols)) := by
  intro r hr c v hv
  obtain ⟨r', hr', rfl⟩ := List.mem_map.mp hr
  by_cases hc : c ∈ cols
  · rw [restrict_mem hc] at hv
    exact h r' hr' c v hv
  · rw [restrict_notMem hc] at hv
    cases hv

end Casts

namespace Merger

variable {M : Merger V} {t : String} {f : Frame V} {cols : List String}

/-- A batch whose values the cast keeps is tagged as it is. -/
theorem castBatch_eq {e : Int × Frame V} (h : M.Keeps t e.2) :
    M.castBatch t cols e = Engine.tagBatch cols e := by
  unfold castBatch Engine.tagBatch
  cases hs : e.2.select cols with
  | error y => rfl
  | ok g =>
    obtain ⟨-, rfl⟩ := Frame.select_ok.mp hs
    have hrows : KeptBy (M.astype t) (Frame.ofRows cols e.2.rows).rows := KeptBy.restrict h cols
    have hself : (Frame.ofRows cols e.2.rows).rows.map (restrict cols) =
        (Frame.ofRows cols e.2.rows).rows := map_restrict_self (Frame.ofRows cols e.2.rows)
    simp only [bind, Except.bind]
    rw [castRows_eq hrows, hself]
    rfl

/-- A frame whose values the schema keeps is stored as it is. -/
theorem store_of_stores (h : M.Stores t f) (s : Schema) : M.store t f s = Parquet.cast f s := by
  unfold store
  split
  · rw [castRows_eq h, map_restrict_self]
    simp only [bind, Except.bind]
    congr 1
    exact Frame.ext rfl (map_restrict_self f)
  · rfl

theorem clash_eq_false [DecidableEq V] {pk : Except DbError (Option (List String))}
    {tomb : List (Int × Frame V × Bool)} (hpk : ∀ p, pk = .ok (some p) → ∀ c ∈ p, c ∉ ownColumns)
    (hcols : ∀ c ∈ cols, c ∉ addedColumns) (htomb : ∀ e ∈ tomb, M.Keeps t e.2.1) :
    M.clash t pk cols tomb = false := by
  unfold clash
  split
  · rename_i p
    have hkey : p.any (fun c => decide (c ∈ ownColumns)) = false := by
      simpa using hpk p rfl
    have hown : cols.any (fun c => decide (c ∈ ["_tomb_del", "_tomb_upd"])) = false := by
      refine List.any_eq_false.mpr fun c hc => ?_
      have hn := hcols c hc
      simp only [addedColumns, List.mem_cons, not_or] at hn
      simp [hn]
    have hkeep : (tomb.any fun e => e.2.1.rows.any fun r => p.any fun c =>
        !M.keepsCell t c (r c)) = false := by
      refine List.any_eq_false.mpr fun e he => Bool.not_eq_true _ ▸ ?_
      refine List.any_eq_false.mpr fun r hr => Bool.not_eq_true _ ▸ ?_
      refine List.any_eq_false.mpr fun c _ => ?_
      simp [keepsCell, castCell_eq (htomb e he r hr) c]
    rw [hkey, hown, hkeep]
    simp
  · rfl

end Merger

namespace Engine

variable [DecidableEq V] (M : Merger V)

/-- The body of the loops over the batches: check for a cancel, then cut, cast and tag. -/
def castStep (t : String) (cols : List String) (e : Int × Frame V) : Op V (List (Int × Row V)) := do
  checkCancel
  Proc.lift (M.castBatch t cols e)

/-- `_merge_delta` as it is. -/
def mergeColumns (base : Frame V) (t : String) : Op V (Frame V) := do
  let s ← Proc.get
  let ins := insertEntries s t
  let tomb := tombEntries s t
  if ins.isEmpty && tomb.isEmpty then
    return base
  else
    let cols := base.columns
    let parts ← Proc.collect (castStep M t cols) ins
    let merged := (base.rows.map fun r => ((0 : Int), r)) ++ parts.flatten
    if M.clash t (primaryKeyOf s.eng.catalog t) cols tomb then
      Proc.lift (M.mixed t base ins tomb)
    else
      let kept ← Proc.lift (applyTombs (primaryKeyOf s.eng.catalog t) cols tomb merged)
      -- `drop(columns=["_ins_ts"])`
      return Frame.ofRows (cols.filter fun c => decide (c ≠ "_ins_ts")) (kept.map Prod.snd)

/-- `_scan` behind its base, with one merge or the other. -/
def pendingBy (merge : Frame V → String → Op V (Frame V)) (t : String)
    (columns : Option (List String)) (base : Frame V) : Op V (Frame V) := do
  let s ← Proc.get
  if hasPending s t then
    if hasTomb s t then
      let info ← catalogGet t
      let fullBase ← Proc.lift (s.eng.disk.parquet.scan info.paths none)
      let merged ← merge fullBase t
      match columns with
      | none => return merged
      | some cs => Proc.lift (merged.select (sortedSet cs))
    else merge base t
  else return base

/-- `_scan` as it is. -/
def scanColumns (t : String) (columns : Option (List String)) : Op V (Frame V) := do
  let base ← scanBase t (columnSet columns)
  pendingBy (mergeColumns M) t columns base

theorem scan_eq_pendingBy (t : String) (columns : Option (List String)) :
    (scan t columns : Op V (Frame V)) =
      scanBase t (columnSet columns) >>= pendingBy mergeDelta t columns := rfl

end Engine

/-! ## 2. Plain states -/

/-- The entry of a table has no column with a name that the merge adds to the rows, and no key column
with a name that it adds to the rows or to the tombstones. -/
def TableInfo.Free (i : TableInfo V) : Prop :=
  (∀ c ∈ i.columns, c ∉ addedColumns) ∧ ∀ c ∈ Engine.keyCols i, c ∉ ownColumns

instance (i : TableInfo V) : Decidable i.Free := inferInstanceAs (Decidable (_ ∧ _))

/-- No table has a column of one of the merge's own names, and the cast to the base keeps every value of
the delta. -/
structure Engine.Plain (M : Merger V) (e : Engine V) : Prop where
  names : ∀ p ∈ e.catalog.tables.entries, p.2.Free
  ins : ∀ t, ∀ b ∈ e.delta.batchesWithTs t, M.Keeps t b.2
  tomb : ∀ t, ∀ b ∈ e.delta.tombstonesWithTs t, M.Keeps t b.2.1

/-- The cast to the schema keeps every value: of the files, which hold values of their types, and of the
batches of the delta. -/
structure Engine.Storable (M : Merger V) (e : Engine V) : Prop where
  files : ∀ t i f, e.catalog.tables.get? t = some i → e.disk.parquet.scan i.paths none = .ok f →
    M.Stores t f
  ins : ∀ t, ∀ b ∈ e.delta.batchesWithTs t, M.Stores t b.2

/-- The cast to the base keeps every value that the transaction has buffered. -/
structure Transaction.Plain (M : Merger V) (x : Transaction V) : Prop where
  ins : ∀ t, ∀ f ∈ x.bufferBatches t, M.Keeps t f
  tomb : ∀ t, ∀ g ∈ x.tombstoneBatchesWithFlag t, M.Keeps t g.1

/-- The engine and the open transaction are plain. -/
structure Session.Plain (M : Merger V) (s : Session V) : Prop where
  eng : s.eng.Plain M
  txn : ∀ x, s.txn = some x → x.Plain M

/-- The engine and every open transaction are plain. -/
structure World.Plain (M : Merger V) (w : World V) : Prop where
  eng : w.eng.Plain M
  txns : ∀ c x, w.txns.get? c = some x → x.Plain M

/-- The world is plain before a step and after it. -/
def World.StaysPlain (M : Merger V) (w w' : World V) : Prop := w.Plain M ∧ w'.Plain M

/-- The session is plain before a statement and after it. -/
def Session.StaysPlain (M : Merger V) (s s' : Session V) : Prop := s.Plain M ∧ s'.Plain M

section Plain

variable {M : Merger V} {s s' : Session V} {t : String} {i : TableInfo V}

theorem Engine.Plain.entry {e : Engine V} (h : e.Plain M) (hi : e.catalog.tables.get? t = some i) :
    i.Free :=
  h.names (t, i) ((e.catalog.tables.mem_entries t i).mpr hi)

/-- A session with the catalog, the delta and the transaction of a plain one. -/
theorem Session.Plain.congr (h : s.Plain M) (hcat : s'.eng.catalog = s.eng.catalog)
    (hd : s'.eng.delta = s.eng.delta) (hx : s'.txn = s.txn) : s'.Plain M where
  eng := ⟨by rw [hcat]; exact h.eng.names, by rw [hd]; exact h.eng.ins, by rw [hd]; exact h.eng.tomb⟩
  txn := by rw [hx]; exact h.txn

theorem Session.Plain.entries (h : s.Plain M) (t : String) :
    (∀ e ∈ Engine.insertEntries s t, M.Keeps t e.2) ∧
      ∀ e ∈ Engine.tombEntries s t, M.Keeps t e.2.1 := by
  cases hx : s.txn with
  | none =>
    simp only [Engine.insertEntries, Engine.tombEntries, hx]
    exact ⟨h.eng.ins t, h.eng.tomb t⟩
  | some x =>
    simp only [Engine.insertEntries, Engine.tombEntries, hx, List.mem_append, List.mem_map]
    constructor
    · rintro e (he | ⟨f, hf, rfl⟩)
      · rw [DeltaStore.batchesAtWithTs_eq] at he
        exact h.eng.ins t e (List.mem_of_mem_filter he)
      · exact (h.txn x hx).ins t f hf
    · rintro e (he | ⟨g, hg, rfl⟩)
      · rw [DeltaStore.tombstonesAtWithTs_eq] at he
        exact h.eng.tomb t e (List.mem_of_mem_filter he)
      · exact (h.txn x hx).tomb t g hg

theorem Session.Plain.key (h : s.Plain M) {p : List String}
    (hp : Engine.primaryKeyOf s.eng.catalog t = .ok (some p)) : ∀ c ∈ p, c ∉ ownColumns := by
  unfold Engine.primaryKeyOf at hp
  split at hp
  · cases hp
  · rename_i i hi
    intro c hc
    refine (h.eng.entry (Engine.get_eq_ok.mp hi)).2 c ?_
    rw [Engine.keyCols, Except.ok.inj hp]
    exact hc

/-- Two loops whose bodies agree on the list. -/
theorem collect_congr {α β : Type} {f g : α → Op V β} : ∀ {l : List α}, (∀ a ∈ l, f a = g a) →
    Proc.collect f l = Proc.collect g l
  | [], _ => rfl
  | a :: l, h => by
    rw [Proc.collect, Proc.collect, h a List.mem_cons_self,
      collect_congr fun b hb => h b (List.mem_cons_of_mem _ hb)]

variable [DecidableEq V]

/-- The two merges are one where the cast keeps what they merge and no name is in the way. -/
theorem Engine.mergeColumns_of_keeps (hins : ∀ e ∈ Engine.insertEntries s t, M.Keeps t e.2)
    (htomb : ∀ e ∈ Engine.tombEntries s t, M.Keeps t e.2.1)
    (hkey : ∀ p, Engine.primaryKeyOf s.eng.catalog t = .ok (some p) → ∀ c ∈ p, c ∉ ownColumns)
    {base : Frame V} (hb : ∀ c ∈ base.columns, c ∉ addedColumns) :
    Engine.mergeColumns M base t s = Engine.mergeDelta base t s := by
  have hclash : M.clash t (Engine.primaryKeyOf s.eng.catalog t) base.columns
      (Engine.tombEntries s t) = false := Merger.clash_eq_false hkey hb htomb
  have hsteps : Proc.collect (Engine.castStep M t base.columns) (Engine.insertEntries s t) =
      Proc.collect (Engine.tagStep base.columns) (Engine.insertEntries s t) :=
    collect_congr fun e he => by
      rw [Engine.castStep, Engine.tagStep, Merger.castBatch_eq (hins e he)]
  have hcols : base.columns.filter (fun c => decide (c ≠ "_ins_ts")) = base.columns := by
    refine List.filter_eq_self.mpr fun c hc => decide_eq_true ?_
    rintro rfl
    exact hb _ hc List.mem_cons_self
  unfold Engine.mergeColumns Engine.mergeDelta
  rw [Proc.get_bind, Proc.get_bind]
  simp only [hsteps, hclash, hcols, Bool.false_eq_true, if_false]

/-- **In a plain session `_merge_delta` is `mergeDelta`**, over a base without a column of one of its
own names. -/
theorem Engine.mergeColumns_eq (h : s.Plain M) {base : Frame V}
    (hb : ∀ c ∈ base.columns, c ∉ addedColumns) :
    Engine.mergeColumns M base t s = Engine.mergeDelta base t s :=
  Engine.mergeColumns_of_keeps (h.entries t).1 (h.entries t).2 (fun _ hp => h.key hp) hb

omit [DecidableEq V] in
/-- The columns of a base that is read from the files are columns of the table. -/
theorem Engine.lookBase_columns {e : Engine V} (he : Engine.BaseOk e) {cols : Option (List String)}
    {f : Frame V} (h : Engine.lookBase e t cols = .ok f) (hp : e.Plain M) :
    ∀ c ∈ f.columns, c ∉ addedColumns := by
  obtain ⟨i, hi, h⟩ := bind_eq_ok.mp h
  have hi := Engine.get_eq_ok.mp hi
  obtain ⟨b, hb, hbc⟩ := he t i hi
  intro c hc
  refine (hp.entry hi).1 c ?_
  cases cols with
  | none =>
    rw [hb] at h
    cases h
    rw [← hbc]
    exact hc
  | some cs =>
    rw [Files.scan_some hb] at h
    obtain ⟨hsub, rfl⟩ := Frame.select_ok.mp h
    rw [← hbc]
    exact hsub c hc

/-- Behind a base without a column of their own names the two merges are one. -/
theorem Engine.pendingBy_eq (h : s.Plain M) (hok : Engine.BaseOk s.eng) {base : Frame V}
    (hb : ∀ c ∈ base.columns, c ∉ addedColumns) (columns : Option (List String)) :
    Engine.pendingBy (Engine.mergeColumns M) t columns base s =
      Engine.pendingBy Engine.mergeDelta t columns base s := by
  unfold Engine.pendingBy
  rw [Proc.get_bind, Proc.get_bind]
  split
  · split
    · cases hi : s.eng.catalog.get t with
      | error y =>
        have hget : Engine.catalogGet t s = (.error y, s) := by rw [Engine.catalogGet_apply, hi]
        rw [Proc.bind_of_error hget, Proc.bind_of_error hget]
      | ok i =>
        have hget : Engine.catalogGet t s = (.ok i, s) := by rw [Engine.catalogGet_apply, hi]
        rw [Proc.bind_of_ok hget, Proc.bind_of_ok hget]
        cases hf : s.eng.disk.parquet.scan i.paths none with
        | error y => rfl
        | ok full =>
          have hlook : Engine.lookBase s.eng t none = .ok full := by
            rw [Engine.lookBase, hi]
            exact hf
          have hsame := Engine.mergeColumns_eq (t := t) h
            (Engine.lookBase_columns hok hlook h.eng)
          rw [Proc.lift_bind_ok, Proc.lift_bind_ok, Proc.bind_apply, Proc.bind_apply, Proc.seq,
            Proc.seq, hsame]
    · exact Engine.mergeColumns_eq h hb
  · rfl

/-- **In a plain session `_scan` is `scan`.** -/
theorem Engine.scanColumns_eq (he : Engine.EngineOk s.eng) (h : s.Plain M)
    (columns : Option (List String)) :
    Engine.scanColumns M t columns s = Engine.scan t columns s := by
  have hcached : Engine.cachedBase s.eng t (Engine.columnSet columns) =
      Engine.lookBase s.eng t (Engine.columnSet columns) := Engine.cachedBase_eq he.coherent _ _
  rw [Engine.scan_eq_pendingBy, Engine.scanColumns]
  rcases Engine.scanBase_cases t (Engine.columnSet columns) s with hrun | ⟨f, -, hf, hrun⟩
  · cases hbase : Engine.lookBase s.eng t (Engine.columnSet columns) with
    | error y =>
      rw [hcached, hbase] at hrun
      rw [Proc.bind_of_error hrun, Proc.bind_of_error hrun]
    | ok base =>
      rw [hcached, hbase] at hrun
      rw [Proc.bind_of_ok hrun, Proc.bind_of_ok hrun]
      exact Engine.pendingBy_eq h he.base (Engine.lookBase_columns he.base hbase h.eng) columns
  · rw [Proc.bind_of_ok hrun, Proc.bind_of_ok hrun]
    have hcache : Session.Plain M { s with eng := { s.eng with
        scanCache := s.eng.scanCache.set (t, Engine.columnSet columns) f } } :=
      h.congr rfl rfl rfl
    exact Engine.pendingBy_eq hcache he.base (Engine.lookBase_columns he.base hf h.eng) columns

/-- The rows a `SELECT *` sees outside any transaction, as `_scan` finds them. -/
def Engine.shows (M : Merger V) (e : Engine V) (t : String) : Except DbError (List (Row V)) :=
  match (Engine.scanColumns M t none ⟨e, none, {}⟩).1 with
  | .ok f => .ok f.rows
  | .error x => .error x

/-- A plain engine shows what is visible. -/
theorem Engine.shows_eq {e : Engine V} (he : Engine.EngineOk e) (h : e.Plain M) (t : String) :
    e.shows M t = e.visible t := by
  have hplain : Session.Plain M ⟨e, none, {}⟩ := ⟨h, fun x hx => by cases hx⟩
  rw [Engine.shows, Engine.scanColumns_eq he hplain]
  rfl

/-- **What a fold stores is what it read.**  The rows of a table come from its files and its delta, and
the cast to the schema keeps them. -/
theorem Engine.Storable.store_eq {e : Engine V} (he : Engine.EngineOk e) (h : e.Storable M)
    (hi : e.catalog.tables.get? t = some i) {f : Frame V}
    (hf : f.rows = (Engine.seen e none t).map Prod.snd) (s : Schema) :
    M.store t f s = Parquet.cast f s := by
  refine Merger.store_of_stores (fun r hr => ?_) s
  rw [hf] at hr
  obtain ⟨y, hy, rfl⟩ := List.mem_map.mp hr
  have hsub : y ∈ ((Engine.baseRows e i).map fun r => ((0 : Int), r)) ++
      Engine.tagRows (Engine.insertEntries ⟨e, none, {}⟩ t) := by
    unfold Engine.seen at hy
    rw [hi] at hy
    exact List.mem_of_mem_filter hy
  obtain ⟨b, hb, -⟩ := he.base t i hi
  rcases List.mem_append.mp hsub with hbase | hins
  · obtain ⟨r, hbr, rfl⟩ := List.mem_map.mp hbase
    unfold Engine.baseRows at hbr
    rw [hb] at hbr
    exact h.files t i b hi hb r hbr
  · obtain ⟨a, ha, hins⟩ := List.mem_flatMap.mp hins
    obtain ⟨r, har, rfl⟩ := List.mem_map.mp hins
    exact h.ins t a ha r har

end Plain

/-! ## 3. Tables of numbers -/

/-- Every number fits every column of a table of numbers. -/
def natMerger : Merger Nat where
  astype _ _ v := .ok (some v)
  stored _ _ v := .ok (some v)
  mixed _ base _ _ := .ok base

theorem natMerger_keeps (t : String) (f : Frame Nat) : natMerger.Keeps t f := fun _ _ _ _ _ => rfl

theorem natMerger_stores (t : String) (f : Frame Nat) : natMerger.Stores t f := fun _ _ _ _ _ => rfl

/-- An engine over tables of numbers is plain when no table has a column of one of the merge's own
names. -/
theorem Engine.plain_natMerger {e : Engine Nat} (h : ∀ p ∈ e.catalog.tables.entries, p.2.Free) :
    e.Plain natMerger :=
  ⟨h, fun t b _ => natMerger_keeps t b.2, fun t b _ => natMerger_keeps t b.2.1⟩

theorem Engine.storable_natMerger (e : Engine Nat) : e.Storable natMerger :=
  ⟨fun t _ f _ _ => natMerger_stores t f, fun t b _ => natMerger_stores t b.2⟩

theorem Transaction.plain_natMerger (x : Transaction Nat) : x.Plain natMerger :=
  ⟨fun t f _ => natMerger_keeps t f, fun t g _ => natMerger_keeps t g.1⟩

/-- So is a session, and a world. -/
theorem Session.plain_natMerger {s : Session Nat}
    (h : ∀ p ∈ s.eng.catalog.tables.entries, p.2.Free) : s.Plain natMerger :=
  ⟨Engine.plain_natMerger h, fun x _ => x.plain_natMerger⟩

theorem World.plain_natMerger {w : World Nat}
    (h : ∀ p ∈ w.eng.catalog.tables.entries, p.2.Free) : w.Plain natMerger :=
  ⟨Engine.plain_natMerger h, fun _ x _ => x.plain_natMerger⟩

/-- Every world that SQL reaches from the sample directory is plain. -/
theorem started_plain {l : List (Step Nat)} (hl : ∀ a ∈ l, World.Live a) :
    (Run.run (World.step natHost) started l).Plain natMerger := by
  refine World.plain_natMerger ?_
  rw [World.catalog_run started_settled hl]
  with_unfolding_all decide

end RyuDB
