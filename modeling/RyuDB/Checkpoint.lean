/-
# Checkpoint

`Engine.checkpoint` folds the committed delta of every table into a new base file and then
truncates the log.  For one table it reads the merged rows, casts them to the declared schema and
makes a sequence of writes: the new file under a temporary name, the atomic rename to
`ryudb_base.parquet` beside the first old file, the registration (which saves the catalog), the
clearing of the delta, the removal of the old files and the dropping of cached frames.  The writes
are a list (`Fold.writes`), so that a process that stops in the middle has made a prefix of it.

`Folded` says what the engine looks like when some tables are folded and the others are as they
were; `foldTable_ok` is the step from one table to the next.  It needs the tables to be `Separate`:
the name of the new file depends on the directory only, and old files are removed, so two tables
that share a directory or a file are in each other's way.

The proof keeps the checkpoint as it is written, as a loop that reads the engine it has changed so
far.  That a later table is still read as it stood before is not assumed but follows from `Folded`:
folding a table leaves the files, the delta and the catalog entry of every other one alone.  The whole
of it, that a checkpoint which is not cancelled succeeds and changes no row, is in section 5.
-/
import RyuDB.View

namespace RyuDB

variable {V : Type}

/-! ## 1. The code -/

/-- `final`: `ryudb_base.parquet` in the directory of the first file.  Registering refuses a table
without files. -/
def TableInfo.basePath (i : TableInfo V) : Path :=
  ⟨(i.paths.head?.map Path.dir).getD "", "ryudb_base.parquet"⟩

/-- `tmp`: the name under which the new file is written. -/
def TableInfo.tmpPath (i : TableInfo V) : Path := ⟨i.basePath.dir, i.basePath.file ++ ".tmp"⟩

theorem TableInfo.tmpPath_ne_basePath (i j : TableInfo V) : i.tmpPath ≠ j.basePath := by
  intro h
  have hfile : ("ryudb_base.parquet" ++ ".tmp" : String) = "ryudb_base.parquet" :=
    congrArg Path.file h
  revert hfile
  decide

/-- One write of a checkpoint. -/
inductive Write (V : Type) where
  | writeTable (p : Path) (data : Parquet V)
  | replace (src dst : Path)
  | register (t : String) (p : Path)
  | clear (t : String)
  | remove (p : Path)
  | dropCache (t : String)

namespace Engine

/-- The engine on other Parquet files. -/
def withFiles (e : Engine V) (d : Files V) : Engine V :=
  { e with disk := { e.disk with parquet := d } }

/-- `_drop_scan_cache_for`. -/
def dropScanCacheFor (t : String) (e : Engine V) : Engine V :=
  { e with scanCache := e.scanCache.filter fun k _ => decide (k.1 ≠ t) }

end Engine

/-- What a write does to the engine and its disk. -/
def Write.apply (e : Engine V) : Write V → Except DbError (Engine V)
  | .writeTable p data => .ok (e.withFiles (e.disk.parquet.set p data))
  | .replace src dst =>
    match e.disk.parquet.get? src with
    | none => .error (.fileNotFound src.str)
    | some data => .ok (e.withFiles ((e.disk.parquet.erase src).set dst data))
  | .register t p =>
    match e.catalog.register e.disk t (.file p) with
    | .error x => .error x
    | .ok (c, d) => .ok { e with catalog := c, disk := d }
  | .clear t => .ok { e with delta := e.delta.clear t }
  | .remove p => .ok (e.withFiles (e.disk.parquet.erase p))
  | .dropCache t => .ok (e.dropScanCacheFor t)

/-- Make some writes in order. -/
def applyAll (ws : List (Write V)) (e : Engine V) : Except DbError (Engine V) :=
  ws.foldlM Write.apply e

/-- The new base of one table. -/
structure Fold (V : Type) where
  table : String
  info : TableInfo V
  data : Parquet V

namespace Fold

/-- The old files that are removed: all but the one that was just published. -/
def stale (f : Fold V) : List Path := f.info.paths.filter (· ≠ f.info.basePath)

/-- The writes for one table, in the order of the source. -/
def writes (f : Fold V) : List (Write V) :=
  [.writeTable f.info.tmpPath f.data, .replace f.info.tmpPath f.info.basePath,
    .register f.table f.info.basePath, .clear f.table] ++ f.stale.map .remove ++
    [.dropCache f.table]

end Fold

namespace Engine

/-- One write inside a session. -/
def write (w : Write V) : Op V Unit := fun s =>
  match w.apply s.eng with
  | .error x => (.error x, s)
  | .ok e => (.ok (), { s with eng := e })

section Code

variable [DecidableEq V]

/-- The reading half of the loop body: the merged rows, cast to the declared schema. -/
def foldOf (t : String) : Op V (Fold V) := do
  let info ← catalogGet t
  let merged ← scan t none
  let data ← Proc.lift (Parquet.cast merged info.schema)
  return ⟨t, info, data⟩

/-- The loop body of `checkpoint`. -/
def foldTable (t : String) : Op V (Option (String × Nat)) := do
  checkCancel
  let s ← Proc.get
  if s.eng.delta.hasUnflushed t then
    let f ← foldOf t
    Proc.each write f.writes
    let info ← catalogGet t
    return some (t, info.rowCount)
  else return none

/-- The end of `checkpoint`: snapshots older than it are dropped. -/
def dropSnapshotsBefore (ts : Int) : Op V Unit := Proc.modify fun s =>
  { s with eng := { s.eng with
    snapshots := s.eng.snapshots.filter fun _ n => decide (ts ≤ n) } }

/-- `checkpoint`. -/
def checkpoint (H : Host V) : Op V (List (String × Nat)) := do
  let s ← Proc.get
  match s.txn with
  | some _ => Proc.raise (.runtime
      "cannot checkpoint during a transaction (COMMIT/ROLLBACK first)")
  | none =>
    match s.eng.catalog.dataDir with
    | none => Proc.raise (.runtime "cannot checkpoint without a data dir (ephemeral engine)")
    | some _ =>
      let targets := H.setOrder s.eng.delta.tableNames
      if targets.isEmpty then return []
      else
        let written ← Proc.collect foldTable targets
        walTruncate 0
        dropSnapshotsBefore s.eng.commitTs
        return written.reduceOption

end Code

/-! ## 2. The writes of one table

The writes are followed one by one here and taken as one step afterwards (`applyAll_writes`).  What a
later proof needs to know of the files is where a path leads after them: to the new base, to nothing
if it was an old file or the temporary name, and else to what was there. -/

theorem each_write {ws : List (Write V)} : ∀ {s : Session V} {e : Engine V},
    applyAll ws s.eng = .ok e → Proc.each write ws s = (.ok (), { s with eng := e }) := by
  induction ws with
  | nil =>
    intro s e h
    cases h
    rfl
  | cons w ws ih =>
    intro s e h
    rw [applyAll, List.foldlM_cons] at h
    cases hw : w.apply s.eng with
    | error x => rw [hw] at h; cases h
    | ok e₁ =>
      rw [hw] at h
      have hrun : write w s = (.ok (), { s with eng := e₁ }) := by rw [write, hw]
      exact (Proc.bind_of_ok (f := fun _ => Proc.each write ws) hrun).trans (ih h)

end Engine

namespace Fold

variable (f : Fold V) (e : Engine V)

/-- The files once the new base is published. -/
def published (d : Files V) : Files V :=
  ((d.set f.info.tmpPath f.data).erase f.info.tmpPath).set f.info.basePath f.data

theorem get?_published (d : Files V) (p : Path) : (f.published d).get? p =
    if p = f.info.basePath then some f.data
    else if p = f.info.tmpPath then none else d.get? p := by
  rw [published, Dict.get?_set, Dict.get?_erase, Dict.get?_set]
  split
  · rfl
  · split <;> rfl

theorem get?_published_other (d : Files V) {p : Path} (hb : p ≠ f.info.basePath)
    (ht : p ≠ f.info.tmpPath) : (f.published d).get? p = d.get? p := by
  rw [get?_published, if_neg hb, if_neg ht]

/-- The entry of the table after its registration. -/
def entry : TableInfo V where
  name := f.table
  paths := [f.info.basePath]
  rowCount := f.data.frame.rows.length
  schema := f.data.schema
  constraints := Catalog.inherited (some f.info) f.data.schema.required

/-- The catalog with the table registered over its new base. -/
def newCatalog : Catalog V := { e.catalog with tables := e.catalog.tables.set f.table f.entry }

/-- The engine once the new base is published and registered. -/
def registered : Engine V :=
  { e with
    catalog := f.newCatalog e
    disk := ⟨f.published e.disk.parquet, some (f.newCatalog e).saved, e.disk.wal⟩ }

/-- The engine after the clearing of the delta and the removal of the files `ps`. -/
def cleared (ps : List Path) : Engine V :=
  { f.registered e with delta := e.delta.clear f.table }.withFiles
    (ps.foldl Dict.erase (f.published e.disk.parquet))

theorem get?_foldl_erase (p : Path) : ∀ (ps : List Path) (d : Files V),
    (ps.foldl Dict.erase d).get? p = if p ∈ ps then none else d.get? p
  | [], d => by simp
  | q :: ps, d => by
    rw [List.foldl_cons, get?_foldl_erase p ps, Dict.get?_erase]
    by_cases hq : p = q
    · simp [hq]
    · simp [hq]

theorem applyAll_remove : ∀ (ps : List Path) (e : Engine V),
    applyAll (ps.map Write.remove) e = .ok (e.withFiles (ps.foldl Dict.erase e.disk.parquet))
  | [], _ => rfl
  | _ :: ps, _ => applyAll_remove ps _

variable {f e}

theorem apply_replace : (Write.replace f.info.tmpPath f.info.basePath).apply
    (e.withFiles (e.disk.parquet.set f.info.tmpPath f.data)) =
      .ok (e.withFiles (f.published e.disk.parquet)) := by
  have hget : (e.withFiles (e.disk.parquet.set f.info.tmpPath f.data)).disk.parquet.get?
      f.info.tmpPath = some f.data := by simp [Engine.withFiles]
  rw [Write.apply, hget]
  rfl

/-- Registering the published base cannot fail. -/
theorem apply_register (hi : e.catalog.tables.get? f.table = some f.info)
    (hdir : e.catalog.dataDir.isSome = true) : (Write.register f.table f.info.basePath).apply
      (e.withFiles (f.published e.disk.parquet)) = .ok (f.registered e) := by
  have hget : (f.published e.disk.parquet).get? f.info.basePath = some f.data := by
    rw [get?_published, if_pos rfl]
  have hread : (f.published e.disk.parquet).readAll [f.info.basePath] = .ok [f.data] := by
    simp only [Files.readAll, Files.read_ok.mpr hget]
  obtain ⟨dir, hdir⟩ := Option.isSome_iff_exists.mp hdir
  simp only [Write.apply, Catalog.register, Engine.withFiles, resolveParquetPaths, hget,
    Option.isSome_some, if_true, Catalog.infoOf, Files.read_ok.mpr hget, hread, hi, List.map_cons,
    List.map_nil, List.sum_cons, List.sum_nil, Nat.add_zero, Catalog.save, hdir, registered,
    newCatalog, entry]

/-- Files the fold has nothing to do with. -/
theorem get?_cleared {p : Path} (hp : p ∉ f.info.paths) (hb : p ≠ f.info.basePath)
    (ht : p ≠ f.info.tmpPath) {ps : List Path} (hps : ∀ q ∈ ps, q ∈ f.info.paths) :
    (f.cleared e ps).disk.parquet.get? p = e.disk.parquet.get? p := by
  have hstale : p ∉ ps := fun hmem => hp (hps p hmem)
  change (ps.foldl Dict.erase (f.published e.disk.parquet)).get? p = _
  rw [get?_foldl_erase, if_neg hstale, get?_published_other _ _ hb ht]

theorem mem_stale : ∀ q ∈ f.stale, q ∈ f.info.paths :=
  fun _ hq => List.mem_of_mem_filter hq

/-- The new base is not removed with the old files. -/
theorem get?_cleared_base {ps : List Path} (hps : f.info.basePath ∉ ps) :
    (f.cleared e ps).disk.parquet.get? f.info.basePath = some f.data := by
  change (ps.foldl Dict.erase (f.published e.disk.parquet)).get? _ = _
  rw [get?_foldl_erase, if_neg hps, get?_published, if_pos rfl]

theorem basePath_notMem_stale : f.info.basePath ∉ f.stale := by
  intro h
  simpa using (List.mem_filter.mp h).2

/-- **The writes of one table, all of them.** -/
theorem applyAll_writes (hi : e.catalog.tables.get? f.table = some f.info)
    (hdir : e.catalog.dataDir.isSome = true) :
    applyAll f.writes e = .ok ((f.cleared e f.stale).dropScanCacheFor f.table) := by
  simp only [writes, List.cons_append, List.nil_append, applyAll, List.foldlM_cons]
  rw [show (Write.writeTable f.info.tmpPath f.data).apply e =
    .ok (e.withFiles (e.disk.parquet.set f.info.tmpPath f.data)) from rfl]
  simp only [bind, Except.bind, apply_replace, apply_register hi hdir, List.foldlM_append]
  have hrem := applyAll_remove f.stale { f.registered e with delta := e.delta.clear f.table }
  rw [applyAll] at hrem
  rw [show (Write.clear f.table).apply (f.registered e) =
    .ok { f.registered e with delta := e.delta.clear f.table } from rfl]
  simp only [hrem]
  rfl

end Fold

/-! ## 3. Some tables folded, the others as before -/

namespace Engine

/-- The saved catalog is the catalog in memory; a missing file stands for no tables. -/
def Saved (e : Engine V) : Prop := e.disk.catalog.getD [] = e.catalog.saved

/-- No file of another table, and no new base of another dirty table, is in the way of the fold of a
dirty table. -/
def Separate (e : Engine V) : Prop := ∀ u i v j, e.catalog.tables.get? u = some i →
  e.delta.hasUnflushed u = true → e.catalog.tables.get? v = some j → v ≠ u →
    (∀ p ∈ j.paths, p ∉ i.paths ∧ p ≠ i.basePath ∧ p ≠ i.tmpPath) ∧
      (e.delta.hasUnflushed v = true → j.basePath ≠ i.basePath)

section Folded

variable [DecidableEq V]

/-- The table `u` lives in its new base, which holds what a scan showed in `e₀`. -/
structure Rebased (e₀ : Engine V) (u : String) (e : Engine V) (f : Fold V) : Prop where
  table : f.table = u
  before : e₀.catalog.tables.get? u = some f.info
  rows : look e₀ none u none = .ok f.data.frame
  schema : f.data.schema = f.info.schema
  entry : e.catalog.tables.get? u = some f.entry
  file : e.disk.parquet.get? f.info.basePath = some f.data

/-- The tables `ts` are folded, the others are as they were in `e₀`. -/
structure Folded (e₀ : Engine V) (ts : List String) (e : Engine V) : Prop where
  done : ∀ u ∈ ts, (∃ f, Rebased e₀ u e f) ∧
    e.delta.batchesWithTs u = [] ∧ e.delta.tombstonesWithTs u = []
  entry : ∀ u, u ∉ ts → e.catalog.tables.get? u = e₀.catalog.tables.get? u
  files : ∀ u i, u ∉ ts → e₀.catalog.tables.get? u = some i → ∀ p ∈ i.paths,
    e.disk.parquet.get? p = e₀.disk.parquet.get? p
  delta : ∀ u, u ∉ ts → e.delta.batchesWithTs u = e₀.delta.batchesWithTs u ∧
    e.delta.tombstonesWithTs u = e₀.delta.tombstonesWithTs u
  wal : e.disk.wal = e₀.disk.wal
  commitTs : e.commitTs = e₀.commitTs
  snapshots : e.snapshots = e₀.snapshots
  dataDir : e.catalog.dataDir = e₀.catalog.dataDir
  saved : Saved e
  coherent : Coherent e

/-- What a scan outside a transaction reads: the entry of the table, its files and its delta. -/
theorem look_eq_of {e e' : Engine V} {t : String} {i : TableInfo V}
    (hi : e.catalog.tables.get? t = some i) (hi' : e'.catalog.tables.get? t = some i)
    (hf : ∀ p ∈ i.paths, e'.disk.parquet.get? p = e.disk.parquet.get? p)
    (hb : e'.delta.batchesWithTs t = e.delta.batchesWithTs t)
    (ht : e'.delta.tombstonesWithTs t = e.delta.tombstonesWithTs t) :
    look e' none t none = look e none t none := by
  have hpk : primaryKeyOf e'.catalog t = primaryKeyOf e.catalog t := by
    rw [primaryKeyOf, primaryKeyOf, get_eq_ok.mpr hi, get_eq_ok.mpr hi']
  rw [look_none, look_none, lookBase_ok hi, lookBase_ok hi', Files.scan_congr none hf]
  simp only [insertEntries, tombEntries, hb, ht, mergePure, hpk]
  rfl

/-- A table without delta shows its files. -/
theorem look_of_clean {e : Engine V} {t : String} {i : TableInfo V}
    (hi : e.catalog.tables.get? t = some i) (hb : e.delta.batchesWithTs t = [])
    (ht : e.delta.tombstonesWithTs t = []) :
    look e none t none = e.disk.parquet.scan i.paths none := by
  rw [look_none, lookBase_ok hi]
  simp only [insertEntries, tombEntries, hb, ht, mergePure, List.isEmpty_nil, Bool.and_self,
    if_true]
  exact bind_pure _

namespace Folded

variable {e₀ e e' : Engine V} {ts : List String} {u : String}

theorem nil (hs : Saved e₀) (hc : Coherent e₀) : Folded e₀ [] e₀ where
  done := by simp
  entry := fun _ _ => rfl
  files := fun _ _ _ _ _ _ => rfl
  delta := fun _ _ => ⟨rfl, rfl⟩
  wal := rfl
  commitTs := rfl
  snapshots := rfl
  dataDir := rfl
  saved := hs
  coherent := hc

/-- The cache is not part of it. -/
theorem quiet {s s' : Session V} (h : Folded e₀ ts s.eng) (hq : Quiet s s') (hc : Coherent s'.eng) :
    Folded e₀ ts s'.eng where
  done := by
    intro u hu
    obtain ⟨⟨f, hf⟩, hdelta⟩ := h.done u hu
    rw [hq.delta]
    refine ⟨⟨f, hf.table, hf.before, hf.rows, hf.schema, ?_, ?_⟩, hdelta⟩
    · rw [hq.catalog]
      exact hf.entry
    · rw [hq.disk]
      exact hf.file
  entry := by rw [hq.catalog]; exact h.entry
  files := by rw [hq.disk]; exact h.files
  delta := by rw [hq.delta]; exact h.delta
  wal := by rw [hq.disk]; exact h.wal
  commitTs := hq.commitTs.trans h.commitTs
  snapshots := hq.snapshots.trans h.snapshots
  dataDir := by rw [hq.catalog]; exact h.dataDir
  saved := by rw [Saved, hq.disk, hq.catalog]; exact h.saved
  coherent := hc

/-- **Every table shows the rows it showed.** -/
theorem look_eq (h : Folded e₀ ts e) {i : TableInfo V}
    (hi : e₀.catalog.tables.get? u = some i) : look e none u none = look e₀ none u none := by
  by_cases hu : u ∈ ts
  · obtain ⟨⟨f, hf⟩, hb, ht⟩ := h.done u hu
    rw [look_of_clean hf.entry hb ht, hf.rows]
    exact Files.scan_singleton hf.file
  · obtain ⟨hb, ht⟩ := h.delta u hu
    exact look_eq_of hi ((h.entry u hu).trans hi) (h.files u i hu hi) hb ht

theorem hasUnflushed (h : Folded e₀ ts e) (hu : u ∉ ts) :
    e.delta.hasUnflushed u = e₀.delta.hasUnflushed u := by
  have hiff : e.delta.hasUnflushed u = true ↔ e₀.delta.hasUnflushed u = true := by
    rw [DeltaStore.hasUnflushed_iff, DeltaStore.hasUnflushed_iff, (h.delta u hu).1,
      (h.delta u hu).2]
  cases he : e.delta.hasUnflushed u with
  | true => exact (hiff.mp he).symm
  | false =>
    cases h0 : e₀.delta.hasUnflushed u with
    | false => rfl
    | true => rw [hiff.mpr h0] at he; cases he

/-- The files of the other tables are none of those the fold of `u` writes or removes. -/
theorem untouched (h : Folded e₀ ts e) (hsep : Separate e₀)
    (hts : ∀ v ∈ ts, e₀.delta.hasUnflushed v = true) {i : TableInfo V}
    (hi : e₀.catalog.tables.get? u = some i) (hu : e₀.delta.hasUnflushed u = true) {v : String}
    {j : TableInfo V} (hv : v ≠ u) (hj : e.catalog.tables.get? v = some j) :
    ∀ p ∈ j.paths, p ∉ i.paths ∧ p ≠ i.basePath ∧ p ≠ i.tmpPath := by
  by_cases hvt : v ∈ ts
  · obtain ⟨⟨g, hg⟩, -⟩ := h.done v hvt
    rw [hg.entry] at hj
    cases hj
    intro p hp
    rw [List.mem_singleton.mp hp]
    have hback := hsep v g.info u i hg.before (hts v hvt) hi fun h => hv h.symm
    refine ⟨fun hmem => (hback.1 _ hmem).2.1 rfl, fun heq => ?_, fun heq => ?_⟩
    · exact (hback.2 hu) heq.symm
    · exact TableInfo.tmpPath_ne_basePath i g.info heq.symm
  · rw [h.entry v hvt] at hj
    exact (hsep u i v j hi hu hj hv).1

end Folded

/-- **Folding one more table.** -/
theorem Folded.snoc {e₀ e : Engine V} {ts : List String} {f : Fold V} (h : Folded e₀ ts e)
    (hsep : Separate e₀) (hts : ∀ v ∈ ts, e₀.delta.hasUnflushed v = true)
    (hi : e₀.catalog.tables.get? f.table = some f.info)
    (hu : e₀.delta.hasUnflushed f.table = true)
    (hrows : look e₀ none f.table none = .ok f.data.frame) (hs : f.data.schema = f.info.schema) :
    Folded e₀ (ts ++ [f.table]) ((f.cleared e f.stale).dropScanCacheFor f.table) := by
  have hget : ∀ v, v ≠ f.table → ((f.cleared e f.stale).dropScanCacheFor
      f.table).catalog.tables.get? v = e.catalog.tables.get? v := by
    intro v hv
    change (e.catalog.tables.set f.table f.entry).get? v = _
    rw [Dict.get?_set, if_neg hv]
  have hfiles : ∀ v j, v ≠ f.table → e.catalog.tables.get? v = some j → ∀ p ∈ j.paths,
      ((f.cleared e f.stale).dropScanCacheFor f.table).disk.parquet.get? p =
        e.disk.parquet.get? p := by
    intro v j hv hj p hp
    obtain ⟨h1, h2, h3⟩ := h.untouched hsep hts hi hu hv hj p hp
    exact Fold.get?_cleared h1 h2 h3 Fold.mem_stale
  have hins : ∀ v, ((f.cleared e f.stale).dropScanCacheFor f.table).delta.batchesWithTs v =
      if v = f.table then [] else e.delta.batchesWithTs v :=
    fun v => DeltaStore.batchesWithTs_clear _ _ _
  have htomb : ∀ v, ((f.cleared e f.stale).dropScanCacheFor f.table).delta.tombstonesWithTs v =
      if v = f.table then [] else e.delta.tombstonesWithTs v :=
    fun v => DeltaStore.tombstonesWithTs_clear _ _ _
  constructor
  case done =>
    intro v hv
    by_cases hvt : v = f.table
    · subst hvt
      refine ⟨⟨f, rfl, hi, hrows, hs, ?_, ?_⟩, by rw [hins, if_pos rfl], by rw [htomb, if_pos rfl]⟩
      · change (e.catalog.tables.set f.table f.entry).get? _ = _
        rw [Dict.get?_set, if_pos rfl]
      · exact Fold.get?_cleared_base Fold.basePath_notMem_stale
    · have hmem : v ∈ ts := by simpa [hvt] using hv
      obtain ⟨⟨g, hg⟩, hb, ht⟩ := h.done v hmem
      refine ⟨⟨g, hg.table, hg.before, hg.rows, hg.schema, (hget v hvt).trans hg.entry, ?_⟩,
        by rw [hins, if_neg hvt, hb], by rw [htomb, if_neg hvt, ht]⟩
      rw [hfiles v g.entry hvt hg.entry _ (List.mem_singleton.mpr rfl)]
      exact hg.file
  case entry =>
    intro v hv
    simp only [List.mem_append, List.mem_singleton, not_or] at hv
    exact (hget v hv.2).trans (h.entry v hv.1)
  case files =>
    intro v j hv hj p hp
    simp only [List.mem_append, List.mem_singleton, not_or] at hv
    rw [hfiles v j hv.2 ((h.entry v hv.1).trans hj) p hp]
    exact h.files v j hv.1 hj p hp
  case delta =>
    intro v hv
    simp only [List.mem_append, List.mem_singleton, not_or] at hv
    rw [hins, htomb, if_neg hv.2, if_neg hv.2]
    exact h.delta v hv.1
  case wal => exact h.wal
  case commitTs => exact h.commitTs
  case snapshots => exact h.snapshots
  case dataDir => exact h.dataDir
  case saved => rfl
  case coherent =>
    intro v cols b hb
    have hcache : (e.scanCache.filter fun k _ => decide (k.1 ≠ f.table)).get? (v, cols) = some b :=
      hb
    rw [Dict.get?_filter, Option.filter_eq_some_iff] at hcache
    have hv : v ≠ f.table := by simpa using hcache.2
    obtain ⟨j, hj, hscan⟩ := h.coherent v cols b hcache.1
    refine ⟨j, (hget v hv).trans hj, ?_⟩
    rw [Files.scan_congr cols (hfiles v j hv hj)]
    exact hscan

/-! ## 4. The loop -/

/-- The new base of a table, without cache and cancel. -/
def foldPure (e : Engine V) (t : String) : Except DbError (Fold V) := do
  let info ← e.catalog.get t
  let merged ← look e none t none
  let data ← Parquet.cast merged info.schema
  return ⟨t, info, data⟩

theorem foldPure_ok {e : Engine V} {t : String} {f : Fold V} (h : foldPure e t = .ok f) :
    f.table = t ∧ e.catalog.tables.get? t = some f.info ∧
      look e none t none = .ok f.data.frame ∧ f.data.schema = f.info.schema := by
  unfold foldPure at h
  cases hi : e.catalog.get t with
  | error x => rw [hi] at h; cases h
  | ok i =>
    cases hm : look e none t none with
    | error x => rw [hi, hm] at h; cases h
    | ok m =>
      cases hd : Parquet.cast m i.schema with
      | error x =>
        rw [hi, hm] at h
        simp only [bind, Except.bind, hd] at h
        cases h
      | ok d =>
        rw [hi, hm] at h
        simp only [bind, Except.bind, hd] at h
        cases h
        obtain ⟨hs, hf⟩ := Parquet.cast_ok hd
        exact ⟨rfl, get_eq_ok.mp hi, by rw [hf], hs⟩

/-- The reading half of the loop body, with the check before it. -/
def foldRead (t : String) : Op V (Fold V) := checkCancel >>= fun _ => foldOf t

theorem foldRead_reads (t : String) (s : Session V) (hc : Coherent s.eng) (hx : s.txn = none) :
    Reads (foldRead t) s (foldPure s.eng t) := by
  refine Reads.bind_of (g := fun _ => foldPure s.eng t) (checkCancel_reads s) fun _ s₁ h₁ _ hq => ?_
  unfold foldPure
  rw [← hq.catalog]
  refine Reads.bind_of (catalogGet_reads t s₁) fun i s₂ h₂ _ hq₂ => ?_
  have hq' := Quiet.trans _ _ _ hq hq₂
  have hc₂ : Coherent s₂.eng :=
    ((warm_catalogGet t).apply h₂).coherent ((warm_checkCancel.apply h₁).coherent hc)
  have hlook : look s.eng none t none = look s₂.eng s₂.txn t none := by
    rw [hq'.txn, hx]
    exact (look_congr hq'.catalog hq'.delta (by rw [hq'.disk]) none t none).symm
  rw [hlook]
  refine Reads.bind (scan_reads t none s₂ hc₂) fun m s₃ _ _ => ?_
  exact Reads.bind (Reads.lift _) fun d _ _ _ => Reads.pure _

/-- Reading a table for its fold leaves cached frames that are right as they are. -/
theorem warm_foldRead (t : String) : Proc.Keeps Warm (foldRead t : Op V (Fold V)) := by
  refine Proc.Keeps.bind Warm.trans warm_checkCancel fun _ =>
    Proc.Keeps.bind Warm.trans (warm_catalogGet t) fun i =>
      Proc.Keeps.bind Warm.trans (warm_scan t none) fun m =>
        Proc.Keeps.bind Warm.trans (Proc.Keeps.lift Warm.refl _) fun d =>
          Proc.Keeps.pure Warm.refl _

/-- A dirty table: the reading raised, or the table was folded. -/
theorem foldTable_cases {t : String} {s : Session V} (hc : Coherent s.eng) (hx : s.txn = none)
    (hdir : s.eng.catalog.dataDir.isSome = true) (hd : s.eng.delta.hasUnflushed t = true) :
    (∃ x s₁, foldRead t s = (.error x, s₁) ∧ foldTable t s = (.error x, s₁)) ∨
      ∃ f s₁, foldRead t s = (.ok f, s₁) ∧
        foldTable t s = (.ok (some (t, f.data.frame.rows.length)),
          { s₁ with eng := (f.cleared s₁.eng f.stale).dropScanCacheFor t }) := by
  have hreads := foldRead_reads t s hc hx
  have hcheck := (checkCancel_reads s).quiet
  unfold foldTable
  rcases hcc : (checkCancel : Op V Unit) s with ⟨r, s₁⟩
  rw [hcc] at hcheck
  cases r with
  | error x =>
    left
    exact ⟨x, s₁, Proc.bind_of_error hcc, Proc.bind_of_error hcc⟩
  | ok u =>
    have hfold : foldRead t s = foldOf t s₁ := Proc.bind_of_ok hcc
    rw [Proc.bind_of_ok hcc, Proc.get_bind, hcheck.delta, if_pos hd]
    rcases hfo : foldOf t s₁ with ⟨r, s₂⟩
    rw [hfo] at hfold
    cases r with
    | error x =>
      left
      exact ⟨x, s₂, hfold, Proc.bind_of_error hfo⟩
    | ok f =>
      right
      refine ⟨f, s₂, hfold, ?_⟩
      obtain ⟨hpure, hq⟩ := hreads.ok hfold
      obtain ⟨ht, hi, -, -⟩ := foldPure_ok hpure
      have hwrites := Fold.applyAll_writes (f := f) (e := s₂.eng)
        (by rw [ht, hq.catalog]; exact hi) (by rw [hq.catalog]; exact hdir)
      rw [Proc.bind_of_ok hfo, Proc.bind_of_ok (each_write hwrites)]
      have hget : ((f.cleared s₂.eng f.stale).dropScanCacheFor f.table).catalog.get t =
          .ok f.entry := by
        rw [get_eq_ok]
        change (s₂.eng.catalog.tables.set f.table f.entry).get? t = _
        rw [ht, Dict.get?_set, if_pos rfl]
      have hrun : ∀ s₃ : Session V, s₃.eng.catalog.get t = .ok f.entry →
          catalogGet t s₃ = (.ok f.entry, s₃) := by
        intro s₃ h₃
        rw [catalogGet_apply, h₃]
      rw [Proc.bind_of_ok (hrun _ hget), ht]
      rfl

/-- The loop, as far as it has come. -/
structure Folding (s : Session V) (ts : List String) (s' : Session V) : Prop where
  folded : Folded s.eng ts s'.eng
  txn : s'.txn = s.txn
  truncate : s'.faults.truncate = s.faults.truncate
  calm : s.faults.cancelAfter = none → s'.faults.cancelAfter = none

theorem Folding.quiet {s s₁ s₂ : Session V} {ts : List String} (h : Folding s ts s₁)
    (hq : Quiet s₁ s₂) (hw : Warm s₁ s₂) : Folding s ts s₂ :=
  ⟨h.folded.quiet hq (hw.coherent h.folded.coherent), hq.txn.trans h.txn, hq.truncate.trans h.truncate,
    fun h0 => hq.calm (h.calm h0)⟩

/-- The new base of a table that waits is the one it would have had at the start. -/
theorem Folding.foldPure_eq {s s₁ : Session V} {ts : List String} {t : String} {i : TableInfo V}
    (h : Folding s ts s₁) (ht : t ∉ ts) (hi : s.eng.catalog.tables.get? t = some i) :
    foldPure s₁.eng t = foldPure s.eng t := by
  have hget : s₁.eng.catalog.get t = s.eng.catalog.get t := by
    rw [get_eq_ok.mpr hi, get_eq_ok.mpr ((h.folded.entry t ht).trans hi)]
  rw [foldPure, foldPure, hget, h.folded.look_eq hi]

/-- What the loop knows when it has read a table. -/
theorem Folding.read {s s₁ s₂ : Session V} {ts : List String} {t : String} {f : Fold V}
    (h : Folding s ts s₁) (hx : s.txn = none) (ht : t ∉ ts) (hf : foldRead t s₁ = (.ok f, s₂)) :
    Folding s ts s₂ ∧ foldPure s.eng t = .ok f := by
  obtain ⟨hpure, hq⟩ := (foldRead_reads t s₁ h.folded.coherent (h.txn.trans hx)).ok hf
  refine ⟨h.quiet hq ((warm_foldRead t).apply hf), ?_⟩
  obtain ⟨-, hi, -, -⟩ := foldPure_ok hpure
  rw [h.folded.entry t ht] at hi
  rw [← h.foldPure_eq ht hi, hpure]

/-- One turn of the loop. -/
theorem Folding.step {s s₁ s₂ : Session V} {ts : List String} {t : String}
    {r : Option (String × Nat)} (h : Folding s ts s₁) (hx : s.txn = none)
    (hdir : s.eng.catalog.dataDir.isSome = true) (hsep : Separate s.eng)
    (hts : ∀ v ∈ ts, s.eng.delta.hasUnflushed v = true) (ht : t ∉ ts)
    (hd : s.eng.delta.hasUnflushed t = true) (hr : foldTable t s₁ = (.ok r, s₂)) :
    Folding s (ts ++ [t]) s₂ := by
  have hcases := foldTable_cases (t := t) h.folded.coherent (h.txn.trans hx)
    (by rw [h.folded.dataDir]; exact hdir) ((h.folded.hasUnflushed ht).trans hd)
  rcases hcases with ⟨x, s₃, -, he⟩ | ⟨f, s₃, hf, hok⟩
  · rw [he] at hr
    cases hr
  · rw [hok] at hr
    cases hr
    obtain ⟨h₃, hpure⟩ := h.read hx ht hf
    obtain ⟨rfl, hi, hrows, hs⟩ := foldPure_ok hpure
    exact ⟨h₃.folded.snoc hsep hts hi hd hrows hs, h₃.txn, h₃.truncate, h₃.calm⟩

/-- A turn of the loop that raised changed nothing. -/
theorem Folding.failed {s s₁ s₂ : Session V} {ts : List String} {t : String} {x : DbError}
    (h : Folding s ts s₁) (hx : s.txn = none) (hdir : s.eng.catalog.dataDir.isSome = true)
    (ht : t ∉ ts) (hd : s.eng.delta.hasUnflushed t = true)
    (hr : foldTable t s₁ = (.error x, s₂)) : Folding s ts s₂ := by
  have hcases := foldTable_cases (t := t) h.folded.coherent (h.txn.trans hx)
    (by rw [h.folded.dataDir]; exact hdir) ((h.folded.hasUnflushed ht).trans hd)
  rcases hcases with ⟨y, s₃, hread, he⟩ | ⟨f, s₃, -, hok⟩
  · rw [he] at hr
    cases hr
    have hq := (foldRead_reads t s₁ h.folded.coherent (h.txn.trans hx)).quiet
    rw [hread] at hq
    exact h.quiet hq ((warm_foldRead t).apply hread)
  · rw [hok] at hr
    cases hr

/-- **The loop folds its tables**, when it comes to its end. -/
theorem Folding.collect {s : Session V} (hx : s.txn = none)
    (hdir : s.eng.catalog.dataDir.isSome = true) (hsep : Separate s.eng) {l : List String} :
    ∀ {ts : List String} {s₁ s₂ : Session V} {r : List (Option (String × Nat))},
      Folding s ts s₁ → (∀ v ∈ ts ++ l, s.eng.delta.hasUnflushed v = true) → (ts ++ l).Nodup →
        Proc.collect foldTable l s₁ = (.ok r, s₂) → Folding s (ts ++ l) s₂ := by
  induction l with
  | nil =>
    intro ts s₁ s₂ r h _ _ hr
    cases hr
    rw [List.append_nil]
    exact h
  | cons t l ih =>
    intro ts s₁ s₂ r h hd hnd hr
    obtain ⟨a, s₃, ha, hrest⟩ := Proc.bind_ok.mp hr
    obtain ⟨as, s₄, has, hret⟩ := Proc.bind_ok.mp hrest
    cases hret
    have ht : t ∉ ts := fun hmem =>
      (List.nodup_append.mp hnd).2.2 t hmem t List.mem_cons_self rfl
    have hstep := h.step hx hdir hsep (fun v hv => hd v (List.mem_append_left _ hv)) ht
      (hd t (List.mem_append_right _ List.mem_cons_self)) ha
    rw [List.append_cons] at hd hnd ⊢
    exact ih hstep hd hnd has

/-- What the loop needs of every table it folds. -/
def Foldable (e : Engine V) : Prop :=
  ∀ t, e.delta.hasUnflushed t = true → ∃ f, foldPure e t = .ok f

/-- A loop that is not cancelled, over tables that can be folded, comes to its end. -/
theorem Folding.collect_returns {s : Session V} (hx : s.txn = none)
    (hdir : s.eng.catalog.dataDir.isSome = true) (hsep : Separate s.eng) (hf : Foldable s.eng)
    (hcalm : s.faults.cancelAfter = none) {l : List String} :
    ∀ {ts : List String} {s₁ : Session V}, Folding s ts s₁ →
      (∀ v ∈ ts ++ l, s.eng.delta.hasUnflushed v = true) → (ts ++ l).Nodup →
        ∃ r s₂, Proc.collect foldTable l s₁ = (.ok r, s₂) := by
  induction l with
  | nil => exact fun _ _ _ => ⟨[], _, rfl⟩
  | cons t l ih =>
    intro ts s₁ h hd hnd
    have ht : t ∉ ts := fun hmem =>
      (List.nodup_append.mp hnd).2.2 t hmem t List.mem_cons_self rfl
    have hdt := hd t (List.mem_append_right _ List.mem_cons_self)
    obtain ⟨f, hpure⟩ := hf t hdt
    -- the reading cannot raise: it is not cancelled and computes the fold of the first state
    have hreads := foldRead_reads t s₁ h.folded.coherent (h.txn.trans hx)
    obtain ⟨-, hi, -, -⟩ := foldPure_ok hpure
    have hval := hreads.value.calm (h.calm hcalm)
    rw [h.foldPure_eq ht hi, hpure] at hval
    have hcases := foldTable_cases (t := t) h.folded.coherent (h.txn.trans hx)
      (by rw [h.folded.dataDir]; exact hdir) ((h.folded.hasUnflushed ht).trans hdt)
    rcases hcases with ⟨x, s₃, he, -⟩ | ⟨g, s₃, -, hok⟩
    · rw [he] at hval
      cases hval
    · have hstep := h.step hx hdir hsep (fun v hv => hd v (List.mem_append_left _ hv)) ht hdt hok
      rw [List.append_cons] at hd hnd
      obtain ⟨r, s₂, hr⟩ := ih hstep hd hnd
      exact ⟨_, s₂, Proc.bind_ok.mpr ⟨_, _, hok, Proc.bind_ok.mpr ⟨r, s₂, hr, rfl⟩⟩⟩

/-! ## 5. The whole checkpoint -/

/-- The log after `truncate(0)`: no file stays no file. -/
def emptied (wal : Option Bytes) : Option Bytes := wal.map (Wal.truncate 0)

omit [DecidableEq V] in
theorem walTruncate_zero {s : Session V} (hw : s.eng.walEnabled = true) :
    walTruncate 0 s = (.ok (), { s with eng := { s.eng with
        disk := { s.eng.disk with wal := emptied s.eng.disk.wal } } }) ∨
      walTruncate 0 s = (.error (.os "truncate failed"), s) ∧ s.faults.truncate = true := by
  obtain ⟨⟨c, sc, dl, ts, sn, ⟨p, cat, wal⟩⟩, x, q⟩ := s
  unfold walTruncate
  rw [if_pos hw]
  cases wal with
  | none => exact Or.inl rfl
  | some file =>
    cases hq : q.truncate with
    | true => exact Or.inr ⟨by simp only [if_true], rfl⟩
    | false =>
      left
      simp only [Bool.false_eq_true, if_false]
      rfl

/-- The engine at the end of a checkpoint whose loop ended in `e`. -/
def sealed (e : Engine V) (ts : Int) : Engine V :=
  { e with
    snapshots := e.snapshots.filter fun _ n => decide (ts ≤ n)
    disk := { e.disk with wal := emptied e.disk.wal } }

variable {H : Host V} {s s' : Session V} {r : List (String × Nat)}

omit [DecidableEq V] in
/-- The tables a checkpoint folds. -/
theorem mem_targets {t : String} :
    t ∈ H.setOrder s.eng.delta.tableNames ↔ s.eng.delta.hasUnflushed t = true := by
  rw [H.mem_setOrder, DeltaStore.mem_tableNames]

/-- **What a checkpoint that returned has done.** -/
theorem checkpoint_ok (hsaved : Saved s.eng) (hc : Coherent s.eng) (hsep : Separate s.eng)
    (hr : checkpoint H s = (.ok r, s')) :
    ((∀ t, s.eng.delta.hasUnflushed t = false) ∧ s' = s) ∨
      ∃ s₁, Folding s (H.setOrder s.eng.delta.tableNames) s₁ ∧
        s' = { s₁ with eng := sealed s₁.eng s.eng.commitTs } := by
  unfold checkpoint at hr
  rw [Proc.get_bind] at hr
  cases hx : s.txn with
  | some x => rw [hx] at hr; cases hr
  | none =>
    rw [hx] at hr
    simp only at hr
    cases hdir : s.eng.catalog.dataDir with
    | none => rw [hdir] at hr; cases hr
    | some dir =>
      rw [hdir] at hr
      simp only at hr
      have hsome : s.eng.catalog.dataDir.isSome = true := by rw [hdir]; rfl
      split at hr
      · rename_i hempty
        cases hr
        refine Or.inl ⟨fun t => ?_, rfl⟩
        rw [← Bool.not_eq_true, ← mem_targets (H := H), List.isEmpty_iff.mp hempty]
        exact List.not_mem_nil
      · right
        obtain ⟨w, s₁, hcol, hrest⟩ := Proc.bind_ok.mp hr
        have hfold : Folding s (H.setOrder s.eng.delta.tableNames) s₁ := by
          have h0 : Folding s [] s := ⟨Folded.nil hsaved hc, rfl, rfl, id⟩
          exact h0.collect hx hsome hsep (fun v hv => mem_targets.mp hv)
            (H.nodup_setOrder _) hcol
        obtain ⟨u, s₂, htr, hend⟩ := Proc.bind_ok.mp hrest
        cases hend
        have hw : s₁.eng.walEnabled = true := by
          rw [walEnabled, hfold.folded.dataDir]
          exact hsome
        rcases walTruncate_zero hw with hok | ⟨herr, -⟩
        · rw [hok] at htr
          cases htr
          exact ⟨s₁, hfold, rfl⟩
        · rw [herr] at htr
          cases htr

/-- **A checkpoint over tables that can be folded returns**, when nothing strikes it. -/
theorem checkpoint_returns (hx : s.txn = none) (hdir : s.eng.catalog.dataDir.isSome = true)
    (hsaved : Saved s.eng) (hc : Coherent s.eng) (hsep : Separate s.eng) (hf : Foldable s.eng)
    (hcalm : s.faults.cancelAfter = none) (htr : s.faults.truncate = false) :
    ∃ r s', checkpoint H s = (.ok r, s') := by
  obtain ⟨dir, hdir'⟩ := Option.isSome_iff_exists.mp hdir
  unfold checkpoint
  rw [Proc.get_bind, hx]
  simp only [hdir']
  split
  · exact ⟨[], s, rfl⟩
  · have h0 : Folding s [] s := ⟨Folded.nil hsaved hc, rfl, rfl, id⟩
    have hd : ∀ v ∈ [] ++ H.setOrder s.eng.delta.tableNames, s.eng.delta.hasUnflushed v = true :=
      fun v hv => mem_targets.mp hv
    obtain ⟨w, s₁, hcol⟩ := h0.collect_returns hx hdir hsep hf hcalm hd (H.nodup_setOrder _)
    have hfold := h0.collect hx hdir hsep hd (H.nodup_setOrder _) hcol
    have hw : s₁.eng.walEnabled = true := by
      rw [walEnabled, hfold.folded.dataDir]
      exact hdir
    rcases walTruncate_zero hw with hok | ⟨-, hfault⟩
    · exact ⟨_, _, Proc.bind_ok.mpr ⟨w, s₁, hcol, Proc.bind_ok.mpr ⟨(), _, hok, rfl⟩⟩⟩
    · rw [hfold.truncate, htr] at hfault
      cases hfault

end Folded

end Engine

end RyuDB
