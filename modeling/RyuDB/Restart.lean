/-
# What a restart shows

A process that starts on the disk of a healthy engine shows the rows that engine shows: the saved
catalog is the one in memory, the files of every table can be read, the log replays to the delta,
and the cached frames are what the files hold (`Healthy`).  Start-up reads an empty primary key as
none, so a table whose key was cleared must have no tombstones left (`start_look`).

`Healthy` is kept by every act that meets `Careful`: the log faults of `Recovery` do not strike, a
table is registered only under a name of which no frame is cached, no restore goes below 0, and a
checkpoint folds separate tables and is not interrupted.  So in every world reached by such acts a
checkpoint that returns preserves the visible rows, at once and after a restart
(`checkpoint_preserves`).  `Separate` is not for free: the new base of every table of a directory
has the same name, and all uploads go to one directory (`uploads_share_base`).

The run is of acts: statements of connections, admin actions, uploads and restarts.  Everything a
condition says is about the state in front of an act and the act itself, so it can be checked as the
run goes on.
-/
import RyuDB.Admin
import RyuDB.Recovery
import RyuDB.MergeColumns

namespace RyuDB

variable {V : Type}

namespace Engine

/-! ## 1. Start-up on a saved catalog -/

/-- The files of every table can be read. -/
def Readable (e : Engine V) : Prop := ∀ t i, e.catalog.tables.get? t = some i →
  ∃ f fs, e.disk.parquet.readAll i.paths = .ok (f :: fs)

section Start

variable {H : Host V} {e : Engine V} {t : String} {i : TableInfo V}

/-- The entry of a table after a restart. -/
theorem start_entry (hs : Saved e) (hdir : e.catalog.dataDir.isSome = true) (hr : Readable e)
    (hi : e.catalog.tables.get? t = some i) :
    ∃ i', (start H e.catalog.dataDir e.disk).catalog.tables.get? t = some i' ∧
      i'.paths = i.paths ∧ i'.constraints = i.constraints.reload ∧
      ∃ f fs, e.disk.parquet.readAll i.paths = .ok (f :: fs) ∧ i'.schema = f.schema := by
  obtain ⟨dir, hdir⟩ := Option.isSome_iff_exists.mp hdir
  obtain ⟨f, fs, hread⟩ := hr t i hi
  obtain ⟨i', hi'⟩ := Catalog.infoOf_of_readAll hread t i.constraints.reload
  obtain ⟨f', fs', hread', hpaths, hschema, hcons⟩ := Catalog.infoOf_ok hi'
  refine ⟨i', ?_, hpaths, hcons, f', fs', hread', hschema⟩
  rw [start_catalog, hdir, Catalog.load_save hs, hi]
  simp only [hi']

/-- A restart finds no other tables. -/
theorem start_entry_none (hs : Saved e) (hdir : e.catalog.dataDir.isSome = true)
    (hi : e.catalog.tables.get? t = none) :
    (start H e.catalog.dataDir e.disk).catalog.tables.get? t = none := by
  obtain ⟨dir, hdir⟩ := Option.isSome_iff_exists.mp hdir
  rw [start_catalog, hdir, Catalog.load_save hs, hi]

theorem start_saved (hs : Saved e) (hdir : e.catalog.dataDir.isSome = true) (hr : Readable e) :
    Saved (start H e.catalog.dataDir e.disk) := by
  obtain ⟨dir, hdir⟩ := Option.isSome_iff_exists.mp hdir
  rw [Saved, start_catalog, start_savedCatalog, hdir, Catalog.saved_load hs hr]
  exact hs

theorem start_readable (hs : Saved e) (hdir : e.catalog.dataDir.isSome = true) (hr : Readable e) :
    Readable (start H e.catalog.dataDir e.disk) := by
  intro t i' hi'
  rw [start_parquet]
  cases hi : e.catalog.tables.get? t with
  | none =>
    rw [start_entry_none hs hdir hi] at hi'
    cases hi'
  | some i =>
    obtain ⟨i'', hi'', hpaths, -, f, fs, hread, -⟩ := start_entry hs hdir hr hi
    rw [hi''] at hi'
    cases hi'
    exact ⟨f, fs, by rw [hpaths]; exact hread⟩

variable [DecidableEq V]

/-- **After a restart a table shows its files under the replayed delta.** -/
theorem start_look (hs : Saved e) (hdir : e.catalog.dataDir.isSome = true) (hr : Readable e)
    {d : DeltaStore V} (hd : DeltaStore.Same (start H e.catalog.dataDir e.disk).delta d)
    (hi : e.catalog.tables.get? t = some i)
    (hk : i.constraints.primaryKey ≠ some [] ∨ d.tombstonesWithTs t = []) :
    look (start H e.catalog.dataDir e.disk) none t none = look { e with delta := d } none t none := by
  obtain ⟨i', hi', hpaths, hcons, -⟩ := start_entry (H := H) hs hdir hr hi
  have hi₂ : ({ e with delta := d } : Engine V).catalog.tables.get? t = some i := hi
  obtain ⟨hb, ht⟩ := hd t
  rw [look_none, look_none, lookBase_ok hi', lookBase_ok hi₂, start_parquet, hpaths]
  simp only [insertEntries, tombEntries, hb, ht]
  have hmerge : ∀ b : Frame V, mergePure (start H e.catalog.dataDir e.disk).catalog t b
      (d.batchesWithTs t) (d.tombstonesWithTs t) =
        mergePure e.catalog t b (d.batchesWithTs t) (d.tombstonesWithTs t) := by
    intro b
    rcases hk with hk | hk
    · have hpk : primaryKeyOf (start H e.catalog.dataDir e.disk).catalog t =
          primaryKeyOf e.catalog t := by
        rw [primaryKeyOf, primaryKeyOf, get_eq_ok.mpr hi, get_eq_ok.mpr hi']
        simp only [hcons, TableConstraints.reload_primaryKey]
        cases hp : i.constraints.primaryKey with
        | none => rfl
        | some l =>
          cases l with
          | nil => exact absurd hp hk
          | cons _ _ => rfl
      rw [mergePure, mergePure, hpk]
    · rw [hk]
      rfl
  simp only [hmerge]

end Start

/-! ## 2. Healthy engines -/

/-- Memory and disk agree. -/
structure Healthy (H : Host V) (e : Engine V) : Prop where
  coherent : Coherent e
  saved : Saved e
  readable : Readable e
  logged : ∃ log, Logged H e log

theorem Healthy.dataDir {H : Host V} {e : Engine V} (h : Healthy H e) :
    e.catalog.dataDir.isSome = true := by
  obtain ⟨log, hl⟩ := h.logged
  exact hl.enabled

/-- Memory and disk agree, the log apart. -/
structure Housed (e : Engine V) : Prop where
  coherent : Coherent e
  saved : Saved e
  readable : Readable e
  dataDir : e.catalog.dataDir.isSome = true

theorem Healthy.housed {H : Host V} {e : Engine V} (h : Healthy H e) : Housed e :=
  ⟨h.coherent, h.saved, h.readable, h.dataDir⟩

theorem Housed.healthy {H : Host V} {e : Engine V} (h : Housed e) (hl : ∃ log, Logged H e log) :
    Healthy H e :=
  ⟨h.coherent, h.saved, h.readable, hl⟩

/-- A healthy engine shows the same after a restart, in every table whose key was not cleared over
tombstones. -/
theorem Healthy.restart [DecidableEq V] {H : Host V} {e : Engine V} (h : Healthy H e) {t : String}
    {i : TableInfo V} (hi : e.catalog.tables.get? t = some i)
    (hk : i.constraints.primaryKey ≠ some [] ∨ e.delta.tombstonesWithTs t = []) :
    visible (start H e.catalog.dataDir e.disk) t = visible e t := by
  obtain ⟨log, hl⟩ := h.logged
  rw [visible_eq (World.start_coherent H _ _), visible_eq h.coherent,
    start_look h.saved hl.enabled h.readable hl.recovers.1 hi hk]

/-- Cached frames stay right when the cached tables keep their files. -/
theorem Coherent.retable {e e' : Engine V} (h : Coherent e)
    (hcache : ∀ t cols f, e'.scanCache.get? (t, cols) = some f →
      e.scanCache.get? (t, cols) = some f ∧ ∀ i, e.catalog.tables.get? t = some i →
        ∃ i', e'.catalog.tables.get? t = some i' ∧ i'.paths = i.paths ∧
          ∀ p ∈ i.paths, e'.disk.parquet.get? p = e.disk.parquet.get? p) : Coherent e' := by
  intro t cols f hf
  obtain ⟨hf, hkeep⟩ := hcache t cols f hf
  obtain ⟨i, hi, hscan⟩ := h t cols f hf
  obtain ⟨i', hi', hpaths, hfiles⟩ := hkeep i hi
  exact ⟨i', hi', by rw [hpaths, Files.scan_congr cols hfiles]; exact hscan⟩

section Tables

variable {e : Engine V} {tables : Dict String (TableInfo V)}

theorem withTables_parquet : (e.withTables tables).disk.parquet = e.disk.parquet :=
  Catalog.save_parquet _ _

theorem withTables_wal : (e.withTables tables).disk.wal = e.disk.wal := Catalog.save_wal _ _

theorem withTables_saved (hdir : e.catalog.dataDir.isSome = true) :
    Saved (e.withTables tables) := by
  have hdir' : (e.withTables tables).catalog.dataDir.isSome = true := hdir
  have hsave : (e.withTables tables).disk.catalog = some (e.withTables tables).catalog.saved :=
    Catalog.save_catalog hdir' _
  rw [Saved, hsave, Option.getD_some]

/-- A change of the catalog leaves log and delta alone. -/
theorem withTables_logged {H : Host V} {log : List (LogEntry V)} (h : Logged H e log) :
    Logged H (e.withTables tables) log :=
  h.congr rfl withTables_wal rfl rfl rfl

/-- Cached frames stay right when the catalog changes away from them. -/
theorem Coherent.withTables (h : Coherent e)
    (hkeep : ∀ t cols f i, e.scanCache.get? (t, cols) = some f →
      e.catalog.tables.get? t = some i → ∃ i', tables.get? t = some i' ∧ i'.paths = i.paths) :
    Coherent (e.withTables tables) := by
  refine h.retable fun t cols f hf => ⟨hf, fun i hi => ?_⟩
  obtain ⟨i', hi', hpaths⟩ := hkeep t cols f i hf hi
  refine ⟨i', hi', hpaths, fun p _ => ?_⟩
  rw [withTables_parquet]

/-- The same, after the frames of one table were dropped. -/
theorem Coherent.withTables_drop (h : Coherent e) {t : String}
    (hkeep : ∀ u i, u ≠ t → e.catalog.tables.get? u = some i →
      ∃ i', tables.get? u = some i' ∧ i'.paths = i.paths) :
    Coherent ((e.withTables tables).dropScanCacheFor t) := by
  refine h.retable fun u cols f hf => ?_
  have hf' : (e.scanCache.filter fun k _ => decide (k.1 ≠ t)).get? (u, cols) = some f := hf
  rw [Dict.get?_filter, Option.filter_eq_some_iff] at hf'
  refine ⟨hf'.1, fun i hi => ?_⟩
  obtain ⟨i', hi', hpaths⟩ := hkeep u i (by simpa using hf'.2) hi
  refine ⟨i', hi', hpaths, fun p _ => ?_⟩
  change (e.withTables tables).disk.parquet.get? p = _
  rw [withTables_parquet]

theorem readable_withTables (h : Readable e)
    (hnew : ∀ t i', tables.get? t = some i' →
      (∃ u i, e.catalog.tables.get? u = some i ∧ i'.paths = i.paths) ∨
        ∃ f fs, e.disk.parquet.readAll i'.paths = .ok (f :: fs)) :
    Readable (e.withTables tables) := by
  intro t i' hi'
  rw [withTables_parquet]
  rcases hnew t i' hi' with ⟨u, i, hi, hpaths⟩ | hread
  · rw [hpaths]
    exact h u i hi
  · exact hread

end Tables

/-! ## 3. A checkpoint -/

section Checkpoint

variable [DecidableEq V] {H : Host V} {s s' : Session V}

omit [DecidableEq V] in
/-- Truncating to 0 empties the log: commits have positive timestamps. -/
theorem encodes_emptied {e : Engine V} {log : List (LogEntry V)} (h : Logged H e log) :
    Encodes H [] ((emptied e.disk.wal).getD []) := by
  cases hw : e.disk.wal with
  | none => exact Encodes.nil
  | some file =>
    have hfile := h.file
    rw [hw, Option.getD_some] at hfile
    have hcut : Encodes H (log.filter fun c => decide (c.1 ≤ 0)) (Wal.truncate 0 file) :=
      truncate_encodes hfile h.increasing
    have hnil : log.filter (fun c => decide (c.1 ≤ 0)) = [] := by
      refine List.filter_eq_nil_iff.mpr fun c hc => ?_
      have := (h.bounds c hc).1
      simp only [decide_eq_true_eq]
      omega
    rw [hnil] at hcut
    exact hcut

/-- The delta is empty when every dirty table is folded. -/
theorem Folded.empty {e₀ e : Engine V} {ts : List String} (h : Folded e₀ ts e)
    (hall : ∀ t, e₀.delta.hasUnflushed t = true → t ∈ ts) (t : String) :
    e.delta.batchesWithTs t = [] ∧ e.delta.tombstonesWithTs t = [] := by
  by_cases ht : t ∈ ts
  · exact (h.done t ht).2
  · have hclean : ¬ e₀.delta.hasUnflushed t = true := fun hd => ht (hall t hd)
    rw [DeltaStore.hasUnflushed_iff, not_or, not_not, not_not] at hclean
    rw [(h.delta t ht).1, (h.delta t ht).2]
    exact hclean

theorem Folded.readable {e₀ e : Engine V} {ts : List String} (h : Folded e₀ ts e)
    (hr : Readable e₀) : Readable e := by
  intro t i hi
  by_cases ht : t ∈ ts
  · obtain ⟨⟨f, hf⟩, -⟩ := h.done t ht
    rw [hf.entry] at hi
    cases hi
    refine ⟨f.data, [], ?_⟩
    have hread : e.disk.parquet.readAll [f.info.basePath] = .ok [f.data] := by
      simp only [Files.readAll, Files.read_ok.mpr hf.file]
    exact hread
  · rw [h.entry t ht] at hi
    obtain ⟨f, fs, hread⟩ := hr t i hi
    exact ⟨f, fs, by rw [Files.readAll_congr (h.files t i ht hi)]; exact hread⟩

theorem Folded.housed {e₀ e : Engine V} {ts : List String} (h : Folded e₀ ts e) (h₀ : Housed e₀) :
    Housed e :=
  ⟨h.coherent, h.saved, h.readable h₀.readable, by rw [h.dataDir]; exact h₀.dataDir⟩

/-- An engine whose dirty tables are all folded is healthy once its log is emptied. -/
theorem Folded.healthy {e₀ e : Engine V} {ts : List String} (h : Folded e₀ ts e)
    (hall : ∀ t, e₀.delta.hasUnflushed t = true → t ∈ ts) (h₀ : Healthy H e₀) (n : Int) :
    Healthy H (sealed e n) := by
  obtain ⟨log, hl⟩ := h₀.logged
  refine ⟨h.coherent, h.saved, h.readable h₀.readable, [], ?_⟩
  constructor
  · rw [walEnabled]
    exact (congrArg Option.isSome h.dataDir).trans hl.enabled
  · change Encodes H [] ((emptied e.disk.wal).getD [])
    rw [h.wal]
    exact encodes_emptied hl
  · intro t
    exact ⟨(h.empty hall t).1.symm, (h.empty hall t).2.symm⟩
  · exact List.Pairwise.nil
  · simp
  · simp
  · change 0 ≤ e.commitTs
    rw [h.commitTs]
    exact hl.counter
  · intro name ts hn
    have hn' : (e.snapshots.filter fun _ m => decide (n ≤ m)).get? name = some ts := hn
    rw [Dict.get?_filter, Option.filter_eq_some_iff, h.snapshots] at hn'
    have := hl.snapshots name ts hn'.1
    change 0 ≤ ts ∧ ts ≤ e.commitTs
    rw [h.commitTs]
    exact this

/-- **A checkpoint that returned preserves the visible rows**, leaves no delta behind and keeps the
engine healthy. -/
theorem Healthy.checkpoint (h : Healthy H s.eng) (hsep : Separate s.eng)
    {r : List (String × Nat)} (hr : Engine.checkpoint H s = (.ok r, s')) :
    Healthy H s'.eng ∧ (∀ t, s'.eng.delta.tombstonesWithTs t = []) ∧
      ∀ t i, s.eng.catalog.tables.get? t = some i →
        (∃ i', s'.eng.catalog.tables.get? t = some i') ∧ visible s'.eng t = visible s.eng t := by
  rcases checkpoint_ok h.saved h.coherent hsep hr with ⟨hclean, rfl⟩ | ⟨s₁, hf, rfl⟩
  · refine ⟨h, fun t => ?_, fun t i hi => ⟨⟨i, hi⟩, rfl⟩⟩
    have hnone : ¬ s'.eng.delta.hasUnflushed t = true := by rw [hclean t]; decide
    rw [DeltaStore.hasUnflushed_iff, not_or, not_not, not_not] at hnone
    exact hnone.2
  · have hall : ∀ t, s.eng.delta.hasUnflushed t = true →
        t ∈ H.setOrder s.eng.delta.tableNames := fun t ht => mem_targets.mpr ht
    have hh := hf.folded.healthy hall h s.eng.commitTs
    refine ⟨hh, fun t => (hf.folded.empty hall t).2, fun t i hi => ⟨?_, ?_⟩⟩
    · by_cases ht : t ∈ H.setOrder s.eng.delta.tableNames
      · obtain ⟨⟨f, hfold⟩, -⟩ := hf.folded.done t ht
        exact ⟨f.entry, hfold.entry⟩
      · exact ⟨i, (hf.folded.entry t ht).trans hi⟩
    · rw [visible_eq hh.coherent, visible_eq h.coherent, ← hf.folded.look_eq hi]
      rfl

end Checkpoint

/-! ## 4. Acts -/

/-- No frame of the table is cached. -/
def Uncached (e : Engine V) (t : String) : Prop := ∀ cols, e.scanCache.get? (t, cols) = none

section Acts

variable [DecidableEq V] {H : Host V} {e : Engine V} {s : Session V}

omit [DecidableEq V] in
/-- Catalog, saved catalog and files are those of `e`, and the cache is right. -/
theorem Housed.fixed {e e' : Engine V} (h : Housed e) (hcat : e'.catalog = e.catalog)
    (hfiles : e'.disk.parquet = e.disk.parquet) (hsaved : e'.disk.catalog = e.disk.catalog)
    (hc : Coherent e') : Housed e' where
  coherent := hc
  saved := by rw [Saved, hsaved, hcat]; exact h.saved
  readable := by rw [Readable, hcat, hfiles]; exact h.readable
  dataDir := by rw [hcat]; exact h.dataDir

omit [DecidableEq V] in
theorem Healthy.fixed {e e' : Engine V} (h : Healthy H e) (hcat : e'.catalog = e.catalog)
    (hfiles : e'.disk.parquet = e.disk.parquet) (hsaved : e'.disk.catalog = e.disk.catalog)
    (hc : Coherent e') (hl : ∃ log, Logged H e' log) : Healthy H e' :=
  (h.housed.fixed hcat hfiles hsaved hc).healthy hl

omit [DecidableEq V] in
theorem Housed.restoreTo (h : Housed s.eng) (hx : s.txn = none) {ts : Int}
    (hle : ts ≤ s.eng.commitTs) : Housed (Engine.restoreTo ts s).2.eng := by
  obtain ⟨wal, snapshots, hs', -⟩ := restoreTo_state hx hle
  rw [hs']
  exact h.fixed rfl rfl rfl h.coherent

omit [DecidableEq V] in
theorem Healthy.restoreTo (h : Healthy H s.eng) (hx : s.txn = none) {ts : Int} (h0 : 0 ≤ ts)
    (hle : ts ≤ s.eng.commitTs) (hf : s.faults.truncate = false) :
    Healthy H (Engine.restoreTo ts s).2.eng := by
  obtain ⟨log, hl⟩ := h.logged
  exact (h.housed.restoreTo hx hle).healthy (hl.restoreTo hx h0 hle hf)

omit [DecidableEq V] in
/-- A registration under a name of which no frame is cached. -/
theorem Housed.register {e : Engine V} (h : Housed e) {t : String} {paths : List Path}
    {i : TableInfo V} (hi : ReadFrom e t paths i) (hun : Uncached e t) :
    Housed (e.withTables (e.catalog.tables.set t i)) := by
  refine ⟨h.coherent.withTables ?_, withTables_saved h.dataDir, readable_withTables h.readable ?_,
    h.dataDir⟩
  · intro u cols f j hf hj
    have hu : u ≠ t := by
      rintro rfl
      rw [hun cols] at hf
      cases hf
    exact ⟨j, by rw [Dict.get?_set, if_neg hu]; exact hj, rfl⟩
  · intro u j hj
    rw [Dict.get?_set] at hj
    split at hj
    · cases hj
      obtain ⟨f, fs, hread, -⟩ := hi.files
      exact Or.inr ⟨f, fs, hread⟩
    · exact Or.inl ⟨u, j, hj, rfl⟩

omit [DecidableEq V] in
theorem Healthy.register {e : Engine V} (h : Healthy H e) {t : String} {paths : List Path}
    {i : TableInfo V} (hi : ReadFrom e t paths i) (hun : Uncached e t) :
    Healthy H (e.withTables (e.catalog.tables.set t i)) := by
  obtain ⟨log, hl⟩ := h.logged
  exact (h.housed.register hi hun).healthy ⟨log, withTables_logged hl⟩

omit [DecidableEq V] in
theorem Housed.drop {e : Engine V} (h : Housed e) (t : String) :
    Housed ((e.withTables (e.catalog.tables.erase t)).dropScanCacheFor t) := by
  refine ⟨h.coherent.withTables_drop ?_, withTables_saved h.dataDir,
    readable_withTables h.readable ?_, h.dataDir⟩
  · intro u i hu hi
    exact ⟨i, by rw [Dict.get?_erase, if_neg hu]; exact hi, rfl⟩
  · intro u i hi
    rw [Dict.get?_erase] at hi
    split at hi
    · cases hi
    · exact Or.inl ⟨u, i, hi, rfl⟩

omit [DecidableEq V] in
theorem Healthy.drop {e : Engine V} (h : Healthy H e) (t : String) :
    Healthy H ((e.withTables (e.catalog.tables.erase t)).dropScanCacheFor t) := by
  obtain ⟨log, hl⟩ := h.logged
  exact (h.housed.drop t).healthy ⟨log, (withTables_logged hl).congr rfl rfl rfl rfl rfl⟩

omit [DecidableEq V] in
theorem Housed.rename {e : Engine V} (h : Housed e) {old new : String} {i : TableInfo V}
    (hi : e.catalog.tables.get? old = some i) (hnew : e.catalog.tables.get? new = none) :
    Housed ((e.withTables ((e.catalog.tables.erase old).set new
      { i with name := new })).dropScanCacheFor old) := by
  refine ⟨h.coherent.withTables_drop ?_, withTables_saved h.dataDir,
    readable_withTables h.readable ?_, h.dataDir⟩
  · intro u j hu hj
    have hun : u ≠ new := by
      rintro rfl
      rw [hnew] at hj
      cases hj
    exact ⟨j, by rw [Dict.get?_set, if_neg hun, Dict.get?_erase, if_neg hu]; exact hj, rfl⟩
  · intro u j hj
    rw [Dict.get?_set, Dict.get?_erase] at hj
    split at hj
    · cases hj
      exact Or.inl ⟨old, i, hi, rfl⟩
    · split at hj
      · cases hj
      · exact Or.inl ⟨u, j, hj, rfl⟩

omit [DecidableEq V] in
theorem Healthy.rename {e : Engine V} (h : Healthy H e) {old new : String} {i : TableInfo V}
    (hi : e.catalog.tables.get? old = some i) (hnew : e.catalog.tables.get? new = none) :
    Healthy H ((e.withTables ((e.catalog.tables.erase old).set new
      { i with name := new })).dropScanCacheFor old) := by
  obtain ⟨log, hl⟩ := h.logged
  exact (h.housed.rename hi hnew).healthy ⟨log, (withTables_logged hl).congr rfl rfl rfl rfl rfl⟩

omit [DecidableEq V] in
/-- Other constraints on a table. -/
theorem Housed.alter {e : Engine V} (h : Housed e) {t : String} {i : TableInfo V}
    (hi : e.catalog.tables.get? t = some i) (k : TableConstraints V) :
    Housed (e.withTables (e.catalog.tables.set t { i with constraints := k })) := by
  refine ⟨h.coherent.withTables ?_, withTables_saved h.dataDir,
    readable_withTables h.readable ?_, h.dataDir⟩
  · intro u cols f j hf hj
    by_cases hu : u = t
    · subst hu
      rw [hi] at hj
      cases hj
      exact ⟨{ i with constraints := k }, by rw [Dict.get?_set, if_pos rfl], rfl⟩
    · exact ⟨j, by rw [Dict.get?_set, if_neg hu]; exact hj, rfl⟩
  · intro u j hj
    rw [Dict.get?_set] at hj
    split at hj
    · cases hj
      exact Or.inl ⟨t, i, hi, rfl⟩
    · exact Or.inl ⟨u, j, hj, rfl⟩

omit [DecidableEq V] in
theorem Healthy.alter {e : Engine V} (h : Healthy H e) {t : String} {i : TableInfo V}
    (hi : e.catalog.tables.get? t = some i) (k : TableConstraints V) :
    Healthy H (e.withTables (e.catalog.tables.set t { i with constraints := k })) := by
  obtain ⟨log, hl⟩ := h.logged
  exact (h.housed.alter hi k).healthy ⟨log, withTables_logged hl⟩

omit [DecidableEq V] in
/-- New files under new names: what the tables read is as before. -/
theorem Housed.files_same {e : Engine V} (h : Housed e) {d : Files V}
    (hd : ∀ p f, e.disk.parquet.get? p = some f → d.get? p = some f) {t : String} {i : TableInfo V}
    (hi : e.catalog.tables.get? t = some i) : ∀ p ∈ i.paths, d.get? p = e.disk.parquet.get? p := by
  intro p hp
  obtain ⟨f, fs, hread⟩ := h.readable t i hi
  obtain ⟨g, hg⟩ := Files.get?_of_readAll hread hp
  rw [hg, hd p g hg]

omit [DecidableEq V] in
theorem Housed.withFiles {e : Engine V} (h : Housed e) {d : Files V}
    (hd : ∀ p f, e.disk.parquet.get? p = some f → d.get? p = some f) :
    Housed (e.withFiles d) := by
  refine ⟨?_, h.saved, ?_, h.dataDir⟩
  · exact h.coherent.retable fun t cols f hf => ⟨hf, fun i hi => ⟨i, hi, rfl, h.files_same hd hi⟩⟩
  · intro t i hi
    obtain ⟨f, fs, hread⟩ := h.readable t i hi
    exact ⟨f, fs, by rw [← hread]; exact Files.readAll_congr (h.files_same hd hi)⟩

omit [DecidableEq V] in
theorem Healthy.withFiles {e : Engine V} (h : Healthy H e) {d : Files V}
    (hd : ∀ p f, e.disk.parquet.get? p = some f → d.get? p = some f) :
    Healthy H (e.withFiles d) := by
  obtain ⟨log, hl⟩ := h.logged
  exact (h.housed.withFiles hd).healthy ⟨log, hl.congr rfl rfl rfl rfl rfl⟩

omit [DecidableEq V] in
theorem Housed.start (h : Housed e) : Housed (start H e.catalog.dataDir e.disk) where
  coherent := World.start_coherent H _ _
  saved := start_saved h.saved h.dataDir h.readable
  readable := start_readable h.saved h.dataDir h.readable
  dataDir := by rw [start_catalog, load_dataDir]; exact h.dataDir

end Acts

end Engine

/-! ## 5. Runs -/

namespace World

open Engine

/-- The act does not strike the log, leaves the cached frames alone, shows no stale frame under a new
registration, restores to no negative timestamp, and folds separate tables without interruption. -/
def Careful [DecidableEq V] (w : World V) : Act V → Prop
  | .conn a => Durable a ∧ a.LeavesCache
  | .admin (.register t _) _ => Uncached w.eng t
  | .admin .checkpoint q => w.hasOpenTxn = false →
      q.cancelAfter = none ∧ q.truncate = false ∧ Separate w.eng ∧ Foldable w.eng
  | .admin (.restore _) q => q.truncate = false
  | .admin (.restoreTo ts) q => 0 ≤ ts ∧ q.truncate = false
  | .upload t p _ => w.eng.disk.parquet.get? p = none ∧ Uncached w.eng t
  | _ => True

section Runs

variable [DecidableEq V] {H : Host V}

theorem healthy_step (w : World V) (a : Step V) (h : Healthy H w.eng) (ha : Durable a)
    (hcache : a.LeavesCache) :
    Healthy H (w.step H a).eng := by
  obtain ⟨log, hl⟩ := h.logged
  cases a with
  | sql c st faults =>
    obtain ⟨s', he, hs'⟩ := World.sql_effect H h.coherent c st hcache
    obtain ⟨hcat, hfiles, hsaved⟩ := effect_fixed he
    change Healthy H (w.sql H c st faults).2.eng
    rw [hs', store_eng]
    exact h.fixed hcat hfiles hsaved
      (coherent_effect (s := w.session c faults) ⟨h.coherent, hcache⟩ he)
      (logged_effect hl he ha.1 ha.2)
  | disconnect c => exact h
  | restart =>
    exact h.housed.start.healthy ⟨log, start_logged hl.enabled hl.file hl.increasing
      (fun c hc => (hl.bounds c hc).1) hl.nonempty⟩

theorem healthy_admin (w : World V) (a : Admin V) (q : Faults) (h : Healthy H w.eng)
    (ha : Careful w (.admin a q)) : Healthy H (w.admin H a q).2.eng := by
  obtain ⟨log, hl⟩ := h.logged
  change Healthy H (runAdmin H w.hasOpenTxn a ⟨w.eng, none, q⟩).2.eng
  have hcases := runAdmin_cases (H := H) (s := ⟨w.eng, none, q⟩) w.hasOpenTxn rfl a
  generalize (runAdmin H w.hasOpenTxn a ⟨w.eng, none, q⟩).2.eng = e at hcases ⊢
  cases hcases with
  | refused => exact h
  | register hi => exact h.register hi ha
  | drop => exact h.drop _
  | rename hi hnew => exact h.rename hi hnew
  | alter hi => exact h.alter hi _
  | checkpoint ho =>
    obtain ⟨hcalm, htr, hsep, hf⟩ := ha ho
    obtain ⟨r, s', hr⟩ := checkpoint_returns (H := H) (s := ⟨w.eng, none, q⟩) rfl hl.enabled
      h.saved h.coherent hsep hf hcalm htr
    rw [hr]
    exact (Healthy.checkpoint h hsep hr).1
  | snapshot name =>
    refine ⟨h.coherent, h.saved, h.readable, log, hl.enabled, hl.file, hl.same, hl.increasing,
      hl.bounds, hl.nonempty, hl.counter, ?_⟩
    intro n ts hn
    rw [Dict.get?_set] at hn
    split at hn
    · cases hn
      exact ⟨hl.counter, le_refl _⟩
    · exact hl.snapshots n ts hn
  | restore ho hn hle => exact h.restoreTo rfl (hl.snapshots _ _ hn).1 hle ha
  | restoreTo ho hle => exact h.restoreTo rfl ha.1 hle ha.2
  | clearCache which =>
    split
    · exact h
    · refine h.fixed rfl rfl rfl ?_ ⟨log, hl.congr rfl rfl rfl rfl rfl⟩
      intro t cols f hf
      cases hf

/-- **Careful acts keep the engine healthy.** -/
theorem healthy_act (w : World V) (a : Act V) (h : Healthy H w.eng) (ha : Careful w a) :
    Healthy H (w.act H a).eng := by
  cases a with
  | conn a => exact healthy_step w a h ha.1 ha.2
  | admin a q => exact healthy_admin w a q h ha
  | upload t p payload =>
    obtain ⟨hfresh, hun⟩ := ha
    change Healthy H (runUpload t p payload ⟨w.eng, none, {}⟩).2.eng
    rcases runUpload_cases (s := ⟨w.eng, none, {}⟩) t p payload hfresh with
      ⟨d, hd, he⟩ | ⟨data, i, -, hi, he⟩
    · rw [he]
      exact h.withFiles fun q f hq => by rw [hd q]; exact hq
    · rw [he]
      exact (h.withFiles fun q f => Files.get?_set_fresh hfresh data).register hi hun

omit [DecidableEq V] in
theorem healthy_init (H : Host V) (dir : String) (files : Files V) :
    Healthy H (World.init H (some dir) ⟨files, none, none⟩).eng := by
  have hl : Logged H (start H (some dir) ⟨files, none, none⟩) [] :=
    start_logged rfl Encodes.nil List.Pairwise.nil (fun c hc => by cases hc) fun c hc => by cases hc
  refine ⟨start_coherent H _ _, rfl, ?_, [], hl⟩
  intro t i hi
  cases hi

/-- **Checkpoint preserves the visible rows.**  In every world reached from a data directory by
careful acts, a checkpoint over separate tables that returns leaves every registered table with the
rows it showed, at once and after a restart.  Every value fits its column, since one that the schema of
the table does not keep is another one in the new base. -/
theorem checkpoint_preserves (H : Host V) (M : Merger V) (dir : String) (files : Files V)
    {acts : List (Act V)} (hacts : Run.Along (World.act H)
      (fun w a => Careful w a ∧ (w.act H a).eng.Storable M) (World.init H (some dir) ⟨files, none, none⟩) acts)
    {w w' : World V} (hw : w = Run.run (World.act H) (World.init H (some dir) ⟨files, none, none⟩)
      acts) (hsep : Separate w.eng) {q : Faults} {detail : Detail}
    (hr : w.admin H .checkpoint q = (.ok detail, w')) {t : String} {i : TableInfo V}
    (hi : w.eng.catalog.tables.get? t = some i) :
    visible w'.eng t = visible w.eng t ∧
      visible (start H w'.eng.catalog.dataDir w'.eng.disk) t = visible w.eng t := by
  have h : Healthy H w.eng := by
    rw [hw]
    exact (hacts.mono fun _ _ ha => ha.1).invariant (P := fun w => Healthy H w.eng) healthy_act
      (healthy_init H dir files)
  obtain ⟨written, s', hcp, hs'⟩ : ∃ written s',
      Engine.checkpoint H ⟨w.eng, none, q⟩ = (.ok written, s') ∧ w'.eng = s'.eng := by
    unfold World.admin at hr
    simp only [runAdmin] at hr
    split at hr
    · cases hr
    · rcases hcp : Engine.checkpoint H ⟨w.eng, none, q⟩ with ⟨r, s'⟩
      cases r with
      | error x =>
        rw [Proc.bind_of_error hcp] at hr
        cases hr
      | ok written =>
        rw [Proc.bind_of_ok hcp] at hr
        cases hr
        exact ⟨written, s', rfl, rfl⟩
  obtain ⟨hh, hclean, hsame⟩ := h.checkpoint (s := ⟨w.eng, none, q⟩) hsep hcp
  obtain ⟨⟨i', hi'⟩, hlive⟩ := hsame t i hi
  rw [hs']
  exact ⟨hlive, (hh.restart hi' (Or.inr (hclean t))).trans hlive⟩

end Runs

/-! ## 6. Uploads -/

/-- The world after some acts on an empty data directory. -/
def fresh (acts : List (Act Nat)) : World Nat :=
  Run.run (World.act natHost) (World.init natHost (some "d") ⟨∅, none, none⟩) acts

/-- An upload of an empty table with the one column `k`. -/
def uploadEmpty (t file : String) : Act Nat :=
  .upload t ⟨"d/uploads", file⟩ (some (keyParquet []))

/-- Two uploads and a row in each. -/
@[irreducible] def twoUploads : World Nat := fresh
  [uploadEmpty "a" "1.parquet", uploadEmpty "b" "2.parquet",
    .conn (.sql 0 (insertKey "a" 1) {}), .conn (.sql 0 (insertKey "b" 2) {})]

/-- The values of the column `k`. -/
def column (r : Except DbError (List (Row Nat))) : Except DbError (List (Cell Nat)) :=
  r.map fun rows => rows.map fun row => row "k"

/-- Two reads whose columns differ do not show the same rows. -/
theorem not_perm_of_column {r r' : Except DbError (List (Row Nat))} {l l' : List (Cell Nat)}
    (h : column r = .ok l) (h' : column r' = .ok l') (hne : ¬ l'.Perm l) :
    ¬ ∃ before after, r = .ok before ∧ r' = .ok after ∧ after.Perm before := by
  rintro ⟨before, after, rfl, rfl, hperm⟩
  have hb : before.map (fun row => row "k") = l := Except.ok.inj h
  have ha : after.map (fun row => row "k") = l' := Except.ok.inj h'
  refine hne ?_
  rw [← ha, ← hb]
  exact hperm.map _

/-- **The second new base replaces the first.**  Both uploads lie in one directory; the checkpoint
returns, and the rows of `a` are gone. -/
theorem uploads_share_base : (twoUploads.admin natHost .checkpoint {}).1.toBool = true ∧
    ¬ ∃ before after, visible twoUploads.eng "a" = .ok before ∧
      visible (twoUploads.admin natHost .checkpoint {}).2.eng "a" = .ok after ∧
        after.Perm before := by
  have hok : (twoUploads.admin natHost .checkpoint {}).1.toBool = true := by decide +kernel
  have hb : column (visible twoUploads.eng "a") = .ok [some 1] := by decide +kernel
  have ha : column (visible (twoUploads.admin natHost .checkpoint {}).2.eng "a") =
      .ok [some 2] := by decide +kernel
  exact ⟨hok, not_perm_of_column hb ha (by decide)⟩

/-- One upload and a row in it. -/
@[irreducible] def oneUpload : World Nat := fresh
  [uploadEmpty "a" "1.parquet", .conn (.sql 0 (insertKey "a" 1) {})]

theorem oneUpload_eq : oneUpload = Run.run (World.act natHost)
    (World.init natHost (some "d") ⟨∅, none, none⟩)
    [uploadEmpty "a" "1.parquet", .conn (.sql 0 (insertKey "a" 1) {})] := by
  unfold oneUpload fresh
  rfl

/-- A single upload is separate from every other table. -/
theorem checkpoint_preserves_oneUpload :
    column (visible (oneUpload.admin natHost .checkpoint {}).2.eng "a") = .ok [some 1] ∧
      visible (oneUpload.admin natHost .checkpoint {}).2.eng "a" = visible oneUpload.eng "a" ∧
      visible (start natHost (oneUpload.admin natHost .checkpoint {}).2.eng.catalog.dataDir
        (oneUpload.admin natHost .checkpoint {}).2.eng.disk) "a" = visible oneUpload.eng "a" := by
  refine ⟨by decide +kernel, ?_⟩
  have hkeys : oneUpload.eng.catalog.tables.keys = ["a"] := by decide +kernel
  have honly : ∀ u i, oneUpload.eng.catalog.tables.get? u = some i → u = "a" := by
    intro u i hi
    have hmem := (oneUpload.eng.catalog.tables.mem_keys u).mpr ⟨i, hi⟩
    rw [hkeys] at hmem
    exact List.mem_singleton.mp hmem
  have hsep : Separate oneUpload.eng := by
    intro u i v j hi _ hj hne
    exact absurd ((honly v j hj).trans (honly u i hi).symm) hne
  obtain ⟨i, hi⟩ := (oneUpload.eng.catalog.tables.mem_keys "a").mp (by rw [hkeys]; simp)
  have hok : (oneUpload.admin natHost .checkpoint {}).1.toBool = true := by decide +kernel
  obtain ⟨detail, hdetail⟩ := exists_of_toBool hok
  have hacts : Run.Along (World.act natHost) (fun w a => Careful w a ∧ (w.act natHost a).eng.Storable natMerger)
      (World.init natHost (some "d") ⟨∅, none, none⟩)
      [uploadEmpty "a" "1.parquet", .conn (.sql 0 (insertKey "a" 1) {})] :=
    ⟨⟨⟨rfl, fun cols => rfl⟩, Engine.storable_natMerger _⟩,
      ⟨⟨⟨by simp, by simp [insertKey]⟩, rfl⟩, Engine.storable_natMerger _⟩, trivial⟩
  exact checkpoint_preserves natHost natMerger "d" ∅ hacts oneUpload_eq hsep (Prod.ext hdetail rfl) hi

end World

end RyuDB
