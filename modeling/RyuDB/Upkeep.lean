/-
# Administration keeps the state well shaped

Delta, write buffers and caches are keyed by table name and read under the current entry of that
name, while the catalog is changed on its own.  `Orderly` asks an act to change an entry only while
nothing hangs on what it changes: a table is registered over, dropped or renamed while it is `Idle`,
its key changes while no tombstone names it, and tombstones are written under a key that has a
column.  `upright_act` shows that careful and orderly acts keep memory and disk in agreement and the
delta and the open transactions well shaped.

The condition is not one the code checks.  `_run_admin` refuses some of these acts while a transaction
is open and none while the delta has rows: dropping and registering again, for example, leaves the
rows of the old table to the new one.  So `Orderly` says what an administrator has to keep to, act by
act, and every clause names the entry that is changed and what must not hang on it.
-/
import RyuDB.Restart

namespace RyuDB

variable {V : Type}

open Engine

/-! ## 1. What hangs on a table

What hangs on a table is what memory holds under its name: pending batches and tombstones in the
delta, and writes in the buffers of open transactions.  A key is asked about less: rows may be pending
while it changes, but tombstones are made of the key they were written under. -/

/-- The act changes the declared key. -/
def Alter.rekeys : Alter V → Bool
  | .pk _ => true
  | .pkClear => true
  | _ => false

/-- An `alter` of another kind leaves the declared key alone. -/
theorem Alter.change_primaryKey {a : Alter V} (h : a.rekeys = false) (k : TableConstraints V) :
    (a.change k).primaryKey = k.primaryKey := by
  cases a with
  | pk cols => cases h
  | pkClear => cases h
  | _ => rfl

/-- The files have the same columns. -/
def Files.Alike (d : Files V) (paths : List Path) : Prop :=
  ∀ f fs, d.readAll paths = .ok (f :: fs) → ∀ g ∈ f :: fs, g.frame.columns = f.frame.columns

theorem Files.alike_singleton (d : Files V) (p : Path) : d.Alike [p] := by
  intro f fs h g hg
  unfold readAll at h
  split at h
  · cases h
  · cases h
    rw [List.mem_singleton.mp hg]

namespace World

/-- Nothing hangs on the table: no delta, no write of an open transaction. -/
def Idle (w : World V) (t : String) : Prop :=
  w.eng.delta.hasUnflushed t = false ∧ ∀ c x, w.txns.get? c = some x → x.has t = false

/-- No tombstone names the table. -/
def Untombed (w : World V) (t : String) : Prop :=
  w.eng.delta.tombstonesWithTs t = [] ∧
    ∀ c x, w.txns.get? c = some x → x.tombstoneBatchesWithFlag t = []

/-- The act changes an entry only while nothing hangs on what it changes. -/
def Orderly (w : World V) : Act V → Prop
  | .conn (.sql _ st _) => ∀ t, erases st = some t → Keyed w.eng t
  | .admin (.register t path) _ => Idle w t ∧
      w.eng.disk.parquet.Alike (resolveParquetPaths w.eng.disk.parquet path)
  | .admin (.drop t) _ => Idle w t
  | .admin (.rename old _) _ => Idle w old
  | .admin (.alter t a) _ => a.rekeys = true → Untombed w t
  | .upload t _ _ => Idle w t
  | _ => True

end World

/-! ## 2. Changing entries

A change of an entry keeps the delta well shaped when every table in use keeps its columns and every
table with tombstones keeps its key (`World.Keeps`).  Each act that changes an entry is one instance.
-/

section Entries

variable {c c' : Catalog V} {t : String}

theorem Engine.InsOk.retable {f : Frame V} (h : InsOk c t f) (hk : ∀ i, c.tables.get? t = some i →
    ∃ i', c'.tables.get? t = some i' ∧ i'.columns = i.columns) : InsOk c' t f := by
  obtain ⟨i, hi, hcols⟩ := h
  obtain ⟨i', hi', hcols'⟩ := hk i hi
  exact ⟨i', hi', hcols.trans hcols'.symm⟩

theorem Engine.TombOk.retable {g : Frame V} (h : TombOk c t g) (hk : ∀ i, c.tables.get? t = some i →
    ∃ i', c'.tables.get? t = some i' ∧ i'.columns = i.columns ∧
      i'.constraints.primaryKey = i.constraints.primaryKey) : TombOk c' t g := by
  obtain ⟨i, p, hi, hp, hne, hsub, hcols⟩ := h
  obtain ⟨i', hi', hcols', hp'⟩ := hk i hi
  exact ⟨i', p, hi', hp'.trans hp, hne, by rw [hcols']; exact hsub, hcols⟩

end Entries

/-- Tables in use keep their columns, tables with tombstones keep their key. -/
structure World.Keeps (w : World V) (c : Catalog V) : Prop where
  used : ∀ t i, ¬ w.Idle t → w.eng.catalog.tables.get? t = some i →
    ∃ i', c.tables.get? t = some i' ∧ i'.columns = i.columns
  tombed : ∀ t i, ¬ w.Untombed t → w.eng.catalog.tables.get? t = some i →
    ∃ i', c.tables.get? t = some i' ∧ i'.columns = i.columns ∧
      i'.constraints.primaryKey = i.constraints.primaryKey

section Keeps

variable {w : World V} {c : Catalog V}

theorem World.Keeps.deltaOk (h : w.Keeps c) (hd : DeltaOk w.eng) {e : Engine V}
    (hcat : e.catalog = c) (hdelta : e.delta = w.eng.delta) (hts : e.commitTs = w.eng.commitTs) :
    DeltaOk e := by
  constructor
  · intro t b hb
    rw [hdelta] at hb
    rw [hts, hcat]
    obtain ⟨hbounds, hok⟩ := hd.ins t b hb
    refine ⟨hbounds, hok.retable fun i hi => h.used t i (fun hidle => ?_) hi⟩
    have hnone : ¬ w.eng.delta.hasUnflushed t = true := by rw [hidle.1]; decide
    rw [DeltaStore.hasUnflushed_iff, not_or, not_not] at hnone
    rw [hnone.1] at hb
    cases hb
  · intro t b hb
    rw [hdelta] at hb
    rw [hts, hcat]
    obtain ⟨hbounds, hok⟩ := hd.tomb t b hb
    refine ⟨hbounds, hok.retable fun i hi => h.tombed t i (fun hnone => ?_) hi⟩
    rw [hnone.1] at hb
    cases hb

theorem World.Keeps.txnOk (h : w.Keeps c) {k : Nat}
    (hx : TxnOk? w.eng.catalog (w.txns.get? k)) : TxnOk? c (w.txns.get? k) := by
  intro x hk
  have hok := hx x hk
  constructor
  · intro t f hf
    refine (hok.ins t f hf).retable fun i hi => h.used t i (fun hidle => ?_) hi
    have hnone : ¬ x.has t = true := by rw [hidle.2 k x hk]; decide
    rw [Transaction.has_iff, not_or, not_not] at hnone
    rw [hnone.1] at hf
    cases hf
  · intro t g hg
    refine (hok.tomb t g hg).retable fun i hi => h.tombed t i (fun hnone => ?_) hi
    rw [hnone.2 k x hk] at hg
    cases hg

/-- An idle table has no tombstones. -/
theorem World.Idle.untombed {t : String} (h : w.Idle t) : w.Untombed t := by
  refine ⟨?_, fun k x hk => ?_⟩
  · have hnone : ¬ w.eng.delta.hasUnflushed t = true := by rw [h.1]; decide
    rw [DeltaStore.hasUnflushed_iff, not_or, not_not, not_not] at hnone
    exact hnone.2
  · have hnone : ¬ x.has t = true := by rw [h.2 k x hk]; decide
    rw [Transaction.has_iff, not_or, not_not, not_not] at hnone
    exact hnone.2

/-- A catalog that differs at one idle table. -/
theorem World.Keeps.of_idle {t : String} (ht : w.Idle t)
    (h : ∀ u i, u ≠ t → w.eng.catalog.tables.get? u = some i → c.tables.get? u = some i) :
    w.Keeps c where
  used := fun u i hu hi => ⟨i, h u i (fun heq => hu (heq ▸ ht)) hi, rfl⟩
  tombed := fun u i hu hi => ⟨i, h u i (fun heq => hu (heq ▸ ht.untombed)) hi, rfl, rfl⟩

end Keeps

/-- Tables that keep their files and schema, and new ones that can be read. -/
theorem Engine.BaseOk.retable {e e' : Engine V} (h : BaseOk e)
    (hnew : ∀ t i', e'.catalog.tables.get? t = some i' →
      (∃ u i, e.catalog.tables.get? u = some i ∧ i'.paths = i.paths ∧ i'.schema = i.schema) ∨
        ∃ b, e'.disk.parquet.scan i'.paths none = .ok b ∧ b.columns = i'.columns)
    (hfiles : ∀ u i, e.catalog.tables.get? u = some i → ∀ p ∈ i.paths,
      e'.disk.parquet.get? p = e.disk.parquet.get? p) : BaseOk e' := by
  intro t i' hi'
  rcases hnew t i' hi' with ⟨u, i, hi, hpaths, hschema⟩ | hscan
  · obtain ⟨b, hb, hbc⟩ := h u i hi
    refine ⟨b, ?_, by rw [hbc, TableInfo.columns, TableInfo.columns, hschema]⟩
    rw [hpaths, Files.scan_congr none (hfiles u i hi)]
    exact hb
  · exact hscan

/-- A table read from files of one shape. -/
theorem Engine.ReadFrom.scan {e : Engine V} {t : String} {paths : List Path} {i : TableInfo V}
    (h : ReadFrom e t paths i) (ha : e.disk.parquet.Alike paths) :
    ∃ b, e.disk.parquet.scan i.paths none = .ok b ∧ b.columns = i.columns := by
  obtain ⟨f, fs, hread, hschema⟩ := h.files
  obtain ⟨b, hb, hbc⟩ := Files.scan_of_uniform hread (ha f fs (h.paths ▸ hread))
  exact ⟨b, hb, by rw [hbc, f.names, TableInfo.columns, hschema]⟩

/-! ## 3. The invariant -/

namespace World

/-- Memory and disk agree, and delta and open transactions are well shaped. -/
structure Upright (H : Host V) (w : World V) : Prop where
  healthy : Healthy H w.eng
  sound : Sound w.eng
  txns : ∀ c, TxnOk? w.eng.catalog (w.txns.get? c)

section Upright

variable {H : Host V} {w : World V}

/-- The entries changed, and the delta, the counter and the snapshots did not. -/
theorem Upright.retable (h : Upright H w) {e : Engine V} (hh : Healthy H e)
    (hk : w.Keeps e.catalog) (hd : e.delta = w.eng.delta) (hts : e.commitTs = w.eng.commitTs)
    (hs : e.snapshots = w.eng.snapshots) (hb : BaseOk e) : Upright H { w with eng := e } where
  healthy := hh
  sound := by
    refine ⟨⟨hh.coherent, hb, hk.deltaOk h.sound.ok.delta rfl hd hts⟩, ?_, ?_⟩
    · rw [hts]
      exact h.sound.counter
    · rw [hs]
      exact h.sound.snapshots
  txns := fun c => hk.txnOk (h.txns c)

theorem Upright.register (h : Upright H w) {t : String} {paths : List Path} {i : TableInfo V}
    (hi : ReadFrom w.eng t paths i) (hun : Uncached w.eng t) (hidle : w.Idle t)
    (ha : w.eng.disk.parquet.Alike paths) :
    Upright H { w with eng := w.eng.withTables (w.eng.catalog.tables.set t i) } := by
  refine h.retable (h.healthy.register hi hun) (Keeps.of_idle hidle ?_) rfl rfl rfl ?_
  · intro u j hu hj
    change (w.eng.catalog.tables.set t i).get? u = some j
    rw [Dict.get?_set, if_neg hu]
    exact hj
  · refine h.sound.ok.base.retable (fun u j hj => ?_) fun u j _ p _ => by rw [withTables_parquet]
    change (w.eng.catalog.tables.set t i).get? u = some j at hj
    rw [Dict.get?_set] at hj
    split at hj
    · cases hj
      right
      rw [withTables_parquet]
      exact hi.scan ha
    · exact Or.inl ⟨u, j, hj, rfl, rfl⟩

theorem Upright.drop (h : Upright H w) {t : String} (hidle : w.Idle t) : Upright H { w with
    eng := (w.eng.withTables (w.eng.catalog.tables.erase t)).dropScanCacheFor t } := by
  have hget : ∀ u, (w.eng.catalog.tables.erase t).get? u =
      if u = t then none else w.eng.catalog.tables.get? u := fun u => Dict.get?_erase _ _ _
  refine h.retable (h.healthy.drop t) (Keeps.of_idle hidle ?_) rfl rfl rfl ?_
  · intro u i hu hi
    change (w.eng.catalog.tables.erase t).get? u = some i
    rw [hget, if_neg hu]
    exact hi
  · refine h.sound.ok.base.retable (fun u i hi => ?_) fun u i _ p _ => ?_
    · change (w.eng.catalog.tables.erase t).get? u = some i at hi
      rw [hget] at hi
      split at hi
      · cases hi
      · exact Or.inl ⟨u, i, hi, rfl, rfl⟩
    · change (w.eng.withTables _).disk.parquet.get? p = _
      rw [withTables_parquet]

/-- A table may be renamed while nothing hangs on it and the new name is free. -/
theorem Upright.rename (h : Upright H w) {old new : String} {i : TableInfo V}
    (hi : w.eng.catalog.tables.get? old = some i) (hnew : w.eng.catalog.tables.get? new = none)
    (hidle : w.Idle old) : Upright H { w with
      eng := (w.eng.withTables ((w.eng.catalog.tables.erase old).set new
        { i with name := new })).dropScanCacheFor old } := by
  have hget : ∀ u, ((w.eng.catalog.tables.erase old).set new { i with name := new }).get? u =
      if u = new then some { i with name := new }
      else if u = old then none else w.eng.catalog.tables.get? u := by
    intro u
    rw [Dict.get?_set, Dict.get?_erase]
  refine h.retable (h.healthy.rename hi hnew) (Keeps.of_idle hidle ?_) rfl rfl rfl ?_
  · intro u j hu hj
    change ((w.eng.catalog.tables.erase old).set new { i with name := new }).get? u = some j
    have hun : u ≠ new := by
      rintro rfl
      rw [hnew] at hj
      cases hj
    rw [hget, if_neg hun, if_neg hu]
    exact hj
  · refine h.sound.ok.base.retable (fun u j hj => ?_) fun u j _ p _ => ?_
    · change ((w.eng.catalog.tables.erase old).set new { i with name := new }).get? u = some j at hj
      rw [hget] at hj
      split at hj
      · cases hj
        exact Or.inl ⟨old, i, hi, rfl, rfl⟩
      · split at hj
        · cases hj
        · exact Or.inl ⟨u, j, hj, rfl, rfl⟩
    · change (w.eng.withTables _).disk.parquet.get? p = _
      rw [withTables_parquet]

/-- The primary key changes only where nothing was deleted under it. -/
theorem Upright.alter (h : Upright H w) {t : String} {a : Alter V} {i : TableInfo V}
    (hi : w.eng.catalog.tables.get? t = some i)
    (hclean : (a.change i.constraints).primaryKey ≠ i.constraints.primaryKey → w.Untombed t) :
    Upright H { w with eng := w.eng.withTables (w.eng.catalog.tables.set t
      { i with constraints := a.change i.constraints }) } := by
  have hget : ∀ u, (w.eng.catalog.tables.set t { i with
      constraints := a.change i.constraints }).get? u =
        if u = t then some { i with constraints := a.change i.constraints }
        else w.eng.catalog.tables.get? u := fun u => Dict.get?_set _ _ _ _
  refine h.retable (h.healthy.alter hi _) ⟨?_, ?_⟩ rfl rfl rfl ?_
  · intro u j _ hj
    by_cases hu : u = t
    · subst hu
      rw [hi] at hj
      cases hj
      exact ⟨_, (hget u).trans (if_pos rfl), rfl⟩
    · exact ⟨j, ((hget u).trans (if_neg hu)).trans hj, rfl⟩
  · intro u j hun hj
    by_cases hu : u = t
    · subst hu
      rw [hi] at hj
      cases hj
      have hkey : (a.change i.constraints).primaryKey = i.constraints.primaryKey := by
        by_contra hne
        exact hun (hclean hne)
      exact ⟨_, (hget u).trans (if_pos rfl), rfl, hkey⟩
    · exact ⟨j, ((hget u).trans (if_neg hu)).trans hj, rfl, rfl⟩
  · refine h.sound.ok.base.retable (fun u j hj => ?_) fun u j _ p _ => by rw [withTables_parquet]
    change (w.eng.catalog.tables.set t { i with
      constraints := a.change i.constraints }).get? u = some j at hj
    rw [hget] at hj
    split at hj
    · cases hj
      exact Or.inl ⟨t, i, hi, rfl, rfl⟩
    · exact Or.inl ⟨u, j, hj, rfl, rfl⟩

/-- New files under new names change nothing. -/
theorem Upright.withFiles (h : Upright H w) {d : Files V}
    (hd : ∀ p f, w.eng.disk.parquet.get? p = some f → d.get? p = some f) :
    Upright H { w with eng := w.eng.withFiles d } := by
  refine h.retable (h.healthy.withFiles hd) ⟨fun t i _ hi => ⟨i, hi, rfl⟩,
    fun t i _ hi => ⟨i, hi, rfl, rfl⟩⟩ rfl rfl rfl ?_
  refine h.sound.ok.base.retable (fun u j hj => Or.inl ⟨u, j, hj, rfl, rfl⟩) ?_
  intro u j hj p hp
  obtain ⟨f, fs, hread⟩ := h.healthy.readable u j hj
  obtain ⟨g, hg⟩ := Files.get?_of_readAll hread hp
  change d.get? p = _
  rw [hg, hd p g hg]

end Upright

end World

/-! ## 4. Restart and checkpoint -/

namespace Engine

variable {H : Host V} {e : Engine V}

/-- A table has the same columns after a restart. -/
theorem start_columns (h : Healthy H e) (hb : BaseOk e) {t : String} {i : TableInfo V}
    (hi : e.catalog.tables.get? t = some i) : ∃ i' b,
      (start H e.catalog.dataDir e.disk).catalog.tables.get? t = some i' ∧
        i'.columns = i.columns ∧ i'.constraints = i.constraints.reload ∧
        e.disk.parquet.scan i'.paths none = .ok b ∧ b.columns = i'.columns := by
  obtain ⟨i', hi', hpaths, hcons, f, fs, hread, hschema⟩ :=
    start_entry (H := H) h.saved h.dataDir h.readable hi
  obtain ⟨b, hscan, hcols⟩ := hb t i hi
  have hcols' : b.columns = i'.columns := by
    rw [Files.scan_columns hread hscan, f.names, TableInfo.columns, hschema]
  exact ⟨i', b, hi', hcols'.symm.trans hcols, hcons, by rw [hpaths]; exact hscan, hcols'⟩

/-- **A restart keeps the state well shaped.** -/
theorem start_sound (h : Healthy H e) (hs : Sound e) :
    Sound (start H e.catalog.dataDir e.disk) := by
  obtain ⟨log, hl⟩ := h.logged
  obtain ⟨hsame, hcovers, -⟩ := hl.recovers
  have hl' : Logged H (start H e.catalog.dataDir e.disk) log := start_logged hl.enabled hl.file
    hl.increasing (fun c hc => (hl.bounds c hc).1) hl.nonempty
  refine ⟨⟨World.start_coherent H _ _, ?_, ?_⟩, hl'.counter, fun n ts hn =>
    (hl'.snapshots n ts hn).1⟩
  · intro t i' hi'
    rw [start_parquet]
    cases hi : e.catalog.tables.get? t with
    | none =>
      rw [start_entry_none h.saved hl.enabled hi] at hi'
      cases hi'
    | some i =>
      obtain ⟨i'', b, hi'', -, -, hscan, hcols⟩ := start_columns h hs.ok.base hi
      rw [hi''] at hi'
      cases hi'
      exact ⟨b, hscan, hcols⟩
  · constructor
    · intro t b hb
      have hle := (hcovers t).1 b hb
      rw [(hsame t).1] at hb
      obtain ⟨⟨h1, -⟩, hok⟩ := hs.ok.delta.ins t b hb
      refine ⟨⟨h1, hle⟩, hok.retable fun i hi => ?_⟩
      obtain ⟨i', -, hi', hcols, -⟩ := start_columns h hs.ok.base hi
      exact ⟨i', hi', hcols⟩
    · intro t b hb
      have hle := (hcovers t).2 b hb
      rw [(hsame t).2] at hb
      obtain ⟨⟨h1, -⟩, i, p, hi, hp, hne, hsub, hcols⟩ := hs.ok.delta.tomb t b hb
      obtain ⟨i', -, hi', hcols', hcons, -⟩ := start_columns h hs.ok.base hi
      refine ⟨⟨h1, hle⟩, i', p, hi', ?_, hne, by rw [hcols']; exact hsub, hcols⟩
      rw [hcons, TableConstraints.reload_primaryKey, hp]
      cases p with
      | nil => exact absurd rfl hne
      | cons _ _ => rfl

variable [DecidableEq V]

/-- The tables of an engine in the middle of a checkpoint have the columns they had. -/
theorem Folded.baseOk {e₀ : Engine V} {ts : List String} (h : Folded e₀ ts e) (hb : BaseOk e₀) :
    BaseOk e := by
  intro t i hi
  by_cases ht : t ∈ ts
  · obtain ⟨⟨f, hf⟩, -⟩ := h.done t ht
    rw [hf.entry] at hi
    cases hi
    exact ⟨f.data.frame, Files.scan_singleton hf.file, f.data.names⟩
  · rw [h.entry t ht] at hi
    obtain ⟨b, hscan, hcols⟩ := hb t i hi
    exact ⟨b, by rw [Files.scan_congr none (h.files t i ht hi)]; exact hscan, hcols⟩

/-- **A checkpoint keeps the state well shaped.** -/
theorem Sound.checkpoint {s s' : Session V} {r : List (String × Nat)} (h : Sound s.eng)
    (hh : Healthy H s.eng) (hsep : Separate s.eng)
    (hr : Engine.checkpoint H s = (.ok r, s')) : Sound s'.eng := by
  rcases checkpoint_ok hh.saved hh.coherent hsep hr with ⟨-, rfl⟩ | ⟨s₁, hf, rfl⟩
  · exact h
  · have hall : ∀ t, s.eng.delta.hasUnflushed t = true →
        t ∈ H.setOrder s.eng.delta.tableNames := fun t ht => mem_targets.mpr ht
    have hh' := hf.folded.healthy hall hh s.eng.commitTs
    obtain ⟨log, hl⟩ := hh'.logged
    refine ⟨⟨hh'.coherent, hf.folded.baseOk h.ok.base, ?_⟩, hl.counter, fun n ts hn =>
      (hl.snapshots n ts hn).1⟩
    constructor
    · intro t b hb
      rw [show (sealed s₁.eng s.eng.commitTs).delta.batchesWithTs t = [] from
        (hf.folded.empty hall t).1] at hb
      cases hb
    · intro t b hb
      rw [show (sealed s₁.eng s.eng.commitTs).delta.tombstonesWithTs t = [] from
        (hf.folded.empty hall t).2] at hb
      cases hb

end Engine

/-! ## 5. Acts -/

namespace World

variable [DecidableEq V] {H : Host V}

theorem upright_step (w : World V) (a : Step V) (h : Upright H w) (ha : Careful w (.conn a))
    (ho : Orderly w (.conn a)) : Upright H (w.step H a) := by
  have hh := healthy_step w a h.healthy ha.1 ha.2
  cases a with
  | sql c st faults =>
    obtain ⟨s', he, hs'⟩ := World.sql_effect H h.healthy.coherent c st ha.2
    obtain ⟨hsound, htxn⟩ := effect_sound he h.sound ha.2 (h.txns c) ho
    change Healthy H (w.sql H c st faults).2.eng at hh
    change Upright H (w.sql H c st faults).2
    rw [hs'] at hh ⊢
    refine ⟨hh, hsound, fun d => ?_⟩
    rw [store_txns]
    split
    · exact htxn
    · rw [store_eng, effect_catalog he]
      exact h.txns d
  | disconnect c =>
    refine ⟨h.healthy, h.sound, fun d y hy => ?_⟩
    rw [step, Dict.get?_erase] at hy
    split at hy
    · cases hy
    · exact h.txns d y hy
  | restart => exact ⟨hh, start_sound h.healthy h.sound, fun c y hy => by cases hy⟩

theorem upright_admin (w : World V) (a : Admin V) (q : Faults) (h : Upright H w)
    (ha : Careful w (.admin a q)) (ho : Orderly w (.admin a q)) :
    Upright H (w.admin H a q).2 := by
  have hh := healthy_admin w a q h.healthy ha
  change Healthy H (runAdmin H w.hasOpenTxn a ⟨w.eng, none, q⟩).2.eng at hh
  change Upright H { w with eng := (runAdmin H w.hasOpenTxn a ⟨w.eng, none, q⟩).2.eng }
  have hcases := runAdmin_cases (H := H) (s := ⟨w.eng, none, q⟩) w.hasOpenTxn rfl a
  generalize (runAdmin H w.hasOpenTxn a ⟨w.eng, none, q⟩).2.eng = e at hh hcases ⊢
  cases hcases with
  | refused => exact h
  | register hi => exact h.register hi ha ho.1 ho.2
  | drop => exact h.drop ho
  | rename hi hnew => exact h.rename hi hnew ho
  | @alter t a i hi =>
    refine h.alter hi fun hne => ho ?_
    cases hr : a.rekeys with
    | true => rfl
    | false => exact absurd (Alter.change_primaryKey hr _) hne
  | checkpoint hopen =>
    obtain ⟨hcalm, htr, hsep, hf⟩ := ha hopen
    obtain ⟨r, s', hr⟩ := checkpoint_returns (H := H) (s := ⟨w.eng, none, q⟩) rfl h.healthy.dataDir
      h.healthy.saved h.healthy.coherent hsep hf hcalm htr
    refine ⟨hh, ?_, fun c y hy => ?_⟩
    · rw [hr]
      exact Sound.checkpoint h.sound h.healthy hsep hr
    · have hnone := hasOpenTxn_eq_false.mp hopen c
      rw [hnone] at hy
      cases hy
  | snapshot name => exact ⟨hh, h.sound.snapshot name, h.txns⟩
  | restore hopen hn hle =>
    have h0 := h.sound.snapshots _ _ hn
    refine ⟨hh, Sound.restoreTo h.sound rfl h0 hle, fun c y hy => ?_⟩
    rw [hasOpenTxn_eq_false.mp hopen c] at hy
    cases hy
  | restoreTo hopen hle =>
    refine ⟨hh, Sound.restoreTo h.sound rfl ha.1 hle, fun c y hy => ?_⟩
    rw [hasOpenTxn_eq_false.mp hopen c] at hy
    cases hy
  | clearCache which =>
    split at hh
    · rename_i hw
      rw [if_pos hw]
      exact h
    · rename_i hw
      rw [if_neg hw]
      exact ⟨hh, h.sound.kept ⟨rfl, rfl, rfl, le_refl _⟩ hh.coherent rfl, h.txns⟩

/-- **Careful and orderly acts keep the world upright.** -/
theorem upright_act (w : World V) (a : Act V) (h : Upright H w)
    (ha : Careful w a ∧ Orderly w a) : Upright H (w.act H a) := by
  obtain ⟨ha, ho⟩ := ha
  cases a with
  | conn a => exact upright_step w a h ha ho
  | admin a q => exact upright_admin w a q h ha ho
  | upload t p payload =>
    obtain ⟨hfresh, hun⟩ := ha
    change Upright H { w with eng := (runUpload t p payload ⟨w.eng, none, {}⟩).2.eng }
    rcases runUpload_cases (s := ⟨w.eng, none, {}⟩) t p payload hfresh with
      ⟨d, hd, he⟩ | ⟨data, i, -, hi, he⟩
    · rw [he]
      exact h.withFiles fun q f hq => by rw [hd q]; exact hq
    · rw [he]
      exact (h.withFiles fun q f => Files.get?_set_fresh hfresh data).register hi hun ho
        (Files.alike_singleton _ p)

omit [DecidableEq V] in
theorem upright_init (H : Host V) (dir : String) (files : Files V) :
    Upright H (World.init H (some dir) ⟨files, none, none⟩) := by
  have hb : BaseOk (World.init H (some dir) ⟨files, none, none⟩).eng := fun t i hi => by cases hi
  have hd : DeltaOk (World.init H (some dir) ⟨files, none, none⟩).eng :=
    ⟨fun t b hb => (by cases hb), fun t b hb => (by cases hb)⟩
  exact ⟨healthy_init H dir files, ⟨⟨start_coherent H _ _, hb, hd⟩, le_refl _,
    fun n ts hn => (by cases hn)⟩, fun c y hy => (by cases hy)⟩

/-- Every world reached from a data directory by careful and orderly acts is upright. -/
theorem upright_run (H : Host V) (dir : String) (files : Files V) {acts : List (Act V)}
    (h : Run.Along (World.act H) (fun w a => Careful w a ∧ Orderly w a)
      (World.init H (some dir) ⟨files, none, none⟩) acts) :
    Upright H (Run.run (World.act H) (World.init H (some dir) ⟨files, none, none⟩) acts) :=
  h.invariant upright_act (upright_init H dir files)

end World

end RyuDB
