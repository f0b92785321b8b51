/-
# Changing the catalog over data

Batches, tombstones, buffers, log records and cached frames are keyed by table name and read under the
current entry of that name, and the catalog is changed on its own: `rename_table` moves the entry and
leaves what is keyed by the old name, `drop_table` leaves all of it, and a new primary key is the one old
tombstones are read under.

`Harmless` asks of an act that nothing hangs on what it changes; `catalog_acts` says that in every world
reached by harmless acts a rename keeps the rows of the table under its new name, a name that is free
shows the new files and nothing else, an `alter` changes no row of any table, for every reader, and a
checkpoint with no transaction open succeeds.

A checkpoint writes the merged rows under the schema of the first file, which may require values.  So an
insert must not put a NULL where the file wants none (`Full`), and NOT NULL must not be lifted there.
-/
import RyuDB.Crash
import RyuDB.NotNull
import RyuDB.Touch

namespace RyuDB

variable {V : Type}

open Engine

/-! ## 1. Rows a file can hold -/

/-- The rows have a value in every column the file of the table requires. -/
def Complete (i : TableInfo V) (rows : List (Row V)) : Prop :=
  ∀ r ∈ rows, ∀ c ∈ i.schema.required, (r c).isSome = true

/-- The files have the columns of the first one, and a value in every column it requires. -/
def Files.Uniform (d : Files V) (paths : List Path) : Prop :=
  ∀ f fs, d.readAll paths = .ok (f :: fs) → ∀ g ∈ f :: fs, g.frame.columns = f.frame.columns ∧
    ∀ r ∈ g.frame.rows, ∀ c ∈ f.schema.required, (r c).isSome = true

/-- The entry has the schema of its first file, whose requirements all its files meet. -/
def Files.Fit (d : Files V) (i : TableInfo V) : Prop :=
  ∃ f fs, d.readAll i.paths = .ok (f :: fs) ∧ i.schema = f.schema ∧
    ∀ g ∈ f :: fs, Complete i g.frame.rows

theorem Files.Fit.congr {d d' : Files V} {i j : TableInfo V} (h : d.Fit i) (hp : j.paths = i.paths)
    (hs : j.schema = i.schema) (hd : ∀ p ∈ i.paths, d'.get? p = d.get? p) : d'.Fit j := by
  obtain ⟨f, fs, hread, hschema, hrows⟩ := h
  refine ⟨f, fs, ?_, hs.trans hschema, fun g hg => ?_⟩
  · rw [hp, Files.readAll_congr hd]
    exact hread
  · unfold Complete
    rw [hs]
    exact hrows g hg

/-- A required column is one of the schema. -/
theorem Schema.mem_names_of_required {s : Schema} {c : String} (h : c ∈ s.required) : c ∈ s.names := by
  obtain ⟨f, hf, rfl⟩ := List.mem_map.mp h
  exact List.mem_map.mpr ⟨f, List.mem_of_mem_filter hf, rfl⟩

/-- A batch that meets the declared NOT NULLs is complete where they cover the file's. -/
theorem Engine.Required.complete {i : TableInfo V} {f : Frame V} (h : Required i f)
    (hd : ∀ c ∈ i.schema.required, c ∈ i.constraints.notNull) : Complete i f.rows :=
  fun r hr c hc => h r hr c (Schema.mem_names_of_required hc) (hd c hc)

/-- Registering declares what the file requires. -/
theorem Catalog.mem_inherited (prior : Option (TableInfo V)) {required : List String} {c : String}
    (h : c ∈ required) : c ∈ (Catalog.inherited prior required).notNull := by
  unfold Catalog.inherited
  split
  · exact h
  · rename_i p
    by_cases hc : c ∈ p.constraints.notNull
    · exact List.mem_append_left _ hc
    · exact List.mem_append_right _ (List.mem_filter.mpr ⟨h, by simpa using hc⟩)

namespace Engine

/-- The batches a session can read are complete. -/
def Full (s : Session V) : Prop := ∀ t i, s.eng.catalog.tables.get? t = some i →
  (∀ b ∈ s.eng.delta.batchesWithTs t, Complete i b.2.rows) ∧
    ∀ f ∈ bufferedIn s t, Complete i f.rows

section Full

variable {s s' : Session V}

/-- Fewer batches under the same entries. -/
theorem Full.sub (h : Full s) (hc : s'.eng.catalog = s.eng.catalog)
    (hd : ∀ t, ∀ b ∈ s'.eng.delta.batchesWithTs t,
      b ∈ s.eng.delta.batchesWithTs t ∨ b.2 ∈ bufferedIn s t)
    (hb : ∀ t, ∀ f ∈ bufferedIn s' t, f ∈ bufferedIn s t) : Full s' := by
  intro t i hi
  rw [hc] at hi
  obtain ⟨hdelta, hbuf⟩ := h t i hi
  refine ⟨fun b hb' => ?_, fun f hf => hbuf f (hb t f hf)⟩
  rcases hd t b hb' with hold | hmoved
  · exact hdelta b hold
  · exact hbuf b.2 hmoved

theorem Full.quiet (h : Full s) (hq : Quiet s s') : Full s' :=
  h.sub hq.catalog (fun t b hb => Or.inl (by rw [hq.delta] at hb; exact hb))
    fun t f hf => by rw [hq.bufferedIn_eq] at hf; exact hf

/-- New batches come behind the old ones. -/
theorem Full.add (h : Full s) (hc : s'.eng.catalog = s.eng.catalog)
    (hd : ∀ t, s.eng.delta.batchesWithTs t <+: s'.eng.delta.batchesWithTs t)
    (hb : ∀ t, bufferedIn s t <+: bufferedIn s' t)
    (hnew : ∀ t i, s.eng.catalog.tables.get? t = some i →
      ∀ f ∈ newBatches s s' t, Complete i f.rows) : Full s' := by
  intro t i hi
  rw [hc] at hi
  obtain ⟨hdelta, hbuf⟩ := h t i hi
  have hfs := hnew t i hi
  obtain ⟨l, hl⟩ := hd t
  obtain ⟨m, hm⟩ := hb t
  have hadded : newBatches s s' t = l.map Prod.snd ++ m := by
    rw [newBatches, ← hl, ← hm, List.drop_left, List.drop_left]
  rw [hadded] at hfs
  rw [← hl, ← hm]
  constructor
  · intro b hb
    rcases List.mem_append.mp hb with hb | hb
    · exact hdelta b hb
    · exact hfs b.2 (List.mem_append_left _ (List.mem_map_of_mem hb))
  · intro f hf
    rcases List.mem_append.mp hf with hf | hf
    · exact hbuf f hf
    · exact hfs f (List.mem_append_right _ hf)

end Full

/-- A restore takes batches away. -/
theorem Full.restoreTo {s : Session V} (h : Full s) (ts : Int) : Full (Engine.restoreTo ts s).2 := by
  cases hx : s.txn with
  | some x =>
    have hraise : (Engine.restoreTo ts s).2 = s := by
      rw [Engine.restoreTo, Proc.get_bind, hx]
      rfl
    rw [hraise]
    exact h
  | none =>
    by_cases hle : ts ≤ s.eng.commitTs
    · obtain ⟨wal, snapshots, hs', -⟩ := restoreTo_state hx hle
      rw [hs']
      refine h.sub rfl (fun t b hb => ?_) fun t f hf => hf
      rw [DeltaStore.batchesWithTs_rewind, DeltaStore.batchesAtWithTs_eq] at hb
      exact Or.inl (List.mem_of_mem_filter hb)
    · rw [restoreTo_refused hx hle]
      exact h

theorem Full.restore {s : Session V} (h : Full s) (name : String) :
    Full (Engine.restore name s).2 := by
  unfold Engine.restore
  rw [Proc.get_bind]
  cases s.eng.snapshots.get? name with
  | none => exact h
  | some ts => exact h.restoreTo ts

section Statements

variable [DecidableEq V] {H : Host V} {s s' : Session V} {st : Stmt V}

omit [DecidableEq V] in
theorem writeCommit_extends (bs : List (Batch V)) (s : Session V) (t : String) :
    s.eng.delta.batchesWithTs t <+: (writeCommit H bs s).2.eng.delta.batchesWithTs t := by
  have hwrote := writeCommit_wrote H bs s
  generalize writeCommit H bs s = p at hwrote
  cases hwrote with
  | ok wal => rw [DeltaStore.batchesWithTs_addAll]; exact List.prefix_append _ _
  | error y wal => exact List.prefix_refl _

/-- What a write statement does to the batches: it adds some at the end. -/
theorem write_extends (hc : Pristine s) (hst : st.writes = true) (t : String) :
    s.eng.delta.batchesWithTs t <+: (sql H st s).2.eng.delta.batchesWithTs t ∧
      bufferedIn s t <+: bufferedIn (sql H st s).2 t := by
  have hconf : Confined (sql H st) := sql_confined (by rintro rfl; cases hst) (by rintro rfl; cases hst)
  have he := sql_effect H hc st
  generalize hs' : (sql H st s).2 = s' at he
  cases he with
  | quiet hq => rw [hq.delta, hq.bufferedIn_eq]; exact ⟨List.prefix_refl _, List.prefix_refl _⟩
  | @write s₁ u w bs hx hq hbs ht hw =>
    refine ⟨by rw [← hq.delta]; exact writeCommit_extends bs s₁ t, ?_⟩
    rw [bufferedIn, hx]
    exact List.nil_prefix
  | @buffer s₁ u w x hx hq hu hd hw =>
    refine ⟨by rw [← hq.delta], ?_⟩
    rw [bufferedIn, hx, bufferedIn]
    simp only [Flush.bufferBatches_buffered]
    exact List.prefix_append _ _
  | begin hst' hx => rw [hst'] at hst; cases hst
  | commit hst' hx => rw [hst'] at hst; cases hst
  | @rollback x hx =>
    -- a write statement does not end a transaction
    obtain ⟨-, y', hy', -⟩ := hconf s x hx
    rw [hs'] at hy'
    cases hy'
  | snapshot name => exact ⟨List.prefix_refl _, List.prefix_refl _⟩
  | restore hst' hx hn hle => rw [hst'] at hst; cases hst

/-- A write statement whose values are legible keeps the batches complete. -/
theorem Full.write (h : Full s) (hc : Pristine s) (hst : st.writes = true) (hres : Restored s)
    (hd : ∀ t i, s.eng.catalog.tables.get? t = some i →
      ∀ c ∈ i.schema.required, c ∈ i.constraints.notNull)
    (hl : SuppliesLegible H s st) : Full (sql H st s).2 := by
  have hcat : (sql H st s).2.eng.catalog = s.eng.catalog := (World.effect_fixed (sql_effect H hc st)).1
  rcases hrun : sql H st s with ⟨v, s'⟩
  cases v with
  | error y =>
    have hu := write_unharmed hst hres y s' hrun
    refine h.sub hu.catalog (fun t b hb => Or.inl (by rw [hu.delta] at hb; exact hb)) fun t f hf => ?_
    rw [bufferedIn, hu.txn] at hf
    exact hf
  | ok v =>
    have hext := write_extends (H := H) hc hst
    rw [hrun] at hcat hext
    refine h.add hcat (fun t => (hext t).1) (fun t => (hext t).2) fun t i hi f hf => ?_
    exact ((required_iff_legible hst hrun).mpr hl t i hi f hf).complete (hd t i hi)

/-- Every other statement brings no new rows. -/
theorem Full.other (h : Full s) (hc : Pristine s) (hst : st.writes = false) :
    Full (sql H st s).2 := by
  cases st with
  | insert n => cases hst
  | insertSelect n => cases hst
  | delete n => cases hst
  | update n => cases hst
  | merge n => cases hst
  | rejected e => exact h
  | createSnapshot name =>
    exact h.sub rfl (fun t b hb => Or.inl hb) fun t f hf => hf
  | select q =>
    rw [sql, state_map]
    exact h.quiet (exec_reads hc (Quiet.refl s) q).quiet
  | begin =>
    rw [sql, state_map begin_ fun _ => (Result.none : Result V)]
    unfold begin_
    split
    · exact h
    · refine h.sub rfl (fun t b hb => Or.inl hb) fun t f hf => ?_
      cases hf
  | rollback =>
    rw [sql, state_map rollback fun _ => (Result.none : Result V)]
    unfold rollback
    split
    · exact h
    · refine h.sub rfl (fun t b hb => Or.inl hb) fun t f hf => ?_
      cases hf
  | commit =>
    cases hx : s.txn with
    | none =>
      have hraise : (sql H .commit s).2 = s := by
        rw [sql, state_map (commit H) fun _ => (Result.none : Result V), commit, Proc.get_bind, hx]
        rfl
      rw [hraise]
      exact h
    | some x =>
      cases hr : (sql H .commit s).1 with
      | error y =>
        obtain ⟨hd, htxn⟩ := sql_commit_error hx hr
        refine h.sub (World.effect_fixed (sql_effect H hc .commit)).1
          (fun t b hb => Or.inl (by rw [hd] at hb; exact hb)) fun t f hf => ?_
        rw [bufferedIn, htxn] at hf
        rw [bufferedIn, hx]
        exact hf
      | ok v =>
        obtain ⟨e', hs', hcom, -, -⟩ := sql_commit_ok hx hr
        rw [hs']
        refine h.sub hcom.catalog (fun t b hb => ?_) fun t f hf => (by cases hf)
        rw [hcom.delta, DeltaStore.batchesWithTs_addAll, (commitBatches_carries H x t).1] at hb
        rcases List.mem_append.mp hb with hb | hb
        · exact Or.inl hb
        · obtain ⟨f, hf, rfl⟩ := List.mem_map.mp hb
          rw [bufferedIn, hx]
          exact Or.inr hf
  | restoreToSnapshot name =>
    rw [sql, state_map (Engine.restore name) fun _ => (Result.none : Result V)]
    exact h.restore name

end Statements

end Engine

/-! ## 3. Acts -/

namespace World

/-- Every table has files that fit its entry, NOT NULL where they require values, and complete batches. -/
structure Filled (w : World V) : Prop where
  files : ∀ t i, w.eng.catalog.tables.get? t = some i → w.eng.disk.parquet.Fit i
  declared : ∀ t i, w.eng.catalog.tables.get? t = some i →
    ∀ c ∈ i.schema.required, c ∈ i.constraints.notNull
  full : ∀ c, Full ⟨w.eng, w.txns.get? c, {}⟩

/-- Nothing hangs on what the act changes, what it registers can be scanned, and what it inserts can be
written under the schema of the file. -/
def Harmless [DecidableEq V] (H : Host V) (w : World V) : Act V → Prop
  | .conn (.sql c st faults) => Durable (.sql c st faults) ∧ faults.writesBack = false ∧
      (∀ t, erases st = some t → Keyed w.eng t) ∧ SuppliesLegible H (w.session c faults) st
  | .admin (.register t path) _ => Uncached w.eng t ∧ Idle w t ∧
      w.eng.disk.parquet.Uniform (resolveParquetPaths w.eng.disk.parquet path)
  | .admin (.drop t) _ => Idle w t
  | .admin (.rename old _) _ => Idle w old
  | .admin (.alter t a) _ => ∀ i, w.eng.catalog.tables.get? t = some i →
      ((a.change i.constraints).primaryKey ≠ i.constraints.primaryKey → Untombed w t) ∧
        ∀ c ∈ i.schema.required, a ≠ .notnullOff c
  | .admin .checkpoint q => w.hasOpenTxn = false →
      q.cancelAfter = none ∧ q.truncate = false ∧ Separate w.eng
  | .admin (.restore _) q => q.truncate = false
  | .admin (.restoreTo ts) q => 0 ≤ ts ∧ q.truncate = false
  | .upload t p _ => w.eng.disk.parquet.get? p = none ∧ Uncached w.eng t ∧ Idle w t
  | _ => True

section Filled

variable {H : Host V} {w : World V}

/-- The rows of an idle table are those of its files. -/
theorem Idle.no_batches {t : String} (h : w.Idle t) (c : Nat) :
    w.eng.delta.batchesWithTs t = [] ∧ bufferedIn ⟨w.eng, w.txns.get? c, {}⟩ t = [] := by
  constructor
  · have hnone : ¬ w.eng.delta.hasUnflushed t = true := by rw [h.1]; decide
    rw [DeltaStore.hasUnflushed_iff, not_or, not_not] at hnone
    exact hnone.1
  · unfold bufferedIn
    cases hx : w.txns.get? c with
    | none => rfl
    | some x =>
      have hnone : ¬ x.has t = true := by rw [h.2 c x hx]; decide
      rw [Transaction.has_iff, not_or, not_not] at hnone
      exact hnone.1

/-- Entries that changed where nothing hangs on them, or kept their schema. -/
theorem Filled.retable (h : Filled w) {e : Engine V} (hd : e.delta = w.eng.delta)
    (hentry : ∀ t i', e.catalog.tables.get? t = some i' →
      e.disk.parquet.Fit i' ∧ (∀ c ∈ i'.schema.required, c ∈ i'.constraints.notNull) ∧
        (w.Idle t ∨ ∃ i, w.eng.catalog.tables.get? t = some i ∧ i'.schema = i.schema)) :
    Filled { w with eng := e } where
  files t i' hi' := (hentry t i' hi').1
  declared t i' hi' := (hentry t i' hi').2.1
  full := by
    intro c t i' hi'
    have hbuf : bufferedIn ⟨e, w.txns.get? c, {}⟩ t = bufferedIn ⟨w.eng, w.txns.get? c, {}⟩ t := rfl
    change (∀ b ∈ e.delta.batchesWithTs t, _) ∧ ∀ f ∈ bufferedIn ⟨e, w.txns.get? c, {}⟩ t, _
    rw [hd, hbuf]
    rcases (hentry t i' hi').2.2 with hidle | ⟨i, hi, hs⟩
    · obtain ⟨hb, hx⟩ := hidle.no_batches c
      rw [hb, hx]
      exact ⟨by simp, by simp⟩
    · unfold Complete
      rw [hs]
      exact h.full c t i hi

/-- A table read from files of one shape. -/
theorem Filled.register (h : Filled w) {t : String} {paths : List Path} {i : TableInfo V}
    (hi : ReadFrom w.eng t paths i) (hidle : w.Idle t) (hu : w.eng.disk.parquet.Uniform paths) :
    Filled { w with eng := w.eng.withTables (w.eng.catalog.tables.set t i) } := by
  refine h.retable rfl fun u i' hi' => ?_
  change (w.eng.catalog.tables.set t i).get? u = some i' at hi'
  rw [withTables_parquet]
  rw [Dict.get?_set] at hi'
  split at hi'
  · rename_i hut
    cases hi'
    subst hut
    obtain ⟨f, fs, hread, hs⟩ := hi.files
    refine ⟨⟨f, fs, hread, hs, fun g hg => ?_⟩, fun c hc => ?_, Or.inl hidle⟩
    · unfold Complete
      rw [hs]
      exact (hu f fs (hi.paths ▸ hread) g hg).2
    · rw [hi.constraints]
      exact Catalog.mem_inherited _ hc
  · exact ⟨h.files u i' hi', h.declared u i' hi', Or.inr ⟨i', hi', rfl⟩⟩

theorem Filled.drop (h : Filled w) (t : String) : Filled { w with
    eng := (w.eng.withTables (w.eng.catalog.tables.erase t)).dropScanCacheFor t } := by
  refine h.retable rfl fun u i hi => ?_
  change (w.eng.catalog.tables.erase t).get? u = some i at hi
  rw [Dict.get?_erase] at hi
  change (w.eng.withTables _).disk.parquet.Fit i ∧ _
  rw [withTables_parquet]
  split at hi
  · cases hi
  · exact ⟨h.files u i hi, h.declared u i hi, Or.inr ⟨i, hi, rfl⟩⟩

theorem Filled.rename (h : Filled w) {old new : String} {i : TableInfo V}
    (hi : w.eng.catalog.tables.get? old = some i) (hnew : w.Idle new) : Filled { w with
      eng := (w.eng.withTables ((w.eng.catalog.tables.erase old).set new
        { i with name := new })).dropScanCacheFor old } := by
  refine h.retable rfl fun u j hj => ?_
  change ((w.eng.catalog.tables.erase old).set new { i with name := new }).get? u = some j at hj
  change (w.eng.withTables _).disk.parquet.Fit j ∧ _
  rw [withTables_parquet]
  rw [Dict.get?_set, Dict.get?_erase] at hj
  split at hj
  · rename_i hu
    cases hj
    subst hu
    exact ⟨(h.files old i hi).congr rfl rfl fun _ _ => rfl, h.declared old i hi, Or.inl hnew⟩
  · split at hj
    · cases hj
    · exact ⟨h.files u j hj, h.declared u j hj, Or.inr ⟨j, hj, rfl⟩⟩

/-- NOT NULL stays where the file requires values. -/
theorem Alter.change_declared {a : Alter V} {i : TableInfo V}
    (h : ∀ c ∈ i.schema.required, c ∈ i.constraints.notNull)
    (ha : ∀ c ∈ i.schema.required, a ≠ .notnullOff c) :
    ∀ c ∈ i.schema.required, c ∈ (a.change i.constraints).notNull := by
  intro c hc
  have hold := h c hc
  cases a with
  | pk cols => exact List.mem_append_left _ hold
  | pkClear => exact List.mem_append_left _ hold
  | notnull col =>
    simp only [Alter.change]
    split
    · exact hold
    · exact List.mem_append_left _ hold
  | notnullOff col =>
    refine List.mem_filter.mpr ⟨hold, ?_⟩
    have hne : c ≠ col := fun heq => ha c hc (heq ▸ rfl)
    simpa using hne
  | unique cols => exact hold
  | default col v => exact hold
  | dropDefault col => exact hold

theorem Filled.alter (h : Filled w) {t : String} {a : Alter V} {i : TableInfo V}
    (hi : w.eng.catalog.tables.get? t = some i) (ha : ∀ c ∈ i.schema.required, a ≠ .notnullOff c) :
    Filled { w with eng := w.eng.withTables (w.eng.catalog.tables.set t
      { i with constraints := a.change i.constraints }) } := by
  refine h.retable rfl fun u j hj => ?_
  change (w.eng.catalog.tables.set t _).get? u = some j at hj
  rw [withTables_parquet]
  rw [Dict.get?_set] at hj
  split at hj
  · rename_i hu
    cases hj
    subst hu
    exact ⟨(h.files u i hi).congr rfl rfl fun _ _ => rfl,
      Alter.change_declared (h.declared u i hi) ha, Or.inr ⟨i, hi, rfl⟩⟩
  · exact ⟨h.files u j hj, h.declared u j hj, Or.inr ⟨j, hj, rfl⟩⟩

/-- New files under new names change nothing. -/
theorem Filled.withFiles (h : Filled w) {d : Files V}
    (hd : ∀ p f, w.eng.disk.parquet.get? p = some f → d.get? p = some f) :
    Filled { w with eng := w.eng.withFiles d } := by
  refine h.retable rfl fun u i hi => ⟨?_, h.declared u i hi, Or.inr ⟨i, hi, rfl⟩⟩
  have hfit := h.files u i hi
  refine hfit.congr rfl rfl fun p hp => ?_
  obtain ⟨f, fs, hread, -⟩ := hfit
  obtain ⟨g, hg⟩ := Files.get?_of_readAll hread hp
  rw [hg]
  exact hd p g hg

/-- A reader outside a transaction merges the batches of the delta. -/
theorem Filled.delta (h : Filled w) {t : String} {i : TableInfo V}
    (hi : w.eng.catalog.tables.get? t = some i) :
    ∀ b ∈ w.eng.delta.batchesWithTs t, Complete i b.2.rows := (h.full 0 t i hi).1

variable [DecidableEq V]

/-- A restart reads the same files and the same log. -/
theorem Filled.restart (h : Filled w) (hh : Healthy H w.eng) : Filled (w.step H .restart) := by
  obtain ⟨log, hl⟩ := hh.logged
  have hsame := hl.recovers.1
  have hentry : ∀ t i', (w.step H .restart).eng.catalog.tables.get? t = some i' →
      ∃ i, w.eng.catalog.tables.get? t = some i ∧ i'.paths = i.paths ∧ i'.schema = i.schema ∧
        i'.constraints = i.constraints.reload := by
    intro t i' hi'
    cases hi : w.eng.catalog.tables.get? t with
    | none =>
      have hnone := start_entry_none (H := H) hh.saved hl.enabled hi
      rw [show (w.step H .restart).eng = start H w.eng.catalog.dataDir w.eng.disk from rfl,
        hnone] at hi'
      cases hi'
    | some i =>
      obtain ⟨j, hj, hpaths, hcons, f, fs, hread, hschema⟩ :=
        start_entry (H := H) hh.saved hl.enabled hh.readable hi
      rw [show (w.step H .restart).eng = start H w.eng.catalog.dataDir w.eng.disk from rfl, hj] at hi'
      cases hi'
      obtain ⟨f', fs', hread', hs', -⟩ := h.files t i hi
      rw [hread] at hread'
      cases hread'
      exact ⟨i, rfl, hpaths, hschema.trans hs'.symm, hcons⟩
  have hfiles : (w.step H .restart).eng.disk.parquet = w.eng.disk.parquet := start_parquet H _ _
  refine ⟨fun t i' hi' => ?_, fun t i' hi' c hc => ?_, fun c t i' hi' => ?_⟩
  · obtain ⟨i, hi, hpaths, hschema, -⟩ := hentry t i' hi'
    rw [hfiles]
    exact (h.files t i hi).congr hpaths hschema fun _ _ => rfl
  · obtain ⟨i, hi, -, hschema, hcons⟩ := hentry t i' hi'
    rw [hschema] at hc
    rw [hcons, TableConstraints.mem_reload_notNull]
    exact h.declared t i hi c hc
  · obtain ⟨i, hi, -, hschema, -⟩ := hentry t i' hi'
    refine ⟨fun b hb => ?_, fun f hf => (by cases hf)⟩
    have hb' : b ∈ (start H w.eng.catalog.dataDir w.eng.disk).delta.batchesWithTs t := hb
    rw [(hsame t).1] at hb'
    unfold Complete
    rw [hschema]
    exact h.delta hi b hb'

/-- The rows of a scan come from the files or from a batch. -/
theorem Filled.complete_seen (h : Filled w) {t : String} {i : TableInfo V}
    (hi : w.eng.catalog.tables.get? t = some i) :
    Complete i ((seen w.eng none t).map Prod.snd) := by
  intro x hx
  obtain ⟨y, hy, rfl⟩ := List.mem_map.mp hx
  rw [seen, hi] at hy
  rcases List.mem_append.mp (List.mem_of_mem_filter hy) with hbase | hins
  · obtain ⟨r, hr, rfl⟩ := List.mem_map.mp hbase
    obtain ⟨f, fs, hread, -, hrows⟩ := h.files t i hi
    unfold baseRows at hr
    split at hr
    · rename_i b hb
      unfold Files.scan at hb
      rw [hread] at hb
      simp only at hb
      split at hb
      · cases hb
      · rename_i g hg
        cases hb
        rw [(Frame.concat_ok hg).2.2] at hr
        obtain ⟨g', hg', hr⟩ := List.mem_flatMap.mp hr
        obtain ⟨k, hk, rfl⟩ := List.mem_map.mp hg'
        exact hrows k hk r hr
    · cases hr
  · obtain ⟨b, hb, hy⟩ := List.mem_flatMap.mp hins
    obtain ⟨r, hr, rfl⟩ := List.mem_map.mp hy
    exact h.delta hi b hb r hr

/-- **Every dirty table can be folded.** -/
theorem Filled.foldable (h : Filled w) (hu : Upright H w) : Foldable w.eng := by
  intro t ht
  obtain ⟨i, hi⟩ : ∃ i, w.eng.catalog.tables.get? t = some i := by
    rw [DeltaStore.hasUnflushed_iff] at ht
    rcases ht with hb | hb
    · obtain ⟨b, hb⟩ := List.exists_mem_of_ne_nil _ hb
      obtain ⟨-, i, hi, -⟩ := hu.sound.ok.delta.ins t b hb
      exact ⟨i, hi⟩
    · obtain ⟨b, hb⟩ := List.exists_mem_of_ne_nil _ hb
      obtain ⟨-, i, p, hi, -⟩ := hu.sound.ok.delta.tomb t b hb
      exact ⟨i, hi⟩
  obtain ⟨f, hf, hcols, hrows⟩ := look_seen hu.sound.ok (x := none) (fun _ hy => by cases hy) hi
  have hcomplete : Complete i f.rows := by
    rw [hrows]
    exact h.complete_seen hi
  obtain ⟨data, hdata, -⟩ := Parquet.cast_of (s := i.schema) hcols hcomplete
  refine ⟨⟨t, i, data⟩, ?_⟩
  rw [foldPure, get_eq_ok.mpr hi, hf]
  change (Parquet.cast f i.schema >>= fun data => _) = _
  rw [hdata]
  rfl

/-- A finished checkpoint leaves files that fit. -/
theorem Filled.checkpoint (h : Filled w) (hh : Healthy H w.eng) (hsep : Separate w.eng)
    (ho : ∀ c, w.txns.get? c = none) {q : Faults} {r : List (String × Nat)} {s' : Session V}
    (hr : Engine.checkpoint H ⟨w.eng, none, q⟩ = (.ok r, s')) : Filled { w with eng := s'.eng } := by
  rcases checkpoint_ok hh.saved hh.coherent hsep hr with ⟨-, rfl⟩ | ⟨s₁, hf, rfl⟩
  · exact h
  · have hall : ∀ t, w.eng.delta.hasUnflushed t = true →
        t ∈ H.setOrder w.eng.delta.tableNames :=
      fun t ht => (mem_targets (H := H) (s := ⟨w.eng, none, q⟩)).mpr ht
    have hentry : ∀ t i, s₁.eng.catalog.tables.get? t = some i → s₁.eng.disk.parquet.Fit i ∧
        ∀ c ∈ i.schema.required, c ∈ i.constraints.notNull := by
      intro t i hi
      by_cases ht : t ∈ H.setOrder w.eng.delta.tableNames
      · obtain ⟨⟨f, hfold⟩, -⟩ := hf.folded.done t ht
        rw [hfold.entry] at hi
        cases hi
        have hread : s₁.eng.disk.parquet.readAll [f.info.basePath] = .ok [f.data] := by
          simp only [Files.readAll, Files.read_ok.mpr hfold.file]
        refine ⟨⟨f.data, [], hread, rfl, fun g hg => ?_⟩, fun c hc => Catalog.mem_inherited _ hc⟩
        rw [List.mem_singleton.mp hg]
        exact f.data.required
      · rw [hf.folded.entry t ht] at hi
        exact ⟨(h.files t i hi).congr rfl rfl (hf.folded.files t i ht hi), h.declared t i hi⟩
    refine ⟨fun t i hi => (hentry t i hi).1, fun t i hi => (hentry t i hi).2, fun c t i hi => ?_⟩
    refine ⟨fun b hb => ?_, fun f hb => ?_⟩
    · rw [show (sealed s₁.eng w.eng.commitTs).delta.batchesWithTs t = [] from
        (hf.folded.empty hall t).1] at hb
      cases hb
    · unfold bufferedIn at hb
      rw [ho c] at hb
      cases hb

omit [DecidableEq V] in
/-- A restore takes batches away. -/
theorem Filled.rewind (h : Filled w) {q : Faults} {ts : Int} (hle : ts ≤ w.eng.commitTs) :
    Filled { w with eng := (Engine.restoreTo ts ⟨w.eng, none, q⟩).2.eng } := by
  obtain ⟨wal, snapshots, hs', -⟩ := restoreTo_state (s := ⟨w.eng, none, q⟩) rfl hle
  rw [hs']
  refine ⟨h.files, h.declared, fun c => (h.full c).sub rfl (fun t b hb => ?_) fun t f hf => hf⟩
  change b ∈ (w.eng.delta.rewind ts).batchesWithTs t at hb
  rw [DeltaStore.batchesWithTs_rewind, DeltaStore.batchesAtWithTs_eq] at hb
  exact Or.inl (List.mem_of_mem_filter hb)

/-- A statement keeps the world filled. -/
theorem Filled.sql (h : Filled w) (hc : Coherent w.eng) {c : Nat} {st : Stmt V} {faults : Faults}
    (ha : Harmless H w (.conn (.sql c st faults))) : Filled (w.sql H c st faults).2 := by
  obtain ⟨⟨hres, -⟩, halone, -, hlegible⟩ := ha
  have hs : Full (w.session c faults) := h.full c
  have hfull : Full (Engine.sql H st (w.session c faults)).2 := by
    cases hst : st.writes with
    | true => exact hs.write ⟨hc, halone⟩ hst hres h.declared hlegible
    | false => exact hs.other ⟨hc, halone⟩ hst
  obtain ⟨hcat, hfiles, -⟩ := effect_fixed (Engine.sql_effect H (s := w.session c faults) ⟨hc, halone⟩ st)
  change Filled (w.store c (Engine.sql H st (w.session c faults)).2)
  generalize (Engine.sql H st (w.session c faults)).2 = s' at hfull hcat hfiles
  have htables : (w.store c s').eng.catalog = w.eng.catalog := hcat
  have hparquet : (w.store c s').eng.disk.parquet = w.eng.disk.parquet := hfiles
  refine ⟨fun t i hi => ?_, fun t i hi => ?_, fun d t i hi => ?_⟩
  · rw [htables] at hi
    rw [hparquet]
    exact h.files t i hi
  · rw [htables] at hi
    exact h.declared t i hi
  · have hd := hfull t i hi
    refine ⟨hd.1, ?_⟩
    by_cases hdc : d = c
    · have hx : (w.store c s').txns.get? d = s'.txn := by rw [store_txns, if_pos hdc]
      rw [hx]
      exact hd.2
    · have hx : (w.store c s').txns.get? d = w.txns.get? d := by rw [store_txns, if_neg hdc]
      rw [hx]
      exact (h.full d t i (htables ▸ hi)).2

end Filled

section Acts

variable {H : Host V} {w : World V}

/-- Nothing hangs on a name that is free. -/
theorem Upright.idle (h : Upright H w) {t : String} (ht : w.eng.catalog.tables.get? t = none) :
    w.Idle t := by
  have hno : ∀ i, w.eng.catalog.tables.get? t ≠ some i := fun i hi => by rw [ht] at hi; cases hi
  constructor
  · by_contra hne
    rw [Bool.not_eq_false, DeltaStore.hasUnflushed_iff] at hne
    rcases hne with hb | hb
    · obtain ⟨b, hb⟩ := List.exists_mem_of_ne_nil _ hb
      obtain ⟨-, i, hi, -⟩ := h.sound.ok.delta.ins t b hb
      exact hno i hi
    · obtain ⟨b, hb⟩ := List.exists_mem_of_ne_nil _ hb
      obtain ⟨-, i, p, hi, -⟩ := h.sound.ok.delta.tomb t b hb
      exact hno i hi
  · intro c x hx
    by_contra hne
    rw [Bool.not_eq_false, Transaction.has_iff] at hne
    rcases hne with hb | hb
    · obtain ⟨f, hf⟩ := List.exists_mem_of_ne_nil _ hb
      obtain ⟨i, hi, -⟩ := (h.txns c x hx).ins t f hf
      exact hno i hi
    · obtain ⟨g, hg⟩ := List.exists_mem_of_ne_nil _ hb
      obtain ⟨i, p, hi, -⟩ := (h.txns c x hx).tomb t g hg
      exact hno i hi

variable [DecidableEq V]

/-- A harmless act is careful: the tables a checkpoint folds can be folded. -/
theorem Harmless.careful {a : Act V} (ha : Harmless H w a) (hu : Upright H w) (hf : Filled w) :
    Careful w a := by
  cases a with
  | conn a =>
    cases a with
    | sql c st faults => exact ⟨ha.1, ha.2.1⟩
    | disconnect c => exact ⟨trivial, trivial⟩
    | restart => exact ⟨trivial, trivial⟩
  | upload t p payload => exact ⟨ha.1, ha.2.1⟩
  | admin a q =>
    cases a with
    | register t path => exact ha.1
    | checkpoint =>
      intro ho
      obtain ⟨hcancel, htr, hsep⟩ := ha ho
      exact ⟨hcancel, htr, hsep, hf.foldable hu⟩
    | restore name => exact ha
    | restoreTo ts => exact ha
    | _ => trivial

theorem Upright.harmless {a : Act V} (hu : Upright H w) (hf : Filled w) (ha : Harmless H w a) :
    Upright H (w.act H a) := by
  have hc := ha.careful hu hf
  cases a with
  | conn a =>
    refine upright_act w (.conn a) hu ⟨hc, ?_⟩
    cases a with
    | sql c st faults => exact ha.2.2.1
    | _ => trivial
  | upload t p payload => exact upright_act w _ hu ⟨hc, ha.2.2⟩
  | admin a q =>
    cases a with
    | register t path =>
      exact upright_act w _ hu ⟨hc, ha.2.1, fun f fs hread g hg => (ha.2.2 f fs hread g hg).1⟩
    | drop t => exact upright_act w _ hu ⟨hc, ha⟩
    | rename old new => exact upright_act w _ hu ⟨hc, ha⟩
    | alter t a =>
      change Upright H { w with eng := (runAdmin H w.hasOpenTxn (.alter t a) ⟨w.eng, none, q⟩).2.eng }
      have hcases := runAdmin_cases (H := H) (s := ⟨w.eng, none, q⟩) w.hasOpenTxn rfl (.alter t a)
      generalize (runAdmin H w.hasOpenTxn (.alter t a) ⟨w.eng, none, q⟩).2.eng = e at hcases ⊢
      cases hcases with
      | refused => exact hu
      | alter hi => exact hu.alter hi (ha _ hi).1
    | _ => exact upright_act w _ hu ⟨hc, trivial⟩

theorem Filled.admin {a : Admin V} {q : Faults} (h : Filled w) (hu : Upright H w)
    (ha : Harmless H w (.admin a q)) : Filled (w.admin H a q).2 := by
  change Filled { w with eng := (runAdmin H w.hasOpenTxn a ⟨w.eng, none, q⟩).2.eng }
  have hcases := runAdmin_cases (H := H) (s := ⟨w.eng, none, q⟩) w.hasOpenTxn rfl a
  generalize (runAdmin H w.hasOpenTxn a ⟨w.eng, none, q⟩).2.eng = e at hcases ⊢
  cases hcases with
  | refused => exact h
  | register hi => exact h.register hi ha.2.1 ha.2.2
  | @drop t => exact h.drop t
  | rename hi hnew => exact h.rename hi (hu.idle hnew)
  | alter hi => exact h.alter hi (ha _ hi).2
  | checkpoint ho =>
    obtain ⟨hcancel, htr, hsep⟩ := ha ho
    obtain ⟨r, s', hr⟩ := checkpoint_returns (H := H) (s := ⟨w.eng, none, q⟩) rfl hu.healthy.dataDir
      hu.healthy.saved hu.healthy.coherent hsep (h.foldable hu) hcancel htr
    rw [hr]
    exact h.checkpoint hu.healthy hsep (hasOpenTxn_eq_false.mp ho) hr
  | snapshot name => exact ⟨h.files, h.declared, h.full⟩
  | restore ho hn hle => exact h.rewind hle
  | restoreTo ho hle => exact h.rewind hle
  | clearCache which =>
    split
    · exact h
    · exact ⟨h.files, h.declared, h.full⟩

/-- **Harmless acts keep the world upright and filled.** -/
theorem harmless_act (w : World V) (a : Act V) (h : Upright H w ∧ Filled w) (ha : Harmless H w a) :
    Upright H (w.act H a) ∧ Filled (w.act H a) := by
  obtain ⟨hu, hf⟩ := h
  refine ⟨hu.harmless hf ha, ?_⟩
  cases a with
  | admin a q => exact hf.admin hu ha
  | conn a =>
    cases a with
    | sql c st faults => exact hf.sql hu.sound.ok.coherent ha
    | restart => exact hf.restart hu.healthy
    | disconnect c =>
      refine ⟨hf.files, hf.declared, fun d t i hi => ⟨hf.delta hi, ?_⟩⟩
      change ∀ f ∈ bufferedIn ⟨w.eng, (w.txns.erase c).get? d, {}⟩ t, _
      rw [Dict.get?_erase]
      split
      · intro f hf
        cases hf
      · exact (hf.full d t i hi).2
  | upload t p payload =>
    obtain ⟨hfresh, hun, hidle⟩ := ha
    change Filled { w with eng := (runUpload t p payload ⟨w.eng, none, {}⟩).2.eng }
    rcases runUpload_cases (s := ⟨w.eng, none, {}⟩) t p payload hfresh with
      ⟨d, hd, he⟩ | ⟨data, i, -, hi, he⟩
    · rw [he]
      exact hf.withFiles fun q f hq => by rw [hd q]; exact hq
    · rw [he]
      refine (hf.withFiles fun q f => Files.get?_set_fresh hfresh data).register hi hidle
        fun f fs hread g hg => ?_
      have hg' : g = f := by
        simp only [Files.readAll] at hread
        split at hread
        · cases hread
        · cases hread
          exact List.mem_singleton.mp hg
      rw [hg']
      exact ⟨rfl, f.required⟩

omit [DecidableEq V] in
theorem filled_init (H : Host V) (dir : String) (files : Files V) :
    Filled (World.init H (some dir) ⟨files, none, none⟩) :=
  ⟨fun t i hi => (by cases hi), fun t i hi => (by cases hi), fun c t i hi => (by cases hi)⟩

end Acts

/-! ## 4. What readers see -/

section Readers

variable [DecidableEq V] {H : Host V} {w : World V}

/-- The rows a `SELECT *` of connection `c` shows, inside its transaction if it has one. -/
def shown (w : World V) (c : Nat) (t : String) : Except DbError (List (Row V)) :=
  match w.txns.get? c with
  | none => visible w.eng t
  | some x => visibleIn w.eng x t

theorem shown_eq (hc : Coherent w.eng) (c : Nat) (t : String) :
    w.shown c t = (look w.eng (w.txns.get? c) t none).map Frame.rows := by
  unfold shown
  cases w.txns.get? c with
  | none => exact visible_eq hc t
  | some x => exact visibleIn_eq hc x t

omit [DecidableEq V] in
/-- Inside or outside its transaction a reader merges nothing over an idle table. -/
theorem Idle.entries {t : String} (h : w.Idle t) (c : Nat) :
    insertEntries ⟨w.eng, w.txns.get? c, {}⟩ t = [] ∧ tombEntries ⟨w.eng, w.txns.get? c, {}⟩ t = [] := by
  refine hasPending_false ?_
  unfold hasPending
  cases hx : w.txns.get? c with
  | none => simp [h.1]
  | some x => simp [h.1, h.2 c x hx]

omit [DecidableEq V] in
/-- No tombstone names the table, so no reader merges one. -/
theorem Untombed.entries {t : String} (h : w.Untombed t) (c : Nat) :
    tombEntries ⟨w.eng, w.txns.get? c, {}⟩ t = [] := by
  unfold tombEntries
  cases hx : w.txns.get? c with
  | none => exact h.1
  | some x =>
    simp only [DeltaStore.tombstonesAtWithTs_eq, h.1, h.2 c x hx, List.filter_nil, List.map_nil,
      List.append_nil]

end Readers

end World

namespace Engine

variable [DecidableEq V]

/-- **What a reader of a table depends on**: its files, what is merged over them, and the declared key
where a tombstone is. -/
theorem look_eq_of_entries {e e' : Engine V} {x : Option (Transaction V)} {t u : String}
    {i j : TableInfo V} (hi : e.catalog.tables.get? t = some i)
    (hj : e'.catalog.tables.get? u = some j) (hp : j.paths = i.paths)
    (hd : ∀ p ∈ i.paths, e'.disk.parquet.get? p = e.disk.parquet.get? p)
    (hins : insertEntries ⟨e', x, {}⟩ u = insertEntries ⟨e, x, {}⟩ t)
    (htomb : tombEntries ⟨e', x, {}⟩ u = tombEntries ⟨e, x, {}⟩ t)
    (hk : tombEntries ⟨e, x, {}⟩ t = [] ∨ j.constraints.primaryKey = i.constraints.primaryKey) :
    look e' x u none = look e x t none := by
  rw [look_none, look_none, lookBase_ok hi, lookBase_ok hj, hp, Files.scan_congr none hd, hins, htomb]
  have hmerge : ∀ b : Frame V, mergePure e'.catalog u b (insertEntries ⟨e, x, {}⟩ t)
      (tombEntries ⟨e, x, {}⟩ t) = mergePure e.catalog t b (insertEntries ⟨e, x, {}⟩ t)
        (tombEntries ⟨e, x, {}⟩ t) := by
    intro b
    rcases hk with hk | hk
    · rw [hk]
      rfl
    · have hpk : primaryKeyOf e'.catalog u = primaryKeyOf e.catalog t := by
        rw [primaryKeyOf, primaryKeyOf, get_eq_ok.mpr hi, get_eq_ok.mpr hj]
        exact congrArg _ hk
      rw [mergePure, mergePure, hpk]
  simp only [hmerge]

end Engine

/-! ## 5. Administration keeps the rows -/

namespace World

variable [DecidableEq V] {H : Host V} {w w' : World V} {q : Faults} {detail : Detail}

/-- Administration of a world changes no data: what a rename, a registration under a free name and an
`alter` do to the rows that readers see, each where it is harmless, and that a checkpoint succeeds. -/
structure KeepsRows (H : Host V) (w : World V) : Prop where
  rename : ∀ old new q detail w', Harmless H w (.admin (.rename old new) q) →
    w.admin H (.rename old new) q = (.ok detail, w') → ∀ c, w'.shown c new = w.shown c old ∧
      ∀ t i, w.eng.catalog.tables.get? t = some i → t ≠ old → w'.shown c t = w.shown c t
  drop : ∀ t q detail w', Harmless H w (.admin (.drop t) q) →
    w.admin H (.drop t) q = (.ok detail, w') → w'.eng.catalog.tables.get? t = none ∧
      ∀ c u i, w.eng.catalog.tables.get? u = some i → u ≠ t → w'.shown c u = w.shown c u
  register : ∀ t path q detail w', w.eng.catalog.tables.get? t = none →
    Harmless H w (.admin (.register t path) q) →
    w.admin H (.register t path) q = (.ok detail, w') → ∀ c,
      (∃ f, w.eng.disk.parquet.scan (resolveParquetPaths w.eng.disk.parquet path) none = .ok f ∧
        w'.shown c t = .ok f.rows) ∧
      ∀ u i, w.eng.catalog.tables.get? u = some i → w'.shown c u = w.shown c u
  alter : ∀ t a q, Harmless H w (.admin (.alter t a) q) → ∀ c u i,
    w.eng.catalog.tables.get? u = some i → (w.admin H (.alter t a) q).2.shown c u = w.shown c u
  checkpoint : ∀ q, w.hasOpenTxn = false → Harmless H w (.admin .checkpoint q) →
    ∃ written, (w.admin H .checkpoint q).1 = .ok (.tables written)

omit [DecidableEq V] in
/-- A change of the catalog that went through, and what came after it. -/
theorem changeCatalog_ok {f : Catalog V → Disk V → Except DbError (Catalog V × Disk V)}
    {s s' : Session V} {k : Unit → Op V Detail} (h : (changeCatalog f >>= k) s = (.ok detail, s')) :
    ∃ c d, f s.eng.catalog s.eng.disk = .ok (c, d) ∧
      k () { s with eng := { s.eng with catalog := c, disk := d } } = (.ok detail, s') := by
  rcases changeCatalog_cases (f := f) s with ⟨x, hr⟩ | ⟨c, d, hf, hr⟩
  · rw [Proc.bind_of_error hr] at h
    cases h
  · rw [Proc.bind_of_ok hr] at h
    exact ⟨c, d, hf, h⟩

theorem admin_ok {a : Admin V} (h : w.admin H a q = (.ok detail, w')) :
    ∃ s', runAdmin H w.hasOpenTxn a ⟨w.eng, none, q⟩ = (.ok detail, s') ∧
      w' = { w with eng := s'.eng } := by
  obtain ⟨h₁, h₂⟩ := Prod.mk.inj h
  exact ⟨_, Prod.ext h₁ rfl, h₂.symm⟩

/-- A rename that went through. -/
theorem rename_ok {old new : String} (h : w.admin H (.rename old new) q = (.ok detail, w')) :
    ∃ i, w.eng.catalog.tables.get? old = some i ∧ w.eng.catalog.tables.get? new = none ∧
      w' = { w with eng := (w.eng.withTables ((w.eng.catalog.tables.erase old).set new
        { i with name := new })).dropScanCacheFor old } := by
  obtain ⟨s', hrun, rfl⟩ := admin_ok h
  obtain ⟨c, d, hf, hk⟩ := changeCatalog_ok hrun
  cases hk
  obtain ⟨i, hi, hnew, rfl, rfl⟩ := Catalog.renameTable_ok hf
  exact ⟨i, hi, hnew, rfl⟩

/-- A drop that went through. -/
theorem drop_ok {t : String} (h : w.admin H (.drop t) q = (.ok detail, w')) :
    w' = { w with eng := (w.eng.withTables (w.eng.catalog.tables.erase t)).dropScanCacheFor t } := by
  obtain ⟨s', hrun, rfl⟩ := admin_ok h
  obtain ⟨c, d, hf, hk⟩ := changeCatalog_ok hrun
  cases hk
  obtain ⟨rfl, rfl⟩ := Catalog.dropTable_ok hf
  rfl

/-- A registration that went through. -/
theorem register_ok {t : String} {path : PathArg}
    (h : w.admin H (.register t path) q = (.ok detail, w')) : ∃ i,
      ReadFrom w.eng t (resolveParquetPaths w.eng.disk.parquet path) i ∧
        w' = { w with eng := w.eng.withTables (w.eng.catalog.tables.set t i) } := by
  obtain ⟨s', hrun, rfl⟩ := admin_ok h
  obtain ⟨c, d, hf, hk⟩ := changeCatalog_ok hrun
  cases hk
  obtain ⟨i, f, fs, hread, hres, hschema, hcons, rfl, rfl⟩ := Catalog.register_ok hf
  exact ⟨i, ⟨hres.symm, ⟨f, fs, hread, hschema⟩, hcons⟩, rfl⟩

/-- Entries that kept their files, where the merged batches are the same, show the same rows. -/
theorem shown_eq_of {e : Engine V} (hc : Coherent w.eng) (hc' : Coherent e) {c : Nat} {t u : String}
    {i j : TableInfo V} (hi : w.eng.catalog.tables.get? t = some i)
    (hj : e.catalog.tables.get? u = some j) (hp : j.paths = i.paths)
    (hd : e.disk.parquet = w.eng.disk.parquet)
    (hins : insertEntries ⟨e, w.txns.get? c, {}⟩ u = insertEntries ⟨w.eng, w.txns.get? c, {}⟩ t)
    (htomb : tombEntries ⟨e, w.txns.get? c, {}⟩ u = tombEntries ⟨w.eng, w.txns.get? c, {}⟩ t)
    (hk : tombEntries ⟨w.eng, w.txns.get? c, {}⟩ t = [] ∨
      j.constraints.primaryKey = i.constraints.primaryKey) :
    ({ w with eng := e } : World V).shown c u = w.shown c t := by
  rw [shown_eq hc, shown_eq hc']
  change (look e (w.txns.get? c) u none).map Frame.rows = _
  rw [look_eq_of_entries hi hj hp (fun p _ => by rw [hd]) hins htomb hk]

/-- Tables that kept their entry show the same rows. -/
theorem shown_eq_of_same {e : Engine V} (hc : Coherent w.eng) (hc' : Coherent e) {c : Nat}
    {t : String} {i : TableInfo V} (hi : w.eng.catalog.tables.get? t = some i)
    (hj : e.catalog.tables.get? t = some i) (hd : e.disk.parquet = w.eng.disk.parquet)
    (hdelta : e.delta = w.eng.delta) : ({ w with eng := e } : World V).shown c t = w.shown c t := by
  refine shown_eq_of hc hc' hi hj rfl hd ?_ ?_ (Or.inr rfl)
  · simp only [insertEntries, hdelta]
  · simp only [tombEntries, hdelta]

/-- A table over which nothing is merged shows its files. -/
theorem shown_of_idle (hc : Coherent w.eng) {t : String} {i : TableInfo V} (hidle : w.Idle t)
    (hi : w.eng.catalog.tables.get? t = some i) {f : Frame V}
    (hf : w.eng.disk.parquet.scan i.paths none = .ok f) (c : Nat) : w.shown c t = .ok f.rows := by
  obtain ⟨hins, htomb⟩ := hidle.entries c
  rw [shown_eq hc, look_none, lookBase_ok hi, hf, hins, htomb]
  rfl

/-- A rename of an idle table shows it under its new name, and every other one as before. -/
theorem Upright.shown_rename (hu : Upright H w) {old new : String} (hidle : w.Idle old)
    (hc' : Coherent w'.eng) (h : w.admin H (.rename old new) q = (.ok detail, w')) (c : Nat) :
    w'.shown c new = w.shown c old ∧
      ∀ t i, w.eng.catalog.tables.get? t = some i → t ≠ old → w'.shown c t = w.shown c t := by
  have hc := hu.sound.ok.coherent
  obtain ⟨i, hi, hnew, rfl⟩ := rename_ok h
  have hget : ∀ u, ((w.eng.catalog.tables.erase old).set new { i with name := new }).get? u =
      if u = new then some { i with name := new }
      else if u = old then none else w.eng.catalog.tables.get? u := by
    intro u
    rw [Dict.get?_set, Dict.get?_erase]
  have hfiles : (w.eng.withTables ((w.eng.catalog.tables.erase old).set new
      { i with name := new })).disk.parquet = w.eng.disk.parquet := withTables_parquet
  obtain ⟨hins, htomb⟩ := hidle.entries c
  obtain ⟨hins', htomb'⟩ := (hu.idle hnew).entries c
  refine ⟨shown_eq_of hc hc' hi ((hget new).trans (if_pos rfl)) rfl hfiles ?_ ?_ (Or.inl htomb), ?_⟩
  · rw [hins]
    exact hins'
  · rw [htomb]
    exact htomb'
  · intro t j hj ht
    have hne : t ≠ new := by
      rintro rfl
      rw [hnew] at hj
      cases hj
    exact shown_eq_of_same hc hc' hj (((hget t).trans (if_neg hne)).trans ((if_neg ht).trans hj))
      hfiles rfl

/-- An `alter` that is harmless shows every table as before. -/
theorem Upright.shown_alter (hu : Upright H w) (hf : Filled w) {t : String} {a : Alter V}
    (ha : Harmless H w (.admin (.alter t a) q)) (c : Nat) {u : String} {j : TableInfo V}
    (hj : w.eng.catalog.tables.get? u = some j) :
    (w.admin H (.alter t a) q).2.shown c u = w.shown c u := by
  have hc := hu.sound.ok.coherent
  have hc' := (hu.harmless hf ha).sound.ok.coherent
  have hcases := runAdmin_cases (H := H) (s := ⟨w.eng, none, q⟩) w.hasOpenTxn rfl (.alter t a)
  change Coherent (runAdmin H w.hasOpenTxn (.alter t a) ⟨w.eng, none, q⟩).2.eng at hc'
  change ({ w with eng := (runAdmin H w.hasOpenTxn (.alter t a) ⟨w.eng, none, q⟩).2.eng } :
    World V).shown c u = _
  generalize (runAdmin H w.hasOpenTxn (.alter t a) ⟨w.eng, none, q⟩).2.eng = e at hcases hc' ⊢
  cases hcases with
  | refused => rfl
  | @alter _ _ i hi =>
    have hget : ∀ v, (w.eng.catalog.tables.set t { i with
        constraints := a.change i.constraints }).get? v =
          if v = t then some { i with constraints := a.change i.constraints }
          else w.eng.catalog.tables.get? v := fun v => Dict.get?_set _ _ _ _
    by_cases hut : u = t
    · subst hut
      obtain rfl : i = j := Option.some.inj (hi.symm.trans hj)
      refine shown_eq_of hc hc' hi ((hget u).trans (if_pos rfl)) rfl withTables_parquet rfl rfl ?_
      by_cases hk : (a.change i.constraints).primaryKey = i.constraints.primaryKey
      · exact Or.inr hk
      · exact Or.inl (((ha i hi).1 hk).entries c)
    · exact shown_eq_of_same hc hc' hj (((hget u).trans (if_neg hut)).trans hj)
        withTables_parquet rfl

/-- An upright and filled world keeps its rows. -/
theorem Upright.keepsRows (hu : Upright H w) (hf : Filled w) : KeepsRows H w := by
  have hc := hu.sound.ok.coherent
  have hafter : ∀ {a q detail w'}, Harmless H w (.admin a q) → w.admin H a q = (.ok detail, w') →
      Upright H w' := by
    intro a q detail w' ha h
    have hw' : w.act H (.admin a q) = w' := congrArg Prod.snd h
    rw [← hw']
    exact hu.harmless hf ha
  constructor
  case rename =>
    exact fun old new q detail w' ha h => hu.shown_rename ha (hafter ha h).sound.ok.coherent h
  case drop =>
    intro t q detail w' ha h
    have hc' := (hafter ha h).sound.ok.coherent
    obtain rfl := drop_ok h
    have hget : ∀ u, (w.eng.catalog.tables.erase t).get? u =
        if u = t then none else w.eng.catalog.tables.get? u := fun u => Dict.get?_erase _ _ _
    refine ⟨(hget t).trans (if_pos rfl), fun c u i hi hu => ?_⟩
    exact shown_eq_of_same hc hc' hi (((hget u).trans (if_neg hu)).trans hi)
      withTables_parquet rfl
  case register =>
    intro t path q detail w' ht ha h c
    have hw' := hafter ha h
    obtain ⟨i, hi, rfl⟩ := register_ok h
    have hget : ∀ u, (w.eng.catalog.tables.set t i).get? u =
        if u = t then some i else w.eng.catalog.tables.get? u := fun u => Dict.get?_set _ _ _ _
    obtain ⟨f, hscan, -⟩ := hw'.sound.ok.base t i ((hget t).trans (if_pos rfl))
    refine ⟨⟨f, ?_, ?_⟩, fun u j hj => ?_⟩
    · rw [← hi.paths, ← hscan, withTables_parquet]
    · exact shown_of_idle hw'.sound.ok.coherent (w := { w with eng := w.eng.withTables _ })
        (hu.idle ht) ((hget t).trans (if_pos rfl)) hscan c
    · have hne : u ≠ t := by
        rintro rfl
        rw [ht] at hj
        cases hj
      exact shown_eq_of_same hc hw'.sound.ok.coherent hj (((hget u).trans (if_neg hne)).trans hj)
        withTables_parquet rfl
  case alter => exact fun t a q ha c u j hj => hu.shown_alter hf ha c hj
  case checkpoint =>
    intro q ho ha
    obtain ⟨hcancel, htr, hsep⟩ := ha ho
    obtain ⟨r, s', hr⟩ := checkpoint_returns (H := H) (s := ⟨w.eng, none, q⟩) rfl hu.healthy.dataDir
      hu.healthy.saved hc hsep (hf.foldable hu) hcancel htr
    refine ⟨r, ?_⟩
    unfold World.admin
    simp only [runAdmin, ho, Bool.false_eq_true, if_false]
    rw [Proc.bind_of_ok hr]
    rfl

/-- **Administration does not change data.**  In every world reached from a data directory by harmless
acts, for every reader: a rename keeps the rows of the table under its new name, a dropped name is free and
a free name that is registered shows the rows of the files and no others, an `alter` changes no row of any
table, none of these touches another table, and a checkpoint with no transaction open succeeds.  Every
state is plain and its values fit: `pa.Table.cast` refuses a value that has too many digits for its
column, and a frame that `_merge_delta` has taken a column from. -/
theorem catalog_acts (H : Host V) (M : Merger V) (dir : String) (files : Files V) {acts : List (Act V)}
    (hacts : Run.Along (World.act H) (fun w a =>
      Harmless H w a ∧ (w.act H a).Plain M ∧ (w.act H a).eng.Storable M)
      (World.init H (some dir) ⟨files, none, none⟩) acts) :
    KeepsRows H (Run.run (World.act H) (World.init H (some dir) ⟨files, none, none⟩) acts) := by
  obtain ⟨hu, hf⟩ := (hacts.mono fun _ _ ha => ha.1).invariant (P := fun w => Upright H w ∧ Filled w) harmless_act
    ⟨upright_init H dir files, filled_init H dir files⟩
  exact hu.keepsRows hf

/-- A row in an upload, folded into its file. -/
@[irreducible] def oneFolded : World Nat := oneUpload.act natHost (.admin .checkpoint {})

/-- **A folded table is renamed.**  The delta is empty after the checkpoint, and the row is shown under the
new name. -/
theorem catalog_acts_rename : column ((oneFolded.admin natHost (.rename "a" "b") {}).2.shown 0 "b") =
    .ok [some 1] := by
  have hsep : Separate oneUpload.eng := by
    have hkeys : oneUpload.eng.catalog.tables.keys = ["a"] := by decide +kernel
    have honly : ∀ u i, oneUpload.eng.catalog.tables.get? u = some i → u = "a" := by
      intro u i hi
      have hmem := (oneUpload.eng.catalog.tables.mem_keys u).mpr ⟨i, hi⟩
      rw [hkeys] at hmem
      exact List.mem_singleton.mp hmem
    intro u i v j hi _ hj hne
    exact absurd ((honly v j hj).trans (honly u i hi).symm) hne
  have hrun : oneFolded = Run.run (World.act natHost) (World.init natHost (some "d") ⟨∅, none, none⟩)
      [uploadEmpty "a" "1.parquet", .conn (.sql 0 (insertKey "a" 1) {}), .admin .checkpoint {}] := by
    unfold oneFolded
    rw [oneUpload_eq]
    rfl
  have hacts : Run.Along (World.act natHost)
      (fun w a => Harmless natHost w a ∧ (w.act natHost a).Plain natMerger ∧
        (w.act natHost a).eng.Storable natMerger)
      (World.init natHost (some "d") ⟨∅, none, none⟩)
      [uploadEmpty "a" "1.parquet", .conn (.sql 0 (insertKey "a" 1) {}), .admin .checkpoint {}] := by
    refine ⟨⟨⟨rfl, fun cols => rfl, rfl, ?_⟩, World.plain_natMerger ?_, Engine.storable_natMerger _⟩,
      ⟨⟨⟨by simp, by simp [insertKey]⟩, rfl, ?_, ?_⟩, World.plain_natMerger ?_, Engine.storable_natMerger _⟩,
      ⟨fun _ => ⟨rfl, rfl, ?_⟩, World.plain_natMerger ?_, Engine.storable_natMerger _⟩, trivial⟩
    · intro c x hx
      cases hx
    · decide +kernel
    · intro t ht
      cases ht
    · intro i _ row _ c _ _ v _ h
      cases h
    · decide +kernel
    · rw [oneUpload_eq] at hsep
      exact hsep
    · decide +kernel
  have hkept := catalog_acts natHost natMerger "d" ∅ hacts
  rw [← hrun] at hkept
  have hidle : oneFolded.Idle "a" := by
    refine ⟨by decide +kernel, fun c x hx => ?_⟩
    have hkeys : oneFolded.txns.keys = [] := by decide +kernel
    have hmem := (oneFolded.txns.mem_keys c).mpr ⟨x, hx⟩
    rw [hkeys] at hmem
    cases hmem
  have hok : (oneFolded.admin natHost (.rename "a" "b") {}).1.toBool = true := by decide +kernel
  obtain ⟨detail, hdetail⟩ := exists_of_toBool hok
  rw [(hkept.rename "a" "b" {} detail _ hidle (Prod.ext hdetail rfl) 0).1]
  decide +kernel

/-! ## 6. A delta under the old name -/

/-- The world after a rename of `a` to `b` while its only row is in the delta. -/
@[irreducible] def renamedDirty : World Nat := (oneUpload.admin natHost (.rename "a" "b") {}).2

/-- The world after `a` was dropped over its delta and registered again over the empty file of `b`. -/
@[irreducible] def replacedDirty : World Nat :=
  ((twoUploads.admin natHost (.drop "a") {}).2.admin natHost
    (.register "a" (.file ⟨"d/uploads", "2.parquet"⟩)) {}).2

/-- The world after the key of `a` was cleared over a tombstone. -/
@[irreducible] def clearedDirty : World Nat := (oneDelete.admin natHost (.alter "a" .pkClear) {}).2

/-- **The delta stays behind.**  A rename loses the row that was inserted, and no checkpoint succeeds any
more; a name that was dropped shows the old row over a new file without rows; a table whose key was cleared
after a delete cannot be read. -/
theorem rename_leaves_delta :
    ((oneUpload.admin natHost (.rename "a" "b") {}).1.toBool = true ∧
      column (oneUpload.shown 0 "a") = .ok [some 1] ∧ column (renamedDirty.shown 0 "b") = .ok [] ∧
      renamedDirty.hasOpenTxn = false ∧ (renamedDirty.admin natHost .checkpoint {}).1.toBool = false) ∧
    ((twoUploads.admin natHost (.drop "a") {}).1.toBool = true ∧
      (replacedDirty.eng.disk.parquet.get? ⟨"d/uploads", "2.parquet"⟩).map
        (fun f => f.frame.rows.length) = some 0 ∧
      column (replacedDirty.shown 0 "a") = .ok [some 1]) ∧
    ((oneDelete.admin natHost (.alter "a" .pkClear) {}).1.toBool = true ∧
      column (oneDelete.shown 0 "a") = .ok [some 2] ∧ (clearedDirty.shown 0 "a").toBool = false) := by
  exact ⟨⟨by decide +kernel, by decide +kernel, by decide +kernel, by decide +kernel,
    by decide +kernel⟩, ⟨by decide +kernel, by decide +kernel, by decide +kernel⟩, by decide +kernel,
    by decide +kernel, by decide +kernel⟩

end World

end RyuDB
