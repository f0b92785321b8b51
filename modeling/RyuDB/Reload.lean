/-
# What start-up finds

`Catalog(data_dir)` rebuilds the catalog from the saved names, paths and constraints and from the
files.  `load_get` says where every loaded entry comes from, `load_save` what a saved catalog
becomes when it is loaded over possibly different files: an entry whose files cannot be read is
dropped, a cleared primary key becomes no primary key, and everything read from the files is
theirs.  `sound_start` uses the first: a process that starts on a disk without a log, whose tables
each have files of one shape, is sound.  `saved_load` says that start-up leaves the saved catalog
and the loaded one in agreement.

Nothing is asked of the files when a catalog is loaded.  A table whose files are gone or cannot be
read is dropped from the catalog in memory and stays in the saved one until the next `_save`, so a
restart can lose a table for good; the theorems say which tables stay, and under which constraints.
-/
import RyuDB.Sound
import RyuDB.NatHost

namespace RyuDB

variable {V : Type}

namespace Catalog

/-! ## 1. Loading -/

theorem loadEntry_get (d : Files V) (c : Catalog V) (e : SavedTable V) (t : String) :
    (loadEntry d c e).tables.get? t =
      if t = e.name then
        match infoOf d e.name e.paths (TableConstraints.fromDict e.constraints) with
        | .ok i => some i
        | .error _ => c.tables.get? t
      else c.tables.get? t := by
  unfold loadEntry
  cases infoOf d e.name e.paths (TableConstraints.fromDict e.constraints) with
  | error y => simp
  | ok i => simp

/-- Every loaded entry was built from a saved one. -/
theorem load_get {dir : Option String} {d : Disk V} {t : String} {i : TableInfo V}
    (h : (load dir d).tables.get? t = some i) : ∃ saved e, d.catalog = some saved ∧ e ∈ saved ∧
      e.name = t ∧ infoOf d.parquet t e.paths (TableConstraints.fromDict e.constraints) = .ok i := by
  unfold load at h
  split at h
  · rename_i dir saved hsaved
    suffices hfold : ∀ l : List (SavedTable V), (l.foldl (loadEntry d.parquet)
        ⟨some dir, ∅⟩).tables.get? t = some i → ∃ e ∈ l, e.name = t ∧
          infoOf d.parquet t e.paths (TableConstraints.fromDict e.constraints) = .ok i by
      obtain ⟨e, he, hname, hinfo⟩ := hfold saved h
      exact ⟨saved, e, hsaved, he, hname, hinfo⟩
    intro l
    induction l using List.reverseRecOn with
    | nil => exact fun h => by cases h
    | append_singleton l e ih =>
      intro h
      rw [List.foldl_append, List.foldl_cons, List.foldl_nil, loadEntry_get] at h
      have hprev : (l.foldl (loadEntry d.parquet) ⟨some dir, ∅⟩).tables.get? t = some i →
          ∃ e' ∈ l ++ [e], e'.name = t ∧
            infoOf d.parquet t e'.paths (TableConstraints.fromDict e'.constraints) = .ok i := by
        intro h
        obtain ⟨e', he', hrest⟩ := ih h
        exact ⟨e', List.mem_append_left _ he', hrest⟩
      split at h
      · rename_i ht
        split at h
        · rename_i i' hi'
          cases h
          exact ⟨e, by simp, ht.symm, by rw [ht]; exact hi'⟩
        · exact hprev h
      · exact hprev h
  · cases h

theorem load_eq_foldl (dir : String) (d : Disk V) : load (some dir) d =
    (d.catalog.getD []).foldl (loadEntry d.parquet) ⟨some dir, ∅⟩ := by
  unfold load
  cases d.catalog <;> rfl

/-- **A saved catalog, loaded again.** -/
theorem load_save {c : Catalog V} {dir : String} {d : Disk V}
    (hd : d.catalog.getD [] = c.saved) (t : String) : (load (some dir) d).tables.get? t =
      match c.tables.get? t with
      | none => none
      | some i =>
        match infoOf d.parquet t i.paths i.constraints.reload with
        | .ok i' => some i'
        | .error _ => none := by
  rw [load_eq_foldl, hd]
  simp only [saved, Dict.get?]
  have hnd := c.tables.nodup
  generalize c.tables.entries = l at hnd
  suffices hfold : ∀ (l : List (String × TableInfo V)) (c₀ : Catalog V),
      (l.map Prod.fst).Nodup → (∀ e ∈ l, c₀.tables.get? e.1 = none) →
      ((l.map fun e => (⟨e.1, e.2.paths, e.2.constraints.toDict⟩ : SavedTable V)).foldl
        (loadEntry d.parquet) c₀).tables.get? t =
      match Dict.find t l with
      | none => c₀.tables.get? t
      | some i =>
        match infoOf d.parquet t i.paths i.constraints.reload with
        | .ok i' => some i'
        | .error _ => none by
    exact hfold l ⟨some dir, ∅⟩ hnd fun e _ => rfl
  intro l
  induction l with
  | nil => exact fun c₀ _ _ => rfl
  | cons e l ih =>
    intro c₀ hnd hfree
    obtain ⟨k, i⟩ := e
    simp only [List.map_cons, List.nodup_cons] at hnd
    rw [List.map_cons, List.foldl_cons, ih _ hnd.2]
    · simp only [Dict.find]
      by_cases hk : k = t
      · subst hk
        rw [if_pos rfl, Dict.find_eq_none hnd.1]
        simp only [loadEntry_get, if_true]
        have hinfo : infoOf d.parquet k i.paths (TableConstraints.fromDict i.constraints.toDict) =
            infoOf d.parquet k i.paths i.constraints.reload := rfl
        rw [hinfo]
        cases infoOf d.parquet k i.paths i.constraints.reload with
        | ok i' => rfl
        | error y => exact hfree (k, i) List.mem_cons_self
      · rw [if_neg hk]
        cases Dict.find t l with
        | none => simp only [loadEntry_get, if_neg fun h : t = k => hk h.symm]
        | some i' => rfl
    · intro e' he'
      have hne : e'.1 ≠ k := fun h => hnd.1 (h ▸ List.mem_map_of_mem (f := Prod.fst) he')
      rw [loadEntry_get, if_neg hne]
      exact hfree e' (List.mem_cons_of_mem _ he')

/-- Saving what was loaded writes the same list again, when every table could be read. -/
theorem saved_load {c : Catalog V} {dir : String} {d : Disk V} (hd : d.catalog.getD [] = c.saved)
    (hr : ∀ t i, c.tables.get? t = some i →
      ∃ f fs, d.parquet.readAll i.paths = .ok (f :: fs)) :
    (load (some dir) d).saved = c.saved := by
  suffices hfold : ∀ (l : List (String × TableInfo V)) (c₀ : Catalog V),
      (l.map Prod.fst).Nodup → (∀ e ∈ l, c₀.tables.get? e.1 = none) →
      (∀ e ∈ l, ∃ f fs, d.parquet.readAll e.2.paths = .ok (f :: fs)) →
      ((l.map fun e => (⟨e.1, e.2.paths, e.2.constraints.toDict⟩ : SavedTable V)).foldl
        (loadEntry d.parquet) c₀).saved =
          c₀.saved ++ l.map fun e => ⟨e.1, e.2.paths, e.2.constraints.toDict⟩ by
    rw [load_eq_foldl, hd]
    exact hfold c.tables.entries ⟨some dir, ∅⟩ c.tables.nodup (fun e _ => rfl) fun e he =>
      hr e.1 e.2 ((c.tables.mem_entries e.1 e.2).mp he)
  intro l
  induction l with
  | nil => exact fun c₀ _ _ _ => (List.append_nil _).symm
  | cons e l ih =>
    intro c₀ hnd hfree hread
    simp only [List.map_cons, List.nodup_cons] at hnd
    obtain ⟨f, fs, hf⟩ := hread e List.mem_cons_self
    obtain ⟨i, hi⟩ := infoOf_of_readAll hf e.1 e.2.constraints.reload
    obtain ⟨-, -, -, hpaths, -, hcons⟩ := infoOf_ok hi
    have hload : loadEntry d.parquet c₀ ⟨e.1, e.2.paths, e.2.constraints.toDict⟩ =
        { c₀ with tables := c₀.tables.set e.1 i } := by
      unfold loadEntry
      rw [show infoOf d.parquet e.1 e.2.paths (TableConstraints.fromDict e.2.constraints.toDict) =
        .ok i from hi]
    rw [List.map_cons, List.foldl_cons, hload, ih _ hnd.2]
    · rw [saved, saved, Dict.entries_set (hfree e List.mem_cons_self), List.map_append,
        List.map_singleton, hpaths, hcons, TableConstraints.toDict_reload, List.append_assoc,
        List.singleton_append]
    · intro e' he'
      have hne : e'.1 ≠ e.1 := fun h => hnd.1 (h ▸ List.mem_map_of_mem (f := Prod.fst) he')
      rw [Dict.get?_set, if_neg hne]
      exact hfree e' (List.mem_cons_of_mem _ he')
    · exact fun e' he' => hread e' (List.mem_cons_of_mem _ he')

end Catalog

namespace Engine

variable (H : Host V) (dir : Option String) (d : Disk V)

theorem start_catalog : (start H dir d).catalog = Catalog.load dir d := by
  unfold start
  simp only
  split <;> rfl

theorem start_parquet : (start H dir d).disk.parquet = d.parquet := by
  unfold start
  simp only
  split <;> rfl

theorem start_savedCatalog : (start H dir d).disk.catalog = d.catalog := by
  unfold start
  simp only
  split <;> rfl

end Engine

/-! ## 2. Starting on a fresh log -/

/-- The files of every saved table have the same columns. -/
def Disk.Uniform (d : Disk V) : Prop := ∀ saved, d.catalog = some saved → ∀ e ∈ saved, ∀ fs,
  d.parquet.readAll e.paths = .ok fs → ∀ f ∈ fs, ∀ g ∈ fs, f.frame.columns = g.frame.columns

theorem Files.scan_of_uniform {d : Files V} {paths : List Path} {f : Parquet V}
    {fs : List (Parquet V)} (h : d.readAll paths = .ok (f :: fs))
    (hu : ∀ g ∈ f :: fs, g.frame.columns = f.frame.columns) :
    ∃ b, d.scan paths none = .ok b ∧ b.columns = f.frame.columns := by
  have hcols : ∀ g ∈ (f :: fs).map Parquet.frame, g.columns = f.frame.columns := by
    intro g hg
    obtain ⟨q, hq, rfl⟩ := List.mem_map.mp hg
    exact hu q hq
  obtain ⟨g, hg⟩ := Frame.concat_of_columns hcols
  refine ⟨g, ?_, (Frame.concat_ok hg).2.1⟩
  rw [scan, h]
  simp only [hg]

/-- **A fresh process is sound.** -/
theorem Engine.sound_start (H : Host V) (dir : Option String) {d : Disk V} (hw : d.wal = none)
    (hu : d.Uniform) : Sound (Engine.start H dir d) := by
  have hstart : Engine.start H dir d =
      ⟨Catalog.load dir d, ∅, DeltaStore.empty, 0, ∅, d⟩ := by
    unfold Engine.start
    rw [hw]
    cases dir <;> rfl
  rw [hstart]
  refine ⟨⟨?_, ?_, ?_⟩, le_refl _, ?_⟩
  · intro t cols f hf
    cases hf
  · intro t i hi
    obtain ⟨saved, e, hs, he, -, hinfo⟩ := Catalog.load_get hi
    obtain ⟨f, fs, hread, hpaths, hschema, -⟩ := Catalog.infoOf_ok hinfo
    obtain ⟨b, hb, hbc⟩ := Files.scan_of_uniform hread fun g hg =>
      hu saved hs e he _ hread g hg f List.mem_cons_self
    refine ⟨b, by rw [hpaths]; exact hb, ?_⟩
    rw [hbc, f.names, TableInfo.columns, hschema]
  · exact ⟨fun t b hb => (by cases hb), fun t b hb => (by cases hb)⟩
  · intro n ts hn
    cases hn

/-- Start-up reads an empty primary key as none. -/
theorem Engine.start_keyed (H : Host V) (dir : Option String) (d : Disk V) (t : String) :
    Keyed (Engine.start H dir d) t := by
  intro i hi hp
  rw [start_catalog] at hi
  obtain ⟨saved, e, -, -, -, hinfo⟩ := Catalog.load_get hi
  obtain ⟨f, fs, -, -, -, hcons⟩ := Catalog.infoOf_ok hinfo
  rw [hcons, TableConstraints.fromDict] at hp
  simp only at hp
  cases hk : e.constraints.primaryKey with
  | none => rw [hk] at hp; cases hp
  | some l =>
    rw [hk] at hp
    cases l with
    | nil => cases hp
    | cons c l => cases hp

theorem World.settled_init (H : Host V) (dir : Option String) {d : Disk V} (hw : d.wal = none)
    (hu : d.Uniform) : World.Settled (World.init H dir d) :=
  ⟨Engine.sound_start H dir hw hu, Engine.start_keyed H dir d, fun c y hy => by cases hy⟩

/-! ## 3. The sample directory -/

/-- A process that starts on `oneTable`. -/
@[irreducible] def started : World Nat := World.init natHost (some "d") oneTable

theorem started_settled : World.Settled started := by
  unfold started
  refine World.settled_init natHost (some "d") rfl ?_
  intro saved hs e he fs hfs f hf g hg
  cases hs
  rw [List.mem_singleton] at he
  subst he
  cases hfs
  rw [List.mem_singleton.mp hf, List.mem_singleton.mp hg]

theorem started_table {t : String} {i : TableInfo Nat}
    (h : started.eng.catalog.tables.get? t = some i) : t = "t" := by
  unfold started at h
  obtain ⟨saved, e, hs, he, rfl, -⟩ := Catalog.load_get h
  cases hs
  rw [List.mem_singleton] at he
  rw [he]

theorem started_idle (c : Nat) : started.txns.get? c = none := by
  unfold started
  rfl

/-- The outcome of a statement is a value, checked by evaluation. -/
theorem exists_of_toBool {α : Type} {r : Except DbError α} (h : r.toBool = true) :
    ∃ a, r = .ok a := by
  cases r with
  | ok a => exact ⟨a, rfl⟩
  | error y => cases h

end RyuDB
